import BuildRequirements.Files.Storage
import BuildRequirements.Proofs.Files.Changes

namespace BuildRequirements

open FileTree

variable {storage : Storage} {t u : FileTree} {append : Bool} {path : String} {bytes : List UInt8}
  {f : Fault} {p q : Location}

theorem FileTree.node?_removeBelow (gone : List Location) (hq : Location.isAbove p q = false) :
    (t.removeBelow p gone).node? q = t.node? q := by
  have hgone : ∀ r ∈ gone.filter p.isAbove, ¬r <:+ q := by
    intro r hr hrq
    have hpr := (List.mem_filter.mp hr).2
    simp only [Location.isAbove, Bool.and_eq_true, List.isSuffixOf_iff_suffix, bne_iff_ne] at hpr
    have hne : p ≠ q := by
      rintro rfl
      exact hpr.2 (hpr.1.eq_of_length_le hrq.length_le)
    simp [Location.isAbove, List.isSuffixOf_iff_suffix, hpr.1.trans hrq, hne] at hq
  rw [removeBelow]
  generalize gone.filter p.isAbove = places at hgone
  induction places generalizing t with
  | nil => rfl
  | cons r places ih =>
    rw [List.foldl_cons, ih fun p hp => hgone p (List.mem_cons_of_mem _ hp)]
    exact node?_remove_of_not_suffix [] (hgone r (List.mem_cons_self ..))

namespace Storage

theorem write_eq_ok (h : storage.write append path bytes t = (u, .ok ())) :
    t.write append path bytes = .ok u := by
  rw [write] at h
  split at h
  · split at h
    · rename_i v hv
      rw [hv, (Prod.mk.inj h).1]
    · cases h
  · cases h
  · split at h <;> cases h

theorem write_eq_error (h : storage.write append path bytes t = (u, .error f)) :
    u = t ∨ ∃ reached why, storage.stop t path bytes = some (.cut reached why) ∧
      f = ⟨.refused why, .writeContent⟩ ∧ t.write append path (bytes.take reached) = .ok u := by
  rw [write] at h
  split at h
  · split at h
    · cases h
    · exact Or.inl (Prod.mk.inj h).1.symm
  · exact Or.inl (Prod.mk.inj h).1.symm
  · rename_i reached why hstop
    split at h
    · rename_i v hv
      obtain ⟨rfl, hf⟩ := Prod.mk.inj h
      exact Or.inr ⟨reached, why, hstop, (Except.error.inj hf).symm, hv⟩
    · exact Or.inl (Prod.mk.inj h).1.symm

theorem eq_of_sound_write (h : sound.write append path bytes t = (u, .error f)) : u = t := by
  rcases write_eq_error h with hu | ⟨reached, why, hstop, _⟩
  · exact hu
  · cases hstop

theorem sound_remove (path : String) (t : FileTree) :
    sound.remove path t =
      match t.removeAt path with
      | .ok u => (u, .ok ())
      | .error f => (t, .error f) := by
  rw [remove]
  cases t.removeAt path with
  | error f => rfl
  | ok u => cases t.locate path <;> rfl

theorem node?_remove (storage : Storage) (hq : ¬destination path <:+ q) :
    (storage.remove path t).1.node? q = t.node? q := by
  rw [remove]
  split
  · rfl
  · rename_i u hu
    split
    · rename_i p hold hp hhold
      split
      · exact removeAt_eq_ok hu hq
      · rw [← locate_eq_ok hp] at hq
        exact node?_removeBelow _ (isAbove_eq_false hq)
    · exact removeAt_eq_ok hu hq

theorem remove_eq_error (h : (storage.remove path t).2 = .error f) :
    t.removeAt path = .error f ∨ ∃ hold, storage.hold t path = some hold ∧ f = hold.fault := by
  rw [remove] at h
  split at h
  · rename_i g hg
    exact Or.inl (hg.trans (congrArg Except.error (Except.error.inj h)))
  · split at h
    · rename_i p hold hp hhold
      split at h
      · cases h
      · exact Or.inr ⟨hold, hhold, (Except.error.inj h).symm⟩
    · cases h

end Storage

end BuildRequirements
