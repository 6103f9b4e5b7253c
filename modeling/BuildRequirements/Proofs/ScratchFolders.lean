import BuildRequirements.Proofs.Files.Storage
import BuildRequirements.Proofs.Files.Normal
import BuildRequirements.Proofs.Runs.After
import BuildRequirements.Scratch

namespace BuildRequirements.Scratch

open FileTree Run

def location (root stem : String) (n : Nat) : Location := (stem ++ numeral n) :: destination root

theorem length_numeral (n : Nat) : 6 ≤ (numeral n).toList.length := by
  simp only [numeral, String.toList_ofList, List.leftpad, List.length_append,
    List.length_replicate]
  omega

theorem slash_not_mem_numeral (n : Nat) : '/' ∉ (numeral n).toList := by
  simp only [numeral, String.toList_ofList, List.leftpad, List.mem_append, not_or]
  constructor
  · intro h
    have := List.eq_of_mem_replicate h
    cases this
  · intro h
    have hd := Nat.isDigit_of_mem_toDigits (by decide) (by decide) h
    cases hd

theorem isPlain_append_numeral {stem : String} (h : Path.IsPlain stem) (n : Nat) :
    Path.IsPlain (stem ++ numeral n) := by
  have hl := length_numeral n
  have hlen : 6 ≤ (stem ++ numeral n).toList.length := by
    rw [String.toList_append, List.length_append]
    omega
  have hne (other : String) (ho : other.toList.length < 6) : stem ++ numeral n ≠ other := by
    rintro rfl
    omega
  refine ⟨?_, hne ".." (by decide), ?_⟩
  · simp only [Path.stays, Bool.or_eq_false_iff, beq_eq_false_iff_ne]
    exact ⟨hne "" (by decide), hne "." (by decide)⟩
  · rw [String.toList_append, List.mem_append, not_or]
    exact ⟨h.2.2, slash_not_mem_numeral n⟩

theorem isPlain_logName : Path.IsPlain logName := by
  refine ⟨by decide, by decide, by decide⟩

section Paths

variable {root stem : String} {t : FileTree} {q : Location}

theorem parts_numbered (hr : root ≠ "") (hs : Path.IsPlain stem) (n : Nat) :
    Path.parts (Path.join root stem ++ numeral n) = Path.settledParts root ++ [stem ++ numeral n] := by
  rw [Path.parts_append_of_not_mem _ (slash_not_mem_numeral n), Path.parts_join hr hs]
  simp [List.getLastD_eq_getLast?]

theorem parts_folder (hr : root ≠ "") (hs : Path.IsPlain stem) (n : Nat) :
    ∃ front, Path.parts (Path.join root stem) = front ++ [stem] ∧
      Path.parts (Path.join root stem ++ numeral n) = front ++ [stem ++ numeral n] ∧
      follow [] front = destination root ∧
      ∀ q ∈ placesAlong [] front, q <:+ destination root :=
  ⟨Path.settledParts root, Path.parts_join hr hs, parts_numbered hr hs n, Path.destination_settledParts root,
    fun _ => Path.suffix_of_mem_settledParts⟩

theorem folder_ne (root stem : String) (n : Nat) : Path.join root stem ++ numeral n ≠ "" := by
  intro he
  have hl := length_numeral n
  have hlen := congrArg (fun x => x.toList.length) he
  rw [String.toList_append, List.length_append] at hlen
  have hz : "".toList.length = 0 := rfl
  omega

theorem destination_folder (hr : root ≠ "") (hs : Path.IsPlain stem) (n : Nat) :
    destination (Path.join root stem ++ numeral n) = location root stem n := by
  obtain ⟨front, _, hp, hf, _⟩ := parts_folder hr hs n
  have hn := isPlain_append_numeral hs n
  rw [destination, hp, follow_append, hf, follow_last, hn.1, if_neg (by simp), if_neg hn.2.1]
  rfl

theorem way_folder (hr : root ≠ "") (hs : Path.IsPlain stem) (n : Nat)
    (hq : q ∈ way (Path.join root stem ++ numeral n)) : q <:+ location root stem n := by
  obtain ⟨front, _, hp, hf, hfront⟩ := parts_folder hr hs n
  have hn := isPlain_append_numeral hs n
  rw [way, hp, mem_placesAlong_append, hf] at hq
  rcases hq with hq | hq
  · exact (hfront q hq).trans (List.suffix_cons _ _)
  · simp only [placesAlong, hn.1, hn.2.1, Bool.false_eq_true, if_false, List.mem_cons,
      List.not_mem_nil, or_false] at hq
    rcases hq with rfl | rfl
    · exact List.suffix_cons _ _
    · exact List.suffix_refl _

theorem locate_folder (hr : root ≠ "") (hs : Path.IsPlain stem) (n : Nat)
    (ht : t.node? (destination root) = some .folder) :
    t.locate (Path.join root stem ++ numeral n) = .ok (location root stem n) := by
  obtain ⟨front, _, hp, _, hfront⟩ := parts_folder hr hs n
  have he : t.enter [] (Path.parts (Path.join root stem ++ numeral n)).dropLast =
      .ok (follow [] front) := by
    rw [hp, List.dropLast_concat]
    exact enter_of_folders fun q hq => folder_of_suffix ht (hfront q hq)
  rw [← destination_folder hr hs n]
  exact locate_of_enter (folder_ne root stem n) he

theorem destination_log {folder : String} (hf : folder ≠ "") :
    destination (Path.join folder logName) = logName :: destination folder := by
  have hn := isPlain_logName
  rw [Path.destination_join hf hn.ne_empty, Path.parts_of_not_mem hn.2.2, follow_last, hn.1,
    if_neg (by simp), if_neg hn.2.1]

theorem log_ne {folder : String} (hf : folder ≠ "") : Path.join folder logName ≠ "" := by
  obtain ⟨front, hp, _⟩ := Path.parts_join_name hf isPlain_logName
  intro he
  have hempty : Path.parts "" = [""] := by decide
  rw [he, hempty] at hp
  have hlast := congrArg List.getLast? hp
  rw [List.getLast?_concat] at hlast
  exact absurd (Option.some.inj hlast) (by decide)

theorem locate_log {folder : String} (hf : folder ≠ "")
    (ht : t.node? (destination folder) = some .folder) :
    t.locate (Path.join folder logName) = .ok (logName :: destination folder) := by
  obtain ⟨front, hp, hfollow, hfront⟩ := Path.parts_join_name hf isPlain_logName
  have he : t.enter [] (Path.parts (Path.join folder logName)).dropLast =
      .ok (follow [] front) := by
    rw [hp, List.dropLast_concat]
    exact enter_of_folders fun q hq => folder_of_suffix ht (hfront q hq)
  rw [← destination_log hf]
  exact locate_of_enter (log_ne hf) he

theorem locateFile_log {folder : String} (hf : folder ≠ "")
    (ht : t.node? (destination folder) = some .folder)
    (hn : t.node? (logName :: destination folder) ≠ some .folder) :
    t.locateFile (Path.join folder logName) = .ok (logName, destination folder) := by
  obtain ⟨front, hp, hfollow, hfront⟩ := Path.parts_join_name hf isPlain_logName
  have hplain := isPlain_logName
  have he : t.enter [] front = .ok (destination folder) := by
    rw [← hfollow]
    exact enter_of_folders fun q hq => folder_of_suffix ht (hfront q hq)
  have hdrop : (logName :: front.reverse).dropWhile (· = "") = logName :: front.reverse := by
    rw [List.dropWhile_cons, if_neg (by simpa using hplain.ne_empty)]
  simp only [locateFile, if_neg (log_ne hf), hp, List.reverse_append, List.reverse_singleton,
    List.singleton_append, hdrop, List.tail_cons, List.reverse_reverse, he, List.headD_cons, bind,
    Except.bind]
  rw [if_neg]
  · rfl
  · simp [hplain.1, hplain.2.1, hn]

theorem exists_write_log {folder : String} (hf : folder ≠ "")
    (ht : t.node? (destination folder) = some .folder)
    (hn : t.node? (logName :: destination folder) ≠ some .folder) (bytes : List UInt8) :
    ∃ u, t.write false (Path.join folder logName) bytes = .ok u := by
  rw [FileTree.write, locateFile_log hf ht hn]
  exact ⟨_, rfl⟩

theorem textAt_log_of_blocked {folder : String} {content : List UInt8} (hf : folder ≠ "")
    (hq : q <:+ destination folder) (hfile : t.node? q = some (.file content)) :
    ∃ f, textAt t (Path.join folder logName) = .error f := by
  obtain ⟨front, hp, hfollow, hfront⟩ := Path.parts_join_name hf isPlain_logName
  rw [← hfollow] at hq hfront
  have hlocate : t.locate (Path.join folder logName) = .error .notFolder := by
    rw [locate, if_neg (log_ne hf), hp, List.dropLast_concat, enter_blocked hfront hq hfile]
    rfl
  rw [textAt, FileTree.read, hlocate]
  exact ⟨_, rfl⟩

theorem textAt_log_of_folder {folder : String} (hf : folder ≠ "")
    (ht : t.node? (destination folder) = some .folder)
    (hn : t.node? (logName :: destination folder) ≠ some .folder) :
    textAt t (Path.join folder logName) =
      .ok (Text.Utf8.decode (t.contentAt (logName :: destination folder))) := by
  rw [textAt, FileTree.read, locate_log hf ht, contentAt, file?]
  dsimp only
  cases hnode : t.node? (logName :: destination folder) with
  | none => rfl
  | some n =>
    cases n with
    | folder => exact absurd hnode hn
    | file content => rfl

theorem textAt_log {folder text : String} (hf : folder ≠ "")
    (ht : t.node? (destination folder) = some .folder)
    (h : textAt t (Path.join folder logName) = .ok text) :
    text = Text.Utf8.decode (t.contentAt (logName :: destination folder)) := by
  rw [textAt, FileTree.read, locate_log hf ht] at h
  dsimp only at h
  rw [contentAt, file?]
  cases hn : t.node? (logName :: destination folder) with
  | none =>
    rw [hn] at h
    exact (Except.ok.inj h).symm
  | some n =>
    rw [hn] at h
    cases n with
    | folder => cases h
    | file content => exact (Except.ok.inj h).symm

end Paths

structure IsMade (root stem : String) (s : RunState) (w : Scratch) (t : RunState) : Prop where
  root_ne : root ≠ ""
  folder_eq : w.folder = Path.join root stem ++ numeral (s.scratchCount + 1)
  log_eq : w.log = Path.join w.folder logName
  root_folders : ∀ q ∈ way root, (s.files.makeFolders root).1.node? q = some .folder
  vacant : (s.files.makeFolders root).1.isVacant (location root stem (s.scratchCount + 1)) = true
  node?_eq : ∀ q, t.files.node? q = if q = location root stem (s.scratchCount + 1) then
    some .folder else (s.files.makeFolders root).1.node? q
  state_eq : t = { s with files := t.files, scratchCount := s.scratchCount + 1 }

section Create

variable {root stem : String} {s : RunState} {w : Scratch} {e : Interruption}

theorem node?_put_folder {t : FileTree} (name : String) {dir : Location}
    (hd : t.node? dir = some .folder) (q : Location) :
    (t.put name dir .folder).node? q = if q = name :: dir then some .folder else t.node? q := by
  by_cases hf : t.node? (name :: dir) = some .folder
  · rw [put, dif_neg fun h => h.2 hf]
    by_cases hq : q = name :: dir
    · rw [if_pos hq, hq, hf]
    · rw [if_neg hq]
  · exact node?_put .folder hd hf q

theorem place_eq_ok {t : FileTree} {p : Location × String} (hr : root ≠ "") (hs : Path.IsPlain stem)
    (h : place t (Path.join root stem) = .ok p) : p = (destination root, stem) := by
  obtain ⟨front, hp, _, hf, _⟩ := parts_folder hr hs 0
  rw [place, hp, List.dropLast_concat] at h
  cases he : t.enter [] front with
  | error cause => rw [he] at h; cases h
  | ok dir =>
    rw [he] at h
    rw [← Except.ok.inj h, enter_eq_ok he, hf]
    simp [List.getLastD_eq_getLast?]

theorem create_eq_ok (hs : Path.IsPlain stem) (h : outcome (create root stem) s = .ok w) :
    IsMade root stem s w (after (create root stem) s) := by
  rw [create] at h ⊢
  obtain ⟨top, hm, h⟩ := bind_eq_ok h
  rw [after_bind_ok hm]
  rw [outcome_changeFiles] at hm
  rw [after_changeFiles] at h ⊢
  obtain ⟨s', hg, h⟩ := bind_eq_ok h
  rw [after_bind_ok hg]
  obtain rfl := Except.ok.inj hg
  rw [after_get] at h ⊢
  obtain ⟨p, hp, h⟩ := bind_eq_ok h
  rw [after_bind_ok hp]
  rw [after_ofExcept] at h ⊢
  cases hfolders : (s.files.makeFolders root).2 with
  | error f => rw [hfolders] at hm; cases hm
  | ok place =>
    obtain ⟨hroot, hway⟩ := makeFolders_eq_ok hfolders
    rw [outcome_ofExcept] at hp
    cases hpl : Scratch.place (s.files.makeFolders root).1 (Path.join root stem) with
    | error f => rw [hpl] at hp; cases hp
    | ok p' =>
      rw [hpl] at hp
      obtain rfl := Except.ok.inj hp
      obtain rfl := place_eq_ok hroot hs hpl
      have hd := hway _ (destination_mem_way root)
      dsimp only at h ⊢
      split at h
      · rename_i hv
        rw [if_pos hv]
        have hw := Except.ok.inj h
        refine ⟨hroot, ?_, ?_, hway, hv, node?_put_folder _ hd, rfl⟩
        · rw [← hw]
        · rw [← hw]
      · cases h

theorem create_eq_error (h : outcome (create root stem) s = .error e) :
    ∃ f, e = .fault f ∧ ((s.files.makeFolders root).2 = .error f ∨
      f.attempt = .makeScratch (Path.join root stem)) := by
  rw [create, outcome_bind, outcome_changeFiles] at h
  cases hm : (s.files.makeFolders root).2 with
  | error f =>
    rw [hm] at h
    exact ⟨f, (Except.error.inj h).symm, Or.inl rfl⟩
  | ok top =>
    rw [hm] at h
    simp only [mapError_fault_ok, after_changeFiles, outcome_bind, outcome_get, after_get,
      outcome_ofExcept, after_ofExcept] at h
    cases hp : place (s.files.makeFolders root).1 (Path.join root stem) with
    | error f =>
      rw [hp] at h
      refine ⟨f, (Except.error.inj h).symm, Or.inr ?_⟩
      rw [place] at hp
      split at hp
      · cases hp
      · rw [← Except.error.inj hp]
    | ok p =>
      rw [hp, mapError_fault_ok] at h
      dsimp only at h
      split at h
      · cases h
      · exact ⟨_, (Except.error.inj h).symm, Or.inr rfl⟩

theorem after_create_error (h : outcome (create root stem) s = .error e) :
    after (create root stem) s = { s with files := (s.files.makeFolders root).1 } := by
  rw [create] at h ⊢
  rw [after_bind]
  rw [outcome_bind] at h
  cases hm : outcome (changeFiles fun t => t.makeFolders root) s with
  | error e' => rw [after_changeFiles]
  | ok top =>
    simp only [hm, after_changeFiles, outcome_bind, after_bind, outcome_get, after_get,
      after_ofExcept] at h ⊢
    split
    · rename_i p hp
      simp only [hp] at h
      split at h
      · cases h
      · rename_i hv
        rw [if_neg hv]
        rfl
    · rfl

end Create

section IsMade

variable {root stem : String} {s t : RunState} {w : Scratch}

theorem IsMade.folder_ne (h : IsMade root stem s w t) : w.folder ≠ "" := by
  rw [h.folder_eq]
  exact Scratch.folder_ne root stem _

theorem IsMade.destination_folder (h : IsMade root stem s w t) (hs : Path.IsPlain stem) :
    destination w.folder = location root stem (s.scratchCount + 1) := by
  rw [h.folder_eq]
  exact Scratch.destination_folder h.root_ne hs _

theorem IsMade.destination_log (h : IsMade root stem s w t) (hs : Path.IsPlain stem) :
    destination w.log = logName :: location root stem (s.scratchCount + 1) := by
  rw [h.log_eq, Scratch.destination_log h.folder_ne, h.destination_folder hs]

theorem IsMade.node?_folder (h : IsMade root stem s w t) (hs : Path.IsPlain stem) :
    t.files.node? (destination w.folder) = some .folder := by
  rw [h.node?_eq, h.destination_folder hs, if_pos rfl]

theorem IsMade.node?_log (h : IsMade root stem s w t) (hs : Path.IsPlain stem) :
    t.files.node? (logName :: destination w.folder) = none := by
  rw [h.node?_eq, h.destination_folder hs, if_neg (by simp)]
  exact node?_of_isVacant h.vacant logName

theorem IsMade.write_log (h : IsMade root stem s w t) (hs : Path.IsPlain stem) (bytes : List UInt8) :
    ∃ u, t.files.write false w.log bytes = .ok u := by
  rw [h.log_eq]
  exact exists_write_log h.folder_ne (h.node?_folder hs) (by simp [h.node?_log hs]) bytes

end IsMade

section Release

variable {root stem : String} {n : Nat} {s : RunState} {w : Scratch} {q : Location}
  {storage : Storage}

theorem keeps_node?_release (hq : ¬destination w.folder <:+ q) :
    Keeps (fun s => s.files.node? q) (release w storage) := by
  intro s
  rw [release, after_changeFiles]
  exact Storage.node?_remove storage hq

theorem isRemoved_of_suffix {top : Location} {used : List Location}
    (h : ∀ p ∈ used, p <:+ top) (hq : top <:+ q) : isRemoved top used q = true := by
  simp only [isRemoved, Location.isAbove, Bool.and_eq_true, Bool.not_eq_true', List.any_eq_false,
    List.isSuffixOf_iff_suffix, bne_iff_ne, not_and, Decidable.not_not]
  refine ⟨hq, fun p hp hqp => ?_⟩
  have hpt := h p hp
  exact hqp.eq_of_length_le (Nat.le_trans hpt.length_le hq.length_le)

theorem removeAt_of_locate {t : FileTree} {p : Location} (hr : root ≠ "") (hs : Path.IsPlain stem)
    (n : Nat) (hp : t.locate (Path.join root stem ++ numeral n) = .ok p) :
    t.removeAt (Path.join root stem ++ numeral n) =
      .ok (t.remove p (way (Path.join root stem ++ numeral n))) := by
  obtain ⟨front, _, hparts, _⟩ := parts_folder hr hs n
  have hplain := isPlain_append_numeral hs n
  have hlast : (Path.parts (Path.join root stem ++ numeral n)).reverse.find? (· ≠ "") =
      some (stem ++ numeral n) := by
    simp [hparts, hplain.ne_empty]
  have hdot : some (stem ++ numeral n) ≠ some "." := by
    intro he
    have hstays := hplain.1
    rw [Option.some.inj he] at hstays
    exact absurd hstays (by decide)
  rw [removeAt, hp]
  simp only [hlast, if_neg hdot]
  rfl

theorem removeAt_folder {t : FileTree} (hr : root ≠ "") (hs : Path.IsPlain stem) (n : Nat)
    (ht : t.node? (destination root) = some .folder) :
    t.removeAt (Path.join root stem ++ numeral n) =
      .ok (t.remove (location root stem n) (way (Path.join root stem ++ numeral n))) :=
  removeAt_of_locate hr hs n (locate_folder hr hs n ht)

/-- Where the log can be read or is missing, nothing is in the way of the removal. -/
theorem removeAt_of_text {t : FileTree} {text : String} (hr : root ≠ "") (hs : Path.IsPlain stem)
    (n : Nat)
    (ht : textAt t (Path.join (Path.join root stem ++ numeral n) logName) = .ok text) :
    ∃ u, t.removeAt (Path.join root stem ++ numeral n) = .ok u := by
  obtain ⟨front, _, hparts, hfollow, hfront⟩ := parts_folder hr hs n
  have hne := folder_ne root stem n
  have hlocate {x : Except Fault.Cause Location} (hx : t.enter [] front = x) :
      t.enter [] (Path.parts (Path.join root stem ++ numeral n)).dropLast = x := by
    rw [hparts, List.dropLast_concat, hx]
  cases he : t.enter [] front with
  | ok dir => exact ⟨_, removeAt_of_locate hr hs n (locate_of_enter hne (hlocate he))⟩
  | error cause =>
    obtain ⟨q, hq, _, ⟨_, content, hfile⟩ | ⟨rfl, _⟩⟩ := enter_eq_error he rfl
    · have hqf : q <:+ destination (Path.join root stem ++ numeral n) := by
        rw [destination_folder hr hs n]
        exact (hfront q hq).trans (List.suffix_cons _ _)
      obtain ⟨f, hblocked⟩ := textAt_log_of_blocked hne hqf hfile
      rw [hblocked] at ht
      cases ht
    · refine ⟨t, ?_⟩
      rw [removeAt, locate, if_neg hne, hlocate he]
      rfl

theorem release_folder (hr : root ≠ "") (hs : Path.IsPlain stem)
    (hw : w.folder = Path.join root stem ++ numeral n)
    (hd : s.files.node? (destination root) = some .folder) :
    outcome (release w) s = .ok () ∧
      ∀ q, (after (release w) s).files.node? q =
        if location root stem n <:+ q then none else s.files.node? q := by
  rw [release, hw, outcome_changeFiles, after_changeFiles, Storage.sound_remove,
    removeAt_folder hr hs n hd]
  refine ⟨rfl, fun q => ?_⟩
  change (s.files.remove _ _).node? q = _
  split
  · rename_i hq
    have hne : q ≠ [] := by
      rintro rfl
      exact absurd (List.suffix_nil.mp hq) (List.cons_ne_nil _ _)
    rw [node?_remove _ _ _ hne, isRemoved_of_suffix (fun p => way_folder hr hs n) hq, if_pos rfl]
  · rename_i hq
    exact node?_remove_of_not_suffix _ hq

def IsHeld (storage : Storage) (w : Scratch) (t : FileTree) (f : Fault) : Prop :=
  ∃ hold, storage.hold t w.folder = some hold ∧ f = hold.fault

theorem not_isHeld_sound {t : FileTree} {f : Fault} : ¬IsHeld .sound w t f := by
  rintro ⟨hold, hhold, _⟩
  cases hhold

theorem outcome_release_of_text (storage : Storage) {text : String} (hr : root ≠ "")
    (hs : Path.IsPlain stem) (hw : w.folder = Path.join root stem ++ numeral n)
    (hl : w.log = Path.join w.folder logName) (ht : textAt s.files w.log = .ok text) :
    outcome (release w storage) s = .ok () ∨
      ∃ f, IsHeld storage w s.files f ∧ outcome (release w storage) s = .error (.fault f) := by
  rw [hl, hw] at ht
  obtain ⟨u, hu⟩ := removeAt_of_text hr hs n ht
  rw [release, outcome_changeFiles]
  cases hrem : (storage.remove w.folder s.files).2 with
  | ok _ => exact Or.inl rfl
  | error f =>
    rcases Storage.remove_eq_error hrem with hf | hhold
    · rw [hw, hu] at hf
      cases hf
    · exact Or.inr ⟨f, hhold, rfl⟩

end Release

end BuildRequirements.Scratch
