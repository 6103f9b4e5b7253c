import BuildRequirements.Files.Access

namespace BuildRequirements.FileTree

def follow (here : Location) : List String → Location
  | [] => here
  | part :: rest =>
    if Path.stays part then follow here rest
    else if part = ".." then follow here.tail rest
    else follow (part :: here) rest

def destination (path : String) : Location := follow [] (Path.parts path)

def way (path : String) : List Location := placesAlong [] (Path.parts path)

theorem parts_ne_nil (path : String) : Path.parts path ≠ [] := by
  simp [Path.parts]

theorem parts_eq_append (path : String) :
    (Path.parts path).dropLast ++ [(Path.parts path).getLastD ""] = Path.parts path := by
  rw [List.getLastD_eq_getLast?, List.getLast?_eq_some_getLast (parts_ne_nil path)]
  exact List.dropLast_concat_getLast (parts_ne_nil path)

theorem follow_append (here : Location) (xs ys : List String) :
    follow here (xs ++ ys) = follow (follow here xs) ys := by
  fun_induction follow here xs with
  | case1 => rfl
  | case2 here part rest hs ih => simp [follow, hs, ih]
  | case3 here rest hs ih => simpa [follow, hs] using ih
  | case4 here part rest hs hp ih => simp [follow, hs, hp, ih]

theorem follow_last (here : Location) (part : String) :
    follow here [part] =
      if Path.stays part then here else if part = ".." then here.tail else part :: here := by
  simp only [follow]

theorem self_mem_placesAlong (here : Location) (parts : List String) :
    here ∈ placesAlong here parts := by
  fun_induction placesAlong here parts with
  | case1 => simp
  | case2 here part rest hs ih => exact ih
  | case3 here rest hs ih => simp
  | case4 here part rest hs hp ih => simp

theorem follow_mem_placesAlong (here : Location) (parts : List String) :
    follow here parts ∈ placesAlong here parts := by
  fun_induction placesAlong here parts with
  | case1 => simp [follow]
  | case2 here part rest hs ih => simpa [follow, hs] using ih
  | case3 here rest hs ih => simpa [follow, hs] using Or.inr ih
  | case4 here part rest hs hp ih => simpa [follow, hs, hp] using Or.inr ih

theorem mem_placesAlong_append {here q : Location} {xs ys : List String} :
    q ∈ placesAlong here (xs ++ ys) ↔
      q ∈ placesAlong here xs ∨ q ∈ placesAlong (follow here xs) ys := by
  fun_induction placesAlong here xs with
  | case1 here =>
    have hs := self_mem_placesAlong here ys
    simp only [List.nil_append, List.mem_singleton, follow]
    constructor
    · exact Or.inr
    · rintro (rfl | h)
      · exact hs
      · exact h
  | case2 here part rest hs ih => simpa [placesAlong, follow, hs] using ih
  | case3 here rest hs ih => simp [placesAlong, follow, hs, ih, or_assoc]
  | case4 here part rest hs hp ih => simp [placesAlong, follow, hs, hp, ih, or_assoc]

theorem destination_mem_way (path : String) : destination path ∈ way path :=
  follow_mem_placesAlong [] _

section Enter

variable {t u : FileTree} {here p : Location} {parts : List String} {path : String}

theorem node?_tail (h : t.node? here = some .folder) : t.node? here.tail = some .folder := by
  cases here with
  | nil => exact h
  | cons name dir =>
    have hn : t.node? (name :: dir) ≠ none := by simp [h]
    exact node?_parent hn

theorem folder_of_suffix {q : Location} (h : t.node? p = some .folder) (hq : q <:+ p) :
    t.node? q = some .folder := by
  obtain ⟨below, rfl⟩ := hq
  induction below with
  | nil => exact h
  | cons name rest ih => exact ih (node?_tail h)

theorem none_of_suffix {q : Location} (h : t.node? p = none) (hq : p <:+ q) : t.node? q = none := by
  obtain ⟨below, rfl⟩ := hq
  induction below with
  | nil => exact h
  | cons name rest ih =>
    apply Classical.byContradiction
    intro hn
    have hp : t.node? (rest ++ p) = some .folder := node?_parent hn
    rw [ih] at hp
    cases hp

theorem enter_eq_ok (h : t.enter here parts = .ok p) : p = follow here parts := by
  fun_induction enter t here parts with
  | case1 => exact (Except.ok.inj h).symm
  | case2 here part rest hs ih => simpa [follow, hs] using ih h
  | case3 here rest hs ih => simpa [follow, hs] using ih h
  | case4 here part rest hs hp hn ih => simpa [follow, hs, hp] using ih h
  | case5 => cases h
  | case6 => cases h

theorem folders_of_enter (h : t.enter here parts = .ok p) (hh : t.node? here = some .folder) :
    ∀ q ∈ placesAlong here parts, t.node? q = some .folder := by
  fun_induction enter t here parts with
  | case1 => simpa [placesAlong] using hh
  | case2 here part rest hs ih => simpa [placesAlong, hs] using ih h hh
  | case3 here rest hs ih =>
    have hr := ih h (node?_tail hh)
    simpa [placesAlong, hs, hh] using hr
  | case4 here part rest hs hp hn ih =>
    have hr := ih h hn
    simpa [placesAlong, hs, hp, hh] using hr
  | case5 => cases h
  | case6 => cases h

theorem enter_of_folders (h : ∀ q ∈ placesAlong here parts, t.node? q = some .folder) :
    t.enter here parts = .ok (follow here parts) := by
  fun_induction placesAlong here parts with
  | case1 => rfl
  | case2 here part rest hs ih => simpa [enter, follow, hs] using ih h
  | case3 here rest hs ih =>
    have hr := ih fun q hq => h q (List.mem_cons_of_mem _ hq)
    simpa [enter, follow, hs] using hr
  | case4 here part rest hs hp ih =>
    have hr := ih fun q hq => h q (List.mem_cons_of_mem _ hq)
    have hn := h (part :: here) (List.mem_cons_of_mem _ (self_mem_placesAlong _ _))
    simpa [enter, follow, hs, hp, hn] using hr

theorem enter_congr (h : ∀ q ∈ placesAlong here parts, t.node? q = u.node? q) :
    t.enter here parts = u.enter here parts := by
  fun_induction placesAlong here parts with
  | case1 => rfl
  | case2 here part rest hs ih => simpa [enter, hs] using ih h
  | case3 here rest hs ih =>
    have hr := ih fun q hq => h q (List.mem_cons_of_mem _ hq)
    simpa [enter, hs] using hr
  | case4 here part rest hs hp ih =>
    have hr := ih fun q hq => h q (List.mem_cons_of_mem _ hq)
    have hn := h (part :: here) (List.mem_cons_of_mem _ (self_mem_placesAlong _ _))
    simp [enter, hs, hp, hn, hr]

theorem enter_eq_error {cause : Fault.Cause} (h : t.enter here parts = .error cause) (hh : t.node? here = some .folder) :
    ∃ q ∈ placesAlong here parts, t.node? q.tail = some .folder ∧
      (cause = .notFolder ∧ (∃ content, t.node? q = some (.file content)) ∨
        cause = .missing ∧ t.node? q = none) := by
  fun_induction enter t here parts with
  | case1 => cases h
  | case2 here part rest hs ih => simpa [placesAlong, hs] using ih h hh
  | case3 here rest hs ih =>
    obtain ⟨q, hq, hr⟩ := ih h (node?_tail hh)
    exact ⟨q, by simp [placesAlong, hs, hq], hr⟩
  | case4 here part rest hs hp hn ih =>
    obtain ⟨q, hq, hr⟩ := ih h hn
    exact ⟨q, by simp [placesAlong, hs, hp, hq], hr⟩
  | case5 here part rest hs hp content hn =>
    refine ⟨part :: here, ?_, hh, Or.inl ⟨(Except.error.inj h).symm, content, hn⟩⟩
    rw [placesAlong, if_neg hs, if_neg hp]
    exact List.mem_cons_of_mem _ (self_mem_placesAlong _ _)
  | case6 here part rest hs hp hn =>
    refine ⟨part :: here, ?_, hh, Or.inr ⟨(Except.error.inj h).symm, hn⟩⟩
    rw [placesAlong, if_neg hs, if_neg hp]
    exact List.mem_cons_of_mem _ (self_mem_placesAlong _ _)

theorem enter_blocked {q : Location} {content : List UInt8}
    (hplaces : ∀ r ∈ placesAlong [] parts, r <:+ follow [] parts)
    (hq : q <:+ follow [] parts) (hfile : t.node? q = some (.file content)) :
    t.enter [] parts = .error .notFolder := by
  have hnot (r : Location) (hr : t.node? r = some .folder) : ¬q <:+ r := by
    intro hqr
    rw [folder_of_suffix hr hqr] at hfile
    cases hfile
  cases he : t.enter [] parts with
  | ok p =>
    have hp := folders_of_enter he rfl _ (follow_mem_placesAlong [] parts)
    exact absurd hq (hnot _ hp)
  | error cause =>
    obtain ⟨r, hr, hfolder, ⟨rfl, _⟩ | ⟨_, hnone⟩⟩ := enter_eq_error he rfl
    · rfl
    · exfalso
      rcases List.suffix_or_suffix_of_suffix hq (hplaces r hr) with hqr | hrq
      · cases r with
        | nil => cases hnone
        | cons name dir =>
          rcases List.suffix_cons_iff.mp hqr with rfl | hqd
          · rw [hnone] at hfile
            cases hfile
          · exact hnot dir hfolder hqd
      · rw [none_of_suffix hnone hrq] at hfile
        cases hfile

theorem locate_of_enter {dir : Location} (hp : path ≠ "")
    (h : t.enter [] (Path.parts path).dropLast = .ok dir) :
    t.locate path = .ok (destination path) := by
  have hd := enter_eq_ok h
  rw [destination, ← parts_eq_append path, follow_append, follow_last, ← hd, locate, if_neg hp, h]
  simp only [bind, Except.bind, pure, Except.pure]
  split
  · rfl
  · split <;> rfl

theorem locate_eq_ok (h : t.locate path = .ok p) : p = destination path := by
  rw [locate] at h
  split at h
  · cases h
  · rename_i hp
    cases he : t.enter [] (Path.parts path).dropLast with
    | error cause => rw [he] at h; cases h
    | ok dir =>
      have hl := locate_of_enter hp he
      rw [locate, if_neg hp] at hl
      exact Except.ok.inj (h.symm.trans hl)

theorem way_dropLast {q : Location} (h : q ∈ placesAlong [] (Path.parts path).dropLast) :
    q ∈ way path := by
  rw [way, ← parts_eq_append path]
  exact mem_placesAlong_append.mpr (Or.inl h)

theorem read_congr (h : ∀ q ∈ way path, t.node? q = u.node? q) : t.read path = u.read path := by
  have hl : t.locate path = u.locate path := by
    rw [locate, locate, enter_congr fun q hq => h q (way_dropLast hq)]
  rw [read, read, ← hl]
  cases hp : t.locate path with
  | error cause => rfl
  | ok p =>
    have he := locate_eq_ok hp
    simp only [he, h _ (destination_mem_way path)]

end Enter

end BuildRequirements.FileTree
