import BuildRequirements.Proofs.Files.Destination

namespace BuildRequirements.FileTree

variable {t u : FileTree} {here p q : Location} {parts : List String} {path : String}

/-- As before, or newly a folder at one of some places. -/
def KeptBut (places : List Location) (t u : FileTree) (q : Location) : Prop :=
  u.node? q = t.node? q ∨ q ∈ places ∧ t.node? q = none ∧ u.node? q = some .folder

theorem KeptBut.refl (places : List Location) (t : FileTree) (q : Location) :
    KeptBut places t t q := Or.inl rfl

theorem KeptBut.folder {places : List Location} (h : KeptBut places t u q)
    (hq : t.node? q = some .folder) : u.node? q = some .folder := by
  rcases h with h | ⟨_, hn, _⟩
  · rw [h, hq]
  · rw [hn] at hq
    cases hq

theorem KeptBut.mono {places more : List Location} (h : KeptBut places t u q)
    (hs : ∀ p ∈ places, p ∈ more) : KeptBut more t u q :=
  h.imp_right fun hq => ⟨hs q hq.1, hq.2⟩

theorem isAbove_eq_false (h : ¬p <:+ q) : Location.isAbove p q = false := by
  rw [Location.isAbove, Bool.and_eq_false_iff]
  left
  rw [Bool.eq_false_iff, ne_eq, List.isSuffixOf_iff_suffix]
  exact h

theorem node?_put_cases (t : FileTree) (name : String) (dir : Location) (n : Node) (q : Location) :
    (t.put name dir n).node? q = t.node? q ∨
      q = name :: dir ∧ (t.put name dir n).node? q = some n := by
  by_cases h : t.node? dir = some .folder ∧ t.node? (name :: dir) ≠ some .folder
  · rw [node?_put n h.1 h.2]
    by_cases hq : q = name :: dir
    · exact Or.inr ⟨hq, by rw [if_pos hq]⟩
    · exact Or.inl (by rw [if_neg hq])
  · rw [put, dif_neg h]
    exact Or.inl rfl

theorem node?_put_of_ne {name : String} {dir : Location} (n : Node) (hq : q ≠ name :: dir) :
    (t.put name dir n).node? q = t.node? q := by
  rcases node?_put_cases t name dir n q with h | ⟨h, _⟩
  · exact h
  · exact absurd h hq

theorem makeParts_kept (t : FileTree) (here : Location) (parts : List String) (q : Location) :
    KeptBut (placesAlong here parts) t (t.makeParts here parts).1 q := by
  fun_induction makeParts t here parts with
  | case1 => exact .refl _ _ _
  | case2 t here part rest hs ih => simpa only [placesAlong, hs, if_true] using ih
  | case3 t here rest hs ih =>
    rw [placesAlong, if_neg hs, if_pos rfl]
    exact ih.mono fun p hp => List.mem_cons_of_mem _ hp
  | case4 t here part rest hs hp hn ih =>
    rw [placesAlong, if_neg hs, if_neg hp]
    exact ih.mono fun p hp => List.mem_cons_of_mem _ hp
  | case5 => exact .refl _ _ _
  | case6 t here part rest hs hp hn ih =>
    rw [placesAlong, if_neg hs, if_neg hp]
    have hi := ih.mono fun p hp => List.mem_cons_of_mem here hp
    rcases node?_put_cases t part here .folder q with hq | ⟨rfl, hq⟩
    · simpa only [KeptBut, hq] using hi
    · exact Or.inr ⟨List.mem_cons_of_mem _ (self_mem_placesAlong _ _), hn, hi.folder hq⟩

theorem makeParts_eq_ok (h : (t.makeParts here parts).2 = .ok p) : p = follow here parts := by
  fun_induction makeParts t here parts with
  | case1 => exact (Except.ok.inj h).symm
  | case2 t here part rest hs ih => simpa [follow, hs] using ih h
  | case3 t here rest hs ih => simpa [follow, hs] using ih h
  | case4 t here part rest hs hp hn ih => simpa [follow, hs, hp] using ih h
  | case5 => cases h
  | case6 t here part rest hs hp hn ih => simpa [follow, hs, hp] using ih h

theorem makeParts_folders (h : (t.makeParts here parts).2 = .ok p)
    (hh : t.node? here = some .folder) :
    ∀ q ∈ placesAlong here parts, (t.makeParts here parts).1.node? q = some .folder := by
  have kept (t : FileTree) (here : Location) (rest : List String) {q : Location}
      (hq : t.node? q = some .folder) : (t.makeParts here rest).1.node? q = some .folder :=
    (makeParts_kept t here rest q).folder hq
  fun_induction makeParts t here parts with
  | case1 => simpa [placesAlong] using hh
  | case2 t here part rest hs ih => simpa [placesAlong, hs] using ih h hh
  | case3 t here rest hs ih =>
    have hr := ih h (node?_tail hh)
    simpa [placesAlong, hs, kept t _ rest hh] using hr
  | case4 t here part rest hs hp hn ih =>
    have hr := ih h hn
    simpa [placesAlong, hs, hp, kept t _ rest hh] using hr
  | case5 => cases h
  | case6 t here part rest hs hp hn ih =>
    have hf : t.node? (part :: here) ≠ some .folder := by simp [hn]
    have hput := node?_put .folder hh hf
    have hr := ih h (by simp [hput])
    have hk : (t.put part here .folder).node? here = some .folder := by simp [hput, hh]
    simpa [placesAlong, hs, hp, kept _ _ rest hk] using hr

theorem makeFolders_kept (t : FileTree) (path : String) (q : Location) :
    KeptBut (way path) t (t.makeFolders path).1 q := by
  rw [makeFolders]
  split
  · exact .refl _ _ _
  · exact makeParts_kept t [] _ q

theorem makeFolders_eq_ok (h : (t.makeFolders path).2 = .ok p) :
    path ≠ "" ∧ ∀ q ∈ way path, (t.makeFolders path).1.node? q = some .folder := by
  rw [makeFolders] at h ⊢
  split at h
  · cases h
  · rename_i hp
    rw [if_neg hp]
    refine ⟨hp, ?_⟩
    cases hm : (t.makeParts [] (Path.parts path)).2 with
    | error f =>
      simp only [hm] at h
      cases h
    | ok p => exact makeParts_folders hm rfl

def file? (t : FileTree) (p : Location) : Option (List UInt8) :=
  match t.node? p with
  | some (.file content) => some content
  | _ => none

def contentAt (t : FileTree) (p : Location) : List UInt8 := (t.file? p).getD []

theorem contentAt_of_file {content : List UInt8} (h : t.node? q = some (.file content)) :
    t.contentAt q = content := by
  rw [contentAt, file?, h]
  rfl

theorem file?_congr (h : u.node? q = t.node? q) : u.file? q = t.file? q := by
  rw [file?, file?, h]

theorem KeptBut.file? {places : List Location} (h : KeptBut places t u q) :
    u.file? q = t.file? q := by
  rcases h with h | ⟨_, hn, hf⟩
  · exact file?_congr h
  · simp only [FileTree.file?, hn, hf]

theorem KeptBut.contentAt {places : List Location} (h : KeptBut places t u q) :
    u.contentAt q = t.contentAt q := by
  rw [FileTree.contentAt, h.file?, FileTree.contentAt]

theorem read_eq_ok {bytes : List UInt8} (h : t.read path = .ok bytes) :
    t.node? (destination path) = some (.file bytes) := by
  rw [read] at h
  cases hl : t.locate path with
  | error cause => rw [hl] at h; cases h
  | ok p =>
    rw [← locate_eq_ok hl]
    simp only [hl] at h
    split at h
    · cases h
    · cases h
    · rename_i content hn
      rw [hn, Except.ok.inj h]

theorem locateFile_eq_ok {name : String} {dir : Location} (h : t.locateFile path = .ok (name, dir)) :
    t.locate path = .ok (name :: dir) ∧ t.node? dir = some .folder ∧
      t.node? (name :: dir) ≠ some .folder := by
  rw [locateFile] at h
  split at h
  · cases h
  · rename_i hp
    simp only [bind, Except.bind] at h
    split at h
    · cases h
    · rename_i dir' he
      split at h
      · cases h
      · rename_i hc
        simp only [not_or] at hc
        obtain ⟨hlen, hs, hd, hn⟩ := hc
        have hw : (Path.parts path).reverse.dropWhile (· = "") = (Path.parts path).reverse :=
          List.IsSuffix.eq_of_length_le (List.dropWhile_suffix _) (by omega)
        rw [hw] at he hs hd hn h
        simp only [List.tail_reverse, List.reverse_reverse] at he
        have hl : (Path.parts path).reverse.headD "" = (Path.parts path).getLastD "" := by
          simp [List.headD_eq_head?_getD, List.getLastD_eq_getLast?]
        obtain ⟨rfl, rfl⟩ := Prod.mk.inj (Except.ok.inj h)
        refine ⟨?_, folders_of_enter he rfl _ ?_, hn⟩
        · rw [hl] at hs hd ⊢
          simp only [locate, if_neg hp, he, bind, Except.bind, pure, Except.pure, if_neg hs, if_neg hd]
        · rw [enter_eq_ok he]
          exact follow_mem_placesAlong _ _

theorem locateFile_of_folders {name : String} {dir : Location}
    (h : t.locateFile path = .ok (name, dir))
    (hfolders : ∀ q, t.node? q = some .folder → u.node? q = some .folder)
    (hn : u.node? (name :: dir) ≠ some .folder) : u.locateFile path = .ok (name, dir) := by
  rw [locateFile] at h ⊢
  split at h
  · cases h
  · rename_i hpath
    simp only [bind, Except.bind] at h
    split at h
    · cases h
    · rename_i place he
      have hu : u.enter [] ((Path.parts path).reverse.dropWhile (· = "")).tail.reverse = .ok place := by
        rw [enter_eq_ok he]
        exact enter_of_folders fun q hq => hfolders q (folders_of_enter he rfl q hq)
      split at h
      · cases h
      · rename_i hc
        simp only [not_or] at hc
        obtain ⟨hname, rfl⟩ := Prod.mk.inj (Except.ok.inj h)
        rw [← hname] at hn
        simp only [if_neg hpath, bind, Except.bind, hu]
        rw [if_neg (by simp only [not_or]; exact ⟨hc.1, hc.2.1, hc.2.2.1, hn⟩)]
        exact h

theorem write_eq_ok {append : Bool} {bytes : List UInt8} (h : t.write append path bytes = .ok u) :
    t.locate path = .ok (destination path) ∧ t.node? (destination path) ≠ some .folder ∧
      ∀ q, u.node? q = if q = destination path then
        some (.file ((if append then t.contentAt (destination path) else []) ++ bytes))
        else t.node? q := by
  rw [write] at h
  cases hf : t.locateFile path with
  | error cause => rw [hf] at h; cases h
  | ok file =>
    obtain ⟨name, dir⟩ := file
    obtain ⟨hl, hd, hn⟩ := locateFile_eq_ok hf
    have he := locate_eq_ok hl
    rw [← he]
    refine ⟨hl, hn, fun q => ?_⟩
    simp only [hf] at h
    cases append with
    | false =>
      rw [← Except.ok.inj h, node?_put _ hd hn]
      rfl
    | true =>
      rw [contentAt, file?, if_pos rfl]
      cases hc : t.node? (name :: dir) with
      | none =>
        simp only [hc] at h
        rw [← Except.ok.inj h, node?_put _ hd hn]
        rfl
      | some n =>
        cases n with
        | folder => exact absurd hc hn
        | file content =>
          simp only [hc] at h
          rw [← Except.ok.inj h, node?_put _ hd hn]
          rfl

theorem exists_parts_eq (path : String) :
    ∃ front name back, Path.parts path = front ++ name :: back ∧
      ((Path.parts path).reverse.dropWhile (· = "")).tail.reverse = front ∧
      (((Path.parts path).reverse.dropWhile (· = "")).headD "" = name ∨
        ((Path.parts path).reverse.dropWhile (· = "")).headD "" = "") := by
  have hall : (Path.parts path).reverse.takeWhile (· = "") ++
      (Path.parts path).reverse.dropWhile (· = "") = (Path.parts path).reverse :=
    List.takeWhile_append_dropWhile
  have hparts := congrArg List.reverse hall
  rw [List.reverse_append, List.reverse_reverse] at hparts
  cases hnamed : (Path.parts path).reverse.dropWhile (· = "") with
  | nil =>
    obtain ⟨name, back, hne⟩ := List.exists_cons_of_ne_nil (parts_ne_nil path)
    exact ⟨[], name, back, hne, rfl, Or.inr rfl⟩
  | cons name rest =>
    rw [hnamed, List.reverse_cons, List.append_assoc, List.singleton_append] at hparts
    exact ⟨rest.reverse, name, _, hparts.symm, rfl, Or.inl rfl⟩

theorem locateFile_congr (h : ∀ q ∈ way path, t.node? q = u.node? q) :
    t.locateFile path = u.locateFile path := by
  obtain ⟨front, name, back, hparts, hfront, hname⟩ := exists_parts_eq path
  have hway (q : Location) : q ∈ way path ↔
      q ∈ placesAlong [] front ∨ q ∈ placesAlong (follow [] front) (name :: back) := by
    rw [way, hparts, mem_placesAlong_append]
  have henter : t.enter [] front = u.enter [] front :=
    enter_congr fun q hq => h q ((hway q).mpr (Or.inl hq))
  rw [locateFile, locateFile]
  simp only [hfront, henter]
  split
  · rfl
  · cases he : u.enter [] front with
    | error cause => rfl
    | ok dir =>
      generalize ((Path.parts path).reverse.dropWhile (· = "")).headD "" = last at hname
      have hfolder : Path.stays last = true ∨ last = ".." ∨
          t.node? (last :: dir) = u.node? (last :: dir) := by
        by_cases hs : Path.stays last = true
        · exact Or.inl hs
        · by_cases hd : last = ".."
          · exact Or.inr (Or.inl hd)
          · have hlast : last = name := by
              rcases hname with hlast | rfl
              · exact hlast
              · exact absurd rfl hs
            refine Or.inr (Or.inr (h _ ((hway _).mpr (Or.inr ?_))))
            rw [← enter_eq_ok he, ← hlast, placesAlong, if_neg hs, if_neg hd]
            exact List.mem_cons_of_mem _ (self_mem_placesAlong _ _)
      simp only [bind, Except.bind]
      rcases hfolder with hs | hd | hn
      · simp [hs]
      · simp [hd]
      · rw [hn]

theorem write_congr (h : ∀ q ∈ way path, t.node? q = u.node? q) (append : Bool)
    (bytes more : List UInt8) :
    (t.write append path bytes).map (fun _ => ()) = (u.write append path more).map fun _ => () := by
  rw [write, write, locateFile_congr h]
  cases u.locateFile path with
  | error cause => rfl
  | ok file =>
    dsimp only
    split <;> split <;> rfl

theorem file?_of_write {append : Bool} {bytes : List UInt8} (h : t.write append path bytes = .ok u) :
    u.file? (destination path) =
      some ((if append then (t.file? (destination path)).getD [] else []) ++ bytes) := by
  have hnode := (write_eq_ok h).2.2 (destination path)
  rw [if_pos rfl, contentAt] at hnode
  rw [file?, hnode]

theorem node?_of_write {bytes : List UInt8} (h : t.write false path bytes = .ok u) :
    u.node? (destination path) = some (.file bytes) :=
  ((write_eq_ok h).2.2 _).trans (if_pos rfl)

theorem locate_of_write {append : Bool} {bytes : List UInt8} (h : t.write append path bytes = .ok u) :
    u.locate path = .ok (destination path) := by
  obtain ⟨hl, hn, hnode⟩ := write_eq_ok h
  have hpath : path ≠ "" := by
    rintro rfl
    cases hl
  rw [locate, if_neg hpath] at hl
  cases he : t.enter [] (Path.parts path).dropLast with
  | error cause =>
    rw [he] at hl
    cases hl
  | ok dir =>
    -- The folders on the way are as before, since none of them is the file.
    have hsame : u.enter [] (Path.parts path).dropLast = t.enter [] (Path.parts path).dropLast := by
      apply enter_congr
      intro q hq
      have hfolder := folders_of_enter he rfl q hq
      refine (hnode q).trans (if_neg ?_)
      rintro rfl
      exact hn hfolder
    exact locate_of_enter hpath (hsame.trans he)

theorem read_of_write {append : Bool} {bytes : List UInt8} (h : t.write append path bytes = .ok u) :
    u.read path = .ok (u.contentAt (destination path)) := by
  have hfile := (write_eq_ok h).2.2 (destination path)
  rw [if_pos rfl] at hfile
  rw [contentAt_of_file hfile, read, locate_of_write h]
  simp only [hfile]

theorem put_put (t : FileTree) {name : String} {dir : Location} (old : List UInt8) (n : Node)
    (hd : t.node? dir = some .folder) (hn : t.node? (name :: dir) ≠ some .folder) :
    (t.put name dir (.file old)).put name dir n = t.put name dir n := by
  have hput := node?_put (.file old) hd hn
  have hself : name :: dir ≠ dir := by simp
  have hdir : (t.put name dir (.file old)).node? dir = some .folder := by
    rw [hput, if_neg hself.symm, hd]
  have hnode : (t.put name dir (.file old)).node? (name :: dir) ≠ some .folder := by
    rw [hput, if_pos rfl]
    simp
  have hentries (v : FileTree) (m : Node) (h : v.node? dir = some .folder)
      (hm : v.node? (name :: dir) ≠ some .folder) :
      (v.put name dir m).entries = putEntries v.entries (name :: dir) m := by
    rw [put, dif_pos ⟨h, hm⟩]
  rw [mk.injEq, hentries _ n hdir hnode, hentries _ _ hd hn, hentries _ n hd hn, putEntries,
    putEntries, putEntries, List.filter_cons, if_neg (by simp), List.filter_filter]
  simp

theorem write_of_write {old : List UInt8} (h : t.write false path old = .ok u) (bytes : List UInt8) :
    u.write false path bytes = t.write false path bytes := by
  have hfile := h
  rw [write] at hfile
  cases hl : t.locateFile path with
  | error cause =>
    rw [hl] at hfile
    cases hfile
  | ok file =>
    obtain ⟨name, dir⟩ := file
    obtain ⟨hlocate, hd, hn⟩ := locateFile_eq_ok hl
    simp only [hl] at hfile
    obtain rfl := Except.ok.inj hfile
    have hput := node?_put (.file old) hd hn
    have hlu : (t.put name dir (.file old)).locateFile path = .ok (name, dir) := by
      apply locateFile_of_folders hl
      · intro q hq
        rw [hput, if_neg, hq]
        rintro rfl
        exact hn hq
      · rw [hput, if_pos rfl]
        simp
    rw [write, write, hl, hlu]
    simp only [put_put t old _ hd hn]

theorem node?_remove_of_not_suffix {top : Location} (used : List Location) (hq : ¬top <:+ q) :
    (t.remove top used).node? q = t.node? q := by
  cases q with
  | nil => rfl
  | cons name dir =>
    rw [node?_remove _ _ _ (List.cons_ne_nil _ _), if_neg]
    simp only [isRemoved, Bool.and_eq_true, List.isSuffixOf_iff_suffix]
    exact fun h => hq h.1

theorem removeAt_eq_ok (h : t.removeAt path = .ok u) (hq : ¬destination path <:+ q) :
    u.node? q = t.node? q := by
  rw [removeAt] at h
  cases hl : t.locate path with
  | error cause =>
    simp only [hl] at h
    split at h
    · rw [Except.ok.inj h]
    · cases h
  | ok p =>
    simp only [hl] at h
    split at h
    · cases h
    · rw [← Except.ok.inj h, locate_eq_ok hl]
      exact node?_remove_of_not_suffix _ hq

end BuildRequirements.FileTree
