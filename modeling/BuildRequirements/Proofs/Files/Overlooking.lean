import BuildRequirements.Proofs.Files.Changes

/-!
Changes that overlook a place: they leave it as it is, and what they do elsewhere does not depend on
what is there. Installing files is such a change if no path to them leads through the place.
-/

namespace BuildRequirements.FileTree

variable {t u : FileTree} {p q : Location} {path : String}

def AgreeOff (p : Location) (t u : FileTree) : Prop := ∀ q, q ≠ p → t.node? q = u.node? q

structure Overlooks (change : FileTree → FileTree) (p : Location) : Prop where
  kept : ∀ t, (change t).node? p = t.node? p
  congr : ∀ t u, AgreeOff p t u → AgreeOff p (change t) (change u)

theorem Overlooks.comp {f g : FileTree → FileTree} (hf : Overlooks f p) (hg : Overlooks g p) :
    Overlooks (fun t => g (f t)) p := by
  constructor
  · intro t
    rw [hg.kept, hf.kept]
  · intro t u h
    exact hg.congr _ _ (hf.congr t u h)

theorem AgreeOff.put (h : AgreeOff p t u) {name : String} {dir : Location} (n : Node)
    (hd : dir ≠ p) (hn : name :: dir ≠ p) : AgreeOff p (t.put name dir n) (u.put name dir n) := by
  intro q hq
  by_cases hput : t.node? dir = some .folder ∧ t.node? (name :: dir) ≠ some .folder
  · have hputu := hput
    rw [h _ hd, h _ hn] at hputu
    rw [node?_put n hput.1 hput.2, node?_put n hputu.1 hputu.2, h q hq]
  · have hputu := hput
    rw [h _ hd, h _ hn] at hputu
    rw [FileTree.put, FileTree.put, dif_neg hput, dif_neg hputu, h q hq]

theorem makeParts_congr {here : Location} {parts : List String} (h : AgreeOff p t u)
    (hp : p ∉ placesAlong here parts) :
    (t.makeParts here parts).2 = (u.makeParts here parts).2 ∧
      AgreeOff p (t.makeParts here parts).1 (u.makeParts here parts).1 := by
  have hself (here : Location) (rest : List String) (hr : p ∉ placesAlong here rest) : here ≠ p := by
    rintro rfl
    exact hr (self_mem_placesAlong _ _)
  fun_induction makeParts t here parts generalizing u with
  | case1 t here => exact ⟨rfl, h⟩
  | case2 t here part rest hs ih =>
    rw [placesAlong, if_pos hs] at hp
    simpa [makeParts, hs] using ih h hp
  | case3 t here rest hs ih =>
    rw [placesAlong, if_neg hs, if_pos rfl, List.mem_cons, not_or] at hp
    simpa [makeParts, hs] using ih h hp.2
  | case4 t here part rest hs hd hn ih =>
    rw [placesAlong, if_neg hs, if_neg hd, List.mem_cons, not_or] at hp
    rw [h _ (hself _ _ hp.2)] at hn
    simpa [makeParts, hs, hd, hn] using ih h hp.2
  | case5 t here part rest hs hd content hn =>
    rw [placesAlong, if_neg hs, if_neg hd, List.mem_cons, not_or] at hp
    rw [h _ (hself _ _ hp.2)] at hn
    simpa [makeParts, hs, hd, hn] using h
  | case6 t here part rest hs hd hn ih =>
    rw [placesAlong, if_neg hs, if_neg hd, List.mem_cons, not_or] at hp
    have hne := hself _ _ hp.2
    rw [h _ hne] at hn
    simpa [makeParts, hs, hd, hn] using ih (h.put .folder (Ne.symm hp.1) hne) hp.2

theorem makeFolders_congr (h : AgreeOff p t u) (hp : p ∉ way path) :
    (t.makeFolders path).2.toOption = (u.makeFolders path).2.toOption ∧
      AgreeOff p (t.makeFolders path).1 (u.makeFolders path).1 := by
  rw [makeFolders, makeFolders]
  split
  · exact ⟨rfl, h⟩
  · obtain ⟨hresult, hmade⟩ := makeParts_congr h hp
    refine ⟨?_, hmade⟩
    dsimp only
    rw [hresult]
    cases (u.makeParts [] (Path.parts path)).2 <;> rfl

theorem AgreeOff.of_write {append : Bool} {bytes : List UInt8} (h : t.write append path bytes = .ok u) :
    AgreeOff (destination path) u t :=
  fun q hq => ((write_eq_ok h).2.2 q).trans (if_neg hq)

def rewritten (t : FileTree) (path : String) (bytes : List UInt8) : FileTree :=
  match t.write false path bytes with
  | .ok written => written
  | .error _ => t

theorem AgreeOff.rewritten (h : AgreeOff p t u) (hp : p ∉ way path) (bytes : List UInt8) :
    AgreeOff p (t.rewritten path bytes) (u.rewritten path bytes) := by
  have hne {q : Location} (hq : q ∈ way path) : q ≠ p := by
    rintro rfl
    exact hp hq
  have hwrite := write_congr (fun q hq => h q (hne hq)) false bytes bytes
  rw [FileTree.rewritten, FileTree.rewritten]
  cases ht : t.write false path bytes with
  | error f =>
    cases hu : u.write false path bytes with
    | error g => exact h
    | ok u' =>
      rw [ht, hu] at hwrite
      cases hwrite
  | ok t' =>
    cases hu : u.write false path bytes with
    | error g =>
      rw [ht, hu] at hwrite
      cases hwrite
    | ok u' =>
      intro q hq
      rw [(write_eq_ok ht).2.2 q, (write_eq_ok hu).2.2 q, contentAt, contentAt, file?, file?,
        h _ (hne (destination_mem_way path)), h q hq]

theorem node?_rewritten_of_not_mem (hp : p ∉ way path) (bytes : List UInt8) :
    (t.rewritten path bytes).node? p = t.node? p := by
  rw [rewritten]
  cases ht : t.write false path bytes with
  | error f => rfl
  | ok t' =>
    refine ((write_eq_ok ht).2.2 p).trans (if_neg ?_)
    rintro rfl
    exact hp (destination_mem_way path)

theorem files_install (t : FileTree) (path : String) (bytes : List UInt8) :
    (t.install path bytes).1 =
      match (t.makeFolders (Path.parent path)).2.toOption with
      | none => (t.makeFolders (Path.parent path)).1
      | some _ => (t.makeFolders (Path.parent path)).1.rewritten path bytes := by
  unfold install
  generalize t.makeFolders (Path.parent path) = made
  obtain ⟨u, result⟩ := made
  dsimp only
  rw [rewritten]
  cases result with
  | error f => rfl
  | ok place => cases u.write false path bytes <;> rfl

def Avoids (path : String) (p : Location) : Prop :=
  p ∉ way (Path.parent path) ∧ p ∉ way path

instance (path : String) (p : Location) : Decidable (Avoids path p) := inferInstanceAs (Decidable (_ ∧ _))

theorem overlooks_install (h : Avoids path p) (bytes : List UInt8) :
    Overlooks (fun t => (t.install path bytes).1) p := by
  obtain ⟨hparent, hpath⟩ := h
  constructor
  · intro t
    have hmade : (t.makeFolders (Path.parent path)).1.node? p = t.node? p := by
      rcases makeFolders_kept t (Path.parent path) p with hkept | ⟨hway, _⟩
      · exact hkept
      · exact absurd hway hparent
    rw [files_install]
    split
    · exact hmade
    · rw [node?_rewritten_of_not_mem hpath, hmade]
  · intro t u h
    obtain ⟨hresult, hmade⟩ := makeFolders_congr h hparent
    rw [files_install, files_install, hresult]
    split
    · exact hmade
    · exact hmade.rewritten hpath bytes

def installAll (files : List (String × List UInt8)) (t : FileTree) : FileTree :=
  files.foldl (fun t file => (t.install file.1 file.2).1) t

theorem installAll_cons (file : String × List UInt8) (files : List (String × List UInt8)) :
    installAll (file :: files) = fun t => installAll files (t.install file.1 file.2).1 := by
  funext t
  rw [installAll, List.foldl_cons, installAll]

theorem overlooks_installAll {files : List (String × List UInt8)}
    (h : ∀ file ∈ files, Avoids file.1 p) : Overlooks (installAll files) p := by
  induction files with
  | nil => exact ⟨fun _ => rfl, fun _ _ h => h⟩
  | cons file files ih =>
    have hfirst := overlooks_install (h file (List.mem_cons_self ..)) file.2
    rw [installAll_cons]
    exact hfirst.comp (ih fun f hf => h f (List.mem_cons_of_mem _ hf))

end BuildRequirements.FileTree
