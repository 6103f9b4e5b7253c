import BuildRequirements.Proofs.ScratchFolders

/-!
A scratch folder is made by the normal form of its root's path, while the root itself is made by the path
as it is given. Both lead to one place: where the path has led, step by step, the normal form leads too.
-/

namespace BuildRequirements

open FileTree Run

namespace FileTree

variable {t u : FileTree} {here top : Location} {root : String}

/-- A path that goes up leads through folders that are there or have just been made. Its normal form
leaves them out, and all places on its own way are above where it starts or where it ends. -/
theorem enter_settledParts (hhere : t.node? here = some .folder)
    (hstart : Path.isAbsolute root = true → here = [])
    (h : t.makeParts here (Path.parts root) = (u, .ok top)) :
    u.enter here (Path.settledParts root) = .ok top := by
  have hmade : (t.makeParts here (Path.parts root)).2 = .ok top := by rw [h]
  have hfolders := makeParts_folders hmade hhere
  rw [h] at hfolders
  have htop := makeParts_eq_ok hmade
  rw [htop, ← Path.follow_settledParts hstart]
  apply enter_of_folders
  intro q hq
  rcases Path.placesAlong_settledParts hstart hq with hq | hq
  · exact folder_of_suffix (hfolders here (self_mem_placesAlong here _)) hq
  · exact folder_of_suffix (hfolders _ (follow_mem_placesAlong here _)) hq

theorem makeFolders_eq (h : t.makeFolders root = (u, .ok top)) :
    root ≠ "" ∧ t.makeParts [] (Path.parts root) = (u, .ok top) := by
  rw [makeFolders] at h
  split at h
  · cases h
  · rename_i hroot
    refine ⟨hroot, ?_⟩
    obtain ⟨hu, htop⟩ := Prod.mk.inj h
    cases hm : t.makeParts [] (Path.parts root) with
    | mk v r =>
      rw [hm] at hu htop
      cases r with
      | error f => cases htop
      | ok p =>
        cases htop
        rw [← hu]

end FileTree

namespace Scratch

structure IsMadeIn (root stem : String) (top : Location) (s : RunState) (w : Scratch) (t : RunState) :
    Prop where
  root_leads : t.files.locate root = .ok top
  child : ∃ number, t.files.locate w.folder = .ok ((stem ++ number) :: top) ∧
    s.files.node? ((stem ++ number) :: top) = none ∧
    t.files.node? ((stem ++ number) :: top) = some .folder
  log_eq : w.log = w.folder ++ "/" ++ logName
  kept : ∀ q, s.files.node? q ≠ none → t.files.node? q = s.files.node? q

section Create

variable {root stem : String} {s t : RunState} {w : Scratch} {u : FileTree} {top : Location}

theorem place_of_makeFolders (hs : Path.IsPlain stem) (h : s.files.makeFolders root = (u, .ok top)) :
    place u (Path.join root stem) = .ok (top, stem) := by
  obtain ⟨hroot, hparts⟩ := makeFolders_eq h
  have henter : u.enter [] (Path.settledParts root) = .ok top :=
    enter_settledParts (node?_nil s.files) (fun _ => rfl) hparts
  rw [place, Path.parts_join hroot hs, List.dropLast_concat, henter]
  simp [List.getLastD_eq_getLast?]

theorem outcome_create (hs : Path.IsPlain stem) (h : s.files.makeFolders root = (u, .ok top))
    (hnew : u.node? ((stem ++ numeral (s.scratchCount + 1)) :: top) = none) :
    ∃ w, outcome (create root stem) s = .ok w := by
  have hplace := place_of_makeFolders hs h
  have hvacant : u.isVacant ((stem ++ numeral (s.scratchCount + 1)) :: top) = true := by
    rw [isVacant, hnew]
  rw [create, outcome_bind, outcome_changeFiles, h]
  simp only [mapError_fault_ok, after_changeFiles, h, outcome_bind, outcome_get, after_get,
    outcome_ofExcept, after_ofExcept, hplace]
  rw [if_pos hvacant]
  exact ⟨_, rfl⟩

theorem IsMade.log_eq_append (hw : IsMade root stem s w t) (hs : Path.IsPlain stem) :
    w.log = w.folder ++ "/" ++ logName := by
  have hname := isPlain_append_numeral hs (s.scratchCount + 1)
  have hparts := parts_numbered hw.root_ne hs (s.scratchCount + 1)
  rw [← hw.folder_eq] at hparts
  have hsettled : Path.settledParts w.folder = Path.parts w.folder :=
    Path.settledParts_of_parts hname hparts
  rw [hw.log_eq]
  exact Path.join_eq_append hsettled.symm hw.folder_ne isPlain_logName

theorem isMadeIn (hs : Path.IsPlain stem) (h : s.files.makeFolders root = (u, .ok top))
    (hnew : u.node? ((stem ++ numeral (s.scratchCount + 1)) :: top) = none)
    (hw : IsMade root stem s w t) : IsMadeIn root stem top s w t := by
  have htop : top = destination root := makeParts_eq_ok (by rw [(makeFolders_eq h).2])
  have hkept := fun q => makeFolders_kept s.files root q
  have hfolders := hw.root_folders
  have hnode := hw.node?_eq
  rw [h] at hkept hfolders hnode
  have hway (q : Location) (hq : q ∈ way root) : t.files.node? q = some .folder := by
    rw [hnode]
    split
    · rfl
    · exact hfolders q hq
  have habsent : s.files.node? ((stem ++ numeral (s.scratchCount + 1)) :: top) = none := by
    rcases hkept ((stem ++ numeral (s.scratchCount + 1)) :: top) with hsame | ⟨_, hnone, _⟩
    · rw [← hsame, hnew]
    · exact hnone
  rw [htop] at habsent ⊢
  constructor
  · exact locate_of_enter hw.root_ne (enter_of_folders fun q hq => hway q (way_dropLast hq))
  · refine ⟨numeral (s.scratchCount + 1), ?_, habsent, ?_⟩
    · rw [hw.folder_eq]
      exact locate_folder hw.root_ne hs _ (hway _ (destination_mem_way root))
    · rw [hnode, location, if_pos rfl]
  · exact hw.log_eq_append hs
  · intro q hq
    rw [hnode, location, if_neg]
    · rcases hkept q with hsame | ⟨_, hnone, _⟩
      · exact hsame
      · exact absurd hnone hq
    · rintro rfl
      exact hq habsent

end Create

/-- A run starts its paths at the top. The paths agree from any other folder too, where `..` leads out of
it; a path with a slash in front starts at the top wherever it is used. -/
theorem made_where_root_leads (root : String) {stem : String} (hs : Path.IsPlain stem) :
    (∀ (s : RunState) (u : FileTree) (top : Location), s.files.makeFolders root = (u, .ok top) →
      u.node? ((stem ++ numeral (s.scratchCount + 1)) :: top) = none →
      ∃ w, outcome (create root stem) s = .ok w ∧
        IsMadeIn root stem top s w (after (create root stem) s)) ∧
    ∀ (t u : FileTree) (here top : Location), t.node? here = some .folder →
      (Path.isAbsolute root = true → here = []) → root ≠ "" →
      t.makeParts here (Path.parts root) = (u, .ok top) →
      ∃ front, Path.parts (Path.join root stem) = front ++ [stem] ∧ u.enter here front = .ok top := by
  constructor
  · intro s u top h hnew
    obtain ⟨w, hw⟩ := outcome_create hs h hnew
    exact ⟨w, hw, isMadeIn hs h hnew (create_eq_ok hs hw)⟩
  · intro t u here top hhere hstart hroot h
    exact ⟨Path.settledParts root, Path.parts_join hroot hs, enter_settledParts hhere hstart h⟩

def winding : String := "../m/.././a//b/"

def housed : RunState := { files := (FileTree.empty.put "home" [] .folder).put "a" [] .folder }

theorem made_where_root_leads_of_winding :
    Path.IsPlain "x-" ∧ (housed.files.makeFolders winding).2 = .ok ["b", "a"] ∧
      (housed.files.makeFolders winding).1.node? ("x-000001" :: ["b", "a"]) = none ∧
      (∃ w, outcome (create winding "x-") housed = .ok w ∧
        IsMadeIn winding "x-" ["b", "a"] housed w (after (create winding "x-") housed)) ∧
      (housed.files.makeParts ["home"] (Path.parts winding)).2 = .ok ["b", "a"] ∧
      ∃ front, Path.parts (Path.join winding "x-") = front ++ ["x-"] ∧
        (housed.files.makeParts ["home"] (Path.parts winding)).1.enter ["home"] front =
          .ok ["b", "a"] := by
  have hs : Path.IsPlain "x-" := ⟨by decide, by decide, by decide⟩
  obtain ⟨hmade, hleads⟩ := made_where_root_leads winding hs
  have htop : (housed.files.makeFolders winding).2 = .ok ["b", "a"] := rfl
  have hnew : (housed.files.makeFolders winding).1.node? ("x-000001" :: ["b", "a"]) = none := by
    decide +kernel
  have hplace : (housed.files.makeParts ["home"] (Path.parts winding)).2 = .ok ["b", "a"] :=
    rfl
  refine ⟨hs, htop, hnew, hmade housed _ _ (Prod.ext rfl htop) ?_, hplace, ?_⟩
  · have hname : "x-" ++ numeral (housed.scratchCount + 1) = "x-000001" := by decide +kernel
    rw [hname]
    exact hnew
  · exact hleads housed.files _ ["home"] _ (by decide +kernel) (by decide +kernel) (by decide)
      (Prod.ext rfl hplace)

end Scratch

end BuildRequirements
