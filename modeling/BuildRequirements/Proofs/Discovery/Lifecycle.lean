import Mathlib.Control.Monad.Basic
import BuildRequirements.Proofs.Discovery.Steps

/-!
The scratch folders of discoveries that are carried out one after the other: a complete discovery
removes its own, any other leaves it as the downloader left it, and no later discovery changes or
removes what is in one.
-/

namespace BuildRequirements.Discovery

open FileTree Run Scratch

structure Request where
  options : Options
  runner : Runner
  inputs : List String

namespace Request

def run (c : Request) (storage : Storage := .sound) : Run (Except Failure Discovery) :=
  find c.options c.runner c.inputs storage

def creation (c : Request) : Run Scratch := Scratch.create c.options.scratchRoot stem

def workspace (c : Request) (s : RunState) : Location :=
  location c.options.scratchRoot stem (s.scratchCount + 1)

def download (c : Request) (w : Scratch) (s : RunState) : Except Interruption Download.Ending :=
  outcome (c.runner.run (call c.options c.inputs w)) (started w (after c.creation s))

def left (c : Request) (w : Scratch) (s : RunState) : RunState :=
  after (c.runner.run (call c.options c.inputs w)) (started w (after c.creation s))

def Completes (c : Request) (s : RunState) : Prop :=
  ∃ d, outcome c.run s = .ok (.ok d) ∧ d.isPartial = false

def IsNew (c : Request) (s : RunState) : Prop :=
  (s.files.makeFolders c.options.scratchRoot).1.node? (c.workspace s) = none

theorem run_eq (c : Request) (storage : Storage) : c.run storage =
    c.creation >>= fun w => findIn c.options c.runner c.inputs w storage := rfl

variable {c : Request} {s : RunState} {w : Scratch} {q : Location} {d : Discovery} {storage : Storage}

theorem node?_left (hconf : c.runner.IsConfined) (hw : outcome c.creation s = .ok w)
    (hq : Location.isAbove (c.workspace s) q = false) :
    (c.left w s).files.node? q = (after c.creation s).files.node? q := by
  have hm := create_eq_ok isPlain_stem hw
  have hlog := hm.destination_log isPlain_stem
  have hne : q ≠ destination w.log := by
    rw [hlog]
    rintro rfl
    simp [Location.isAbove, workspace] at hq
  have hkeep : c.runner.KeepsAt (call c.options c.inputs w) q := by
    apply hconf
    rw [call, hlog]
    exact hq
  exact Runner.keeps_node?_run hkeep hne (started w (after c.creation s))

theorem left_workspace (hconf : c.runner.IsConfined) (hw : outcome c.creation s = .ok w) :
    (c.left w s).files.node? (c.workspace s) = some .folder := by
  rw [node?_left hconf hw (by simp [Location.isAbove]), creation,
    (create_eq_ok isPlain_stem hw).node?_eq]
  exact if_pos rfl

theorem left_root (hconf : c.runner.IsConfined) (hw : outcome c.creation s = .ok w) :
    (c.left w s).files.node? (destination c.options.scratchRoot) = some .folder :=
  folder_of_suffix (left_workspace hconf hw) (List.suffix_cons _ _)

theorem after_run_of_folder (hw : outcome c.creation s = .ok w)
    (hws : (c.left w s).files.node? (c.workspace s) = some .folder) :
    (c.Completes s ∧ ∀ q, (after c.run s).files.node? q =
        if c.workspace s <:+ q then none else (c.left w s).files.node? q) ∨
      (¬c.Completes s ∧ ∀ q, (after c.run s).files.node? q = (c.left w s).files.node? q) := by
  have hm := create_eq_ok isPlain_stem hw
  have hrun : outcome c.run s =
      outcome (findIn c.options c.runner c.inputs w) (after c.creation s) := outcome_bind_ok hw
  have hafter : after c.run s =
      after (findIn c.options c.runner c.inputs w) (after c.creation s) := after_bind_ok hw
  rw [Completes, hrun, hafter]
  cases hd : c.download w s with
  | error e =>
    obtain ⟨ho, ha⟩ := findIn_of_error hd
    rw [ho, ha]
    refine Or.inr ⟨?_, fun q => rfl⟩
    rintro ⟨d, hd, _⟩
    cases hd
  | ok ending =>
    obtain ⟨ho, ha⟩ : outcome (findIn c.options c.runner c.inputs w) (after c.creation s) =
        outcome (resume c.options w (failure? c.options c.inputs w ending)) (c.left w s) ∧
        after (findIn c.options c.runner c.inputs w) (after c.creation s) =
        after (resume c.options w (failure? c.options c.inputs w ending)) (c.left w s) :=
      findIn_of_ok hd
    rw [ho, ha]
    cases hf : failure? c.options c.inputs w ending with
    | some f =>
      obtain ⟨hfiles, hresult⟩ := resume_of_failure c.options w f .sound (c.left w s)
      refine Or.inr ⟨?_, fun q => congrArg (fun t => t.node? q) hfiles⟩
      rintro ⟨d, hd, hp⟩
      obtain ⟨_, text, _, rfl⟩ := hresult d hd
      cases hp
    | none =>
      cases ht : textAt (c.left w s).files w.log with
      | ok text =>
        obtain ⟨hout, hnode⟩ := resume_of_text (o := c.options) hm.root_ne isPlain_stem
          hm.folder_eq (folder_of_suffix hws (List.suffix_cons _ _)) ht
        exact Or.inl ⟨⟨_, hout, rfl⟩, hnode⟩
      | error f =>
        obtain ⟨hout, hfiles⟩ := resume_of_fault (o := c.options) ht
        rw [hout, hfiles]
        refine Or.inr ⟨?_, fun q => rfl⟩
        rintro ⟨d, hd, _⟩
        cases hd

theorem after_run (hconf : c.runner.IsConfined) (hw : outcome c.creation s = .ok w) :
    (c.Completes s ∧ ∀ q, (after c.run s).files.node? q =
        if c.workspace s <:+ q then none else (c.left w s).files.node? q) ∨
      (¬c.Completes s ∧ ∀ q, (after c.run s).files.node? q = (c.left w s).files.node? q) :=
  after_run_of_folder hw (left_workspace hconf hw)

theorem run_eq_ok (hconf : c.runner.IsConfined) (h : outcome c.run s = .ok (.ok d)) :
    ∃ w ending, outcome c.creation s = .ok w ∧ c.download w s = .ok ending ∧
      d = result w (failure? c.options c.inputs w ending)
        (Text.Utf8.decode ((c.left w s).files.contentAt (logName :: c.workspace s))) ∧
      (d.isPartial = true → c.options.ignoreErrors = true) := by
  rw [run_eq] at h
  obtain ⟨w, hw, hfind⟩ := bind_eq_ok h
  have hm := create_eq_ok isPlain_stem hw
  cases hd : c.download w s with
  | error e =>
    obtain ⟨ho, _⟩ := findIn_of_error hd
    rw [ho] at hfind
    cases hfind
  | ok ending =>
    have ho : outcome (findIn c.options c.runner c.inputs w) (after c.creation s) =
        outcome (resume c.options w (failure? c.options c.inputs w ending)) (c.left w s) :=
      (findIn_of_ok hd).1
    have hlog {text : String} (ht : textAt (c.left w s).files w.log = .ok text) :
        text = Text.Utf8.decode ((c.left w s).files.contentAt (logName :: c.workspace s)) := by
      have hdest : destination w.folder = c.workspace s := hm.destination_folder isPlain_stem
      rw [hm.log_eq] at ht
      rw [← hdest]
      exact textAt_log hm.folder_ne (by rw [hdest]; exact left_workspace hconf hw) ht
    refine ⟨w, ending, hw, hd, ?_⟩
    rw [ho] at hfind
    cases hf : failure? c.options c.inputs w ending with
    | some f =>
      rw [hf] at hfind
      obtain ⟨hi, text, ht, rfl⟩ := (resume_of_failure c.options w f .sound (c.left w s)).2 d hfind
      rw [hlog ht]
      exact ⟨rfl, fun _ => hi⟩
    | none =>
      rw [hf] at hfind
      cases ht : textAt (c.left w s).files w.log with
      | error f =>
        rw [(resume_of_fault ht).1] at hfind
        cases hfind
      | ok text =>
        obtain ⟨hout, _⟩ := resume_of_text (o := c.options) hm.root_ne isPlain_stem hm.folder_eq
          (left_root hconf hw) ht
        rw [hout] at hfind
        cases hfind
        rw [hlog ht]
        exact ⟨rfl, fun hp => by cases hp⟩

theorem run_names (h : outcome (c.run storage) s = .ok (.ok d)) :
    ∃ text, d.names = BuildLog.requirements text := by
  rw [run_eq] at h
  obtain ⟨w, _, h⟩ := bind_eq_ok h
  cases hd : outcome (c.runner.run (call c.options c.inputs w)) (started w (after c.creation s)) with
  | error e =>
    rw [(findIn_of_error hd).1] at h
    cases h
  | ok ending =>
    rw [(findIn_of_ok hd).1] at h
    exact resume_names h

theorem run_eq_failure {f : Failure} (h : outcome (c.run storage) s = .ok (.error f)) :
    ∃ w, outcome c.creation s = .ok w ∧ f.log = w.log := by
  rw [run_eq] at h
  obtain ⟨w, hw, hfind⟩ := bind_eq_ok h
  refine ⟨w, hw, ?_⟩
  cases hd : c.download w s with
  | error e =>
    obtain ⟨ho, _⟩ := findIn_of_error hd
    rw [ho] at hfind
    cases hfind
  | ok ending =>
    have ho : outcome (findIn c.options c.runner c.inputs w storage) (after c.creation s) =
        outcome (resume c.options w (failure? c.options c.inputs w ending) storage) (c.left w s) :=
      (findIn_of_ok hd).1
    rw [ho] at hfind
    exact resume_eq_error hfind

instance (c : Request) (s : RunState) : Decidable (c.Completes s) :=
  match h : outcome c.run s with
  | .ok (.ok d) =>
    if hp : d.isPartial = false then .isTrue ⟨d, h, hp⟩
    else .isFalse fun ⟨_, he, hq⟩ => hp (Except.ok.inj (Except.ok.inj (h.symm.trans he)) ▸ hq)
  | .ok (.error _) => .isFalse fun ⟨_, he, _⟩ => nomatch h.symm.trans he
  | .error _ => .isFalse fun ⟨_, he, _⟩ => nomatch h.symm.trans he

def MayAdd (c : Request) (s : RunState) (q : Location) (n : Option Node) : Prop :=
  q ∈ way c.options.scratchRoot ∧ n = some .folder ∨ c.workspace s <:+ q ∧ ¬c.Completes s

theorem none_of_isNew (hnew : c.IsNew s) (hq : c.workspace s <:+ q) : s.files.node? q = none := by
  have hmade := none_of_suffix hnew hq
  rcases makeFolders_kept s.files c.options.scratchRoot q with h | ⟨_, h, _⟩
  · rw [← h]
    exact hmade
  · exact h

theorem keptBut_run (hconf : c.runner.IsConfined) (hq : ¬c.workspace s <:+ q) :
    KeptBut (way c.options.scratchRoot) s.files (after (c.run storage) s).files q := by
  apply keptBut_find hq
  intro call hcall
  apply hconf call q
  rw [hcall, List.tail_cons]
  exact isAbove_eq_false hq

theorem not_completes_of_error {e : Interruption} (hw : outcome c.creation s = .error e) :
    ¬c.Completes s := by
  have hrun : outcome c.run s = .error e := outcome_bind_error hw
  rw [Completes, hrun]
  rintro ⟨d, hd, _⟩
  cases hd

theorem files_run_of_error {e : Interruption} (hw : outcome c.creation s = .error e)
    (storage : Storage) :
    (after (c.run storage) s).files = (s.files.makeFolders c.options.scratchRoot).1 := by
  rw [run_eq, after_bind_error hw, creation, after_create_error hw]

theorem workspace_gone (hconf : c.runner.IsConfined) (hdone : c.Completes s)
    (hq : c.workspace s <:+ q) : (after c.run s).files.node? q = none := by
  cases hw : outcome c.creation s with
  | error e => exact absurd hdone (not_completes_of_error hw)
  | ok w =>
    rcases after_run hconf hw with ⟨_, h⟩ | ⟨h, _⟩
    · exact (h q).trans (if_pos hq)
    · exact absurd hdone h

theorem file?_of_isVacant {t : FileTree} (h : t.isVacant q = true) : t.file? q = none := by
  rw [FileTree.file?]
  rw [FileTree.isVacant] at h
  cases hn : t.node? q with
  | none => rfl
  | some n =>
    cases n with
    | folder => rfl
    | file content =>
      rw [hn] at h
      cases h

theorem file?_after_run (hconf : c.runner.IsConfined)
    (hq : Location.isAbove (c.workspace s) q = false) :
    (after c.run s).files.file? q = s.files.file? q := by
  by_cases hsuffix : c.workspace s <:+ q
  · have he : c.workspace s = q := by
      rw [Location.isAbove, List.isSuffixOf_iff_suffix.mpr hsuffix, Bool.true_and] at hq
      simpa using hq
    -- The place of the scratch folder itself is no file, neither before nor after.
    have hmade := (makeFolders_kept s.files c.options.scratchRoot q).file?
    cases hw : outcome c.creation s with
    | error e => rw [files_run_of_error hw, hmade]
    | ok w =>
      have hvacant := file?_of_isVacant (create_eq_ok isPlain_stem hw).vacant
      have hbefore : s.files.file? q = none := by
        rw [← hmade, ← he]
        exact hvacant
      rw [hbefore]
      rcases after_run hconf hw with ⟨_, h⟩ | ⟨_, h⟩
      · rw [FileTree.file?, h q, if_pos hsuffix]
      · rw [FileTree.file?, h q, ← he, left_workspace hconf hw]
  · exact (keptBut_run hconf hsuffix).file?

theorem node?_after_run (hconf : c.runner.IsConfined) (hnew : c.IsNew s) (q : Location) :
    (after c.run s).files.node? q = s.files.node? q ∨
      s.files.node? q = none ∧ c.MayAdd s q ((after c.run s).files.node? q) := by
  by_cases hq : c.workspace s <:+ q
  · have hnone := none_of_isNew hnew hq
    by_cases hdone : c.Completes s
    · exact Or.inl ((workspace_gone hconf hdone hq).trans hnone.symm)
    · exact Or.inr ⟨hnone, Or.inr ⟨hq, hdone⟩⟩
  · rcases keptBut_run hconf hq with h | ⟨hway, hnone, hfolder⟩
    · exact Or.inl h
    · exact Or.inr ⟨hnone, Or.inl ⟨hway, hfolder⟩⟩

theorem keptBut_of_completes (hconf : c.runner.IsConfined) (hnew : c.IsNew s)
    (hdone : c.Completes s) (q : Location) :
    KeptBut (way c.options.scratchRoot) s.files (after c.run s).files q := by
  by_cases hq : c.workspace s <:+ q
  · exact Or.inl ((workspace_gone hconf hdone hq).trans (none_of_isNew hnew hq).symm)
  · exact keptBut_run hconf hq

end Request

def runAll (calls : List Request) (s : RunState) : RunState :=
  calls.foldl (fun s c => after c.run s) s

def AllNew (calls : List Request) (s : RunState) : Prop :=
  ∀ front c back, calls = front ++ c :: back → c.IsNew (runAll front s)

def MayAdd (calls : List Request) (s : RunState) (q : Location) (n : Option Node) : Prop :=
  ∃ front c back, calls = front ++ c :: back ∧ c.MayAdd (runAll front s) q n

section Sequence

variable {calls front back : List Request} {c : Request} {s : RunState} {q : Location}

theorem runAll_append (front back : List Request) (s : RunState) :
    runAll (front ++ back) s = runAll back (runAll front s) :=
  List.foldl_append

theorem allNew_cons : AllNew (c :: calls) s ↔ c.IsNew s ∧ AllNew calls (after c.run s) := by
  constructor
  · intro h
    refine ⟨h [] c calls rfl, fun front d back he => ?_⟩
    exact h (c :: front) d back (by rw [he]; rfl)
  · rintro ⟨hc, hcalls⟩ front d back he
    cases front with
    | nil =>
      obtain ⟨rfl, rfl⟩ := List.cons.inj he
      exact hc
    | cons e front =>
      obtain ⟨rfl, rfl⟩ := List.cons.inj he
      exact hcalls front d back rfl

theorem AllNew.suffix (h : AllNew (front ++ back) s) : AllNew back (runAll front s) := by
  induction front generalizing s with
  | nil => exact h
  | cons d front ih => exact ih (allNew_cons.mp h).2

theorem MayAdd.cons {d : Request} {n : Option Node} (h : MayAdd calls (after d.run s) q n) :
    MayAdd (d :: calls) s q n := by
  obtain ⟨front, e, back, rfl, hq⟩ := h
  exact ⟨d :: front, e, back, rfl, hq⟩

theorem node?_runAll (hconf : ∀ c ∈ calls, c.runner.IsConfined) (hnew : AllNew calls s)
    (q : Location) :
    (runAll calls s).files.node? q = s.files.node? q ∨
      s.files.node? q = none ∧ MayAdd calls s q ((runAll calls s).files.node? q) := by
  induction calls generalizing s with
  | nil => exact Or.inl rfl
  | cons d calls ih =>
    obtain ⟨hd, hcalls⟩ := allNew_cons.mp hnew
    have hstep := Request.node?_after_run (hconf d (List.mem_cons_self ..)) hd q
    rcases ih (fun e he => hconf e (List.mem_cons_of_mem _ he)) hcalls with h | ⟨hnone, hadd⟩
    · rcases hstep with hs | ⟨hnone, hadd⟩
      · exact Or.inl (h.trans hs)
      · rw [← h] at hadd
        exact Or.inr ⟨hnone, [], d, calls, rfl, hadd⟩
    · rcases hstep with hs | ⟨hn, _⟩
      · exact Or.inr ⟨hs ▸ hnone, hadd.cons⟩
      · exact Or.inr ⟨hn, hadd.cons⟩

end Sequence

/-- What becomes of the scratch folder of a discovery that is carried out in `s`, where the files are
`final` once the discoveries `later` have followed. -/
structure Request.Aftermath (c : Request) (s : RunState) (later : List Request)
    (final : FileTree) : Prop where
  frame : ∀ q, ¬c.workspace s <:+ q →
    KeptBut (way c.options.scratchRoot) s.files (after c.run s).files q
  removed : c.Completes s →
    (∀ q, KeptBut (way c.options.scratchRoot) s.files (after c.run s).files q) ∧
    ∀ q, c.workspace s <:+ q → (after c.run s).files.node? q = none ∧
      (final.node? q = none ∨ Discovery.MayAdd later (after c.run s) q (final.node? q))
  retained : ∀ w, outcome c.creation s = .ok w → ¬c.Completes s →
    final.node? (c.workspace s) = some .folder ∧
    ∀ q, c.workspace s <:+ q → final.node? q = (c.left w s).files.node? q ∨
      (c.left w s).files.node? q = none ∧ Discovery.MayAdd later (after c.run s) q (final.node? q)
  success : ∀ d, outcome c.run s = .ok (.ok d) → ∃ w ending,
    outcome c.creation s = .ok w ∧ c.download w s = .ok ending ∧
    destination w.folder = c.workspace s ∧
    d.names = BuildLog.requirements
      (Text.Utf8.decode ((c.left w s).files.contentAt (logName :: c.workspace s))) ∧
    (d.isPartial = false ↔ ∃ signal, ending = .ended (some 0) signal) ∧
    (d.isPartial = true → c.options.ignoreErrors = true) ∧
    d.retained = if d.isPartial then some w.folder else none
  failure : ∀ f, outcome c.run s = .ok (.error f) → ∃ w, outcome c.creation s = .ok w ∧
    f.log = w.log ∧ destination f.log = logName :: c.workspace s

section Aftermath

variable {c : Request} {s : RunState} {before later : List Request}

theorem removed_runAll (hconf : ∀ d ∈ c :: later, d.runner.IsConfined)
    (hnew : AllNew (c :: later) s) (hdone : c.Completes s) {q : Location}
    (hq : c.workspace s <:+ q) :
    (runAll (c :: later) s).files.node? q = none ∨
      MayAdd later (after c.run s) q ((runAll (c :: later) s).files.node? q) := by
  have hgone := Request.workspace_gone (hconf c (List.mem_cons_self ..)) hdone hq
  have hlater : ∀ d ∈ later, d.runner.IsConfined :=
    fun d hd => hconf d (List.mem_cons_of_mem _ hd)
  rcases node?_runAll hlater (allNew_cons.mp hnew).2 q with h | ⟨_, h⟩
  · exact Or.inl (h.trans hgone)
  · exact Or.inr h

theorem retained_runAll (hconf : ∀ d ∈ c :: later, d.runner.IsConfined)
    (hnew : AllNew (c :: later) s) {w : Scratch} (hw : outcome c.creation s = .ok w)
    (hdone : ¬c.Completes s) (q : Location) :
    (runAll (c :: later) s).files.node? q = (c.left w s).files.node? q ∨
      (c.left w s).files.node? q = none ∧
        MayAdd later (after c.run s) q ((runAll (c :: later) s).files.node? q) := by
  have hlater : ∀ d ∈ later, d.runner.IsConfined :=
    fun d hd => hconf d (List.mem_cons_of_mem _ hd)
  rcases Request.after_run (hconf c (List.mem_cons_self ..)) hw with ⟨h, _⟩ | ⟨_, hleft⟩
  · exact absurd h hdone
  · rw [← hleft q]
    exact node?_runAll hlater (allNew_cons.mp hnew).2 q

theorem aftermath (hconf : ∀ d ∈ before ++ c :: later, d.runner.IsConfined)
    (hnew : AllNew (before ++ c :: later) s) :
    c.Aftermath (runAll before s) later (runAll (before ++ c :: later) s).files := by
  have hrest : ∀ d ∈ c :: later, d.runner.IsConfined :=
    fun d hd => hconf d (List.mem_append_right _ hd)
  have hc : c.runner.IsConfined := hrest c (List.mem_cons_self ..)
  have hn := hnew.suffix
  rw [runAll_append]
  constructor
  · intro q hq
    exact Request.keptBut_run hc hq
  · intro hdone
    refine ⟨Request.keptBut_of_completes hc (allNew_cons.mp hn).1 hdone, ?_⟩
    intro q hq
    exact ⟨Request.workspace_gone hc hdone hq, removed_runAll hrest hn hdone hq⟩
  · intro w hw hdone
    have hall := retained_runAll hrest hn hw hdone
    have hfolder := Request.left_workspace hc hw
    refine ⟨?_, fun q _ => hall q⟩
    rcases hall (c.workspace (runAll before s)) with h | ⟨h, _⟩
    · exact h.trans hfolder
    · rw [hfolder] at h
      cases h
  · intro d hd
    obtain ⟨w, ending, hw, hdown, rfl, hi⟩ := Request.run_eq_ok hc hd
    have hdest := (create_eq_ok isPlain_stem hw).destination_folder isPlain_stem
    have hnone : failure? c.options c.inputs w ending = none ↔
        ∃ signal, ending = .ended (some 0) signal := failure?_eq_none
    refine ⟨w, ending, hw, hdown, hdest, rfl, ?_, hi, rfl⟩
    rw [← hnone]
    exact Option.isSome_eq_false_iff.trans Option.isNone_iff_eq_none
  · intro f hf
    obtain ⟨w, hw, hlog⟩ := Request.run_eq_failure hf
    refine ⟨w, hw, hlog, ?_⟩
    rw [hlog]
    exact (create_eq_ok isPlain_stem hw).destination_log isPlain_stem

def Request.writing (root log : String) (ignoreErrors : Bool) (ending : Download.Ending) : Request :=
  ⟨{ scratchRoot := root, ignoreErrors := ignoreErrors }, Runner.writing log ending, ["input.txt"]⟩

def failing : Request := .writing "s" "  Collecting flit" true (.ended (some 1) none)

def completing : Request := .writing "s" "  Collecting wheel" false (.ended (some 0) none)

def nested : Request :=
  .writing "s/find-builddeps-000001/in" "  Collecting cython" false (.ended (some 0) none)

theorem aftermath_of_completing :
    (∀ d ∈ [failing] ++ completing :: [], d.runner.IsConfined) ∧
      AllNew ([failing] ++ completing :: []) { files := .empty } ∧
      completing.Aftermath (runAll [failing] { files := .empty }) []
        (runAll ([failing] ++ completing :: []) { files := .empty }).files := by
  have hconf : ∀ d ∈ [failing] ++ completing :: [], d.runner.IsConfined := by
    intro d hd
    simp only [List.singleton_append, List.mem_cons, List.not_mem_nil, or_false] at hd
    rcases hd with rfl | rfl
    · exact Runner.isConfined_writing _ _
    · exact Runner.isConfined_writing _ _
  have hnew : AllNew ([failing] ++ completing :: []) { files := .empty } := by
    apply allNew_cons.mpr
    constructor
    · unfold Request.IsNew
      decide +kernel
    · apply allNew_cons.mpr
      constructor
      · unfold Request.IsNew
        decide +kernel
      · intro front c back h
        simp at h
  exact ⟨hconf, hnew, aftermath hconf hnew⟩

theorem retained_not_untouched :
    ¬∀ (c : Request) (later : List Request) (s : RunState) (w : Scratch) (q : Location),
      (∀ d ∈ c :: later, d.runner.IsConfined) → AllNew (c :: later) s →
      outcome c.creation s = .ok w → ¬c.Completes s → c.workspace s <:+ q →
      (runAll (c :: later) s).files.node? q = (c.left w s).files.node? q := by
  intro h
  have hconf : ∀ d ∈ [failing, nested], d.runner.IsConfined := by
    intro d hd
    simp only [List.mem_cons, List.not_mem_nil, or_false] at hd
    rcases hd with rfl | rfl
    · exact Runner.isConfined_writing _ _
    · exact Runner.isConfined_writing _ _
  have hnew : AllNew [failing, nested] { files := .empty } := by
    apply allNew_cons.mpr
    constructor
    · unfold Request.IsNew
      decide +kernel
    · apply allNew_cons.mpr
      constructor
      · unfold Request.IsNew
        decide +kernel
      · intro front c back he
        simp at he
  -- The root of `nested` lies in the folder that `failing` leaves, so that a folder is made there.
  let w : Scratch := ⟨"s/find-builddeps-000001", "s/find-builddeps-000001/pip-download-output.txt"⟩
  have hw : outcome failing.creation { files := .empty } = .ok w := by decide +kernel
  have hleft : ¬failing.Completes { files := .empty } := by decide +kernel
  have heq := h failing [nested] { files := .empty } w ["in", "find-builddeps-000001", "s"] hconf
    hnew hw hleft (by decide +kernel)
  revert heq
  decide +kernel

end Aftermath

end BuildRequirements.Discovery
