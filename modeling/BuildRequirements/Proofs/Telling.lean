import BuildRequirements.Proofs.Discovery.Steps

/-!
What runs tell. A run adds diagnostics to those that are there, and neither how it ends nor what else
it does depends on any of them.
-/

namespace BuildRequirements

def RunState.told (s : RunState) (ns : List Diagnostic) : RunState :=
  { s with diagnostics := ns ++ s.diagnostics }

namespace RunState

variable (s : RunState) (ns : List Diagnostic)

end RunState

namespace Run

variable {α β : Type} {p : Diagnostic → Prop}

/-- A run that depends on no diagnostics, and adds only such that satisfy `p`. -/
structure Tells (p : Diagnostic → Prop) (x : Run α) : Prop where
  outcome_told : ∀ ns s, outcome x (s.told ns) = outcome x s
  after_told : ∀ ns s, after x (s.told ns) = (after x s).told ns
  all : ∀ s, (∀ n ∈ s.diagnostics, p n) → ∀ n ∈ (after x s).diagnostics, p n

def added (x : Run α) (s : RunState) : List Diagnostic :=
  (after x { s with diagnostics := [] }).diagnostics

section Tells

variable {x : Run α} {f : α → Run β} {s : RunState}

theorem told_diagnostics (s : RunState) : RunState.told { s with diagnostics := [] } s.diagnostics = s := by
  rw [RunState.told, List.append_nil]

theorem Tells.diagnostics_after (h : Tells p x) (s : RunState) :
    (after x s).diagnostics = s.diagnostics ++ added x s := by
  have ha := h.after_told s.diagnostics { s with diagnostics := [] }
  rw [told_diagnostics] at ha
  rw [ha]
  rfl

theorem Tells.of_mem_added (h : Tells p x) : ∀ n ∈ added x s, p n :=
  h.all { s with diagnostics := [] } fun n hn => by cases hn

theorem Tells.mono {q : Diagnostic → Prop} (h : Tells p x) (hpq : ∀ n, p n → q n) : Tells q x where
  outcome_told := h.outcome_told
  after_told := h.after_told
  all s hs n hn := by
    rw [h.diagnostics_after, List.mem_append] at hn
    rcases hn with hn | hn
    · exact hs n hn
    · exact hpq n (h.of_mem_added n hn)

theorem tells_of_silent (h : ∀ ns s, outcome x (s.told ns) = outcome x s ∧
    after x (s.told ns) = (after x s).told ns ∧ (after x s).diagnostics = s.diagnostics) :
    Tells p x where
  outcome_told ns s := (h ns s).1
  after_told ns s := (h ns s).2.1
  all s hs := by
    rw [(h [] s).2.2]
    exact hs

theorem tells_pure (a : α) : Tells p (pure a) := tells_of_silent fun _ _ => ⟨rfl, rfl, rfl⟩

theorem tells_throw (e : Interruption) : Tells p (throw e : Run α) :=
  tells_of_silent fun _ _ => ⟨rfl, rfl, rfl⟩

theorem tells_bind (hx : Tells p x) (hf : ∀ a, Tells p (f a)) : Tells p (x >>= f) where
  outcome_told ns s := by
    rw [outcome_bind, outcome_bind, hx.outcome_told, hx.after_told]
    cases outcome x s with
    | ok a => exact (hf a).outcome_told ns _
    | error e => rfl
  after_told ns s := by
    rw [after_bind, after_bind, hx.outcome_told, hx.after_told]
    cases outcome x s with
    | ok a => exact (hf a).after_told ns _
    | error e => rfl
  all s hs := by
    rw [after_bind]
    cases outcome x s with
    | ok a => exact (hf a).all _ (hx.all s hs)
    | error e => exact hx.all s hs

theorem tells_reportAll {severity : Severity} {texts : List String}
    (h : ∀ text ∈ texts, p ⟨severity, text⟩) : Tells p (reportAll severity texts) where
  outcome_told _ _ := rfl
  after_told ns s := by
    rw [after_reportAll, after_reportAll, RunState.told, RunState.told, List.append_assoc]
  all s hs n hn := by
    rw [after_reportAll, List.mem_append, List.mem_map] at hn
    rcases hn with hn | ⟨text, htext, rfl⟩
    · exact hs n hn
    · exact h text htext

theorem tells_report {severity : Severity} {text : String} (h : p ⟨severity, text⟩) :
    Tells p (report severity text) :=
  tells_reportAll fun t ht => by rwa [List.mem_singleton.mp ht]

theorem tells_print (text : String) : Tells p (print text) :=
  tells_of_silent fun _ _ => ⟨rfl, rfl, rfl⟩

theorem tells_record (call : Call) : Tells p (record call) :=
  tells_of_silent fun _ _ => ⟨rfl, rfl, rfl⟩

theorem tells_setFiles (t : FileTree) : Tells p (setFiles t) :=
  tells_of_silent fun _ _ => ⟨rfl, rfl, rfl⟩

theorem tells_get {f : RunState → Run β} (hf : ∀ s, Tells p (f s))
    (htold : ∀ ns s, f (s.told ns) = f s) : Tells p (get >>= f) where
  outcome_told ns s := (congrArg (outcome · _) (htold ns s)).trans ((hf s).outcome_told ns s)
  after_told ns s := (congrArg (after · _) (htold ns s)).trans ((hf s).after_told ns s)
  all s := (hf s).all s

theorem tells_ofExcept (r : Except Fault α) : Tells p (ofExcept r) := by
  cases r with
  | ok a => exact tells_pure a
  | error e => exact tells_throw _

theorem tells_changeFiles (change : FileTree → FileTree × Except Fault α) :
    Tells p (changeFiles change) :=
  tells_get (fun _ => tells_bind (tells_setFiles _) fun _ => tells_ofExcept _) fun _ _ => rfl

theorem tells_readText (path : String) : Tells p (readText path) := by
  refine tells_get (fun s => ?_) fun _ _ => rfl
  split
  · exact tells_pure _
  · split
    · exact tells_pure _
    · exact tells_throw _

theorem tells_writeBytes (append : Bool) (path : String) (bytes : List UInt8) :
    Tells p (writeBytes append path bytes) :=
  tells_get (fun _ => tells_bind (tells_ofExcept _) tells_setFiles) fun _ _ => rfl

end Tells

end Run

open Run

variable {p : Diagnostic → Prop}

namespace Runner

theorem tells_runDirect (act : Call → FileTree → FileTree × Except Interruption Download.Ending)
    (call : Call) : Tells p (runDirect act call) := by
  apply tells_bind (tells_record call)
  intro _
  refine tells_get (fun s => tells_bind (tells_setFiles _) fun _ => ?_) fun _ _ => rfl
  split
  · exact tells_pure _
  · exact tells_throw _

theorem tells_runProcess (start : Call → FileTree → Child) (call : Call) :
    Tells p (runProcess start call) := by
  apply tells_bind (tells_writeBytes _ _ _)
  intro _
  dsimp only
  split
  · exact tells_pure _
  · refine tells_get (fun s => tells_bind (tells_record call) fun _ => ?_) fun _ _ => rfl
    split
    · exact tells_bind (tells_setFiles _) fun _ => tells_throw _
    · split
      · exact tells_bind (tells_setFiles _) fun _ => tells_pure _
      · exact tells_bind (tells_setFiles _) fun _ => tells_pure _

theorem tells_run (r : Runner) (call : Call) : Tells p (r.run call) := by
  cases r with
  | direct act => exact tells_runDirect act call
  | process start => exact tells_runProcess start call

end Runner

namespace Scratch

theorem tells_create (root stem : String) : Tells p (create root stem) := by
  apply tells_bind (tells_changeFiles _)
  intro _
  apply tells_of_silent
  intro ns s
  simp only [outcome_bind, after_bind, outcome_get, after_get, outcome_ofExcept, after_ofExcept,
    RunState.told]
  cases place s.files (Path.join root stem) with
  | error f => exact ⟨rfl, rfl, rfl⟩
  | ok q =>
    rw [mapError_fault_ok]
    dsimp only
    split
    · exact ⟨rfl, rfl, rfl⟩
    · exact ⟨rfl, rfl, rfl⟩

theorem tells_release (w : Scratch) (storage : Storage) : Tells p (release w storage) :=
  tells_changeFiles _

end Scratch

namespace Discovery

inductive Remark : Diagnostic → Prop where
  | folder (w : Scratch) : Remark ⟨.debug, "Scratch workspace: " ++ w.folder⟩
  | running : Remark ⟨.info, "Running pip download, this may take a while"⟩
  | failed (log : String) : Remark ⟨.error, (Failure.failed log).message⟩
  | ignored : Remark ⟨.warning, "Ignoring error..."⟩
  | reading : Remark ⟨.info, "Looking for build dependencies in the output of pip download"⟩

theorem tells_conclude (w : Scratch) (isPartial : Bool) (storage : Storage) :
    Tells Remark (conclude w isPartial storage) := by
  apply tells_bind (tells_report .reading)
  intro _
  apply tells_bind (tells_readText _)
  intro text
  dsimp only
  split
  · exact tells_pure _
  · exact tells_bind (Scratch.tells_release w storage) fun _ => tells_pure _

theorem tells_resume (o : Options) (w : Scratch) (failure : Option Download.Failure)
    (storage : Storage) : Tells Remark (resume o w failure storage) := by
  have hrest (isPartial : Bool) :
      Tells Remark (conclude w isPartial storage >>= fun d => pure (.ok d) :
        Run (Except Failure Discovery)) :=
    tells_bind (tells_conclude w isPartial storage) fun _ => tells_pure _
  unfold resume
  split
  · exact tells_pure _
  · dsimp only
    split
    · apply tells_bind (tells_report (.failed w.log))
      intro _
      exact tells_bind (tells_report .ignored) fun _ => hrest _
    · exact hrest _

theorem tells_find (o : Options) (runner : Runner) (inputs : List String) (storage : Storage) :
    Tells Remark (find o runner inputs storage) := by
  rw [find_eq]
  apply tells_bind (Scratch.tells_create _ _)
  intro w
  apply tells_bind (tells_report (.folder w))
  intro _
  apply tells_bind (tells_report .running)
  intro _
  apply tells_bind (tells_bind (Runner.tells_run _ _) fun _ => tells_pure _)
  exact fun failure => tells_resume o w failure storage

end Discovery

end BuildRequirements
