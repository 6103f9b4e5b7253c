import BuildRequirements.Discovery
import BuildRequirements.Proofs.Runs.Runners
import BuildRequirements.Proofs.ScratchFolders

namespace BuildRequirements.Discovery

open FileTree Run Scratch

def stem : String := generator ++ "-"

theorem isPlain_stem : Path.IsPlain stem := by
  refine ⟨by decide, by decide, by decide⟩

def call (o : Options) (inputs : List String) (w : Scratch) : Call :=
  ⟨Download.command ⟨o.downloader, w.folder, inputs, o.noCache⟩, w.log⟩

def started (w : Scratch) (s : RunState) : RunState :=
  { s with
    diagnostics := s.diagnostics ++ [⟨.debug, "Scratch workspace: " ++ w.folder⟩] ++
      [⟨.info, "Running pip download, this may take a while"⟩] }

def resume (o : Options) (w : Scratch) (failure : Option Download.Failure)
    (storage : Storage := .sound) : Run (Except Failure Discovery) :=
  match judge o.ignoreErrors w.log failure with
  | .error f => return .error f
  | .ok isPartial => do
    if isPartial then
      Run.report .error (Failure.failed w.log).message
      Run.report .warning "Ignoring error..."
    return .ok (← conclude w isPartial storage)

def findIn (o : Options) (runner : Runner) (inputs : List String) (w : Scratch)
    (storage : Storage := .sound) : Run (Except Failure Discovery) := do
  Run.report .debug ("Scratch workspace: " ++ w.folder)
  Run.report .info "Running pip download, this may take a while"
  let d : Download := ⟨o.downloader, w.folder, inputs, o.noCache⟩
  resume o w (← d.attempt runner w.log) storage

variable {o : Options} {runner : Runner} {inputs : List String} {w : Scratch}
  {s t : RunState} {e : Interruption} {ending : Download.Ending} {q : Location} {storage : Storage}

theorem find_eq (o : Options) (runner : Runner) (inputs : List String) (storage : Storage) :
    find o runner inputs storage =
      Scratch.create o.scratchRoot stem >>= fun w => findIn o runner inputs w storage := rfl

def failure? (o : Options) (inputs : List String) (w : Scratch) (ending : Download.Ending) :
    Option Download.Failure :=
  Download.failure? ⟨o.downloader, w.folder, inputs, o.noCache⟩ ending

theorem failure?_eq_none : failure? o inputs w ending = none ↔ ∃ signal, ending = .ended (some 0) signal := by
  rcases ending with ⟨_ | code, signal⟩ | reason
  · simp [failure?, Download.failure?]
  · simp [failure?, Download.failure?]
  · simp [failure?, Download.failure?]

theorem findIn_of_error (h : outcome (runner.run (call o inputs w)) (started w s) = .error e) :
    outcome (findIn o runner inputs w storage) s = .error e ∧
      after (findIn o runner inputs w storage) s =
        after (runner.run (call o inputs w)) (started w s) := by
  have ha : outcome (Download.attempt ⟨o.downloader, w.folder, inputs, o.noCache⟩ runner w.log)
      (started w s) = .error e := outcome_bind_error h
  have hs : after (Download.attempt ⟨o.downloader, w.folder, inputs, o.noCache⟩ runner w.log)
      (started w s) = after (runner.run (call o inputs w)) (started w s) := after_bind_error h
  constructor
  · rw [findIn, outcome_bind_ok (outcome_report ..), outcome_bind_ok (outcome_report ..)]
    exact outcome_bind_error ha
  · rw [findIn, after_bind_ok (outcome_report ..), after_bind_ok (outcome_report ..)]
    exact (after_bind_error ha).trans hs

theorem findIn_of_ok (h : outcome (runner.run (call o inputs w)) (started w s) = .ok ending) :
    outcome (findIn o runner inputs w storage) s = outcome (resume o w (failure? o inputs w ending) storage)
        (after (runner.run (call o inputs w)) (started w s)) ∧
      after (findIn o runner inputs w storage) s = after (resume o w (failure? o inputs w ending) storage)
        (after (runner.run (call o inputs w)) (started w s)) := by
  have ha : outcome (Download.attempt ⟨o.downloader, w.folder, inputs, o.noCache⟩ runner w.log)
      (started w s) = .ok (failure? o inputs w ending) := outcome_bind_ok h
  have hs : after (Download.attempt ⟨o.downloader, w.folder, inputs, o.noCache⟩ runner w.log)
      (started w s) = after (runner.run (call o inputs w)) (started w s) := after_bind_ok h
  constructor
  · rw [findIn, outcome_bind_ok (outcome_report ..), outcome_bind_ok (outcome_report ..)]
    exact (outcome_bind_ok ha).trans (by rw [← hs])
  · rw [findIn, after_bind_ok (outcome_report ..), after_bind_ok (outcome_report ..)]
    exact (after_bind_ok ha).trans (by rw [← hs])

theorem judge_eq_ok {ignoreErrors isPartial : Bool} {log : String}
    {failure : Option Download.Failure} (h : judge ignoreErrors log failure = .ok isPartial) :
    isPartial = failure.isSome ∧ (isPartial = true → ignoreErrors = true) := by
  rcases failure with _ | f
  · cases h
    exact ⟨rfl, by simp⟩
  · cases f with
    | notStarted program reason => cases h
    | exited code | killed signal =>
      cases ignoreErrors with
      | false => cases h
      | true =>
        cases h
        exact ⟨rfl, fun _ => rfl⟩

theorem judge_eq_error {ignoreErrors : Bool} {log : String} {failure : Option Download.Failure}
    {f : Failure} (h : judge ignoreErrors log failure = .error f) : f.log = log := by
  rcases failure with _ | g
  · cases h
  · cases g with
    | notStarted program reason =>
      cases h
      rfl
    | exited code | killed signal =>
      cases ignoreErrors with
      | true => cases h
      | false =>
        cases h
        rfl

section Resume

variable {u : RunState} {f : Download.Failure}

theorem conclude_partial {text : String} (ht : textAt u.files w.log = .ok text) :
    outcome (conclude w true storage) u = .ok ⟨BuildLog.requirements text, true, some w.folder⟩ ∧
      (after (conclude w true storage) u).files = u.files := by
  rw [conclude, outcome_bind_ok (outcome_report ..), after_bind_ok (outcome_report ..),
    outcome_bind, after_bind, outcome_readText, after_readText, after_report, ht]
  exact ⟨rfl, rfl⟩

theorem conclude_fault {isPartial : Bool} {f : Fault} (ht : textAt u.files w.log = .error f) :
    outcome (conclude w isPartial storage) u = .error (.fault f) ∧
      (after (conclude w isPartial storage) u).files = u.files := by
  rw [conclude, outcome_bind_ok (outcome_report ..), after_bind_ok (outcome_report ..),
    outcome_bind, after_bind, outcome_readText, after_readText, after_report, ht]
  exact ⟨rfl, rfl⟩

theorem conclude_complete {root stem text : String} {n : Nat} (hr : root ≠ "")
    (hs : Path.IsPlain stem) (hw : w.folder = Path.join root stem ++ numeral n)
    (hd : u.files.node? (destination root) = some .folder)
    (ht : textAt u.files w.log = .ok text) :
    outcome (conclude w false) u = .ok ⟨BuildLog.requirements text, false, none⟩ ∧
      ∀ q, (after (conclude w false) u).files.node? q =
        if location root stem n <:+ q then none else u.files.node? q := by
  rw [conclude, outcome_bind_ok (outcome_report ..), after_bind_ok (outcome_report ..),
    outcome_bind, after_bind, outcome_readText, after_readText, after_report, ht]
  obtain ⟨ho, ha⟩ := release_folder (s := { u with diagnostics := u.diagnostics ++ [_] })
    hr hs hw hd
  have hread : (Except.ok text).mapError Interruption.fault = .ok text := rfl
  simp only [hread, Bool.false_eq_true, if_false]
  rw [outcome_bind_ok ho, after_bind_ok ho]
  exact ⟨rfl, ha⟩

def result (w : Scratch) (failure : Option Download.Failure) (text : String) : Discovery :=
  ⟨BuildLog.requirements text, failure.isSome, if failure.isSome then some w.folder else none⟩

theorem resume_none (o : Options) (w : Scratch) (storage : Storage) :
    resume o w none storage = conclude w false storage >>= fun d => pure (.ok d) := by
  simp [resume, judge]

theorem resume_of_text {root stem text : String} {n : Nat} (hr : root ≠ "")
    (hs : Path.IsPlain stem) (hw : w.folder = Path.join root stem ++ numeral n)
    (hd : u.files.node? (destination root) = some .folder)
    (ht : textAt u.files w.log = .ok text) :
    outcome (resume o w none) u = .ok (.ok (result w none text)) ∧
      ∀ q, (after (resume o w none) u).files.node? q =
        if location root stem n <:+ q then none else u.files.node? q := by
  obtain ⟨ho, ha⟩ := conclude_complete hr hs hw hd ht
  rw [resume_none, outcome_bind_ok ho, after_bind_ok ho]
  exact ⟨rfl, ha⟩

theorem resume_of_fault {f : Fault} (ht : textAt u.files w.log = .error f) :
    outcome (resume o w none storage) u = .error (.fault f) ∧
      (after (resume o w none storage) u).files = u.files := by
  obtain ⟨ho, ha⟩ := conclude_fault ht
  rw [resume_none, outcome_bind_error ho, after_bind_error ho]
  exact ⟨rfl, ha⟩

theorem resume_of_failure (o : Options) (w : Scratch) (f : Download.Failure) (storage : Storage)
    (u : RunState) :
    (after (resume o w (some f) storage) u).files = u.files ∧
      ∀ r, outcome (resume o w (some f) storage) u = .ok (.ok r) →
        o.ignoreErrors = true ∧ ∃ text, textAt u.files w.log = .ok text ∧
          r = result w (some f) text := by
  cases hj : judge o.ignoreErrors w.log (some f) with
  | error g =>
    rw [resume, hj]
    exact ⟨rfl, fun r hr => by cases hr⟩
  | ok isPartial =>
    obtain ⟨rfl, hi⟩ := judge_eq_ok hj
    have hres : resume o w (some f) storage = Run.report .error (Failure.failed w.log).message >>= fun _ =>
        Run.report .warning "Ignoring error..." >>= fun _ =>
        conclude w true storage >>= fun d => pure (.ok d) := by
      simp [resume, hj]
    let v := after (Run.report .warning "Ignoring error...")
      (after (Run.report .error (Failure.failed w.log).message) u)
    rw [hres, outcome_bind_ok (outcome_report ..), after_bind_ok (outcome_report ..),
      outcome_bind_ok (outcome_report ..), after_bind_ok (outcome_report ..)]
    cases ht : textAt v.files w.log with
    | error g =>
      obtain ⟨ho, ha⟩ := conclude_fault ht
      rw [outcome_bind_error ho, after_bind_error ho]
      exact ⟨ha, fun r hr => by cases hr⟩
    | ok text =>
      obtain ⟨ho, ha⟩ := conclude_partial ht
      rw [outcome_bind_ok ho, after_bind_ok ho]
      refine ⟨ha, fun r hr => ⟨hi rfl, text, ht, ?_⟩⟩
      cases hr
      rfl

theorem conclude_names {isPartial : Bool} {d : Discovery}
    (h : outcome (conclude w isPartial storage) u = .ok d) :
    ∃ text, d.names = BuildLog.requirements text := by
  obtain ⟨_, _, h⟩ := bind_eq_ok h
  obtain ⟨text, _, h⟩ := bind_eq_ok h
  refine ⟨text, ?_⟩
  dsimp only at h
  split at h
  · rw [← Except.ok.inj h]
  · obtain ⟨_, _, h⟩ := bind_eq_ok h
    rw [← Except.ok.inj h]

theorem resume_names {failure : Option Download.Failure} {d : Discovery}
    (h : outcome (resume o w failure storage) u = .ok (.ok d)) :
    ∃ text, d.names = BuildLog.requirements text := by
  cases hj : judge o.ignoreErrors w.log failure with
  | error f =>
    rw [resume, hj] at h
    cases h
  | ok isPartial =>
    rw [resume, hj] at h
    cases isPartial with
    | false =>
      obtain ⟨e, he, h⟩ := bind_eq_ok h
      cases h
      exact conclude_names he
    | true =>
      obtain ⟨_, _, h⟩ := bind_eq_ok h
      obtain ⟨_, _, h⟩ := bind_eq_ok h
      obtain ⟨e, he, h⟩ := bind_eq_ok h
      cases h
      exact conclude_names he

theorem resume_eq_error {failure : Option Download.Failure} {g : Failure}
    (h : outcome (resume o w failure storage) u = .ok (.error g)) : g.log = w.log := by
  cases hj : judge o.ignoreErrors w.log failure with
  | error f =>
    rw [resume, hj] at h
    cases h
    exact judge_eq_error hj
  | ok isPartial =>
    rw [resume, hj] at h
    cases isPartial with
    | false =>
      obtain ⟨d, _, hd⟩ := bind_eq_ok h
      cases hd
    | true =>
      obtain ⟨_, _, h⟩ := bind_eq_ok h
      obtain ⟨_, _, h⟩ := bind_eq_ok h
      obtain ⟨d, _, hd⟩ := bind_eq_ok h
      cases hd

end Resume

section Frame

variable {γ : Type} {view : RunState → γ}

theorem keeps_conclude {isPartial : Bool} (hreport : ∀ l x, Keeps view (report l x))
    (hrelease : Keeps view (release w storage)) : Keeps view (conclude w isPartial storage) := by
  apply keeps_bind (hreport _ _)
  intro _
  apply keeps_bind (keeps_readText _ _)
  intro text
  dsimp only
  split
  · exact keeps_pure _
  · exact keeps_bind hrelease fun _ => keeps_pure _

theorem keeps_resume {failure : Option Download.Failure} (hreport : ∀ l x, Keeps view (report l x))
    (hrelease : Keeps view (release w storage)) : Keeps view (resume o w failure storage) := by
  unfold resume
  split
  · exact keeps_pure _
  · rename_i isPartial _
    have hrest : Keeps view (conclude w isPartial storage >>= fun d => pure (Except.ok d) :
        Run (Except Failure Discovery)) :=
      keeps_bind (keeps_conclude hreport hrelease) fun _ => keeps_pure _
    dsimp only
    split
    · exact keeps_bind (hreport _ _) fun _ => keeps_bind (hreport _ _) fun _ => hrest
    · exact hrest

theorem keeps_findIn (hreport : ∀ l x, Keeps view (report l x))
    (hrun : Keeps view (runner.run (call o inputs w))) (hrelease : Keeps view (release w storage)) :
    Keeps view (findIn o runner inputs w storage) := by
  apply keeps_bind (hreport _ _)
  intro _
  apply keeps_bind (hreport _ _)
  intro _
  apply keeps_bind (keeps_bind hrun fun _ => keeps_pure _)
  intro failure
  exact keeps_resume hreport hrelease

theorem keeps_printed_release : Keeps RunState.printed (release w storage) :=
  keeps_changeFiles fun _ _ => rfl

theorem keeps_calls_release : Keeps RunState.calls (release w storage) :=
  keeps_changeFiles fun _ _ => rfl

theorem node?_find (hq : ¬location o.scratchRoot stem (s.scratchCount + 1) <:+ q)
    (hk : ∀ c : Call, destination c.log =
      logName :: location o.scratchRoot stem (s.scratchCount + 1) → runner.KeepsAt c q) :
    (after (find o runner inputs storage) s).files.node? q =
      (s.files.makeFolders o.scratchRoot).1.node? q := by
  rw [find_eq, after_bind]
  cases hc : outcome (Scratch.create o.scratchRoot stem) s with
  | error e => rw [after_create_error hc]
  | ok w =>
    have hm := create_eq_ok isPlain_stem hc
    have hfolder := hm.destination_folder isPlain_stem
    have hlog := hm.destination_log isPlain_stem
    have hne : q ≠ destination w.log := by
      rw [hlog]
      rintro rfl
      exact hq (List.suffix_cons _ _)
    have hrelease : Keeps (fun s => s.files.node? q) (release w storage) :=
      keeps_node?_release (by rwa [hfolder])
    have hkeep := keeps_findIn (fun _ _ _ => rfl)
      (Runner.keeps_node?_run (hk (call o inputs w) hlog) hne) hrelease
      (after (Scratch.create o.scratchRoot stem) s)
    have hput := hm.node?_eq q
    rw [if_neg] at hput
    · exact hkeep.trans hput
    · rintro rfl
      exact hq (List.suffix_refl _)

theorem keptBut_find (hq : ¬location o.scratchRoot stem (s.scratchCount + 1) <:+ q)
    (hk : ∀ c : Call, destination c.log =
      logName :: location o.scratchRoot stem (s.scratchCount + 1) → runner.KeepsAt c q) :
    KeptBut (way o.scratchRoot) s.files (after (find o runner inputs storage) s).files q := by
  rw [KeptBut, node?_find hq hk]
  exact makeFolders_kept s.files o.scratchRoot q

theorem keeps_printed_find : Keeps RunState.printed (find o runner inputs storage) := by
  rw [find_eq]
  refine keeps_bind (fun s => ?_) fun _ =>
    keeps_findIn (fun _ _ _ => rfl) (Runner.keeps_printed_run _ _) keeps_printed_release
  cases hc : outcome (Scratch.create o.scratchRoot stem) s with
  | error e => rw [after_create_error hc]
  | ok w => rw [(create_eq_ok isPlain_stem hc).state_eq]

end Frame

end BuildRequirements.Discovery
