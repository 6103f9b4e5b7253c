import BuildRequirements.Proofs.Discovery.Lifecycle

namespace BuildRequirements.Discovery

open FileTree Run Scratch

def verdict (o : Options) (w : Scratch) (failure : Option Download.Failure) (t : FileTree) :
    Except Interruption (Except Failure Discovery) :=
  match judge o.ignoreErrors w.log failure with
  | .error f => .ok (.error f)
  | .ok _ =>
    match textAt t w.log with
    | .error f => .error (.fault f)
    | .ok text => .ok (.ok (result w failure text))

/-- An ending that makes a discovery fail: always one that was no start, and any but that with code 0
unless errors are ignored. -/
def IsFatal (ignoreErrors : Bool) : Download.Ending → Prop
  | .notStarted _ => True
  | .ended code _ => ignoreErrors = false ∧ code ≠ some 0

section Verdict

variable {o : Options} {inputs : List String} {w : Scratch} {u : RunState} {root stem : String}
  {n : Nat} {failure : Option Download.Failure} {ending : Download.Ending} {storage : Storage}

theorem outcome_conclude_of_text {text : String} (ht : textAt u.files w.log = .ok text) :
    outcome (conclude w false storage) u =
      (outcome (release w storage) u).map fun _ => ⟨BuildLog.requirements text, false, none⟩ := by
  have hread : outcome (readText w.log) (after (Run.report .info
      "Looking for build dependencies in the output of pip download") u) = .ok text := by
    rw [outcome_readText]
    exact congrArg (Except.mapError Interruption.fault) ht
  rw [conclude, outcome_bind_ok (outcome_report ..), outcome_bind_ok hread, after_readText]
  dsimp only
  rw [if_neg (by simp), outcome_bind, release, outcome_changeFiles, outcome_changeFiles, after_report]
  cases (storage.remove w.folder u.files).2 <;> rfl

theorem outcome_conclude (hr : root ≠ "") (hs : Path.IsPlain stem)
    (hw : w.folder = Path.join root stem ++ numeral n) (hl : w.log = Path.join w.folder logName)
    (isPartial : Bool) (u : RunState) :
    outcome (conclude w isPartial) u =
      match textAt u.files w.log with
      | .error f => .error (.fault f)
      | .ok text =>
        .ok ⟨BuildLog.requirements text, isPartial, if isPartial then some w.folder else none⟩ := by
  cases ht : textAt u.files w.log with
  | error f => exact (conclude_fault ht).1
  | ok text =>
    cases isPartial with
    | true => exact (conclude_partial ht).1
    | false =>
      rw [outcome_conclude_of_text ht]
      rcases outcome_release_of_text .sound hr hs hw hl ht with ho | ⟨f, hheld, _⟩
      · rw [ho]
        rfl
      · exact absurd hheld not_isHeld_sound

theorem outcome_resume (hr : root ≠ "") (hs : Path.IsPlain stem)
    (hw : w.folder = Path.join root stem ++ numeral n) (hl : w.log = Path.join w.folder logName) :
    outcome (resume o w failure) u = verdict o w failure u.files := by
  rw [resume, verdict]
  cases hj : judge o.ignoreErrors w.log failure with
  | error f => rfl
  | ok isPartial =>
    obtain ⟨rfl, _⟩ := judge_eq_ok hj
    have hrest (v : RunState) (hv : v.files = u.files) :
        outcome (conclude w failure.isSome >>= fun d => pure (.ok d) :
            Run (Except Failure Discovery)) v =
          match textAt u.files w.log with
          | .error f => .error (.fault f)
          | .ok text => .ok (.ok (result w failure text)) := by
      rw [outcome_bind, outcome_conclude hr hs hw hl, hv]
      cases textAt u.files w.log <;> rfl
    dsimp only
    split
    · rw [outcome_bind_ok (outcome_report ..), outcome_bind_ok (outcome_report ..)]
      exact hrest _ rfl
    · exact hrest _ rfl

/-- The log has told the requirements, and the storage keeps the folder. -/
def Unreleased {α : Type} (storage : Storage) (w : Scratch) (t : FileTree)
    (r : Except Interruption α) : Prop :=
  ∃ text f, textAt t w.log = .ok text ∧ IsHeld storage w t f ∧ r = .error (.fault f)

theorem outcome_conclude_or (storage : Storage) (hr : root ≠ "") (hs : Path.IsPlain stem)
    (hw : w.folder = Path.join root stem ++ numeral n) (hl : w.log = Path.join w.folder logName)
    (u : RunState) :
    outcome (conclude w false storage) u = outcome (conclude w false) u ∨
      Unreleased storage w u.files (outcome (conclude w false storage) u) := by
  cases ht : textAt u.files w.log with
  | error f => exact Or.inl ((conclude_fault ht).1.trans (conclude_fault ht).1.symm)
  | ok text =>
    rw [outcome_conclude hr hs hw hl, outcome_conclude_of_text ht, ht]
    rcases outcome_release_of_text storage hr hs hw hl ht with ho | ⟨f, hheld, ho⟩
    · rw [ho]
      exact Or.inl rfl
    · rw [ho]
      exact Or.inr ⟨text, f, ht, hheld, rfl⟩

theorem conclude_of_partial (w : Scratch) (storage : Storage) :
    conclude w true storage = conclude w true := by
  simp [conclude]

theorem outcome_resume_or (storage : Storage) (hr : root ≠ "") (hs : Path.IsPlain stem)
    (hw : w.folder = Path.join root stem ++ numeral n) (hl : w.log = Path.join w.folder logName) :
    outcome (resume o w failure storage) u = outcome (resume o w failure) u ∨
      failure = none ∧ Unreleased storage w u.files (outcome (resume o w failure storage) u) := by
  cases failure with
  | none =>
    rw [resume_none, resume_none, outcome_bind, outcome_bind]
    rcases outcome_conclude_or storage hr hs hw hl u with ho | ⟨text, f, ht, hheld, ho⟩
    · rw [ho]
      left
      cases outcome (conclude w false) u <;> rfl
    · rw [ho]
      exact Or.inr ⟨rfl, text, f, ht, hheld, rfl⟩
  | some g =>
    left
    rw [resume, resume]
    cases hj : judge o.ignoreErrors w.log (some g) with
    | error f => rfl
    | ok isPartial =>
      obtain ⟨rfl, _⟩ := judge_eq_ok hj
      dsimp only
      rw [Option.isSome_some, conclude_of_partial]

theorem judge_failure?_iff {ignoreErrors : Bool} {log : String} :
    (∃ f, judge ignoreErrors log (failure? o inputs w ending) = .error f) ↔
      IsFatal ignoreErrors ending := by
  cases ending with
  | notStarted reason => simp [failure?, Download.failure?, judge, IsFatal]
  | ended code signal =>
    cases code with
    | none => cases ignoreErrors <;> simp [failure?, Download.failure?, judge, IsFatal]
    | some code =>
      by_cases hc : code = 0
      · simp [failure?, Download.failure?, judge, IsFatal, hc]
      · cases ignoreErrors <;> simp [failure?, Download.failure?, judge, IsFatal, hc]

end Verdict

namespace Request

def answer (c : Request) (w : Scratch) (s : RunState) : Except Interruption Download.Ending :=
  c.runner.answer (call c.options c.inputs w)
    (c.runner.meets (call c.options c.inputs w) (after c.creation s).files)

variable {c : Request} {s : RunState} {w : Scratch} {e : Interruption} {ending : Download.Ending}
  {storage : Storage}

theorem command_ne_nil (c : Request) (w : Scratch) : (call c.options c.inputs w).command ≠ [] :=
  Download.command_ne_nil _

theorem called_once (hw : outcome c.creation s = .ok w) :
    c.download w s = c.answer w s ∧
      (after (c.runner.run (call c.options c.inputs w)) (started w (after c.creation s))).calls =
        (after c.creation s).calls ++ [call c.options c.inputs w] := by
  obtain ⟨u, hu⟩ := (create_eq_ok isPlain_stem hw).write_log isPlain_stem []
  exact Runner.run_of_writable (s := started w (after c.creation s)) (c.command_ne_nil w) hu

theorem calls_creation (hw : outcome c.creation s = .ok w) : (after c.creation s).calls = s.calls := by
  rw [creation, (create_eq_ok isPlain_stem hw).state_eq]

theorem calls_run (hw : outcome c.creation s = .ok w) :
    (after (c.run storage) s).calls = s.calls ++ [call c.options c.inputs w] := by
  have hcalls := (called_once hw).2
  rw [calls_creation hw] at hcalls
  rw [run_eq, after_bind_ok hw, ← hcalls]
  cases hd : c.download w s with
  | error e => rw [(findIn_of_error hd).2]
  | ok ending =>
    rw [(findIn_of_ok hd).2]
    exact keeps_resume (fun _ _ _ => rfl) keeps_calls_release _

theorem calls_run_of_error (hw : outcome c.creation s = .error e) :
    (after (c.run storage) s).calls = s.calls := by
  rw [run_eq, after_bind_error hw, creation, after_create_error hw]

theorem outcome_run_of_error (hw : outcome c.creation s = .error e) :
    outcome (c.run storage) s = .error e := by
  rw [run_eq, outcome_bind_error hw]

theorem outcome_run_of_throw (hw : outcome c.creation s = .ok w) (hd : c.answer w s = .error e) :
    outcome (c.run storage) s = .error e := by
  rw [← (called_once hw).1] at hd
  rw [run_eq, outcome_bind_ok hw, (findIn_of_error hd).1]

theorem outcome_run_of_answer (hw : outcome c.creation s = .ok w) (hd : c.answer w s = .ok ending) :
    outcome c.run s =
      verdict c.options w (failure? c.options c.inputs w ending) (c.left w s).files := by
  have hm := create_eq_ok isPlain_stem hw
  rw [← (called_once hw).1] at hd
  rw [run_eq, outcome_bind_ok hw, (findIn_of_ok hd).1,
    outcome_resume hm.root_ne isPlain_stem hm.folder_eq hm.log_eq]
  rfl

theorem outcome_run_or (storage : Storage) (hw : outcome c.creation s = .ok w)
    (hd : c.answer w s = .ok ending) :
    outcome (c.run storage) s = outcome c.run s ∨ (∃ signal, ending = .ended (some 0) signal) ∧
      Unreleased storage w (c.left w s).files (outcome (c.run storage) s) := by
  have hm := create_eq_ok isPlain_stem hw
  rw [← (called_once hw).1] at hd
  rw [run_eq, run_eq, outcome_bind_ok hw, outcome_bind_ok hw, (findIn_of_ok hd).1,
    (findIn_of_ok hd).1, ← failure?_eq_none (o := c.options)]
  exact outcome_resume_or storage hm.root_ne isPlain_stem hm.folder_eq hm.log_eq

theorem outcome_run_of_fatal (hw : outcome c.creation s = .ok w) (hd : c.answer w s = .ok ending)
    (hfatal : IsFatal c.options.ignoreErrors ending) :
    ∃ f, outcome (c.run storage) s = .ok (.error f) := by
  rcases outcome_run_or storage hw hd with h | ⟨⟨signal, hzero⟩, _⟩
  · obtain ⟨f, hf⟩ := judge_failure?_iff.mpr hfatal
    refine ⟨f, ?_⟩
    rw [h, outcome_run_of_answer hw hd, verdict, hf]
  · rw [hzero] at hfatal
    exact absurd rfl hfatal.2

theorem outcome_run_of_tolerated (hw : outcome c.creation s = .ok w)
    (hd : c.answer w s = .ok ending) (hfatal : ¬IsFatal c.options.ignoreErrors ending) :
    outcome c.run s =
      match textAt (c.left w s).files w.log with
      | .error f => .error (.fault f)
      | .ok text => .ok (.ok (result w (failure? c.options c.inputs w ending) text)) := by
  rw [outcome_run_of_answer hw hd, verdict]
  cases hj : judge c.options.ignoreErrors w.log (failure? c.options c.inputs w ending) with
  | error f => exact absurd (judge_failure?_iff.mp ⟨f, hj⟩) hfatal
  | ok isPartial => rfl

theorem run_eq_result {d : Discovery} (h : outcome c.run s = .ok (.ok d)) :
    ∃ w ending text, outcome c.creation s = .ok w ∧ c.answer w s = .ok ending ∧
      textAt (c.left w s).files w.log = .ok text ∧
      d = result w (failure? c.options c.inputs w ending) text := by
  cases hw : outcome c.creation s with
  | error e =>
    rw [outcome_run_of_error hw] at h
    cases h
  | ok w =>
    cases hd : c.answer w s with
    | error e =>
      rw [outcome_run_of_throw hw hd] at h
      cases h
    | ok ending =>
      by_cases hfatal : IsFatal c.options.ignoreErrors ending
      · obtain ⟨f, hf⟩ := outcome_run_of_fatal hw hd hfatal
        rw [hf] at h
        cases h
      · rw [outcome_run_of_tolerated hw hd hfatal] at h
        cases ht : textAt (c.left w s).files w.log with
        | error f =>
          rw [ht] at h
          cases h
        | ok text =>
          rw [ht] at h
          exact ⟨w, ending, text, rfl, hd, ht, (Except.ok.inj (Except.ok.inj h)).symm⟩

end Request

end BuildRequirements.Discovery
