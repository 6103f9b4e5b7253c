import BuildRequirements.Proofs.Discovery.Outcomes
import BuildRequirements.Proofs.Program.Exits

namespace BuildRequirements.Program

open FileTree Run

def returned (i : Invocation) (s : RunState) (storage : Storage := .sound) :
    Except Interruption Nat :=
  (outcome (run i storage) s).map ExitCode.number

structure Idle (s t : RunState) : Prop where
  files : t.files = s.files
  scratchCount : t.scratchCount = s.scratchCount
  calls : t.calls = s.calls

/-- What a run returns whose downloader has ended well enough: 0, or the first fault of a file that it
reads, writes or removes after the download. -/
inductive Remains (i : Invocation) (a : Arguments) (s : RunState) (storage : Storage) (w : Scratch)
    (ending : Download.Ending) : Except Interruption Nat → Prop where
  | unscanned {f} (hscan : textAt ((request i a).left w (ready i s)).files w.log = .error f) :
      Remains i a s storage w ending (.error (.fault f))
  | unreleased {signal text f} (hending : ending = .ended (some 0) signal)
      (hscan : textAt ((request i a).left w (ready i s)).files w.log = .ok text)
      (hheld : Scratch.IsHeld storage w ((request i a).left w (ready i s)).files f) :
      Remains i a s storage w ending (.error (.fault f))
  | unreadable {d path f} (hfound : found i a s storage = .ok (.ok d))
      (houtput : a.output = some path) (hgate : a.onlyChanges = true)
      (hread : textAt (searched i a s storage).files path = .error f) :
      Remains i a s storage w ending (.error (.fault f))
  | unwritten {d known path f} (hfound : found i a s storage = .ok (.ok d))
      (hknown : outcome (recorded a) (searched i a s storage) = .ok known)
      (hverdict : (update a d known).verdict = .write) (houtput : a.output = some path)
      (hwrite : (storage.write a.append path (Text.Utf8.encode (content i a d known))
        (searched i a s storage).files).2 = .error f) :
      Remains i a s storage w ending (.error (.fault f))
  | success {d known} (hfound : found i a s storage = .ok (.ok d))
      (hknown : outcome (recorded a) (searched i a s storage) = .ok known)
      (hwrite : (update a d known).verdict = .write → ∀ path, a.output = some path →
        (storage.write a.append path (Text.Utf8.encode (content i a d known))
          (searched i a s storage).files).2 = .ok ()) : Remains i a s storage w ending (.ok 0)

structure Classified (i : Invocation) (a : Arguments) (s : RunState) (storage : Storage) : Prop where
  uncreated : ∀ e, outcome (request i a).creation (ready i s) = .error e →
    returned i s storage = .error e ∧ (after (run i storage) s).calls = s.calls ∧
      ∃ f, e = .fault f ∧ ((s.files.makeFolders (settings i).scratchRoot).2 = .error f ∨
        f.attempt = .makeScratch (Path.join (settings i).scratchRoot Discovery.stem))
  called : ∀ w, outcome (request i a).creation (ready i s) = .ok w →
    (after (run i storage) s).calls =
      s.calls ++ [⟨Download.command ⟨(settings i).downloader, w.folder, a.inputs, a.noCache⟩, w.log⟩]
  thrown : ∀ w e, outcome (request i a).creation (ready i s) = .ok w →
    (request i a).answer w (ready i s) = .error e → returned i s storage = .error e
  failed : ∀ w ending, outcome (request i a).creation (ready i s) = .ok w →
    (request i a).answer w (ready i s) = .ok ending →
    (returned i s storage = .ok 1 ↔ Discovery.IsFatal a.ignoreErrors ending)
  remains : ∀ w ending, outcome (request i a).creation (ready i s) = .ok w →
    (request i a).answer w (ready i s) = .ok ending → ¬Discovery.IsFatal a.ignoreErrors ending →
    Remains i a s storage w ending (returned i s storage)

variable {i : Invocation} {a : Arguments} {s : RunState} {w : Scratch} {d : Discovery}
  {ending : Download.Ending} {storage : Storage}

section Calls

theorem keeps_calls_conclude : Keeps RunState.calls (conclude a i.clock d storage) := by
  have hdeliver (text : String) : Keeps RunState.calls (deliver text a.output a.append storage) :=
    keeps_deliver (fun _ _ => rfl) (fun _ _ => rfl) _ _ _
  apply keeps_bind (keeps_of_after (after_recorded a))
  intro known
  dsimp only
  split
  · apply keeps_bind fun _ => rfl
    intro _
    split
    · apply keeps_bind fun _ => rfl
      intro _
      exact keeps_bind (hdeliver _) fun _ => keeps_pure _
    · exact keeps_bind (hdeliver _) fun _ => keeps_pure _
  · exact fun _ => rfl

theorem calls_run_eq (ha : Proceeds i a) :
    (after (run i storage) s).calls = (searched i a s storage).calls := by
  have hreact (r : Except Discovery.Failure Discovery) :
      Keeps RunState.calls (react i a storage r) := by
    cases r with
    | error f => exact fun _ => rfl
    | ok d => exact keeps_calls_conclude
  rw [(run_of_proceeds ha).2, after_bind]
  cases outcome ((request i a).run storage) (ready i s) with
  | error e => rfl
  | ok r => exact hreact r _

end Calls

section Returned

theorem returned_of_error {e : Interruption} (ha : Proceeds i a)
    (hfound : found i a s storage = .error e) : returned i s storage = .error e := by
  rw [returned, (run_of_proceeds ha).1, outcome_bind_error hfound]
  rfl

theorem returned_of_failure {f : Discovery.Failure} (ha : Proceeds i a)
    (hfound : found i a s storage = .ok (.error f)) : returned i s storage = .ok 1 := by
  rw [returned, (run_of_proceeds ha).1, outcome_bind_ok hfound]
  rfl

theorem remains_of_found (ha : Proceeds i a) (hfound : found i a s storage = .ok (.ok d)) :
    Remains i a s storage w ending (returned i s storage) := by
  have hends := ends i s storage
  rw [returned]
  generalize outcome (run i storage) s = r at hends
  cases hends with
  | misused hparse =>
    rw [ha.parse_eq] at hparse
    cases hparse
  | helped hparse hhelp => exact absurd hhelp (ha.help_ne hparse)
  | interrupted hb hnot =>
    obtain rfl := ha.unique hb
    rw [hfound] at hnot
    cases hnot
  | failed hb hnot =>
    obtain rfl := ha.unique hb
    rw [hfound] at hnot
    cases hnot
  | unreadable hb hfoundb hknown =>
    obtain rfl := ha.unique hb
    obtain ⟨path, f, houtput, hgate, rfl, hread⟩ := recorded_eq_error hknown
    exact .unreadable hfoundb houtput hgate hread
  | unwritten hb hfoundb hknown hverdict houtput hwrite =>
    obtain rfl := ha.unique hb
    exact .unwritten hfoundb hknown hverdict houtput (congrArg Prod.snd hwrite)
  | skipped hb hfoundb hknown hverdict =>
    obtain rfl := ha.unique hb
    exact .success hfoundb hknown fun h => absurd h hverdict
  | printed hb hfoundb hknown hverdict houtput =>
    obtain rfl := ha.unique hb
    refine .success hfoundb hknown fun _ path ho => ?_
    rw [houtput] at ho
    cases ho
  | written hb hfoundb hknown hverdict houtput hwrite =>
    obtain rfl := ha.unique hb
    refine .success hfoundb hknown fun _ path ho => ?_
    obtain rfl := Option.some.inj (houtput.symm.trans ho)
    exact congrArg Prod.snd hwrite

theorem remains_of_answer (storage : Storage) (ha : Proceeds i a)
    (hw : outcome (request i a).creation (ready i s) = .ok w)
    (hending : (request i a).answer w (ready i s) = .ok ending)
    (hfatal : ¬Discovery.IsFatal a.ignoreErrors ending) :
    Remains i a s storage w ending (returned i s storage) := by
  rcases Discovery.Request.outcome_run_or storage hw hending with
    hsame | ⟨⟨signal, hzero⟩, text, f, hscan, hheld, hfound⟩
  · have hfound : found i a s storage = _ :=
      hsame.trans (Discovery.Request.outcome_run_of_tolerated hw hending hfatal)
    cases hscan : textAt ((request i a).left w (ready i s)).files w.log with
    | error f =>
      rw [hscan] at hfound
      rw [returned_of_error ha hfound]
      exact .unscanned hscan
    | ok text =>
      rw [hscan] at hfound
      exact remains_of_found ha hfound
  · rw [returned_of_error ha hfound]
    exact .unreleased hzero hscan hheld

theorem classified (ha : Proceeds i a) : Classified i a s storage := by
  constructor
  · intro e he
    have hcalls : (searched i a s storage).calls = s.calls := Discovery.Request.calls_run_of_error he
    have hfound : found i a s storage = .error e := Discovery.Request.outcome_run_of_error he
    refine ⟨returned_of_error ha hfound, (calls_run_eq ha).trans hcalls, ?_⟩
    rw [Discovery.Request.creation, scratchRoot_request] at he
    have hfiles : (ready i s).files = s.files := rfl
    have hfault := Scratch.create_eq_error he
    rw [hfiles] at hfault
    exact hfault
  · intro w hw
    have hcalls : (searched i a s storage).calls =
        (ready i s).calls ++ [Discovery.call (request i a).options (request i a).inputs w] :=
      Discovery.Request.calls_run hw
    rw [calls_run_eq ha, hcalls, ready, Discovery.call, request]
  · intro w e hw he
    exact returned_of_error ha (Discovery.Request.outcome_run_of_throw hw he)
  · intro w ending hw hending
    constructor
    · intro hone
      by_contra hfatal
      have hremains := remains_of_answer storage ha hw hending hfatal
      rw [hone] at hremains
      cases hremains
    · intro hfatal
      obtain ⟨f, hf⟩ := Discovery.Request.outcome_run_of_fatal hw hending hfatal
      exact returned_of_failure ha hf
  · intro w ending hw hending hfatal
    exact remains_of_answer storage ha hw hending hfatal

theorem Classified.ne_two (h : Classified i a s storage) : returned i s storage ≠ .ok 2 := by
  intro htwo
  cases hw : outcome (request i a).creation (ready i s) with
  | error e =>
    rw [(h.uncreated e hw).1] at htwo
    cases htwo
  | ok w =>
    cases hending : (request i a).answer w (ready i s) with
    | error e =>
      rw [h.thrown w e hw hending] at htwo
      cases htwo
    | ok ending =>
      by_cases hfatal : Discovery.IsFatal a.ignoreErrors ending
      · rw [(h.failed w ending hw hending).mpr hfatal] at htwo
        cases htwo
      · have hremains := h.remains w ending hw hending hfatal
        rw [htwo] at hremains
        cases hremains

end Returned

section Idle

theorem returned_of_misuse {m : Arguments.Misuse} (hparse : Arguments.parse i.arguments = .error m) :
    returned i s storage = .ok 2 ∧ Idle s (after (run i storage) s) := by
  obtain ⟨hout, hafter⟩ := run_of_misuse (s := s) hparse
  rw [returned, hout, hafter]
  exact ⟨rfl, rfl, rfl, rfl⟩

theorem returned_of_help (hparse : Arguments.parse i.arguments = .ok a) (hhelp : a.help = true) :
    returned i s storage = .ok 0 ∧ Idle s (after (run i storage) s) := by
  obtain ⟨hout, hafter⟩ := run_of_help (s := s) hparse hhelp
  rw [returned, hout, hafter]
  exact ⟨rfl, rfl, rfl, rfl⟩

end Idle

theorem returned_eq_two_iff :
    returned i s storage = .ok 2 ↔ ∃ m, Arguments.parse i.arguments = .error m := by
  constructor
  · intro htwo
    cases hparse : Arguments.parse i.arguments with
    | error m => exact ⟨m, rfl⟩
    | ok a =>
      by_cases hhelp : a.help = true
      · rw [(returned_of_help hparse hhelp).1] at htwo
        cases htwo
      · exact absurd htwo (classified ⟨hparse, Bool.eq_false_iff.mpr hhelp⟩).ne_two
  · rintro ⟨m, hparse⟩
    exact (returned_of_misuse hparse).1

theorem execute_of_returned (i : Invocation) (hasColor : Bool) (s : RunState) (storage : Storage) :
    match returned i s storage with
    | .ok n => (execute i hasColor s storage).1.exitCode = n ∧
      (execute i hasColor s storage).1.errors =
        (display i hasColor).text (after (run i storage) s).diagnostics
    | .error e => (execute i hasColor s storage).1.exitCode = 1 ∧
      (execute i hasColor s storage).1.errors =
        (display i hasColor).text (after (run i storage) s).diagnostics ++
          "ERROR: " ++ e.message ++ "\n" := by
  rw [execute, returned, outcome, after]
  cases (run i storage).run s with
  | ok code t => exact ⟨rfl, rfl⟩
  | error e t => exact ⟨rfl, rfl⟩

theorem run_classified (i : Invocation) (s : RunState) (storage : Storage) :
    (returned i s storage = .ok 2 ↔ ∃ m, Arguments.parse i.arguments = .error m) ∧
      (∀ m, Arguments.parse i.arguments = .error m → Idle s (after (run i storage) s)) ∧
      (∀ a, Arguments.parse i.arguments = .ok a → a.help = true →
        returned i s storage = .ok 0 ∧ Idle s (after (run i storage) s)) ∧
      (∀ a, Proceeds i a → Classified i a s storage) ∧
      ∀ hasColor, match returned i s storage with
        | .ok n => (execute i hasColor s storage).1.exitCode = n ∧
          (execute i hasColor s storage).1.errors =
            (display i hasColor).text (after (run i storage) s).diagnostics
        | .error e => (execute i hasColor s storage).1.exitCode = 1 ∧
          (execute i hasColor s storage).1.errors =
            (display i hasColor).text (after (run i storage) s).diagnostics ++
              "ERROR: " ++ e.message ++ "\n" := by
  refine ⟨returned_eq_two_iff, ?_, ?_, ?_, ?_⟩
  · intro m hparse
    exact (returned_of_misuse hparse).2
  · intro a hparse hhelp
    exact returned_of_help hparse hhelp
  · intro a ha
    exact classified ha
  · intro hasColor
    exact execute_of_returned i hasColor s storage

def keeping : Storage := ⟨fun _ _ _ => none, fun _ path => some ⟨[], .denied, .removeFolder path⟩⟩

def colliding : Runner := .direct fun _ t =>
  match t.write false "tmp/find-builddeps-000001/x" [] with
  | .error f => (t, .error (.fault f))
  | .ok u =>
    match u.makeFolders "tmp/find-builddeps-000001/x" with
    | (v, .error f) => (v, .error (.fault f))
    | (v, .ok _) => (v, .ok (.ended (some 0) none))

/-- A run may pass on the fault of a removal, and a runner that of its own access to files. -/
theorem passes_on_further_faults :
    (¬∀ (storage : Storage) (i : Invocation) (a : Arguments) (s : RunState) (w : Scratch)
        (ending : Download.Ending) (text : String), Proceeds i a → a.output = none →
      outcome (request i a).creation (ready i s) = .ok w →
      (request i a).answer w (ready i s) = .ok ending → ¬Discovery.IsFatal a.ignoreErrors ending →
      textAt ((request i a).left w (ready i s)).files w.log = .ok text →
      returned i s storage = .ok 0) ∧
    ¬∀ (i : Invocation) (a : Arguments) (s : RunState) (w : Scratch) (e : Interruption), Proceeds i a →
      outcome (request i a).creation (ready i s) = .ok w →
      (request i a).answer w (ready i s) = .error e → ∃ message, e = .thrown message := by
  let w : Scratch :=
    ⟨"tmp/find-builddeps-000001", "tmp/find-builddeps-000001/pip-download-output.txt"⟩
  have hparse : Arguments.parse ["in.txt"] = .ok { inputs := ["in.txt"] } := by decide +kernel
  constructor
  · intro h
    have hreturned := h keeping (collecting "wheel" ["in.txt"]) { inputs := ["in.txt"] }
      { files := .empty } w (.ended (some 0) none) "  Collecting wheel" ⟨hparse, rfl⟩ rfl
      (by decide +kernel) (by decide +kernel) (fun hfatal => hfatal.2 rfl) (by decide +kernel)
    revert hreturned
    decide +kernel
  · intro h
    have hthrown := h { collecting "wheel" ["in.txt"] with runner := colliding }
      { inputs := ["in.txt"] } { files := .empty } w
      (.fault ⟨.alreadyThere, .makeFolder "tmp/find-builddeps-000001/x"⟩) ⟨hparse, rfl⟩
      (by decide +kernel) (by decide +kernel)
    obtain ⟨message, hmessage⟩ := hthrown
    cases hmessage

end BuildRequirements.Program
