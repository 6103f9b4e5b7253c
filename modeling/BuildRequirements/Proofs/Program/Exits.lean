import BuildRequirements.Program
import BuildRequirements.Proofs.Discovery.Lifecycle

namespace BuildRequirements.Program

open FileTree Run

def request (i : Invocation) (a : Arguments) : Discovery.Request :=
  ⟨⟨(settings i).scratchRoot, (settings i).downloader, a.noCache, a.ignoreErrors⟩, i.runner,
    a.inputs⟩

def ready (i : Invocation) (s : RunState) : RunState :=
  { s with
    diagnostics := s.diagnostics ++ (settings i).warnings.map (⟨.warning, ·⟩) ++
      [⟨.info, "Please make sure the input files meet the requirements of this script (see --help)"⟩] }

def found (i : Invocation) (a : Arguments) (s : RunState) (storage : Storage := .sound) :
    Except Interruption (Except Discovery.Failure Discovery) :=
  outcome ((request i a).run storage) (ready i s)

def searched (i : Invocation) (a : Arguments) (s : RunState) (storage : Storage := .sound) :
    RunState :=
  after ((request i a).run storage) (ready i s)

def update (a : Arguments) (d : Discovery) (known : NameSet) : Update :=
  Update.decide ⟨a.append, a.onlyChanges⟩ d.names.toList known

def listing (i : Invocation) (a : Arguments) (d : Discovery) (known : NameSet) : Listing :=
  ⟨generator, i.clock, (update a d known).names, d.isPartial⟩

def content (i : Invocation) (a : Arguments) (d : Discovery) (known : NameSet) : String :=
  (listing i a d known).text ++ "\n"

def noNews : Diagnostic := ⟨.info, "No new build dependencies found."⟩

structure Proceeds (i : Invocation) (a : Arguments) : Prop where
  parse_eq : Arguments.parse i.arguments = .ok a
  help_eq : a.help = false

inductive Ends (i : Invocation) (s : RunState) (storage : Storage) :
    Except Interruption ExitCode → RunState → Prop where
  | misused {t m} (hparse : Arguments.parse i.arguments = .error m) (hfiles : t.files = s.files)
      (hprinted : t.printed = s.printed) : Ends i s storage (.ok .misused) t
  | helped {t a} (hparse : Arguments.parse i.arguments = .ok a) (hhelp : a.help = true)
      (hfiles : t.files = s.files) (hprinted : t.printed = s.printed ++ [usage ++ "\n"]) :
      Ends i s storage (.ok .success) t
  | interrupted {t a e} (ha : Proceeds i a) (hfound : found i a s storage = .error e)
      (hfiles : t.files = (searched i a s storage).files) (hprinted : t.printed = s.printed) :
      Ends i s storage (.error e) t
  | failed {t a f} (ha : Proceeds i a) (hfound : found i a s storage = .ok (.error f))
      (hfiles : t.files = (searched i a s storage).files) (hprinted : t.printed = s.printed) :
      Ends i s storage (.ok .discoveryFailed) t
  | unreadable {t a d e} (ha : Proceeds i a) (hfound : found i a s storage = .ok (.ok d))
      (hknown : outcome (recorded a) (searched i a s storage) = .error e)
      (hfiles : t.files = (searched i a s storage).files) (hprinted : t.printed = s.printed) :
      Ends i s storage (.error e) t
  | skipped {t a d known} (ha : Proceeds i a) (hfound : found i a s storage = .ok (.ok d))
      (hknown : outcome (recorded a) (searched i a s storage) = .ok known)
      (hverdict : (update a d known).verdict ≠ .write)
      (hfiles : t.files = (searched i a s storage).files) (hprinted : t.printed = s.printed)
      (hlast : t.diagnostics.getLast? = some noNews) : Ends i s storage (.ok .success) t
  | printed {t a d known} (ha : Proceeds i a) (hfound : found i a s storage = .ok (.ok d))
      (hknown : outcome (recorded a) (searched i a s storage) = .ok known)
      (hverdict : (update a d known).verdict = .write) (houtput : a.output = none)
      (hfiles : t.files = (searched i a s storage).files)
      (hprinted : t.printed = s.printed ++ [content i a d known]) : Ends i s storage (.ok .success) t
  | unwritten {t a d known path f u} (ha : Proceeds i a) (hfound : found i a s storage = .ok (.ok d))
      (hknown : outcome (recorded a) (searched i a s storage) = .ok known)
      (hverdict : (update a d known).verdict = .write) (houtput : a.output = some path)
      (hwrite : storage.write a.append path (Text.Utf8.encode (content i a d known))
        (searched i a s storage).files = (u, .error f)) (hfiles : t.files = u)
      (hprinted : t.printed = s.printed) :
      Ends i s storage (.error (.fault f)) t
  | written {t a d known path u} (ha : Proceeds i a) (hfound : found i a s storage = .ok (.ok d))
      (hknown : outcome (recorded a) (searched i a s storage) = .ok known)
      (hverdict : (update a d known).verdict = .write) (houtput : a.output = some path)
      (hwrite : storage.write a.append path (Text.Utf8.encode (content i a d known))
        (searched i a s storage).files = (u, .ok ()))
      (hfiles : t.files = u) (hprinted : t.printed = s.printed)
      (hlast : t.diagnostics.getLast? ≠ some noNews) : Ends i s storage (.ok .success) t

variable {i : Invocation} {a : Arguments} {s : RunState} {d : Discovery} {known : NameSet}
  {storage : Storage}

theorem scratchRoot_request (i : Invocation) (a : Arguments) :
    (request i a).options.scratchRoot = (settings i).scratchRoot := by rw [request]

theorem Proceeds.unique {b : Arguments} (ha : Proceeds i a) (hb : Proceeds i b) : a = b :=
  Except.ok.inj (ha.parse_eq.symm.trans hb.parse_eq)

theorem Proceeds.help_ne {b : Arguments} (ha : Proceeds i a)
    (hparse : Arguments.parse i.arguments = .ok b) : b.help ≠ true := by
  rw [← Except.ok.inj (ha.parse_eq.symm.trans hparse), ha.help_eq]
  exact Bool.false_ne_true

theorem after_recorded (a : Arguments) (s : RunState) : after (recorded a) s = s := by
  rw [recorded]
  split
  · rw [after_bind, after_readText]
    cases outcome (readText _) s <;> rfl
  · rfl

theorem outcome_recorded (h : a.onlyChanges = false) (s : RunState) :
    outcome (recorded a) s = .ok .empty := by
  rw [recorded, h]
  cases a.output <;> rfl

theorem outcome_recorded_of_gated {path : String} (ho : a.output = some path)
    (hc : a.onlyChanges = true) (u : RunState) :
    outcome (recorded a) u = ((textAt u.files path).mapError .fault).map Listing.recorded := by
  rw [recorded, ho, hc]
  dsimp only
  rw [outcome_bind, outcome_readText]
  cases textAt u.files path <;> rfl

theorem recorded_eq_error {e : Interruption} (h : outcome (recorded a) s = .error e) :
    ∃ path f, a.output = some path ∧ a.onlyChanges = true ∧ e = .fault f ∧
      textAt s.files path = .error f := by
  cases hc : a.onlyChanges with
  | false =>
    rw [outcome_recorded hc] at h
    cases h
  | true =>
    cases ho : a.output with
    | none =>
      rw [recorded, ho] at h
      cases h
    | some path =>
      rw [outcome_recorded_of_gated ho hc] at h
      cases hread : textAt s.files path with
      | ok text =>
        rw [hread] at h
        cases h
      | error f =>
        rw [hread] at h
        exact ⟨path, f, rfl, rfl, (Except.error.inj h).symm, hread⟩

theorem printed_searched (i : Invocation) (a : Arguments) (s : RunState) (storage : Storage) :
    (searched i a s storage).printed = s.printed :=
  Discovery.keeps_printed_find (ready i s)

theorem keeps_deliver {γ : Type} {view : RunState → γ}
    (hfiles : ∀ s t, view { s with files := t } = view s)
    (hprinted : ∀ s texts, view { s with printed := texts } = view s)
    (text : String) (output : Option String) (append : Bool) :
    Keeps view (deliver text output append storage) := by
  unfold deliver
  split
  · exact fun s => hprinted s _
  · exact keeps_changeFiles hfiles

def announced (d : Discovery) (u : RunState) : RunState :=
  { u with
    diagnostics := u.diagnostics ++ [⟨.info, "Make sure to pip-compile the output before using it"⟩] ++
      if d.isPartial then [⟨.warning, "Pip download failed, output may be incomplete!"⟩] else [] }

@[simp] theorem files_announced (d : Discovery) (u : RunState) : (announced d u).files = u.files := rfl

@[simp] theorem printed_announced (d : Discovery) (u : RunState) :
    (announced d u).printed = u.printed := rfl

theorem getLast?_announced (d : Discovery) (u : RunState) :
    (announced d u).diagnostics.getLast? ≠ some noNews := by
  have hne (n : Diagnostic) (h : (u.diagnostics ++ [n]).getLast? = some noNews) : n = noNews := by
    rw [List.getLast?_concat] at h
    exact Option.some.inj h
  intro h
  rw [announced] at h
  cases hp : d.isPartial with
  | true =>
    rw [hp, if_pos rfl, List.getLast?_concat] at h
    exact absurd (Option.some.inj h) (by decide)
  | false =>
    rw [hp, if_neg (by simp), List.append_nil] at h
    exact absurd (hne _ h) (by decide)

theorem conclude_of_write (hknown : outcome (recorded a) s = .ok known)
    (hverdict : (update a d known).verdict = .write) :
    outcome (conclude a i.clock d storage) s =
        (outcome (deliver (listing i a d known).text a.output a.append storage) (announced d s)).map
          (fun _ => .success) ∧
      after (conclude a i.clock d storage) s =
        after (deliver (listing i a d known).text a.output a.append storage) (announced d s) := by
  have hfinish (u : RunState) :
      outcome (deliver (listing i a d known).text a.output a.append storage >>= fun _ =>
          pure ExitCode.success) u =
        (outcome (deliver (listing i a d known).text a.output a.append storage) u).map (fun _ => .success) ∧
      after (deliver (listing i a d known).text a.output a.append storage >>= fun _ =>
          pure ExitCode.success) u =
        after (deliver (listing i a d known).text a.output a.append storage) u := by
    rw [outcome_bind, after_bind]
    cases outcome (deliver (listing i a d known).text a.output a.append storage) u <;> exact ⟨rfl, rfl⟩
  rw [conclude, outcome_bind_ok hknown, after_bind_ok hknown, after_recorded]
  change (Update.decide _ _ _).verdict = _ at hverdict
  dsimp only
  rw [if_pos hverdict, outcome_bind_ok (outcome_report ..), after_bind_ok (outcome_report ..),
    after_report, announced]
  by_cases hp : d.isPartial = true
  · rw [if_pos hp, if_pos hp, outcome_bind_ok (outcome_report ..),
      after_bind_ok (outcome_report ..), after_report]
    exact hfinish _
  · rw [if_neg hp, if_neg hp, List.append_nil]
    exact hfinish _

theorem conclude_of_skip (hknown : outcome (recorded a) s = .ok known)
    (hverdict : (update a d known).verdict ≠ .write) :
    outcome (conclude a i.clock d storage) s = .ok .success ∧
      after (conclude a i.clock d storage) s = { s with diagnostics := s.diagnostics ++ [noNews] } := by
  rw [conclude, outcome_bind_ok hknown, after_bind_ok hknown, after_recorded]
  change (Update.decide _ _ _).verdict ≠ _ at hverdict
  dsimp only
  rw [if_neg hverdict]
  exact ⟨rfl, rfl⟩

theorem conclude_of_error {e : Interruption} (hknown : outcome (recorded a) s = .error e) :
    outcome (conclude a i.clock d storage) s = .error e ∧
      after (conclude a i.clock d storage) s = s := by
  rw [conclude, outcome_bind_error hknown, after_bind_error hknown, after_recorded]
  exact ⟨rfl, rfl⟩

theorem run_of_misuse {m : Arguments.Misuse} (hparse : Arguments.parse i.arguments = .error m) :
    outcome (run i storage) s = .ok .misused ∧
      after (run i storage) s = { s with diagnostics := (after (run i storage) s).diagnostics } := by
  rw [run, outcome_bind_ok (outcome_reportAll ..), after_bind_ok (outcome_reportAll ..), hparse]
  exact ⟨rfl, rfl⟩

theorem run_of_help (hparse : Arguments.parse i.arguments = .ok a) (hhelp : a.help = true) :
    outcome (run i storage) s = .ok .success ∧
      after (run i storage) s = { s with diagnostics := (after (run i storage) s).diagnostics,
                                         printed := s.printed ++ [usage ++ "\n"] } := by
  rw [run, outcome_bind_ok (outcome_reportAll ..), after_bind_ok (outcome_reportAll ..), hparse]
  dsimp only
  rw [if_pos hhelp]
  exact ⟨rfl, rfl⟩

def react (i : Invocation) (a : Arguments) (storage : Storage) :
    Except Discovery.Failure Discovery → Run ExitCode
  | .error f => do
    Run.report .error f.message
    return .discoveryFailed
  | .ok d => conclude a i.clock d storage

theorem run_of_proceeds (ha : Proceeds i a) :
    outcome (run i storage) s = outcome ((request i a).run storage >>= react i a storage) (ready i s) ∧
      after (run i storage) s =
        after ((request i a).run storage >>= react i a storage) (ready i s) := by
  have hreact : discoverWith i (settings i) a storage =
      Run.report .info "Please make sure the input files meet the requirements of this script (see --help)"
        >>= fun _ => (request i a).run storage >>= react i a storage := rfl
  rw [run, outcome_bind_ok (outcome_reportAll ..), after_bind_ok (outcome_reportAll ..), ha.parse_eq]
  dsimp only
  rw [ha.help_eq, if_neg (by simp), hreact, outcome_bind_ok (outcome_report ..),
    after_bind_ok (outcome_report ..)]
  exact ⟨rfl, rfl⟩

theorem run_of_skip {u : RunState} (ha : Proceeds i a) (hfound : found i a s storage = .ok (.ok d))
    (hu : searched i a s storage = u) (hknown : outcome (recorded a) u = .ok known)
    (hverdict : (update a d known).verdict ≠ .write) :
    outcome (run i storage) s = .ok .success ∧
      after (run i storage) s = { u with diagnostics := u.diagnostics ++ [noNews] } := by
  obtain ⟨hout, hafter⟩ := run_of_proceeds (s := s) ha
  obtain ⟨hcout, hcafter⟩ := conclude_of_skip (i := i) hknown hverdict
  rw [searched] at hu
  rw [hout, hafter, outcome_bind_ok hfound, after_bind_ok hfound, hu, react, hcout, hcafter]
  exact ⟨rfl, rfl⟩

theorem after_run_of_write {u : RunState} (ha : Proceeds i a)
    (hfound : found i a s storage = .ok (.ok d)) (hu : searched i a s storage = u)
    (hknown : outcome (recorded a) u = .ok known) (hverdict : (update a d known).verdict = .write) :
    after (run i storage) s =
      after (deliver (listing i a d known).text a.output a.append storage) (announced d u) := by
  rw [searched] at hu
  rw [(run_of_proceeds ha).2, after_bind_ok hfound, hu, react, (conclude_of_write hknown hverdict).2]

section Ends

-- The state after the discovery is named `u` in these, so that it is not computed.
variable {u : RunState}

theorem ends_of_error {e : Interruption} (ha : Proceeds i a)
    (hfound : found i a s storage = .ok (.ok d)) (hu : searched i a s storage = u)
    (hknown : outcome (recorded a) u = .error e) :
    Ends i s storage (outcome (conclude a i.clock d storage) u)
      (after (conclude a i.clock d storage) u) := by
  have hprinted := printed_searched i a s storage
  obtain ⟨hout, hafter⟩ := conclude_of_error (i := i) (d := d) hknown
  rw [hout, hafter]
  rw [← hu] at hknown
  exact .unreadable ha hfound hknown (by rw [hu]) (by rw [← hu, hprinted])

theorem ends_of_skip (ha : Proceeds i a) (hfound : found i a s storage = .ok (.ok d))
    (hu : searched i a s storage = u) (hknown : outcome (recorded a) u = .ok known)
    (hverdict : (update a d known).verdict ≠ .write) :
    Ends i s storage (outcome (conclude a i.clock d storage) u)
      (after (conclude a i.clock d storage) u) := by
  have hprinted := printed_searched i a s storage
  obtain ⟨hout, hafter⟩ := conclude_of_skip (i := i) hknown hverdict
  rw [hout, hafter]
  rw [← hu] at hknown
  refine .skipped ha hfound hknown hverdict ?_ ?_ List.getLast?_concat
  · rw [hu]
  · rw [← hprinted, hu]

theorem ends_of_write (ha : Proceeds i a) (hfound : found i a s storage = .ok (.ok d))
    (hu : searched i a s storage = u) (hknown : outcome (recorded a) u = .ok known)
    (hverdict : (update a d known).verdict = .write) :
    Ends i s storage (outcome (conclude a i.clock d storage) u)
      (after (conclude a i.clock d storage) u) := by
  have hprinted : (announced d u).printed = s.printed := by
    rw [printed_announced, ← hu]
    exact printed_searched i a s storage
  have hfiles : (announced d u).files = (searched i a s storage).files := by
    rw [files_announced, hu]
  obtain ⟨hout, hafter⟩ := conclude_of_write (i := i) hknown hverdict
  rw [hout, hafter]
  rw [← hu] at hknown
  cases houtput : a.output with
  | none =>
    have hdeliver : deliver (listing i a d known).text none a.append storage =
        Run.print (content i a d known) := rfl
    rw [hdeliver, outcome_print, after_print]
    exact .printed ha hfound hknown hverdict houtput hfiles (by rw [hprinted])
  | some path =>
    have hdeliver : deliver (listing i a d known).text (some path) a.append storage =
        changeFiles (storage.write a.append path (Text.Utf8.encode (content i a d known))) := rfl
    have hlast := getLast?_announced d u
    rw [hdeliver, outcome_changeFiles, after_changeFiles, hfiles]
    cases hwrite : storage.write a.append path (Text.Utf8.encode (content i a d known))
        (searched i a s storage).files with
    | mk t r =>
      cases r with
      | error f => exact .unwritten ha hfound hknown hverdict houtput hwrite rfl hprinted
      | ok _ => exact .written ha hfound hknown hverdict houtput hwrite rfl hprinted hlast

end Ends

theorem ends (i : Invocation) (s : RunState) (storage : Storage := .sound) :
    Ends i s storage (outcome (run i storage) s) (after (run i storage) s) := by
  cases hparse : Arguments.parse i.arguments with
  | error m =>
    obtain ⟨hout, hafter⟩ := run_of_misuse (s := s) hparse
    rw [hout]
    exact .misused hparse (by rw [hafter]) (by rw [hafter])
  | ok a =>
    by_cases hhelp : a.help = true
    · obtain ⟨hout, hafter⟩ := run_of_help (s := s) hparse hhelp
      rw [hout]
      exact .helped hparse hhelp (by rw [hafter]) (by rw [hafter])
    · have ha : Proceeds i a := ⟨hparse, Bool.eq_false_iff.mpr hhelp⟩
      have hprinted := printed_searched i a s storage
      obtain ⟨hout, hafter⟩ := run_of_proceeds (s := s) ha
      have hsearched : after ((request i a).run storage) (ready i s) = searched i a s storage := rfl
      rw [hout, hafter]
      cases hfound : found i a s storage with
      | error e =>
        rw [outcome_bind_error hfound, after_bind_error hfound, hsearched]
        exact .interrupted ha hfound rfl hprinted
      | ok r =>
        rw [outcome_bind_ok hfound, after_bind_ok hfound, hsearched]
        generalize hu : searched i a s storage = u at hprinted
        cases r with
        | error f =>
          have hfiles : u.files = (searched i a s storage).files := by rw [hu]
          exact .failed ha hfound hfiles hprinted
        | ok d =>
          cases hknown : outcome (recorded a) u with
          | error e => exact ends_of_error ha hfound hu hknown
          | ok known =>
            by_cases hverdict : (update a d known).verdict = .write
            · exact ends_of_write ha hfound hu hknown hverdict
            · exact ends_of_skip ha hfound hu hknown hverdict

def collecting (name : String) (ws : List String) : Invocation :=
  ⟨ws, fun _ => none, "tmp", ⟨some 0, 0⟩,
    .writing ("  Collecting " ++ name) (.ended (some 0) none)⟩

end BuildRequirements.Program
