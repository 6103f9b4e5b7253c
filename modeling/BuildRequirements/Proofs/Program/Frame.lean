import BuildRequirements.Proofs.Program.Exits
import BuildRequirements.Proofs.Updates

/-!
What a run changes outside its scratch folder: at most the output if it succeeds, and nothing if it
fails, unless the storage has failed a write to the output that was open by then.
-/

namespace BuildRequirements.Program

open FileTree Run Text

def workspace (i : Invocation) (s : RunState) : Location :=
  Scratch.location (settings i).scratchRoot Discovery.stem (s.scratchCount + 1)

def report (i : Invocation) (d : Discovery) : String :=
  Listing.text ⟨generator, i.clock, d.names.toList, d.isPartial⟩ ++ "\n"

def Untouched (i : Invocation) (s t : RunState) (q : Location) : Prop :=
  KeptBut (way (settings i).scratchRoot) s.files t.files q

def InScratch (i : Invocation) (s : RunState) (q : Location) : Prop :=
  (∃ a w, Proceeds i a ∧ outcome (request i a).creation (ready i s) = .ok w) ∧ workspace i s <:+ q

variable {i j : Invocation} {a : Arguments} {s t : RunState} {d : Discovery} {q : Location}
  {path : String} {storage : Storage}

theorem workspace_request (i : Invocation) (a : Arguments) (s : RunState) :
    (request i a).workspace (ready i s) = workspace i s := by
  rw [Discovery.Request.workspace, scratchRoot_request]
  rfl

theorem untouched_searched (hconf : i.runner.IsConfined) (ha : Proceeds i a)
    (hq : ¬InScratch i s q) : Untouched i s (searched i a s storage) q := by
  have hrunner : (request i a).runner.IsConfined := hconf
  have hfiles : (ready i s).files = s.files := rfl
  cases hw : outcome (request i a).creation (ready i s) with
  | error e =>
    have h := makeFolders_kept s.files (settings i).scratchRoot q
    rw [Untouched, searched, Discovery.Request.files_run_of_error hw, hfiles, scratchRoot_request]
    exact h
  | ok w =>
    have hout : ¬(request i a).workspace (ready i s) <:+ q := by
      rw [workspace_request]
      exact fun h => hq ⟨⟨a, w, ha, hw⟩, h⟩
    have h : KeptBut _ _ (searched i a s storage).files q :=
      Discovery.Request.keptBut_run hrunner hout
    rw [scratchRoot_request, hfiles] at h
    exact h

theorem file?_searched (hconf : i.runner.IsConfined) (hq : Location.isAbove (workspace i s) q = false) :
    (searched i a s).files.file? q = s.files.file? q := by
  have hrunner : (request i a).runner.IsConfined := hconf
  have hfiles : (ready i s).files = s.files := rfl
  rw [← workspace_request i a s] at hq
  have hkept := Discovery.Request.file?_after_run hrunner hq
  rw [hfiles] at hkept
  exact hkept

theorem untouched_of_files (hconf : i.runner.IsConfined) (ha : Proceeds i a)
    (hfiles : t.files = (searched i a s storage).files) (hq : ¬InScratch i s q) :
    Untouched i s t q := by
  rw [Untouched, hfiles]
  exact untouched_searched hconf ha hq

theorem untouched_refl (hfiles : t.files = s.files) : Untouched i s t q := by
  rw [Untouched, hfiles]
  exact .refl _ _ q

section Arguments

theorem check_eq_ok {b : Arguments} (h : Arguments.check b = .ok a) :
    a.onlyChanges = true → a.output ≠ none := by
  rw [Arguments.check] at h
  split at h
  · cases h
  · rw [Arguments.checkGate] at h
    split at h
    · cases h
    · rename_i hgate
      obtain rfl := Except.ok.inj h
      intro hc ho
      exact hgate (by rw [hc, ho]; rfl)

theorem output_ne_none_of_onlyChanges (ha : Proceeds i a) (hc : a.onlyChanges = true) :
    a.output ≠ none := by
  have hread : ∀ (b : Arguments) (ws : List String), Arguments.read b ws = .ok a →
      a.help = true ∨ (a.onlyChanges = true → a.output ≠ none) := by
    intro b ws h
    fun_induction Arguments.read b ws with
    | case1 b => exact Or.inr (check_eq_ok h)
    | case2 b w ws text hw ih => exact ih h
    | case3 b w ws f hw ih => exact ih h
    | case4 b w ws append hw => exact Or.inl (by rw [← Except.ok.inj h])
    | case5 b w ws append value hw ih => exact ih h
    | case6 => cases h
    | case7 => cases h
    | case8 b w append option hw value ws ho ih => exact ih h
    | case9 b w ws hw => exact Or.inr (check_eq_ok h)
    | case10 => cases h
  rcases hread {} i.arguments ha.parse_eq with hhelp | h
  · rw [ha.help_eq] at hhelp
    cases hhelp
  · exact h hc

end Arguments

section Ungated

theorem content_of_ungated (h : a.onlyChanges = false) (d : Discovery) :
    (update a d .empty).verdict = .write ∧ content i a d .empty = report i d := by
  have hnames : (update a d .empty).names = d.names.toList := by
    rw [update, Update.decide_eq]
    dsimp only
    rw [Update.effective_toList, Update.filter_not_mem_empty, ite_self]
  constructor
  · by_contra hverdict
    have hgate := (Update.decide_ne_write.mp hverdict).1
    rw [h] at hgate
    cases hgate
  · rw [content, listing, hnames, report]

theorem onlyChanges_of_no_output (ha : Proceeds i a) (ho : a.output = none) :
    a.onlyChanges = false := by
  rw [Bool.eq_false_iff]
  intro hc
  exact output_ne_none_of_onlyChanges ha hc ho

end Ungated

/-- The storage has failed a write once the file was open, which is the output. It then holds the front
of what was to be written, behind what it held if that was to stay. -/
inductive CutShort (i : Invocation) (s t : RunState) (storage : Storage) : Fault → Location → Prop where
  | intro {a d known path reached why} (ha : Proceeds i a) (hfound : found i a s storage = .ok (.ok d))
      (hknown : outcome (recorded a) (searched i a s storage) = .ok known)
      (hverdict : (update a d known).verdict = .write) (houtput : a.output = some path)
      (hstop : storage.stop (searched i a s storage).files path (Utf8.encode (content i a d known)) =
        some (.cut reached why))
      (hnode : t.files.node? (destination path) =
        some (.file ((if a.append then s.files.contentAt (destination path) else []) ++
          (Utf8.encode (content i a d known)).take reached))) :
      CutShort i s t storage ⟨.refused why, .writeContent⟩ (destination path)

structure Delivered (i : Invocation) (a : Arguments) (s t : RunState) (storage : Storage) : Prop where
  help : a.help = true → t.printed = s.printed ++ [usage ++ "\n"] ∧ t.files = s.files
  no_output : a.help = false → a.output = none → ∃ d, found i a s storage = .ok (.ok d) ∧
    t.printed = s.printed ++ [report i d]
  output : a.help = false → a.output ≠ none → t.printed = s.printed
  frame : ∀ q, ¬InScratch i s q →
    (a.help = false → ∀ path, a.output = some path → q ≠ destination path) → Untouched i s t q

theorem cutShort_or_untouched {known : NameSet} {u : FileTree} {f : Fault}
    (hconf : i.runner.IsConfined) (ha : Proceeds i a) (hfound : found i a s storage = .ok (.ok d))
    (hknown : outcome (recorded a) (searched i a s storage) = .ok known)
    (hverdict : (update a d known).verdict = .write) (houtput : a.output = some path)
    (hwrite : storage.write a.append path (Utf8.encode (content i a d known))
      (searched i a s storage).files = (u, .error f))
    (hfiles : t.files = u) (hq : ¬InScratch i s q) :
    Untouched i s t q ∨ CutShort i s t storage f q := by
  have hkept : Untouched i s (searched i a s storage) q := untouched_searched hconf ha hq
  -- A write that fails before the open has done nothing, and one that is cut is one of fewer bytes.
  rcases Storage.write_eq_error hwrite with hsame | ⟨reached, why, hstop, rfl, hcut⟩
  · exact Or.inl (untouched_of_files hconf ha (hfiles.trans hsame) hq)
  · have hnode := (write_eq_ok hcut).2.2
    by_cases he : q = destination path
    · subst he
      refine Or.inr (.intro ha hfound hknown hverdict houtput hstop ?_)
      rw [hfiles, hnode, if_pos rfl, hkept.contentAt]
    · left
      rw [Untouched, KeptBut, hfiles, hnode q, if_neg he]
      exact hkept

theorem Ends.of_failure {r : Except Interruption ExitCode} (h : Ends i s storage r t)
    (hconf : i.runner.IsConfined) (hr : r ≠ .ok .success) :
    t.printed = s.printed ∧ ∀ q, ¬InScratch i s q →
      Untouched i s t q ∨ ∃ f, r = .error (.fault f) ∧ CutShort i s t storage f q := by
  cases h with
  | misused hparse hfiles hprinted =>
    exact ⟨hprinted, fun q _ => Or.inl (untouched_refl hfiles)⟩
  | interrupted ha hfound hfiles hprinted =>
    exact ⟨hprinted, fun q hq => Or.inl (untouched_of_files hconf ha hfiles hq)⟩
  | failed ha hfound hfiles hprinted =>
    exact ⟨hprinted, fun q hq => Or.inl (untouched_of_files hconf ha hfiles hq)⟩
  | unreadable ha hfound hknown hfiles hprinted =>
    exact ⟨hprinted, fun q hq => Or.inl (untouched_of_files hconf ha hfiles hq)⟩
  | unwritten ha hfound hknown hverdict houtput hwrite hfiles hprinted =>
    refine ⟨hprinted, fun q hq => ?_⟩
    rcases cutShort_or_untouched hconf ha hfound hknown hverdict houtput hwrite hfiles hq with
      hkept | hcut
    · exact Or.inl hkept
    · exact Or.inr ⟨_, rfl, hcut⟩
  | helped => exact absurd rfl hr
  | skipped => exact absurd rfl hr
  | printed => exact absurd rfl hr
  | written => exact absurd rfl hr

theorem Ends.of_success (h : Ends i s storage (.ok .success) t) (hconf : i.runner.IsConfined) :
    ∃ a, Arguments.parse i.arguments = .ok a ∧ Delivered i a s t storage := by
  have habsurd {a : Arguments} {b : Bool} (hb : a.help = b) (hn : a.help = !b) : False := by
    rw [hb] at hn
    cases b <;> cases hn
  cases h with
  | @helped _ a hparse hhelp hfiles hprinted =>
    refine ⟨a, hparse, ?_⟩
    constructor
    · intro _
      exact ⟨hprinted, hfiles⟩
    · intro hn
      exact (habsurd hhelp hn).elim
    · intro hn
      exact (habsurd hhelp hn).elim
    · intro q _ _
      exact untouched_refl hfiles
  | @skipped _ a d known ha hfound hknown hverdict hfiles hprinted hlast =>
    refine ⟨a, ha.parse_eq, ?_⟩
    constructor
    · intro hh
      exact (habsurd ha.help_eq hh).elim
    · intro _ ho
      have hgate := (Update.decide_ne_write.mp hverdict).1
      exact absurd ho (output_ne_none_of_onlyChanges ha hgate)
    · intro _ _
      exact hprinted
    · intro q hq _
      exact untouched_of_files hconf ha hfiles hq
  | @printed _ a d known ha hfound hknown hverdict houtput hfiles hprinted =>
    have hungated := onlyChanges_of_no_output ha houtput
    rw [outcome_recorded hungated] at hknown
    obtain rfl := Except.ok.inj hknown
    refine ⟨a, ha.parse_eq, ?_⟩
    constructor
    · intro hh
      exact (habsurd ha.help_eq hh).elim
    · intro _ _
      refine ⟨d, hfound, ?_⟩
      rw [hprinted, (content_of_ungated hungated d).2]
    · intro _ ho
      exact absurd houtput ho
    · intro q hq _
      exact untouched_of_files hconf ha hfiles hq
  | @written _ a d known path u ha hfound hknown hverdict houtput hwrite hfiles hprinted hlast =>
    refine ⟨a, ha.parse_eq, ?_⟩
    constructor
    · intro hh
      exact (habsurd ha.help_eq hh).elim
    · intro _ ho
      rw [houtput] at ho
      cases ho
    · intro _ _
      exact hprinted
    · intro q hq hne
      have hkept : Untouched i s (searched i a s storage) q := untouched_searched hconf ha hq
      have hnode := (write_eq_ok (Storage.write_eq_ok hwrite)).2.2 q
      rw [if_neg (hne ha.help_eq path houtput)] at hnode
      rw [Untouched, hfiles, KeptBut, hnode]
      exact hkept

theorem printed_of_found (ha : Proceeds i a) (ho : a.output = none)
    (hfound : found i a s storage = .ok (.ok d)) :
    (after (run i storage) s).printed = s.printed ++ [report i d] := by
  have hungated := onlyChanges_of_no_output ha ho
  have hknown := outcome_recorded hungated (searched i a s storage)
  obtain ⟨hverdict, hcontent⟩ := content_of_ungated (i := i) hungated d
  have hdeliver : deliver (listing i a d .empty).text none a.append storage =
      Run.print (content i a d .empty) := rfl
  rw [after_run_of_write ha hfound rfl hknown hverdict, ho, hdeliver, after_print, printed_announced,
    printed_searched, hcontent]

theorem written_eq_printed {ws : List String} (hconf : i.runner.IsConfined) (ha : Proceeds i a)
    (ho : a.output = none) (hws : Arguments.parse ws = .ok { a with output := some path })
    (hrun : outcome (run { i with arguments := ws } storage) s = .ok .success) :
    ∃ text prior, (after (run i storage) s).printed = s.printed ++ [text] ∧
      (after (run { i with arguments := ws } storage) s).files.node? (destination path) =
        some (.file (prior ++ Utf8.encode text)) ∧
      (a.append = false → prior = []) ∧
      (a.append = true → ¬InScratch i s (destination path) →
        prior = s.files.contentAt (destination path)) := by
  have hungated := onlyChanges_of_no_output ha ho
  have hb : Proceeds { i with arguments := ws } { a with output := some path } :=
    ⟨hws, ha.help_eq⟩
  have hends := ends { i with arguments := ws } s storage
  rw [hrun] at hends
  generalize after (run { i with arguments := ws } storage) s = t at hends
  cases hends with
  | helped hparse hhelp =>
    rw [hws] at hparse
    rw [← Except.ok.inj hparse, ha.help_eq] at hhelp
    cases hhelp
  | skipped hc hfound hknown hverdict =>
    obtain rfl := hb.unique hc
    have hgate := (Update.decide_ne_write.mp hverdict).1
    rw [hungated] at hgate
    cases hgate
  | printed hc hfound hknown hverdict houtput =>
    obtain rfl := hb.unique hc
    cases houtput
  | @written _ c d known path' u hc hfound hknown hverdict houtput hwrite hfiles =>
    obtain rfl := hb.unique hc
    obtain rfl : path = path' := Option.some.inj houtput
    rw [outcome_recorded (a := { a with output := some path }) hungated] at hknown
    obtain rfl := Except.ok.inj hknown
    have hfoundi : found i a s storage = .ok (.ok d) := hfound
    have htext := (content_of_ungated (i := { i with arguments := ws })
      (a := { a with output := some path }) hungated d).2
    have hsearched : searched { i with arguments := ws } { a with output := some path } s storage =
        searched i a s storage := rfl
    have hnode := (write_eq_ok (Storage.write_eq_ok hwrite)).2.2 (destination path)
    rw [if_pos rfl, htext, hsearched] at hnode
    refine ⟨report i d,
      if a.append then (searched i a s storage).files.contentAt (destination path) else [],
      printed_of_found ha ho hfoundi, ?_, ?_, ?_⟩
    · rw [hfiles]
      exact hnode
    · intro happend
      simp [happend]
    · intro happend hout
      rw [if_pos happend]
      exact (untouched_searched hconf ha hout).contentAt

theorem run_frame (storage : Storage) (hconf : i.runner.IsConfined) :
    (outcome (run i storage) s ≠ .ok .success → (after (run i storage) s).printed = s.printed ∧
      ∀ q, ¬InScratch i s q → Untouched i s (after (run i storage) s) q ∨
        ∃ f, outcome (run i storage) s = .error (.fault f) ∧
          CutShort i s (after (run i storage) s) storage f q) ∧
    (outcome (run i storage) s = .ok .success → ∃ a, Arguments.parse i.arguments = .ok a ∧
      Delivered i a s (after (run i storage) s) storage) ∧
    ∀ a path ws, Proceeds i a → a.output = none →
      Arguments.parse ws = .ok { a with output := some path } →
      outcome (run { i with arguments := ws } storage) s = .ok .success →
      ∃ text prior, (after (run i storage) s).printed = s.printed ++ [text] ∧
        (after (run { i with arguments := ws } storage) s).files.node? (destination path) =
          some (.file (prior ++ Utf8.encode text)) ∧
        (a.append = false → prior = []) ∧
        (a.append = true → ¬InScratch i s (destination path) →
          prior = s.files.contentAt (destination path)) := by
  refine ⟨(ends i s storage).of_failure hconf, ?_, ?_⟩
  · intro hr
    have h := ends i s storage
    rw [hr] at h
    exact h.of_success hconf
  · intro a path ws ha ho hws hrun
    exact written_eq_printed hconf ha ho hws hrun

theorem run_frame_of_collecting :
    (collecting "wheel" ["in.txt"]).runner.IsConfined ∧
      outcome (run (collecting "wheel" ["in.txt"])) { files := .empty } = .ok .success ∧
      ∃ text prior, (after (run (collecting "wheel" ["in.txt"])) { files := .empty }).printed = [] ++ [text] ∧
        (after (run (collecting "wheel" ["in.txt", "-o", "out.txt"])) { files := .empty }).files.node?
          ["out.txt"] = some (.file (prior ++ Utf8.encode text)) := by
  have hconf : (collecting "wheel" ["in.txt"]).runner.IsConfined := Runner.isConfined_writing _ _
  obtain ⟨_, _, hsame⟩ := run_frame (s := { files := .empty }) .sound hconf
  obtain ⟨text, prior, hprinted, hnode, _⟩ := hsame { inputs := ["in.txt"] } "out.txt"
    ["in.txt", "-o", "out.txt"] ⟨by decide +kernel, rfl⟩ rfl (by decide +kernel) (by decide +kernel)
  refine ⟨hconf, by decide +kernel, text, prior, hprinted, ?_⟩
  have hdest : destination "out.txt" = ["out.txt"] := by decide +kernel
  rw [← hdest]
  exact hnode

def limited (room : Nat) : Storage := ⟨fun _ _ _ => some (.cut room .noSpace), fun _ _ => none⟩

def throughOutput : Environment := fun name =>
  if name = Settings.scratchVariable then some "out.txt/../s" else none

/-- A write to an old output may be cut short, and a missing output may become a folder. -/
theorem failed_run_not_untouched :
    (¬∀ (storage : Storage) (i : Invocation) (s : RunState) (q : Location), i.runner.IsConfined →
      outcome (run i storage) s ≠ .ok .success → ¬workspace i s <:+ q →
      Untouched i s (after (run i storage) s) q) ∧
    ¬∀ (i : Invocation) (a : Arguments) (s : RunState) (path : String), i.runner.IsConfined →
      Proceeds i a → a.output = some path → outcome (run i) s ≠ .ok .success →
      ¬workspace i s <:+ destination path →
      (after (run i) s).files.node? (destination path) = s.files.node? (destination path) := by
  have hconf (ws : List String) : (collecting "wheel" ws).runner.IsConfined :=
    Runner.isConfined_writing _ _
  constructor
  · intro h
    let old : RunState := { files := FileTree.empty.put "out.txt" [] (.file (Utf8.encode "old\n")) }
    have hkept := h (limited 3) (collecting "wheel" ["in.txt", "-o", "out.txt"]) old ["out.txt"]
      (hconf _) (by decide +kernel) (by decide +kernel)
    have hfile := hkept.file?
    revert hfile
    decide +kernel
  · intro h
    have hkept := h { collecting "wheel" ["in.txt", "-o", "out.txt"] with environment := throughOutput }
      { inputs := ["in.txt"], output := some "out.txt" } { files := .empty } "out.txt" (hconf [])
      ⟨by decide +kernel, rfl⟩ rfl (by decide +kernel) (by decide +kernel)
    revert hkept
    decide +kernel

end BuildRequirements.Program
