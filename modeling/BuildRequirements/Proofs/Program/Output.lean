import BuildRequirements.Proofs.Discovery.Outcomes
import BuildRequirements.Proofs.Program.History
import BuildRequirements.Proofs.Telling

namespace BuildRequirements

open FileTree Run Text

namespace Update

def LeavesAlone (p : Policy) (found known : NameSet) : Prop :=
  p.onlyChanges = true ∧
    if p.append then ∀ n ∈ found, n ∈ known else found = .empty ∨ found = known

instance (found known : NameSet) : Decidable (∀ n ∈ found, n ∈ known) :=
  inferInstanceAs (Decidable (∀ n ∈ found.toList, n ∈ known))

instance (p : Policy) (found known : NameSet) : Decidable (LeavesAlone p found known) :=
  inferInstanceAs (Decidable (_ ∧ _))

def rewritten (p : Policy) (render : List String → List UInt8) (found known : NameSet)
    (prior : Option (List UInt8)) : Option (List UInt8) :=
  if LeavesAlone p found known then prior
  else
    match p.append, p.onlyChanges with
    | false, _ => some (render found.toList)
    | true, false => some (prior.getD [] ++ render found.toList)
    | true, true => some (prior.getD [] ++ render (found.toList.filter (· ∉ known)))

variable {p : Policy} {found known : NameSet}

theorem ofList_toList (names : NameSet) : NameSet.ofList names.toList = names := by
  ext n
  rw [NameSet.mem_ofList, NameSet.mem_def]

theorem toList_eq_nil {names : NameSet} : names.toList = [] ↔ names = .empty := by
  constructor
  · intro h
    ext n
    rw [NameSet.mem_def, h]
    rfl
  · rintro rfl
    rfl

theorem verdict_ne_write_iff :
    (decide p found.toList known).verdict ≠ .write ↔ LeavesAlone p found known := by
  have hverdict : verdictOn p (effective p.append found.toList known) known ≠ .write ↔ _ :=
    verdictOn_ne_write
  rw [effective_toList] at hverdict
  rw [decide_eq, effective_toList, hverdict, LeavesAlone]
  cases p.append with
  | true => simp [NameSet.mem_def]
  | false => simp [ofList_toList, toList_eq_nil]

theorem LeavesAlone.of_empty (h : LeavesAlone p found .empty) : LeavesAlone p found known := by
  refine ⟨h.1, ?_⟩
  have hfound := h.2
  cases ha : p.append with
  | true =>
    rw [ha, if_pos rfl] at hfound
    intro n hn
    cases hfound n hn
  | false =>
    rw [ha, if_neg (by simp), or_self] at hfound
    exact Or.inl hfound

theorem rewritten_of_write {prior : Option (List UInt8)} {render : List String → List UInt8}
    (h : ¬LeavesAlone p found known) :
    rewritten p render found known prior =
      some ((if p.append then prior.getD [] else []) ++
        render (effective p.append found.toList (if p.onlyChanges then known else .empty))) := by
  rw [rewritten, if_neg h, effective_toList]
  cases p.append with
  | false => rfl
  | true =>
    cases p.onlyChanges with
    | false =>
      dsimp only
      rw [if_pos rfl, if_pos rfl, if_neg (by simp), filter_not_mem_empty]
    | true => rfl

end Update

namespace Program

def rendered (i : Invocation) (isPartial : Bool) (names : List String) : List UInt8 :=
  Utf8.encode (Listing.text ⟨generator, i.clock, names, isPartial⟩ ++ "\n")

def announcements (isPartial : Bool) : List Diagnostic :=
  ⟨.info, "Make sure to pip-compile the output before using it"⟩ ::
    if isPartial then [⟨.warning, "Pip download failed, output may be incomplete!"⟩] else []

def closing : List Diagnostic := noNews :: announcements true

/-- What has become of the output, whose content was `prior` when the run came to it, and how the run
has told it. -/
structure Rewritten (i : Invocation) (a : Arguments) (s : RunState) (path : String)
    (found : NameSet) (isPartial : Bool) (prior : Option (List UInt8)) : Prop where
  content : (after (run i) s).files.file? (destination path) =
    Update.rewritten ⟨a.append, a.onlyChanges⟩ (rendered i isPartial) found
      (Listing.recorded (Utf8.decode (prior.getD []))) prior
  spared : Update.LeavesAlone ⟨a.append, a.onlyChanges⟩ found
      (Listing.recorded (Utf8.decode (prior.getD []))) →
    (after (run i) s).files = (searched i a s).files ∧
      ∃ told, (after (run i) s).diagnostics = s.diagnostics ++ told ++ [noNews] ∧
        ∀ n ∈ told, n ∉ closing
  announced : ¬Update.LeavesAlone ⟨a.append, a.onlyChanges⟩ found
      (Listing.recorded (Utf8.decode (prior.getD []))) →
    ∃ told, (after (run i) s).diagnostics = s.diagnostics ++ told ++ announcements isPartial ∧
      ∀ n ∈ told, n ∉ closing

variable {i : Invocation} {a : Arguments} {s u : RunState} {d : Discovery} {known : NameSet}
  {path : String}

section Known

theorem recordedAt_eq (t : FileTree) (path : String) :
    recordedAt t path = Listing.recorded (Utf8.decode ((t.file? (destination path)).getD [])) := by
  rw [recordedAt, contentAt]

theorem textAt_of_locate {t : FileTree} {text : String} (hl : t.locate path = .ok (destination path))
    (h : textAt t path = .ok text) :
    text = Utf8.decode ((t.file? (destination path)).getD []) := by
  rw [textAt, FileTree.read, hl] at h
  dsimp only at h
  rw [file?]
  cases hn : t.node? (destination path) with
  | none =>
    rw [hn] at h
    exact (Except.ok.inj h).symm
  | some n =>
    rw [hn] at h
    cases n with
    | folder => cases h
    | file content => exact (Except.ok.inj h).symm

theorem known_of_locate (ho : a.output = some path)
    (hl : u.files.locate path = .ok (destination path))
    (hknown : outcome (recorded a) u = .ok known) :
    known = if a.onlyChanges then recordedAt u.files path else .empty := by
  cases hc : a.onlyChanges with
  | false =>
    rw [outcome_recorded hc] at hknown
    exact (Except.ok.inj hknown).symm
  | true =>
    rw [outcome_recorded_of_gated ho hc] at hknown
    cases ht : textAt u.files path with
    | error f =>
      rw [ht] at hknown
      cases hknown
    | ok text =>
      rw [ht] at hknown
      rw [if_pos rfl, recordedAt_eq, ← textAt_of_locate hl ht]
      exact (Except.ok.inj hknown).symm

theorem leavesAlone_of_verdict (ho : a.output = some path)
    (hknown : outcome (recorded a) u = .ok known) (hverdict : (update a d known).verdict ≠ .write) :
    Update.LeavesAlone ⟨a.append, a.onlyChanges⟩ d.names (recordedAt u.files path) := by
  have hleaves := Update.verdict_ne_write_iff.mp hverdict
  rcases known_cases ho hknown with hempty | hold
  · rw [hempty] at hleaves
    exact hleaves.of_empty
  · rw [hold] at hleaves
    exact hleaves

theorem not_leavesAlone_of_verdict (ho : a.output = some path)
    (hl : u.files.locate path = .ok (destination path))
    (hknown : outcome (recorded a) u = .ok known) (hverdict : (update a d known).verdict = .write) :
    ¬Update.LeavesAlone ⟨a.append, a.onlyChanges⟩ d.names (recordedAt u.files path) := by
  intro hleaves
  have hgate : a.onlyChanges = true := hleaves.1
  have heq := known_of_locate ho hl hknown
  rw [hgate, if_pos rfl] at heq
  rw [← heq] at hleaves
  exact Update.verdict_ne_write_iff.mpr hleaves hverdict

end Known

section Told

theorem not_mem_closing_of_warning : ∀ text ∈ (settings i).warnings,
    (⟨.warning, text⟩ : Diagnostic) ∉ closing := by
  intro text htext
  rw [settings, Settings.ofEnvironment] at htext
  dsimp only at htext
  rw [Settings.thresholdOf] at htext
  split at htext
  · cases htext
  · split at htext
    · cases htext
    · rw [List.mem_singleton.mp htext]
      decide +kernel

theorem not_mem_closing_of_remark {n : Diagnostic} (h : Discovery.Remark n) : n ∉ closing := by
  intro hmem
  cases h with
  | folder w => simp [closing, announcements, noNews] at hmem
  | running => exact absurd hmem (by decide)
  | failed log => simp [closing, announcements, noNews] at hmem
  | ignored => exact absurd hmem (by decide)
  | reading => exact absurd hmem (by decide)

theorem diagnostics_searched (i : Invocation) (a : Arguments) (s : RunState) :
    ∃ told, (searched i a s).diagnostics = s.diagnostics ++ told ∧ ∀ n ∈ told, n ∉ closing := by
  have htells := Discovery.tells_find (request i a).options (request i a).runner (request i a).inputs
    .sound
  have hsearched : (searched i a s).diagnostics =
      (ready i s).diagnostics ++ added (request i a).run (ready i s) := htells.diagnostics_after _
  rw [hsearched, ready, List.append_assoc, List.append_assoc]
  refine ⟨_, rfl, ?_⟩
  intro n hn
  rw [List.mem_append, List.mem_append, List.mem_map, List.mem_singleton] at hn
  rcases hn with ⟨text, htext, rfl⟩ | rfl | hn
  · exact not_mem_closing_of_warning text htext
  · decide
  · exact not_mem_closing_of_remark (htells.of_mem_added n hn)

theorem diagnostics_announced (d : Discovery) (u : RunState) :
    (announced d u).diagnostics = u.diagnostics ++ announcements d.isPartial := by
  rw [announced, announcements, List.append_assoc]
  rfl

end Told

section Success

theorem success_cases (ha : Proceeds i a) (ho : a.output = some path)
    (hrun : outcome (run i) s = .ok .success) :
    ∃ d known, found i a s = .ok (.ok d) ∧ outcome (recorded a) (searched i a s) = .ok known ∧
      ((update a d known).verdict ≠ .write ∨
        (update a d known).verdict = .write ∧ (searched i a s).files.write a.append path
          (Utf8.encode (content i a d known)) = .ok (after (run i) s).files) := by
  have hends := ends i s
  rw [hrun] at hends
  generalize after (run i) s = t at hends ⊢
  cases hends with
  | helped hparse hhelp => exact absurd hhelp (ha.help_ne hparse)
  | printed hb hfound hknown hverdict houtput =>
    rw [← ha.unique hb, ho] at houtput
    cases houtput
  | skipped hb hfound hknown hverdict =>
    obtain rfl := ha.unique hb
    exact ⟨_, _, hfound, hknown, Or.inl hverdict⟩
  | @written _ b d known path' u hb hfound hknown hverdict houtput hwrite hfiles =>
    obtain rfl := ha.unique hb
    obtain rfl : path = path' := Option.some.inj (ho.symm.trans houtput)
    rw [← hfiles] at hwrite
    exact ⟨_, _, hfound, hknown, Or.inr ⟨hverdict, Storage.write_eq_ok hwrite⟩⟩

theorem rewritten_of_skip (ha : Proceeds i a) (ho : a.output = some path)
    (hfound : found i a s = .ok (.ok d)) (hknown : outcome (recorded a) (searched i a s) = .ok known)
    (hverdict : (update a d known).verdict ≠ .write) :
    Rewritten i a s path d.names d.isPartial ((searched i a s).files.file? (destination path)) := by
  obtain ⟨told, hsearched, htold⟩ := diagnostics_searched i a s
  have hafter := (run_of_skip ha hfound rfl hknown hverdict).2
  have hfiles : (after (run i) s).files = (searched i a s).files := by rw [hafter]
  constructor
  · rw [← recordedAt_eq, Update.rewritten, if_pos (leavesAlone_of_verdict ho hknown hverdict), hfiles]
  · intro _
    refine ⟨hfiles, told, ?_, htold⟩
    rw [hafter, hsearched]
  · rw [← recordedAt_eq]
    intro h
    exact absurd (leavesAlone_of_verdict ho hknown hverdict) h

theorem rewritten_of_write (ha : Proceeds i a) (ho : a.output = some path)
    (hfound : found i a s = .ok (.ok d)) (hknown : outcome (recorded a) (searched i a s) = .ok known)
    (hverdict : (update a d known).verdict = .write)
    (hwrite : (searched i a s).files.write a.append path
      (Utf8.encode (content i a d known)) = .ok (after (run i) s).files) :
    Rewritten i a s path d.names d.isPartial ((searched i a s).files.file? (destination path)) := by
  have hl := (write_eq_ok hwrite).1
  have hleaves := not_leavesAlone_of_verdict ho hl hknown hverdict
  obtain ⟨told, hsearched, htold⟩ := diagnostics_searched i a s
  constructor
  · rw [← recordedAt_eq, file?_of_write hwrite, Update.rewritten_of_write hleaves]
    dsimp only
    rw [← known_of_locate ho hl hknown]
    rfl
  · rw [← recordedAt_eq]
    intro h
    exact absurd h hleaves
  · intro _
    have hdeliver : Keeps RunState.diagnostics (deliver (listing i a d known).text a.output a.append) :=
      keeps_deliver (fun _ _ => rfl) (fun _ _ => rfl) _ _ _
    refine ⟨told, ?_, htold⟩
    rw [after_run_of_write ha hfound rfl hknown hverdict, hdeliver, diagnostics_announced, hsearched]

end Success

theorem output_rewritten (ha : Proceeds i a) (ho : a.output = some path)
    (hrun : outcome (run i) s = .ok .success) :
    ∃ w ending log isPartial prior,
      outcome (request i a).creation (ready i s) = .ok w ∧
      (request i a).answer w (ready i s) = .ok ending ∧
      textAt ((request i a).left w (ready i s)).files w.log = .ok log ∧
      (isPartial = false ↔ ∃ signal, ending = .ended (some 0) signal) ∧
      prior = (searched i a s).files.file? (destination path) ∧
      (i.runner.IsConfined → Location.isAbove (workspace i s) (destination path) = false →
        prior = s.files.file? (destination path)) ∧
      Rewritten i a s path (BuildLog.requirements log) isPartial prior := by
  obtain ⟨d, known, hfound, hknown, hcases⟩ := success_cases ha ho hrun
  have hrewritten : Rewritten i a s path d.names d.isPartial
      ((searched i a s).files.file? (destination path)) := by
    rcases hcases with hverdict | ⟨hverdict, hwrite⟩
    · exact rewritten_of_skip ha ho hfound hknown hverdict
    · exact rewritten_of_write ha ho hfound hknown hverdict hwrite
  obtain ⟨w, ending, log, hw, hanswer, hlog, rfl⟩ := Discovery.Request.run_eq_result hfound
  refine ⟨w, ending, log, _, _, hw, hanswer, hlog, ?_, rfl, fun hconf hq => file?_searched hconf hq,
    hrewritten⟩
  have hnone : Discovery.failure? (request i a).options a.inputs w ending = none ↔
      ∃ signal, ending = .ended (some 0) signal := Discovery.failure?_eq_none
  rw [← hnone]
  exact Option.isSome_eq_false_iff.trans Option.isNone_iff_eq_none

def appending : Invocation :=
  collecting "wheel" ["in.txt", "-ao", "out.txt", "--only-write-on-update"]

theorem output_rewritten_of_appending :
    outcome (run appending) broken = .ok .success ∧
      ∃ found isPartial,
        Rewritten appending
          { inputs := ["in.txt"], append := true, onlyChanges := true, output := some "out.txt" }
          broken "out.txt" found isPartial (broken.files.file? ["out.txt"]) := by
  have hparse : Arguments.parse appending.arguments = .ok
      { inputs := ["in.txt"], append := true, onlyChanges := true, output := some "out.txt" } := rfl
  have hrun : outcome (run appending) broken = .ok .success := by decide +kernel
  have hout : Location.isAbove (workspace appending broken) (destination "out.txt") = false := by
    decide +kernel
  have hdest : destination "out.txt" = ["out.txt"] := by decide +kernel
  obtain ⟨w, ending, log, isPartial, prior, _, _, _, _, _, hprior, h⟩ :=
    output_rewritten ⟨hparse, rfl⟩ rfl hrun
  rw [hprior (Runner.isConfined_writing _ _) hout, hdest] at h
  exact ⟨hrun, _, isPartial, h⟩

end Program

end BuildRequirements
