import BuildRequirements.Proofs.Program.Frame

namespace BuildRequirements.Program

open FileTree Run Text

def recordedAt (t : FileTree) (path : String) : NameSet :=
  Listing.recorded (Utf8.decode (t.contentAt (destination path)))

/-- The names that the output records after a run that ended with `r`, of which it recorded `old`
before. -/
def recordedBy (i : Invocation) (s : RunState) (r : Except Interruption ExitCode) (old : NameSet) :
    NameSet :=
  match r, Arguments.parse i.arguments with
  | .ok .success, .ok a =>
    if a.help then old
    else
      match found i a s with
      | .ok (.ok d) => Update.recordedAfter ⟨a.append, a.onlyChanges⟩ d.names.toList old
      | _ => old
  | _, _ => old

structure Targets (path : String) (i : Invocation) (s : RunState) : Prop where
  confined : i.runner.IsConfined
  output : ∀ a, Proceeds i a → a.output = some path
  outside : Location.isAbove (workspace i s) (destination path) = false

variable {i : Invocation} {a : Arguments} {s t u : RunState} {d : Discovery} {known : NameSet}
  {path : String}

theorem contentAt_searched (h : Targets path i s) (a : Arguments) :
    (searched i a s).files.contentAt (destination path) =
      s.files.contentAt (destination path) := by
  rw [contentAt, contentAt, file?_searched h.confined h.outside]

theorem recordedAt_searched (h : Targets path i s) (a : Arguments)
    (hfiles : t.files = (searched i a s).files) :
    recordedAt t.files path = recordedAt s.files path := by
  rw [recordedAt, recordedAt, hfiles, contentAt_searched h a]

theorem isToken_of_found (hfound : found i a s = .ok (.ok d)) :
    ∀ n ∈ d.names.toList, Listing.IsToken n := by
  obtain ⟨text, htext⟩ := Discovery.Request.run_names hfound
  intro n hn
  rw [htext] at hn
  exact Listing.isToken_of_mem (NameSet.mem_def.mpr hn)

theorem textAt_cases {text : String} {t : FileTree} (h : textAt t path = .ok text) :
    text = "" ∨ text = Utf8.decode (t.contentAt (destination path)) := by
  rw [textAt] at h
  cases hr : t.read path with
  | error f =>
    rw [hr] at h
    dsimp only at h
    split at h
    · exact Or.inl (Except.ok.inj h).symm
    · cases h
  | ok bytes =>
    rw [hr] at h
    rw [contentAt_of_file (read_eq_ok hr)]
    exact Or.inr (Except.ok.inj h).symm

theorem known_cases (ho : a.output = some path) (h : outcome (recorded a) s = .ok known) :
    known = .empty ∨ known = recordedAt s.files path := by
  rw [recorded, ho] at h
  cases hc : a.onlyChanges with
  | false =>
    rw [hc] at h
    exact Or.inl (Except.ok.inj h).symm
  | true =>
    rw [hc] at h
    obtain ⟨text, htext, hk⟩ := bind_eq_ok h
    rw [outcome_readText] at htext
    cases ht : textAt s.files path with
    | error f =>
      rw [ht] at htext
      cases htext
    | ok text' =>
      rw [ht] at htext
      obtain rfl := Except.ok.inj htext
      obtain rfl := Except.ok.inj hk
      rcases textAt_cases ht with rfl | rfl
      · left
        decide +kernel
      · exact Or.inr rfl

theorem recorded_content (hfound : found i a s = .ok (.ok d)) :
    Listing.recorded (content i a d known) = Listing.cut (update a d known).names := by
  have hgen : Listing.IsUnbroken generator := Listing.isUnbroken_of_all (by decide)
  apply Listing.recorded_text
  · exact hgen
  · intro n hn
    have hmem : n ∈ Update.effective a.append d.names.toList known := hn
    exact isToken_of_found hfound n (Update.mem_effective.mp hmem).1

theorem recordedAt_of_write {t u : FileTree} (hfound : found i a s = .ok (.ok d))
    (hwrite : t.write a.append path (Utf8.encode (content i a d known)) = .ok u) :
    recordedAt u path =
      if a.append then (recordedAt t path).union (Listing.cut (update a d known).names)
      else Listing.cut (update a d known).names := by
  have hnode := (write_eq_ok hwrite).2.2 (destination path)
  rw [if_pos rfl] at hnode
  have hread : Listing.recorded (content i a d known) = Listing.cut (update a d known).names :=
    recorded_content hfound
  rw [recordedAt, contentAt_of_file hnode]
  cases a.append with
  | true =>
    obtain ⟨rest, htext⟩ : ∃ rest, (content i a d known).toList = '#' :: rest :=
      Listing.exists_toList_text (listing i a d known)
    rw [if_pos rfl, if_pos rfl, Utf8.decode_append_encode,
      Listing.recorded_append htext]
    exact congrArg _ hread
  | false =>
    rw [if_neg (by simp), if_neg (by simp), List.nil_append, Utf8.decode_encode]
    exact hread

theorem cutName_of_mem_recordedAt {t : FileTree} :
    ∀ n ∈ recordedAt t path, Listing.cutName n = some n :=
  fun _ => Listing.cutName_of_mem_recorded

theorem recordedBy_of_help {old : NameSet} (hparse : Arguments.parse i.arguments = .ok a)
    (hhelp : a.help = true) : recordedBy i s (.ok .success) old = old := by
  unfold recordedBy
  rw [hparse]
  exact if_pos hhelp

theorem recordedBy_of_found {old : NameSet} (ha : Proceeds i a) (hfound : found i a s = .ok (.ok d)) :
    recordedBy i s (.ok .success) old =
      Update.recordedAfter ⟨a.append, a.onlyChanges⟩ d.names.toList old := by
  unfold recordedBy
  rw [ha.parse_eq]
  dsimp only
  rw [ha.help_eq, if_neg (by simp), hfound]

theorem known_cases_searched (h : Targets path i s) (ha : Proceeds i a)
    (hknown : outcome (recorded a) (searched i a s) = .ok known) :
    known = .empty ∨ known = recordedAt s.files path := by
  rw [← recordedAt_searched h a rfl]
  exact known_cases (h.output a ha) hknown

theorem recordedAt_run (h : Targets path i s) :
    recordedAt (after (run i) s).files path =
      recordedBy i s (outcome (run i) s) (recordedAt s.files path) := by
  have hends := ends i s
  generalize outcome (run i) s = r at hends
  generalize after (run i) s = t at hends
  cases hends with
  | misused hparse hfiles =>
    rw [hfiles]
    rfl
  | helped hparse hhelp hfiles => rw [hfiles, recordedBy_of_help hparse hhelp]
  | @interrupted _ a e ha hfound hfiles => exact recordedAt_searched h a hfiles
  | @failed _ a f ha hfound hfiles => exact recordedAt_searched h a hfiles
  | @unreadable _ a d e ha hfound hknown hfiles => exact recordedAt_searched h a hfiles
  | @unwritten _ a d known path' f u ha hfound hknown hverdict houtput hwrite hfiles =>
    exact recordedAt_searched h a (hfiles.trans (Storage.eq_of_sound_write hwrite))
  | @skipped _ a d known ha hfound hknown hverdict hfiles =>
    have hcases := known_cases_searched h ha hknown
    rw [recordedAt_searched h a hfiles, recordedBy_of_found ha hfound,
      Update.recordedAfter_of_skip cutName_of_mem_recordedAt hcases hverdict]
  | printed ha hfound hknown hverdict houtput =>
    rw [h.output _ ha] at houtput
    cases houtput
  | @written _ a d known path' u ha hfound hknown hverdict houtput hwrite hfiles =>
    obtain rfl : path = path' := Option.some.inj ((h.output a ha).symm.trans houtput)
    have hcases := known_cases_searched h ha hknown
    have hafter := Update.recordedAfter_of_write cutName_of_mem_recordedAt hcases hverdict
    rw [hfiles, recordedBy_of_found ha hfound, recordedAt_of_write hfound (Storage.write_eq_ok hwrite),
      recordedAt_searched h a rfl]
    exact hafter

def runAll (runs : List Invocation) (s : RunState) : RunState :=
  runs.foldl (fun s i => after (run i) s) s

def recordedByAll : List Invocation → RunState → NameSet → NameSet
  | [], _, old => old
  | i :: runs, s, old =>
    recordedByAll runs (after (run i) s) (recordedBy i s (outcome (run i) s) old)

def TargetsAll (path : String) (runs : List Invocation) (s : RunState) : Prop :=
  ∀ front i back, runs = front ++ i :: back → Targets path i (runAll front s)

theorem targetsAll_cons {runs : List Invocation} :
    TargetsAll path (i :: runs) s ↔ Targets path i s ∧ TargetsAll path runs (after (run i) s) := by
  constructor
  · intro h
    refine ⟨h [] i runs rfl, ?_⟩
    intro front j back he
    exact h (i :: front) j back (by rw [he]; rfl)
  · rintro ⟨hi, hruns⟩ front j back he
    cases front with
    | nil =>
      obtain ⟨rfl, rfl⟩ := List.cons.inj he
      exact hi
    | cons e front =>
      obtain ⟨rfl, rfl⟩ := List.cons.inj he
      exact hruns front j back rfl

theorem recordedAt_runAll {runs : List Invocation} (h : TargetsAll path runs s) :
    recordedAt (runAll runs s).files path = recordedByAll runs s (recordedAt s.files path) := by
  induction runs generalizing s with
  | nil => rfl
  | cons i runs ih =>
    obtain ⟨hi, hruns⟩ := targetsAll_cons.mp h
    rw [recordedByAll, ← recordedAt_run hi]
    exact ih hruns

theorem recorded_history {runs : List Invocation} (h : TargetsAll path runs s) :
    recordedAt (runAll runs s).files path = recordedByAll runs s (recordedAt s.files path) ∧
      ∀ front i back, runs = front ++ i :: back →
        recordedAt (runAll (front ++ [i]) s).files path =
          recordedBy i (runAll front s) (outcome (run i) (runAll front s))
            (recordedAt (runAll front s).files path) := by
  refine ⟨recordedAt_runAll h, ?_⟩
  intro front i back he
  have hstep : runAll (front ++ [i]) s = after (run i) (runAll front s) := List.foldl_append
  rw [hstep]
  exact recordedAt_run (h front i back he)

-- An output that ends inside a character, and without a line break.
def broken : RunState := { files := FileTree.empty.put "out.txt" [] (.file [0x61, 0xE2, 0x82]) }

theorem targets_collecting {name : String} {ws : List String} {b : Arguments}
    (hparse : Arguments.parse ws = .ok b) (ho : b.output = some "out.txt") (s : RunState)
    (hout : Location.isAbove (workspace (collecting name ws) s) (destination "out.txt") = false) :
    Targets "out.txt" (collecting name ws) s := by
  refine ⟨Runner.isConfined_writing _ _, fun a ha => ?_, hout⟩
  have hb : b = a := Except.ok.inj (hparse.symm.trans ha.parse_eq)
  rw [← hb, ho]

theorem recorded_history_of_broken :
    TargetsAll "out.txt" [collecting "wheel" ["in.txt", "-ao", "out.txt"],
        collecting "wheel" ["in.txt", "-o", "out.txt", "--only-write-on-update"]] broken ∧
      recordedAt (runAll [collecting "wheel" ["in.txt", "-ao", "out.txt"]] broken).files "out.txt" =
        recordedBy (collecting "wheel" ["in.txt", "-ao", "out.txt"]) broken
          (outcome (run (collecting "wheel" ["in.txt", "-ao", "out.txt"])) broken)
          (recordedAt broken.files "out.txt") ∧
      (recordedAt (runAll [collecting "wheel" ["in.txt", "-ao", "out.txt"]] broken).files "out.txt").toList =
        ["a\uFFFD", "wheel"] := by
  have htargets : TargetsAll "out.txt" [collecting "wheel" ["in.txt", "-ao", "out.txt"],
      collecting "wheel" ["in.txt", "-o", "out.txt", "--only-write-on-update"]] broken := by
    refine targetsAll_cons.mpr ⟨?_, targetsAll_cons.mpr ⟨?_, ?_⟩⟩
    · exact targets_collecting
        (b := { inputs := ["in.txt"], append := true, output := some "out.txt" })
        (by decide +kernel) rfl _ (by decide +kernel)
    · exact targets_collecting
        (b := { inputs := ["in.txt"], onlyChanges := true, output := some "out.txt" })
        (by decide +kernel) rfl _ (by decide +kernel)
    · intro front i back h
      simp at h
  exact ⟨htargets, (recorded_history htargets).2 [] _ _ rfl, by decide +kernel⟩

end BuildRequirements.Program
