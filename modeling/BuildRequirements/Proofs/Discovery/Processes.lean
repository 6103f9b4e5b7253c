import BuildRequirements.Proofs.Discovery.Outcomes
import BuildRequirements.Proofs.Runs.Processes

namespace BuildRequirements.Discovery

open FileTree Run Scratch

section Resume

variable {o : Options} {w : Scratch} {u v : RunState} {failure : Option Download.Failure}

def closing (o : Options) (w : Scratch) (failure : Option Download.Failure) : List Diagnostic :=
  match judge o.ignoreErrors w.log failure with
  | .error _ => []
  | .ok isPartial =>
    (if isPartial then [⟨.error, (Failure.failed w.log).message⟩, ⟨.warning, "Ignoring error..."⟩]
      else []) ++ [⟨.info, "Looking for build dependencies in the output of pip download"⟩]

theorem after_release (w : Scratch) (u : RunState) :
    after (release w) u = { u with files := (after (release w) u).files } := by
  rw [release, after_changeFiles]

theorem after_conclude (w : Scratch) (isPartial : Bool) (u : RunState) :
    after (conclude w isPartial) u =
      { u with
        diagnostics := u.diagnostics ++
          [⟨.info, "Looking for build dependencies in the output of pip download"⟩]
        files := (after (conclude w isPartial) u).files } := by
  rw [conclude, after_bind_ok (outcome_report ..), after_bind, outcome_readText, after_readText,
    after_report]
  cases textAt u.files w.log with
  | error f => rfl
  | ok text =>
    cases isPartial with
    | true => rfl
    | false =>
      rw [mapError_fault_ok]
      dsimp only
      rw [if_neg (by simp), after_bind, after_release]
      cases outcome (release w) _ <;> rfl

theorem after_resume (o : Options) (w : Scratch) (failure : Option Download.Failure) (u : RunState) :
    after (resume o w failure) u =
      { u with
        diagnostics := u.diagnostics ++ closing o w failure
        files := (after (resume o w failure) u).files } := by
  have hrest (isPartial : Bool) (v : RunState) :
      after (conclude w isPartial >>= fun d => pure (.ok d) : Run (Except Failure Discovery)) v =
        after (conclude w isPartial) v := by
    rw [after_bind]
    cases outcome (conclude w isPartial) v <;> rfl
  rw [resume, closing]
  cases judge o.ignoreErrors w.log failure with
  | error f => simp
  | ok isPartial =>
    dsimp only
    cases isPartial with
    | false =>
      rw [if_neg (by simp), if_neg (by simp), hrest, after_conclude]
      rfl
    | true =>
      rw [if_pos rfl, if_pos rfl, after_bind_ok (outcome_report ..), after_bind_ok (outcome_report ..),
        after_report, after_report, hrest, after_conclude]
      simp

end Resume

namespace Request

def spawned (c : Request) (x : Script) : Request :=
  { c with runner := x.spawned }

def injected (c : Request) (x : Script) : Request :=
  { c with runner := x.injected }

def logPlace (c : Request) (s : RunState) : Location :=
  logName :: c.workspace s

variable {c : Request} {x : Script} {s : RunState} {w : Scratch}

structure LeftAlike (c : Request) (x : Script) (w : Scratch) (s : RunState) : Prop where
  spawned_ending : (c.spawned x).download w s = .ok x.first
  injected_ending : (c.injected x).download w s = .ok x.first
  state_eq : (c.spawned x).left w s =
    { (c.injected x).left w s with files := ((c.spawned x).left w s).files }
  agree : AgreeOff (c.logPlace s) ((c.spawned x).left w s).files ((c.injected x).left w s).files
  spawned_log : ((c.spawned x).left w s).files.node? (c.logPlace s) =
    some (.file (x.output.getD []))
  injected_log : ((c.injected x).left w s).files.node? (c.logPlace s) = x.output.map .file

theorem exists_injected {folder : String} {t : FileTree} (hf : folder ≠ "")
    (ht : t.node? (destination folder) = some .folder)
    (hn : t.node? (logName :: destination folder) = none) (output : Option (List UInt8)) :
    ∃ u, (∀ bytes, output = some bytes →
        t.write false (Path.join folder logName) bytes = .ok u) ∧ (output = none → u = t) ∧
      AgreeOff (logName :: destination folder) u t ∧
      u.node? (logName :: destination folder) = output.map .file := by
  cases output with
  | none => exact ⟨t, nofun, fun _ => rfl, fun _ _ => rfl, hn⟩
  | some bytes =>
    obtain ⟨u, hu⟩ := exists_write_log hf ht (by simp [hn]) bytes
    have hagree := AgreeOff.of_write hu
    have hlog := node?_of_write hu
    rw [Scratch.destination_log hf] at hagree hlog
    refine ⟨u, ?_, nofun, hagree, hlog⟩
    rintro _ ⟨rfl⟩
    exact hu

/-- The process meets an empty log, where the runner in its place meets none. What they change apart
from it is the same. -/
theorem exists_opened {change : FileTree → FileTree} (hover : Overlooks change (c.logPlace s))
    (hw : outcome c.creation s = .ok w) :
    ∃ u, (after c.creation s).files.write false w.log [] = .ok u ∧
      AgreeOff (c.logPlace s) (change u) (change (after c.creation s).files) ∧
      (change u).node? (c.logPlace s) = some (.file []) ∧
      (change (after c.creation s).files).node? (c.logPlace s) = none ∧
      (change (after c.creation s).files).node? (c.workspace s) = some .folder := by
  have hm := create_eq_ok isPlain_stem hw
  have hlog : destination w.log = c.logPlace s := hm.destination_log isPlain_stem
  have hfolder : destination w.folder = c.workspace s := hm.destination_folder isPlain_stem
  have hnone : (after c.creation s).files.node? (c.logPlace s) = none := by
    rw [logPlace, ← hfolder]
    exact hm.node?_log isPlain_stem
  obtain ⟨u, hu⟩ := hm.write_log isPlain_stem []
  have hagree := AgreeOff.of_write hu
  have hempty := node?_of_write hu
  rw [hlog] at hagree hempty
  have hchanged := hover.congr _ _ hagree
  have hopened := (hover.kept u).trans hempty
  have hsome : (change u).node? (c.logPlace s) ≠ none := by
    rw [hopened]
    simp
  have hws : (change u).node? (c.workspace s) = some .folder := node?_parent hsome
  rw [hchanged _ (by simp [logPlace])] at hws
  exact ⟨u, hu, hchanged, hopened, (hover.kept _).trans hnone, hws⟩

theorem leftAlike (hover : ∀ call, destination call.log = c.logPlace s →
      Overlooks (x.change call) (c.logPlace s)) (hw : outcome c.creation s = .ok w) :
    LeftAlike c x w s := by
  have hm := create_eq_ok isPlain_stem hw
  have hlog : destination (call c.options c.inputs w).log = c.logPlace s :=
    hm.destination_log isPlain_stem
  have hfolder : destination w.folder = c.workspace s := hm.destination_folder isPlain_stem
  obtain ⟨u, hu, hchanged, hopened, hnone, hws⟩ := exists_opened (hover _ hlog) hw
  rw [← hfolder] at hws
  rw [logPlace, ← hfolder] at hnone
  obtain ⟨v, hwrite, hnowrite, hagree, hwritten⟩ := exists_injected hm.folder_ne hws hnone x.output
  rw [← hm.log_eq] at hwrite
  rw [hfolder, ← logPlace] at hagree hwritten
  obtain ⟨hsout, hsafter⟩ := Runner.run_spawned (x := x) (s := started w (after c.creation s))
    (c.command_ne_nil w) hu
  obtain ⟨hiout, hiafter⟩ :
      outcome (x.injected.run (call c.options c.inputs w)) (started w (after c.creation s)) = _ ∧
        after (x.injected.run (call c.options c.inputs w)) (started w (after c.creation s)) = _ :=
    Runner.run_injected hwrite hnowrite
  have hspawned : (c.spawned x).left w s = _ := hsafter
  have hinjected : (c.injected x).left w s = _ := hiafter
  have hover := node?_overwrite (x.output.getD []) hopened
  rw [hlog, logPlace] at hspawned
  refine ⟨hsout, hiout, ?_, ?_, ?_, ?_⟩
  · rw [hspawned, hinjected]
  · intro q hq
    rw [hspawned, hinjected]
    exact (hover q).trans ((if_neg hq).trans ((hchanged q hq).trans (hagree q hq).symm))
  · rw [hspawned]
    exact (hover _).trans (if_pos rfl)
  · rw [hinjected]
    exact hwritten

/-- A discovery that starts a process, where another one calls a runner in its place. Only a scratch
folder that is retained may tell them apart, and only if there was no output. -/
structure StandsFor (c : Request) (x : Script) (s : RunState) : Prop where
  outcome_eq : outcome (c.injected x).run s = outcome (c.spawned x).run s
  state_eq : after (c.injected x).run s =
    { after (c.spawned x).run s with files := (after (c.injected x).run s).files }
  elsewhere : AgreeOff (c.logPlace s) (after (c.injected x).run s).files
    (after (c.spawned x).run s).files
  removed : (∃ e, outcome c.creation s = .error e) ∨ (c.spawned x).Completes s →
    (after (c.injected x).run s).files.node? (c.logPlace s) =
      (after (c.spawned x).run s).files.node? (c.logPlace s)
  retained : ∀ w, outcome c.creation s = .ok w → ¬(c.spawned x).Completes s →
    (after (c.spawned x).run s).files.node? (c.logPlace s) = some (.file (x.output.getD [])) ∧
      (after (c.injected x).run s).files.node? (c.logPlace s) = x.output.map .file

theorem standsFor_of_error {e : Interruption} (hw : outcome c.creation s = .error e) :
    StandsFor c x s := by
  have hspawned : after (c.spawned x).run s = after c.creation s := after_bind_error hw
  have hinjected : after (c.injected x).run s = after c.creation s := after_bind_error hw
  have houts : outcome (c.spawned x).run s = .error e := outcome_bind_error hw
  have houti : outcome (c.injected x).run s = .error e := outcome_bind_error hw
  constructor
  · rw [houts, houti]
  · rw [hspawned, hinjected]
  · intro q hq
    rw [hspawned, hinjected]
  · intro _
    rw [hspawned, hinjected]
  · intro w hok
    rw [hw] at hok
    cases hok

theorem after_run_of_download {ending : Download.Ending} (hw : outcome c.creation s = .ok w)
    (hd : c.download w s = .ok ending) :
    after c.run s =
      { c.left w s with
        diagnostics := (c.left w s).diagnostics ++
          closing c.options w (failure? c.options c.inputs w ending)
        files := (after c.run s).files } := by
  have hafter : after c.run s =
      after (resume c.options w (failure? c.options c.inputs w ending)) (c.left w s) :=
    (after_bind_ok hw).trans (findIn_of_ok hd).2
  rw [hafter]
  exact after_resume ..

theorem textAt_left (hw : outcome c.creation s = .ok w)
    (hws : (c.left w s).files.node? (c.workspace s) = some .folder)
    (hlog : (c.left w s).files.node? (c.logPlace s) ≠ some .folder) :
    textAt (c.left w s).files w.log =
      .ok (Text.Utf8.decode ((c.left w s).files.contentAt (c.logPlace s))) := by
  have hm := create_eq_ok isPlain_stem hw
  have hfolder : destination w.folder = c.workspace s := hm.destination_folder isPlain_stem
  rw [← hfolder] at hws
  rw [logPlace, ← hfolder] at hlog ⊢
  rw [hm.log_eq]
  exact textAt_log_of_folder hm.folder_ne hws hlog

theorem LeftAlike.folders (h : LeftAlike c x w s) :
    ((c.spawned x).left w s).files.node? (c.workspace s) = some .folder ∧
      ((c.injected x).left w s).files.node? (c.workspace s) = some .folder := by
  have hne : c.workspace s ≠ c.logPlace s := by simp [logPlace]
  have hsome : ((c.spawned x).left w s).files.node? (c.logPlace s) ≠ none := by
    rw [h.spawned_log]
    simp
  have hspawned : ((c.spawned x).left w s).files.node? (c.workspace s) = some .folder :=
    node?_parent hsome
  exact ⟨hspawned, (h.agree _ hne).symm.trans hspawned⟩

theorem LeftAlike.textAt_eq (h : LeftAlike c x w s) (hw : outcome c.creation s = .ok w) :
    textAt ((c.injected x).left w s).files w.log = textAt ((c.spawned x).left w s).files w.log := by
  obtain ⟨hspawned, hinjected⟩ := h.folders
  have hs : ((c.spawned x).left w s).files.node? (c.logPlace s) ≠ some .folder := by
    rw [h.spawned_log]
    simp
  have hi : ((c.injected x).left w s).files.node? (c.logPlace s) ≠ some .folder := by
    rw [h.injected_log]
    cases x.output <;> simp
  have hcontent : ((c.injected x).left w s).files.contentAt (c.logPlace s) =
      ((c.spawned x).left w s).files.contentAt (c.logPlace s) := by
    rw [contentAt, contentAt, file?, file?, h.injected_log, h.spawned_log]
    cases x.output <;> rfl
  have htexts := textAt_left (c := c.spawned x) hw hspawned hs
  have htexti := textAt_left (c := c.injected x) hw hinjected hi
  rw [htexts, htexti]
  exact congrArg (fun bytes => Except.ok (Text.Utf8.decode bytes)) hcontent

theorem LeftAlike.outcome_eq (h : LeftAlike c x w s) (hw : outcome c.creation s = .ok w) :
    outcome (c.injected x).run s = outcome (c.spawned x).run s := by
  have hspawned := (called_once (c := c.spawned x) hw).1.symm.trans h.spawned_ending
  have hinjected := (called_once (c := c.injected x) hw).1.symm.trans h.injected_ending
  rw [outcome_run_of_answer (c := c.spawned x) hw hspawned,
    outcome_run_of_answer (c := c.injected x) hw hinjected, verdict, verdict, h.textAt_eq hw]
  rfl

theorem LeftAlike.standsFor (h : LeftAlike c x w s) (hw : outcome c.creation s = .ok w) :
    StandsFor c x s := by
  have houtcome := h.outcome_eq hw
  have hspawned := after_run_of_download (c := c.spawned x) hw h.spawned_ending
  have hinjected := after_run_of_download (c := c.injected x) hw h.injected_ending
  have hcompletes : (c.injected x).Completes s ↔ (c.spawned x).Completes s := by
    rw [Completes, Completes, houtcome]
  have hfiless := after_run_of_folder (c := c.spawned x) hw h.folders.1
  have hfilesi := after_run_of_folder (c := c.injected x) hw h.folders.2
  rw [hcompletes] at hfilesi
  have hstate : after (c.injected x).run s =
      { after (c.spawned x).run s with files := (after (c.injected x).run s).files } := by
    rw [hinjected, hspawned, h.state_eq]
    rfl
  rcases hfiless with ⟨hdone, hs⟩ | ⟨hopen, hs⟩
  · rcases hfilesi with ⟨_, hi⟩ | ⟨hopen, _⟩
    · -- The place of the log goes with the scratch folder, and off it the files agree.
      have hall (q : Location) : (after (c.injected x).run s).files.node? q =
          (after (c.spawned x).run s).files.node? q := by
        have hworkspace : (c.injected x).workspace s = (c.spawned x).workspace s := rfl
        rw [hi, hs, hworkspace]
        split
        · rfl
        · rename_i hq
          refine (h.agree q ?_).symm
          rintro rfl
          exact hq (List.suffix_cons _ _)
      exact ⟨houtcome, hstate, fun q _ => hall q, fun _ => hall _, fun _ _ hn => absurd hdone hn⟩
    · exact absurd hdone hopen
  · rcases hfilesi with ⟨hdone, _⟩ | ⟨_, hi⟩
    · exact absurd hdone hopen
    · refine ⟨houtcome, hstate, ?_, ?_, ?_⟩
      · intro q hq
        rw [hi, hs, h.agree q hq]
      · rintro (⟨e, he⟩ | hdone)
        · rw [hw] at he
          cases he
        · exact absurd hdone hopen
      · intro _ _ _
        exact ⟨(hs _).trans h.spawned_log, (hi _).trans h.injected_log⟩

theorem standsFor (hover : ∀ call, destination call.log = c.logPlace s →
    Overlooks (x.change call) (c.logPlace s)) : StandsFor c x s := by
  cases hw : outcome c.creation s with
  | error e => exact standsFor_of_error hw
  | ok w => exact (leftAlike hover hw).standsFor hw

end Request

theorem runner_stands_for_process :
    (∀ (c : Request) (x : Script) (s : RunState),
      (∀ call, destination call.log = c.logPlace s →
        Overlooks (x.change call) (c.logPlace s)) → c.StandsFor x s) ∧
    (∀ (x : Script) (later : List Download.Ending) (call : Call),
      ({ x with later := later } : Script).spawned.run call = x.spawned.run call) ∧
    (∀ (x : Script) (call : Call) (s : RunState) (u : FileTree), call.command ≠ [] →
      s.files.write false call.log [] = .ok u →
      (∀ t, (x.change call t).node? (destination call.log) = t.node? (destination call.log)) →
        (after (x.spawned.run call) s).files.node? (destination call.log) =
          some (.file (x.output.getD []))) ∧
    (∀ (start : Call → FileTree → Child) (call : Call) (old : List UInt8) (s : RunState)
      (t : FileTree), s.files.write false call.log old = .ok t →
        outcome ((Runner.process start).run call) { s with files := t } =
          outcome ((Runner.process start).run call) s ∧
        after ((Runner.process start).run call) { s with files := t } =
          after ((Runner.process start).run call) s) ∧
    ∀ (d : Download) (start : Call → FileTree → Child) (log : String) (s : RunState) (u : FileTree),
      s.files.write false log [] = .ok u →
        outcome (d.attempt (.process start) log) s =
          ((Runner.process start).answer ⟨d.command, log⟩ u).map d.failure? ∧
        (after (d.attempt (.process start) log) s).calls = s.calls ++ [⟨d.command, log⟩] := by
  refine ⟨fun c x s => Request.standsFor, ?_, ?_, ?_, ?_⟩
  · intro x later call
    exact Runner.run_spawned_later x later
  · intro x call s u
    exact Runner.log_of_spawned
  · intro start call old s t
    exact Runner.run_process_over
  · intro d start log s u
    exact d.attempt_of_opened start

theorem runner_stands_for_process_of_failing :
    let c : Request :=
      ⟨⟨"tmp", [], false, true⟩, .direct fun _ t => (t, .ok (.ended none none)), ["in.txt"]⟩
    let x : Script :=
      ⟨fun _ => installAll [("tmp/find-builddeps-000001/wheel-1.0.tar.gz", [31, 139])],
        some (Text.Utf8.encode "  Collecting wheel"), .ended (some 1) none,
        [.notStarted "spawn ENOENT"]⟩
    let call : Call := ⟨["pip"], "log.txt"⟩
    let s : RunState := { files := .empty }
    c.StandsFor x s ∧
      (after (x.spawned.run call) s).files.node? ["log.txt"] =
        some (.file (Text.Utf8.encode "  Collecting wheel")) ∧
      (∃ t, s.files.write false "log.txt" [97] = .ok t ∧
        after (x.spawned.run call) { s with files := t } = after (x.spawned.run call) s) ∧
      (after (Download.attempt ⟨[], "tmp", [], false⟩ x.spawned "log.txt") s).calls =
        [⟨Download.command ⟨[], "tmp", [], false⟩, "log.txt"⟩] := by
  intro c x call s
  obtain ⟨hstands, _, hlog, hover, hstarts⟩ := runner_stands_for_process
  have havoids (p : Location) (h : Avoids "tmp/find-builddeps-000001/wheel-1.0.tar.gz" p)
      (b : Call) : Overlooks (x.change b) p := by
    apply overlooks_installAll
    rintro file hfile
    rw [List.mem_singleton.mp hfile]
    exact h
  have hdest : destination "log.txt" = ["log.txt"] := by decide +kernel
  have hwrite (bytes : List UInt8) : ∃ t, s.files.write false "log.txt" bytes = .ok t := ⟨_, rfl⟩
  obtain ⟨t, ht⟩ := hwrite [97]
  obtain ⟨u, hu⟩ := hwrite []
  refine ⟨hstands c x s ?_, ?_, ⟨t, ht, (hover _ call _ s t ht).2⟩, (hstarts _ _ _ s u hu).2⟩
  · intro b _
    exact havoids _ (by decide +kernel) b
  · rw [← hdest]
    exact hlog x call s u (by decide) hu (havoids _ (by decide +kernel) call).kept

end BuildRequirements.Discovery
