import BuildRequirements.Proofs.Files.Overlooking
import BuildRequirements.Proofs.Runs.Runners

namespace BuildRequirements

open FileTree Run

structure Script where
  change : Call → FileTree → FileTree
  output : Option (List UInt8)
  first : Download.Ending
  later : List Download.Ending

namespace Script

def spawned (x : Script) : Runner :=
  .process fun call t => .ran (x.change call t) (x.output.getD []) x.first x.later

def injected (x : Script) : Runner :=
  .direct fun call t =>
    match x.output with
    | none => (x.change call t, .ok x.first)
    | some bytes =>
      match (x.change call t).write false call.log bytes with
      | .ok u => (u, .ok x.first)
      | .error f => (x.change call t, .error (.fault f))

end Script

namespace Runner

variable {x : Script} {bytes : List UInt8} {start : Call → FileTree → Child} {call : Call}
  {s : RunState} {t u : FileTree}

theorem run_spawned (hc : call.command ≠ []) (hw : s.files.write false call.log [] = .ok u) :
    outcome (x.spawned.run call) s = .ok x.first ∧
      after (x.spawned.run call) s =
        { s with
          files := (x.change call u).overwrite (destination call.log) (x.output.getD [])
          calls := s.calls ++ [call] } :=
  run_process hc hw

theorem log_of_spawned (hc : call.command ≠ []) (hw : s.files.write false call.log [] = .ok u)
    (hkept : ∀ t, (x.change call t).node? (destination call.log) = t.node? (destination call.log)) :
    (after (x.spawned.run call) s).files.node? (destination call.log) =
      some (.file (x.output.getD [])) := by
  have hempty := (hkept u).trans (node?_of_write hw)
  rw [(run_spawned hc hw).2]
  dsimp only
  generalize destination call.log = place at hempty ⊢
  cases place with
  | nil => cases hempty
  | cons name dir => rw [node?_overwrite _ hempty, if_pos rfl]

theorem run_injected (hw : ∀ bytes, x.output = some bytes →
      (x.change call s.files).write false call.log bytes = .ok u)
    (hu : x.output = none → u = x.change call s.files) :
    outcome (x.injected.run call) s = .ok x.first ∧
      after (x.injected.run call) s = { s with files := u, calls := s.calls ++ [call] } := by
  simp only [Script.injected, run, runDirect, outcome_bind, after_bind, outcome_record, after_record,
    outcome_get, after_get]
  cases ho : x.output with
  | none =>
    rw [hu ho]
    exact ⟨rfl, rfl⟩
  | some bytes =>
    simp only [hw bytes ho]
    exact ⟨rfl, rfl⟩

theorem run_process_over {old : List UInt8} (h : s.files.write false call.log old = .ok t) :
    outcome ((process start).run call) { s with files := t } = outcome ((process start).run call) s ∧
      after ((process start).run call) { s with files := t } =
        after ((process start).run call) s := by
  have hsame := write_of_write h []
  have hwritten : (s.files.write false call.log old).map (fun _ => ()) =
      (s.files.write false call.log []).map fun _ => () := write_congr (fun _ _ => rfl) false old []
  cases hw : s.files.write false call.log [] with
  | error f =>
    rw [h, hw] at hwritten
    cases hwritten
  | ok u =>
    have hout (v : FileTree) (hv : v.write false call.log [] = .ok u) :
        outcome (writeBytes false call.log []) { s with files := v } = .ok () := by
      rw [outcome_writeBytes, hv]
      rfl
    have hafter (v : FileTree) (hv : v.write false call.log [] = .ok u) :
        after (writeBytes false call.log []) { s with files := v } = { s with files := u } := by
      rw [after_writeBytes, hv]
    have hs : s = { s with files := s.files } := rfl
    rw [hs, run, runProcess, outcome_bind_ok (hout t (hsame.trans hw)),
      after_bind_ok (hout t (hsame.trans hw)), hafter t (hsame.trans hw),
      outcome_bind_ok (hout s.files hw), after_bind_ok (hout s.files hw), hafter s.files hw]
    exact ⟨rfl, rfl⟩

theorem run_spawned_later (x : Script) (later : List Download.Ending) :
    ({ x with later := later } : Script).spawned.run call = x.spawned.run call := by
  simp only [Script.spawned, run, runProcess, Child.settleAll_eq]

end Runner

namespace Download

theorem attempt_of_opened (d : Download) (start : Call → FileTree → Child) {log : String}
    {s : RunState} {u : FileTree} (hopen : s.files.write false log [] = .ok u) :
    outcome (d.attempt (.process start) log) s =
        ((Runner.process start).answer ⟨d.command, log⟩ u).map d.failure? ∧
      (after (d.attempt (.process start) log) s).calls = s.calls ++ [⟨d.command, log⟩] := by
  obtain ⟨hout, hcalls⟩ :
      outcome ((Runner.process start).run ⟨d.command, log⟩) s = _ ∧
        (after ((Runner.process start).run ⟨d.command, log⟩) s).calls = _ :=
    Runner.run_of_writable d.command_ne_nil hopen
  rw [attempt, outcome_bind, after_bind, hout]
  have hmeets : (Runner.process start).meets ⟨d.command, log⟩ s.files = u := by
    simp only [Runner.meets, hopen]
  rw [hmeets]
  cases (Runner.process start).answer ⟨d.command, log⟩ u with
  | error e => exact ⟨rfl, hcalls⟩
  | ok ending => exact ⟨rfl, hcalls⟩

end Download

end BuildRequirements
