import BuildRequirements.Download.Runner
import BuildRequirements.Proofs.Files.Changes
import BuildRequirements.Proofs.Runs.After

namespace BuildRequirements

open FileTree Run

namespace Run

variable {q : Location} {path : String}

theorem keeps_writeBytes {append : Bool} {bytes : List UInt8} (hq : q ≠ destination path) :
    Keeps (fun s => s.files.node? q) (writeBytes append path bytes) := by
  intro s
  simp only [after_writeBytes]
  cases h : s.files.write append path bytes with
  | error f => rfl
  | ok t => exact ((write_eq_ok h).2.2 q).trans (if_neg hq)

theorem keeps_readText {γ : Type} (view : RunState → γ) (path : String) :
    Keeps view (readText path) :=
  keeps_of_after (after_readText path)

end Run

namespace FileTree

theorem node?_overwrite_of_ne {t : FileTree} {p q : Location} (bytes : List UInt8) (h : q ≠ p) :
    (t.overwrite p bytes).node? q = t.node? q := by
  unfold overwrite
  split
  · exact node?_put_of_ne _ h
  · rfl

theorem node?_overwrite {t : FileTree} {name : String} {dir : Location} (bytes : List UInt8)
    (h : t.node? (name :: dir) = some (.file [])) (q : Location) :
    (t.overwrite (name :: dir) bytes).node? q =
      if q = name :: dir then some (.file bytes) else t.node? q := by
  have hsome : t.node? (name :: dir) ≠ none := by simp [h]
  have hdir : t.node? dir = some .folder := node?_parent hsome
  simp only [overwrite, h]
  rw [node?_put _ hdir (by simp [h]), List.drop_nil, List.append_nil]

end FileTree

namespace Child

def files : Child → FileTree
  | failed files _ => files
  | ran files _ _ _ => files

theorem settleAll_eq (first : Download.Ending) (later : List Download.Ending) :
    settleAll first later = first := by
  rw [settleAll, settle]
  induction later with
  | nil => rfl
  | cons report later ih => exact ih

end Child

namespace Runner

def KeepsAt (r : Runner) (call : Call) (q : Location) : Prop :=
  match r with
  | direct act => ∀ t, (act call t).1.node? q = t.node? q
  | process start => ∀ t, (start call t).files.node? q = t.node? q

/-- A downloader that changes nothing but what is below the folder of its log. -/
def IsConfined (r : Runner) : Prop :=
  ∀ call q, Location.isAbove (destination call.log).tail q = false → r.KeepsAt call q

variable {r : Runner} {call : Call} {q : Location}

theorem keeps_node?_run (hk : r.KeepsAt call q) (hq : q ≠ destination call.log) :
    Keeps (fun s => s.files.node? q) (r.run call) := by
  cases r with
  | direct act =>
    intro s
    simp only [run, runDirect, after_bind, outcome_record, after_record, outcome_get, after_get,
      outcome_setFiles, after_setFiles]
    cases (act call s.files).2 with
    | ok ending => exact hk s.files
    | error i => exact hk s.files
  | process start =>
    apply keeps_bind (keeps_writeBytes hq)
    intro _ s
    dsimp only
    split
    · rfl
    · simp only [after_bind, outcome_get, after_get, outcome_record, after_record]
      have hc := hk s.files
      cases hs : start call s.files with
      | failed changed why =>
        rw [hs] at hc
        exact hc
      | ran changed output first later =>
        rw [hs] at hc
        cases hl : s.files.locate call.log with
        | error cause => exact hc
        | ok p =>
          rw [← locate_eq_ok hl] at hq
          exact (node?_overwrite_of_ne output hq).trans hc

theorem keeps_printed_run (r : Runner) (call : Call) : Keeps RunState.printed (r.run call) := by
  cases r with
  | direct act =>
    intro s
    simp only [run, runDirect, after_bind, outcome_record, after_record, outcome_get, after_get,
      outcome_setFiles, after_setFiles]
    cases (act call s.files).2 <;> rfl
  | process start =>
    refine keeps_bind (fun s => ?_) fun _ s => ?_
    · rw [after_writeBytes]
      cases s.files.write false call.log [] <;> rfl
    · dsimp only
      split
      · rfl
      · simp only [after_bind, outcome_get, after_get, outcome_record, after_record]
        cases start call s.files with
        | failed changed why => rfl
        | ran changed output first later =>
          cases s.files.locate call.log <;> rfl

def meets (r : Runner) (call : Call) (t : FileTree) : FileTree :=
  match r, t.write false call.log [] with
  | process _, .ok u => u
  | _, _ => t

def answer (r : Runner) (call : Call) (t : FileTree) : Except Interruption Download.Ending :=
  match r with
  | direct act => (act call t).2
  | process start =>
    match start call t with
    | .failed _ why => .error why
    | .ran _ _ first _ => .ok first

theorem run_process {start : Call → FileTree → Child} {s : RunState} {u : FileTree}
    (hc : call.command ≠ []) (hw : s.files.write false call.log [] = .ok u) :
    outcome ((process start).run call) s =
        (match start call u with
          | .failed _ why => .error why
          | .ran _ _ first _ => .ok first) ∧
      after ((process start).run call) s =
        { s with
          files :=
            match start call u with
            | .failed changed _ => changed
            | .ran changed output _ _ => changed.overwrite (destination call.log) output
          calls := s.calls ++ [call] } := by
  have hopen : outcome (writeBytes false call.log []) s = .ok () := by
    rw [outcome_writeBytes, hw]
    rfl
  have hopened : after (writeBytes false call.log []) s = { s with files := u } := by
    rw [after_writeBytes, hw]
  rw [run, runProcess, outcome_bind_ok hopen, after_bind_ok hopen, hopened]
  dsimp only
  rw [if_neg hc]
  simp only [outcome_bind, after_bind, outcome_get, after_get, outcome_record, after_record]
  cases start call u with
  | failed changed why => exact ⟨rfl, rfl⟩
  | ran changed output first later =>
    simp only [Child.settleAll_eq, locate_of_write hw]
    exact ⟨rfl, rfl⟩

theorem run_of_writable {s : RunState} {u : FileTree} (hc : call.command ≠ [])
    (hw : s.files.write false call.log [] = .ok u) :
    outcome (r.run call) s = r.answer call (r.meets call s.files) ∧
      (after (r.run call) s).calls = s.calls ++ [call] := by
  cases r with
  | direct act =>
    simp only [run, runDirect, outcome_bind, after_bind, outcome_record, after_record, outcome_get,
      after_get, outcome_setFiles, after_setFiles, answer, meets]
    cases (act call s.files).2 with
    | ok ending => exact ⟨rfl, rfl⟩
    | error i => exact ⟨rfl, rfl⟩
  | process start =>
    rw [(run_process hc hw).1, (run_process hc hw).2]
    simp only [answer, meets, hw, and_self]

def endingWith (r : Runner) (ending : Download.Ending) : Runner :=
  match r with
  | direct act => direct fun call t => ((act call t).1, (act call t).2.map fun _ => ending)
  | process start => process fun call t =>
    match start call t with
    | .failed files why => .failed files why
    | .ran files output _ later => .ran files output ending later

def writing (log : String) (ending : Download.Ending) : Runner :=
  direct fun call t =>
    match t.write false call.log (Text.Utf8.encode log) with
    | .ok u => (u, .ok ending)
    | .error f => (t, .error (.fault f))

theorem isConfined_writing (log : String) (ending : Download.Ending) :
    (writing log ending).IsConfined := by
  intro call q hq t
  dsimp only
  cases h : t.write false call.log (Text.Utf8.encode log) with
  | error f => rfl
  | ok u =>
    obtain ⟨_, hfolder, hnode⟩ := write_eq_ok h
    refine (hnode q).trans (if_neg ?_)
    rintro rfl
    cases hd : destination call.log with
    | nil => exact hfolder (by rw [hd]; rfl)
    | cons name dir => simp [Location.isAbove, hd] at hq

end Runner

end BuildRequirements
