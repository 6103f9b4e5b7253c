import BuildRequirements.Run

/-!
Runners, which carry out the downloader's command with its output in a log file: directly, or by
starting a process.
-/

namespace BuildRequirements

/-- What comes of starting a process: it changes files, writes output, and ends, which is reported at
least once. Starting it may also fail, with some files changed and nothing written. -/
inductive Child where
  | failed (files : FileTree) (why : Interruption)
  | ran (files : FileTree) (output : List UInt8) (first : Download.Ending)
      (later : List Download.Ending)

namespace Child

def settle (settled : Option Download.Ending) (report : Download.Ending) : Download.Ending :=
  match settled with
  | none => report
  | some ending => ending

def settleAll (first : Download.Ending) (later : List Download.Ending) : Download.Ending :=
  later.foldl (fun ending report => settle (some ending) report) (settle none first)

end Child

inductive Runner where
  | direct (act : Call → FileTree → FileTree × Except Interruption Download.Ending)
  /-- The log is emptied before the process starts, and takes its output from the beginning on. -/
  | process (start : Call → FileTree → Child)

namespace Runner

def runDirect (act : Call → FileTree → FileTree × Except Interruption Download.Ending)
    (call : Call) : Run Download.Ending := do
  Run.record call
  let done := act call (← get).files
  Run.setFiles done.1
  match done.2 with
  | .ok ending => return ending
  | .error i => throw i

def runProcess (start : Call → FileTree → Child) (call : Call) : Run Download.Ending := do
  Run.writeBytes false call.log []
  if call.command = [] then return .notStarted "Empty command"
  let files := (← get).files
  Run.record call
  match start call files with
  | .failed changed why =>
    Run.setFiles changed
    throw why
  | .ran changed output first later =>
    match files.locate call.log with
    | .ok p => Run.setFiles (changed.overwrite p output)
    | .error _ => Run.setFiles changed
    return Child.settleAll first later

def run : Runner → Call → Run Download.Ending
  | direct act => runDirect act
  | process start => runProcess start

end Runner

def Download.attempt (d : Download) (runner : Runner) (log : String) :
    Run (Option Download.Failure) := do
  return d.failure? (← runner.run ⟨d.command, log⟩)

end BuildRequirements
