import BuildRequirements.BuildLog
import BuildRequirements.Download.Runner
import BuildRequirements.Scratch

namespace BuildRequirements

def generator : String := "find-builddeps"

structure Discovery where
  names : NameSet
  isPartial : Bool
  retained : Option String
  deriving DecidableEq

namespace Discovery

structure Options where
  scratchRoot : String
  downloader : List String := ["pip"]
  noCache : Bool := false
  ignoreErrors : Bool := false
  deriving DecidableEq, Repr

inductive Failure where
  | unavailable (cause : Download.Failure) (log : String)
  | failed (log : String)
  deriving DecidableEq, Repr

namespace Failure

def message : Failure → String
  | unavailable cause _ => cause.message
  | failed log => "Pip download failed, see " ++ log ++ " for more info"

def log : Failure → String
  | unavailable _ log => log
  | failed log => log

end Failure

def judge (ignoreErrors : Bool) (log : String) : Option Download.Failure → Except Failure Bool
  | none => .ok false
  | some (.notStarted program reason) => .error (.unavailable (.notStarted program reason) log)
  | some _ => if ignoreErrors then .ok true else .error (.failed log)

def conclude (w : Scratch) (isPartial : Bool) (storage : Storage := .sound) : Run Discovery := do
  Run.report .info "Looking for build dependencies in the output of pip download"
  let names := BuildLog.requirements (← Run.readText w.log)
  if isPartial then return ⟨names, true, some w.folder⟩
  w.release storage
  return ⟨names, false, none⟩

def find (o : Options) (runner : Runner) (inputs : List String) (storage : Storage := .sound) :
    Run (Except Failure Discovery) := do
  let w ← Scratch.create o.scratchRoot (generator ++ "-")
  Run.report .debug ("Scratch workspace: " ++ w.folder)
  Run.report .info "Running pip download, this may take a while"
  let d : Download := ⟨o.downloader, w.folder, inputs, o.noCache⟩
  match judge o.ignoreErrors w.log (← d.attempt runner w.log) with
  | .error f => return .error f
  | .ok isPartial =>
    if isPartial then
      Run.report .error (Failure.failed w.log).message
      Run.report .warning "Ignoring error..."
    return .ok (← conclude w isPartial storage)

end Discovery

end BuildRequirements
