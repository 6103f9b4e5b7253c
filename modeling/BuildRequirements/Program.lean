import BuildRequirements.Arguments
import BuildRequirements.Discovery
import BuildRequirements.Listing
import BuildRequirements.Settings
import BuildRequirements.Update
import BuildRequirements.Usage

namespace BuildRequirements

inductive ExitCode where
  | success
  | discoveryFailed
  | misused
  deriving DecidableEq, Repr

def ExitCode.number : ExitCode → Nat
  | success => 0
  | discoveryFailed => 1
  | misused => 2

structure Invocation where
  arguments : List String
  environment : Environment
  temporary : String
  clock : Calendar.Clock
  runner : Runner

namespace Program

def deliver (content : String) (output : Option String) (append : Bool)
    (storage : Storage := .sound) : Run Unit :=
  match output with
  | none => Run.print (content ++ "\n")
  | some path => Run.write append path (content ++ "\n") storage

def recorded (a : Arguments) : Run NameSet :=
  match a.output, a.onlyChanges with
  | some path, true => return Listing.recorded (← Run.readText path)
  | _, _ => return NameSet.empty

def conclude (a : Arguments) (clock : Calendar.Clock) (found : Discovery)
    (storage : Storage := .sound) : Run ExitCode := do
  let u := Update.decide ⟨a.append, a.onlyChanges⟩ found.names.toList (← recorded a)
  if u.verdict = .write then
    let listing : Listing := ⟨generator, clock, u.names, found.isPartial⟩
    Run.report .info "Make sure to pip-compile the output before using it"
    if found.isPartial then
      Run.report .warning "Pip download failed, output may be incomplete!"
    deliver listing.text a.output a.append storage
  else
    Run.report .info "No new build dependencies found."
  return .success

def discoverWith (i : Invocation) (settings : Settings) (a : Arguments)
    (storage : Storage := .sound) : Run ExitCode := do
  Run.report .info
    "Please make sure the input files meet the requirements of this script (see --help)"
  let options : Discovery.Options :=
    ⟨settings.scratchRoot, settings.downloader, a.noCache, a.ignoreErrors⟩
  match ← Discovery.find options i.runner a.inputs storage with
  | .error f =>
    Run.report .error f.message
    return .discoveryFailed
  | .ok found => conclude a i.clock found storage

def settings (i : Invocation) : Settings :=
  Settings.ofEnvironment i.temporary i.environment

def run (i : Invocation) (storage : Storage := .sound) : Run ExitCode := do
  Run.reportAll .warning (settings i).warnings
  match Arguments.parse i.arguments with
  | .error m =>
    Run.report .error (m.message ++ " (see --help)")
    return .misused
  | .ok a =>
    if a.help then
      Run.print (usage ++ "\n")
      return .success
    else discoverWith i (settings i) a storage

def display (i : Invocation) (hasColor : Bool) : Display :=
  { threshold := (settings i).threshold, hasColor := hasColor }

structure Result where
  exitCode : Nat
  output : String
  errors : String
  deriving DecidableEq, Repr

def execute (i : Invocation) (hasColor : Bool) (s : RunState) (storage : Storage := .sound) :
    Result × RunState :=
  let shown (t : RunState) := (display i hasColor).text t.diagnostics
  match (run i storage).run s with
  | .ok code t => (⟨code.number, String.join t.printed, shown t⟩, t)
  | .error e t =>
    (⟨ExitCode.discoveryFailed.number, String.join t.printed,
      shown t ++ "ERROR: " ++ e.message ++ "\n"⟩, t)

end Program

end BuildRequirements
