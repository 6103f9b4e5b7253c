import BuildRequirements.Proofs.Discovery.Tolerance
import BuildRequirements.Proofs.Program.Repetition

namespace BuildRequirements.Program

open FileTree Run Text
open Discovery (Request)

def endingWith (i : Invocation) (ending : Download.Ending) : Invocation :=
  { i with runner := i.runner.endingWith ending }

variable {i : Invocation} {a : Arguments} {s : RunState} {d : Discovery} {known : NameSet}
  {path : String}

section Decides

def decision (i : Invocation) (a : Arguments) (d : Discovery) (known : NameSet) : Option String :=
  if (update a d known).verdict = .write then some (content i a d known) else none

end Decides

section Parallel

variable {j : Invocation} {names : NameSet} {folder : String}

theorem outcome_run_of_throw {e : Interruption} (ha : Proceeds i a) (hfound : found i a s = .error e) :
    outcome (run i) s = .error e :=
  (run_of_proceeds ha).1.trans (outcome_bind_error hfound)

end Parallel

end BuildRequirements.Program
