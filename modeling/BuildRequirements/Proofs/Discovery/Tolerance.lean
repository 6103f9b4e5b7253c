import BuildRequirements.Proofs.Discovery.Outcomes

namespace BuildRequirements.Discovery

open FileTree Run Scratch

namespace Request

def endingWith (c : Request) (ending : Download.Ending) : Request :=
  { c with runner := c.runner.endingWith ending }

variable {c : Request} {s : RunState} {w : Scratch} {e : Interruption} {ending : Download.Ending}
  {code : Option Int} {σ τ : Option String} {q : Location}

end Request

end BuildRequirements.Discovery
