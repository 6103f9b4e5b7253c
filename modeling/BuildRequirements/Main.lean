import BuildRequirements.Program

/-!
The command line. It starts no processes, so that its downloader counts as one that cannot be
started, and it works on an empty tree of files.
-/

namespace BuildRequirements.Program

def noProcess : Runner :=
  .process fun _ files => .ran files [] (.notStarted "processes cannot be started here") []

def readVariables : List String :=
  [Settings.downloaderVariable, Settings.scratchVariable, Settings.thresholdVariable]

end BuildRequirements.Program

open BuildRequirements in
def main (args : List String) : IO UInt32 := do
  let values ← Program.readVariables.mapM fun name => return (name, ← IO.getEnv name)
  let invocation : Invocation :=
    { arguments := args
      environment := fun name => (values.lookup name).join
      temporary := (← IO.getEnv "TMPDIR").getD "/tmp"
      clock := ⟨none, 0⟩
      runner := Program.noProcess }
  let (result, _) := Program.execute invocation false { files := .empty }
  IO.print result.output
  IO.eprint result.errors
  return result.exitCode.toUInt32
