namespace BuildRequirements

structure Download where
  downloader : List String
  folder : String
  inputs : List String
  noCache : Bool
  deriving DecidableEq, Repr

namespace Download

def options : List String := ["--no-binary", ":all:", "--use-pep517", "--verbose"]

def command (d : Download) : List String :=
  d.downloader ++ ["download", "-d", d.folder] ++ options ++
    (if d.noCache then ["--no-cache-dir"] else []) ++ d.inputs.flatMap fun f => ["-r", f]

def program (d : Download) : String :=
  d.downloader.headD "download"

theorem head?_command (d : Download) : d.command.head? = some d.program := by
  cases hd : d.downloader <;> simp [command, program, hd]

theorem command_ne_nil (d : Download) : d.command ≠ [] := by
  intro he
  have hhead := d.head?_command
  rw [he] at hhead
  cases hhead

inductive Ending where
  | ended (code : Option Int) (signal : Option String)
  | notStarted (reason : String)
  deriving DecidableEq, Repr

inductive Failure where
  | notStarted (program reason : String)
  | exited (code : Int)
  | killed (signal : Option String)
  deriving DecidableEq, Repr

namespace Failure

def message : Failure → String
  | notStarted program reason => "Could not start " ++ program ++ ": " ++ reason
  | exited code => "pip download exited with code " ++ toString code
  | killed signal => "pip download was terminated by " ++ signal.getD "a signal"

def exitCode : Failure → Option Int
  | exited code => some code
  | _ => none

end Failure

def failure? (d : Download) : Ending → Option Failure
  | .notStarted reason => some (.notStarted d.program reason)
  | .ended none signal => some (.killed signal)
  | .ended (some code) _ => if code = 0 then none else some (.exited code)

end Download

end BuildRequirements
