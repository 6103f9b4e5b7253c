import BuildRequirements.Diagnostics
import BuildRequirements.Download.Command
import BuildRequirements.Files.Storage
import BuildRequirements.Text.Utf8

/-!
Runs: actions on files that keep a record of diagnostics, printed texts and downloader calls, and
that a fault may interrupt. What an interrupted run has done so far stays done.
-/

namespace BuildRequirements

structure Call where
  command : List String
  log : String
  deriving DecidableEq, Repr

structure RunState where
  files : FileTree
  scratchCount : Nat := 0
  diagnostics : List Diagnostic := []
  printed : List String := []
  calls : List Call := []

inductive Interruption where
  | fault (f : Fault)
  | thrown (message : String)
  deriving DecidableEq, Repr

def Interruption.message : Interruption → String
  | fault f => f.message
  | thrown message => message

abbrev Run := EStateM Interruption RunState

namespace Run

def reportAll (severity : Severity) (texts : List String) : Run Unit :=
  modify fun s => { s with diagnostics := s.diagnostics ++ texts.map (⟨severity, ·⟩) }

def report (severity : Severity) (text : String) : Run Unit :=
  reportAll severity [text]

def print (text : String) : Run Unit :=
  modify fun s => { s with printed := s.printed ++ [text] }

def record (call : Call) : Run Unit :=
  modify fun s => { s with calls := s.calls ++ [call] }

def setFiles (t : FileTree) : Run Unit :=
  modify fun s => { s with files := t }

def ofExcept {α : Type} : Except Fault α → Run α
  | .ok a => pure a
  | .error f => throw (.fault f)

def changeFiles {α : Type} (change : FileTree → FileTree × Except Fault α) : Run α := do
  let changed := change (← get).files
  setFiles changed.1
  ofExcept changed.2

def readText (path : String) : Run String := do
  match (← get).files.read path with
  | .ok bytes => return Text.Utf8.decode bytes
  | .error f => if f.cause = .missing then return "" else throw (.fault f)

def writeBytes (append : Bool) (path : String) (bytes : List UInt8) : Run Unit := do
  setFiles (← ofExcept ((← get).files.write append path bytes))

/-- Unlike `writeBytes`, which opens a file without regard to what the storage takes. -/
def write (append : Bool) (path text : String) (storage : Storage := .sound) : Run Unit :=
  changeFiles (storage.write append path (Text.Utf8.encode text))

end Run

end BuildRequirements
