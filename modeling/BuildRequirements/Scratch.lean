import BuildRequirements.Run

/-!
Scratch folders. Each is named by a stem and a number, and no number is given twice.
-/

namespace BuildRequirements

structure Scratch where
  folder : String
  log : String
  deriving DecidableEq, Repr

namespace Scratch

def logName : String := "pip-download-output.txt"

def numeral (n : Nat) : String :=
  String.ofList ((Nat.toDigits 10 n).leftpad 6 '0')

def place (t : FileTree) (template : String) : Except Fault (Location × String) :=
  match t.enter [] (Path.parts template).dropLast with
  | .ok dir => .ok (dir, (Path.parts template).getLastD "")
  | .error cause => .error ⟨cause, .makeScratch template⟩

/-- Makes the root folder if it is missing, and a folder in it that is named by `stem` and the next
number. The folder is made under a name that is chosen at random, and then renamed. A rename replaces an
empty folder, so that one which has the name already is taken over; anything else is in the way. -/
def create (root stem : String) : Run Scratch := do
  let _ ← Run.changeFiles fun t => t.makeFolders root
  let template := Path.join root stem
  let s ← get
  let p ← Run.ofExcept (place s.files template)
  let n := s.scratchCount + 1
  let name := p.2 ++ numeral n
  if s.files.isVacant (name :: p.1) then
    set { s with files := s.files.put name p.1 .folder, scratchCount := n }
    let folder := template ++ numeral n
    return ⟨folder, Path.join folder logName⟩
  else throw (.fault ⟨.alreadyThere, .makeScratch template⟩)

def release (w : Scratch) (storage : Storage := .sound) : Run Unit :=
  Run.changeFiles (storage.remove w.folder)

end Scratch

end BuildRequirements
