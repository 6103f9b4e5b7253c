import BuildRequirements.NameSet

namespace BuildRequirements

open Text

inductive Verdict where
  | write
  | nothingNew
  | unchanged
  deriving DecidableEq, Repr

structure Policy where
  append : Bool
  onlyChanges : Bool
  deriving DecidableEq, Repr

structure Update where
  names : List String
  verdict : Verdict
  deriving DecidableEq, Repr

abbrev Cells := List (List String)

namespace Cells

def read (i : Nat) : StateM Cells (List String) :=
  return (← get).getD i []

def add (names : List String) : StateM Cells Nat :=
  modifyGet fun cells => (cells.length, cells ++ [names])

def sort (i : Nat) : StateM Cells Unit :=
  modify fun cells => cells.modify i CodeUnits.sort

end Cells

namespace Update

def effective (append : Bool) (found : List String) (recorded : NameSet) : List String :=
  CodeUnits.sort (if append then found.filter (· ∉ recorded) else found)

def verdictOn (p : Policy) (names : List String) (recorded : NameSet) : Verdict :=
  if !p.onlyChanges then .write
  else if names.isEmpty then .nothingNew
  else if !p.append && recorded.hasMembers names then .unchanged
  else .write

/-- The names are picked into a cell of their own to be sorted, so that the list that was found stays
as it is. -/
def decideIn (p : Policy) (found : Nat) (recorded : NameSet) : StateM Cells (Nat × Verdict) := do
  let names ← Cells.read found
  let picked ← Cells.add (if p.append then names.filter (· ∉ recorded) else names)
  Cells.sort picked
  return (picked, verdictOn p (← Cells.read picked) recorded)

def decide (p : Policy) (found : List String) (recorded : NameSet) : Update :=
  let ((picked, verdict), cells) := (decideIn p 0 recorded).run [found]
  ⟨cells.getD picked [], verdict⟩

theorem decide_eq (p : Policy) (found : List String) (recorded : NameSet) :
    decide p found recorded =
      ⟨effective p.append found recorded,
        verdictOn p (effective p.append found recorded) recorded⟩ :=
  rfl

end Update

end BuildRequirements
