import BuildRequirements.NameSet
import BuildRequirements.Text.Lines

namespace BuildRequirements.BuildLog

open Text

def announcement : List Char := "Collecting ".toList

/-- An environment marker begins at a semicolon and is no part of a requirement. -/
def isRequirementChar (c : Char) : Bool := !isBlank c && c != ';'

def collected? (line : List Char) : Option String :=
  if line.head?.any isBlank then
    (announcement.isPrefixOf? (line.dropWhile isBlank)).bind (leading? isRequirementChar)
  else none

def requirements (text : String) : NameSet :=
  NameSet.ofList ((lines text.toList).filterMap collected?)

theorem mem_requirements {r text : String} :
    r ∈ requirements text ↔ ∃ line ∈ lines text.toList, collected? line = some r := by
  simp [requirements]

end BuildRequirements.BuildLog
