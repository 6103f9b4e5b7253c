import BuildRequirements.Calendar.Clock
import BuildRequirements.NameSet
import BuildRequirements.Text.Lines

namespace BuildRequirements

open Text

structure Listing where
  generator : String
  clock : Calendar.Clock
  names : List String
  isPartial : Bool

namespace Listing

def emptyMarker : String := "# <no build dependencies found>"

def partialMarker : String := "# <pip download failed, output may be incomplete!>"

def header (l : Listing) : String :=
  "# Generated by " ++ l.generator ++ " on " ++ l.clock.text

def body (l : Listing) : List String :=
  match l.names with
  | [] => [emptyMarker]
  | names => CodeUnits.sort names

def lines (l : Listing) : List String :=
  l.header :: l.body ++ if l.isPartial then [partialMarker] else []

def text (l : Listing) : String :=
  "\n".intercalate l.lines

def isNameChar (c : Char) : Bool := !isBlank c && c != '#' && c != ';'

def name? (line : List Char) : Option String :=
  leading? isNameChar line

def recorded (text : String) : NameSet :=
  NameSet.ofList ((Text.lines text.toList).filterMap name?)

end Listing

end BuildRequirements
