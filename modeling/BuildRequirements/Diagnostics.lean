namespace BuildRequirements

inductive Severity where
  | debug
  | info
  | warning
  | error
  deriving DecidableEq, Repr

namespace Severity

def all : List Severity := [debug, info, warning, error]

def rank : Severity → Nat
  | debug => 0
  | info => 1
  | warning => 2
  | error => 3

def keyword : Severity → String
  | debug => "debug"
  | info => "info"
  | warning => "warn"
  | error => "error"

def ofKeyword? (word : String) : Option Severity :=
  all.find? fun s => s.keyword == word

def label : Severity → String
  | debug => "DEBUG"
  | info => "INFO"
  | warning => "WARNING"
  | error => "ERROR"

def color : Severity → Nat
  | debug => 90
  | info => 36
  | warning => 33
  | error => 31

end Severity

structure Diagnostic where
  severity : Severity
  text : String
  deriving DecidableEq, Repr

structure Display where
  threshold : Severity := .info
  wantsColor : Bool := true
  hasColor : Bool := false
  deriving DecidableEq, Repr

namespace Display

def shows (d : Display) (n : Diagnostic) : Bool :=
  d.threshold.rank ≤ n.severity.rank

def label (d : Display) (s : Severity) : String :=
  if d.wantsColor && d.hasColor then
    "\x1b[" ++ toString s.color ++ "m" ++ s.label ++ "\x1b[39m"
  else s.label

def line (d : Display) (n : Diagnostic) : String :=
  d.label n.severity ++ ": " ++ n.text

def lines (d : Display) (ns : List Diagnostic) : List String :=
  (ns.filter d.shows).map d.line

def text (d : Display) (ns : List Diagnostic) : String :=
  String.join ((d.lines ns).map (· ++ "\n"))

end Display

end BuildRequirements
