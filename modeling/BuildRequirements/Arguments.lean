namespace BuildRequirements

structure Arguments where
  inputs : List String := []
  output : Option String := none
  append : Bool := false
  noCache : Bool := false
  ignoreErrors : Bool := false
  onlyChanges : Bool := false
  help : Bool := false
  deriving DecidableEq, Repr

namespace Arguments

inductive Misuse where
  | missingValue (option : String)
  | unknownOption (word : String)
  | noInputs
  | gateWithoutOutput
  deriving DecidableEq, Repr

def Misuse.message : Misuse → String
  | missingValue option => option ++ " requires a value"
  | unknownOption word => "Unknown option: " ++ word
  | noInputs => "at least one REQUIREMENTS_FILE is required"
  | gateWithoutOutput => "--only-write-on-update requires an output-file (-o/--output-file)."

inductive Flag where
  | append
  | noCache
  | ignoreErrors
  | onlyChanges
  deriving DecidableEq, Repr

def set (a : Arguments) : Flag → Arguments
  | .append => { a with append := true }
  | .noCache => { a with noCache := true }
  | .ignoreErrors => { a with ignoreErrors := true }
  | .onlyChanges => { a with onlyChanges := true }

inductive Word where
  | input (text : String)
  | flag (f : Flag)
  | help (append : Bool)
  | output (append : Bool) (value : String)
  | outputNext (append : Bool) (option : String)
  | inputsFollow
  | misuse (m : Misuse)
  deriving DecidableEq, Repr

/-- Short flags in one word, of which `o` takes the rest of the word or the next word. A word that ends
here has held nothing but `a`. -/
def Word.ofShort (word : String) (append : Bool) : List Char → Word
  | [] => .flag .append
  | ['o'] => .outputNext append "-o"
  | c :: cs =>
    if c = 'a' then ofShort word true cs
    else if c = 'h' then .help append
    else if c = 'o' then .output append (String.ofList cs)
    else .misuse (.unknownOption word)

def Word.ofLong (word : String) : Word :=
  match word with
  | "--" => .inputsFollow
  | "--help" => .help false
  | "--output-file" => .outputNext false word
  | "--append" => .flag .append
  | "--no-cache" => .flag .noCache
  | "--ignore-errors" => .flag .ignoreErrors
  | "--only-write-on-update" => .flag .onlyChanges
  | _ =>
    match "--output-file=".toList.isPrefixOf? word.toList with
    | some [] => .misuse (.missingValue "--output-file")
    | some value => .output false (String.ofList value)
    | none => .misuse (.unknownOption word)

def isOption (word : String) : Bool :=
  match word.toList with
  | '-' :: _ :: _ => true
  | _ => false

def Word.ofString (word : String) : Word :=
  match word.toList with
  | '-' :: '-' :: _ => ofLong word
  | '-' :: c :: cs => ofShort word false (c :: cs)
  | _ => .input word

def checkGate (onlyChanges : Bool) (output : Option String) : Except Misuse Unit :=
  if onlyChanges && output.isNone then .error .gateWithoutOutput else .ok ()

def check (a : Arguments) : Except Misuse Arguments :=
  if a.inputs.isEmpty then .error .noInputs
  else (checkGate a.onlyChanges a.output).map fun _ => a

def addAppend (a : Arguments) (append : Bool) : Arguments :=
  { a with append := a.append || append }

def read (a : Arguments) : List String → Except Misuse Arguments
  | [] => a.check
  | w :: ws =>
    match Word.ofString w with
    | .input text => read { a with inputs := a.inputs ++ [text] } ws
    | .flag f => read (a.set f) ws
    | .help append => .ok { a.addAppend append with help := true }
    | .output append value => read { a.addAppend append with output := some value } ws
    | .outputNext append option =>
      match ws with
      | [] => .error (.missingValue option)
      | value :: ws =>
        if isOption value then .error (.missingValue option)
        else read { a.addAppend append with output := some value } ws
    | .inputsFollow => check { a with inputs := a.inputs ++ ws }
    | .misuse m => .error m

def parse (ws : List String) : Except Misuse Arguments :=
  read {} ws

end Arguments

end BuildRequirements
