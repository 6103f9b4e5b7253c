/-!
UTF-8. Reading never fails: each longest beginning of a character that is not continued, and each
byte that begins none, is read as one replacement character.
-/

namespace BuildRequirements.Text.Utf8

def encode (s : String) : List UInt8 :=
  s.toList.flatMap String.utf8EncodeChar

def replacement : Char := '\uFFFD'

/-- Between two characters, or inside one: the next byte is at least `0x80 + above` and at most
`high`, `further` bytes follow it, and `value` is what the bytes so far stand for. -/
inductive State where
  | between
  | inside (above high further value : Nat)
  deriving DecidableEq, Repr

def start (b : Nat) : List Char × State :=
  if b < 0x80 then ([Char.ofNat b], .between)
  else if b < 0xC2 then ([replacement], .between)
  else if b < 0xE0 then ([], .inside 0 0xBF 0 (b - 0xC0))
  else if b < 0xF0 then
    ([], .inside (if b = 0xE0 then 0x20 else 0) (if b = 0xED then 0x9F else 0xBF) 1 (b - 0xE0))
  else if b < 0xF5 then
    ([], .inside (if b = 0xF0 then 0x10 else 0) (if b = 0xF4 then 0x8F else 0xBF) 2 (b - 0xF0))
  else ([replacement], .between)

def feed : State → Nat → List Char × State
  | .between, b => start b
  | .inside above high further value, b =>
    if 0x80 + above ≤ b ∧ b ≤ high then
      match further with
      | 0 => ([Char.ofNat (value * 64 + (b - 0x80))], .between)
      | n + 1 => ([], .inside 0 0xBF n (value * 64 + (b - 0x80)))
    else
      (replacement :: (start b).1, (start b).2)

def State.flush : State → List Char
  | .between => []
  | .inside .. => [replacement]

def decodeFrom : State → List UInt8 → List Char
  | s, [] => s.flush
  | s, b :: bs => (feed s b.toNat).1 ++ decodeFrom (feed s b.toNat).2 bs

def decode (bytes : List UInt8) : String :=
  String.ofList (decodeFrom .between bytes)

def isValid (bytes : List UInt8) : Bool :=
  encode (decode bytes) == bytes

end BuildRequirements.Text.Utf8
