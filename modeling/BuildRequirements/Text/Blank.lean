namespace BuildRequirements.Text

def blankRanges : List (Nat × Nat) :=
  [(0x09, 0x0D), (0x20, 0x20), (0xA0, 0xA0), (0x1680, 0x1680), (0x2000, 0x200A),
    (0x2028, 0x2029), (0x202F, 0x202F), (0x205F, 0x205F), (0x3000, 0x3000), (0xFEFF, 0xFEFF)]

def isBlank (c : Char) : Bool :=
  blankRanges.any fun r => r.1 ≤ c.toNat && c.toNat ≤ r.2

def pieces : List Char → List (List Char)
  | [] => [[]]
  | c :: cs =>
    if isBlank c then
      if cs.head?.any isBlank then pieces cs else [] :: pieces cs
    else (pieces cs).modifyHead (c :: ·)

theorem pieces_ne_nil (cs : List Char) : pieces cs ≠ [] := by
  fun_induction pieces cs with
  | case1 => simp
  | case2 c cs hc hd ih => exact ih
  | case3 c cs hc hd ih => simp
  | case4 c cs hc ih => simpa using ih

def trim (s : String) : String :=
  String.ofList ((s.toList.dropWhile isBlank).reverse.dropWhile isBlank).reverse

end BuildRequirements.Text
