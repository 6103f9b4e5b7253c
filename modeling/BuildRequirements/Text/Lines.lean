import BuildRequirements.Text.Blank

namespace BuildRequirements.Text

def isBreak (c : Char) : Bool := c == '\r' || c == '\n'

def lines : List Char → List (List Char)
  | [] => [[]]
  | '\r' :: '\n' :: cs => [] :: lines cs
  | c :: cs => if isBreak c then [] :: lines cs else (lines cs).modifyHead (c :: ·)

theorem lines_ne_nil (cs : List Char) : lines cs ≠ [] := by
  fun_cases lines cs with
  | case1 => simp
  | case2 => simp
  | case3 c cs h hb => simp
  | case4 c cs h hb => simpa using lines_ne_nil cs

def leading? (accept : Char → Bool) (cs : List Char) : Option String :=
  match cs.takeWhile accept with
  | [] => none
  | run => some (String.ofList run)

theorem leading?_eq_some_iff {accept : Char → Bool} {cs : List Char} {s : String} :
    leading? accept cs = some s ↔ s ≠ "" ∧ s.toList = cs.takeWhile accept := by
  rw [leading?]
  split
  · rename_i h
    rw [h]
    constructor
    · simp
    · rintro ⟨hs, he⟩
      exact absurd (String.toList_injective (by simpa using he)) hs
  · rename_i h
    constructor
    · rintro ⟨⟩
      refine ⟨fun he => h ?_, by simp⟩
      simpa using congrArg String.toList he
    · rintro ⟨_, he⟩
      rw [← he, String.ofList_toList]

theorem leading?_append {accept : Char → Bool} {s : String} {rest : List Char} (hne : s ≠ "")
    (hs : ∀ c ∈ s.toList, accept c = true) (hrest : ∀ c ∈ rest.head?, accept c = false) :
    leading? accept (s.toList ++ rest) = some s := by
  have hnil : rest.takeWhile accept = [] := by
    cases rest with
    | nil => rfl
    | cons c cs => rw [List.takeWhile_cons, hrest c rfl, if_neg (by simp)]
  rw [leading?_eq_some_iff, List.takeWhile_append_of_pos hs, hnil, List.append_nil]
  exact ⟨hne, rfl⟩

end BuildRequirements.Text
