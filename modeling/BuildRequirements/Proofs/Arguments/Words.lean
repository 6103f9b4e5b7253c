import BuildRequirements.Arguments
import Mathlib.Data.List.Basic

namespace BuildRequirements.Arguments

def IsOperand (word : String) : Prop := word = "-" ∨ word.toList.head? ≠ some '-'

def shortWord (n : Nat) (rest : List Char) : String :=
  String.ofList ('-' :: (List.replicate n 'a' ++ rest))

def Flag.word : Flag → String
  | append => "--append"
  | noCache => "--no-cache"
  | ignoreErrors => "--ignore-errors"
  | onlyChanges => "--only-write-on-update"

namespace Word

inductive Spelled : String → Word → Prop where
  | input {w : String} (h : IsOperand w) : Spelled w (.input w)
  | flag (f : Flag) : Spelled f.word (.flag f)
  | short (n : Nat) : Spelled (shortWord (n + 1) []) (.flag .append)
  | help : Spelled "--help" (.help false)
  | shortHelp (n : Nat) (rest : List Char) :
      Spelled (shortWord n ('h' :: rest)) (.help (decide (0 < n)))
  | inline {value : String} (h : value ≠ "") :
      Spelled ("--output-file=" ++ value) (.output false value)
  | attached (n : Nat) {value : String} (h : value ≠ "") :
      Spelled (shortWord n ('o' :: value.toList)) (.output (decide (0 < n)) value)
  | next : Spelled "--output-file" (.outputNext false "--output-file")
  | shortNext (n : Nat) : Spelled (shortWord n ['o']) (.outputNext (decide (0 < n)) "-o")
  | inputsFollow : Spelled "--" .inputsFollow

theorem isOption_eq_false_iff {w : String} : isOption w = false ↔ IsOperand w := by
  have hw : w = "-" ↔ w.toList = ['-'] := ⟨fun h => by rw [h]; rfl, fun h => String.toList_injective h⟩
  rw [isOption, IsOperand, hw]
  split
  · rename_i c cs h
    simp [h]
  · rename_i h
    cases hl : w.toList with
    | nil => simp
    | cons c cs =>
      cases cs with
      | nil => by_cases hc : c = '-' <;> simp [hc]
      | cons d ds =>
        have hc : c ≠ '-' := by
          rintro rfl
          exact h d ds hl
        simp [hc]

theorem ofList_eq_empty {cs : List Char} : String.ofList cs = "" ↔ cs = [] := by
  rw [← String.toList_inj, String.toList_ofList, String.toList_empty]

section Short

variable {w : String} {append : Bool} {rest : List Char}

theorem ofShort_cons_a (w : String) (append : Bool) (rest : List Char) :
    ofShort w append ('a' :: rest) = ofShort w true rest := by
  rw [ofShort.eq_3]
  · rfl
  · rintro ⟨⟩

theorem ofShort_replicate (w : String) (append : Bool) (n : Nat) (rest : List Char) :
    ofShort w append (List.replicate n 'a' ++ rest) = ofShort w (append || decide (0 < n)) rest := by
  induction n generalizing append with
  | zero => simp
  | succ n ih =>
    rw [List.replicate_succ, List.cons_append, ofShort_cons_a, ih]
    simp

theorem spelled_ofShort (w : String) (n : Nat) (hw : w = shortWord n rest) (hn : 0 < n ∨ rest ≠ [])
    (hr : rest.head? ≠ some 'a') :
    (∃ m, ofShort w (decide (0 < n)) rest = .misuse m) ∨
      Spelled w (ofShort w (decide (0 < n)) rest) := by
  subst hw
  fun_cases ofShort (shortWord n rest) (decide (0 < n)) rest with
  | case1 =>
    obtain ⟨k, rfl⟩ : ∃ k, n = k + 1 := ⟨n - 1, by simp at hn; omega⟩
    exact Or.inr (.short k)
  | case2 => exact Or.inr (.shortNext n)
  | case3 => simp at hr
  | case4 cs _ _ => exact Or.inr (.shortHelp n cs)
  | case5 cs hcs _ _ =>
    have hne : String.ofList cs ≠ "" := fun he => hcs rfl (ofList_eq_empty.mp he)
    have h := Spelled.attached n hne
    rw [String.toList_ofList] at h
    exact Or.inr h
  | case6 => exact Or.inl ⟨_, rfl⟩

end Short

section Long

variable {w value : String}

theorem isPrefixOf?_inline {cs : List Char} :
    "--output-file=".toList.isPrefixOf? w.toList = some cs ↔ w = "--output-file=" ++ String.ofList cs := by
  rw [List.isPrefixOf?_eq_some_iff_append_eq, ← String.toList_inj, String.toList_append,
    @String.toList_ofList cs, eq_comm]

theorem spelled_ofLong (w : String) : (∃ m, ofLong w = .misuse m) ∨ Spelled w (ofLong w) := by
  unfold ofLong
  split
  · exact Or.inr .inputsFollow
  · exact Or.inr .help
  · exact Or.inr .next
  · exact Or.inr (.flag .append)
  · exact Or.inr (.flag .noCache)
  · exact Or.inr (.flag .ignoreErrors)
  · exact Or.inr (.flag .onlyChanges)
  · split
    · exact Or.inl ⟨_, rfl⟩
    · rename_i cs hcs h
      obtain rfl := isPrefixOf?_inline.mp h
      exact Or.inr (.inline fun he => hcs (ofList_eq_empty.mp he))
    · exact Or.inl ⟨_, rfl⟩

theorem inline_ne (value : String) {other : String}
    (h : "--output-file=".toList.isPrefixOf other.toList = false) :
    "--output-file=" ++ value ≠ other := by
  rintro rfl
  rw [String.toList_append, Bool.eq_false_iff, ne_eq, List.isPrefixOf_iff_prefix] at h
  exact h (List.prefix_append _ _)

theorem ofLong_inline (h : value ≠ "") :
    ofLong ("--output-file=" ++ value) = .output false value := by
  have hprefix := (isPrefixOf?_inline (w := "--output-file=" ++ value)).mpr
    (by rw [String.ofList_toList])
  rw [ofLong.eq_8 _ (inline_ne value rfl) (inline_ne value rfl) (inline_ne value rfl)
    (inline_ne value rfl) (inline_ne value rfl) (inline_ne value rfl) (inline_ne value rfl), hprefix]
  split
  · rename_i he
    exact absurd (String.toList_injective (Option.some.inj he)) h
  · rename_i cs _ he
    rw [← Option.some.inj he, String.ofList_toList]
  · rename_i he
    cases he

end Long

theorem ofString_of_isOperand {w : String} (h : IsOperand w) : ofString w = .input w := by
  rw [← isOption_eq_false_iff, isOption] at h
  unfold ofString
  split at h
  · cases h
  · rename_i hno
    split
    · rename_i cs hw
      exact absurd hw (hno '-' cs)
    · rename_i c cs hc hw
      exact absurd hw (hno c cs)
    · rfl

theorem ofString_long {w : String} {cs : List Char} (h : w.toList = '-' :: '-' :: cs) :
    ofString w = ofLong w := by
  rw [ofString, h]
  rfl

theorem ofString_short {n : Nat} {rest : List Char} (hn : 0 < n ∨ rest ≠ [])
    (hr : rest.head? ≠ some '-') :
    ofString (shortWord n rest) = ofShort (shortWord n rest) (decide (0 < n)) rest := by
  have hw : (shortWord n rest).toList = '-' :: (List.replicate n 'a' ++ rest) := String.toList_ofList
  have h := ofShort_replicate (shortWord n rest) false n rest
  rw [Bool.false_or] at h
  rw [← h, ofString, hw]
  cases n with
  | zero =>
    cases rest with
    | nil => simp at hn
    | cons c cs =>
      have hc : c ≠ '-' := by simpa using hr
      rw [List.replicate_zero, List.nil_append]
      split
      · rename_i he
        exact absurd (List.cons.inj (List.cons.inj he).2).1 hc
      · rename_i he
        rw [(List.cons.inj he).2]
      · rename_i he
        exact absurd rfl (he c cs)
  | succ n => rfl

theorem exists_replicate (cs : List Char) :
    ∃ n rest, cs = List.replicate n 'a' ++ rest ∧ rest.head? ≠ some 'a' := by
  induction cs with
  | nil => exact ⟨0, [], rfl, by simp⟩
  | cons c cs ih =>
    by_cases hc : c = 'a'
    · obtain ⟨n, rest, rfl, hr⟩ := ih
      exact ⟨n + 1, rest, by rw [hc]; rfl, hr⟩
    · exact ⟨0, c :: cs, rfl, by simpa using hc⟩

theorem spelled_ofString (w : String) :
    (∃ m, ofString w = .misuse m) ∨ Spelled w (ofString w) := by
  unfold ofString
  split
  · exact spelled_ofLong w
  · rename_i c cs hc hw
    obtain ⟨n, rest, he, hr⟩ := exists_replicate (c :: cs)
    have hword : w = shortWord n rest := by
      rw [shortWord, ← he, ← hw, String.ofList_toList]
    have hn : 0 < n ∨ rest ≠ [] := by
      rcases n with _ | n
      · right
        rintro rfl
        cases he
      · exact Or.inl n.succ_pos
    rw [he, ofShort_replicate, Bool.false_or]
    exact spelled_ofShort w n hword hn hr
  · rename_i hlong hshort
    right
    apply Spelled.input
    rw [← isOption_eq_false_iff, isOption]
    split
    · rename_i c cs hw
      exact absurd hw (hshort c cs)
    · rfl

theorem ofString_of_spelled {w : String} {x : Word} (h : Spelled w x) : ofString w = x := by
  cases h with
  | input hw => exact ofString_of_isOperand hw
  | flag f => cases f <;> rfl
  | short n => exact ofString_short (Or.inl n.succ_pos) (by simp)
  | help => rfl
  | shortHelp n rest => exact ofString_short (Or.inr (by simp)) (by simp)
  | inline hv =>
    rw [ofString_long (String.toList_append ..)]
    exact ofLong_inline hv
  | @attached n value hv =>
    rw [ofString_short (Or.inr (by simp)) (by simp), ofShort.eq_3]
    · simp
    · intro _ he
      exact hv (String.toList_eq_nil_iff.mp he)
  | next => rfl
  | shortNext n => exact ofString_short (Or.inr (by simp)) (by simp)
  | inputsFollow => rfl

theorem ofString_eq_iff {w : String} {x : Word} (hx : ∀ m, x ≠ .misuse m) :
    ofString w = x ↔ Spelled w x := by
  constructor
  · rintro rfl
    rcases spelled_ofString w with ⟨m, hm⟩ | h
    · exact absurd hm (hx m)
    · exact h
  · exact ofString_of_spelled

end Word

end BuildRequirements.Arguments
