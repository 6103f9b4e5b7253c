import BuildRequirements.Proofs.Arguments.Words

namespace BuildRequirements.Arguments

inductive Item where
  | flag (f : Flag)
  | short (n : Nat)
  | inline (value : String) (h : value ≠ "")
  | attached (n : Nat) (value : String) (h : value ≠ "")
  | next (value : String) (h : IsOperand value)
  | shortNext (n : Nat) (value : String) (h : IsOperand value)
  | input (text : String) (h : IsOperand text)

namespace Item

def words : Item → List String
  | flag f => [f.word]
  | short n => [shortWord (n + 1) []]
  | inline value _ => ["--output-file=" ++ value]
  | attached n value _ => [shortWord n ('o' :: value.toList)]
  | next value _ => ["--output-file", value]
  | shortNext n value _ => [shortWord n ['o'], value]
  | input text _ => [text]

def input? : Item → Option String
  | input text _ => some text
  | _ => none

def output? : Item → Option String
  | inline value _ => some value
  | attached _ value _ => some value
  | next value _ => some value
  | shortNext _ value _ => some value
  | _ => none

def sets : Item → Flag → Bool
  | flag f, g => decide (g = f)
  | short _, g => decide (g = .append)
  | attached n _ _, g => decide (g = .append ∧ 0 < n)
  | shortNext n _ _, g => decide (g = .append ∧ 0 < n)
  | _, _ => false

end Item

def said (items : List Item) (more : List String) : Arguments where
  inputs := items.filterMap Item.input? ++ more
  output := (items.filterMap Item.output?).getLast?
  append := items.any (·.sets .append)
  noCache := items.any (·.sets .noCache)
  ignoreErrors := items.any (·.sets .ignoreErrors)
  onlyChanges := items.any (·.sets .onlyChanges)

structure IsComplete (a : Arguments) : Prop where
  inputs_ne : a.inputs ≠ []
  gate : a.onlyChanges = true → a.output ≠ none

inductive Requests : List String → Arguments → Prop where
  | plain (items : List Item) (h : IsComplete (said items [])) :
      Requests (items.flatMap Item.words) (said items [])
  | separated (items : List Item) (more : List String) (h : IsComplete (said items more)) :
      Requests (items.flatMap Item.words ++ "--" :: more) (said items more)

inductive AsksHelp : List String → Arguments → Prop where
  | long (items : List Item) (rest : List String) :
      AsksHelp (items.flatMap Item.words ++ "--help" :: rest) { said items [] with help := true }
  | short (items : List Item) (n : Nat) (cs : List Char) (rest : List String) :
      AsksHelp (items.flatMap Item.words ++ shortWord n ('h' :: cs) :: rest)
        { said items [] with
          append := items.any (·.sets .append) || decide (0 < n)
          help := true }

def add (b : Arguments) (item : Item) : Arguments where
  inputs := b.inputs ++ item.input?.toList
  output := item.output?.or b.output
  append := b.append || item.sets .append
  noCache := b.noCache || item.sets .noCache
  ignoreErrors := b.ignoreErrors || item.sets .ignoreErrors
  onlyChanges := b.onlyChanges || item.sets .onlyChanges
  help := b.help

inductive Tail (b : Arguments) : List String → Arguments → Prop where
  | nothing (h : IsComplete b) : Tail b [] b
  | separated (more : List String) (h : IsComplete { b with inputs := b.inputs ++ more }) :
      Tail b ("--" :: more) { b with inputs := b.inputs ++ more }
  | help {w : String} {append : Bool} (rest : List String) (h : Word.Spelled w (.help append)) :
      Tail b (w :: rest) { b.addAppend append with help := true }

variable {a b : Arguments} {ws : List String}

theorem foldl_add (b : Arguments) (items : List Item) :
    items.foldl add b =
      { inputs := b.inputs ++ items.filterMap Item.input?
        output := (items.filterMap Item.output?).getLast?.or b.output
        append := b.append || items.any (·.sets .append)
        noCache := b.noCache || items.any (·.sets .noCache)
        ignoreErrors := b.ignoreErrors || items.any (·.sets .ignoreErrors)
        onlyChanges := b.onlyChanges || items.any (·.sets .onlyChanges)
        help := b.help } := by
  induction items generalizing b with
  | nil => simp
  | cons item items ih =>
    have hinputs : item.input?.toList ++ items.filterMap Item.input? =
        (item :: items).filterMap Item.input? := by
      rw [List.filterMap_cons]
      cases item.input? <;> rfl
    have houtput : (items.filterMap Item.output?).getLast?.or (item.output?.or b.output) =
        ((item :: items).filterMap Item.output?).getLast?.or b.output := by
      rw [List.filterMap_cons]
      cases item.output? with
      | none => rfl
      | some value =>
        rw [List.getLast?_cons]
        cases (items.filterMap Item.output?).getLast? <;> rfl
    rw [List.foldl_cons, ih, ← houtput, ← hinputs]
    simp only [add, List.append_assoc, List.any_cons, Bool.or_assoc]

theorem foldl_add_empty (items : List Item) : items.foldl add {} = said items [] := by
  rw [foldl_add, said]
  simp

theorem check_eq_ok_iff : check b = .ok a ↔ a = b ∧ IsComplete b := by
  rw [check, checkGate]
  constructor
  · intro h
    split at h
    · cases h
    · rename_i hinputs
      split at h
      · cases h
      · rename_i hgate
        refine ⟨(Except.ok.inj h).symm, ?_, ?_⟩
        · rwa [List.isEmpty_iff] at hinputs
        · intro hc ho
          exact hgate (by rw [hc, ho]; rfl)
  · rintro ⟨rfl, hinputs, hgate⟩
    rw [if_neg (by rwa [List.isEmpty_iff]), if_neg]
    · rfl
    · rw [Bool.and_eq_true, Option.isNone_iff_eq_none]
      rintro ⟨hc, ho⟩
      exact hgate hc ho

section Add

variable (b : Arguments)

theorem add_flag (f : Flag) : b.add (.flag f) = b.set f := by
  cases f <;> simp [set, add, Item.input?, Item.output?, Item.sets]

theorem add_short (n : Nat) : b.add (.short n) = b.set .append := by
  simp [set, add, Item.input?, Item.output?, Item.sets]

theorem add_inline {value : String} (h : value ≠ "") :
    b.add (.inline value h) = { b.addAppend false with output := some value } := by
  simp [addAppend, add, Item.input?, Item.output?, Item.sets]

theorem add_attached (n : Nat) {value : String} (h : value ≠ "") :
    b.add (.attached n value h) =
      { b.addAppend (decide (0 < n)) with output := some value } := by
  simp [addAppend, add, Item.input?, Item.output?, Item.sets]

theorem add_next {value : String} (h : IsOperand value) :
    b.add (.next value h) = { b.addAppend false with output := some value } := by
  simp [addAppend, add, Item.input?, Item.output?, Item.sets]

theorem add_shortNext (n : Nat) {value : String} (h : IsOperand value) :
    b.add (.shortNext n value h) =
      { b.addAppend (decide (0 < n)) with output := some value } := by
  simp [addAppend, add, Item.input?, Item.output?, Item.sets]

theorem add_input {text : String} (h : IsOperand text) :
    b.add (.input text h) = { b with inputs := b.inputs ++ [text] } := by
  simp [add, Item.input?, Item.output?, Item.sets]

end Add

section Completeness

theorem read_next {w value option : String} {append : Bool}
    (hw : Word.ofString w = .outputNext append option) (hv : IsOperand value) :
    read b (w :: value :: ws) = read { b.addAppend append with output := some value } ws := by
  have ho := Word.isOption_eq_false_iff.mpr hv
  rw [read, hw]
  dsimp only
  rw [ho, if_neg (by simp)]

theorem read_words (b : Arguments) (item : Item) (ws : List String) :
    read b (item.words ++ ws) = read (b.add item) ws := by
  cases item with
  | flag f =>
    rw [Item.words, List.singleton_append, read, Word.ofString_of_spelled (.flag f), add_flag]
  | short n =>
    rw [Item.words, List.singleton_append, read, Word.ofString_of_spelled (.short n), add_short]
  | inline value h =>
    rw [Item.words, List.singleton_append, read, Word.ofString_of_spelled (.inline h), add_inline]
  | attached n value h =>
    rw [Item.words, List.singleton_append, read, Word.ofString_of_spelled (.attached n h),
      add_attached]
  | next value h =>
    rw [add_next]
    exact read_next (Word.ofString_of_spelled .next) h
  | shortNext n value h =>
    rw [add_shortNext]
    exact read_next (Word.ofString_of_spelled (.shortNext n)) h
  | input text h =>
    rw [Item.words, List.singleton_append, read, Word.ofString_of_spelled (.input h), add_input]

theorem read_flatMap_words (b : Arguments) (items : List Item) (ws : List String) :
    read b (items.flatMap Item.words ++ ws) = read (items.foldl add b) ws := by
  induction items generalizing b with
  | nil => rfl
  | cons item items ih => rw [List.flatMap_cons, List.append_assoc, read_words, ih, List.foldl_cons]

theorem read_tail (h : Tail b ws a) : read b ws = .ok a := by
  cases h with
  | nothing h => exact check_eq_ok_iff.mpr ⟨rfl, h⟩
  | separated more h =>
    rw [read, Word.ofString_of_spelled .inputsFollow]
    exact check_eq_ok_iff.mpr ⟨rfl, h⟩
  | help rest h => rw [read, Word.ofString_of_spelled h]

end Completeness

section Soundness

def Splits (b : Arguments) (ws : List String) (a : Arguments) : Prop :=
  ∃ (items : List Item) (tail : List String),
    ws = items.flatMap Item.words ++ tail ∧ Tail (items.foldl add b) tail a

theorem Splits.of_tail (h : Tail b ws a) : Splits b ws a := ⟨[], ws, rfl, h⟩

theorem Splits.cons (item : Item) (h : Splits (b.add item) ws a) :
    Splits b (item.words ++ ws) a := by
  obtain ⟨items, tail, rfl, ht⟩ := h
  exact ⟨item :: items, tail, by rw [List.flatMap_cons, List.append_assoc], ht⟩

theorem splits_of_read (h : read b ws = .ok a) : Splits b ws a := by
  fun_induction read b ws with
  | case1 b =>
    obtain ⟨rfl, hb⟩ := check_eq_ok_iff.mp h
    exact .of_tail (.nothing hb)
  | case2 b w ws text hw ih =>
    rw [Word.ofString_eq_iff (by simp)] at hw
    cases hw with
    | input ho =>
      refine Splits.cons (.input w ho) ?_
      rw [add_input]
      exact ih h
  | case3 b w ws f hw ih =>
    rw [Word.ofString_eq_iff (by simp)] at hw
    cases hw with
    | flag =>
      refine Splits.cons (.flag f) ?_
      rw [add_flag]
      exact ih h
    | short n =>
      refine Splits.cons (.short n) ?_
      rw [add_short]
      exact ih h
  | case4 b w ws append hw =>
    rw [Word.ofString_eq_iff (by simp)] at hw
    rw [← Except.ok.inj h]
    exact .of_tail (.help ws hw)
  | case5 b w ws append value hw ih =>
    rw [Word.ofString_eq_iff (by simp)] at hw
    cases hw with
    | inline hv =>
      refine Splits.cons (.inline value hv) ?_
      rw [add_inline]
      exact ih h
    | attached n hv =>
      refine Splits.cons (.attached n value hv) ?_
      rw [add_attached]
      exact ih h
  | case6 => cases h
  | case7 => cases h
  | case8 b w append option hw value ws ho ih =>
    rw [Word.ofString_eq_iff (by simp)] at hw
    have hv := Word.isOption_eq_false_iff.mp (Bool.eq_false_iff.mpr ho)
    cases hw with
    | next =>
      refine Splits.cons (.next value hv) ?_
      rw [add_next]
      exact ih h
    | shortNext n =>
      refine Splits.cons (.shortNext n value hv) ?_
      rw [add_shortNext]
      exact ih h
  | case9 b w ws hw =>
    rw [Word.ofString_eq_iff (by simp)] at hw
    cases hw
    obtain ⟨rfl, hb⟩ := check_eq_ok_iff.mp h
    exact .of_tail (.separated ws hb)
  | case10 => cases h

end Soundness

theorem parse_eq_ok_iff : parse ws = .ok a ↔
    ∃ (items : List Item) (tail : List String),
      ws = items.flatMap Item.words ++ tail ∧ Tail (said items []) tail a := by
  constructor
  · intro h
    obtain ⟨items, tail, hws, ht⟩ := splits_of_read h
    rw [foldl_add_empty] at ht
    exact ⟨items, tail, hws, ht⟩
  · rintro ⟨items, tail, rfl, ht⟩
    rw [parse, read_flatMap_words, foldl_add_empty]
    exact read_tail ht

theorem said_more (items : List Item) (more : List String) :
    { said items [] with inputs := (said items []).inputs ++ more } = said items more := by
  rw [said, said, List.append_nil]

theorem requests_iff : Requests ws a ↔ parse ws = .ok a ∧ a.help = false := by
  rw [parse_eq_ok_iff]
  constructor
  · intro h
    cases h with
    | plain items h => exact ⟨⟨items, [], (List.append_nil _).symm, .nothing h⟩, rfl⟩
    | separated items more h =>
      rw [← said_more] at h ⊢
      exact ⟨⟨items, "--" :: more, rfl, .separated more h⟩, rfl⟩
  · rintro ⟨⟨items, tail, rfl, ht⟩, hhelp⟩
    cases ht with
    | nothing h =>
      rw [List.append_nil]
      exact .plain items h
    | separated more h =>
      rw [said_more] at h ⊢
      exact .separated items more h
    | help => cases hhelp

theorem addAppend_false (b : Arguments) : b.addAppend false = b := by
  rw [addAppend, Bool.or_false]

theorem asksHelp_iff : AsksHelp ws a ↔ parse ws = .ok a ∧ a.help = true := by
  rw [parse_eq_ok_iff]
  constructor
  · intro h
    cases h with
    | long items rest =>
      have ht : Tail (said items []) _ _ := .help rest .help
      rw [addAppend_false] at ht
      exact ⟨⟨items, _, rfl, ht⟩, rfl⟩
    | short items n cs rest => exact ⟨⟨items, _, rfl, .help rest (.shortHelp n cs)⟩, rfl⟩
  · rintro ⟨⟨items, tail, rfl, ht⟩, hhelp⟩
    cases ht with
    | nothing => cases hhelp
    | separated => cases hhelp
    | help rest hw =>
      cases hw with
      | help =>
        rw [addAppend_false]
        exact .long items rest
      | shortHelp n cs => exact .short items n cs rest

/-- Reading follows the grammar, and misuse is all that is not in it. -/
theorem parse_grammar (ws : List String) :
    (∀ a, parse ws = .ok a ∧ a.help = false ↔ Requests ws a) ∧
      (∀ a, parse ws = .ok a ∧ a.help = true ↔ AsksHelp ws a) ∧
      ((∃ m, parse ws = .error m) ↔ ∀ a, ¬Requests ws a ∧ ¬AsksHelp ws a) := by
  refine ⟨fun a => requests_iff.symm, fun a => asksHelp_iff.symm, ?_⟩
  simp only [requests_iff, asksHelp_iff]
  cases hparse : parse ws with
  | error m => simp
  | ok a =>
    constructor
    · rintro ⟨m, hm⟩
      cases hm
    · intro h
      obtain ⟨hno, hyes⟩ := h a
      cases hh : a.help with
      | false => exact absurd ⟨rfl, hh⟩ hno
      | true => exact absurd ⟨rfl, hh⟩ hyes

-- The value of a cluster may be a single dash, and a word after two dashes may begin with one.
example : parse ["-aao", "-", "in.txt", "--", "-x"] =
    .ok { inputs := ["in.txt", "-x"], append := true, output := some "-" } := rfl

end BuildRequirements.Arguments
