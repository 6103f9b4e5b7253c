import BuildRequirements.Text.Blank
import Mathlib.Data.List.Basic
import Mathlib.Data.List.TakeWhile

/-!
Words spread over a text: between two of them there are blank characters, and there may be some around
them. A text that is not blank throughout has such words, its longest runs of other characters, and
they are the pieces of the trimmed text.
-/

namespace BuildRequirements.Text

def AllBlank (cs : List Char) : Prop := ∀ c ∈ cs, isBlank c = true

instance (cs : List Char) : Decidable (AllBlank cs) :=
  decidable_of_iff (cs.all isBlank = true) List.all_eq_true

structure IsWord (w : List Char) : Prop where
  ne_nil : w ≠ []
  solid : ∀ c ∈ w, isBlank c = false

theorem isWord_iff {w : List Char} :
    (!w.isEmpty && w.all fun c => !isBlank c) = true ↔ IsWord w := by
  simp only [Bool.and_eq_true, Bool.not_eq_true', List.isEmpty_eq_false_iff, List.all_eq_true]
  exact ⟨fun h => ⟨h.1, h.2⟩, fun h => ⟨h.1, h.2⟩⟩

instance (w : List Char) : Decidable (IsWord w) := decidable_of_iff _ isWord_iff

def AreSpaced (rest : List (List Char × List Char)) : Prop :=
  ∀ p ∈ rest, (p.1 ≠ [] ∧ AllBlank p.1) ∧ IsWord p.2

def spaced (first : List Char) (rest : List (List Char × List Char)) : List Char :=
  first ++ rest.flatMap fun p => p.1 ++ p.2

structure Spread where
  front : List Char
  first : List Char
  rest : List (List Char × List Char)
  back : List Char
  front_blank : AllBlank front
  first_word : IsWord first
  rest_spaced : AreSpaced rest
  back_blank : AllBlank back

namespace Spread

def chars (l : Spread) : List Char := l.front ++ spaced l.first l.rest ++ l.back

def text (l : Spread) : String := String.ofList l.chars

def words (l : Spread) : List String := (l.first :: l.rest.map Prod.snd).map String.ofList

end Spread

variable {c : Char} {cs gap w first : List Char} {rest : List (List Char × List Char)}

theorem AllBlank.cons (hc : isBlank c = true) (h : AllBlank cs) : AllBlank (c :: cs) := by
  intro d hd
  rcases List.mem_cons.mp hd with rfl | hd
  · exact hc
  · exact h d hd

theorem IsWord.cons (hc : isBlank c = false) (h : ∀ d ∈ cs, isBlank d = false) : IsWord (c :: cs) := by
  refine ⟨List.cons_ne_nil c cs, ?_⟩
  intro d hd
  rcases List.mem_cons.mp hd with rfl | hd
  · exact hc
  · exact h d hd

theorem AreSpaced.of_cons {p : List Char × List Char} (h : AreSpaced (p :: rest)) : AreSpaced rest :=
  fun q hq => h q (List.mem_cons_of_mem _ hq)

theorem spaced_cons (first gap w : List Char) (rest : List (List Char × List Char)) :
    spaced first ((gap, w) :: rest) = first ++ (gap ++ spaced w rest) := by
  simp only [spaced, List.flatMap_cons, List.append_assoc]

theorem spaced_ne_nil (hw : IsWord first) : spaced first rest ≠ [] := by
  rw [spaced]
  exact List.append_ne_nil_of_left_ne_nil hw.ne_nil _

theorem head?_spaced (hw : IsWord first) (rest : List (List Char × List Char)) (cs : List Char) :
    (spaced first rest ++ cs).head?.any isBlank = false := by
  obtain ⟨c, w, rfl⟩ := List.exists_cons_of_ne_nil hw.ne_nil
  simpa [spaced] using hw.solid c (List.mem_cons_self ..)

theorem getLast?_spaced (hw : IsWord first) (hr : AreSpaced rest) :
    (spaced first rest).getLast?.any isBlank = false := by
  induction rest generalizing first with
  | nil =>
    have hlast := List.getLast?_eq_some_getLast hw.ne_nil
    simpa [spaced, hlast] using hw.solid _ (List.getLast_mem hw.ne_nil)
  | cons p rest ih =>
    obtain ⟨-, hword⟩ := hr p (List.mem_cons_self ..)
    rw [spaced_cons, ← List.append_assoc, List.getLast?_append_of_ne_nil _ (spaced_ne_nil hword)]
    exact ih hword hr.of_cons

section Pieces

theorem pieces_gap (hne : gap ≠ []) (hgap : AllBlank gap) (hcs : cs.head?.any isBlank = false) :
    pieces (gap ++ cs) = [] :: pieces cs := by
  induction gap with
  | nil => exact absurd rfl hne
  | cons c gap ih =>
    have hc := hgap c (List.mem_cons_self ..)
    cases gap with
    | nil => simp [pieces, hc, hcs]
    | cons d gap =>
      have htail : AllBlank (d :: gap) := fun e he => hgap e (List.mem_cons_of_mem _ he)
      have hd := htail d (List.mem_cons_self ..)
      rw [List.cons_append, pieces, if_pos hc, if_pos (by simpa using hd)]
      exact ih (List.cons_ne_nil d gap) htail

theorem pieces_append (hw : ∀ c ∈ w, isBlank c = false) (cs : List Char) :
    pieces (w ++ cs) = (pieces cs).modifyHead (w ++ ·) := by
  induction w with
  | nil =>
    cases h : pieces cs with
    | nil => exact h
    | cons piece more => exact h
  | cons c w ih =>
    have hc : ¬isBlank c = true := by simp [hw c (List.mem_cons_self ..)]
    rw [List.cons_append, pieces, if_neg hc, ih fun d hd => hw d (List.mem_cons_of_mem _ hd),
      List.modifyHead_modifyHead]
    rfl

theorem pieces_spaced (hw : IsWord first) (hr : AreSpaced rest) :
    pieces (spaced first rest) = first :: rest.map Prod.snd := by
  induction rest generalizing first with
  | nil =>
    rw [spaced, pieces_append hw.solid]
    simp [pieces]
  | cons p rest ih =>
    obtain ⟨⟨hne, hgap⟩, hword⟩ := hr p (List.mem_cons_self ..)
    have hhead : (spaced p.2 rest).head?.any isBlank = false := by
      simpa using head?_spaced hword rest []
    rw [spaced_cons, pieces_append hw.solid, pieces_gap hne hgap hhead, ih hword hr.of_cons]
    simp

end Pieces

section Trim

theorem dropWhile_blank (hgap : AllBlank gap) (hcs : cs.head?.any isBlank = false) :
    (gap ++ cs).dropWhile isBlank = cs := by
  rw [List.dropWhile_append_of_pos hgap]
  cases cs with
  | nil => rfl
  | cons c cs =>
    have hc : ¬isBlank c = true := by simpa using hcs
    rw [List.dropWhile_cons, if_neg hc]

theorem trim_text (l : Spread) : trim l.text = String.ofList (spaced l.first l.rest) := by
  have hback : AllBlank l.back.reverse := fun c hc => l.back_blank c (List.mem_reverse.mp hc)
  have hlast : (spaced l.first l.rest).reverse.head?.any isBlank = false := by
    rw [List.head?_reverse]
    exact getLast?_spaced l.first_word l.rest_spaced
  rw [trim, Spread.text, String.toList_ofList, Spread.chars, List.append_assoc,
    dropWhile_blank l.front_blank (head?_spaced l.first_word _ _), List.reverse_append,
    dropWhile_blank hback hlast, List.reverse_reverse]

theorem trim_of_allBlank {s : String} (h : AllBlank s.toList) : trim s = "" := by
  have hdrop : s.toList.dropWhile isBlank = [] := List.dropWhile_eq_nil_iff.mpr h
  rw [trim, hdrop]
  rfl

end Trim

section Spread

theorem allBlank_nil : AllBlank [] := fun _ hc => absurd hc List.not_mem_nil

theorem exists_spread_of_blank (hc : isBlank c = true) (l : Spread) :
    ∃ m : Spread, m.chars = c :: l.chars :=
  ⟨{ l with front := c :: l.front, front_blank := l.front_blank.cons hc }, rfl⟩

theorem exists_spread_of_not_blank (hc : isBlank c = false) (l : Spread) :
    ∃ m : Spread, m.chars = c :: l.chars := by
  by_cases hfront : l.front = []
  · refine ⟨{ l with first := c :: l.first, first_word := .cons hc l.first_word.solid }, ?_⟩
    simp [Spread.chars, spaced, hfront]
  · have hword : IsWord [c] := .cons hc fun d hd => absurd hd List.not_mem_nil
    refine ⟨⟨[], [c], (l.front, l.first) :: l.rest, l.back, allBlank_nil, hword, ?_, l.back_blank⟩, ?_⟩
    · intro p hp
      rcases List.mem_cons.mp hp with rfl | hp
      · exact ⟨⟨hfront, l.front_blank⟩, l.first_word⟩
      · exact l.rest_spaced p hp
    · simp [Spread.chars, spaced_cons]

theorem exists_spread (cs : List Char) : AllBlank cs ∨ ∃ l : Spread, l.chars = cs := by
  induction cs with
  | nil => exact Or.inl allBlank_nil
  | cons c cs ih =>
    cases hc : isBlank c with
    | true =>
      rcases ih with hcs | ⟨l, rfl⟩
      · exact Or.inl (hcs.cons hc)
      · exact Or.inr (exists_spread_of_blank hc l)
    | false =>
      rcases ih with hcs | ⟨l, rfl⟩
      · have hword : IsWord [c] := .cons hc fun d hd => absurd hd List.not_mem_nil
        refine Or.inr ⟨⟨[], [c], [], cs, allBlank_nil, hword, ?_, hcs⟩, rfl⟩
        exact fun p hp => absurd hp List.not_mem_nil
      · exact Or.inr (exists_spread_of_not_blank hc l)

end Spread

end BuildRequirements.Text
