import BuildRequirements.Text.Lines
import Mathlib.Data.List.Basic

namespace BuildRequirements.Text

variable {c : Char} {cs xs ys : List Char}

theorem lines_cons_of_break (hc : isBreak c = true) (hcs : c = '\r' → cs.head? ≠ some '\n') :
    lines (c :: cs) = [] :: lines cs := by
  rw [lines.eq_3, if_pos hc]
  rintro rest rfl rfl
  exact hcs rfl rfl

theorem lines_cons_of_not_break (hc : isBreak c = false) :
    lines (c :: cs) = (lines cs).modifyHead (c :: ·) := by
  rw [lines.eq_3, hc, if_neg (by simp)]
  rintro rest rfl
  simp [isBreak] at hc

theorem modifyHead_nil_append (ls : List (List Char)) : ls.modifyHead ([] ++ ·) = ls := by
  cases ls <;> rfl

theorem lines_append_of_not_break (hxs : ∀ c ∈ xs, isBreak c = false) :
    lines (xs ++ ys) = (lines ys).modifyHead (xs ++ ·) := by
  induction xs with
  | nil => exact (modifyHead_nil_append _).symm
  | cons c cs ih =>
    obtain ⟨hc, hcs⟩ := List.forall_mem_cons.mp hxs
    rw [List.cons_append, lines_cons_of_not_break hc, ih hcs, List.modifyHead_modifyHead]
    rfl

theorem lines_line_feed (hxs : ∀ c ∈ xs, isBreak c = false) :
    lines (xs ++ '\n' :: ys) = xs :: lines ys := by
  rw [lines_append_of_not_break hxs, lines_cons_of_break rfl (by simp), List.modifyHead_cons,
    List.append_nil]

theorem lines_flatMap_line_feed {ls : List (List Char)}
    (hls : ∀ l ∈ ls, ∀ c ∈ l, isBreak c = false) :
    lines (ls.flatMap fun l => l ++ ['\n']) = ls ++ [[]] := by
  induction ls with
  | nil => rfl
  | cons l ls ih =>
    obtain ⟨hl, hrest⟩ := List.forall_mem_cons.mp hls
    rw [List.flatMap_cons, List.append_assoc, List.singleton_append, lines_line_feed hl, ih hrest,
      List.cons_append]

/-- Two texts meet inside a break if the first ends in its carriage return and the second begins with
its line feed. -/
def MeetInBreak (xs ys : List Char) : Prop := xs.getLast? = some '\r' ∧ ys.head? = some '\n'

theorem MeetInBreak.cons (h : MeetInBreak cs ys) : MeetInBreak (c :: cs) ys := by
  refine ⟨?_, h.2⟩
  rw [List.getLast?_cons, h.1]
  rfl

theorem exists_lines_append (xs : List Char) :
    ∃ front last, lines xs = front ++ [last] ∧
      ∀ ys, ¬MeetInBreak xs ys → lines (xs ++ ys) = front ++ (lines ys).modifyHead (last ++ ·) := by
  fun_induction lines xs with
  | case1 => exact ⟨[], [], rfl, fun ys _ => (modifyHead_nil_append _).symm⟩
  | case2 cs ih =>
    obtain ⟨front, last, he, ih⟩ := ih
    refine ⟨[] :: front, last, by rw [he]; rfl, fun ys hys => ?_⟩
    rw [List.cons_append, List.cons_append, lines, ih ys (fun h => hys h.cons.cons)]
    rfl
  | case3 c cs hcs hc ih =>
    obtain ⟨front, last, he, ih⟩ := ih
    refine ⟨[] :: front, last, by rw [he]; rfl, fun ys hys => ?_⟩
    rw [List.cons_append, lines_cons_of_break hc, ih ys (fun h => hys h.cons)]
    · rfl
    -- A line feed in front of `ys` would belong to a break that ends in front of it.
    · rintro rfl
      cases cs with
      | nil => exact fun h => hys ⟨rfl, h⟩
      | cons d ds =>
        intro hd
        exact hcs ds rfl (by rw [Option.some.inj hd])
  | case4 c cs hcs hc ih =>
    obtain ⟨front, last, he, ih⟩ := ih
    have hb : isBreak c = false := Bool.eq_false_iff.mpr hc
    cases front with
    | nil =>
      refine ⟨[], c :: last, by rw [he]; rfl, fun ys hys => ?_⟩
      rw [List.cons_append, lines_cons_of_not_break hb, ih ys (fun h => hys h.cons), List.nil_append,
        List.modifyHead_modifyHead]
      rfl
    | cons first front =>
      refine ⟨(c :: first) :: front, last, by rw [he]; rfl, fun ys hys => ?_⟩
      rw [List.cons_append, lines_cons_of_not_break hb, ih ys (fun h => hys h.cons)]
      rfl

theorem exists_lines_of_meetInBreak (h : MeetInBreak xs ys) :
    ∃ front, lines xs = front ++ [[]] ∧ lines (xs ++ ys) = front ++ lines ys.tail := by
  obtain ⟨before, rfl⟩ := List.getLast?_eq_some_iff.mp h.1
  obtain ⟨rest, rfl⟩ := List.head?_eq_some_iff.mp h.2
  obtain ⟨front, last, -, happend⟩ := exists_lines_append before
  have hmeet (zs : List Char) : ¬MeetInBreak before ('\r' :: zs) := fun hm => by
    have := hm.2
    simp at this
  refine ⟨front ++ [last], ?_, ?_⟩
  · rw [happend _ (hmeet [])]
    simp [lines, isBreak]
  · rw [List.append_assoc, List.singleton_append, happend _ (hmeet _), lines]
    simp

theorem isBlank_of_isBreak (hc : isBreak c = true) : isBlank c = true := by
  simp only [isBreak, Bool.or_eq_true, beq_iff_eq] at hc
  rcases hc with rfl | rfl <;> rfl

theorem not_isBreak_of_not_isBlank (hc : isBlank c = false) : isBreak c = false := by
  by_cases hb : isBreak c = true
  · rw [isBlank_of_isBreak hb] at hc
    cases hc
  · exact Bool.eq_false_iff.mpr hb

section Around

variable {line : List Char} {front back : List (List Char)}

def IsClosed (xs : List Char) : Prop := ∀ c ∈ xs.getLast?, isBreak c = true

theorem isClosed_append (hne : ys ≠ []) : IsClosed (xs ++ ys) ↔ IsClosed ys := by
  rw [IsClosed, IsClosed, List.getLast?_append_of_ne_nil _ hne]

theorem isClosed_of_all (h : ∀ c ∈ xs, isBreak c = true) : IsClosed xs :=
  fun c hc => h c (List.mem_of_getLast? hc)

theorem lines_eq_cons (h : lines cs = line :: back) :
    (∀ c ∈ line, isBreak c = false) ∧
      (back = [] ∧ cs = line ∨
        ∃ ends rest, cs = line ++ (ends ++ rest) ∧ ends ≠ [] ∧ (∀ c ∈ ends, isBreak c = true) ∧
          lines rest = back) := by
  fun_induction lines cs generalizing line back with
  | case1 =>
    obtain ⟨rfl, rfl⟩ := List.cons.inj h
    simp
  | case2 cs ih =>
    obtain ⟨rfl, rfl⟩ := List.cons.inj h
    exact ⟨by simp, Or.inr ⟨['\r', '\n'], cs, rfl, by simp, by simp [isBreak], rfl⟩⟩
  | case3 c cs hcs hc ih =>
    obtain ⟨rfl, rfl⟩ := List.cons.inj h
    exact ⟨by simp, Or.inr ⟨[c], cs, rfl, by simp, by simpa using hc, rfl⟩⟩
  | case4 c cs hcs hc ih =>
    obtain ⟨first, more, he⟩ := List.exists_cons_of_ne_nil (lines_ne_nil cs)
    rw [he, List.modifyHead_cons] at h
    obtain ⟨rfl, rfl⟩ := List.cons.inj h
    obtain ⟨hfirst, hrest⟩ := ih he
    refine ⟨List.forall_mem_cons.mpr ⟨Bool.eq_false_iff.mpr hc, hfirst⟩, ?_⟩
    rcases hrest with ⟨rfl, rfl⟩ | ⟨ends, rest, rfl, hrest⟩
    · exact Or.inl ⟨rfl, rfl⟩
    · exact Or.inr ⟨ends, rest, rfl, hrest⟩

theorem exists_around_line (h : lines cs = front ++ line :: back) :
    ∃ before after, cs = before ++ (line ++ after) ∧ IsClosed before ∧
      (∀ c ∈ line, isBreak c = false) ∧ (∀ c ∈ after.head?, isBreak c = true) ∧
      (after = [] ↔ back = []) := by
  -- The lines in front are taken off one by one, each with the break that ends it.
  induction front generalizing cs with
  | nil =>
    obtain ⟨hline, hrest⟩ := lines_eq_cons h
    refine ⟨[], ?_⟩
    rcases hrest with ⟨rfl, rfl⟩ | ⟨ends, rest, rfl, hne, hends, rfl⟩
    · exact ⟨[], by simp, by simp [IsClosed], hline, by simp, by simp⟩
    · obtain ⟨c, more, rfl⟩ := List.exists_cons_of_ne_nil hne
      refine ⟨c :: more ++ rest, rfl, by simp [IsClosed], hline, ?_, by simp [lines_ne_nil]⟩
      rintro d ⟨⟩
      exact hends c List.mem_cons_self
  | cons first front ih =>
    obtain ⟨-, hrest⟩ := lines_eq_cons h
    rcases hrest with ⟨hnil, -⟩ | ⟨ends, rest, rfl, hne, hends, hmore⟩
    · simp at hnil
    · obtain ⟨before, after, rfl, hbefore, hafter⟩ := ih hmore
      refine ⟨first ++ ends ++ before, after, by simp, ?_, hafter⟩
      by_cases hnil : before = []
      · rw [hnil, List.append_nil, isClosed_append hne]
        exact isClosed_of_all hends
      · rwa [isClosed_append hnil]

theorem last_eq_nil_iff (h : lines xs = front ++ [line]) : line = [] ↔ IsClosed xs := by
  obtain ⟨before, after, rfl, hbefore, hline, -, hafter⟩ := exists_around_line h
  rw [hafter.mpr rfl, List.append_nil]
  constructor
  · rintro rfl
    rwa [List.append_nil]
  · intro hclosed
    by_contra hne
    rw [isClosed_append hne] at hclosed
    have hlast := hclosed _ (List.getLast?_eq_some_getLast hne)
    rw [hline _ (List.getLast_mem hne)] at hlast
    cases hlast

theorem head?_lines (h : ∀ c ∈ ys.head?, isBreak c = true) : ∃ more, lines ys = [] :: more := by
  fun_cases lines ys with
  | case1 => exact ⟨[], rfl⟩
  | case2 cs => exact ⟨_, rfl⟩
  | case3 c cs hcs hc => exact ⟨_, rfl⟩
  | case4 c cs hcs hc => exact absurd (h c rfl) hc

theorem mem_lines_append (hne : line ≠ []) (hys : ∀ c ∈ ys.head?, isBreak c = true) :
    line ∈ lines (xs ++ ys) ↔ line ∈ lines xs ∨ line ∈ lines ys := by
  obtain ⟨more, hmore⟩ := head?_lines hys
  by_cases hmeet : MeetInBreak xs ys
  · obtain ⟨front, hfront, happend⟩ := exists_lines_of_meetInBreak hmeet
    obtain ⟨rest, rfl⟩ := List.head?_eq_some_iff.mp hmeet.2
    rw [happend, hfront, List.tail_cons, lines_cons_of_break rfl (by simp)]
    simp [hne]
  · obtain ⟨front, last, hfront, happend⟩ := exists_lines_append xs
    rw [happend ys hmeet, hfront, hmore, List.modifyHead_cons, List.append_nil]
    simp only [List.mem_append, List.mem_cons, List.not_mem_nil, or_false, hne, false_or]
    exact or_assoc.symm

theorem mem_lines_around (hne : line ≠ []) (hxs : IsClosed xs)
    (hline : ∀ c ∈ line, isBreak c = false) (hys : ∀ c ∈ ys.head?, isBreak c = true) :
    line ∈ lines (xs ++ (line ++ ys)) := by
  obtain ⟨front, last, hfront, happend⟩ := exists_lines_append xs
  obtain ⟨more, hmore⟩ := head?_lines hys
  have hmeet : ¬MeetInBreak xs (line ++ ys) := by
    rintro ⟨-, h⟩
    rw [List.head?_append_of_ne_nil _ hne] at h
    have := hline _ (List.mem_of_head? h)
    cases this
  rw [happend _ hmeet, lines_append_of_not_break hline, hmore, (last_eq_nil_iff hfront).mpr hxs]
  simp

end Around

end BuildRequirements.Text
