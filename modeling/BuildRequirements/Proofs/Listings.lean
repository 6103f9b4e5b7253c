import BuildRequirements.BuildLog
import BuildRequirements.Discovery
import BuildRequirements.Listing
import BuildRequirements.Proofs.Text.Decoding
import BuildRequirements.Proofs.Text.LineBreaks
import BuildRequirements.Update
import Mathlib.Data.List.Basic
import Mathlib.Data.List.TakeWhile

namespace BuildRequirements.Listing

open Text

def cutName (name : String) : Option String := leading? (· != '#') name.toList

def cut (names : List String) : NameSet := NameSet.ofList (names.filterMap cutName)

def IsToken (name : String) : Prop :=
  name ≠ "" ∧ ∀ c ∈ name.toList, BuildLog.isRequirementChar c = true

section Names

variable {name : String} {names : List String} {xs ys : List Char} {text : String}

theorem takeWhile_congr {p q : Char → Bool} (h : ∀ c ∈ xs, p c = q c) :
    xs.takeWhile p = xs.takeWhile q := by
  induction xs with
  | nil => rfl
  | cons c cs ih =>
    obtain ⟨hc, hcs⟩ := List.forall_mem_cons.mp h
    rw [List.takeWhile_cons, List.takeWhile_cons, hc, ih hcs]

theorem isToken_of_mem (h : name ∈ BuildLog.requirements text) : IsToken name := by
  obtain ⟨line, _, hc⟩ := BuildLog.mem_requirements.mp h
  rw [BuildLog.collected?] at hc
  split at hc
  · obtain ⟨rest, _, hl⟩ := Option.bind_eq_some_iff.mp hc
    obtain ⟨hne, hrun⟩ := leading?_eq_some_iff.mp hl
    refine ⟨hne, fun c hmem => ?_⟩
    rw [hrun] at hmem
    exact List.mem_takeWhile_imp hmem
  · cases hc

theorem isNameChar_of_mem_recorded (h : name ∈ recorded text) :
    name ≠ "" ∧ ∀ c ∈ name.toList, isNameChar c = true := by
  rw [recorded, NameSet.mem_ofList] at h
  obtain ⟨line, _, hl⟩ := List.mem_filterMap.mp h
  obtain ⟨hne, hrun⟩ := leading?_eq_some_iff.mp hl
  refine ⟨hne, fun c hmem => ?_⟩
  rw [hrun] at hmem
  exact List.mem_takeWhile_imp hmem

theorem hash_not_mem_of_mem_recorded (h : name ∈ recorded text) : '#' ∉ name.toList := by
  intro hmem
  have hc := (isNameChar_of_mem_recorded h).2 _ hmem
  revert hc
  decide

theorem cutName_of_hash_not_mem (hname : name ≠ "") (h : '#' ∉ name.toList) :
    cutName name = some name := by
  have hchars : ∀ c ∈ name.toList, (c != '#') = true := by
    intro c hc
    rw [bne_iff_ne]
    rintro rfl
    exact h hc
  have hnil : ∀ c ∈ ([] : List Char).head?, (c != '#') = false := by simp
  rw [cutName, ← List.append_nil name.toList]
  exact leading?_append hname hchars hnil

theorem cutName_of_mem_recorded (h : name ∈ recorded text) : cutName name = some name :=
  cutName_of_hash_not_mem (isNameChar_of_mem_recorded h).1 (hash_not_mem_of_mem_recorded h)

theorem name?_of_isToken (h : IsToken name) : name? name.toList = cutName name := by
  have hsame : ∀ c ∈ name.toList, isNameChar c = (c != '#') := by
    intro c hc
    have hr := h.2 c hc
    simp only [BuildLog.isRequirementChar, Bool.and_eq_true] at hr
    rw [isNameChar, hr.1, hr.2, Bool.true_and, Bool.and_true]
  rw [name?, cutName, leading?, leading?, takeWhile_congr hsame]

theorem name?_append_hash (xs ys : List Char) : name? (xs ++ '#' :: ys) = name? xs := by
  have hrun : (xs ++ '#' :: ys).takeWhile isNameChar = xs.takeWhile isNameChar := by
    induction xs with
    | nil => rfl
    | cons c cs ih => rw [List.cons_append, List.takeWhile_cons, List.takeWhile_cons, ih]
  rw [name?, name?, leading?, leading?, hrun]

theorem name?_of_hash (ys : List Char) : name? ('#' :: ys) = none := rfl

theorem mem_cut : name ∈ cut names ↔ ∃ n ∈ names, cutName n = some name := by
  rw [cut, NameSet.mem_ofList, List.mem_filterMap]

theorem mem_of_mem_cut {s : NameSet} (hs : ∀ n ∈ s, cutName n = some n) (hnames : ∀ n ∈ names, n ∈ s)
    (h : name ∈ cut names) : name ∈ s := by
  obtain ⟨n, hn, hc⟩ := mem_cut.mp h
  rw [hs n (hnames n hn)] at hc
  exact Option.some.inj hc ▸ hnames n hn

theorem cut_congr {others : List String} (h : ∀ n, n ∈ names ↔ n ∈ others) :
    cut names = cut others := by
  ext name
  rw [mem_cut, mem_cut]
  exact exists_congr fun n => by rw [h n]

end Names

section Appending

theorem recorded_append {old new : String} {rest : List Char} (hnew : new.toList = '#' :: rest) :
    recorded (old ++ new) = (recorded old).union (recorded new) := by
  obtain ⟨front, last, hold, happend⟩ := exists_lines_append old.toList
  obtain ⟨first, more, hrest⟩ := List.exists_cons_of_ne_nil (lines_ne_nil rest)
  have hlines : Text.lines new.toList = ('#' :: first) :: more := by
    rw [hnew, lines_cons_of_not_break rfl, hrest, List.modifyHead_cons]
  have hmeet : ¬MeetInBreak old.toList new.toList := by
    rintro ⟨-, h⟩
    rw [hnew] at h
    simp at h
  -- The line that the two texts may share keeps the name it had, since the comment ends it.
  have hboth : Text.lines (old ++ new).toList = front ++ (last ++ '#' :: first) :: more := by
    rw [String.toList_append, happend _ hmeet, hlines, List.modifyHead_cons]
  ext name
  simp only [recorded, NameSet.mem_union, NameSet.mem_ofList, hboth, hlines, hold,
    List.filterMap_append, List.filterMap_cons, List.filterMap_nil, name?_append_hash,
    name?_of_hash, List.mem_append]
  cases name? last <;> simp [or_assoc]

theorem recorded_append_line_feed (text : String) : recorded (text ++ "\n") = recorded text := by
  have htext : (text ++ "\n").toList = text.toList ++ ['\n'] := String.toList_append
  -- A line feed at the end adds no line that has a name on it.
  have hmem {line : List Char} {name : String} (h : name? line = some name) :
      line ∈ Text.lines (text.toList ++ ['\n']) ↔ line ∈ Text.lines text.toList := by
    have hne : line ≠ [] := by
      rintro rfl
      cases h
    have hlast : line ∉ Text.lines ['\n'] := by simp [Text.lines, isBreak, hne]
    rw [mem_lines_append hne (by simp [isBreak]), or_iff_left hlast]
  ext name
  simp only [recorded, htext, NameSet.mem_ofList, List.mem_filterMap]
  exact exists_congr fun line => and_congr_left fun h => hmem h

end Appending

section Rendering

def IsUnbroken (text : String) : Prop := ∀ c ∈ text.toList, isBreak c = false

theorem isUnbroken_of_all {text : String} (h : text.toList.all (fun c => !isBreak c) = true) :
    IsUnbroken text := by
  intro c hc
  have hb := List.all_eq_true.mp h c hc
  rwa [Bool.not_eq_true'] at hb

theorem IsUnbroken.append {a b : String} (ha : IsUnbroken a) (hb : IsUnbroken b) :
    IsUnbroken (a ++ b) := by
  intro c hc
  rw [String.toList_append, List.mem_append] at hc
  rcases hc with hc | hc
  · exact ha c hc
  · exact hb c hc

theorem isBreak_of_isDigit {c : Char} (h : c.isDigit = true) : isBreak c = false := by
  rw [isBreak, Bool.or_eq_false_iff, beq_eq_false_iff_ne, beq_eq_false_iff_ne]
  constructor
  · rintro rfl
    cases h
  · rintro rfl
    cases h

theorem isBreak_digitChar (n : Nat) : isBreak (Nat.digitChar n) = false := by
  by_cases hn : n < 16
  · have hall : ∀ m < 16, isBreak (Nat.digitChar m) = false := by decide
    exact hall n hn
  · rw [Nat.digitChar_eq_star.mpr (by omega)]
    rfl

theorem isUnbroken_repr (n : Nat) : IsUnbroken (toString n) := by
  intro c hc
  rw [Nat.toString_eq_repr, Nat.toList_repr] at hc
  exact isBreak_of_isDigit (Nat.isDigit_of_mem_toDigits (by decide) (by decide) hc)

theorem isUnbroken_toString (n : Int) : IsUnbroken (toString n) := by
  cases n with
  | ofNat n => exact isUnbroken_repr n
  | negSucc n =>
    have hsign : IsUnbroken "-" := isUnbroken_of_all (by decide)
    exact hsign.append (isUnbroken_repr (n + 1))

theorem isUnbroken_twoDigits (n : Nat) : IsUnbroken (Calendar.Stamp.twoDigits n) := by
  intro c hc
  simp only [Calendar.Stamp.twoDigits, String.toList_ofList, List.mem_cons, List.not_mem_nil,
    or_false] at hc
  rcases hc with rfl | rfl
  · exact isBreak_digitChar _
  · exact isBreak_digitChar _

theorem isUnbroken_monthName (n : Nat) : IsUnbroken (Calendar.Stamp.monthNames.getD n "") := by
  have hnames : Calendar.Stamp.monthNames.all (fun m => m.toList.all fun c => !isBreak c) = true := by
    decide
  have hall : ∀ name ∈ Calendar.Stamp.monthNames, IsUnbroken name :=
    fun name hm => isUnbroken_of_all (List.all_eq_true.mp hnames name hm)
  rw [List.getD_eq_getElem?_getD]
  cases h : Calendar.Stamp.monthNames[n]? with
  | none =>
    intro c hc
    cases hc
  | some name => exact hall name (List.mem_of_getElem? h)

theorem isUnbroken_clock (c : Calendar.Clock) : IsUnbroken c.text := by
  rw [Calendar.Clock.text]
  cases c.stamp? with
  | none => exact isUnbroken_of_all (by decide)
  | some stamp =>
    have hspace : IsUnbroken " " := isUnbroken_of_all (by decide)
    have hcolon : IsUnbroken ":" := isUnbroken_of_all (by decide)
    have hdate := (((isUnbroken_monthName (stamp.date.month - 1)).append hspace).append
      (isUnbroken_twoDigits stamp.date.day)).append hspace
    have hday := (hdate.append (isUnbroken_toString stamp.date.year)).append hspace
    have hminute := ((hday.append (isUnbroken_twoDigits stamp.hour)).append hcolon).append
      (isUnbroken_twoDigits stamp.minute)
    exact (hminute.append hcolon).append (isUnbroken_twoDigits stamp.second)

theorem isUnbroken_of_isToken {name : String} (h : IsToken name) : IsUnbroken name := by
  intro c hc
  have hr := h.2 c hc
  simp only [BuildLog.isRequirementChar, Bool.and_eq_true, Bool.not_eq_true'] at hr
  exact not_isBreak_of_not_isBlank hr.1

variable {l : Listing}

theorem toList_text (l : Listing) :
    (l.text ++ "\n").toList = (l.lines.map String.toList).flatMap fun line => line ++ ['\n'] := by
  have hjoin (first : String) (more : List String) :
      ("\n".intercalate (first :: more) ++ "\n").toList =
        ((first :: more).map String.toList).flatMap fun line => line ++ ['\n'] := by
    induction more generalizing first with
    | nil => simp
    | cons second more ih =>
      rw [String.intercalate_cons_cons, String.append_assoc, String.toList_append, ih]
      simp
  exact hjoin _ _

theorem exists_toList_header (l : Listing) : ∃ rest, l.header.toList = '#' :: rest := by
  change ∃ rest, ("# Generated by " ++ l.generator ++ " on " ++ l.clock.text).toList = '#' :: rest
  rw [String.toList_append, String.toList_append, String.toList_append]
  exact ⟨_, rfl⟩

theorem exists_toList_text (l : Listing) : ∃ rest, (l.text ++ "\n").toList = '#' :: rest := by
  obtain ⟨rest, hheader⟩ := exists_toList_header l
  rw [toList_text, lines, List.cons_append, List.map_cons, List.flatMap_cons, hheader]
  exact ⟨_, rfl⟩

theorem isUnbroken_of_mem_lines (hgen : IsUnbroken l.generator) (hnames : ∀ n ∈ l.names, IsToken n) :
    ∀ line ∈ l.lines, IsUnbroken line := by
  have hmarkers : IsUnbroken emptyMarker ∧ IsUnbroken partialMarker :=
    ⟨isUnbroken_of_all (by decide), isUnbroken_of_all (by decide)⟩
  intro line hline
  rw [lines, List.mem_append, List.mem_cons] at hline
  rcases hline with (rfl | hbody) | hpartial
  · have h1 : IsUnbroken "# Generated by " := isUnbroken_of_all (by decide)
    have h2 : IsUnbroken " on " := isUnbroken_of_all (by decide)
    exact ((h1.append hgen).append h2).append (isUnbroken_clock l.clock)
  · rw [body] at hbody
    split at hbody
    · rw [List.mem_singleton.mp hbody]
      exact hmarkers.1
    · exact isUnbroken_of_isToken (hnames line ((CodeUnits.sort_perm _).mem_iff.mp hbody))
  · split at hpartial
    · rw [List.mem_singleton.mp hpartial]
      exact hmarkers.2
    · cases hpartial

theorem lines_text (h : ∀ line ∈ l.lines, IsUnbroken line) :
    Text.lines (l.text ++ "\n").toList = l.lines.map String.toList ++ [[]] := by
  rw [toList_text, lines_flatMap_line_feed]
  intro line hline
  obtain ⟨text, htext, rfl⟩ := List.mem_map.mp hline
  exact h text htext

theorem recorded_text (hgen : IsUnbroken l.generator) (hnames : ∀ n ∈ l.names, IsToken n) :
    recorded (l.text ++ "\n") = cut l.names := by
  have hlines := lines_text (isUnbroken_of_mem_lines hgen hnames)
  have hheader : name? l.header.toList = none := by
    obtain ⟨rest, he⟩ := exists_toList_header l
    rw [he]
    exact name?_of_hash rest
  have hbody : l.body.filterMap (fun n => name? n.toList) = (CodeUnits.sort l.names).filterMap cutName := by
    rw [body]
    split
    · rename_i he
      have hsort : CodeUnits.sort [] = [] := List.mergeSort_nil
      rw [he, hsort]
      rfl
    · apply List.filterMap_congr
      intro n hn
      exact name?_of_isToken (hnames n ((CodeUnits.sort_perm _).mem_iff.mp hn))
  have hmarker : (if l.isPartial then [partialMarker] else []).filterMap (fun n => name? n.toList) =
      [] := by
    split <;> rfl
  have hlast : ([[]] : List (List Char)).filterMap name? = [] := rfl
  have hnames? : (l.lines.map String.toList).filterMap name? =
      (CodeUnits.sort l.names).filterMap cutName := by
    rw [List.filterMap_map, Function.comp_def, lines, List.filterMap_append, List.filterMap_cons,
      hheader, hbody, hmarker, List.append_nil]
  rw [recorded, hlines, List.filterMap_append, hnames?, hlast, List.append_nil]
  exact cut_congr fun n => (CodeUnits.sort_perm _).mem_iff

theorem recorded_decode_append (bytes : List UInt8) (l : Listing) :
    recorded (Utf8.decode (bytes ++ Utf8.encode (l.text ++ "\n"))) =
      (recorded (Utf8.decode bytes)).union (recorded l.text) := by
  obtain ⟨rest, htext⟩ := exists_toList_text l
  rw [Utf8.decode_append_encode, recorded_append htext, recorded_append_line_feed]

end Rendering

end BuildRequirements.Listing
