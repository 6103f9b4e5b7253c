import BuildRequirements.BuildLog
import BuildRequirements.Proofs.Text.LineBreaks
import Mathlib.Data.List.DropRight
import Mathlib.Data.List.TakeWhile

/-!
The requirements of a log, read off its text as a whole: each stands where the text announces it, and
a log that was cut short announces no others, but for one that the cut has shortened.
-/

namespace BuildRequirements.BuildLog

open Text

structure Announces (before indent name after : String) : Prop where
  lineStart : IsClosed before.toList
  indented : indent ≠ ""
  indent_blank : ∀ c ∈ indent.toList, isBlank c = true ∧ isBreak c = false
  named : name ≠ ""
  name_chars : ∀ c ∈ name.toList, isBlank c = false ∧ c ≠ ';'
  nameEnd : ∀ c ∈ after.toList.head?, isBlank c = true ∨ c = ';'

def Announced (text name : String) : Prop :=
  ∃ before indent after, Announces before indent name after ∧
    text = before ++ indent ++ "Collecting " ++ name ++ after

variable {name text before indent after kept lost : String} {line rest : List Char} {c : Char}

theorem isRequirementChar_iff : isRequirementChar c = true ↔ isBlank c = false ∧ c ≠ ';' := by
  simp [isRequirementChar]

theorem isRequirementChar_eq_false_iff :
    isRequirementChar c = false ↔ isBlank c = true ∨ c = ';' := by
  rw [← Bool.not_eq_true, isRequirementChar_iff]
  cases isBlank c <;> simp

theorem eq_false_of_mem_head?_dropWhile {accept : Char → Bool} {cs : List Char}
    (hc : c ∈ (cs.dropWhile accept).head?) : accept c = false := by
  have h := List.head?_dropWhile_not accept cs
  rw [Option.mem_def.mp hc] at h
  simpa using h

section Lines

theorem collected?_eq_some_iff :
    collected? line = some name ↔
      ∃ indent rest, line = indent ++ (announcement ++ (name.toList ++ rest)) ∧ indent ≠ [] ∧
        (∀ c ∈ indent, isBlank c = true) ∧ name ≠ "" ∧
        (∀ c ∈ name.toList, isRequirementChar c = true) ∧
        ∀ c ∈ rest.head?, isRequirementChar c = false := by
  rw [collected?]
  constructor
  · intro h
    split at h
    · rename_i hblank
      obtain ⟨behind, hbehind, hname⟩ := Option.bind_eq_some_iff.mp h
      obtain ⟨hne, hrun⟩ := leading?_eq_some_iff.mp hname
      have hparts : name.toList ++ behind.dropWhile isRequirementChar = behind := by
        rw [hrun, List.takeWhile_append_dropWhile]
      refine ⟨line.takeWhile isBlank, behind.dropWhile isRequirementChar, ?_, ?_, ?_, hne, ?_, ?_⟩
      · rw [hparts, List.isPrefixOf?_eq_some_iff_append_eq.mp hbehind,
          List.takeWhile_append_dropWhile]
      · cases line with
        | nil => cases hblank
        | cons c cs =>
          have hc : isBlank c = true := hblank
          simp [hc]
      · exact fun c hc => List.mem_takeWhile_imp hc
      · intro c hc
        rw [hrun] at hc
        exact List.mem_takeWhile_imp hc
      · exact fun c hc => eq_false_of_mem_head?_dropWhile hc
    · cases h
  · rintro ⟨indent, rest, rfl, hindent, hblank, hne, hname, hrest⟩
    have hhead : (indent ++ (announcement ++ (name.toList ++ rest))).head?.any isBlank = true := by
      obtain ⟨c, cs, rfl⟩ := List.exists_cons_of_ne_nil hindent
      exact hblank c List.mem_cons_self
    have hdrop : (indent ++ (announcement ++ (name.toList ++ rest))).dropWhile isBlank =
        announcement ++ (name.toList ++ rest) := by
      rw [List.dropWhile_append_of_pos hblank]
      rfl
    rw [if_pos hhead, hdrop, List.isPrefixOf?_eq_some_iff_append_eq.mpr rfl]
    exact leading?_append hne hname hrest

theorem toList_announcing :
    (before ++ indent ++ "Collecting " ++ name ++ after).toList =
      before.toList ++ (indent.toList ++ (announcement ++ (name.toList ++ after.toList))) := by
  have hkeyword : "Collecting ".toList = announcement := rfl
  simp only [String.toList_append, hkeyword, List.append_assoc]

theorem Announces.collected?_eq (h : Announces before indent name after)
    (hrest : ∀ c ∈ rest.head?, isRequirementChar c = false) :
    collected? (indent.toList ++ (announcement ++ (name.toList ++ rest))) = some name := by
  have hindent : indent.toList ≠ [] := by simpa using h.indented
  exact collected?_eq_some_iff.mpr ⟨_, _, rfl, hindent, fun c hc => (h.indent_blank c hc).1, h.named,
    fun c hc => isRequirementChar_iff.mpr (h.name_chars c hc), hrest⟩

theorem Announces.unbroken (h : Announces before indent name after)
    (hrest : ∀ c ∈ rest, isBreak c = false) :
    ∀ c ∈ indent.toList ++ (announcement ++ (name.toList ++ rest)), isBreak c = false := by
  have hkeyword : announcement.all (fun c => !isBreak c) = true := by decide
  intro c hc
  simp only [List.mem_append] at hc
  rcases hc with hc | hc | hc | hc
  · exact (h.indent_blank c hc).2
  · simpa using List.all_eq_true.mp hkeyword c hc
  · exact not_isBreak_of_not_isBlank (h.name_chars c hc).1
  · exact hrest c hc

theorem Announces.mem_requirements (h : Announces before indent name after) :
    name ∈ requirements (before ++ indent ++ "Collecting " ++ name ++ after) := by
  -- The line goes on to the first break after the name.
  let rest := after.toList.takeWhile fun c => !isBreak c
  let behind := after.toList.dropWhile fun c => !isBreak c
  have hafter : rest ++ behind = after.toList := List.takeWhile_append_dropWhile
  have hrest : ∀ c ∈ rest.head?, isRequirementChar c = false := by
    intro c hc
    rw [List.head?_takeWhile] at hc
    exact isRequirementChar_eq_false_iff.mpr (h.nameEnd c (Option.mem_filter_iff.mp hc).1)
  have hunbroken : ∀ c ∈ rest, isBreak c = false := by
    intro c hc
    simpa using List.mem_takeWhile_imp hc
  have hbehind : ∀ c ∈ behind.head?, isBreak c = true := by
    intro c hc
    simpa using eq_false_of_mem_head?_dropWhile hc
  have htext : (before ++ indent ++ "Collecting " ++ name ++ after).toList =
      before.toList ++ ((indent.toList ++ (announcement ++ (name.toList ++ rest))) ++ behind) := by
    rw [toList_announcing, ← hafter]
    simp only [List.append_assoc]
  have hline : indent.toList ++ (announcement ++ (name.toList ++ rest)) ≠ [] :=
    List.append_ne_nil_of_left_ne_nil (by simpa using h.indented) _
  rw [BuildLog.mem_requirements, htext]
  exact ⟨_, mem_lines_around hline h.lineStart (h.unbroken hunbroken) hbehind, h.collected?_eq hrest⟩

theorem exists_announces {front back : List (List Char)} (hline : collected? line = some name)
    (hlines : lines text.toList = front ++ line :: back) :
    ∃ before indent after, Announces before indent name after ∧
      text = before ++ indent ++ "Collecting " ++ name ++ after ∧ (back ≠ [] → after ≠ "") := by
  obtain ⟨indent, rest, rfl, hindent, hblank, hne, hname, hrest⟩ := collected?_eq_some_iff.mp hline
  obtain ⟨before, behind, htext, hbefore, hunbroken, hbehind, hlast⟩ := exists_around_line hlines
  refine ⟨String.ofList before, String.ofList indent, String.ofList (rest ++ behind), ?_, ?_, ?_⟩
  · refine ⟨by simpa using hbefore, by simpa using hindent, ?_, hne, ?_, ?_⟩
    · intro c hc
      rw [String.toList_ofList] at hc
      exact ⟨hblank c hc, hunbroken c (List.mem_append_left _ hc)⟩
    · exact fun c hc => isRequirementChar_iff.mp (hname c hc)
    · intro c hc
      rw [String.toList_ofList] at hc
      cases rest with
      | nil => exact Or.inl (isBlank_of_isBreak (hbehind c hc))
      | cons d ds => exact isRequirementChar_eq_false_iff.mp (hrest c hc)
  · apply String.toList_injective
    rw [toList_announcing, htext]
    simp
  · intro hback hnil
    rw [String.ofList_eq_empty_iff, List.append_eq_nil_iff] at hnil
    exact hback (hlast.mp hnil.2)

theorem mem_requirements_iff : name ∈ requirements text ↔ Announced text name := by
  constructor
  · intro h
    obtain ⟨line, hmem, hline⟩ := BuildLog.mem_requirements.mp h
    obtain ⟨front, back, hlines⟩ := List.append_of_mem hmem
    obtain ⟨before, indent, after, hann, htext, -⟩ := exists_announces hline hlines
    exact ⟨before, indent, after, hann, htext⟩
  · rintro ⟨before, indent, after, hann, rfl⟩
    exact hann.mem_requirements

theorem requirements_announced (text : String) :
    (∀ name, name ∈ requirements text ↔ Announced text name) ∧
      (requirements text).toList.Pairwise (fun a b => CodeUnits.compare a b = .lt) ∧
      ∀ names : List String, names.Pairwise (fun a b => CodeUnits.compare a b = .lt) →
        (∀ name, name ∈ names ↔ Announced text name) → (requirements text).toList = names := by
  refine ⟨fun name => mem_requirements_iff, (requirements text).increasing, ?_⟩
  intro names hnames hmem
  apply NameSet.eq_of_increasing (requirements text).increasing hnames
  intro name
  rw [hmem, ← mem_requirements_iff, NameSet.mem_def]

example : (requirements "\u00A0Collecting b;x\rCollecting c\n\t\u2028Collecting a d").toList =
    ["a", "b"] := by
  decide +kernel

end Lines

section Truncation

/-- A name that only the part of a log that was kept announces. -/
def IsStray (kept lost name : String) : Prop :=
  name ∈ requirements kept ∧ name ∉ requirements (kept ++ lost)

structure IsSafelyCut (kept lost : String) : Prop where
  stray_unique : ∀ a b, IsStray kept lost a → IsStray kept lost b → a = b
  stray_shortened : ∀ name, IsStray kept lost name →
    (∃ front, kept = front ++ name) ∧ name ≠ "" ∧
      ∃ longer ∈ requirements (kept ++ lost), ∃ more, more ≠ "" ∧ longer = name ++ more
  complete : ∀ line ∈ (lines kept.toList).dropLast, ∀ name, collected? line = some name →
    name ∈ requirements kept ∧ name ∈ requirements (kept ++ lost)
  closed : IsClosed kept.toList →
    ∀ name ∈ requirements kept, name ∈ requirements (kept ++ lost)
  uncut : (∀ c ∈ lost.toList.head?, isBlank c = true ∨ c = ';') →
    ∀ name ∈ requirements kept, name ∈ requirements (kept ++ lost)

theorem Announces.append (h : Announces before indent name after) (hafter : after ≠ "")
    (more : String) : Announces before indent name (after ++ more) := by
  refine ⟨h.lineStart, h.indented, h.indent_blank, h.named, h.name_chars, ?_⟩
  rw [String.toList_append, List.head?_append_of_ne_nil _ (by simpa using hafter)]
  exact h.nameEnd

def continuation (text : String) : String :=
  String.ofList (text.toList.takeWhile isRequirementChar)

theorem Announces.extend (h : Announces before indent name "") (lost : String) :
    Announces before indent (name ++ continuation lost)
      (String.ofList (lost.toList.dropWhile isRequirementChar)) := by
  refine ⟨h.lineStart, h.indented, h.indent_blank, by simp [h.named], ?_, ?_⟩
  · intro c hc
    rw [String.toList_append, continuation, String.toList_ofList, List.mem_append] at hc
    rcases hc with hc | hc
    · exact h.name_chars c hc
    · exact isRequirementChar_iff.mp (List.mem_takeWhile_imp hc)
  · intro c hc
    rw [String.toList_ofList] at hc
    exact isRequirementChar_eq_false_iff.mp (eq_false_of_mem_head?_dropWhile hc)

theorem Announces.mem_requirements_append (h : Announces before indent name after)
    (hafter : after ≠ "") (lost : String) :
    name ∈ requirements (before ++ indent ++ "Collecting " ++ name ++ after ++ lost) := by
  rw [String.append_assoc]
  exact (h.append hafter lost).mem_requirements

theorem Announces.mem_requirements_extend (h : Announces before indent name "") (lost : String) :
    name ++ continuation lost ∈
      requirements (before ++ indent ++ "Collecting " ++ name ++ lost) := by
  have hparts : continuation lost ++ String.ofList (lost.toList.dropWhile isRequirementChar) = lost := by
    apply String.toList_injective
    simp [continuation]
  have hmem := (h.extend lost).mem_requirements
  rwa [← String.append_assoc, String.append_assoc, hparts] at hmem

theorem rtakeWhile_append_cons {accept : Char → Bool} {xs ys : List Char} {c : Char}
    (hc : accept c = false) (hys : ∀ d ∈ ys, accept d = true) :
    (xs ++ c :: ys).rtakeWhile accept = ys := by
  have hall : ∀ d ∈ ys.reverse, accept d = true := fun d hd => hys d (List.mem_reverse.mp hd)
  rw [List.rtakeWhile, List.reverse_append, List.reverse_cons, List.append_assoc,
    List.takeWhile_append_of_pos hall, List.singleton_append, List.takeWhile_cons, hc,
    if_neg (by simp), List.append_nil, List.reverse_reverse]

theorem Announces.rtakeWhile_eq (h : Announces before indent name "") :
    (before ++ indent ++ "Collecting " ++ name).toList.rtakeWhile isRequirementChar =
      name.toList := by
  have hkeyword : "Collecting ".toList = "Collecting".toList ++ [' '] := rfl
  have htext : (before ++ indent ++ "Collecting " ++ name).toList =
      (before.toList ++ (indent.toList ++ "Collecting".toList)) ++ ' ' :: name.toList := by
    simp only [String.toList_append, hkeyword, List.append_assoc, List.singleton_append]
  rw [htext]
  exact rtakeWhile_append_cons rfl fun c hc => isRequirementChar_iff.mpr (h.name_chars c hc)

theorem IsStray.exists_announces (h : IsStray kept lost name) :
    ∃ before indent, Announces before indent name "" ∧
      kept = before ++ indent ++ "Collecting " ++ name := by
  obtain ⟨before, indent, after, hann, rfl⟩ := mem_requirements_iff.mp h.1
  by_cases hafter : after = ""
  · subst hafter
    exact ⟨before, indent, hann, String.append_empty⟩
  -- With anything behind it the name is read off the whole log as well.
  · exact absurd (hann.mem_requirements_append hafter lost) h.2

theorem IsStray.rtakeWhile_eq (h : IsStray kept lost name) :
    kept.toList.rtakeWhile isRequirementChar = name.toList := by
  obtain ⟨before, indent, hann, rfl⟩ := h.exists_announces
  exact hann.rtakeWhile_eq

theorem IsStray.continuation_ne (h : IsStray kept lost name) : continuation lost ≠ "" := by
  obtain ⟨before, indent, hann, rfl⟩ := h.exists_announces
  intro hnil
  have hmem := hann.mem_requirements_extend lost
  rw [hnil, String.append_empty] at hmem
  exact h.2 hmem

theorem IsStray.shortened (h : IsStray kept lost name) :
    (∃ front, kept = front ++ name) ∧ name ≠ "" ∧
      ∃ longer ∈ requirements (kept ++ lost), ∃ more, more ≠ "" ∧ longer = name ++ more := by
  have hne := h.continuation_ne
  obtain ⟨before, indent, hann, rfl⟩ := h.exists_announces
  exact ⟨⟨_, rfl⟩, hann.named, _, hann.mem_requirements_extend lost, _, hne, rfl⟩

theorem mem_requirements_of_complete (hline : line ∈ (lines kept.toList).dropLast)
    (hname : collected? line = some name) (lost : String) :
    name ∈ requirements kept ∧ name ∈ requirements (kept ++ lost) := by
  obtain ⟨front, back, hfront⟩ := List.append_of_mem hline
  have hlines : lines kept.toList =
      front ++ line :: (back ++ [(lines kept.toList).getLast (lines_ne_nil _)]) := by
    rw [← List.cons_append, ← List.append_assoc, ← hfront, List.dropLast_append_getLast]
  obtain ⟨before, indent, after, hann, rfl, hafter⟩ := BuildLog.exists_announces hname hlines
  exact ⟨hann.mem_requirements, hann.mem_requirements_append (hafter (by simp)) lost⟩

theorem not_isStray_of_isClosed (hclosed : IsClosed kept.toList) :
    ¬IsStray kept lost name := by
  intro h
  obtain ⟨before, indent, hann, rfl⟩ := h.exists_announces
  have hne : name.toList ≠ [] := by simpa using hann.named
  rw [String.toList_append, isClosed_append hne] at hclosed
  have hlast := List.getLast_mem hne
  have hbreak := isBlank_of_isBreak (hclosed _ (List.getLast?_eq_some_getLast hne))
  rw [(hann.name_chars _ hlast).1] at hbreak
  cases hbreak

theorem not_isStray_of_uncut (hlost : ∀ c ∈ lost.toList.head?, isBlank c = true ∨ c = ';') :
    ¬IsStray kept lost name := by
  intro h
  apply h.continuation_ne
  rw [continuation]
  cases hcs : lost.toList with
  | nil => rfl
  | cons c cs =>
    rw [hcs] at hlost
    rw [List.takeWhile_cons, isRequirementChar_eq_false_iff.mpr (hlost c rfl), if_neg (by simp)]

theorem requirements_truncated (kept lost : String) : IsSafelyCut kept lost where
  stray_unique a b ha hb := by
    apply String.toList_injective
    rw [← ha.rtakeWhile_eq, hb.rtakeWhile_eq]
  stray_shortened name h := h.shortened
  complete line hline name hname := mem_requirements_of_complete hline hname lost
  closed hclosed name hname := by
    by_contra hmem
    exact not_isStray_of_isClosed hclosed ⟨hname, hmem⟩
  uncut hlost name hname := by
    by_contra hmem
    exact not_isStray_of_uncut hlost ⟨hname, hmem⟩

example : (requirements "  Collecting flit\n  Collecting whe").toList = ["flit", "whe"] ∧
    (requirements "  Collecting flit\n  Collecting wheel").toList = ["flit", "wheel"] := by
  decide +kernel

end Truncation

end BuildRequirements.BuildLog
