import BuildRequirements.Proofs.Listings

namespace BuildRequirements

open Text
open Listing (IsUnbroken)

namespace Text

inductive LineEnd where
  | lineFeed
  | carriageReturn
  | both
  deriving DecidableEq, Repr

def LineEnd.text : LineEnd → String
  | lineFeed => "\n"
  | carriageReturn => "\r"
  | both => "\r\n"

def laidOut (ls : List (String × LineEnd)) : String :=
  String.join (ls.map fun l => l.1 ++ l.2.text)

def namesOn (read? : List Char → Option String) (text : String) : NameSet :=
  NameSet.ofList ((lines text.toList).filterMap read?)

variable {read? : List Char → Option String} {line : List Char} {ys : List Char} {name : String}

theorem mem_namesOn {text : String} :
    name ∈ namesOn read? text ↔ ∃ line ∈ lines text.toList, read? line = some name := by
  simp [namesOn]

theorem mem_lines_lineEnd (e : LineEnd) (hne : line ≠ []) :
    line ∈ lines (e.text.toList ++ ys) ↔ line ∈ lines ys := by
  have hbreak (c : Char) (cs : List Char) (hc : isBreak c = true)
      (hcs : c = '\r' → cs.head? ≠ some '\n') : line ∈ lines (c :: cs) ↔ line ∈ lines cs := by
    rw [lines_cons_of_break hc hcs, List.mem_cons, or_iff_right hne]
  have hboth (cs : List Char) : line ∈ lines ('\r' :: '\n' :: cs) ↔ line ∈ lines cs := by
    rw [lines, List.mem_cons, or_iff_right hne]
  cases e with
  | lineFeed => exact hbreak '\n' ys rfl (by simp)
  | both => exact hboth ys
  | carriageReturn =>
    by_cases hys : ys.head? = some '\n'
    · obtain ⟨rest, rfl⟩ := List.head?_eq_some_iff.mp hys
      rw [hbreak '\n' rest rfl (by simp)]
      exact hboth rest
    · exact hbreak '\r' ys rfl fun _ => hys

theorem head?_lineEnd (e : LineEnd) : ∀ c ∈ (e.text.toList ++ ys).head?, isBreak c = true := by
  cases e <;> simp [LineEnd.text, isBreak]

theorem namesOn_separated (hnil : read? [] = none) (a b : String) (e : LineEnd) :
    namesOn read? (a ++ e.text ++ b) = (namesOn read? a).union (namesOn read? b) := by
  ext name
  rw [NameSet.mem_union, mem_namesOn, mem_namesOn, mem_namesOn, String.toList_append,
    String.toList_append, List.append_assoc]
  have hmem {line : List Char} (h : read? line = some name) :
      line ∈ lines (a.toList ++ (e.text.toList ++ b.toList)) ↔
        line ∈ lines a.toList ∨ line ∈ lines b.toList := by
    have hne : line ≠ [] := by
      rintro rfl
      rw [hnil] at h
      cases h
    rw [mem_lines_append hne (head?_lineEnd e), mem_lines_lineEnd e hne]
  constructor
  · rintro ⟨line, hl, h⟩
    exact ((hmem h).mp hl).imp (⟨line, ·, h⟩) (⟨line, ·, h⟩)
  · rintro (⟨line, hl, h⟩ | ⟨line, hl, h⟩)
    · exact ⟨line, (hmem h).mpr (Or.inl hl), h⟩
    · exact ⟨line, (hmem h).mpr (Or.inr hl), h⟩

theorem lines_of_isUnbroken {text : String} (h : IsUnbroken text) :
    lines text.toList = [text.toList] := by
  have happend : lines (text.toList ++ []) = (lines []).modifyHead (text.toList ++ ·) :=
    lines_append_of_not_break h
  rwa [List.append_nil, lines, List.modifyHead_cons, List.append_nil] at happend

theorem mem_namesOn_laidOut (hnil : read? [] = none) {ls : List (String × LineEnd)}
    (hls : ∀ l ∈ ls, IsUnbroken l.1) :
    name ∈ namesOn read? (laidOut ls) ↔ ∃ line ∈ ls.map Prod.fst, read? line.toList = some name := by
  induction ls with
  | nil => simp [mem_namesOn, laidOut, lines, hnil]
  | cons l ls ih =>
    obtain ⟨hl, hrest⟩ := List.forall_mem_cons.mp hls
    have htext : laidOut (l :: ls) = l.1 ++ l.2.text ++ laidOut ls := by
      simp [laidOut, String.join_cons]
    rw [htext, namesOn_separated hnil, NameSet.mem_union, ih hrest, mem_namesOn,
      lines_of_isUnbroken hl]
    simp

theorem namesOn_laidOut_congr (hnil : read? [] = none) {ls ms : List (String × LineEnd)}
    (hls : ∀ l ∈ ls, IsUnbroken l.1) (hms : ∀ l ∈ ms, IsUnbroken l.1)
    (h : ∀ line, line ∈ ls.map Prod.fst ↔ line ∈ ms.map Prod.fst) :
    namesOn read? (laidOut ls) = namesOn read? (laidOut ms) := by
  ext name
  rw [mem_namesOn_laidOut hnil hls, mem_namesOn_laidOut hnil hms]
  simp only [h]

end Text

theorem names_of_separated :
    (∀ (a b : String) (e : LineEnd),
      BuildLog.requirements (a ++ e.text ++ b) =
          (BuildLog.requirements a).union (BuildLog.requirements b) ∧
        Listing.recorded (a ++ e.text ++ b) = (Listing.recorded a).union (Listing.recorded b)) ∧
      ∀ ls ms : List (String × LineEnd), (∀ l ∈ ls, IsUnbroken l.1) → (∀ l ∈ ms, IsUnbroken l.1) →
        (∀ line, line ∈ ls.map Prod.fst ↔ line ∈ ms.map Prod.fst) →
        BuildLog.requirements (laidOut ls) = BuildLog.requirements (laidOut ms) ∧
          Listing.recorded (laidOut ls) = Listing.recorded (laidOut ms) := by
  have hcollected : BuildLog.collected? [] = none := rfl
  have hname : Listing.name? [] = none := rfl
  constructor
  · intro a b e
    exact ⟨namesOn_separated hcollected a b e, namesOn_separated hname a b e⟩
  · intro ls ms hls hms h
    exact ⟨namesOn_laidOut_congr hcollected hls hms h, namesOn_laidOut_congr hname hls hms h⟩

-- An empty line between a carriage return and a line feed.
theorem names_of_shuffled :
    BuildLog.requirements "  Collecting b\r\n  Collecting a\r" =
        BuildLog.requirements "  Collecting a\n\r\n  Collecting b\r\n  Collecting a\n" ∧
      (BuildLog.requirements "  Collecting b\r\n  Collecting a\r").toList = ["a", "b"] := by
  let ls : List (String × LineEnd) :=
    [("  Collecting b", .carriageReturn), ("", .lineFeed), ("  Collecting a", .carriageReturn)]
  let ms : List (String × LineEnd) :=
    [("  Collecting a", .lineFeed), ("", .both), ("  Collecting b", .both),
      ("  Collecting a", .lineFeed)]
  have hunbroken (rows : List (String × LineEnd))
      (h : rows.all (fun l => l.1.toList.all fun c => !isBreak c) = true) :
      ∀ l ∈ rows, IsUnbroken l.1 :=
    fun l hl => Listing.isUnbroken_of_all (List.all_eq_true.mp h l hl)
  have hls := hunbroken ls (by decide +kernel)
  have hms := hunbroken ms (by decide +kernel)
  have hsame : ∀ line, line ∈ ls.map Prod.fst ↔ line ∈ ms.map Prod.fst := by
    intro line
    simp only [ls, ms, List.map_cons, List.map_nil, List.mem_cons, List.not_mem_nil, or_false]
    tauto
  have hnames := (names_of_separated.2 ls ms hls hms hsame).1
  exact ⟨hnames, by decide +kernel⟩

end BuildRequirements
