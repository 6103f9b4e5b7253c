import BuildRequirements.Proofs.Program.Output

namespace BuildRequirements

namespace Text

def linesOf (text : String) : List String :=
  let ls := lines text.toList
  (if ls.getLast? = some [] then ls.dropLast else ls).map String.ofList

section Lines

variable {old new : String} {front : List (List Char)} {last : List Char}

theorem linesOf_eq (h : lines old.toList = front ++ [last]) :
    linesOf old = (if last = [] then front else front ++ [last]).map String.ofList := by
  rw [linesOf, h, List.getLast?_concat, List.dropLast_concat]
  simp

theorem exists_lines_concat (text : String) :
    ∃ front last, lines text.toList = front ++ [last] :=
  ⟨_, _, (List.dropLast_append_getLast (lines_ne_nil text.toList)).symm⟩

theorem linesOf_of_isClosed (hold : IsClosed old.toList) (h : lines old.toList = front ++ [last]) :
    linesOf old = front.map String.ofList := by
  rw [linesOf_eq h, if_pos ((last_eq_nil_iff h).mpr hold)]

theorem isClosed_of_meetInBreak {xs ys : List Char} (h : MeetInBreak xs ys) : IsClosed xs := by
  intro c hc
  rw [h.1] at hc
  obtain rfl := Option.some.inj hc
  rfl

theorem eq_of_lines_eq_singleton {cs line : List Char} (h : lines cs = [line]) : cs = line := by
  rcases (lines_eq_cons h).2 with ⟨-, hcs⟩ | ⟨ends, rest, -, -, -, hrest⟩
  · exact hcs
  · exact absurd hrest (lines_ne_nil rest)

theorem linesOf_append_of_isClosed (hold : IsClosed old.toList)
    (hmeet : ¬MeetInBreak old.toList new.toList) :
    linesOf (old ++ new) = linesOf old ++ linesOf new := by
  obtain ⟨front, last, hfront, happend⟩ := exists_lines_append old.toList
  obtain ⟨more, final, hmore⟩ := exists_lines_concat new
  have hboth : lines (old ++ new).toList = (front ++ more) ++ [final] := by
    rw [String.toList_append, happend _ hmeet, (last_eq_nil_iff hfront).mpr hold,
      modifyHead_nil_append, hmore, List.append_assoc]
  rw [linesOf_of_isClosed hold hfront, linesOf_eq hmore, linesOf_eq hboth, ← List.map_append]
  split <;> simp

theorem linesOf_append_of_meetInBreak (hmeet : MeetInBreak old.toList new.toList) :
    linesOf (old ++ new) = linesOf old ++ (linesOf new).tail := by
  have hold := isClosed_of_meetInBreak hmeet
  obtain ⟨front, hfront, hboth⟩ := exists_lines_of_meetInBreak hmeet
  obtain ⟨cs, hcs⟩ := List.head?_eq_some_iff.mp hmeet.2
  obtain ⟨more, final, hmore⟩ := exists_lines_concat (String.ofList cs)
  rw [String.toList_ofList] at hmore
  rw [← String.toList_append, hcs, List.tail_cons, hmore, ← List.append_assoc] at hboth
  have hnew : lines new.toList = ([] :: more) ++ [final] := by
    rw [hcs, lines_cons_of_break rfl (by simp), hmore, List.cons_append]
  rw [linesOf_of_isClosed hold hfront, linesOf_eq hnew, linesOf_eq hboth]
  split <;> simp

theorem linesOf_append_of_open (hold : ¬IsClosed old.toList) (hnew : IsClosed new.toList)
    (hne : new ≠ "") :
    ∃ front last first more, linesOf old = front ++ [last] ∧ linesOf new = first :: more ∧
      linesOf (old ++ new) = front ++ (last ++ first) :: more := by
  obtain ⟨front, last, hfront, happend⟩ := exists_lines_append old.toList
  obtain ⟨more, final, hmore⟩ := exists_lines_concat new
  have hlast : last ≠ [] := fun h => hold ((last_eq_nil_iff hfront).mp h)
  have hfinal : final = [] := (last_eq_nil_iff hmore).mpr hnew
  have hmeet : ¬MeetInBreak old.toList new.toList := fun h => hold (isClosed_of_meetInBreak h)
  have hclosed : IsClosed (old ++ new).toList := by
    rwa [String.toList_append, isClosed_append (by simpa using hne)]
  cases more with
  | nil => exact absurd (eq_of_lines_eq_singleton hmore) (by simpa [hfinal] using hne)
  | cons first more =>
    -- No break ends `last`, so that `first` goes on with it.
    have hboth : lines (old ++ new).toList = (front ++ (last ++ first) :: more) ++ [final] := by
      rw [String.toList_append, happend _ hmeet, hmore]
      simp
    refine ⟨front.map String.ofList, String.ofList last, String.ofList first,
      more.map String.ofList, ?_, ?_, ?_⟩
    · rw [linesOf_eq hfront, if_neg hlast]
      simp
    · rw [linesOf_of_isClosed hnew hmore]
      rfl
    · rw [linesOf_of_isClosed hclosed hboth]
      simp

structure AppendedLines (old new : String) : Prop where
  closed : IsClosed old.toList → ¬MeetInBreak old.toList new.toList →
    linesOf (old ++ new) = linesOf old ++ linesOf new
  met : MeetInBreak old.toList new.toList →
    linesOf (old ++ new) = linesOf old ++ (linesOf new).tail
  unended : ¬IsClosed old.toList → ∃ front last first more,
    linesOf old = front ++ [last] ∧ linesOf new = first :: more ∧
      linesOf (old ++ new) = front ++ (last ++ first) :: more

theorem isClosed_append_line_feed (content : String) : IsClosed (content ++ "\n").toList := by
  rw [String.toList_append, isClosed_append (by simp)]
  exact isClosed_of_all (by simp [isBreak])

theorem appendedLines (old content : String) : AppendedLines old (content ++ "\n") where
  closed := linesOf_append_of_isClosed
  met := linesOf_append_of_meetInBreak
  unended hold := linesOf_append_of_open hold (isClosed_append_line_feed content) (by simp)

end Lines

end Text

namespace Program

open FileTree Run Text

section Delivery

variable {t u : FileTree} {s : RunState} {path old new content : String} {file : String × Location}
  {l : Listing}

theorem exists_write_of_locateFile (hfile : t.locateFile path = .ok file) (append : Bool)
    (bytes : List UInt8) : ∃ u, t.write append path bytes = .ok u := by
  rw [FileTree.write, hfile]
  dsimp only
  split <;> exact ⟨_, rfl⟩

theorem textAt_of_append (hold : textAt t path = .ok old)
    (hwrite : t.write true path (Utf8.encode new) = .ok u) : textAt u path = .ok (old ++ new) := by
  have hlocate := (write_eq_ok hwrite).1
  rw [textAt, read_of_write hwrite, contentAt, file?_of_write hwrite, if_pos rfl,
    Option.getD_some]
  dsimp only
  rw [Utf8.decode_append_encode, ← textAt_of_locate hlocate hold]

theorem not_meetInBreak_text (xs : List Char) (l : Listing) :
    ¬MeetInBreak xs (l.text ++ "\n").toList := by
  obtain ⟨rest, htext⟩ := Listing.exists_toList_text l
  rintro ⟨-, h⟩
  rw [htext] at h
  simp at h

theorem linesOf_text (h : ∀ line ∈ l.lines, Listing.IsUnbroken line) :
    linesOf (l.text ++ "\n") = l.lines := by
  rw [linesOf_eq (Listing.lines_text h), if_pos rfl, List.map_map]
  simp

end Delivery

theorem lines_of_appended {s : RunState} {path old : String} {file : String × Location}
    (content : String) (hfile : s.files.locateFile path = .ok file)
    (hold : textAt s.files path = .ok old) :
    outcome (deliver content (some path) true) s = .ok () ∧
      textAt (after (deliver content (some path) true) s).files path =
        .ok (old ++ (content ++ "\n")) ∧
      AppendedLines old (content ++ "\n") ∧
      ∀ l : Listing, content = l.text → ¬MeetInBreak old.toList (content ++ "\n").toList ∧
        ((∀ line ∈ l.lines, Listing.IsUnbroken line) → linesOf (content ++ "\n") = l.lines) := by
  obtain ⟨u, hwrite⟩ := exists_write_of_locateFile hfile true (Utf8.encode (content ++ "\n"))
  have hdeliver : deliver content (some path) true =
      writeBytes true path (Utf8.encode (content ++ "\n")) := write_of_sound ..
  refine ⟨?_, ?_, appendedLines old content, ?_⟩
  · rw [hdeliver, outcome_writeBytes, hwrite]
    rfl
  · rw [hdeliver, after_writeBytes, hwrite]
    exact textAt_of_append hold hwrite
  · rintro l rfl
    exact ⟨not_meetInBreak_text _ l, linesOf_text⟩

def wheelListing : Listing := ⟨generator, ⟨some 0, 0⟩, ["wheel"], false⟩

def holding (content : String) : RunState :=
  { files := FileTree.empty.put "out.txt" [] (.file (Utf8.encode content)) }

theorem lines_of_appended_to_ended :
    (holding "flit\r").files.locateFile "out.txt" = .ok ("out.txt", []) ∧
      textAt (holding "flit\r").files "out.txt" = .ok "flit\r" ∧
      textAt (after (deliver wheelListing.text (some "out.txt") true) (holding "flit\r")).files
          "out.txt" = .ok ("flit\r" ++ (wheelListing.text ++ "\n")) ∧
      linesOf ("flit\r" ++ (wheelListing.text ++ "\n")) =
        ["flit", "# Generated by find-builddeps on Jan 01 1970 00:00:00", "wheel"] := by
  have hfile : (holding "flit\r").files.locateFile "out.txt" = .ok ("out.txt", []) := by
    decide +kernel
  have hold : textAt (holding "flit\r").files "out.txt" = .ok "flit\r" := by decide +kernel
  obtain ⟨-, htext, hlines, hlisting⟩ := lines_of_appended wheelListing.text hfile hold
  obtain ⟨hmeet, hown⟩ := hlisting wheelListing rfl
  have hclosed : IsClosed "flit\r".toList := by
    rintro c ⟨⟩
    rfl
  have hchars : "wheel".toList.all BuildLog.isRequirementChar = true := by decide
  have htoken : ∀ n ∈ wheelListing.names, Listing.IsToken n := by
    intro n hn
    obtain rfl := List.mem_singleton.mp hn
    exact ⟨by decide, List.all_eq_true.mp hchars⟩
  have hunbroken := Listing.isUnbroken_of_mem_lines (l := wheelListing)
    (Listing.isUnbroken_of_all (by decide)) htoken
  have hparts : linesOf "flit\r" ++ wheelListing.lines =
      ["flit", "# Generated by find-builddeps on Jan 01 1970 00:00:00", "wheel"] := by decide +kernel
  refine ⟨hfile, hold, htext, ?_⟩
  rw [hlines.closed hclosed hmeet, hown hunbroken, hparts]

theorem not_lines_of_appended :
    ¬∀ (s : RunState) (path old text : String) (l : Listing), textAt s.files path = .ok old →
      outcome (deliver l.text (some path) true) s = .ok () →
      textAt (after (deliver l.text (some path) true) s).files path = .ok text →
      linesOf text = linesOf old ++ linesOf (l.text ++ "\n") := by
  intro h
  have hlines := h (holding "flit") "out.txt" "flit"
    "flit# Generated by find-builddeps on Jan 01 1970 00:00:00\nwheel\n" wheelListing
    (by decide +kernel) (by decide +kernel) (by decide +kernel)
  revert hlines
  decide +kernel

end Program

end BuildRequirements
