import BuildRequirements.Proofs.Arguments.Grammar

namespace BuildRequirements.Arguments

variable {b c : Arguments} {pre ws vs : List String} {w v value : String}

inductive Front (b : Arguments) (pre : List String) : Prop where
  | ends (r : Except Misuse Arguments) (hhelp : ∀ a, r = .ok a → a.help = true)
      (hread : ∀ ws, read b (pre ++ ws) = r)
  | goesOn (c : Arguments) (hread : ∀ ws, read b (pre ++ ws) = read c ws)
  | awaits (option : String) (hread : ∀ w ws, isOption w = true →
      read b (pre ++ w :: ws) = .error (.missingValue option))

theorem Front.behind (front : List String) (hread : ∀ ws, read b (front ++ ws) = read c ws)
    (h : Front c pre) : Front b (front ++ pre) := by
  cases h with
  | ends r hhelp h =>
    refine .ends r hhelp fun ws => ?_
    rw [List.append_assoc, hread, h]
  | goesOn d h =>
    refine .goesOn d fun ws => ?_
    rw [List.append_assoc, hread, h]
  | awaits option h =>
    refine .awaits option fun w ws hw => ?_
    rw [List.append_assoc, hread, h w ws hw]

theorem front_of_not_mem (hpre : "--" ∉ pre) (b : Arguments) : Front b pre := by
  fun_induction read b pre with
  | case1 b => exact .goesOn b fun _ => rfl
  | case2 b w ws text hw ih =>
    refine .behind [w] (fun vs => ?_) (ih fun h => hpre (List.mem_cons_of_mem _ h))
    rw [List.singleton_append, read, hw]
  | case3 b w ws f hw ih =>
    refine .behind [w] (fun vs => ?_) (ih fun h => hpre (List.mem_cons_of_mem _ h))
    rw [List.singleton_append, read, hw]
  | case4 b w ws append hw =>
    refine .ends (.ok { b.addAppend append with help := true }) ?_ fun vs => ?_
    · rintro a ⟨⟩
      rfl
    · rw [List.cons_append, read, hw]
  | case5 b w ws append value hw ih =>
    refine .behind [w] (fun vs => ?_) (ih fun h => hpre (List.mem_cons_of_mem _ h))
    rw [List.singleton_append, read, hw]
  | case6 b w append option hw =>
    refine .awaits option fun v vs hv => ?_
    rw [List.singleton_append, read, hw]
    exact if_pos hv
  | case7 b w append option hw value ws ho =>
    refine .ends (.error (.missingValue option)) (fun a h => by cases h) fun vs => ?_
    rw [List.cons_append, List.cons_append, read, hw]
    exact if_pos ho
  | case8 b w append option hw value ws ho ih =>
    have hws : "--" ∉ ws := fun h => hpre (List.mem_cons_of_mem _ (List.mem_cons_of_mem _ h))
    refine .behind [w, value] (fun vs => ?_) (ih hws)
    rw [List.cons_append, List.singleton_append, read, hw]
    exact if_neg ho
  | case9 b w ws hw =>
    rw [Word.ofString_eq_iff (by simp)] at hw
    cases hw
    exact absurd List.mem_cons_self hpre
  | case10 b w ws m hw =>
    refine .ends (.error m) (fun a h => by cases h) fun vs => ?_
    rw [List.cons_append, read, hw]

theorem parse_congr (hpre : "--" ∉ pre) (hw : isOption w = true) (hv : isOption v = true)
    (h : ∀ b, read b (w :: ws) = read b (v :: vs)) : parse (pre ++ w :: ws) = parse (pre ++ v :: vs) := by
  rw [parse, parse]
  cases front_of_not_mem hpre {} with
  | ends r hhelp hread => rw [hread, hread]
  | goesOn c hread => rw [hread, hread, h]
  | awaits option hread => rw [hread _ _ hw, hread _ _ hv]

theorem parse_of_misuse {m : Misuse} {a : Arguments} (hpre : "--" ∉ pre) (hw : isOption w = true)
    (hm : Word.ofString w = .misuse m) (h : parse (pre ++ w :: ws) = .ok a) :
    a.help = true ∧ ∀ vs, parse (pre ++ vs) = .ok a := by
  rw [parse] at h
  cases front_of_not_mem hpre {} with
  | ends r hhelp hread =>
    rw [hread] at h
    exact ⟨hhelp a h, fun vs => (hread vs).trans h⟩
  | goesOn c hread =>
    rw [hread, read, hm] at h
    cases h
  | awaits option hread =>
    rw [hread _ _ hw] at h
    cases h

section Read

variable (b : Arguments) (post : List String)

theorem read_short (h : IsOperand value) :
    read b ("-o" :: value :: post) = read (b.add (.next value h)) post := by
  rw [add_next]
  exact read_next (Word.ofString_of_spelled (.shortNext 0)) h

theorem read_long (h : IsOperand value) :
    read b ("--output-file" :: value :: post) = read (b.add (.next value h)) post :=
  read_words b (.next value h) post

theorem read_inline (h : IsOperand value) (hne : value ≠ "") :
    read b (("--output-file=" ++ value) :: post) = read (b.add (.next value h)) post := by
  rw [add_next, ← add_inline b hne]
  exact read_words b (.inline value hne) post

theorem shortWord_attached (n : Nat) (value : String) :
    shortWord n ('o' :: value.toList) = shortWord n ['o'] ++ value := by
  apply String.toList_injective
  rw [String.toList_append, shortWord, shortWord, String.toList_ofList, String.toList_ofList]
  simp

theorem read_attached (h : IsOperand value) (hne : value ≠ "") :
    read b (("-o" ++ value) :: post) = read (b.add (.next value h)) post := by
  have hword : shortWord 0 ('o' :: value.toList) = "-o" ++ value := shortWord_attached 0 value
  have hadd : b.add (.attached 0 value hne) = b.add (.next value h) := by
    rw [add_attached, add_next]
    rfl
  rw [← hadd, ← hword]
  exact read_words b (.attached 0 value hne) post

theorem read_append_short : read b ("-ao" :: post) = read b ("-a" :: "-o" :: post) := by
  have hcluster : Word.ofString "-ao" = .outputNext true "-o" := rfl
  have happend : Word.ofString "-a" = .flag .append := rfl
  have hshort : Word.ofString "-o" = .outputNext false "-o" := rfl
  have hset : (b.set .append).addAppend false = b.addAppend true := by simp [set, addAppend]
  rw [read, hcluster, read, happend]
  dsimp only
  rw [read, hshort]
  dsimp only
  rw [hset]

theorem read_append_attached (value : String) :
    read b (("-ao" ++ value) :: post) = read b ("-a" :: ("-o" ++ value) :: post) := by
  by_cases hne : value = ""
  · rw [hne, String.append_empty, String.append_empty]
    exact read_append_short b post
  · have hcluster : shortWord 1 ('o' :: value.toList) = "-ao" ++ value := shortWord_attached 1 value
    have hshort : shortWord 0 ('o' :: value.toList) = "-o" ++ value := shortWord_attached 0 value
    have hadd : b.add (.attached 1 value hne) = (b.add (.short 0)).add (.attached 0 value hne) := by
      rw [add_attached, add_attached, add_short]
      simp [set, addAppend]
    rw [← hcluster, ← hshort]
    calc read b (shortWord 1 ('o' :: value.toList) :: post)
        = read (b.add (.attached 1 value hne)) post := read_words b (.attached 1 value hne) post
      _ = read ((b.add (.short 0)).add (.attached 0 value hne)) post := by rw [hadd]
      _ = read (b.add (.short 0)) (shortWord 0 ('o' :: value.toList) :: post) :=
          (read_words _ (.attached 0 value hne) post).symm
      _ = read b ("-a" :: shortWord 0 ('o' :: value.toList) :: post) :=
          (read_words b (.short 0) _).symm

end Read

theorem isOption_append (w : String) (h : isOption w = true) : isOption (w ++ value) = true := by
  rw [isOption] at h ⊢
  split at h
  · rename_i hw
    rw [String.toList_append, hw]
    rfl
  · cases h

theorem output_spellings (hpre : "--" ∉ pre) (hvalue : IsOperand value) (post : List String) :
    parse (pre ++ ["--output-file", value] ++ post) = parse (pre ++ ["-o", value] ++ post) ∧
      (value ≠ "" →
        parse (pre ++ ["--output-file=" ++ value] ++ post) = parse (pre ++ ["-o", value] ++ post) ∧
        parse (pre ++ ["-o" ++ value] ++ post) = parse (pre ++ ["-o", value] ++ post)) ∧
      parse (pre ++ ["-ao", value] ++ post) = parse (pre ++ ["-a", "-o", value] ++ post) ∧
      parse (pre ++ ["-ao" ++ value] ++ post) = parse (pre ++ ["-a", "-o" ++ value] ++ post) ∧
      ∀ a, parse (pre ++ ["--output-file="] ++ post) = .ok a →
        a.help = true ∧ parse (pre ++ ["-o", ""] ++ post) = .ok a := by
  simp only [List.append_assoc, List.cons_append, List.nil_append]
  refine ⟨?_, fun hne => ⟨?_, ?_⟩, ?_, ?_, ?_⟩
  · apply parse_congr hpre rfl rfl
    intro b
    rw [read_long b post hvalue, read_short b post hvalue]
  · apply parse_congr hpre (isOption_append _ rfl) rfl
    intro b
    rw [read_inline b post hvalue hne, read_short b post hvalue]
  · apply parse_congr hpre (isOption_append _ rfl) rfl
    intro b
    rw [read_attached b post hvalue hne, read_short b post hvalue]
  · exact parse_congr hpre rfl rfl fun b => read_append_short b _
  · exact parse_congr hpre (isOption_append _ rfl) rfl fun b => read_append_attached b post value
  · intro a ha
    have hmisuse : Word.ofString "--output-file=" = .misuse (.missingValue "--output-file") := rfl
    obtain ⟨hhelp, hany⟩ := parse_of_misuse hpre rfl hmisuse ha
    exact ⟨hhelp, hany _⟩

theorem output_spellings_of_dash :
    "--" ∉ ["in.txt", "-a"] ∧ IsOperand "-" ∧
      parse (["in.txt", "-a"] ++ ["--output-file=" ++ "-"] ++ ["--", "-x"]) =
        parse (["in.txt", "-a"] ++ ["-o", "-"] ++ ["--", "-x"]) ∧
      parse (["in.txt", "-a"] ++ ["-o", "-"] ++ ["--", "-x"]) =
        .ok { inputs := ["in.txt", "-x"], append := true, output := some "-" } := by
  have hpre : "--" ∉ ["in.txt", "-a"] := by decide
  have hvalue : IsOperand "-" := Or.inl rfl
  have hinline := ((output_spellings hpre hvalue ["--", "-x"]).2.1 (by decide)).1
  exact ⟨hpre, hvalue, hinline, rfl⟩

theorem not_output_spellings :
    ¬∀ (pre post : List String) (value : String), "--" ∉ pre → IsOperand value →
      (parse (pre ++ ["--output-file=" ++ value] ++ post)).toOption =
        (parse (pre ++ ["-o", value] ++ post)).toOption := by
  intro h
  have hempty := h ["in.txt"] [] "" (by decide) (Or.inr (by simp))
  revert hempty
  decide

end BuildRequirements.Arguments
