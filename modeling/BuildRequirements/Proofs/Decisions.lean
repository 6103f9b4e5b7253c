import BuildRequirements.Proofs.Updates

namespace BuildRequirements

open Text

namespace Update

structure IsDecision (p : Policy) (found : List String) (known : NameSet) (u : Update) : Prop where
  perm : u.names.Perm (if p.append then found.filter (· ∉ known) else found)
  sorted : u.names.Pairwise fun a b => (CodeUnits.compare a b).isLE = true
  skips_iff : u.verdict ≠ .write ↔
    p.onlyChanges = true ∧ (u.names = [] ∨
      u.names ≠ [] ∧ p.append = false ∧ (∀ n ∈ found, n ∈ known) ∧ ∀ n ∈ known, n ∈ found)
  nothingNew_iff : u.verdict = .nothingNew ↔ p.onlyChanges = true ∧ u.names = []
  unchanged_iff : u.verdict = .unchanged ↔
    p.onlyChanges = true ∧ u.names ≠ [] ∧ p.append = false ∧
      (∀ n ∈ found, n ∈ known) ∧ ∀ n ∈ known, n ∈ found

variable {p : Policy} {found names others : List String} {known : NameSet}

theorem ofList_effective_eq_iff (h : p.append = false) :
    NameSet.ofList (effective p.append found known) = known ↔
      (∀ n ∈ found, n ∈ known) ∧ ∀ n ∈ known, n ∈ found := by
  have hmem (n : String) : n ∈ effective p.append found known ↔ n ∈ found := by
    simp [h, mem_effective]
  rw [NameSet.ext_iff]
  simp only [NameSet.mem_ofList, hmem]
  constructor
  · intro hsame
    exact ⟨fun n => (hsame n).mp, fun n => (hsame n).mpr⟩
  · rintro ⟨hfound, hknown⟩ n
    exact ⟨hfound n, hknown n⟩

theorem isDecision (p : Policy) (found : List String) (known : NameSet) :
    IsDecision p found known (decide p found known) := by
  have hunchanged : (decide p found known).verdict = .unchanged ↔
      p.onlyChanges = true ∧ (decide p found known).names ≠ [] ∧ p.append = false ∧
        (∀ n ∈ found, n ∈ known) ∧ ∀ n ∈ known, n ∈ found := by
    rw [decide_eq, verdictOn_eq_unchanged]
    exact and_congr_right fun _ => and_congr_right fun _ => and_congr_right ofList_effective_eq_iff
  have hnothing : (decide p found known).verdict = .nothingNew ↔
      p.onlyChanges = true ∧ (decide p found known).names = [] := by
    rw [decide_eq]
    exact verdictOn_eq_nothingNew
  refine ⟨CodeUnits.sort_perm _, CodeUnits.pairwise_sort _, ?_, hnothing, hunchanged⟩
  rw [and_or_left, ← hnothing, ← hunchanged]
  cases (decide p found known).verdict <;> simp

theorem verdictOn_congr (h : ∀ n, n ∈ names ↔ n ∈ others) :
    verdictOn p names known = verdictOn p others known := by
  have hempty : names.isEmpty = others.isEmpty := by
    rw [Bool.eq_iff_iff, List.isEmpty_iff, List.isEmpty_iff, List.eq_nil_iff_forall_not_mem,
      List.eq_nil_iff_forall_not_mem]
    exact forall_congr' fun n => not_congr (h n)
  have hset : NameSet.ofList names = NameSet.ofList others := by
    ext n
    rw [NameSet.mem_ofList, NameSet.mem_ofList, h]
  have hmembers : known.hasMembers names = known.hasMembers others := by
    rw [Bool.eq_iff_iff, NameSet.hasMembers_iff, NameSet.hasMembers_iff, hset]
  rw [verdictOn, verdictOn, hempty, hmembers]

theorem verdict_congr (h : ∀ n, n ∈ found ↔ n ∈ others) :
    (decide p found known).verdict = (decide p others known).verdict := by
  rw [decide_eq, decide_eq]
  apply verdictOn_congr
  intro n
  rw [mem_effective, mem_effective, h n]

theorem sort_last (cells : Cells) (names : List String) :
    (cells ++ [names]).modify cells.length CodeUnits.sort = cells ++ [CodeUnits.sort names] := by
  rw [List.modify_eq_take_drop, List.take_left, List.drop_left]
  rfl

theorem run_decideIn (p : Policy) (before after : Cells) (found : List String) (known : NameSet) :
    (decideIn p before.length known).run (before ++ found :: after) =
      (((before ++ found :: after).length, (decide p found known).verdict),
        before ++ found :: after ++ [(decide p found known).names]) := by
  have hread : (before ++ found :: after).getD before.length [] = found := by
    simp
  generalize before ++ found :: after = cells at hread
  let picked := if p.append then found.filter (· ∉ known) else found
  have hlast : (cells ++ [CodeUnits.sort picked]).getD cells.length [] = CodeUnits.sort picked := by
    simp
  have hrun : (decideIn p before.length known).run cells =
      ((cells.length,
        verdictOn p (((cells ++ [picked]).modify cells.length CodeUnits.sort).getD cells.length [])
          known), (cells ++ [picked]).modify cells.length CodeUnits.sort) := by
    simp only [picked, ← hread]
    rfl
  rw [hrun, sort_last, hlast, decide_eq]
  rfl

theorem decided_by_members (p : Policy) (found : List String) (known : NameSet) :
    IsDecision p found known (decide p found known) ∧
      (∀ others, (∀ n, n ∈ found ↔ n ∈ others) →
        (decide p found known).verdict = (decide p others known).verdict) ∧
      ∀ before after : Cells,
        (decideIn p before.length known).run (before ++ found :: after) =
          (((before ++ found :: after).length, (decide p found known).verdict),
            before ++ found :: after ++ [(decide p found known).names]) :=
  ⟨isDecision p found known, fun _ => verdict_congr, fun before after =>
    run_decideIn p before after found known⟩

-- As many different names as were recorded, but not the same ones.
theorem decided_by_members_of_repeated :
    (∀ n, n ∈ ["a", "c", "a"] ↔ n ∈ ["c", "a"]) ∧
      (decide ⟨false, true⟩ ["a", "c", "a"] (NameSet.ofList ["a", "b"])).verdict =
        (decide ⟨false, true⟩ ["c", "a"] (NameSet.ofList ["a", "b"])).verdict ∧
      (decide ⟨false, true⟩ ["a", "c", "a"] (NameSet.ofList ["a", "b"])).verdict = .write := by
  have hsame : ∀ n, n ∈ ["a", "c", "a"] ↔ n ∈ ["c", "a"] := by
    intro n
    simp only [List.mem_cons, List.not_mem_nil, or_false]
    tauto
  have hmembers := decided_by_members ⟨false, true⟩ ["a", "c", "a"] (NameSet.ofList ["a", "b"])
  refine ⟨hsame, hmembers.2.1 ["c", "a"] hsame, ?_⟩
  by_contra hskip
  obtain ⟨-, hnil | ⟨-, -, hfound, -⟩⟩ := hmembers.1.skips_iff.mp hskip
  · have hlength := hmembers.1.perm.length_eq
    rw [hnil] at hlength
    cases hlength
  · exact absurd (hfound "c" (by simp)) (by decide)

end Update

end BuildRequirements
