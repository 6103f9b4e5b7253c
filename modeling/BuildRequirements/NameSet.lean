import BuildRequirements.Text.CodeUnits

/-!
Finite sets of names, kept as strictly increasing lists, so that two sets with the same members
are the same set.
-/

namespace BuildRequirements

open Text

structure NameSet where
  toList : List String
  increasing : toList.Pairwise fun a b => CodeUnits.compare a b = .lt
  deriving DecidableEq

namespace NameSet

def empty : NameSet := ⟨[], .nil⟩

instance : Membership String NameSet where
  mem s name := name ∈ s.toList

instance (name : String) (s : NameSet) : Decidable (name ∈ s) :=
  inferInstanceAs (Decidable (name ∈ s.toList))

theorem mem_def {name : String} {s : NameSet} : name ∈ s ↔ name ∈ s.toList := Iff.rfl

def insertOrdered (name : String) : List String → List String
  | [] => [name]
  | a :: as =>
    match CodeUnits.compare name a with
    | .lt => name :: a :: as
    | .eq => a :: as
    | .gt => a :: insertOrdered name as

theorem mem_insertOrdered {name a : String} {as : List String} :
    a ∈ insertOrdered name as ↔ a = name ∨ a ∈ as := by
  fun_induction insertOrdered name as with
  | case1 => simp
  | case2 => simp
  | case3 b bs h => simp [Std.LawfulEqCmp.eq_of_compare h]
  | case4 b bs h ih => simp [ih, or_left_comm]

theorem pairwise_insertOrdered {name : String} {as : List String}
    (ha : as.Pairwise fun a b => CodeUnits.compare a b = .lt) :
    (insertOrdered name as).Pairwise fun a b => CodeUnits.compare a b = .lt := by
  fun_induction insertOrdered name as with
  | case1 => simp
  | case2 b bs h =>
    refine .cons (fun c hc => ?_) ha
    rcases List.mem_cons.mp hc with rfl | hc
    · exact h
    · exact Std.TransCmp.lt_trans h (List.rel_of_pairwise_cons ha hc)
  | case3 => exact ha
  | case4 b bs h ih =>
    refine .cons (fun c hc => ?_) (ih ha.of_cons)
    rcases mem_insertOrdered.mp hc with rfl | hc
    · exact Std.OrientedCmp.lt_of_gt h
    · exact List.rel_of_pairwise_cons ha hc

def insert (name : String) (s : NameSet) : NameSet :=
  ⟨insertOrdered name s.toList, pairwise_insertOrdered s.increasing⟩

@[simp] theorem mem_insert {name a : String} {s : NameSet} :
    a ∈ s.insert name ↔ a = name ∨ a ∈ s :=
  mem_insertOrdered

def ofList (names : List String) : NameSet :=
  names.foldr insert empty

@[simp] theorem mem_ofList {a : String} {names : List String} : a ∈ ofList names ↔ a ∈ names := by
  induction names with
  | nil => simp [ofList, empty, mem_def]
  | cons b bs ih =>
    rw [List.mem_cons, ← ih]
    exact mem_insert

def union (s t : NameSet) : NameSet :=
  t.toList.foldr insert s

@[simp] theorem mem_union {a : String} {s t : NameSet} : a ∈ s.union t ↔ a ∈ s ∨ a ∈ t := by
  suffices h : ∀ l : List String, a ∈ l.foldr insert s ↔ a ∈ s ∨ a ∈ l from h t.toList
  intro l
  induction l with
  | nil => simp
  | cons b bs ih => simp [ih, or_left_comm]

theorem eq_of_increasing {as bs : List String}
    (ha : as.Pairwise fun a b => CodeUnits.compare a b = .lt)
    (hb : bs.Pairwise fun a b => CodeUnits.compare a b = .lt)
    (h : ∀ c, c ∈ as ↔ c ∈ bs) : as = bs := by
  induction as generalizing bs with
  | nil =>
    cases bs with
    | nil => rfl
    | cons b bs => simpa using h b
  | cons a as ih =>
    cases bs with
    | nil => simpa using h a
    | cons b bs =>
      have hab : a = b := by
        rcases List.mem_cons.mp ((h a).mp (.head as)) with he | hab
        · exact he
        · rcases List.mem_cons.mp ((h b).mpr (.head bs)) with he | hba
          · exact he.symm
          · have h1 := List.rel_of_pairwise_cons ha hba
            have h2 := List.rel_of_pairwise_cons hb hab
            rw [CodeUnits.compare_swap, h2] at h1
            cases h1
      subst hab
      have hn : ∀ {cs : List String}, (a :: cs).Pairwise (fun a b => CodeUnits.compare a b = .lt) →
          a ∉ cs := by
        intro cs hc hm
        have := List.rel_of_pairwise_cons hc hm
        rw [CodeUnits.compare_self] at this
        cases this
      rw [ih ha.of_cons hb.of_cons fun c => ?_]
      have hc := h c
      simp only [List.mem_cons] at hc
      by_cases he : c = a
      · subst he
        simp [hn ha, hn hb]
      · simpa [he] using hc

def size (s : NameSet) : Nat := s.toList.length

def hasMembers (s : NameSet) (names : List String) : Bool :=
  (ofList names).size == s.size && (ofList names).toList.all (· ∈ s)

@[ext] theorem ext {s t : NameSet} (h : ∀ a, a ∈ s ↔ a ∈ t) : s = t := by
  cases s
  cases t
  congr
  exact eq_of_increasing ‹_› ‹_› h

end NameSet

end BuildRequirements
