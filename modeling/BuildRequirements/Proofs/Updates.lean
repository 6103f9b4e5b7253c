import BuildRequirements.Proofs.Listings
import BuildRequirements.Proofs.NameSets

namespace BuildRequirements.Update

open Text
open Listing (cut cutName)

def recordedAfter (p : Policy) (found : List String) (old : NameSet) : NameSet :=
  if p.append then old.union (cut found)
  else if p.onlyChanges && found.isEmpty then old
  else cut found

variable {p : Policy} {found names : List String} {known old : NameSet} {name : String}

theorem mem_effective {append : Bool} :
    name ∈ effective append found known ↔ name ∈ found ∧ (append = true → name ∉ known) := by
  rw [effective, (CodeUnits.sort_perm _).mem_iff]
  cases append <;> simp

theorem effective_toList (append : Bool) (found known : NameSet) :
    effective append found.toList known =
      if append then found.toList.filter (· ∉ known) else found.toList := by
  have hsort {names : List String} (h : names.Pairwise fun a b => CodeUnits.compare a b = .lt) :
      CodeUnits.sort names = names := by
    apply List.mergeSort_of_pairwise
    apply h.imp
    intro _ _ hlt
    rw [hlt]
    rfl
  rw [effective]
  cases append with
  | true => exact hsort (found.increasing.filter _)
  | false => exact hsort found.increasing

theorem filter_not_mem_empty (names : List String) : names.filter (· ∉ NameSet.empty) = names := by
  apply List.filter_eq_self.mpr
  intro n _
  rfl

theorem verdictOn_eq_nothingNew :
    verdictOn p names known = .nothingNew ↔ p.onlyChanges = true ∧ names = [] := by
  rw [verdictOn]
  cases p.onlyChanges with
  | false => simp
  | true =>
    cases names with
    | nil => simp
    | cons n ns => cases !p.append && known.hasMembers (n :: ns) <;> simp

theorem verdictOn_eq_unchanged :
    verdictOn p names known = .unchanged ↔
      p.onlyChanges = true ∧ names ≠ [] ∧ p.append = false ∧ NameSet.ofList names = known := by
  rw [← NameSet.hasMembers_iff, verdictOn]
  cases p.onlyChanges with
  | false => simp
  | true =>
    cases names with
    | nil => simp
    | cons n ns => cases p.append <;> cases known.hasMembers (n :: ns) <;> simp

theorem verdictOn_ne_write :
    verdictOn p names known ≠ .write ↔
      p.onlyChanges = true ∧ (names = [] ∨ p.append = false ∧ NameSet.ofList names = known) := by
  have hcases : verdictOn p names known ≠ .write ↔
      verdictOn p names known = .nothingNew ∨ verdictOn p names known = .unchanged := by
    cases verdictOn p names known <;> simp
  rw [hcases, verdictOn_eq_nothingNew, verdictOn_eq_unchanged, ← and_or_left]
  by_cases hnil : names = [] <;> simp [hnil]

theorem decide_ne_write :
    (decide p found known).verdict ≠ .write ↔
      p.onlyChanges = true ∧ (effective p.append found known = [] ∨
        p.append = false ∧ NameSet.ofList (effective p.append found known) = known) := by
  rw [decide_eq]
  exact verdictOn_ne_write

theorem mem_of_mem_known (hknown : known = .empty ∨ known = old) (h : name ∈ known) : name ∈ old := by
  rcases hknown with rfl | rfl
  · cases h
  · exact h

theorem recordedAfter_of_write (hcut : ∀ n ∈ old, cutName n = some n)
    (hknown : known = .empty ∨ known = old)
    (h : (decide p found known).verdict = .write) :
    (if p.append then old.union (cut (decide p found known).names)
      else cut (decide p found known).names) = recordedAfter p found old := by
  rw [recordedAfter]
  cases ha : p.append with
  | true =>
    ext n
    simp only [if_true, NameSet.mem_union, Listing.mem_cut, decide_eq, ha, mem_effective]
    constructor
    · rintro (hn | ⟨m, ⟨hm, _⟩, hc⟩)
      · exact Or.inl hn
      · exact Or.inr ⟨m, hm, hc⟩
    · rintro (hn | ⟨m, hm, hc⟩)
      · exact Or.inl hn
      · by_cases hmem : m ∈ known
        · have hold := mem_of_mem_known hknown hmem
          rw [hcut m hold] at hc
          exact Or.inl (Option.some.inj hc ▸ hold)
        · exact Or.inr ⟨m, ⟨hm, fun _ => hmem⟩, hc⟩
  | false =>
    have hsame : cut (decide p found known).names = cut found := by
      apply Listing.cut_congr
      intro n
      simp [decide_eq, ha, mem_effective]
    have hgate : (p.onlyChanges && found.isEmpty) = false := by
      rw [Bool.eq_false_iff]
      intro hg
      rw [Bool.and_eq_true, List.isEmpty_iff] at hg
      refine decide_ne_write.mpr ⟨hg.1, Or.inl ?_⟩ h
      apply List.eq_nil_iff_forall_not_mem.mpr
      intro n hn
      rw [mem_effective, hg.2] at hn
      cases hn.1
    rw [hsame, hgate]
    rfl

theorem mem_of_skipped_append (ha : p.append = true)
    (h : (decide p found known).verdict ≠ .write) : ∀ n ∈ found, n ∈ known := by
  intro n hn
  by_contra hmem
  have heff : n ∈ effective p.append found known := mem_effective.mpr ⟨hn, fun _ => hmem⟩
  rcases (decide_ne_write.mp h).2 with he | ⟨hf, _⟩
  · rw [he] at heff
    cases heff
  · rw [ha] at hf
    cases hf

theorem mem_iff_of_skipped_overwrite (ha : p.append = false)
    (h : (decide p found known).verdict ≠ .write) : found = [] ∨ ∀ n, n ∈ found ↔ n ∈ known := by
  have hmem (n : String) : n ∈ effective p.append found known ↔ n ∈ found := by
    simp [ha, mem_effective]
  rcases (decide_ne_write.mp h).2 with he | ⟨_, hlist⟩
  · left
    apply List.eq_nil_iff_forall_not_mem.mpr
    intro n hn
    rw [← hmem n, he] at hn
    cases hn
  · right
    intro n
    rw [← hlist, NameSet.mem_ofList, hmem n]

theorem mem_of_skipped (h : (decide p found known).verdict ≠ .write) : ∀ n ∈ found, n ∈ known := by
  cases ha : p.append with
  | true => exact mem_of_skipped_append ha h
  | false =>
    rcases mem_iff_of_skipped_overwrite ha h with rfl | hfound
    · intro n hn
      cases hn
    · exact fun n hn => (hfound n).mp hn

theorem skipped_of_recordedAfter (hgate : p.onlyChanges = true)
    (hfound : ∀ n ∈ found, cutName n = some n) :
    (decide p found (recordedAfter p found old)).verdict ≠ .write := by
  have hcut (n : String) : n ∈ cut found ↔ n ∈ found := by
    rw [Listing.mem_cut]
    constructor
    · rintro ⟨m, hm, hc⟩
      rw [hfound m hm] at hc
      exact Option.some.inj hc ▸ hm
    · exact fun hn => ⟨n, hn, hfound n hn⟩
  refine decide_ne_write.mpr ⟨hgate, ?_⟩
  cases ha : p.append with
  | true =>
    left
    apply List.eq_nil_iff_forall_not_mem.mpr
    intro n hn
    obtain ⟨hmem, hnew⟩ := mem_effective.mp hn
    apply hnew rfl
    rw [recordedAfter, if_pos ha, NameSet.mem_union]
    exact Or.inr ((hcut n).mpr hmem)
  | false =>
    by_cases hnil : found = []
    · left
      apply List.eq_nil_iff_forall_not_mem.mpr
      intro n hn
      rw [mem_effective, hnil] at hn
      cases hn.1
    · right
      refine ⟨rfl, ?_⟩
      ext n
      rw [NameSet.mem_ofList, mem_effective, recordedAfter, ha, if_neg (by simp),
        if_neg (by simpa using fun _ => hnil), hcut]
      simp

theorem recordedAfter_of_skip (hcut : ∀ n ∈ old, cutName n = some n)
    (hknown : known = .empty ∨ known = old)
    (h : (decide p found known).verdict ≠ .write) : recordedAfter p found old = old := by
  rw [recordedAfter, (decide_ne_write.mp h).1, Bool.true_and]
  cases ha : p.append with
  | true =>
    have hfound := mem_of_skipped_append ha h
    ext n
    rw [if_pos rfl, NameSet.mem_union]
    refine ⟨?_, Or.inl⟩
    rintro (hn | hn)
    · exact hn
    · exact Listing.mem_of_mem_cut hcut (fun m hm => mem_of_mem_known hknown (hfound m hm)) hn
  | false =>
    rw [if_neg (by simp)]
    by_cases hnil : found = []
    · rw [hnil]
      rfl
    · rw [if_neg (by simpa using hnil)]
      rcases mem_iff_of_skipped_overwrite ha h with he | hfound
      · exact absurd he hnil
      · obtain ⟨first, hfirst⟩ := List.exists_mem_of_ne_nil _ hnil
        have hold : known = old := by
          rcases hknown with rfl | hold
          · cases (hfound first).mp hfirst
          · exact hold
        rw [hold] at hfound
        ext n
        constructor
        · exact Listing.mem_of_mem_cut hcut fun m hm => (hfound m).mp hm
        · intro hn
          exact Listing.mem_cut.mpr ⟨n, (hfound n).mpr hn, hcut n hn⟩

end BuildRequirements.Update
