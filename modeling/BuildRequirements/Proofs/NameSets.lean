import BuildRequirements.NameSet
import Mathlib.Data.List.Perm.Subperm

namespace BuildRequirements.NameSet

open Text

variable {s : NameSet} {names : List String}

theorem nodup_toList (s : NameSet) : s.toList.Nodup := by
  apply s.increasing.imp
  rintro a b hlt rfl
  rw [CodeUnits.compare_self] at hlt
  cases hlt

theorem eq_of_subset_of_size_eq {t : NameSet} (hsub : ∀ n ∈ s, n ∈ t) (hsize : s.size = t.size) :
    s = t := by
  have hperm : s.toList.Perm t.toList :=
    (s.nodup_toList.subperm hsub).perm_of_length_le (Nat.le_of_eq hsize.symm)
  ext n
  exact hperm.mem_iff

theorem hasMembers_iff : s.hasMembers names = true ↔ ofList names = s := by
  rw [hasMembers, Bool.and_eq_true, beq_iff_eq, List.all_eq_true]
  constructor
  · rintro ⟨hsize, hall⟩
    exact eq_of_subset_of_size_eq (fun n hn => of_decide_eq_true (hall n hn)) hsize
  · rintro rfl
    exact ⟨rfl, fun n hn => decide_eq_true hn⟩

end BuildRequirements.NameSet
