namespace BuildRequirements.Text.CodeUnits

def ofChar (c : Char) : List UInt16 :=
  if c.toNat < 0x10000 then [UInt16.ofNat c.toNat]
  else [UInt16.ofNat (0xD800 + (c.toNat - 0x10000) / 0x400),
    UInt16.ofNat (0xDC00 + (c.toNat - 0x10000) % 0x400)]

def ofString (s : String) : List UInt16 :=
  s.toList.flatMap ofChar

theorem char_range (c : Char) : c.toNat < 0xD800 ∨ 0xDFFF < c.toNat ∧ c.toNat < 0x110000 :=
  c.valid

theorem ofNat_inj {m n : Nat} (hm : m < 0x10000) (hn : n < 0x10000)
    (h : UInt16.ofNat m = UInt16.ofNat n) : m = n := by
  have := congrArg UInt16.toNat h
  simpa [Nat.mod_eq_of_lt hm, Nat.mod_eq_of_lt hn] using this

theorem ofChar_append_inj {c d : Char} {xs ys : List UInt16}
    (h : ofChar c ++ xs = ofChar d ++ ys) : c = d ∧ xs = ys := by
  have hc := char_range c
  have hd := char_range d
  unfold ofChar at h
  split at h <;> split at h <;>
    simp only [List.cons_append, List.nil_append, List.cons.injEq] at h
  · exact ⟨Char.toNat_inj.mp (ofNat_inj (by omega) (by omega) h.1), h.2⟩
  · have := ofNat_inj (by omega) (by omega) h.1
    omega
  · have := ofNat_inj (by omega) (by omega) h.1
    omega
  · have h1 := ofNat_inj (by omega) (by omega) h.1
    have h2 := ofNat_inj (by omega) (by omega) h.2.1
    exact ⟨Char.toNat_inj.mp (by omega), h.2.2⟩

theorem ofChar_ne_nil (c : Char) : ofChar c ≠ [] := by
  unfold ofChar
  split <;> simp

theorem flatMap_ofChar_inj {cs ds : List Char} (h : cs.flatMap ofChar = ds.flatMap ofChar) :
    cs = ds := by
  induction cs generalizing ds with
  | nil =>
    cases ds with
    | nil => rfl
    | cons d ds => simp [ofChar_ne_nil] at h
  | cons c cs ih =>
    cases ds with
    | nil => simp [ofChar_ne_nil] at h
    | cons d ds =>
      simp only [List.flatMap_cons] at h
      obtain ⟨rfl, ht⟩ := ofChar_append_inj h
      rw [ih ht]

theorem ofString_injective {s t : String} (h : ofString s = ofString t) : s = t :=
  String.toList_injective (flatMap_ofChar_inj h)

abbrev compareUnits : List UInt16 → List UInt16 → Ordering := List.compareLex Ord.compare

def compare (s t : String) : Ordering :=
  compareUnits (ofString s) (ofString t)

instance : Std.OrientedCmp compare where
  eq_swap {s t} := @Std.OrientedCmp.eq_swap _ compareUnits _ (ofString s) (ofString t)

instance : Std.TransCmp compare where
  isLE_trans {s t u} := @Std.TransCmp.isLE_trans _ compareUnits _ (ofString s) (ofString t) (ofString u)

instance : Std.LawfulEqCmp compare where
  compare_self {s} := @Std.ReflCmp.compare_self _ compareUnits _ (ofString s)
  eq_of_compare h :=
    ofString_injective (@Std.LawfulEqCmp.eq_of_compare _ compareUnits _ _ _ h)

theorem compare_swap (s t : String) : compare s t = (compare t s).swap :=
  Std.OrientedCmp.eq_swap

theorem compare_self (s : String) : compare s s = .eq :=
  Std.ReflCmp.compare_self

def sort (xs : List String) : List String :=
  xs.mergeSort fun a b => (compare a b).isLE

theorem sort_perm (xs : List String) : (sort xs).Perm xs :=
  List.mergeSort_perm xs _

theorem pairwise_sort (xs : List String) :
    (sort xs).Pairwise fun a b => (compare a b).isLE = true := by
  apply List.pairwise_mergeSort
  · intro a b c
    exact Std.TransCmp.isLE_trans
  · intro a b
    rw [compare_swap b a]
    cases compare a b <;> rfl

theorem eq_of_isLE {s t : String} (hst : (compare s t).isLE = true)
    (hts : (compare t s).isLE = true) : s = t :=
  Std.LawfulEqCmp.eq_of_compare (Std.OrientedCmp.isLE_antisymm hst hts)

theorem sort_eq_iff {xs ys : List String} : sort xs = sort ys ↔ xs.Perm ys := by
  constructor
  · intro h
    exact (sort_perm xs).symm.trans (h ▸ sort_perm ys)
  · intro h
    have hperm := (sort_perm xs).trans (h.trans (sort_perm ys).symm)
    exact hperm.eq_of_pairwise (fun _ _ _ _ => eq_of_isLE) (pairwise_sort xs) (pairwise_sort ys)

end BuildRequirements.Text.CodeUnits
