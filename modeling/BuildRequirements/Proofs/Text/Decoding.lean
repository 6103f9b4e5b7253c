import BuildRequirements.Text.Utf8

namespace BuildRequirements.Text.Utf8

theorem feed_last {above high value b : Nat} (hlow : 0x80 + above ≤ b) (hhigh : b ≤ high) :
    feed (.inside above high 0 value) b = ([Char.ofNat (value * 64 + (b - 0x80))], .between) := by
  rw [feed, if_pos ⟨hlow, hhigh⟩]

theorem feed_further {above high n value b : Nat} (hlow : 0x80 + above ≤ b) (hhigh : b ≤ high) :
    feed (.inside above high (n + 1) value) b =
      ([], .inside 0 0xBF n (value * 64 + (b - 0x80))) := by
  rw [feed, if_pos ⟨hlow, hhigh⟩]

theorem start_two {b : Nat} (hlow : 0xC2 ≤ b) (hhigh : b < 0xE0) :
    start b = ([], .inside 0 0xBF 0 (b - 0xC0)) := by
  rw [start, if_neg (by omega), if_neg (by omega), if_pos hhigh]

theorem start_three {b : Nat} (hlow : 0xE0 ≤ b) (hhigh : b < 0xF0) :
    start b = ([], .inside (if b = 0xE0 then 0x20 else 0) (if b = 0xED then 0x9F else 0xBF) 1
      (b - 0xE0)) := by
  rw [start, if_neg (by omega), if_neg (by omega), if_neg (by omega), if_pos hhigh]

theorem start_four {b : Nat} (hlow : 0xF0 ≤ b) (hhigh : b < 0xF5) :
    start b = ([], .inside (if b = 0xF0 then 0x10 else 0) (if b = 0xF4 then 0x8F else 0xBF) 2
      (b - 0xF0)) := by
  rw [start, if_neg (by omega), if_neg (by omega), if_neg (by omega), if_neg (by omega),
    if_pos hhigh]

theorem decodeFrom_between (b : UInt8) (bs : List UInt8) :
    decodeFrom .between (b :: bs) = (start b.toNat).1 ++ decodeFrom (start b.toNat).2 bs := rfl

theorem toNat_ofNat_of_lt {n : Nat} (h : n < 256) : (UInt8.ofNat n).toNat = n := by
  rw [UInt8.toNat_ofNat']
  exact Nat.mod_eq_of_lt h

section Widths

variable {n : Nat} (bs : List UInt8)

theorem decodeFrom_two (hlow : 0x80 ≤ n) (hhigh : n < 0x800) :
    decodeFrom .between (UInt8.ofNat (n / 64 % 0x20 + 0xC0) :: UInt8.ofNat (n % 0x40 + 0x80) :: bs) =
      Char.ofNat n :: decodeFrom .between bs := by
  have hstart : start (n / 64 % 0x20 + 0xC0) = ([], .inside 0 0xBF 0 (n / 64)) := by
    rw [start_two (by omega) (by omega), show n / 64 % 0x20 + 0xC0 - 0xC0 = n / 64 by omega]
  have hsum : n / 64 * 64 + (n % 0x40 + 0x80 - 0x80) = n := by omega
  rw [decodeFrom_between, decodeFrom, toNat_ofNat_of_lt (by omega), toNat_ofNat_of_lt (by omega),
    hstart, feed_last (by omega) (by omega), hsum]
  rfl

theorem decodeFrom_three (hlow : 0x800 ≤ n) (hhigh : n < 0x10000)
    (hvalid : n < 0xD800 ∨ 0xDFFF < n) :
    decodeFrom .between (UInt8.ofNat (n / 4096 % 0x10 + 0xE0) ::
      UInt8.ofNat (n / 64 % 0x40 + 0x80) :: UInt8.ofNat (n % 0x40 + 0x80) :: bs) =
      Char.ofNat n :: decodeFrom .between bs := by
  have hstart := start_three (b := n / 4096 % 0x10 + 0xE0) (by omega) (by omega)
  have hfirst : n / 4096 % 0x10 + 0xE0 - 0xE0 = n / 4096 := by omega
  -- The range of the second byte keeps out surrogates and what takes fewer bytes.
  have habove : 0x80 + (if n / 4096 % 0x10 + 0xE0 = 0xE0 then 0x20 else 0) ≤
      n / 64 % 0x40 + 0x80 := by split <;> omega
  have hbelow : n / 64 % 0x40 + 0x80 ≤
      if n / 4096 % 0x10 + 0xE0 = 0xED then 0x9F else 0xBF := by split <;> omega
  have hsum : (n / 4096 * 64 + (n / 64 % 0x40 + 0x80 - 0x80)) * 64 +
      (n % 0x40 + 0x80 - 0x80) = n := by omega
  rw [decodeFrom_between, decodeFrom, decodeFrom, toNat_ofNat_of_lt (by omega),
    toNat_ofNat_of_lt (by omega), toNat_ofNat_of_lt (by omega), hstart, feed_further habove hbelow,
    feed_last (by omega) (by omega), hfirst, hsum]
  rfl

theorem decodeFrom_four (hlow : 0x10000 ≤ n) (hhigh : n < 0x110000) :
    decodeFrom .between (UInt8.ofNat (n / 262144 % 0x08 + 0xF0) ::
      UInt8.ofNat (n / 4096 % 0x40 + 0x80) :: UInt8.ofNat (n / 64 % 0x40 + 0x80) ::
      UInt8.ofNat (n % 0x40 + 0x80) :: bs) =
      Char.ofNat n :: decodeFrom .between bs := by
  have hstart := start_four (b := n / 262144 % 0x08 + 0xF0) (by omega) (by omega)
  have hfirst : n / 262144 % 0x08 + 0xF0 - 0xF0 = n / 262144 := by omega
  have habove : 0x80 + (if n / 262144 % 0x08 + 0xF0 = 0xF0 then 0x10 else 0) ≤
      n / 4096 % 0x40 + 0x80 := by split <;> omega
  have hbelow : n / 4096 % 0x40 + 0x80 ≤
      if n / 262144 % 0x08 + 0xF0 = 0xF4 then 0x8F else 0xBF := by split <;> omega
  have hsum : ((n / 262144 * 64 + (n / 4096 % 0x40 + 0x80 - 0x80)) * 64 +
      (n / 64 % 0x40 + 0x80 - 0x80)) * 64 + (n % 0x40 + 0x80 - 0x80) = n := by omega
  rw [decodeFrom_between, decodeFrom, decodeFrom, decodeFrom, toNat_ofNat_of_lt (by omega),
    toNat_ofNat_of_lt (by omega), toNat_ofNat_of_lt (by omega), toNat_ofNat_of_lt (by omega),
    hstart, feed_further habove hbelow, feed_further (by omega) (by omega),
    feed_last (by omega) (by omega), hfirst, hsum]
  rfl

end Widths

theorem decodeFrom_encodeChar (c : Char) (bs : List UInt8) :
    decodeFrom .between (String.utf8EncodeChar c ++ bs) = c :: decodeFrom .between bs := by
  have hvalid : c.val.toNat < 0xD800 ∨ 0xDFFF < c.val.toNat ∧ c.val.toNat < 0x110000 := c.valid
  have hc : Char.ofNat c.val.toNat = c := Char.ofNat_toNat c
  rw [String.utf8EncodeChar]
  generalize c.val.toNat = n at hvalid hc
  rw [← hc]
  by_cases h1 : n ≤ 0x7F
  · rw [if_pos h1, List.singleton_append, decodeFrom_between, toNat_ofNat_of_lt (by omega), start,
      if_pos (by omega)]
    rfl
  · rw [if_neg h1]
    by_cases h2 : n ≤ 0x7FF
    · rw [if_pos h2]
      exact decodeFrom_two bs (by omega) (by omega)
    · rw [if_neg h2]
      by_cases h3 : n ≤ 0xFFFF
      · rw [if_pos h3]
        exact decodeFrom_three bs (by omega) (by omega) (by omega)
      · rw [if_neg h3]
        exact decodeFrom_four bs (by omega) (by omega)

theorem decodeFrom_encode (s : String) : decodeFrom .between (encode s) = s.toList := by
  rw [encode]
  induction s.toList with
  | nil => rfl
  | cons c cs ih => rw [List.flatMap_cons, decodeFrom_encodeChar, ih]

theorem decode_encode (s : String) : decode (encode s) = s := by
  rw [decode, decodeFrom_encode, String.ofList_toList]

def State.IsReached : State → Prop
  | .between => True
  | .inside _ high _ _ => high ≤ 0xBF

theorem isReached_start (b : Nat) : (start b).2.IsReached := by
  have hhigh : (if b = 0xED then 0x9F else 0xBF) ≤ 0xBF := by split <;> omega
  have hlast : (if b = 0xF4 then 0x8F else 0xBF) ≤ 0xBF := by split <;> omega
  unfold start
  split
  · trivial
  split
  · trivial
  split
  · exact Nat.le_refl _
  split
  · exact hhigh
  split
  · exact hlast
  · trivial

theorem isReached_feed {s : State} (hs : s.IsReached) (b : Nat) : (feed s b).2.IsReached := by
  cases s with
  | between => exact isReached_start b
  | inside above high further value =>
    simp only [feed]
    split
    · cases further with
      | zero => trivial
      | succ n => exact Nat.le_refl _
    · exact isReached_start b

theorem feed_lead {s : State} (hs : s.IsReached) {b : Nat} (hb : b < 0x80 ∨ 0xC0 ≤ b) :
    feed s b = (s.flush ++ (start b).1, (start b).2) := by
  cases s with
  | between => rfl
  | inside above high further value =>
    have hhigh : high ≤ 0xBF := hs
    simp only [feed, if_neg (show ¬(0x80 + above ≤ b ∧ b ≤ high) by omega)]
    rfl

theorem decodeFrom_append_lead {s : State} (hs : s.IsReached) (bs cs : List UInt8) {b : UInt8}
    (hb : b.toNat < 0x80 ∨ 0xC0 ≤ b.toNat) :
    decodeFrom s (bs ++ b :: cs) = decodeFrom s bs ++ decodeFrom .between (b :: cs) := by
  induction bs generalizing s with
  | nil =>
    rw [List.nil_append, decodeFrom.eq_2, feed_lead hs hb, List.append_assoc]
    rfl
  | cons c bs ih =>
    rw [List.cons_append, decodeFrom, decodeFrom, ih (isReached_feed hs _), List.append_assoc]

theorem exists_utf8EncodeChar (c : Char) :
    ∃ b bs, String.utf8EncodeChar c = b :: bs ∧ (b.toNat < 0x80 ∨ 0xC0 ≤ b.toNat) := by
  rw [String.utf8EncodeChar]
  generalize c.val.toNat = n
  split
  · exact ⟨_, _, rfl, Or.inl (by rw [toNat_ofNat_of_lt] <;> omega)⟩
  split
  · exact ⟨_, _, rfl, Or.inr (by rw [toNat_ofNat_of_lt] <;> omega)⟩
  split
  · exact ⟨_, _, rfl, Or.inr (by rw [toNat_ofNat_of_lt] <;> omega)⟩
  · exact ⟨_, _, rfl, Or.inr (by rw [toNat_ofNat_of_lt] <;> omega)⟩

theorem decode_append_encode (bytes : List UInt8) (s : String) :
    decode (bytes ++ encode s) = decode bytes ++ s := by
  apply String.toList_injective
  rw [String.toList_append, decode, decode, String.toList_ofList, String.toList_ofList]
  cases hs : s.toList with
  | nil => simp [encode, hs]
  | cons c cs =>
    obtain ⟨b, bs, hb, hlead⟩ := exists_utf8EncodeChar c
    have henc : encode s = b :: (bs ++ cs.flatMap String.utf8EncodeChar) := by
      rw [encode, hs, List.flatMap_cons, hb, List.cons_append]
    rw [henc, decodeFrom_append_lead (s := .between) trivial _ _ hlead, ← henc, decodeFrom_encode, hs]

end BuildRequirements.Text.Utf8
