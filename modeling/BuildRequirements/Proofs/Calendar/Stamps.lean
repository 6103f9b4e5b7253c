import BuildRequirements.Calendar.Clock
import BuildRequirements.Proofs.Calendar.Dates
import Mathlib

namespace BuildRequirements.Calendar

namespace Stamp

def IsValid (s : Stamp) : Prop :=
  s.date.IsValid ∧ s.hour < 24 ∧ s.minute < 60 ∧ s.second < 60

def IsTwoDigits (text : String) (n : Nat) : Prop :=
  ∃ a b : Char, a.isDigit = true ∧ b.isDigit = true ∧ text.toList = [a, b] ∧
    n = 10 * (a.toNat - '0'.toNat) + (b.toNat - '0'.toNat)

def IsMonthName (text : String) (month : Nat) : Prop :=
  1 ≤ month ∧ monthNames[month - 1]? = some text

def form (month day year hour minute second : String) : String :=
  month ++ " " ++ day ++ " " ++ year ++ " " ++ hour ++ ":" ++ minute ++ ":" ++ second

def Shows (text : String) (s : Stamp) : Prop :=
  ∃ month day hour minute second : String,
    text = form month day (toString s.date.year) hour minute second ∧
    IsMonthName month s.date.month ∧ IsTwoDigits day s.date.day ∧ IsTwoDigits hour s.hour ∧
    IsTwoDigits minute s.minute ∧ IsTwoDigits second s.second

variable {s t : Stamp} {text : String} {m n : Nat}

section Parts

theorem digitChar_of_lt (h : n < 10) :
    (Nat.digitChar n).isDigit = true ∧ (Nat.digitChar n).toNat - '0'.toNat = n := by
  have hall : ∀ k < 10, (Nat.digitChar k).isDigit = true ∧ (Nat.digitChar k).toNat - '0'.toNat = k := by
    decide
  exact hall n h

theorem isTwoDigits_twoDigits (h : n < 100) : IsTwoDigits (twoDigits n) n := by
  obtain ⟨htens, htens_eq⟩ := digitChar_of_lt (n := n / 10) (by omega)
  obtain ⟨hones, hones_eq⟩ := digitChar_of_lt (n := n % 10) (by omega)
  refine ⟨_, _, htens, hones, by rw [twoDigits, String.toList_ofList], ?_⟩
  omega

theorem IsTwoDigits.length_eq (h : IsTwoDigits text n) : text.toList.length = 2 := by
  obtain ⟨a, b, -, -, htext, -⟩ := h
  rw [htext]
  rfl

theorem IsTwoDigits.unique (hm : IsTwoDigits text m) (hn : IsTwoDigits text n) : m = n := by
  obtain ⟨a, b, -, -, hab, rfl⟩ := hm
  obtain ⟨c, d, -, -, hcd, rfl⟩ := hn
  rw [hab, List.cons.injEq, List.cons.injEq] at hcd
  rw [hcd.1, hcd.2.1]

theorem IsMonthName.length_eq (h : IsMonthName text m) : text.toList.length = 3 := by
  have hall : ∀ name ∈ monthNames, name.toList.length = 3 := by decide
  exact hall text (List.mem_of_getElem? h.2)

theorem IsMonthName.unique (hm : IsMonthName text m) (hn : IsMonthName text n) : m = n := by
  have hdistinct : monthNames.Nodup := by decide
  have hindex := (List.getElem?_inj (List.getElem?_eq_some_iff.mp hm.2).1 hdistinct).mp
    (hm.2.trans hn.2.symm)
  have hpos := hm.1
  have hpos' := hn.1
  omega

theorem form_inj {month day year hour minute second month' day' year' hour' minute' second' : String}
    (h : form month day year hour minute second = form month' day' year' hour' minute' second')
    (hmonth : month.toList.length = month'.toList.length)
    (hday : day.toList.length = day'.toList.length)
    (hhour : hour.toList.length = hour'.toList.length)
    (hminute : minute.toList.length = minute'.toList.length)
    (hsecond : second.toList.length = second'.toList.length) :
    month = month' ∧ day = day' ∧ year = year' ∧ hour = hour' ∧ minute = minute' ∧ second = second' := by
  have hlists := congrArg String.toList h
  simp only [form, String.toList_append, List.append_assoc] at hlists
  obtain ⟨h1, hlists⟩ := List.append_inj hlists hmonth
  obtain ⟨h2, hlists⟩ := List.append_inj (List.append_cancel_left hlists) hday
  obtain ⟨h3, hlists⟩ := List.append_inj' (List.append_cancel_left hlists) (by
    simp only [List.length_append, hhour, hminute, hsecond])
  obtain ⟨h4, hlists⟩ := List.append_inj (List.append_cancel_left hlists) hhour
  obtain ⟨h5, hlists⟩ := List.append_inj (List.append_cancel_left hlists) hminute
  have h6 := List.append_cancel_left hlists
  simp only [← String.toList_inj]
  exact ⟨h1, h2, h3, h4, h5, h6⟩

end Parts

theorem Shows.unique (hs : Shows text s) (ht : Shows text t) : s = t := by
  obtain ⟨month, day, hour, minute, second, htext, hmonth, hday, hhour, hminute, hsecond⟩ := hs
  obtain ⟨month', day', hour', minute', second', htext', hmonth', hday', hhour', hminute', hsecond'⟩ :=
    ht
  obtain ⟨rfl, rfl, hyear, rfl, rfl, rfl⟩ := form_inj (htext.symm.trans htext')
    (hmonth.length_eq.trans hmonth'.length_eq.symm) (hday.length_eq.trans hday'.length_eq.symm)
    (hhour.length_eq.trans hhour'.length_eq.symm) (hminute.length_eq.trans hminute'.length_eq.symm)
    (hsecond.length_eq.trans hsecond'.length_eq.symm)
  obtain ⟨⟨y, mo, d⟩, h, mi, sec⟩ := s
  obtain ⟨⟨y', mo', d'⟩, h', mi', sec'⟩ := t
  simp only [mk.injEq, Date.mk.injEq]
  exact ⟨⟨Int.repr_injective hyear, hmonth.unique hmonth', hday.unique hday'⟩, hhour.unique hhour',
    hminute.unique hminute', hsecond.unique hsecond'⟩

theorem shows_text (h : s.IsValid) : Shows s.text s := by
  obtain ⟨hdate, hhour, hminute, hsecond⟩ := h
  obtain ⟨hmonth, hday⟩ := hdate.le
  have hindex : s.date.month - 1 < monthNames.length := by
    change _ < 12
    omega
  have hname : monthNames[s.date.month - 1]? = some (monthNames.getD (s.date.month - 1) "") := by
    rw [List.getD_eq_getElem?_getD, List.getElem?_eq_getElem hindex, Option.getD_some]
  exact ⟨_, _, _, _, _, rfl, ⟨hdate.1, hname⟩, isTwoDigits_twoDigits (by omega),
    isTwoDigits_twoDigits (by omega), isTwoDigits_twoDigits (by omega),
    isTwoDigits_twoDigits (by omega)⟩

theorem isValid_ofSeconds (seconds : Int) : (ofSeconds seconds).IsValid := by
  refine ⟨Date.isValid_ofDayNumber _, ?_, ?_, ?_⟩
  all_goals
    simp only [ofSeconds]
    omega

theorem text_ofSeconds_inj {a b : Int} : (ofSeconds a).text = (ofSeconds b).text ↔ a = b := by
  constructor
  · intro h
    have hb := shows_text (isValid_ofSeconds b)
    rw [← h] at hb
    have hstamp := (shows_text (isValid_ofSeconds a)).unique hb
    rw [← seconds_ofSeconds a, hstamp, seconds_ofSeconds]
  · rintro rfl
    rfl

end Stamp

namespace Clock

open Stamp

theorem text_eq {ms : Int} (h : ms.natAbs ≤ limit) (hoursAhead : Int) :
    text ⟨some ms, hoursAhead⟩ = (ofSeconds (ms / 1000 + 3600 * hoursAhead)).text := by
  have hread : (some ms).filter (fun ms => ms.natAbs ≤ limit) = some ms :=
    Option.filter_some_pos (decide_eq_true h)
  rw [text, stamp?, hread]
  rfl

theorem text_shows_second (ms hoursAhead : Int) (h : ms.natAbs ≤ limit) :
    (∃ s : Stamp, Shows (text ⟨some ms, hoursAhead⟩) s ∧ s.IsValid ∧
      s.seconds = ms / 1000 + 3600 * hoursAhead ∧
      ∀ t, Shows (text ⟨some ms, hoursAhead⟩) t → t = s) ∧
    ∀ other : Int, other.natAbs ≤ limit →
      (text ⟨some other, hoursAhead⟩ = text ⟨some ms, hoursAhead⟩ ↔ other / 1000 = ms / 1000) := by
  rw [text_eq h]
  have hvalid := isValid_ofSeconds (ms / 1000 + 3600 * hoursAhead)
  have hshows := shows_text hvalid
  refine ⟨⟨_, hshows, hvalid, seconds_ofSeconds _, fun t ht => ht.unique hshows⟩, ?_⟩
  intro other hother
  rw [text_eq hother, text_ofSeconds_inj]
  omega

-- The last millisecond before the leap day of the year 0, an hour further east.
theorem text_shows_second_of_leap_day :
    (-62162121600001 : Int).natAbs ≤ limit ∧
      text ⟨some (-62162121600001), 1⟩ = "Feb 29 0 00:59:59" ∧
      (∃ s : Stamp, Shows "Feb 29 0 00:59:59" s ∧ s.IsValid ∧ s.seconds = -62162118001 ∧
        ∀ t, Shows "Feb 29 0 00:59:59" t → t = s) ∧
      text ⟨some (-62162121600000), 1⟩ ≠ "Feb 29 0 00:59:59" := by
  have hlimit : (-62162121600001 : Int).natAbs ≤ limit := by decide
  have htext : text ⟨some (-62162121600001), 1⟩ = "Feb 29 0 00:59:59" := by decide +kernel
  have h := text_shows_second (-62162121600001) 1 hlimit
  rw [htext] at h
  have hnext := h.2 (-62162121600000) (by decide)
  exact ⟨hlimit, htext, h.1, fun he => absurd (hnext.mp he) (by decide)⟩

end Clock

end BuildRequirements.Calendar
