import BuildRequirements.Proofs.BuildLogs
import BuildRequirements.Proofs.Listings

namespace BuildRequirements.Listing

open Text

variable {l m : Listing} {name : String}

theorem isToken_iff : IsToken name ↔ ∃ log, name ∈ BuildLog.requirements log := by
  constructor
  · rintro ⟨hne, hchars⟩
    have hclosed : Text.IsClosed "".toList := isClosed_of_all (by simp)
    have hblank : ∀ c ∈ " ".toList, isBlank c = true ∧ isBreak c = false := by
      intro c hc
      obtain rfl : c = ' ' := List.mem_singleton.mp hc
      exact ⟨rfl, rfl⟩
    have hannounced : BuildLog.Announces "" " " name "" :=
      ⟨hclosed, by decide, hblank, hne,
        fun c hc => BuildLog.isRequirementChar_iff.mp (hchars c hc), by simp⟩
    exact ⟨_, hannounced.mem_requirements⟩
  · rintro ⟨log, hmem⟩
    exact isToken_of_mem hmem

section Body

theorem isToken_of_all (hne : name ≠ "")
    (h : name.toList.all BuildLog.isRequirementChar = true) : IsToken name :=
  ⟨hne, List.all_eq_true.mp h⟩

theorem not_isToken_of_space (h : ' ' ∈ name.toList) : ¬IsToken name := by
  intro htoken
  have hchar := htoken.2 ' ' h
  revert hchar
  decide

theorem not_isToken_emptyMarker : ¬IsToken emptyMarker := not_isToken_of_space (by decide)

theorem not_isToken_partialMarker : ¬IsToken partialMarker := not_isToken_of_space (by decide)

theorem body_of_nil (h : l.names = []) : l.body = [emptyMarker] := by
  rw [body, h]

theorem body_of_ne_nil (h : l.names ≠ []) : l.body = CodeUnits.sort l.names := by
  rw [body]
  split
  · rename_i hnil
    exact absurd hnil h
  · rfl

theorem emptyMarker_mem_body (hl : ∀ n ∈ l.names, IsToken n) : emptyMarker ∈ l.body ↔ l.names = [] := by
  constructor
  · intro hmem
    by_contra hne
    rw [body_of_ne_nil hne, (CodeUnits.sort_perm _).mem_iff] at hmem
    exact not_isToken_emptyMarker (hl _ hmem)
  · intro hnil
    rw [body_of_nil hnil]
    exact List.mem_singleton_self _

theorem partialMarker_not_mem_body (hl : ∀ n ∈ l.names, IsToken n) : partialMarker ∉ l.body := by
  intro hmem
  by_cases hnil : l.names = []
  · rw [body_of_nil hnil, List.mem_singleton] at hmem
    revert hmem
    decide
  · rw [body_of_ne_nil hnil, (CodeUnits.sort_perm _).mem_iff] at hmem
    exact not_isToken_partialMarker (hl _ hmem)

theorem body_congr (h : l.names.Perm m.names) : l.body = m.body := by
  by_cases hnil : l.names = []
  · rw [hnil, List.nil_perm] at h
    rw [body_of_nil hnil, body_of_nil h]
  · have hnil' : m.names ≠ [] := by
      intro he
      rw [he, List.perm_nil] at h
      exact hnil h
    rw [body_of_ne_nil hnil, body_of_ne_nil hnil', CodeUnits.sort_eq_iff]
    exact h

theorem perm_of_body_eq (hl : ∀ n ∈ l.names, IsToken n) (hm : ∀ n ∈ m.names, IsToken n)
    (h : l.body = m.body) : l.names.Perm m.names := by
  have hempty : l.names = [] ↔ m.names = [] := by
    rw [← emptyMarker_mem_body hl, ← emptyMarker_mem_body hm, h]
  by_cases hnil : l.names = []
  · rw [hnil, hempty.mp hnil]
  · rw [body_of_ne_nil hnil, body_of_ne_nil (fun he => hnil (hempty.mpr he))] at h
    exact CodeUnits.sort_eq_iff.mp h

end Body

section Text

theorem lines_eq_cons (l : Listing) :
    l.lines = l.header :: (l.body ++ if l.isPartial then [partialMarker] else []) :=
  rfl

theorem lines_eq_of_text_eq (hl : ∀ line ∈ l.lines, IsUnbroken line)
    (hm : ∀ line ∈ m.lines, IsUnbroken line) (h : l.text = m.text) : l.lines = m.lines := by
  have hlines := lines_text hl
  rw [h, lines_text hm] at hlines
  exact List.map_injective_iff.mpr (fun _ _ => String.toList_injective)
    (List.append_cancel_right hlines).symm

theorem partialMarker_mem (hl : ∀ n ∈ l.names, IsToken n) :
    partialMarker ∈ l.body ++ (if l.isPartial then [partialMarker] else []) ↔ l.isPartial = true := by
  rw [List.mem_append, or_iff_right (partialMarker_not_mem_body hl)]
  cases l.isPartial <;> simp

theorem parts_of_lines_eq (hl : ∀ n ∈ l.names, IsToken n) (hm : ∀ n ∈ m.names, IsToken n)
    (h : l.lines = m.lines) :
    l.header = m.header ∧ l.body = m.body ∧ l.isPartial = m.isPartial := by
  rw [lines_eq_cons, lines_eq_cons, List.cons.injEq] at h
  obtain ⟨hheader, hrest⟩ := h
  have hpartial : l.isPartial = m.isPartial := by
    rw [Bool.eq_iff_iff, ← partialMarker_mem hl, ← partialMarker_mem hm, hrest]
  rw [hpartial] at hrest
  exact ⟨hheader, List.append_cancel_right hrest, hpartial⟩

theorem header_eq (l : Listing) :
    l.header = "# Generated by " ++ l.generator ++ " on " ++ l.clock.text :=
  rfl

theorem clock_text_of_header_eq (hgen : l.generator = m.generator) (h : l.header = m.header) :
    l.clock.text = m.clock.text := by
  have hlists := congrArg String.toList h
  simp only [header_eq, hgen, String.toList_append] at hlists
  exact String.toList_injective (List.append_cancel_left hlists)

theorem text_eq_iff_perm (hsame : l.generator = m.generator) (hgen : IsUnbroken l.generator)
    (hl : ∀ n ∈ l.names, IsToken n) (hm : ∀ n ∈ m.names, IsToken n) :
    l.text = m.text ↔
      l.names.Perm m.names ∧ l.isPartial = m.isPartial ∧ l.clock.text = m.clock.text := by
  constructor
  · intro h
    have hlines := lines_eq_of_text_eq (isUnbroken_of_mem_lines hgen hl)
      (isUnbroken_of_mem_lines (hsame ▸ hgen) hm) h
    obtain ⟨hheader, hbody, hpartial⟩ := parts_of_lines_eq hl hm hlines
    exact ⟨perm_of_body_eq hl hm hbody, hpartial, clock_text_of_header_eq hsame hheader⟩
  · rintro ⟨hperm, hpartial, hclock⟩
    have hheader : l.header = m.header := by rw [header_eq, header_eq, hsame, hclock]
    rw [text, text, lines_eq_cons, lines_eq_cons, hheader, body_congr hperm, hpartial]

end Text

def partialAt (milliseconds : Int) (names : List String) : Listing :=
  ⟨"tool", ⟨some milliseconds, 0⟩, names, true⟩

-- One name looks like a comment, and another was collected twice.
theorem text_eq_iff_perm_of_repeated :
    IsUnbroken "tool" ∧ (∀ n ∈ ["wheel", "#wheel", "wheel"], IsToken n) ∧
      (partialAt 0 ["wheel", "#wheel", "wheel"]).text =
        (partialAt 999 ["#wheel", "wheel", "wheel"]).text ∧
      (partialAt 0 ["wheel", "#wheel", "wheel"]).text ≠ (partialAt 0 ["#wheel", "wheel"]).text := by
  have hgen : IsUnbroken "tool" := isUnbroken_of_all (by decide)
  have hwheel : IsToken "wheel" := isToken_of_all (by decide) (by decide)
  have hcomment : IsToken "#wheel" := isToken_of_all (by decide) (by decide)
  have htwice : ∀ n ∈ ["wheel", "#wheel", "wheel"], IsToken n := by
    intro n hn
    rcases List.mem_cons.mp hn with rfl | hn
    · exact hwheel
    rcases List.mem_cons.mp hn with rfl | hn
    · exact hcomment
    rw [List.mem_singleton.mp hn]
    exact hwheel
  have hperm : ["wheel", "#wheel", "wheel"].Perm ["#wheel", "wheel", "wheel"] := by decide
  have hiff (ms : Int) (others : List String) (h : ∀ n ∈ others, IsToken n) :
      (partialAt 0 ["wheel", "#wheel", "wheel"]).text = (partialAt ms others).text ↔ _ :=
    text_eq_iff_perm rfl hgen htwice h
  refine ⟨hgen, htwice, ?_, ?_⟩
  · rw [hiff 999 _ fun n hn => htwice n (hperm.mem_iff.mpr hn)]
    exact ⟨hperm, rfl, by decide +kernel⟩
  · rw [Ne, hiff 0 _ fun n hn => htwice n (List.mem_cons_of_mem _ hn)]
    rintro ⟨honce, -⟩
    cases honce.length_eq

end BuildRequirements.Listing
