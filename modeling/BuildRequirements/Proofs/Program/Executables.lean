import BuildRequirements.Proofs.Program.Classification
import BuildRequirements.Proofs.Program.Thresholds
import BuildRequirements.Proofs.Text.Spreads

namespace BuildRequirements

open Run Text

namespace Settings

structure IsCut (value : Option String) (command : List String) : Prop where
  of_spread : ∀ l : Spread, value = some l.text → command = l.words
  cases : AllBlank (value.getD "").toList ∧ command = ["pip"] ∨
    ∃ l : Spread, value = some l.text ∧ command = l.words
  ne_nil : command ≠ []
  empty_not_mem : "" ∉ command

theorem empty_not_mem_words (l : Spread) : "" ∉ l.words := by
  intro h
  obtain ⟨w, hw, he⟩ := List.mem_map.mp h
  have hnil : w = [] := by simpa using congrArg String.toList he
  rcases List.mem_cons.mp hw with rfl | hw
  · exact l.first_word.ne_nil hnil
  · obtain ⟨p, hp, rfl⟩ := List.mem_map.mp hw
    exact (l.rest_spaced p hp).2.ne_nil hnil

theorem downloaderOf_text (l : Spread) : downloaderOf (some l.text) = l.words := by
  have hne : spaced l.first l.rest ≠ [] := spaced_ne_nil l.first_word
  rw [downloaderOf, Option.getD_some, trim_text]
  split
  · rename_i he
    exact absurd (by simpa using congrArg String.toList he) hne
  · rw [String.toList_ofList, pieces_spaced l.first_word l.rest_spaced, Spread.words]

theorem downloaderOf_of_allBlank {value : Option String} (h : AllBlank (value.getD "").toList) :
    downloaderOf value = ["pip"] := by
  rw [downloaderOf, trim_of_allBlank h]
  rfl

theorem isCut_downloaderOf (value : Option String) : IsCut value (downloaderOf value) := by
  have hcases : AllBlank (value.getD "").toList ∧ downloaderOf value = ["pip"] ∨
      ∃ l : Spread, value = some l.text ∧ downloaderOf value = l.words := by
    rcases exists_spread (value.getD "").toList with h | ⟨l, hl⟩
    · exact Or.inl ⟨h, downloaderOf_of_allBlank h⟩
    · cases value with
      | none => exact Or.inl ⟨allBlank_nil, downloaderOf_of_allBlank allBlank_nil⟩
      | some s =>
        have hs : s = l.text := by simp [Spread.text, hl]
        rw [hs]
        exact Or.inr ⟨l, rfl, downloaderOf_text l⟩
  refine ⟨?_, hcases, downloaderOf_ne_nil value, ?_⟩
  · rintro l rfl
    exact downloaderOf_text l
  · rcases hcases with ⟨-, hpip⟩ | ⟨l, -, hwords⟩
    · rw [hpip]
      decide
    · rw [hwords]
      exact empty_not_mem_words l

end Settings

def Call.program? (c : Call) : Option String := c.command.head?

theorem Runner.run_process_congr {start other : Call → FileTree → Child} {call : Call}
    (h : ∀ t, start call t = other call t) : (process start).run call = (process other).run call := by
  have hcall : start call = other call := funext h
  simp only [run, runProcess, hcall]

theorem Discovery.find_congr {o : Options} {r r' : Runner} {inputs : List String}
    (h : ∀ w, r.run (call o inputs w) = r'.run (call o inputs w)) :
    find o r inputs = find o r' inputs := by
  have hin : findIn o r inputs = findIn o r' inputs := by
    funext w
    have hw := h w
    rw [call] at hw
    simp only [findIn, Download.attempt, hw]
  rw [find_eq, find_eq, hin]

namespace Program

variable {i : Invocation} {a : Arguments} {s : RunState} {word : String}

theorem program?_call (hword : (settings i).downloader.head? = some word) (w : Scratch) :
    (Discovery.call (request i a).options a.inputs w).program? = some word := by
  obtain ⟨more, hmore⟩ := List.head?_eq_some_iff.mp hword
  rw [Call.program?, Discovery.call, Download.head?_command, request]
  simp only [Download.program, hmore, List.headD_cons]

theorem exists_calls_of_proceeds (ha : Proceeds i a)
    (hword : (settings i).downloader.head? = some word) (s : RunState) :
    ∃ calls, (after (run i) s).calls = s.calls ++ calls ∧ ∀ c ∈ calls, c.program? = some word := by
  rw [calls_run_eq ha]
  cases hw : outcome (request i a).creation (ready i s) with
  | error e =>
    have hcalls : (searched i a s).calls = s.calls := Discovery.Request.calls_run_of_error hw
    exact ⟨[], by rw [hcalls, List.append_nil], fun c hc => absurd hc List.not_mem_nil⟩
  | ok w =>
    have hcalls : (searched i a s).calls =
        s.calls ++ [Discovery.call (request i a).options a.inputs w] := Discovery.Request.calls_run hw
    refine ⟨_, hcalls, ?_⟩
    intro c hc
    rw [List.mem_singleton.mp hc]
    exact program?_call hword w

theorem exists_calls (hword : (settings i).downloader.head? = some word) (s : RunState) :
    ∃ calls, (after (run i) s).calls = s.calls ++ calls ∧ ∀ c ∈ calls, c.program? = some word := by
  have hidle (h : Idle s (after (run i) s)) : ∃ calls, (after (run i) s).calls = s.calls ++ calls ∧
      ∀ c ∈ calls, c.program? = some word :=
    ⟨[], by rw [h.calls, List.append_nil], fun c hc => absurd hc List.not_mem_nil⟩
  cases hparse : Arguments.parse i.arguments with
  | error m => exact hidle (returned_of_misuse hparse).2
  | ok a =>
    by_cases hhelp : a.help = true
    · exact hidle (returned_of_help hparse hhelp).2
    · exact exists_calls_of_proceeds ⟨hparse, Bool.eq_false_iff.mpr hhelp⟩ hword s

theorem run_congr {r r' : Runner}
    (h : ∀ a w, r.run (Discovery.call (request i a).options a.inputs w) =
      r'.run (Discovery.call (request i a).options a.inputs w)) :
    run { i with runner := r } = run { i with runner := r' } := by
  have hfind (a : Arguments) : Discovery.find (request i a).options r a.inputs =
      Discovery.find (request i a).options r' a.inputs := Discovery.find_congr (h a)
  have hdiscover (a : Arguments) : discoverWith { i with runner := r } (settings i) a =
      discoverWith { i with runner := r' } (settings i) a := by
    have ha := hfind a
    rw [request] at ha
    simp only [discoverWith, ha]
  have hsettings (r : Runner) : settings { i with runner := r } = settings i := rfl
  unfold run
  simp only [hsettings, hdiscover]

theorem started_by_first_word (i : Invocation) :
    Settings.IsCut (i.environment Settings.downloaderVariable) (settings i).downloader ∧
      ∃ word, (settings i).downloader.head? = some word ∧
        (∀ s, ∃ calls, (after (run i) s).calls = s.calls ++ calls ∧
          ∀ c ∈ calls, c.program? = some word) ∧
        ∀ start other : Call → FileTree → Child,
          (∀ c t, c.program? = some word → start c t = other c t) →
            run { i with runner := .process start } = run { i with runner := .process other } := by
  have hcut : Settings.IsCut (i.environment Settings.downloaderVariable) (settings i).downloader := by
    rw [downloader_settings]
    exact Settings.isCut_downloaderOf _
  obtain ⟨word, more, hwords⟩ := List.exists_cons_of_ne_nil hcut.ne_nil
  have hword : (settings i).downloader.head? = some word := by rw [hwords, List.head?_cons]
  refine ⟨hcut, word, hword, exists_calls hword, fun start other h => ?_⟩
  apply run_congr
  intro a w
  exact Runner.run_process_congr fun t => h _ t (program?_call hword w)

/-- Unlike the blank characters around it, U+0085 is part of a word. -/
def interpreted : Spread where
  front := ['\uFEFF', ' ']
  first := "python3".toList
  rest := [(['\u00A0', '\u2028'], "-m".toList), (['\t'], ['p', 'i', '\u0085', 'p'])]
  back := ['\r', '\n']
  front_blank := by decide
  first_word := by decide
  rest_spaced := by
    intro p hp
    rcases List.mem_pair.mp hp with rfl | rfl
    · exact ⟨⟨by decide, by decide⟩, by decide⟩
    · exact ⟨⟨by decide, by decide⟩, by decide⟩
  back_blank := by decide

def completing (t : FileTree) : Child := .ran t [] (.ended (some 0) none) []

theorem started_by_first_word_of_interpreted :
    let env : Environment := fun name =>
      if name = Settings.downloaderVariable then some interpreted.text else none
    let i : Invocation := { collecting "wheel" ["in.txt"] with environment := env }
    let start : Call → FileTree → Child := fun c t =>
      if c.program? = some "python3" then completing t else .failed t (.thrown "spawn ENOENT")
    env Settings.downloaderVariable = some interpreted.text ∧
      (settings i).downloader = ["python3", "-m", "pi\u0085p"] ∧
      (∀ c t, c.program? = some "python3" → start c t = completing t) ∧
      run { i with runner := .process start } =
        run { i with runner := .process fun _ t => completing t } := by
  intro env i start
  obtain ⟨hcut, word, hword, -, hstarts⟩ := started_by_first_word i
  have henv : env Settings.downloaderVariable = some interpreted.text := if_pos rfl
  have hwords : (settings i).downloader = ["python3", "-m", "pi\u0085p"] := by
    rw [hcut.of_spread interpreted henv]
    decide
  obtain rfl : word = "python3" := by
    rw [hwords] at hword
    exact (Option.some.inj hword).symm
  have hsame : ∀ c t, c.program? = some "python3" → start c t = completing t :=
    fun c t h => if_pos h
  exact ⟨henv, hwords, hsame, hstarts _ _ hsame⟩

end Program

end BuildRequirements
