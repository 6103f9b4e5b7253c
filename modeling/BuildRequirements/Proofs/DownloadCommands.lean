import BuildRequirements.Download.Command
import Mathlib.Data.List.Basic

/-!
A download is read off the words of its command without doubt, whatever words its parts are made of. A
downloader's leading arguments may look like the rest of a command, and an input may look like an option:
still only one place of the command can be where the downloader's words end, and only one word in two
behind the options is an input.
-/

namespace BuildRequirements.Download

def opening (folder : String) : List String := ["download", "-d", folder] ++ options

theorem length_opening (folder : String) : (opening folder).length = 7 := rfl

def arguments (noCache : Bool) (inputs : List String) : List String :=
  (if noCache then ["--no-cache-dir"] else []) ++ inputs.flatMap fun f => ["-r", f]

variable {d e : Download} {noCache noCache' : Bool} {inputs inputs' front rest words words' : List String}
  {folder folder' : String}

theorem command_eq (d : Download) :
    d.command = d.downloader ++ (opening d.folder ++ arguments d.noCache d.inputs) := by
  simp only [command, opening, arguments, List.append_assoc]

section Alignment

theorem inputs_ne : (inputs.flatMap fun f => ["-r", f]) ≠ front ++ "download" :: "-d" :: rest := by
  intro h
  induction inputs generalizing front with
  | nil => simp at h
  | cons f fs ih =>
    rw [List.flatMap_cons] at h
    match front, h with
    | [], h => simp at h
    | [_], h =>
      -- Here the input is the keyword, but what follows an input is never `-d`.
      have hfs : (fs.flatMap fun f => ["-r", f]) = "-d" :: rest := (List.cons.inj (List.cons.inj h).2).2
      cases fs <;> simp at hfs
    | _ :: _ :: front, h => exact ih (List.cons.inj (List.cons.inj h).2).2

theorem arguments_ne : arguments noCache inputs ≠ front ++ "download" :: "-d" :: rest := by
  intro h
  cases noCache with
  | false => exact inputs_ne h
  | true =>
    match front, h with
    | [], h => simp [arguments] at h
    | _ :: front, h => exact inputs_ne (List.cons.inj h).2

/-- No second opening begins inside the first one or behind it. -/
theorem eq_nil_of_opening
    (h : opening folder ++ arguments noCache inputs = front ++ (opening folder' ++ rest)) : front = [] := by
  match front, h with
  | [], _ => rfl
  | [_], h => simp [opening, options] at h
  | [_, _], h => simp [opening, options] at h
  | [_, _, _], h => simp [opening, options] at h
  | [_, _, _, _], h => simp [opening, options] at h
  | [_, _, _, _, _], h => simp [opening, options] at h
  | [_, _, _, _, _, _], h => simp [opening, options] at h
  | _ :: _ :: _ :: _ :: _ :: _ :: _ :: front, h =>
    simp only [opening, options, List.cons_append, List.nil_append, List.cons.injEq] at h
    obtain ⟨-, -, -, -, -, -, -, hbehind⟩ := h
    exact absurd hbehind arguments_ne

theorem length_le_of_opening (h : words ++ (opening folder ++ arguments noCache inputs) =
    front ++ (opening folder' ++ rest)) : front.length ≤ words.length := by
  rcases List.append_eq_append_iff.mp h with ⟨more, rfl, hmore⟩ | ⟨more, rfl, -⟩
  · exact Nat.le_of_eq (by rw [eq_nil_of_opening hmore, List.append_nil])
  · rw [List.length_append]
    exact Nat.le_add_right _ _

theorem words_inj (h : words ++ (opening folder ++ arguments noCache inputs) =
    words' ++ (opening folder' ++ arguments noCache' inputs')) : words = words' := by
  have hlength := Nat.le_antisymm (length_le_of_opening h.symm) (length_le_of_opening h)
  exact (List.append_inj h hlength).1

theorem inputs_inj (h : (inputs.flatMap fun f => ["-r", f]) = inputs'.flatMap fun f => ["-r", f]) :
    inputs = inputs' := by
  induction inputs generalizing inputs' with
  | nil =>
    cases inputs' with
    | nil => rfl
    | cons f fs => simp at h
  | cons f fs ih =>
    cases inputs' with
    | nil => simp at h
    | cons g gs =>
      simp only [List.flatMap_cons, List.cons_append, List.nil_append, List.cons.injEq] at h
      rw [h.2.1, ih h.2.2]

theorem arguments_inj (h : arguments noCache inputs = arguments noCache' inputs') :
    noCache = noCache' ∧ inputs = inputs' := by
  match noCache, noCache', h with
  | false, false, h => exact ⟨rfl, inputs_inj h⟩
  | true, true, h => exact ⟨rfl, inputs_inj (List.cons.inj h).2⟩
  | false, true, h => cases inputs <;> simp [arguments] at h
  | true, false, h => cases inputs' <;> simp [arguments] at h

end Alignment

theorem command_inj (h : d.command = e.command) : d = e := by
  rw [command_eq, command_eq] at h
  have hwords := words_inj h
  rw [hwords] at h
  obtain ⟨hopening, harguments⟩ := List.append_inj (List.append_cancel_left h) rfl
  have hfolder : d.folder = e.folder := by simpa [opening] using hopening
  obtain ⟨hcache, hinputs⟩ := arguments_inj harguments
  cases d
  cases e
  simp only [mk.injEq]
  exact ⟨hwords, hfolder, hinputs, hcache⟩

section Places

theorem getElem?_inputs (inputs : List String) (i : Nat) :
    (inputs.flatMap fun f => ["-r", f])[2 * i]? = inputs[i]?.map (fun _ => "-r") ∧
      (inputs.flatMap fun f => ["-r", f])[2 * i + 1]? = inputs[i]? := by
  induction inputs generalizing i with
  | nil => simp
  | cons f fs ih =>
    cases i with
    | zero => simp
    | succ i => simpa [Nat.mul_add] using ih i

def firstInput (d : Download) : Nat := d.downloader.length + 7 + if d.noCache then 1 else 0

theorem getElem?_command (d : Download) (i : Nat) :
    d.command[d.firstInput + i]? = (d.inputs.flatMap fun f => ["-r", f])[i]? := by
  have hfront : d.command = (d.downloader ++ opening d.folder ++
      (if d.noCache then ["--no-cache-dir"] else [])) ++ d.inputs.flatMap fun f => ["-r", f] := by
    rw [command_eq, arguments, List.append_assoc, List.append_assoc]
  have hlength : (d.downloader ++ opening d.folder ++
      (if d.noCache then ["--no-cache-dir"] else [])).length = d.firstInput := by
    rw [firstInput, List.length_append, List.length_append]
    cases d.noCache <;> rfl
  rw [hfront, List.getElem?_append_right (by omega), hlength, Nat.add_sub_cancel_left]

theorem noCache_iff (d : Download) :
    d.noCache = true ↔ d.command[d.downloader.length + 7]? = some "--no-cache-dir" := by
  have hflag : d.command[d.downloader.length + 7]? = (arguments d.noCache d.inputs)[0]? := by
    rw [command_eq, List.getElem?_append_right (by omega), Nat.add_sub_cancel_left,
      List.getElem?_append_right (Nat.le_of_eq (length_opening _)), length_opening]
  rw [hflag]
  cases d.noCache with
  | true => simp [arguments]
  | false => cases d.inputs <;> simp [arguments]

end Places

theorem command_unambiguous :
    Function.Injective command ∧
      ∀ d : Download,
        (∀ front folder rest, d.command = front ++ (opening folder ++ rest) →
          front.length ≤ d.downloader.length) ∧
        (d.noCache = true ↔ d.command[d.downloader.length + 7]? = some "--no-cache-dir") ∧
        ∀ i, d.command[d.firstInput + 2 * i]? = d.inputs[i]?.map (fun _ => "-r") ∧
          d.command[d.firstInput + 2 * i + 1]? = d.inputs[i]? := by
  refine ⟨fun _ _ => command_inj, fun d => ⟨fun front folder rest h => ?_, noCache_iff d, fun i => ?_⟩⟩
  · rw [command_eq] at h
    exact length_le_of_opening h
  · rw [Nat.add_assoc, getElem?_command, getElem?_command]
    exact getElem?_inputs d.inputs i

def copied (inputs : List String) : Download :=
  ⟨"pip" :: opening "old" ++ ["-r"], "new", inputs, false⟩

theorem command_unambiguous_of_copied :
    (copied ["--no-cache-dir"]).command =
        ["pip"] ++ (opening "old" ++ ("-r" :: opening "new" ++ ["-r", "--no-cache-dir"])) ∧
      ["pip"].length ≤ (copied ["--no-cache-dir"]).downloader.length ∧
      (copied ["--no-cache-dir"]).command ≠ (copied ["-r", "--no-cache-dir"]).command ∧
      (copied ["--no-cache-dir"]).command[(copied ["--no-cache-dir"]).firstInput + 1]? =
        some "--no-cache-dir" := by
  obtain ⟨hinj, hplaces⟩ := command_unambiguous
  obtain ⟨hopening, -, hinputs⟩ := hplaces (copied ["--no-cache-dir"])
  have hcommand : (copied ["--no-cache-dir"]).command =
      ["pip"] ++ (opening "old" ++ ("-r" :: opening "new" ++ ["-r", "--no-cache-dir"])) := rfl
  refine ⟨hcommand, hopening _ _ _ hcommand, fun h => ?_, (hinputs 0).2⟩
  exact absurd (hinj h) (by decide)

end BuildRequirements.Download
