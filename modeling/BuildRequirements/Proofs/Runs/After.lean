import BuildRequirements.Run

namespace BuildRequirements.Run

variable {α β γ : Type}

def outcome (x : Run α) (s : RunState) : Except Interruption α :=
  match x.run s with
  | .ok a _ => .ok a
  | .error e _ => .error e

def after (x : Run α) (s : RunState) : RunState :=
  match x.run s with
  | .ok _ t => t
  | .error _ t => t

theorem run_of_outcome_of_after (x : Run α) (s : RunState) :
    x.run s =
      match outcome x s with
      | .ok a => .ok a (after x s)
      | .error e => .error e (after x s) := by
  rw [outcome, after]
  cases x.run s <;> rfl

theorem eq_of_outcome_of_after {x y : Run α} (ho : ∀ s, outcome x s = outcome y s)
    (ha : ∀ s, after x s = after y s) : x = y := by
  funext s
  have hx := run_of_outcome_of_after x s
  rw [ho, ha, ← run_of_outcome_of_after] at hx
  exact hx

theorem outcome_bind (x : Run α) (f : α → Run β) (s : RunState) :
    outcome (x >>= f) s =
      match outcome x s with
      | .ok a => outcome (f a) (after x s)
      | .error e => .error e := by
  rw [outcome, outcome, after, EStateM.run_bind]
  cases x.run s <;> rfl

theorem after_bind (x : Run α) (f : α → Run β) (s : RunState) :
    after (x >>= f) s =
      match outcome x s with
      | .ok a => after (f a) (after x s)
      | .error _ => after x s := by
  rw [after, outcome, after, EStateM.run_bind]
  cases x.run s <;> rfl

theorem outcome_bind_ok {x : Run α} {f : α → Run β} {s : RunState} {a : α}
    (h : outcome x s = .ok a) : outcome (x >>= f) s = outcome (f a) (after x s) := by
  rw [outcome_bind, h]

theorem after_bind_ok {x : Run α} {f : α → Run β} {s : RunState} {a : α}
    (h : outcome x s = .ok a) : after (x >>= f) s = after (f a) (after x s) := by
  rw [after_bind, h]

theorem outcome_bind_error {x : Run α} {f : α → Run β} {s : RunState} {e : Interruption}
    (h : outcome x s = .error e) : outcome (x >>= f) s = .error e := by
  rw [outcome_bind, h]

theorem after_bind_error {x : Run α} {f : α → Run β} {s : RunState} {e : Interruption}
    (h : outcome x s = .error e) : after (x >>= f) s = after x s := by
  rw [after_bind, h]

theorem bind_eq_ok {x : Run α} {f : α → Run β} {s : RunState} {b : β}
    (h : outcome (x >>= f) s = .ok b) :
    ∃ a, outcome x s = .ok a ∧ outcome (f a) (after x s) = .ok b := by
  rw [outcome_bind] at h
  cases hx : outcome x s with
  | error e => rw [hx] at h; cases h
  | ok a => rw [hx] at h; exact ⟨a, rfl, h⟩

@[simp] theorem outcome_pure (a : α) (s : RunState) : outcome (pure a) s = .ok a := rfl

@[simp] theorem after_pure (a : α) (s : RunState) : after (pure a : Run α) s = s := rfl

@[simp] theorem outcome_throw (e : Interruption) (s : RunState) :
    outcome (throw e : Run α) s = .error e := rfl

@[simp] theorem after_throw (e : Interruption) (s : RunState) : after (throw e : Run α) s = s := rfl

@[simp] theorem outcome_get (s : RunState) : outcome get s = .ok s := rfl

@[simp] theorem after_get (s : RunState) : after get s = s := rfl

@[simp] theorem outcome_reportAll (severity : Severity) (texts : List String) (s : RunState) :
    outcome (reportAll severity texts) s = .ok () := rfl

@[simp] theorem after_reportAll (severity : Severity) (texts : List String) (s : RunState) :
    after (reportAll severity texts) s =
      { s with diagnostics := s.diagnostics ++ texts.map (⟨severity, ·⟩) } := rfl

@[simp] theorem outcome_report (severity : Severity) (text : String) (s : RunState) :
    outcome (report severity text) s = .ok () := rfl

@[simp] theorem after_report (severity : Severity) (text : String) (s : RunState) :
    after (report severity text) s =
      { s with diagnostics := s.diagnostics ++ [⟨severity, text⟩] } := rfl

@[simp] theorem outcome_print (text : String) (s : RunState) : outcome (print text) s = .ok () := rfl

@[simp] theorem after_print (text : String) (s : RunState) :
    after (print text) s = { s with printed := s.printed ++ [text] } := rfl

@[simp] theorem outcome_record (call : Call) (s : RunState) : outcome (record call) s = .ok () := rfl

@[simp] theorem after_record (call : Call) (s : RunState) :
    after (record call) s = { s with calls := s.calls ++ [call] } := rfl

@[simp] theorem outcome_setFiles (t : FileTree) (s : RunState) : outcome (setFiles t) s = .ok () :=
  rfl

@[simp] theorem after_setFiles (t : FileTree) (s : RunState) :
    after (setFiles t) s = { s with files := t } := rfl

@[simp] theorem after_ofExcept (x : Except Fault α) (s : RunState) : after (ofExcept x) s = s := by
  cases x <;> rfl

theorem outcome_ofExcept (x : Except Fault α) (s : RunState) :
    outcome (ofExcept x) s = x.mapError .fault := by
  cases x <;> rfl

theorem mapError_fault_ok (a : α) : (Except.ok a).mapError Interruption.fault = .ok a := rfl

theorem outcome_changeFiles (change : FileTree → FileTree × Except Fault α) (s : RunState) :
    outcome (changeFiles change) s = (change s.files).2.mapError .fault := by
  simp only [changeFiles, outcome_bind, outcome_get, after_get, outcome_setFiles, outcome_ofExcept]

@[simp] theorem after_changeFiles (change : FileTree → FileTree × Except Fault α) (s : RunState) :
    after (changeFiles change) s = { s with files := (change s.files).1 } := by
  simp only [changeFiles, after_bind, outcome_get, after_get, outcome_setFiles, after_setFiles,
    after_ofExcept]

def textAt (t : FileTree) (path : String) : Except Fault String :=
  match t.read path with
  | .ok bytes => .ok (Text.Utf8.decode bytes)
  | .error f => if f.cause = .missing then .ok "" else .error f

theorem outcome_readText (path : String) (s : RunState) :
    outcome (readText path) s = (textAt s.files path).mapError .fault := by
  rw [readText, outcome_bind, textAt]
  simp only [outcome_get, after_get]
  cases s.files.read path with
  | ok bytes => rfl
  | error f =>
    by_cases h : f.cause = .missing
    · simp only [h, if_true]
      rfl
    · simp only [h, if_false]
      rfl

@[simp] theorem after_readText (path : String) (s : RunState) : after (readText path) s = s := by
  rw [readText, after_bind]
  simp only [outcome_get, after_get]
  cases s.files.read path with
  | ok bytes => rfl
  | error f => by_cases h : f.cause = .missing <;> simp [h]

theorem outcome_writeBytes (append : Bool) (path : String) (bytes : List UInt8) (s : RunState) :
    outcome (writeBytes append path bytes) s =
      ((s.files.write append path bytes).map fun _ => ()).mapError .fault := by
  simp only [writeBytes, outcome_bind, outcome_get, after_get, outcome_ofExcept, after_ofExcept]
  cases s.files.write append path bytes <;> rfl

theorem after_writeBytes (append : Bool) (path : String) (bytes : List UInt8) (s : RunState) :
    after (writeBytes append path bytes) s =
      match s.files.write append path bytes with
      | .ok t => { s with files := t }
      | .error _ => s := by
  simp only [writeBytes, after_bind, outcome_get, after_get, outcome_ofExcept, after_ofExcept]
  cases s.files.write append path bytes <;> rfl

theorem write_of_sound (append : Bool) (path text : String) :
    Run.write append path text = writeBytes append path (Text.Utf8.encode text) := by
  apply eq_of_outcome_of_after
  · intro s
    rw [Run.write, outcome_changeFiles, outcome_writeBytes, Storage.write, Storage.sound]
    cases s.files.write append path (Text.Utf8.encode text) <;> rfl
  · intro s
    rw [Run.write, after_changeFiles, after_writeBytes, Storage.write, Storage.sound]
    cases s.files.write append path (Text.Utf8.encode text) <;> rfl

def Keeps (view : RunState → γ) (x : Run α) : Prop := ∀ s, view (after x s) = view s

section Keeps

variable {view : RunState → γ}

theorem keeps_of_after {x : Run α} (h : ∀ s, after x s = s) : Keeps view x :=
  fun s => congrArg view (h s)

theorem keeps_pure (a : α) : Keeps view (pure a : Run α) := fun _ => rfl

theorem keeps_bind {x : Run α} {f : α → Run β} (hx : Keeps view x) (hf : ∀ a, Keeps view (f a)) :
    Keeps view (x >>= f) := by
  intro s
  rw [after_bind]
  cases outcome x s with
  | ok a => exact (hf a _).trans (hx s)
  | error e => exact hx s

theorem keeps_changeFiles {change : FileTree → FileTree × Except Fault α}
    (h : ∀ s t, view { s with files := t } = view s) : Keeps view (changeFiles change) := by
  intro s
  rw [after_changeFiles]
  exact h s _

end Keeps

end BuildRequirements.Run
