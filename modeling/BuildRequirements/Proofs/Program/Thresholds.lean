import BuildRequirements.Proofs.Program.Frame
import BuildRequirements.Proofs.Telling

namespace BuildRequirements

open Run Text

namespace Settings

variable {value : Option String} {p : Severity}

end Settings

namespace Display

/-- Of the diagnostics `ns`, the display has a line for each of `entries`, in their order. -/
structure Logs (d : Display) (ns entries : List Diagnostic) : Prop where
  lines : d.lines ns = entries.map d.line
  text : d.text ns = String.join (entries.map fun n => d.line n ++ "\n")

theorem logs (d : Display) (ns : List Diagnostic) :
    d.Logs ns (ns.filter (d.threshold.rank ≤ ·.severity.rank)) := by
  have hlines : d.lines ns = (ns.filter (d.threshold.rank ≤ ·.severity.rank)).map d.line := rfl
  refine ⟨hlines, ?_⟩
  rw [text, hlines, List.map_map]
  rfl

end Display

namespace Program

variable {i : Invocation} {a : Arguments} {s : RunState} {env : Environment}
  {p : Diagnostic → Prop} {storage : Storage}

section Tells

theorem tells_deliver (content : String) (output : Option String) (append : Bool) :
    Tells p (deliver content output append storage) := by
  unfold deliver
  split
  · exact tells_print _
  · exact tells_changeFiles _

theorem tells_recorded (a : Arguments) : Tells p (recorded a) := by
  unfold recorded
  split
  · exact tells_bind (tells_readText _) fun _ => tells_pure _
  · exact tells_pure _

theorem tells_conclude (a : Arguments) (clock : Calendar.Clock) (d : Discovery) :
    Tells (fun _ => True) (conclude a clock d storage) := by
  apply tells_bind (tells_recorded a)
  intro known
  dsimp only
  have hfinish (text : String) : Tells (fun _ => True)
      (deliver text a.output a.append storage >>= fun _ => (pure ExitCode.success : Run ExitCode)) :=
    tells_bind (tells_deliver _ _ _) fun _ => tells_pure _
  split
  · apply tells_bind (tells_report trivial)
    intro _
    split
    · exact tells_bind (tells_report trivial) fun _ => hfinish _
    · exact hfinish _
  · exact tells_bind (tells_report trivial) fun _ => tells_pure _

end Tells

section Settings

theorem downloader_settings (i : Invocation) : (settings i).downloader =
    Settings.downloaderOf (i.environment Settings.downloaderVariable) := by
  rw [settings, Settings.ofEnvironment]

end Settings

section Unwarned

end Unwarned

section Errors

end Errors

section Alike

variable {j : Invocation}

end Alike

end Program

end BuildRequirements
