import BuildRequirements.Proofs.Program.History

namespace BuildRequirements.Program

open FileTree Run Text

def again (i : Invocation) (clock : Calendar.Clock) (runner : Runner) : Invocation :=
  { i with clock := clock, runner := runner }

structure Spares (path : String) (i : Invocation) (s : RunState) : Prop where
  outside : ∀ q ∈ way path, ¬workspace i s <:+ q
  kept : ∀ q ∈ way path, ∀ call, destination call.log = Scratch.logName :: workspace i s →
    i.runner.KeepsAt call q

structure Skips (path : String) (i : Invocation) (s : RunState) : Prop where
  success : outcome (run i) s = .ok .success
  unchanged : (after (run i) s).files.node? (destination path) = s.files.node? (destination path)
  told : (after (run i) s).diagnostics.getLast? = some noNews

variable {i : Invocation} {a : Arguments} {s t : RunState} {d e : Discovery} {known : NameSet}
  {path : String} {q : Location} {clock : Calendar.Clock} {runner : Runner}

theorem spares_of_isConfined (hconf : i.runner.IsConfined)
    (hout : ∀ q ∈ way path, ¬workspace i s <:+ q) : Spares path i s := by
  constructor
  · exact hout
  · intro q hq call hlog
    apply hconf call q
    rw [hlog, List.tail_cons]
    exact isAbove_eq_false (hout q hq)

theorem node?_searched (h : Spares path i s) (hq : q ∈ way path) :
    (searched i a s).files.node? q =
      (s.files.makeFolders (settings i).scratchRoot).1.node? q := by
  have hfiles : (ready i s).files = s.files := rfl
  have hout := h.outside q hq
  have hkept := h.kept q hq
  rw [← workspace_request i a s] at hout hkept
  have hnode : (searched i a s).files.node? q =
      ((ready i s).files.makeFolders (request i a).options.scratchRoot).1.node? q :=
    Discovery.node?_find hout hkept
  rw [scratchRoot_request, hfiles] at hnode
  exact hnode

theorem root_of_found (hfound : found i a s = .ok (.ok d)) :
    ∀ q ∈ way (settings i).scratchRoot,
      (s.files.makeFolders (settings i).scratchRoot).1.node? q = some .folder := by
  obtain ⟨w, hw, _⟩ := bind_eq_ok hfound
  have hroot := (Scratch.create_eq_ok Discovery.isPlain_stem hw).root_folders
  rw [scratchRoot_request] at hroot
  exact hroot

theorem node?_searched_again (hfirst : Spares path i s) (hsecond : Spares path (again i clock runner) t)
    (hfound : found i a s = .ok (.ok d))
    (ht : ∀ q ∈ way path, t.files.node? q = none → (searched i a s).files.node? q = none) :
    ∀ q ∈ way path, (searched (again i clock runner) a t).files.node? q = t.files.node? q := by
  intro q hq
  rw [node?_searched hsecond hq]
  rcases makeFolders_kept t.files (settings (again i clock runner)).scratchRoot q with
    h | ⟨hway, hnone, _⟩
  · exact h
  -- A folder made by the second run would be on the way to a root that is there since the first.
  · have hroot := root_of_found hfound q hway
    rw [← node?_searched hfirst hq, ht q hq hnone] at hroot
    cases hroot

theorem recorded_again (ho : a.output = some path) (hc : a.onlyChanges = true) {u v : RunState}
    (h : ∀ q ∈ way path, u.files.node? q = v.files.node? q) :
    outcome (recorded a) u = outcome (recorded a) v := by
  rw [outcome_recorded_of_gated ho hc, outcome_recorded_of_gated ho hc, textAt, textAt,
    read_congr h]

theorem update_congr (h : e.names = d.names) (known : NameSet) : update a e known = update a d known := by
  rw [update, update, h]

theorem hash_not_mem_of_told (ha : Proceeds i a) (ho : a.output = some path)
    (hfound : found i a s = .ok (.ok d)) (hskips : Skips path i s) :
    ∀ n ∈ d.names, '#' ∉ n.toList := by
  have hends := ends i s
  have htold := hskips.told
  rw [hskips.success] at hends
  generalize after (run i) s = t at hends htold
  cases hends with
  | helped hparse hhelp => exact absurd hhelp (ha.help_ne hparse)
  | printed hb hfoundb hknown hverdict houtput =>
    rw [← ha.unique hb, ho] at houtput
    cases houtput
  | written hb hfoundb hknown hverdict houtput hwrite hfiles hprinted hlast => exact absurd htold hlast
  | skipped hb hfoundb hknown hverdict =>
    obtain rfl := ha.unique hb
    rw [hfound] at hfoundb
    obtain rfl := Except.ok.inj (Except.ok.inj hfoundb)
    intro n hn
    have hmem := Update.mem_of_skipped hverdict n hn
    rcases known_cases ho hknown with hempty | hold
    · rw [hempty] at hmem
      cases hmem
    · rw [hold] at hmem
      exact Listing.hash_not_mem_of_mem_recorded hmem

theorem skips_of_verdict (ha : Proceeds i a) (hfound : found i a s = .ok (.ok d))
    (hknown : outcome (recorded a) (searched i a s) = .ok known)
    (hverdict : (update a d known).verdict ≠ .write)
    (hnode : (searched i a s).files.node? (destination path) = s.files.node? (destination path)) :
    Skips path i s := by
  obtain ⟨hout, hafter⟩ := run_of_skip ha hfound rfl hknown hverdict
  have hfiles : (after (run i) s).files = (searched i a s).files := by rw [hafter]
  refine ⟨hout, ?_, ?_⟩
  · rw [hfiles]
    exact hnode
  · rw [hafter, List.getLast?_concat]

theorem cutName_of_found (hfound : found i a s = .ok (.ok d))
    (hhash : ∀ n ∈ d.names, '#' ∉ n.toList) : ∀ n ∈ d.names.toList, Listing.cutName n = some n := by
  intro n hn
  exact Listing.cutName_of_hash_not_mem (isToken_of_found hfound n hn).1 (hhash n hn)

theorem recorded_of_written {u : FileTree} (ho : a.output = some path) (hc : a.onlyChanges = true)
    (hfound : found i a s = .ok (.ok d)) (hknown : outcome (recorded a) (searched i a s) = .ok known)
    (hverdict : (update a d known).verdict = .write)
    (hwrite : (searched i a s).files.write a.append path (Utf8.encode (content i a d known)) = .ok u)
    (ht : t.files = u) :
    outcome (recorded a) t = .ok (Update.recordedAfter ⟨a.append, a.onlyChanges⟩ d.names.toList
      (recordedAt (searched i a s).files path)) := by
  have hafter := Update.recordedAfter_of_write cutName_of_mem_recordedAt (known_cases ho hknown)
    hverdict
  rw [← hafter, outcome_recorded_of_gated ho hc, textAt, ht, read_of_write hwrite]
  exact congrArg Except.ok (recordedAt_of_write hfound hwrite)

theorem skips_again_iff (ha : Proceeds i a) (ho : a.output = some path) (hc : a.onlyChanges = true)
    (hfirst : Spares path i s) (hrun : outcome (run i) s = .ok .success)
    (hfound : found i a s = .ok (.ok d))
    (hsecond : Spares path (again i clock runner) (after (run i) s))
    (hagain : found (again i clock runner) a (after (run i) s) = .ok (.ok e))
    (hsame : e.names = d.names) :
    Skips path (again i clock runner) (after (run i) s) ↔ ∀ n ∈ d.names, '#' ∉ n.toList := by
  have haj : Proceeds (again i clock runner) a := ⟨ha.parse_eq, ha.help_eq⟩
  constructor
  · intro hskips
    rw [← hsame]
    exact hash_not_mem_of_told haj ho hagain hskips
  · intro hhash
    have hends := ends i s
    rw [hrun] at hends
    generalize after (run i) s = t at hends hsecond hagain
    cases hends with
    | helped hparse hhelp =>
      have hb := ha.help_eq
      rw [Except.ok.inj (ha.parse_eq.symm.trans hparse), hhelp] at hb
      cases hb
    | printed hb hfoundb hknown hverdict houtput =>
      rw [← ha.unique hb, ho] at houtput
      cases houtput
    | skipped hb hfoundb hknown hverdict hfiles =>
      obtain rfl := ha.unique hb
      rw [hfound] at hfoundb
      obtain rfl := Except.ok.inj (Except.ok.inj hfoundb)
      have hnode := node?_searched_again hfirst hsecond hfound fun q _ h => by rw [← hfiles, h]
      have hbefore : ∀ q ∈ way path, (searched (again i clock runner) a t).files.node? q =
          (searched i a s).files.node? q := by
        intro q hq
        rw [hnode q hq, hfiles]
      rw [← recorded_again ho hc hbefore] at hknown
      rw [← update_congr hsame] at hverdict
      exact skips_of_verdict haj hagain hknown hverdict (hnode _ (destination_mem_way path))
    | @written _ b d' known path' u hb hfoundb hknown hverdict houtput hwrite hfiles =>
      obtain rfl := ha.unique hb
      rw [hfound] at hfoundb
      obtain rfl := Except.ok.inj (Except.ok.inj hfoundb)
      obtain rfl : path = path' := Option.some.inj (ho.symm.trans houtput)
      have hwritten := Storage.write_eq_ok hwrite
      have hkept : ∀ q ∈ way path, t.files.node? q = none →
          (searched i a s).files.node? q = none := by
        intro q _ hnone
        have hq := (write_eq_ok hwritten).2.2 q
        rw [← hfiles, hnone] at hq
        split at hq
        · cases hq
        · exact hq.symm
      have hnode := node?_searched_again hfirst hsecond hfound hkept
      have hrecorded := recorded_of_written ho hc hfound hknown hverdict hwritten hfiles
      rw [← recorded_again ho hc hnode] at hrecorded
      apply skips_of_verdict haj hagain hrecorded _ (hnode _ (destination_mem_way path))
      rw [update_congr hsame]
      exact Update.skipped_of_recordedAfter hc (cutName_of_found hfound hhash)

def gated (name : String) : Invocation :=
  collecting name ["in.txt", "-o", "out.txt", "--only-write-on-update"]

theorem skips_again_of_gated :
    Skips "out.txt" (again (gated "wheel") ⟨some 1000, 0⟩ (gated "wheel").runner)
      (after (run (gated "wheel")) { files := .empty }) := by
  let a : Arguments := { inputs := ["in.txt"], output := some "out.txt", onlyChanges := true }
  let s : RunState := { files := .empty }
  let d : Discovery := ⟨.ofList ["wheel"], false, none⟩
  have hconf : (gated "wheel").runner.IsConfined := Runner.isConfined_writing _ _
  have hfirst : Spares "out.txt" (gated "wheel") s := spares_of_isConfined hconf (by decide +kernel)
  have hsecond : Spares "out.txt" (again (gated "wheel") ⟨some 1000, 0⟩ (gated "wheel").runner)
      (after (run (gated "wheel")) s) := spares_of_isConfined hconf (by decide +kernel)
  have hparse : Arguments.parse (gated "wheel").arguments = .ok a := by decide +kernel
  have hrun : outcome (run (gated "wheel")) s = .ok .success := by decide +kernel
  have hfound : found (gated "wheel") a s = .ok (.ok d) := by decide +kernel
  have hagain : found (again (gated "wheel") ⟨some 1000, 0⟩ (gated "wheel").runner) a
      (after (run (gated "wheel")) s) = .ok (.ok d) := by decide +kernel
  apply (skips_again_iff ⟨hparse, rfl⟩ rfl rfl hfirst hrun hfound hsecond hagain rfl).mpr
  decide +kernel

theorem not_skips_again :
    ¬Skips "out.txt" (again (gated "a#b") ⟨some 1000, 0⟩ (gated "a#b").runner)
      (after (run (gated "a#b")) { files := .empty }) := by
  intro h
  have htold := h.told
  revert htold
  decide +kernel

end BuildRequirements.Program
