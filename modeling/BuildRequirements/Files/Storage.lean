import BuildRequirements.Files.Access

/-!
Storage under a tree of files. It may fail a write or a removal that the path allows, and what has
been done by then stays done.
-/

namespace BuildRequirements

inductive Storage.Stop where
  | unopened (why : Fault.Refusal)
  | cut (reached : Nat) (why : Fault.Refusal)

structure Storage.Hold where
  gone : List Location
  why : Fault.Refusal
  attempt : Fault.Attempt

structure Storage where
  stop : FileTree → String → List UInt8 → Option Storage.Stop
  hold : FileTree → String → Option Storage.Hold

namespace Storage

def sound : Storage := ⟨fun _ _ _ => none, fun _ _ => none⟩

def Hold.fault (h : Hold) : Fault := ⟨.refused h.why, h.attempt⟩

def write (storage : Storage) (append : Bool) (path : String) (bytes : List UInt8) (t : FileTree) :
    FileTree × Except Fault Unit :=
  match storage.stop t path bytes with
  | none =>
    match t.write append path bytes with
    | .ok u => (u, .ok ())
    | .error f => (t, .error f)
  | some (.unopened why) => (t, .error ⟨.refused why, .openPath path⟩)
  | some (.cut reached why) =>
    match t.write append path (bytes.take reached) with
    | .ok u => (u, .error ⟨.refused why, .writeContent⟩)
    | .error f => (t, .error f)

/-- The storage has a say only where there is something to remove. -/
def remove (storage : Storage) (path : String) (t : FileTree) : FileTree × Except Fault Unit :=
  match t.removeAt path with
  | .error f => (t, .error f)
  | .ok u =>
    match t.locate path, storage.hold t path with
    | .ok p, some hold =>
      if t.node? p = none then (u, .ok ()) else (t.removeBelow p hold.gone, .error hold.fault)
    | _, _ => (u, .ok ())

end Storage

end BuildRequirements
