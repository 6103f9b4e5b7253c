import BuildRequirements.Files.Path
import BuildRequirements.Files.Tree

namespace BuildRequirements

inductive Fault.Refusal where
  | noSpace
  | tooLarge
  | deviceError
  | denied
  | notPermitted
  | busy
  | notEmpty
  deriving DecidableEq, Repr

inductive Fault.Cause where
  | missing
  | isFolder
  | notFolder
  | alreadyThere
  | unsuitable
  | refused (why : Fault.Refusal)
  deriving DecidableEq, Repr

inductive Fault.Attempt where
  | openPath (path : String)
  | readContent
  | writeContent
  | makeFolder (path : String)
  | makeScratch (template : String)
  | examine (path : String)
  | removeFile (path : String)
  | removeFolder (path : String)
  deriving DecidableEq, Repr

structure Fault where
  cause : Fault.Cause
  attempt : Fault.Attempt
  deriving DecidableEq, Repr

namespace Fault

def Refusal.code : Refusal → String
  | noSpace => "ENOSPC"
  | tooLarge => "EFBIG"
  | deviceError => "EIO"
  | denied => "EACCES"
  | notPermitted => "EPERM"
  | busy => "EBUSY"
  | notEmpty => "ENOTEMPTY"

def Refusal.text : Refusal → String
  | noSpace => "no space left on device"
  | tooLarge => "file too large"
  | deviceError => "i/o error"
  | denied => "permission denied"
  | notPermitted => "operation not permitted"
  | busy => "resource busy or locked"
  | notEmpty => "directory not empty"

def Cause.code : Cause → String
  | missing => "ENOENT"
  | isFolder => "EISDIR"
  | notFolder => "ENOTDIR"
  | alreadyThere => "EEXIST"
  | unsuitable => "EINVAL"
  | refused why => why.code

def Cause.text : Cause → String
  | missing => "no such file or directory"
  | isFolder => "illegal operation on a directory"
  | notFolder => "not a directory"
  | alreadyThere => "file already exists"
  | unsuitable => "invalid argument"
  | refused why => why.text

def Attempt.text : Attempt → String
  | openPath path => "open '" ++ path ++ "'"
  | readContent => "read"
  | writeContent => "write"
  | makeFolder path => "mkdir '" ++ path ++ "'"
  | makeScratch template => "mkdtemp '" ++ template ++ "XXXXXX'"
  | examine path => "lstat '" ++ path ++ "'"
  | removeFile path => "unlink '" ++ path ++ "'"
  | removeFolder path => "rmdir '" ++ path ++ "'"

def message (f : Fault) : String :=
  f.cause.code ++ ": " ++ f.cause.text ++ ", " ++ f.attempt.text

end Fault

namespace FileTree

def enter (t : FileTree) (here : Location) : List String → Except Fault.Cause Location
  | [] => .ok here
  | part :: rest =>
    if Path.stays part then enter t here rest
    else if part = ".." then enter t here.tail rest
    else
      match t.node? (part :: here) with
      | some .folder => enter t (part :: here) rest
      | some (.file _) => .error .notFolder
      | none => .error .missing

def locate (t : FileTree) (path : String) : Except Fault.Cause Location :=
  if path = "" then .error .missing
  else do
    let dir ← t.enter [] (Path.parts path).dropLast
    let last := (Path.parts path).getLastD ""
    if Path.stays last then return dir
    else if last = ".." then return dir.tail
    else return last :: dir

def read (t : FileTree) (path : String) : Except Fault (List UInt8) :=
  match t.locate path with
  | .error cause => .error ⟨cause, .openPath path⟩
  | .ok p =>
    match t.node? p with
    | none => .error ⟨.missing, .openPath path⟩
    | some .folder => .error ⟨.isFolder, .readContent⟩
    | some (.file content) => .ok content

def locateFile (t : FileTree) (path : String) : Except Fault.Cause (String × Location) :=
  if path = "" then .error .missing
  else do
    let parts := (Path.parts path).reverse
    let named := parts.dropWhile (· = "")
    let dir ← t.enter [] named.tail.reverse
    let name := named.headD ""
    if named.length < parts.length ∨ Path.stays name ∨ name = ".." ∨
        t.node? (name :: dir) = some .folder then
      .error .isFolder
    else return (name, dir)

def write (t : FileTree) (append : Bool) (path : String) (bytes : List UInt8) :
    Except Fault FileTree :=
  match t.locateFile path with
  | .error cause => .error ⟨cause, .openPath path⟩
  | .ok (name, dir) =>
    match append, t.node? (name :: dir) with
    | true, some (.file content) => .ok (t.put name dir (.file (content ++ bytes)))
    | _, _ => .ok (t.put name dir (.file bytes))

/-- Makes the folders that are missing on the way. Those made before a fault stay. A fault comes with
the parts that are left after it. -/
def makeParts (t : FileTree) (here : Location) :
    List String → FileTree × Except (Fault.Cause × List String) Location
  | [] => (t, .ok here)
  | part :: rest =>
    if Path.stays part then makeParts t here rest
    else if part = ".." then makeParts t here.tail rest
    else
      match t.node? (part :: here) with
      | some .folder => makeParts t (part :: here) rest
      | some (.file _) => (t, .error (if rest.isEmpty then .alreadyThere else .notFolder, rest))
      | none => makeParts (t.put part here .folder) (part :: here) rest

def faultyPath (t : FileTree) (path : String) (left : List String) : String :=
  let parts := Path.parts path
  match t.locate path with
  | .error .missing => Path.ofParts (parts.take (parts.length - left.length))
  | _ => path

def makeFolders (t : FileTree) (path : String) : FileTree × Except Fault Location :=
  if path = "" then (t, .error ⟨.missing, .makeFolder path⟩)
  else
    let made := t.makeParts [] (Path.parts path)
    (made.1, made.2.mapError fun f => ⟨f.1, .makeFolder (t.faultyPath path f.2)⟩)

def placesAlong (here : Location) : List String → List Location
  | [] => [here]
  | part :: rest =>
    if Path.stays part then placesAlong here rest
    else if part = ".." then here :: placesAlong here.tail rest
    else here :: placesAlong (part :: here) rest

/-- Removes what a path leads to, if there is anything, with all below it. A folder above one that
the path leads through stays, since the path leads nowhere once that one is gone. A path through a
file and one that ends in a dot are faults. -/
def removeAt (t : FileTree) (path : String) : Except Fault FileTree :=
  match t.locate path with
  | .error cause => if cause = .missing then .ok t else .error ⟨cause, .examine path⟩
  | .ok p =>
    if (Path.parts path).reverse.find? (· ≠ "") = some "." then
      .error ⟨.unsuitable, .removeFolder path⟩
    else .ok (t.remove p (placesAlong [] (Path.parts path)))

def install (t : FileTree) (path : String) (bytes : List UInt8) : FileTree × Except Fault Unit :=
  let made := t.makeFolders (Path.parent path)
  match made.2, made.1.write false path bytes with
  | .error f, _ => (made.1, .error f)
  | .ok _, .error f => (made.1, .error f)
  | .ok _, .ok written => (written, .ok ())

end FileTree

end BuildRequirements
