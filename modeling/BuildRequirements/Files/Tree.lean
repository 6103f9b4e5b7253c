import BuildRequirements.Text.CodeUnits

namespace BuildRequirements

/-- The names from a node up to the root. The root's own location is empty. -/
abbrev Location := List String

def Location.isAbove (p q : Location) : Bool := p.isSuffixOf q && p != q

inductive Node where
  | folder
  | file (content : List UInt8)
  deriving DecidableEq, Repr

namespace FileTree

def lookup (entries : List (Location × Node)) : Location → Option Node
  | [] => some .folder
  | name :: dir => entries.lookup (name :: dir)

theorem lookup_filter (keep : Location → Bool) (entries : List (Location × Node))
    (name : String) (dir : Location) :
    lookup (entries.filter fun e => keep e.1) (name :: dir) =
      if keep (name :: dir) then lookup entries (name :: dir) else none := by
  induction entries with
  | nil => simp [lookup]
  | cons e es ih =>
    obtain ⟨p, n⟩ := e
    simp only [lookup] at ih ⊢
    by_cases hp : name :: dir = p
    · subst hp
      cases hk : keep (name :: dir) with
      | false => simpa [List.filter_cons, hk] using ih
      | true => simp [hk]
    · have hb : ((name :: dir) == p) = false := by simpa using hp
      cases hk : keep p with
      | false => simpa [List.filter_cons, List.lookup_cons, hk, hb] using ih
      | true => simpa [List.lookup_cons, hk, hb] using ih

end FileTree

structure FileTree where
  entries : List (Location × Node)
  parents : ∀ name dir, FileTree.lookup entries (name :: dir) ≠ none →
    FileTree.lookup entries dir = some .folder

namespace FileTree

def node? (t : FileTree) (p : Location) : Option Node := lookup t.entries p

@[simp] theorem node?_nil (t : FileTree) : t.node? [] = some .folder := rfl

theorem node?_parent {t : FileTree} {name : String} {dir : Location}
    (h : t.node? (name :: dir) ≠ none) : t.node? dir = some .folder :=
  t.parents name dir h

def empty : FileTree := ⟨[], by simp [lookup]⟩

def putEntries (entries : List (Location × Node)) (p : Location) (n : Node) :
    List (Location × Node) :=
  (p, n) :: entries.filter fun e => e.1 != p

theorem lookup_putEntries (entries : List (Location × Node)) (name : String) (dir : Location)
    (n : Node) (p : Location) :
    lookup (putEntries entries (name :: dir) n) p =
      if p = name :: dir then some n else lookup entries p := by
  cases p with
  | nil => simp [lookup]
  | cons a as =>
    have hf := lookup_filter (fun q => q != name :: dir) entries a as
    simp only [lookup, putEntries, List.lookup_cons] at hf ⊢
    by_cases hp : a :: as = name :: dir
    · simp [hp]
    · have hb : ((a :: as) == (name :: dir)) = false := by simpa using hp
      rw [hb, if_neg hp]
      simpa [hb, bne] using hf

def put (t : FileTree) (name : String) (dir : Location) (n : Node) : FileTree :=
  if h : t.node? dir = some .folder ∧ t.node? (name :: dir) ≠ some .folder then
    { entries := putEntries t.entries (name :: dir) n
      parents := by
        intro a as ha
        rw [lookup_putEntries] at ha ⊢
        split
        · rename_i hd
          split at ha
          · rename_i he
            obtain ⟨rfl, rfl⟩ := List.cons.inj he
            exact absurd (congrArg List.length hd) (by simp)
          · exact absurd (hd ▸ t.parents a as ha) h.2
        · split at ha
          · rename_i he
            obtain ⟨rfl, rfl⟩ := List.cons.inj he
            exact h.1
          · exact t.parents a as ha }
  else t

theorem node?_put {t : FileTree} {name : String} {dir : Location} (n : Node)
    (hd : t.node? dir = some .folder) (hn : t.node? (name :: dir) ≠ some .folder) (p : Location) :
    (t.put name dir n).node? p = if p = name :: dir then some n else t.node? p := by
  rw [put, dif_pos ⟨hd, hn⟩]
  exact lookup_putEntries t.entries name dir n p

def isRemoved (top : Location) (used : List Location) (p : Location) : Bool :=
  top.isSuffixOf p && !used.any (Location.isAbove p)

theorem isRemoved_of_parent {top : Location} {used : List Location} {name : String}
    {dir : Location} (h : isRemoved top used dir = true) :
    isRemoved top used (name :: dir) = true := by
  simp only [isRemoved, Location.isAbove, Bool.and_eq_true, Bool.not_eq_true', List.any_eq_false,
    List.isSuffixOf_iff_suffix, bne_iff_ne, not_and, Decidable.not_not] at h ⊢
  refine ⟨h.1.trans (List.suffix_cons name dir), fun q hq hs => ?_⟩
  have hd := h.2 q hq ((List.suffix_cons name dir).trans hs)
  exact absurd (hd ▸ hs.length_le) (by simp)

def remove (t : FileTree) (top : Location) (used : List Location) : FileTree where
  entries := t.entries.filter fun e => !isRemoved top used e.1
  parents := by
    intro a as ha
    rw [lookup_filter (fun q => !isRemoved top used q)] at ha
    split at ha
    · rename_i hs
      have hp := t.parents a as ha
      cases as with
      | nil => rfl
      | cons b bs =>
        rw [lookup_filter (fun q => !isRemoved top used q), if_pos, hp]
        simp only [Bool.not_eq_true', Bool.eq_false_iff] at hs ⊢
        exact fun h => hs (isRemoved_of_parent h)
    · exact absurd rfl ha

theorem node?_remove (t : FileTree) (top : Location) (used : List Location) {p : Location}
    (hp : p ≠ []) :
    (t.remove top used).node? p = if isRemoved top used p then none else t.node? p := by
  obtain ⟨name, dir, rfl⟩ := List.exists_cons_of_ne_nil hp
  simp only [remove, node?]
  rw [lookup_filter (fun q => !isRemoved top used q)]
  cases isRemoved top used (name :: dir) <;> simp

def removeBelow (t : FileTree) (top : Location) (gone : List Location) : FileTree :=
  (gone.filter top.isAbove).foldl (fun t p => t.remove p []) t

def overwrite (t : FileTree) (p : Location) (bytes : List UInt8) : FileTree :=
  match p, t.node? p with
  | name :: dir, some (.file content) =>
    t.put name dir (.file (bytes ++ content.drop bytes.length))
  | _, _ => t

def names (t : FileTree) (dir : Location) : List String :=
  t.entries.filterMap fun e =>
    match e.1 with
    | [] => none
    | name :: up => if up = dir then some name else none

theorem mem_names {t : FileTree} {name : String} {dir : Location}
    (h : t.node? (name :: dir) ≠ none) : name ∈ t.names dir := by
  obtain ⟨n, hn⟩ := Option.ne_none_iff_exists'.mp h
  simp only [node?, lookup] at hn
  obtain ⟨before, after, he, _⟩ := List.lookup_eq_some_iff.mp hn
  exact List.mem_filterMap.mpr ⟨(name :: dir, n), by simp [he], by simp⟩

def isVacant (t : FileTree) (p : Location) : Bool :=
  match t.node? p with
  | none => true
  | some .folder => (t.names p).isEmpty
  | some (.file _) => false

theorem node?_of_isVacant {t : FileTree} {p : Location} (h : t.isVacant p = true) (name : String) :
    t.node? (name :: p) = none := by
  refine Classical.byContradiction fun hn => ?_
  have hf := node?_parent hn
  have hm := mem_names hn
  simp only [isVacant, hf, List.isEmpty_iff] at h
  exact absurd (h ▸ hm) List.not_mem_nil

def shownPath (p : Location) : Node → String
  | .folder => "/".intercalate p.reverse ++ "/"
  | .file _ => "/".intercalate p.reverse

def listing (t : FileTree) : List (String × Node) :=
  (t.entries.map fun e => (shownPath e.1 e.2, e.2)).mergeSort fun a b =>
    (Text.CodeUnits.compare a.1 b.1).isLE

end FileTree

end BuildRequirements
