import BuildRequirements.Diagnostics
import BuildRequirements.Text.Blank

namespace BuildRequirements

open Text

structure Settings where
  downloader : List String
  scratchRoot : String
  threshold : Severity
  warnings : List String
  deriving DecidableEq, Repr

abbrev Environment := String → Option String

namespace Settings

def downloaderVariable : String := "FIND_BUILDDEPS_PIP"

def scratchVariable : String := "FIND_BUILDDEPS_TMPDIR"

def thresholdVariable : String := "FIND_BUILDDEPS_LOG_LEVEL"

def defaultDownloader : List String := ["pip"]

def downloaderOf (value : Option String) : List String :=
  match trim (value.getD "") with
  | "" => defaultDownloader
  | command => (pieces command.toList).map String.ofList

def scratchRootOf (fallback : String) (value : Option String) : String :=
  match trim (value.getD "") with
  | "" => fallback
  | root => root

/-- A threshold is known by its keyword in any case; the keywords are plain ASCII, and so is all that
lower case turns into them. -/
def thresholdOf (value : Option String) : Severity × List String :=
  match trim (value.getD "") with
  | "" => (.info, [])
  | word =>
    match Severity.ofKeyword? word.toLower with
    | some s => (s, [])
    | none =>
      (.info, [thresholdVariable ++ " must be one of " ++
        ", ".intercalate (Severity.all.map Severity.keyword) ++ "; using " ++ Severity.info.keyword])

def ofEnvironment (temporary : String) (env : Environment) : Settings :=
  let threshold := thresholdOf (env thresholdVariable)
  { downloader := downloaderOf (env downloaderVariable)
    scratchRoot := scratchRootOf temporary (env scratchVariable)
    threshold := threshold.1
    warnings := threshold.2 }

theorem downloaderOf_ne_nil (value : Option String) : downloaderOf value ≠ [] := by
  unfold downloaderOf
  split
  · simp [defaultDownloader]
  · simpa using pieces_ne_nil _

end Settings

end BuildRequirements
