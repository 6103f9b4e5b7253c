namespace BuildRequirements.Path

def parts (path : String) : List String :=
  (path.toList.splitOn '/').map String.ofList

def ofParts (parts : List String) : String := "/".intercalate parts

def stays (part : String) : Bool := part == "" || part == "."

/-- The parts to go from `kept`, which is innermost first, with each `..` taken together with the
part before it. Above the top of an absolute path there is nothing. -/
def settle (absolute : Bool) (kept : List String) : List String → List String
  | [] => kept
  | part :: rest =>
    if stays part then settle absolute kept rest
    else if part = ".." then
      match kept with
      | [] => settle absolute (if absolute then [] else [".."]) rest
      | k :: ks => settle absolute (if k = ".." then ".." :: k :: ks else ks) rest
    else settle absolute (part :: kept) rest

def isAbsolute (path : String) : Bool := path.toList.head? == some '/'

def endsInSlash (path : String) : Bool := path.toList.getLast? == some '/'

def parent (path : String) : String :=
  let dir := ofParts ((parts path).reverse.dropWhile (· = "")).tail.reverse
  if dir ≠ "" then dir else if isAbsolute path then "/" else "."

def normal (path : String) : String :=
  let slash := if endsInSlash path then "/" else ""
  match settle (isAbsolute path) [] (parts path) with
  | [] => if isAbsolute path then "/" else "." ++ slash
  | kept => (if isAbsolute path then "/" else "") ++ "/".intercalate kept.reverse ++ slash

def join (first second : String) : String :=
  normal ("/".intercalate ([first, second].filter (· ≠ "")))

end BuildRequirements.Path
