import JanaExtensions.MappingText

/-! Paths, and the file system that the detector mapping configuration is read from. Paths
are those of a POSIX system. -/

namespace JanaExtensions

structure Path where
  string : String
  deriving DecidableEq, Repr

namespace Path

def isAbsolute (p : Path) : Bool := p.string.toList.head? == some '/'

/-- The elements of the path. A trailing separator is followed by an empty element. -/
def elements (p : Path) : List String :=
  let names := ((p.string.toList.splitOnP (· == '/')).filter (· ≠ [])).map String.ofList
  (if p.isAbsolute then ["/"] else []) ++ names ++
    (if names ≠ [] ∧ p.string.toList.getLast? = some '/' then [""] else [])

def append (p q : Path) : Path :=
  if q.isAbsolute then q
  else if p.string = "" ∨ p.string.toList.getLast? = some '/' then ⟨p.string ++ q.string⟩
  else ⟨p.string ++ "/" ++ q.string⟩

instance : Div Path := ⟨append⟩

def parentPath (p : Path) : Path :=
  let before := p.string.toList.reverse.dropWhile (· ≠ '/')
  let parent := before.dropWhile (· = '/')
  if p.string.toList.all (· == '/') then p
  else if parent = [] then ⟨String.ofList (before.take 1)⟩
  else ⟨String.ofList parent.reverse⟩

def mismatch : List String → List String → List String × List String
  | x :: xs, y :: ys => if x = y then mismatch xs ys else (x :: xs, y :: ys)
  | xs, ys => (xs, ys)

def lexicallyRelative (p base : Path) : Path :=
  if p.isAbsolute ≠ base.isAbsolute then ⟨""⟩
  else
    let (a, b) := mismatch p.elements base.elements
    let up : Int := (b.map fun name =>
      if name = ".." then -1 else if name = "" ∨ name = "." then 0 else 1).sum
    if a = [] ∧ b = [] then ⟨"."⟩
    else if up = 0 ∧ (a = [] ∨ a.head? = some "") then ⟨"."⟩
    else if 0 ≤ up then
      (List.replicate up.toNat ".." ++ a).foldl (fun path name => path / ⟨name⟩) ⟨""⟩
    else ⟨""⟩

end Path

/-- What the operating system answers: the content of the files that can be opened, and
canonical paths, in which symbolic links are resolved. -/
structure FileSystem where
  read : String → Option FileContent
  weaklyCanonical : Path → Except String Path

def resolveOwnedPath (fs : FileSystem) (directory referencedPath : Path) (description : String) :
    Except String Path :=
  if referencedPath.isAbsolute then
    .error (description ++ " path must be relative: " ++ referencedPath.string)
  else if ".." ∈ referencedPath.elements then
    .error (description ++ " path must not contain '..': " ++ referencedPath.string)
  else do
    let owner ← fs.weaklyCanonical directory
    let resolved ← fs.weaklyCanonical (owner / referencedPath)
    let relativePath := resolved.lexicallyRelative owner
    if relativePath.string = "" ∨ relativePath.isAbsolute ∨
        relativePath.elements.head? = some ".." then
      .error (description ++ " path escapes its configuration directory: " ++
        referencedPath.string)
    else .ok resolved

example : (⟨"/data/hms/early.map"⟩ : Path).lexicallyRelative ⟨"/data/bcal"⟩ =
    ⟨"../hms/early.map"⟩ := by
  decide +kernel

end JanaExtensions
