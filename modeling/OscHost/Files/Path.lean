/-!
  Paths.

  A path text is what people write; its components leave out repeated separators and single dots.
  A `Location` is the normal form of an absolute path: the names from the root down.
  `normalize` folds a path into a location by reading its components onto a stack, on which two
  dots pop and the root is the floor.
-/

namespace OscHost.Files

/-- A meaningful part of a path text. -/
inductive Component
  | root
  | current
  | parent
  | name (s : String)
  deriving DecidableEq, Repr

/-- The names from the root of the file system down to an entry. -/
abbrev Location := List String

namespace Path

/-- The pieces of a text between separators. -/
def pieces (path : String) : List String := (path.toList.splitOn '/').map String.ofList

/-- Whether a path starts at the root. -/
def isAbsolute (path : String) : Bool := path.toList.head? == some '/'

/-- The component a piece stands for; empty pieces and single dots stand for none. -/
def component? (piece : String) : Option Component :=
  if piece = "" ∨ piece = "." then none
  else if piece = ".." then some .parent
  else some (.name piece)

/-- The components of a path.  A leading dot of a relative path is kept as `current`. -/
def components (path : String) : List Component :=
  let parts := pieces path
  let body := parts.filterMap component?
  if isAbsolute path then .root :: body
  else if parts.head? = some "." then .current :: body
  else body

/-- The text of a component. -/
def componentText : Component → String
  | .root => ""
  | .current => "."
  | .parent => ".."
  | .name s => s

/-- The path text that has given components. -/
def ofComponents : List Component → String
  | [.root] => "/"
  | cs => "/".intercalate (cs.map componentText)

/-- Joins a path to a base: an absolute path replaces the base. -/
def join (base path : String) : String :=
  if isAbsolute path then path
  else if base = "" ∨ base.endsWith "/" then base ++ path
  else base ++ "/" ++ path

/-- Whether a piece adds nothing to a path. -/
def isIdle (piece : String) : Bool := piece == "" || piece == "."

/-- The text of a path after its first name, without idle pieces at either end. -/
def afterFirst (path : String) : String :=
  let rest := (pieces path).drop 1
  "/".intercalate ((rest.dropWhile isIdle).reverse.dropWhile isIdle).reverse

/-- Reads one component onto a location: two dots pop, the root is the floor. -/
def fold (l : Location) : Component → Location
  | .root => []
  | .current => l
  | .parent => l.dropLast
  | .name s => l ++ [s]

/-- The location a path names when no link is followed. -/
def normalize (path : String) : Location := (components path).foldl fold []

end Path

namespace Location

/-- The text of a location. -/
def text (l : Location) : String := "/" ++ "/".intercalate l

end Location

end OscHost.Files
