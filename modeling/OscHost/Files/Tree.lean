import OscHost.Files.Path
/-!
  A file system as data: files, directories and symbolic links by location.

  `Tree.walk` follows a path the way an operating system does: component by component from the
  root, a link replaced by its target as it is met, at most forty times.  `canonicalize`, opening
  and every other operation go through it, so a path means one entry for all of them.
-/

namespace OscHost.Files

/-- What a location holds. -/
inductive Entry
  | file (content : ByteArray)
  | directory
  | link (target : String)

/-- Why an operation on files fails. -/
inductive FileError
  | notFound
  | notDirectory
  | isDirectory
  | tooManyLinks
  | nameTooLong
  | notEmpty
  | alreadyExists
  | invalidArgument
  | badDescriptor
  | illegalSeek
  deriving DecidableEq, Repr

namespace FileError

/-- The wording of a failure. -/
def message : FileError → String
  | .notFound => "No such file or directory"
  | .notDirectory => "Not a directory"
  | .isDirectory => "Is a directory"
  | .tooManyLinks => "Too many levels of symbolic links"
  | .nameTooLong => "File name too long"
  | .notEmpty => "Directory not empty"
  | .alreadyExists => "File exists"
  | .invalidArgument => "Invalid argument"
  | .badDescriptor => "Bad file descriptor"
  | .illegalSeek => "Illegal seek"

/-- The number of a failure. -/
def code : FileError → Nat
  | .notFound => 2
  | .notDirectory => 20
  | .isDirectory => 21
  | .tooManyLinks => 40
  | .nameTooLong => 36
  | .notEmpty => 39
  | .alreadyExists => 17
  | .invalidArgument => 22
  | .badDescriptor => 9
  | .illegalSeek => 29

/-- The wording with its number. -/
def numbered (e : FileError) : String :=
  e.message ++ " (os error " ++ toString e.code ++ ")"

end FileError

/-- Entries by location; the root is a directory that needs no entry. -/
structure Tree where
  entries : List (Location × Entry) := []

namespace Tree

/-- The entry at a location. -/
def get? (t : Tree) (l : Location) : Option Entry :=
  if l = [] then some .directory else (t.entries.find? fun e => e.1 == l).map (·.2)

/-- Removes the entry at a location. -/
def erase (t : Tree) (l : Location) : Tree := ⟨t.entries.filter fun e => e.1 != l⟩

/-- Puts an entry at a location. -/
def put (t : Tree) (l : Location) (e : Entry) : Tree := ⟨(l, e) :: (t.erase l).entries⟩

/-- The names directly below a location. -/
def children (t : Tree) (l : Location) : List String :=
  t.entries.filterMap fun e =>
    if e.1.length = l.length + 1 ∧ e.1.dropLast = l then e.1.getLast? else none

/-! ## Following paths -/

/-- What a path leads to: an entry, or a name that is free in an existing directory. -/
inductive Target
  | entry (l : Location)
  | free (l : Location)
  deriving DecidableEq, Repr

/-- The steps of a path text.  A trailing separator asks for a directory, as a dot does. -/
def steps (path : String) : List Component :=
  match Path.pieces path with
  | [] => []
  | parts =>
    let body := parts.filterMap fun p => if p = "." then some .current else Path.component? p
    if parts.length ≥ 2 ∧ parts.getLast? = some "" then body ++ [.current] else body

/-- Longest name the file system keeps. -/
def maxName : Nat := 255

/-- Longest path the file system follows. -/
def maxPath : Nat := 4095

/-- Links followed on one walk. -/
def maxLinks : Nat := 40

/-- Follows steps from the directory or entry `here`; `links` more links may be followed. -/
def walk (t : Tree) (links : Nat) (here : Location) (todo : List Component) :
    Except FileError Target :=
  match todo with
  | [] => .ok (.entry here)
  | step :: rest =>
    match t.get? here with
    | some .directory =>
      match step with
      | .root => walk t links [] rest
      | .current => walk t links here rest
      | .parent => walk t links here.dropLast rest
      | .name s =>
        if maxName < s.utf8ByteSize then .error .nameTooLong
        else match t.get? (here ++ [s]) with
          | none => if rest = [] then .ok (.free (here ++ [s])) else .error .notFound
          | some (.link target) =>
            match links with
            | 0 => .error .tooManyLinks
            | links + 1 =>
              if target = "" then .error .notFound
              else
                walk t links (if Path.isAbsolute target then [] else here) (steps target ++ rest)
          | some _ => walk t links (here ++ [s]) rest
    | _ => .error .notDirectory
termination_by (links, todo.length)

/-- What a location leads to when links are followed.  A location may be of any length: it is
    followed name by name. -/
def follow (t : Tree) (l : Location) : Except FileError Target := walk t maxLinks [] (l.map .name)

/-- What an absolute path text leads to when it is opened. -/
def followText (t : Tree) (path : String) : Except FileError Target :=
  if path = "" then .error .notFound
  else if maxPath < path.utf8ByteSize then .error .nameTooLong
  else walk t maxLinks [] (steps path)

/-- The place of an existing entry, free of links. -/
def Target.existing : Target → Except FileError Location
  | .entry l => .ok l
  | .free _ => .error .notFound

/-- The link-free location of an existing location. -/
def canonicalize (t : Tree) (l : Location) : Except FileError Location :=
  t.follow l >>= Target.existing

/-- The link-free location of an existing absolute path text, which may be of any length. -/
def canonicalizeText (t : Tree) (path : String) : Except FileError Location :=
  if path = "" then .error .notFound else walk t maxLinks [] (steps path) >>= Target.existing

/-- The link-free location of what an absolute path text opens. -/
def existing (t : Tree) (path : String) : Except FileError Location :=
  t.followText path >>= Target.existing

/-- Follows all of a path but its last name, which is not followed even if it is a link. -/
def locate (t : Tree) (path : String) : Except FileError Target :=
  if path = "" then .error .notFound
  else if maxPath < path.utf8ByteSize then .error .nameTooLong
  else
    let todo := steps path
    match todo.getLast? with
    | some (.name s) => do
      let parent ← walk t maxLinks [] todo.dropLast >>= Target.existing
      match t.get? parent with
      | some .directory =>
        if maxName < s.utf8ByteSize then throw .nameTooLong
        match t.get? (parent ++ [s]) with
        | some _ => pure (.entry (parent ++ [s]))
        | none => pure (.free (parent ++ [s]))
      | _ => throw .notDirectory
    | _ => walk t maxLinks [] todo

/-! ## Operations -/

/-- Whether a path text leads to a regular file. -/
def isFile (t : Tree) (path : String) : Bool :=
  match t.existing path with
  | .ok l => match t.get? l with
    | some (.file _) => true
    | _ => false
  | .error _ => false

/-- The content of the file a path text leads to. -/
def read (t : Tree) (path : String) : Except FileError ByteArray := do
  let l ← t.existing path
  match t.get? l with
  | some (.file content) => pure content
  | some .directory => throw .isDirectory
  | _ => throw .notFound

/-- The place where writing to a path text puts its bytes. -/
def writable (t : Tree) (path : String) : Except FileError Location := do
  if path.endsWith "/" then
    match t.followText path with
    | .ok (.entry _) => throw .isDirectory
    | .ok (.free _) => throw .isDirectory
    | .error e => throw (if e == .notFound then .isDirectory else e)
  match ← t.followText path with
  | .free l => pure l
  | .entry l =>
    match t.get? l with
    | some (.file _) => pure l
    | _ => throw .isDirectory

/-- Writes a whole file. -/
def write (t : Tree) (path : String) (content : ByteArray) : Except FileError Tree := do
  let l ← t.writable path
  pure (t.put l (.file content))

/-- The sorted names in the directory a path text leads to. -/
def list (t : Tree) (path : String) : Except FileError (List String) := do
  let l ← t.existing path
  match t.get? l with
  | some .directory => pure ((t.children l).mergeSort fun a b => decide (a ≤ b))
  | _ => throw .notDirectory

/-- Removes a file, a link or an empty directory. -/
def remove (t : Tree) (path : String) : Except FileError Tree := do
  match ← t.locate path with
  | .free _ => throw .notFound
  | .entry l =>
    match t.get? l with
    | some .directory =>
      if l = [] then throw .notEmpty
      else if (t.children l).isEmpty then pure (t.erase l) else throw .notEmpty
    | _ => pure (t.erase l)

/-- Moves everything at and below a location. -/
def move (t : Tree) (source target : Location) : Tree :=
  ⟨t.entries.map fun e =>
    if source.isPrefixOf e.1 then (target ++ e.1.drop source.length, e.2) else e⟩

/-- Gives an entry another path, replacing what may be replaced there. -/
def rename (t : Tree) (source target : String) : Except FileError Tree := do
  match ← t.locate source with
  | .free _ => throw .notFound
  | .entry l =>
    let isDirectory : Bool := match t.get? l with
      | some .directory => true
      | _ => false
    match ← t.locate target with
    | .free m =>
      if ¬ isDirectory ∧ target.endsWith "/" then throw .notDirectory
      else if l.isPrefixOf m then throw .invalidArgument
      else pure (t.move l m)
    | .entry m =>
      if l = m then pure t
      else match t.get? m with
        | some .directory =>
          if ¬ isDirectory then throw .isDirectory
          else if l.isPrefixOf m then throw .invalidArgument
          else if ¬ (t.children m).isEmpty then throw .notEmpty
          else pure ((t.erase m).move l m)
        | _ =>
          if isDirectory then throw .notDirectory
          else pure ((t.erase m).move l m)

/-- Whether a path text leads to a directory. -/
def isDirectory (t : Tree) (path : String) : Bool :=
  match t.existing path with
  | .ok l => match t.get? l with
    | some .directory => true
    | _ => false
  | .error _ => false

/-- Makes one directory. -/
def makeDirectory (t : Tree) (path : String) : Except FileError Tree := do
  match ← t.locate path with
  | .free l => pure (t.put l .directory)
  | .entry _ => throw .alreadyExists

/-- Makes the directory that components lead to, the last one first, and those above it that are
    missing. -/
def makeDirectoriesBelow (t : Tree) : List Component → Except FileError Tree
  | [] => .ok t
  | c :: above =>
    let path := Path.ofComponents (c :: above).reverse
    let make (t : Tree) : Except FileError Tree :=
      match t.makeDirectory path with
      | .ok t => .ok t
      | .error e => if t.isDirectory path then .ok t else .error e
    match make t with
    | .ok t => .ok t
    | .error .notFound => makeDirectoriesBelow t above >>= make
    | .error e => .error e

/-- Makes the directory at an absolute path text, and those above it that are missing. -/
def makeDirectories (t : Tree) (path : String) : Except FileError Tree :=
  makeDirectoriesBelow t (Path.components path).reverse

end Tree

end OscHost.Files
