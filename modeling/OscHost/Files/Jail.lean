import OscHost.Files.Tree
/-!
  Jails: directories that requested paths may not leave.

  A request is anchored at the jail's root, or at home when it starts with `~`; it is normalised,
  the part of it that exists is made link-free, and it is accepted when the root lies at or above
  the result.  A jail set accepts what any of its members accepts.
-/

namespace OscHost.Files

/-- Where relative paths and `~` start. -/
structure Surroundings where
  current : String
  home : Option String

/-- The piece that stands for home at the start of a request. -/
def homeMark : String := "~"

/-- Why a request is refused. -/
inductive Refusal
  | emptyPath
  | outside (requested : String) (root : Location)
  | noHome
  | noRoot (requested : String)
  deriving DecidableEq, Repr

/-- The wording of a refusal. -/
def Refusal.message : Refusal → String
  | .emptyPath => "empty path"
  | .outside requested root => "'" ++ requested ++ "' resolves outside " ++ Location.text root
  | .noHome => "home directory is not available"
  | .noRoot requested => "no jail root configured for '" ++ requested ++ "'"

/-- Anchors a request at a base, at home for a leading `~`, or keeps it when absolute. -/
def anchorAt (around : Surroundings) (base requested : String) : Except Refusal String :=
  if (Path.components requested).head? = some (.name homeMark) then
    match around.home with
    | none => .error .noHome
    | some home => .ok (Path.join home (Path.afterFirst requested))
  else .ok (Path.join base requested)

/-- Makes the deepest part of a location that exists link-free; `rest` are the names below it. -/
def hardenFrom (t : Tree) (l : Location) (rest : List String) : Location :=
  match t.canonicalize l with
  | .ok real => real ++ rest
  | .error _ =>
    if h : l = [] then rest
    else hardenFrom t l.dropLast (l.getLast h :: rest)
termination_by l.length
decreasing_by
  have := List.length_pos_iff.mpr h
  simp only [List.length_dropLast]; omega

/-- Makes the deepest existing part of a location link-free. -/
def harden (t : Tree) (l : Location) : Location := hardenFrom t l []

/-- A directory that requests may not leave. -/
structure Jail where
  root : Location
  deriving DecidableEq, Repr

namespace Jail

/-- The jail at a path: its link-free location if it exists, else its normal form. -/
def make (t : Tree) (around : Surroundings) (root : String) : Jail :=
  let root := Path.join around.current root
  match t.canonicalizeText root with
  | .ok real => ⟨real⟩
  | .error _ => ⟨Path.normalize root⟩

/-- Whether the root is a path itself or lies above it, by its components as written. -/
def contains (j : Jail) (path : String) : Bool :=
  (Component.root :: j.root.map .name).isPrefixOf (Path.components path)

/-- The location of a request inside the jail. -/
def resolve (t : Tree) (around : Surroundings) (j : Jail) (requested : String) :
    Except Refusal Location :=
  if requested = "" then .error .emptyPath
  else do
    let anchored ← anchorAt around (Location.text j.root) requested
    let resolved := harden t (Path.normalize anchored)
    if j.root.isPrefixOf resolved then .ok resolved
    else .error (.outside requested j.root)

end Jail

/-- Jails in the order in which they are tried. -/
structure JailSet where
  jails : List Jail := []

namespace JailSet

/-- Adds a jail unless its root is already there. -/
def insert (s : JailSet) (j : Jail) : JailSet :=
  if s.jails.contains j then s else ⟨s.jails ++ [j]⟩

/-- The first success in order, else the last refusal, else `last`. -/
def firstResolved (t : Tree) (around : Surroundings) (requested : String) (last : Refusal) :
    List Jail → Except Refusal Location
  | [] => .error last
  | j :: rest =>
    match j.resolve t around requested with
    | .ok l => .ok l
    | .error e => firstResolved t around requested e rest

/-- The location of a request in the first jail that accepts it. -/
def resolve (t : Tree) (around : Surroundings) (s : JailSet) (requested : String) :
    Except Refusal Location :=
  firstResolved t around requested (.noRoot requested) s.jails

end JailSet

end OscHost.Files
