import OscHost.Script.Library.Base
/-!
  Modules.

  `require` asks one searcher after the other.  Scripts see the table of modules through a view that
  cannot be written: reading yields what the table holds, with a view in place of every table, and
  there is one view for each table.
-/

namespace OscHost.Script.Library.Modules

open Lib

/-! ## Views -/

/-- A library function of a view. -/
def viewFunction (h : Heap) (role : ViewRole) (id : Nat) (name : Bytes) : Value × Heap :=
  let (n, h) := h.newNative (.view role id name)
  (.native n, h)

/-- The view of a table, made on first use. -/
def view (id : Nat) (name : Bytes) (h : Heap) : Value × Heap :=
  match h.views.lookup id with
  | some proxy => (.table proxy, h)
  | none =>
    let (index, h) := viewFunction h .index id name
    let (assign, h) := viewFunction h .assign id name
    let (pairs, h) := viewFunction h .pairs id name
    let (length, h) := viewFunction h .length id name
    let metatable : Table :=
      ((((({} : Table).setText "__index" index).setText "__newindex" assign).setText "__pairs" pairs).setText
        "__len" length).setText "__metatable" (.bool false)
    let (m, h) := h.newTable metatable
    let (proxy, h) := h.newTable { metatable := some m }
    (.table proxy, { h with views := (id, proxy) :: h.views })

/-- A value as a view shows it: tables by their views. -/
def shown (name : Bytes) (key v : Value) : Lib Value := do
  match v with
  | .table id =>
    let key ← text key
    update (view id (name ++ ".".toUTF8 ++ key))
  | v => pure v

/-- Serves a view. -/
def callView (role : ViewRole) (id : Nat) (name : Bytes) (args : Args) : Lib (List Value) := do
  let key := args.get 2
  match role with
  | .index => return [← shown name key (← index (.table id) key)]
  | .assign =>
    let key ← text key
    raise ("policy violation: ".toUTF8 ++ name ++ ".".toUTF8 ++ key ++ " is read-only".toUTF8)
  | .pairs =>
    let (step, proxy) ← update fun h =>
      let (step, h) := viewFunction h .step id name
      let (proxy, h) := view id name h
      ((step, proxy), h)
    return [step, proxy, .nil]
  | .step =>
    match ← Base.next [.table id, key] with
    | [k, v] => return [k, ← shown name k v]
    | _ => return [.nil, .nil]
  | .length => return [← length (.table id)]

/-! ## Loading -/

/-- Asks the searchers from number `i` on. -/
def findLoader (searchers : Nat) (name : Bytes) : (fuel i : Nat) → (tried : Bytes) →
    Lib (Value × Value)
  | 0, _, tried => raise ("module '".toUTF8 ++ name ++ "' not found:".toUTF8 ++ tried)
  | fuel + 1, i, tried => do
    match ← read fun h => (h.table searchers).getInt (Int64.ofNat i) with
    | .nil => raise ("module '".toUTF8 ++ name ++ "' not found:".toUTF8 ++ tried)
    | searcher =>
      let r ← call searcher [.string name]
      match r.getD 0 .nil with
      | .closure id => return (.closure id, r.getD 1 .nil)
      | .builtin b => return (.builtin b, r.getD 1 .nil)
      | .native id => return (.native id, r.getD 1 .nil)
      | v =>
        match v.asText? with
        | some message => findLoader searchers name fuel (i + 1) (tried ++ "\n\t".toUTF8 ++ message)
        | none => findLoader searchers name fuel (i + 1) tried

/-- Most searchers that are asked. -/
def maxSearchers : Nat := 1000000

/-- Has a module found, loaded and registered. -/
def loadModule (loaded : Value) (searchers : Nat) (name : Bytes) : Lib (List Value) := do
  let key : Value := .string name
  let (loader, extra) ← findLoader searchers name maxSearchers 1 ByteArray.empty
  match firstOf (← call loader [key, extra]) with
  | .nil => pure ()
  | v => setIndex loaded key v
  match ← index loaded key with
  | .nil =>
    setIndex loaded key (.bool true)
    return [.bool true, extra]
  | v => return [v, extra]

def require (args : Args) : Lib (List Value) := do
  let name ← textArg args 1
  let loaded ← read fun h => Value.table h.roots.loaded
  let present ← index loaded (.string name)
  if present.isTrue then return [present]
  else
    match ← index (← read fun h => Value.table h.roots.package) (.text "searchers") with
    | .table searchers => loadModule loaded searchers name
    | _ => raise "'package.searchers' must be a table"

def searchPreload (args : Args) : Lib (List Value) := do
  let name ← textArg args 1
  match ← index (← read fun h => Value.table h.roots.preload) (.string name) with
  | .nil => return [.string ("no field package.preload['".toUTF8 ++ name ++ "']".toUTF8)]
  | v => return [v, .text ":preload:"]

/-- Where a module may lie below the script root. -/
def templates : List String := ["?.lua", "?/init.lua"]

/-- Tries the places where a module may lie. -/
def searchIn (name stem : String) (tried : String) : List String → Lib (List Value)
  | [] => return [.text tried, .nil]
  | template :: rest => do
    let candidate := template.replace "?" stem
    if ← ask (.isModule candidate) then
      match ← Base.loadScript (some candidate) none with
      | .ok loader => return [loader, .text candidate]
      | .error e =>
        log (.warn ("require('" ++ name ++ "') refused: " ++ e.message))
        return [.text ("\n\tcannot load '" ++ candidate ++ "': " ++ e.message), .nil]
    else searchIn name stem (tried ++ "\n\tno file '" ++ candidate ++ "'") rest

def searchScript (args : Args) : Lib (List Value) := do
  let name ← hostText args 1
  searchIn name (name.replace "." "/") "" templates

/-! ## Native libraries -/

/-- The parts of a text between separators. -/
def splitAt (sep : UInt8) (s : Bytes) : List Bytes :=
  let (last, parts) := s.foldl
    (fun (state : Bytes × List Bytes) c =>
      if c == sep then (ByteArray.empty, state.1 :: state.2) else (state.1.push c, state.2))
    (ByteArray.empty, [])
  (last :: parts).reverse

/-- Replaces each byte that is equal to another one by a text. -/
def substitute (c : UInt8) (filler : Bytes) (s : Bytes) : Bytes :=
  s.foldl (fun b d => if d == c then b ++ filler else b.push d) ByteArray.empty

/-- The first of some files that can be opened. -/
def firstReadable : List Bytes → Lib (Option Bytes)
  | [] => pure none
  | path :: rest => do
    if ← ask (.probe path) then pure (some path) else firstReadable rest

/-- The candidates for a name on a path. -/
def candidates (name path : Bytes) (sep : Option UInt8) (filler : Bytes) : List Bytes :=
  let name := match sep with
    | some c => substitute c filler name
    | none => name
  (splitAt 59 path).map (substitute 63 name)

/-- The text about files that are not there. -/
def notFound (paths : List Bytes) : Bytes :=
  Bytes.join ((paths.map fun p => "no file '".toUTF8 ++ p ++ "'".toUTF8).intersperse "\n\t")

def searchpath (args : Args) : Lib (List Value) := do
  let name ← textArg args 1
  let path ← textArg args 2
  let sep := (← textArg? args 3).getD "."
  let filler := (← textArg? args 4).getD "/"
  let paths := candidates name path sep[0]? filler
  match ← firstReadable paths with
  | some p => return [.string p]
  | none => return [.nil, .string (notFound paths)]

/-- What the system says about a library that cannot be loaded. -/
def libraryFailure (path : Bytes) : Lib Bytes := do
  if ← ask (.probe path) then pure (path ++ ": invalid ELF header".toUTF8)
  else pure (path ++ ": cannot open shared object file: No such file or directory".toUTF8)

def loadlib (args : Args) : Lib (List Value) := do
  let path ← textArg args 1
  let _ ← textArg args 2
  return [.nil, .string (← libraryFailure path), .text "open"]

def searchForeign (whole : Bool) (args : Args) : Lib (List Value) := do
  let name ← textArg args 1
  let root : Bytes := ⟨(name.toList.takeWhile (· != 46)).toArray⟩
  if ! whole && root.size = name.size then return []
  else
    match (← index (← read fun h => Value.table h.roots.package) (.text "cpath")).asText? with
    | none => raise "'package.cpath' must be a string"
    | some path =>
      let paths := candidates (if whole then name else root) path (some 46) "/"
      match ← firstReadable paths with
      | none => return [.string (notFound paths)]
      | some p =>
        raise ("error loading module '".toUTF8 ++ name ++ "' from file '".toUTF8 ++ p
          ++ "':\n\t".toUTF8 ++ (← libraryFailure p))

end OscHost.Script.Library.Modules
