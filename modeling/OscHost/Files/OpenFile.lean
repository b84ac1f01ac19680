import OscHost.Files.Tree
/-!
  Open files.

  An open file reads ahead and holds back what is written: reading takes a whole block from the file
  at once, and bytes that were written reach the file when a block is full, when the file is flushed
  or moved in, and when it is closed.  So what another reader of the same file sees depends on those
  moments, and they are modelled.
-/

namespace OscHost.Files

/-- What to read from a file. -/
inductive ReadFormat
  | numeral
  | all
  | line (keepEnd : Bool)
  | bytes (count : Nat)
  deriving DecidableEq, Repr

/-- Where an offset in a file counts from. -/
inductive Whence
  | start
  | current
  | theEnd
  deriving DecidableEq, Repr

/-- What an open file is connected to. -/
inductive Stream
  /-- A file with a name. -/
  | named (l : Location)
  /-- Bytes without a name: a removed or temporary file, or an end of the program itself. -/
  | loose (content : ByteArray)
  | directory
  /-- What a process wrote, to be read. -/
  | source (content : ByteArray) (code : Nat)
  /-- What a process is to read when the file is closed. -/
  | sink (command : ByteArray) (content : ByteArray)

/-- What may be done with an open file. -/
structure Access where
  reads : Bool
  writes : Bool
  appends : Bool := false
  deriving DecidableEq, Repr

/-- An open file. -/
structure OpenFile where
  stream : Stream
  access : Access
  /-- Where the next byte is read, or the first byte that is held back belongs. -/
  position : Nat := 0
  /-- Bytes read ahead. -/
  ahead : ByteArray := ByteArray.empty
  /-- Bytes held back. -/
  pending : ByteArray := ByteArray.empty
  /-- Bytes that can still be held back. -/
  room : Nat := 0
  isOpen : Bool := true
  /-- Whether scripts may close the file. -/
  isStandard : Bool := false

namespace OpenFile

/-- The bytes taken from or given to a file at once. -/
def block : Nat := 4096

/-- The content of the file. -/
def content (t : Tree) (f : OpenFile) : ByteArray :=
  match f.stream with
  | .named l =>
    match t.get? l with
    | some (.file content) => content
    | _ => ByteArray.empty
  | .loose content | .source content _ | .sink _ content => content
  | .directory => ByteArray.empty

/-- Replaces the content of the file. -/
def setContent (t : Tree) (f : OpenFile) (content : ByteArray) : Tree × OpenFile :=
  match f.stream with
  | .named l => (t.put l (.file content), f)
  | .loose _ => (t, { f with stream := .loose content })
  | .sink command _ => (t, { f with stream := .sink command content })
  | .source .. | .directory => (t, f)

/-- So many zero bytes. -/
def zeros (n : Nat) : ByteArray := ⟨Array.replicate n 0⟩

/-- Bytes with some of them overwritten from a place on, with zeros before it if need be. -/
def overwrite (content : ByteArray) (place : Nat) (data : ByteArray) : ByteArray :=
  content.extract 0 place ++ zeros (place - content.size) ++ data
    ++ content.extract (place + data.size) content.size

/-- Gives bytes to the file at its position. -/
def commit (t : Tree) (f : OpenFile) (data : ByteArray) : Tree × OpenFile :=
  if data.isEmpty then (t, f)
  else
    let content := f.content t
    let place := if f.access.appends then content.size else f.position
    let (t, f) := f.setContent t (overwrite content place data)
    (t, { f with position := place + data.size })

/-- Gives what is held back to the file. -/
def flush (t : Tree) (f : OpenFile) : Tree × OpenFile :=
  let (t, f) := f.commit t f.pending
  (t, { f with pending := ByteArray.empty, room := if f.room = 0 then 0 else block })

/-- Holds back some bytes; what does not fit goes to the file, whole blocks of it at once. -/
def write (t : Tree) (f : OpenFile) (data : ByteArray) : Except FileError (Tree × OpenFile) :=
  if data.isEmpty then .ok (t, f)
  else if ! f.access.writes then .error .badDescriptor
  else
    -- what was read ahead is forgotten: the position is that of the next byte
    let f := { f with ahead := ByteArray.empty }
    let kept := min f.room data.size
    let f := { f with pending := f.pending ++ data.extract 0 kept, room := f.room - kept }
    if kept = data.size then .ok (t, f)
    else
      let (t, f) := f.flush t
      let rest := data.extract kept data.size
      let whole := rest.size - rest.size % block
      let (t, f) := f.commit t (rest.extract 0 whole)
      let tail := rest.extract whole rest.size
      .ok (t, { f with pending := tail, room := block - tail.size })

/-! ## Reading -/

/-- Takes one more block from the file; false at its end. -/
def fetch (t : Tree) (f : OpenFile) : Bool × OpenFile :=
  let content := f.content t
  let start := f.position + f.ahead.size
  let more := content.extract start (start + block)
  (! more.isEmpty, { f with ahead := f.ahead ++ more })

/-- Takes bytes that were read ahead. -/
def take (f : OpenFile) (n : Nat) : ByteArray × OpenFile :=
  let data := f.ahead.extract 0 n
  (data, { f with ahead := f.ahead.extract n f.ahead.size, position := f.position + data.size })

/-- Reads ahead until there are enough bytes or the file ends. -/
def fetchAtLeast (t : Tree) (n : Nat) : (fuel : Nat) → OpenFile → OpenFile
  | 0, f => f
  | fuel + 1, f =>
    if n ≤ f.ahead.size then f
    else
      match f.fetch t with
      | (true, f) => fetchAtLeast t n fuel f
      | (false, f) => f

/-- Blocks that are enough to read ahead to the end. -/
def blocks (t : Tree) (f : OpenFile) : Nat := (f.content t).size / block + 2

/-- The index of a byte, from an index on. -/
def indexOf? (c : UInt8) (b : ByteArray) (i : Nat) : Option Nat :=
  if h : i < b.size then if b[i] = c then some i else indexOf? c b (i + 1) else none
termination_by b.size - i

/-- Reads ahead until there is the end of a line; yields the size of the line with its end. -/
def fetchLine (t : Tree) : (fuel seen : Nat) → OpenFile → Nat × OpenFile
  | 0, _, f => (f.ahead.size, f)
  | fuel + 1, seen, f =>
    match indexOf? 10 f.ahead seen with
    | some i => (i + 1, f)
    | none =>
      let seen := f.ahead.size
      match f.fetch t with
      | (true, f) => fetchLine t fuel seen f
      | (false, f) => (seen, f)

/-- Reads a line; nothing at the end of the file. -/
def readLine (t : Tree) (keepEnd : Bool) (f : OpenFile) : Option ByteArray × OpenFile :=
  let (size, f) := fetchLine t (f.blocks t) 0 f
  let (data, f) := f.take size
  if data.isEmpty then (none, f)
  else if ! keepEnd ∧ data[data.size - 1]? = some 10 then (some (data.extract 0 (data.size - 1)), f)
  else (some data, f)

/-- Reads everything that is left. -/
def readAll (t : Tree) (f : OpenFile) : ByteArray × OpenFile :=
  let size := (f.content t).size + f.ahead.size
  let f := fetchAtLeast t size (f.blocks t) f
  f.take f.ahead.size

/-- Reads so many bytes; nothing at the end of the file.  No bytes can be read anywhere else. -/
def readBytes (t : Tree) (n : Nat) (f : OpenFile) : Option ByteArray × OpenFile :=
  let f := fetchAtLeast t (max n 1) (f.blocks t) f
  if f.ahead.isEmpty then (none, f)
  else
    let (data, f) := f.take n
    (some data, f)

/-! ## Numerals -/

/-- The front of a text that is being read as a numeral: what was taken, and the rest. -/
structure NumeralScan where
  taken : List Char
  rest : List Char

namespace NumeralScan

/-- The longest numeral that is read. -/
def limit : Nat := 200

/-- Takes a character if it is one of some. -/
def accept (s : NumeralScan) (cs : List Char) : Bool × NumeralScan :=
  match s.rest with
  | c :: rest => if cs.contains c then (true, ⟨c :: s.taken, rest⟩) else (false, s)
  | [] => (false, s)

/-- Takes the digits at the front. -/
def digits (s : NumeralScan) (hex : Bool) : Nat × NumeralScan :=
  let isDigit (c : Char) := c.isDigit || (hex && ('a' ≤ c.toLower && c.toLower ≤ 'f'))
  let ds := s.rest.takeWhile isDigit
  (ds.length, ⟨ds.reverse ++ s.taken, s.rest.drop ds.length⟩)

/-- Takes the longest front that can still become a numeral. -/
def numeral (s : NumeralScan) : NumeralScan :=
  let (_, s) := s.accept ['-', '+']
  let (zero, s) := s.accept ['0']
  let (hex, s) := if zero then s.accept ['x', 'X'] else (false, s)
  let (whole, s) := s.digits hex
  let (point, s) := s.accept ['.']
  let (places, s) := if point then s.digits hex else (0, s)
  let any : Bool := (zero && ! hex) || 0 < whole + places
  let (mark, s) := if any then s.accept (if hex then ['p', 'P'] else ['e', 'E']) else (false, s)
  if mark then
    let (_, s) := s.accept ['-', '+']
    (s.digits false).2
  else s

end NumeralScan

/-- Whether a byte is a blank. -/
def isBlank (c : UInt8) : Bool := c == 32 || (9 ≤ c && c ≤ 13)

/-- The count of blanks at the front. -/
def blanks (b : ByteArray) (i : Nat) : Nat :=
  if h : i < b.size then if isBlank b[i] then blanks b (i + 1) else i else i
termination_by b.size - i

/-- Leaves out blanks. -/
def skipBlanks (t : Tree) : (fuel : Nat) → OpenFile → OpenFile
  | 0, f => f
  | fuel + 1, f =>
    let (_, f) := f.take (blanks f.ahead 0)
    if f.ahead.isEmpty then
      match f.fetch t with
      | (true, f) => skipBlanks t fuel f
      | (false, f) => f
    else f

/-- Reads the text of a numeral after blanks; what is too long is none. -/
def readNumeral (t : Tree) (f : OpenFile) : ByteArray × OpenFile :=
  let f := fetchAtLeast t (NumeralScan.limit + 1) 2 (f.skipBlanks t (f.blocks t))
  let front := (f.ahead.extract 0 NumeralScan.limit).toList.map fun n => Char.ofNat n.toNat
  let size := (NumeralScan.numeral ⟨[], front⟩).taken.length
  let (data, f) := f.take size
  (if size = NumeralScan.limit then ByteArray.empty else data, f)

/-- Reads by a format; nothing where the format finds nothing. -/
def read (t : Tree) (f : OpenFile) (format : ReadFormat) :
    Except FileError (Option ByteArray × Tree × OpenFile) :=
  if ! f.access.reads then .error .badDescriptor
  else
    match f.stream with
    | .directory => .error .isDirectory
    | _ =>
      let (t, f) := if f.pending.isEmpty then (t, f) else f.flush t
      let (data, f) := match format with
        | .line keepEnd => f.readLine t keepEnd
        | .all =>
          let (data, f) := f.readAll t
          (some data, f)
        | .bytes n => f.readBytes t n
        | .numeral =>
          let (data, f) := f.readNumeral t
          (some data, f)
      .ok (data, t, f)

/-! ## Moving and closing -/

/-- Moves in a file and yields the new position. -/
def seek (t : Tree) (f : OpenFile) (whence : Whence) (offset : Int) :
    Except FileError (Nat × Tree × OpenFile) :=
  match f.stream with
  | .source .. | .sink .. => .error .illegalSeek
  | _ =>
    if f.isStandard then .error .illegalSeek
    else
      let (t, f) := f.flush t
      let start : Int := match whence with
        | .start => 0
        | .current => f.position
        | .theEnd => (f.content t).size
      let place := start + offset
      if place < 0 then .error .invalidArgument
      else .ok (place.toNat, t, { f with position := place.toNat, ahead := ByteArray.empty })

/-- Closes a file. -/
def close (t : Tree) (f : OpenFile) : Tree × OpenFile :=
  let (t, f) := f.flush t
  (t, { f with isOpen := false, ahead := ByteArray.empty })

/-- The file after its name, or a name above it, has been given up: it lives on without one. -/
def detach (t : Tree) (gone : Location) (f : OpenFile) : OpenFile :=
  match f.stream with
  | .named l => if gone = l then { f with stream := .loose (f.content t) } else f
  | _ => f

/-- The file after a location has been renamed. -/
def renamed (source target : Location) (f : OpenFile) : OpenFile :=
  match f.stream with
  | .named l =>
    if source.isPrefixOf l then { f with stream := .named (target ++ l.drop source.length) } else f
  | _ => f

end OpenFile

/-! ## Opening -/

/-- How a mode opens a file. -/
structure Mode where
  access : Access
  creates : Bool
  truncates : Bool

namespace Mode

/-- Reads a mode: a letter, perhaps a plus, and marks without a meaning. -/
def parse? (mode : List Char) : Option Mode :=
  let (letter, rest) := match mode with
    | c :: rest => (some c, rest)
    | [] => (none, [])
  let (plus, rest) := match rest with
    | '+' :: rest => (true, rest)
    | rest => (false, rest)
  if rest.all (· == 'b') then
    match letter with
    | some 'r' => some ⟨⟨true, plus, false⟩, false, false⟩
    | some 'w' => some ⟨⟨plus, true, false⟩, true, true⟩
    | some 'a' => some ⟨⟨plus, true, true⟩, true, false⟩
    | _ => none
  else none

end Mode

/-- Opens the file at an absolute path. -/
def openFile (t : Tree) (path : String) (mode : Mode) : Except FileError (Tree × OpenFile) := do
  if mode.creates then
    let l ← t.writable path
    let t := match mode.truncates, t.get? l with
      | false, some (.file _) => t
      | _, _ => t.put l (.file ByteArray.empty)
    let f : OpenFile := { stream := .named l, access := mode.access }
    -- a file that is only appended to starts at its end
    pure (t, if mode.access.reads then f else { f with position := (f.content t).size })
  else
    let l ← t.existing path
    match t.get? l with
    | some .directory =>
      if mode.access.writes then throw .isDirectory
      else pure (t, { stream := .directory, access := mode.access })
    | _ => pure (t, { stream := .named l, access := mode.access })

end OscHost.Files
