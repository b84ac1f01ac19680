import OscHost.Boundary
import OscHost.Error
import OscHost.Files.OpenFile
import OscHost.Log
import OscHost.Script.Bytes
import OscHost.Text.Utf8
/-!
  What scripts can ask of the host.

  A library function never touches the world: it names an effect, and whoever runs the script
  performs it and hands back the answer.  So all that a script can bring about is listed here.
-/

namespace OscHost.Script

open OscHost.Files (FileError ReadFormat Whence)

/-- A value given as a path: a text, or something else of a named type. -/
inductive PathArg
  | text (b : Bytes)
  | other (typeName : String)

/-- The answer to a use of a path that a guard watches. -/
inductive Guarded (α : Type)
  /-- The guard refused the path, with this text. -/
  | refused (text : String)
  /-- The path is no text in UTF-8. -/
  | unreadable (e : Text.Utf8.Invalid)
  /-- The path was resolved, and this came of it. -/
  | passed (path : String) (result : α)

/-- What comes of opening a file. -/
inductive Opening
  | badMode
  | failed (e : FileError)
  | opened (file : Nat)

/-- What becomes of a file that is closed. -/
inductive Closing
  | closed
  | finished (code : Nat)
  | kept

/-- A source text with the name of its chunk. -/
structure Source where
  name : String
  text : String

/-- What scripts can ask for. -/
inductive Effect
  | log (r : LogRecord)
  /-- Hands over the values of one send. -/
  | send (address : String) (values : List BoundaryValue)
  /-- Asks for the menu to be built again. -/
  | requestMenu
  | readJson (path : String)
  /-- Writes a tree; the records of its making count only if the path is accepted. -/
  | writeJson (path : String) (tree : Logged Json)
  /-- The source of a script below the script root. -/
  | loadScript (path : Option String)
  /-- Whether a path below the script root is a file. -/
  | isModule (path : String)
  | openFile (path : PathArg) (mode : Bytes)
  | removeFile (path : PathArg)
  | renameFile (source target : PathArg)
  | listDirectory (path : String)
  /-- Whether a file can be opened, no matter where it is. -/
  | probe (path : Bytes)
  | temporaryFile
  | openProcess (command : Bytes) (mode : Bytes)
  | execute (command : Bytes)
  | isOpen (file : Nat)
  | read (file : Nat) (format : ReadFormat)
  | write (file : Nat) (data : Bytes)
  | seek (file : Nat) (whence : Whence) (offset : Int)
  | flush (file : Nat)
  | close (file : Nat)
  | environment (name : Bytes)
  /-- Seconds since the host began. -/
  | clock
  /-- Seconds since the epoch. -/
  | time

/-- The type of the answer to an effect. -/
@[reducible] def Effect.Reply : Effect → Type
  | .log _ => Unit
  | .send .. => Except String Unit
  | .requestMenu => Unit
  | .readJson _ => Except HostError Json
  | .writeJson .. => Except HostError Unit
  | .loadScript _ => Except HostError Source
  | .isModule _ => Bool
  | .openFile .. => Guarded Opening
  | .removeFile _ => Guarded (Except FileError Unit)
  | .renameFile .. => Guarded (Except FileError Unit)
  | .listDirectory _ => Except HostError (List String)
  | .probe _ => Bool
  | .temporaryFile => Option Nat
  | .openProcess .. => Option Nat
  | .execute _ => Nat
  | .isOpen _ => Bool
  | .read .. => Except FileError (Option Bytes)
  | .write .. => Except FileError Unit
  | .seek .. => Except FileError Nat
  | .flush _ => Except FileError Unit
  | .close _ => Closing
  | .environment _ => Option Bytes
  | .clock => Float
  | .time => Int

end OscHost.Script
