import OscHost.Script.Action
import OscHost.Script.Compile
import OscHost.Script.Parser
/-!
  Source texts made into functions.

  Only text is accepted: what begins like a compiled chunk is refused before it is read.
-/

namespace OscHost.Script

/-- The first byte of a compiled chunk. -/
def compiledMark : UInt8 := 27

/-- Why a text is no function. -/
def Complaint.message (c : Complaint) (chunk : Bytes) : Bytes :=
  match c.line with
  | some line => Proto.shownChunk chunk ++ (":" ++ toString line ++ ": ").toUTF8 ++ c.text
  | none => c.text

/-- The code of a source text, under the name of its chunk. -/
def compileText (chunk source : Bytes) : Except Bytes Proto :=
  if source[0]? = some compiledMark then .error "attempt to load a binary chunk (mode is 't')"
  else
    match parse source with
    | .ok body => .ok (compile chunk body)
    | .error complaint => .error (complaint.message chunk)

/-- A function with some code and an environment. -/
def Heap.newChunk (h : Heap) (p : Proto) (environment : Value) : Value × Heap :=
  let (cell, h) := h.newCell environment
  let (id, h) := h.newClosure ⟨p, #[cell]⟩
  (.closure id, h)

/-- The table of globals as a value. -/
def Heap.globalsValue (h : Heap) : Value := .table h.roots.globals

end OscHost.Script
