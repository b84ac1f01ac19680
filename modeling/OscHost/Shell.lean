import OscHost.Files.Tree
/-!
  Command lines.

  What a command line comes to is up to the system below the program, so the host takes a `Shell` as it
  is and hands command lines over to it.  `Shell.basic` is a small one to go on with: a command line is a
  list of simple commands, joined by `;`, `&&` or `||`; a command is a list of words, which may be quoted,
  and may send its output to a file; and only a few commands are known.
-/

namespace OscHost

open Files

/-- What a command line has brought about. -/
structure Shell.Finished where
  tree : Tree
  output : ByteArray
  status : Nat

/-- The shell of a system. -/
structure Shell where
  /-- Carries out a command line, with the files, the current directory and the input that it finds. -/
  run : (tree : Tree) → (current : String) → (input : ByteArray) → (line : String) → Shell.Finished

namespace Shell

/-! ## A basic shell -/

/-- Something in a command line: a word, or a sign that is not quoted. -/
inductive Token
  | word (s : String)
  | both
  | either
  | next
  | into
  | onto
  deriving DecidableEq, Repr

/-- Ends the word that is being read, if there is one. -/
def close (word : Option (List Char)) (acc : List Token) : List Token :=
  match word with
  | some cs => .word (String.ofList cs.reverse) :: acc
  | none => acc

/-- Splits a command line; `word` is what was read of a word, `acc` what came before, both turned
    around. -/
def tokens (cs : List Char) (quote : Option Char) (word : Option (List Char)) (acc : List Token) :
    List Token :=
  match cs, quote with
  | [], _ => (close word acc).reverse
  | '\\' :: c :: rest, some '"' =>
    let word := word.getD []
    let word := if ['"', '\\', '$'].contains c then c :: word else c :: '\\' :: word
    tokens rest quote (some word) acc
  | c :: rest, some q =>
    if c = q then tokens rest none word acc else tokens rest quote (some (c :: word.getD [])) acc
  | '\\' :: c :: rest, none => tokens rest none (some (c :: word.getD [])) acc
  | '&' :: '&' :: rest, none => tokens rest none none (.both :: close word acc)
  | '|' :: '|' :: rest, none => tokens rest none none (.either :: close word acc)
  | '>' :: '>' :: rest, none => tokens rest none none (.onto :: close word acc)
  | c :: rest, none =>
    if c = '\'' ∨ c = '"' then tokens rest (some c) (some (word.getD [])) acc
    else if c = ';' ∨ c = '\n' then tokens rest none none (.next :: close word acc)
    else if c = '>' then tokens rest none none (.into :: close word acc)
    else if c = ' ' ∨ c = '\t' then tokens rest none none (close word acc)
    else tokens rest none (some (c :: word.getD [])) acc
termination_by cs.length

/-- What a shell works on, and what it has brought about. -/
structure State where
  tree : Tree
  current : String
  input : ByteArray := ByteArray.empty
  output : ByteArray := ByteArray.empty
  status : Nat := 0
  ended : Bool := false

/-- A path made absolute. -/
def State.path (s : State) (path : String) : String := Path.join s.current path

/-- Shows some files one after the other. -/
def showFiles (s : State) : List String → State
  | [] => s
  | path :: rest =>
    match s.tree.read (s.path path) with
    | .ok content => showFiles { s with output := s.output ++ content } rest
    | .error _ => showFiles { s with status := 1 } rest

/-- Makes files that are missing. -/
def touchFiles (s : State) : List String → State
  | [] => s
  | path :: rest =>
    match s.tree.read (s.path path) with
    | .ok _ => touchFiles s rest
    | .error _ =>
      match s.tree.write (s.path path) ByteArray.empty with
      | .ok tree => touchFiles { s with tree } rest
      | .error _ => touchFiles { s with status := 1 } rest

/-- Removes some files. -/
def removeFiles (s : State) : List String → State
  | [] => s
  | path :: rest =>
    match s.tree.remove (s.path path) with
    | .ok tree => removeFiles { s with tree } rest
    | .error _ => removeFiles { s with status := 1 } rest

/-- The status of a command that is not known. -/
def notFound : Nat := 127

/-- Carries out one command. -/
def command (s : State) : List String → State
  | [] => s
  | name :: args =>
    let s := { s with status := 0 }
    match name, args with
    | "true", _ | ":", _ => s
    | "false", _ => { s with status := 1 }
    | "exit", args =>
      let status := match args with
        | n :: _ => (n.toNat?.getD 2) % 256
        | [] => 0
      { s with status, ended := true }
    | "echo", "-n" :: args => { s with output := s.output ++ (" ".intercalate args).toUTF8 }
    | "echo", args => { s with output := s.output ++ (" ".intercalate args ++ "\n").toUTF8 }
    | "printf", text :: _ => { s with output := s.output ++ (text.replace "\\n" "\n").toUTF8 }
    | "pwd", _ => { s with output := s.output ++ (s.current ++ "\n").toUTF8 }
    | "cat", [] => { s with output := s.output ++ s.input }
    | "cat", paths => showFiles s paths
    | "touch", paths => touchFiles s paths
    | "rm", paths => removeFiles s (paths.filter (! ·.startsWith "-"))
    | _, _ => { s with status := notFound }

/-- The words of a command without its redirection, and where the output goes. -/
def redirection : List Token → (words : List String) → List String × Option (String × Bool)
  | [], words => (words.reverse, none)
  | .into :: .word path :: _, words => (words.reverse, some (path, false))
  | .onto :: .word path :: _, words => (words.reverse, some (path, true))
  | .word s :: rest, words => redirection rest (s :: words)
  | _ :: rest, words => redirection rest words

/-- Carries out one command and sends its output where it belongs. -/
def simple (s : State) (tokens : List Token) : State :=
  match redirection tokens [] with
  | (words, none) => command s words
  | (words, some (path, adds)) =>
    let done := command { s with output := ByteArray.empty } words
    let before := if adds then (done.tree.read (s.path path)).toOption.getD ByteArray.empty
      else ByteArray.empty
    match done.tree.write (s.path path) (before ++ done.output) with
    | .ok tree => { done with tree, output := s.output }
    | .error _ => { done with output := s.output, status := 1 }

/-- Whether a token joins two commands. -/
def joins : Token → Bool
  | .both | .either | .next => true
  | _ => false

/-- Carries out a list of commands; `skips` says that the next one is passed over. -/
def list (s : State) (skips : Bool) (tokens : List Token) : State :=
  if s.ended then s
  else
    let first := tokens.takeWhile (! joins ·)
    let s := if skips then s else simple s first
    match h : tokens.dropWhile (! joins ·) with
    | [] => s
    | join :: rest =>
      have : rest.length < tokens.length := by
        have := List.Sublist.length_le (List.dropWhile_sublist (l := tokens) (p := (! joins ·)))
        simp only [h, List.length_cons] at this
        omega
      let skips := match join with
        | .both => s.status != 0
        | .either => s.status == 0
        | _ => false
      list s skips rest
termination_by tokens.length

/-- A shell that knows a few commands. -/
def basic : Shell where
  run tree current input line :=
    let done := list { tree, current, input } false (tokens line.toList none none [])
    ⟨done.tree, done.output, done.status⟩

end Shell

end OscHost
