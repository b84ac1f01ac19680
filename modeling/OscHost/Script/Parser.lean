import OscHost.Script.Scope
/-!
  Programs read from tokens.

  One token decides which construct begins; the token after it is looked at only inside table
  constructors.  The fuel bounds the depth of the reading by the length of the text and is never
  used up: every construct takes at least one token.
-/

namespace OscHost.Script

namespace Parser

/-- Tokens to be read, the current one first; the line of the last one taken; the functions that
    are open; the next free label; the nesting of constructs. -/
structure State where
  tokens : List Lexeme
  lastLine : Nat := 1
  functions : List FunctionScope := []
  nextId : Nat := 0
  nesting : Nat := 0

/-- A reading step. -/
abbrev Parse := StateT State (Except Complaint)

/-- Constructs nested deeper are refused. -/
def maxNesting : Nat := 195

/-- Most variables in scope in one function. -/
def maxLocals : Nat := 200

/-! ## Tokens -/

/-- The current token. -/
def current : Parse Lexeme := do
  match (← get).tokens with
  | l :: _ => pure l
  | [] => pure ⟨.eof, (← get).lastLine, []⟩

/-- The line of the current token. -/
def line : Parse Nat := return (← current).line

/-- Complains about the current token. -/
def failNear {α : Type} (message : String) : Parse α := do
  let l ← current
  throw ⟨Bytes.ofText message ++ Bytes.ofText " near " ++ l.near, some l.line⟩

/-- Complains without quoting a token. -/
def fail {α : Type} (message : String) : Parse α := do
  throw ⟨message, some (← line)⟩

/-- Complains when the current token is malformed. -/
def checkCurrent : Parse Unit := do
  let l ← current
  match l.token with
  | .malformed complaint => throw ⟨complaint, some l.line⟩
  | _ => pure ()

/-- Takes the current token. -/
def advance : Parse Unit := do
  let l ← current
  modify fun s => { s with tokens := s.tokens.drop 1, lastLine := l.line }
  checkCurrent

/-- Whether the current token is a symbol. -/
def isAt (symbol : String) : Parse Bool := do
  match (← current).token with
  | .symbol s => pure (s == symbol)
  | _ => pure false

/-- The symbol at the front, or an empty text. -/
def symbol : Parse String := do
  match (← current).token with
  | .symbol s => pure s
  | _ => pure ""

/-- Takes a symbol if it is the current token. -/
def accept (symbol : String) : Parse Bool := do
  if ← isAt symbol then
    advance
    pure true
  else pure false

/-- Takes a symbol that has to be the current token. -/
def expect (symbol : String) : Parse Unit := do
  if ← isAt symbol then advance
  else failNear ("'" ++ symbol ++ "' expected")

/-- Takes the symbol that closes a construct opened on a line. -/
def expectClosing (closing opening : String) (opened : Nat) : Parse Unit := do
  if ← isAt closing then advance
  else if opened = (← line) then failNear ("'" ++ closing ++ "' expected")
  else failNear ("'" ++ closing ++ "' expected (to close '" ++ opening ++ "' at line "
    ++ toString opened ++ ")")

/-- Takes a name. -/
def name : Parse String := do
  match (← current).token with
  | .name s =>
    advance
    pure s
  | _ => failNear "<name> expected"

/-- Whether the current token ends a block. -/
def endsBlock (withUntil : Bool) : Parse Bool := do
  match (← current).token with
  | .eof => pure true
  | .symbol s =>
    pure (s == "else" || s == "elseif" || s == "end" || (withUntil && s == "until"))
  | _ => pure false

/-- Runs a step one level deeper. -/
def nested {α : Type} (step : Parse α) : Parse α := do
  if maxNesting ≤ (← get).nesting then
    throw ⟨"C stack overflow", none⟩
  modify fun s => { s with nesting := s.nesting + 1 }
  let r ← step
  modify fun s => { s with nesting := s.nesting - 1 }
  pure r

/-! ## Scopes -/

/-- The innermost open function. -/
def function : Parse FunctionScope := return (← get).functions.head?.getD {}

/-- Changes the innermost open function. -/
def modifyFunction (f : FunctionScope → FunctionScope) : Parse Unit :=
  modify fun s => match s.functions with
    | [] => s
    | scope :: outer => { s with functions := f scope :: outer }

/-- A new label or jump. -/
def freshId : Parse Nat := modifyGet fun s => (s.nextId, { s with nextId := s.nextId + 1 })

/-- Puts a variable into scope and gives its slot. -/
def declare (name : String) (attr : Attribute) : Parse Nat := do
  let f ← function
  if maxLocals ≤ f.bindings.length then
    let place := if f.line = 0 then "main function" else "function at line " ++ toString f.line
    failNear ("too many local variables (limit is " ++ toString maxLocals ++ ") in " ++ place)
  let slot := f.level
  modifyFunction fun f => { f with
    bindings := ⟨name, slot, attr, none⟩ :: f.bindings
    level := slot + 1
    slots := max f.slots (slot + 1) }
  pure slot

/-- Puts a variable with a known value into scope. -/
def declareKnown (name : String) (value : Expr) : Parse Unit :=
  modifyFunction fun f => { f with
    bindings := ⟨name, f.level, .constant, some value⟩ :: f.bindings }

/-- Enters a block; `exit` is the label that ends the loop it belongs to. -/
def enterBlock (exit : Option Nat := none) : Parse Unit :=
  modifyFunction fun f =>
    let inside := match f.blocks with
      | b :: _ => b.insideClose
      | [] => false
    { f with blocks := ⟨f.bindings.length, f.level, [], [], exit, false, inside⟩ :: f.blocks }

/-- Complains about a jump into the scope of a variable. -/
def failScope {α : Type} (j : Jump) : Parse α := do
  let f ← function
  let entered := match f.bindings.reverse[j.active]? with
    | some v => v.name
    | none => "?"
  fail ("<goto " ++ j.name ++ "> at line " ++ toString j.line
    ++ " jumps into the scope of local '" ++ entered ++ "'")

/-- Puts a label into the innermost block and resolves the jumps of the block to it. -/
def placeLabel (l : Label) : Parse Unit := do
  match (← function).blocks with
  | [] => pure ()
  | b :: _ =>
    let (here, waiting) := b.jumps.partition fun j => j.name == l.name
    match here.reverse.find? fun j => j.active < l.active with
    | some j => failScope j
    | none =>
      modifyFunction fun f => { f with
        blocks := match f.blocks with
          | b :: outer => { b with labels := l :: b.labels, jumps := waiting } :: outer
          | [] => []
        resolved := here.map (fun j => (j.id, l.id, l.level)) ++ f.resolved }

/-- Leaves the innermost block: its variables and labels go out of scope, and its unresolved jumps
    move to the block around it.  Yields the first slot to close, if any. -/
def leaveBlock : Parse (Option Nat) := do
  match (← function).blocks with
  | [] => pure none
  | b :: _ =>
    modifyFunction fun f => { f with
      bindings := f.bindings.drop (f.bindings.length - b.active)
      level := b.level }
    match b.exit with
    | some id => placeLabel ⟨"break", id, 0, b.active, b.level⟩
    | none => pure ()
    let jumps := match (← function).blocks with
      | b :: _ => b.jumps
      | [] => []
    match (← function).blocks with
    | _ :: outer :: rest =>
      let moved := jumps.map fun j => { j with active := min j.active b.active }
      modifyFunction fun f => { f with
        blocks := { outer with jumps := moved ++ outer.jumps } :: rest }
    | _ =>
      match jumps.reverse with
      | [] => modifyFunction fun f => { f with blocks := [] }
      | j :: _ =>
        if j.name = "break" then
          fail ("break outside a loop at line " ++ toString j.line)
        else
          fail ("no visible label '" ++ j.name ++ "' for <goto> at line " ++ toString j.line)
    pure (if b.closes then some b.level else none)

/-- Marks the innermost block as one that closes a variable. -/
def markClosing : Parse Unit :=
  modifyFunction fun f => { f with
    closes := true
    blocks := match f.blocks with
      | b :: outer => { b with closes := true, insideClose := true } :: outer
      | [] => [] }

/-- What a name stands for. -/
def lookUp (name : String) : Parse (Option Named) := do
  match resolveName name (← get).functions with
  | some (named, functions) =>
    modify fun s => { s with functions }
    pure (some named)
  | none => pure none

/-- An expression with what an assignment to it would need to know. -/
structure Target where
  e : Expr
  isVariable : Bool := false
  isCall : Bool := false
  readOnly : Option String := none

/-- The variable of a name. -/
def namedVariable (s : String) (line : Nat) : Parse Target := do
  let asTarget (n : Named) : Target :=
    match n with
    | .known e => ⟨e, true, false, some s⟩
    | .slot n attr =>
      ⟨.slot n s, true, false, if attr = .regular then none else some s⟩
    | .upvalue n attr =>
      ⟨.upvalue n s, true, false, if attr = .regular then none else some s⟩
  match ← lookUp s with
  | some n => pure (asTarget n)
  | none =>
    let env := match ← lookUp "_ENV" with
      | some (.slot n _) => Expr.slot n "_ENV"
      | some (.upvalue n _) => Expr.upvalue n "_ENV"
      | some (.known e) => e
      | none => Expr.nil
    pure ⟨.global env s line, true, false, none⟩

/-- Complains about an assignment to a variable that keeps its value. -/
def checkWritable (t : Target) : Parse Unit :=
  match t.readOnly with
  | some s => fail ("attempt to assign to const variable '" ++ s ++ "'")
  | none => pure ()

/-! ## Operators -/

/-- The operator with one operand that a symbol stands for. -/
def unary? : String → Option Unary
  | "not" => some .not
  | "-" => some .minus
  | "~" => some .complement
  | "#" => some .length
  | _ => none

/-- What stands between two operands. -/
inductive Between
  | op (b : Binary)
  | and
  | or

/-- The operator between operands that a symbol stands for, with how tightly it binds on its left
    and right. -/
def between? : String → Option (Between × Nat × Nat)
  | "+" => some (.op .add, 10, 10)
  | "-" => some (.op .sub, 10, 10)
  | "*" => some (.op .mul, 11, 11)
  | "%" => some (.op .mod, 11, 11)
  | "^" => some (.op .pow, 14, 13)
  | "/" => some (.op .div, 11, 11)
  | "//" => some (.op .floorDiv, 11, 11)
  | "&" => some (.op .band, 6, 6)
  | "|" => some (.op .bor, 4, 4)
  | "~" => some (.op .bxor, 5, 5)
  | "<<" => some (.op .shl, 7, 7)
  | ">>" => some (.op .shr, 7, 7)
  | ".." => some (.op .concat, 9, 8)
  | "==" => some (.op .eq, 3, 3)
  | "~=" => some (.op .ne, 3, 3)
  | "<" => some (.op .lt, 3, 3)
  | "<=" => some (.op .le, 3, 3)
  | ">" => some (.op .gt, 3, 3)
  | ">=" => some (.op .ge, 3, 3)
  | "and" => some (.and, 2, 2)
  | "or" => some (.or, 1, 1)
  | _ => none

/-- How tightly operators with one operand bind. -/
def unaryPriority : Nat := 12

/-- The value of an expression that is known while reading. -/
def known? : Expr → Option Expr
  | .nil => some .nil
  | .true => some .true
  | .false => some .false
  | .int n => some (.int n)
  | .float x => some (.float x)
  | .string s => some (.string s)
  | _ => none

/-- The fuel of a reading is never used up. -/
def exhausted {α : Type} : Parse α := throw ⟨"C stack overflow", none⟩

/-! ## Expressions, functions and statements -/

mutual

/-- A name or an expression in parentheses. -/
def primary (fuel : Nat) : Parse Target := do
  match fuel with
  | 0 => exhausted
  | fuel + 1 =>
    let l ← current
    match l.token with
    | .name s =>
      advance
      namedVariable s l.line
    | .symbol "(" =>
      advance
      let e ← expr fuel
      expectClosing ")" "(" l.line
      pure ⟨.single e, false, false, none⟩
    | _ => failNear "unexpected symbol"

/-- Fields, indices and calls after an expression. -/
def suffixes (fuel : Nat) (t : Target) : Parse Target := do
  match fuel with
  | 0 => exhausted
  | fuel + 1 =>
    let l ← current
    match l.token with
    | .symbol "." =>
      advance
      let key ← name
      suffixes fuel ⟨.index t.e (.string key) l.line, true, false, none⟩
    | .symbol "[" =>
      advance
      let key ← expr fuel
      expect "]"
      suffixes fuel ⟨.index t.e key (← get).lastLine, true, false, none⟩
    | .symbol ":" =>
      advance
      let key ← name
      let line ← line
      let args ← arguments fuel
      suffixes fuel ⟨.method t.e key args line, false, true, none⟩
    | .symbol "(" | .symbol "\x7b" | .string _ =>
      let args ← arguments fuel
      suffixes fuel ⟨.call t.e args l.line, false, true, none⟩
    | _ => pure t

/-- The arguments of a call. -/
def arguments (fuel : Nat) : Parse (List Expr) := do
  match fuel with
  | 0 => exhausted
  | fuel + 1 =>
    let l ← current
    match l.token with
    | .string s =>
      advance
      pure [.string s]
    | .symbol "\x7b" => return [← table fuel]
    | .symbol "(" =>
      advance
      if ← accept ")" then pure []
      else
        let args ← exprs fuel
        expectClosing ")" "(" l.line
        pure args
    | _ => failNear "function arguments expected"

/-- Expressions with commas between them. -/
def exprs (fuel : Nat) : Parse (List Expr) := do
  match fuel with
  | 0 => exhausted
  | fuel + 1 =>
    let e ← expr fuel
    if ← accept "," then return e :: (← exprs fuel)
    else pure [e]

/-- A table constructor. -/
def table (fuel : Nat) : Parse Expr := do
  match fuel with
  | 0 => exhausted
  | fuel + 1 =>
    let opened ← line
    expect "\x7b"
    let fields ← fields fuel
    expectClosing "\x7d" "\x7b" opened
    pure (.table fields opened)

/-- The fields of a table constructor. -/
def fields (fuel : Nat) : Parse (List Field) := do
  match fuel with
  | 0 => exhausted
  | fuel + 1 =>
    if ← isAt "\x7d" then pure []
    else
      let field ← field fuel
      if (← accept ",") || (← accept ";") then return field :: (← fields fuel)
      else pure [field]

/-- One field of a table constructor. -/
def field (fuel : Nat) : Parse Field := do
  match fuel with
  | 0 => exhausted
  | fuel + 1 =>
    let l ← current
    match l.token with
    | .name s =>
      match (← get).tokens.drop 1 with
      | ⟨.symbol "=", _, _⟩ :: _ =>
        advance
        advance
        return .keyed (.string s) (← expr fuel) l.line
      | ⟨.malformed complaint, line, _⟩ :: _ => throw ⟨complaint, some line⟩
      | _ => return .item (← expr fuel)
    | .symbol "[" =>
      advance
      let key ← expr fuel
      expect "]"
      expect "="
      return .keyed key (← expr fuel) l.line
    | _ => return .item (← expr fuel)

/-- An expression without operators between operands. -/
def simple (fuel : Nat) : Parse Expr := do
  match fuel with
  | 0 => exhausted
  | fuel + 1 =>
    let l ← current
    match l.token with
    | .int n => advance; pure (.int n)
    | .float x => advance; pure (.float x)
    | .string s => advance; pure (.string s)
    | .symbol "nil" => advance; pure .nil
    | .symbol "true" => advance; pure .true
    | .symbol "false" => advance; pure .false
    | .symbol "..." =>
      if ¬ (← function).isVararg then failNear "cannot use '...' outside a vararg function"
      advance
      pure .varargs
    | .symbol "\x7b" => table fuel
    | .symbol "function" =>
      advance
      return .function (← functionBody fuel false "anonymous" l.line)
    | _ => return (← suffixes fuel (← primary fuel)).e

/-- Operands joined by operators that bind tighter than `limit`. -/
def operators (fuel : Nat) (limit : Nat) : Parse Expr := do
  match fuel with
  | 0 => exhausted
  | fuel + 1 =>
    nested do
      let l ← current
      let first ← match unary? (← symbol) with
        | some op =>
          advance
          let e ← operators fuel unaryPriority
          pure (.unary op e l.line)
        | none => simple fuel
      moreOperators fuel limit first

/-- Operators and operands after a first operand. -/
def moreOperators (fuel : Nat) (limit : Nat) (first : Expr) : Parse Expr := do
  match fuel with
  | 0 => exhausted
  | fuel + 1 =>
    let l ← current
    match between? (← symbol) with
    | none => pure first
    | some (op, left, right) =>
      if left ≤ limit then pure first
      else
        advance
        let second ← operators fuel right
        let e := match op with
          | .op b => .binary b first second l.line
          | .and => .and first second
          | .or => .or first second
        moreOperators fuel limit e

/-- An expression. -/
def expr (fuel : Nat) : Parse Expr := do
  match fuel with
  | 0 => exhausted
  | fuel + 1 => operators fuel 0

/-- The names of parameters, and whether more arguments are kept. -/
def parameters (fuel : Nat) : Parse (List String × Bool) := do
  match fuel with
  | 0 => exhausted
  | fuel + 1 =>
    let l ← current
    match l.token with
    | .symbol "..." =>
      advance
      pure ([], true)
    | .name s =>
      advance
      if ← accept "," then
        let (rest, more) ← parameters fuel
        pure (s :: rest, more)
      else pure ([s], false)
    | _ => failNear "<name> or '...' expected"

/-- A function from its parameters on. -/
def functionBody (fuel : Nat) (isMethod : Bool) (name : String) (opened : Nat) :
    Parse FunctionBody := do
  match fuel with
  | 0 => exhausted
  | fuel + 1 =>
    modify fun s => { s with functions := { line := opened } :: s.functions }
    enterBlock
    if isMethod then
      let _ ← declare "self" .regular
    expect "("
    let (names, isVararg) ← if ← isAt ")" then pure ([], false) else parameters fuel
    for n in names do
      let _ ← declare n .regular
    modifyFunction fun f => { f with isVararg }
    expect ")"
    let body ← statements fuel
    let endLine ← line
    expectClosing "end" "function" opened
    let _ ← leaveBlock
    let f ← function
    modify fun s => { s with functions := s.functions.drop 1 }
    pure (.mk (names.length + if isMethod then 1 else 0) isVararg f.slots
      (f.captures.map fun c => (c.1, c.2.1)) f.resolved body f.closes name opened endLine)

/-- Statements up to the end of a block. -/
def statements (fuel : Nat) : Parse (List Stmt) := do
  match fuel with
  | 0 => exhausted
  | fuel + 1 =>
    if ← endsBlock true then pure []
    else if ← isAt "return" then statement fuel
    else
      let first ← statement fuel
      return first ++ (← statements fuel)

/-- Statements with a scope of their own. -/
def block (fuel : Nat) : Parse Block := do
  match fuel with
  | 0 => exhausted
  | fuel + 1 =>
    enterBlock
    let body ← statements fuel
    let endLine ← line
    let closes ← leaveBlock
    pure (.mk body closes endLine)

/-- The targets of an assignment after the first, and the values. -/
def assignment (fuel : Nat) (t : Target) : Parse (List Expr × List Expr) := do
  match fuel with
  | 0 => exhausted
  | fuel + 1 =>
    if ¬ t.isVariable then failNear "syntax error"
    checkWritable t
    if ← accept "," then
      let next ← suffixes fuel (← primary fuel)
      let (targets, values) ← nested (assignment fuel next)
      pure (t.e :: targets, values)
    else
      if ¬ (← isAt "=") then failNear "'=' expected"
      advance
      let values ← exprs fuel
      pure ([t.e], values)

/-- The branches of a conditional after a condition word. -/
def branches (fuel : Nat) (opened : Nat) : Parse Stmt := do
  match fuel with
  | 0 => exhausted
  | fuel + 1 =>
    advance
    let condition ← expr fuel
    expect "then"
    let body ← block fuel
    let otherwise ←
      if ← isAt "elseif" then pure (Block.mk [← branches fuel opened] none opened)
      else if ← accept "else" then do
        let b ← block fuel
        expectClosing "end" "if" opened
        pure b
      else do
        expectClosing "end" "if" opened
        pure (Block.mk [] none opened)
    pure (.branch condition body otherwise)

/-- The body of a loop over numbers or values; `names` are its own variables. -/
def loopBody (fuel : Nat) (names : List String) : Parse Block := do
  match fuel with
  | 0 => exhausted
  | fuel + 1 =>
    expect "do"
    enterBlock
    for n in names do
      let _ ← declare n .regular
    let body ← statements fuel
    let endLine ← line
    let closes ← leaveBlock
    pure (.mk body closes endLine)

/-- The names between the first one of a loop and `in`. -/
def moreNames (fuel : Nat) : Parse (List String) := do
  match fuel with
  | 0 => exhausted
  | fuel + 1 =>
    if ← accept "," then
      let n ← name
      return n :: (← moreNames fuel)
    else pure []

/-- The names and attributes of a declaration. -/
def declared (fuel : Nat) : Parse (List (String × Attribute)) := do
  match fuel with
  | 0 => exhausted
  | fuel + 1 =>
    let n ← name
    let attr ←
      if ← accept "<" then do
        let a ← name
        expect ">"
        match a with
        | "const" => pure Attribute.constant
        | "close" => pure Attribute.toClose
        | _ => fail ("unknown attribute '" ++ a ++ "'")
      else pure Attribute.regular
    let rest ← if ← accept "," then declared fuel else pure []
    if attr = .toClose ∧ rest.any (fun r => r.2 == .toClose) then
      fail "multiple to-be-closed variables in local list"
    pure ((n, attr) :: rest)

/-- The fields of a function name after its first name, and whether it is a method. -/
def functionName (fuel : Nat) (t : Target) (spelled : String) : Parse (Target × Bool × String) := do
  match fuel with
  | 0 => exhausted
  | fuel + 1 =>
    let l ← current
    if ← accept "." then
      let key ← name
      functionName fuel ⟨.index t.e (.string key) l.line, true, false, none⟩
        (spelled ++ "." ++ key)
    else if ← accept ":" then
      let key ← name
      pure (⟨.index t.e (.string key) l.line, true, false, none⟩, true, spelled ++ ":" ++ key)
    else pure (t, false, spelled)

/-- A statement; an empty one yields nothing. -/
def statement (fuel : Nat) : Parse (List Stmt) := do
  match fuel with
  | 0 => exhausted
  | fuel + 1 =>
    nested do
      let l ← current
      match l.token with
      | .symbol ";" =>
        advance
        pure []
      | .symbol "if" => return [← branches fuel l.line]
      | .symbol "while" =>
        advance
        let condition ← expr fuel
        let exit ← freshId
        enterBlock exit
        expect "do"
        let body ← block fuel
        expectClosing "end" "while" l.line
        let _ ← leaveBlock
        pure [.whileLoop condition body exit l.line]
      | .symbol "do" =>
        advance
        let b ← block fuel
        expectClosing "end" "do" l.line
        pure [.block b]
      | .symbol "for" =>
        let exit ← freshId
        enterBlock exit
        advance
        let first ← name
        let s ← loop fuel first exit l.line
        expectClosing "end" "for" l.line
        let _ ← leaveBlock
        pure [s]
      | .symbol "repeat" =>
        let exit ← freshId
        enterBlock exit
        enterBlock
        advance
        let body ← statements fuel
        expectClosing "until" "repeat" l.line
        let endLine ← line
        let condition ← expr fuel
        let closes ← leaveBlock
        let _ ← leaveBlock
        pure [.repeatLoop (.mk body closes endLine) condition exit l.line]
      | .symbol "function" =>
        advance
        let n ← current
        let s ← name
        let (t, isMethod, spelled) ← functionName fuel (← namedVariable s n.line) s
        let body ← functionBody fuel isMethod spelled l.line
        checkWritable t
        pure [.assign [t.e] [.function body] l.line]
      | .symbol "local" =>
        advance
        if ← accept "function" then
          let s ← name
          let slot ← declare s .regular
          let body ← functionBody fuel false s (← get).lastLine
          pure [.localFunction slot body]
        else localDeclaration fuel l.line
      | .symbol "::" =>
        advance
        let s ← name
        let placed ← line
        expect "::"
        let idle ← idleStatements fuel
        match (← function).labels.find? fun l => l.name == s with
        | some other =>
          fail ("label '" ++ s ++ "' already defined on line " ++ toString other.line)
        | none => pure ()
        let id ← freshId
        let f ← function
        let last ← endsBlock false
        let (active, level) := match last, f.blocks with
          | true, b :: _ => (b.active, b.level)
          | _, _ => (f.bindings.length, f.level)
        placeLabel ⟨s, id, placed, active, level⟩
        pure (.label id :: idle)
      | .symbol "return" =>
        advance
        let values ← if (← endsBlock true) || (← isAt ";") then pure [] else exprs fuel
        let _ ← accept ";"
        pure [.ret values l.line]
      | .symbol "break" =>
        advance
        jump "break" l.line
      | .symbol "goto" =>
        advance
        let s ← name
        jump s l.line
      | _ =>
        let t ← suffixes fuel (← primary fuel)
        if (← isAt "=") || (← isAt ",") then
          let (targets, values) ← assignment fuel t
          pure [.assign targets values l.line]
        else
          if ¬ t.isCall then failNear "syntax error"
          pure [.call t.e l.line]

/-- Statements without effect after a label. -/
def idleStatements (fuel : Nat) : Parse (List Stmt) := do
  match fuel with
  | 0 => exhausted
  | fuel + 1 =>
    if (← isAt ";") || (← isAt "::") then
      let first ← statement fuel
      return first ++ (← idleStatements fuel)
    else pure []

/-- A jump to a label that has been seen, or that has to follow. -/
def jump (label : String) (line : Nat) : Parse (List Stmt) := do
  let f ← function
  let id ← freshId
  match f.labels.find? fun l => l.name == label with
  | some l =>
    modifyFunction fun f => { f with resolved := (id, l.id, l.level) :: f.resolved }
  | none =>
    modifyFunction fun f => { f with
      blocks := match f.blocks with
        | b :: outer => { b with jumps := ⟨label, id, line, f.bindings.length⟩ :: b.jumps } :: outer
        | [] => [] }
  pure [.goto id line]

/-- A loop after `for` and its first name. -/
def loop (fuel : Nat) (first : String) (exit line : Nat) : Parse Stmt := do
  match fuel with
  | 0 => exhausted
  | fuel + 1 =>
    match (← current).token with
    | .symbol "=" =>
      let base := (← function).level
      for n in ["(for state)", "(for state)", "(for state)"] do
        let _ ← declare n .regular
      advance
      let start ← expr fuel
      expect ","
      let last ← expr fuel
      let step ← if ← accept "," then expr fuel else pure (.int 1)
      let body ← loopBody fuel [first]
      pure (.numericFor base start last step body exit line)
    | .symbol "," | .symbol "in" =>
      let base := (← function).level
      for n in ["(for state)", "(for state)", "(for state)", "(for state)"] do
        let _ ← declare n .regular
      let rest ← moreNames fuel
      expect "in"
      let values ← exprs fuel
      markClosing
      let body ← loopBody fuel (first :: rest)
      pure (.genericFor base (rest.length + 1) values body exit line)
    | _ => failNear "'=' or 'in' expected"

/-- A declaration of local variables after `local`. -/
def localDeclaration (fuel : Nat) (line : Nat) : Parse (List Stmt) := do
  match fuel with
  | 0 => exhausted
  | fuel + 1 =>
    let names ← declared fuel
    let values ← if ← accept "=" then exprs fuel else pure []
    match names, values with
    | [(n, .constant)], [e] =>
      match known? e with
      | some value =>
        declareKnown n value
        pure []
      | none =>
        let slot ← declare n .constant
        pure [.declare [slot] none values line]
    | _, _ =>
      let slots ← names.mapM fun n => declare n.1 n.2
      let close := (names.zip slots).findSome? fun n =>
        if n.1.2 = Attribute.toClose then some (n.2, n.1.1) else none
      if close.isSome then markClosing
      pure [.declare slots close values line]

end

/-- Reads a whole text as the body of a function with more arguments kept and one upvalue, the
    environment. -/
def program (fuel : Nat) : Parse FunctionBody := do
  checkCurrent
  set { (← get) with functions := [{ isVararg := true, captures := [(.slot 0, "_ENV", .regular)] }] }
  enterBlock
  let body ← statements fuel
  match (← current).token with
  | .eof => pure ()
  | _ => failNear "<eof> expected"
  let endLine ← line
  let _ ← leaveBlock
  let f ← function
  pure (.mk 0 true f.slots (f.captures.map fun c => (c.1, c.2.1)) f.resolved body f.closes "main" 0
    endLine)

end Parser

/-- Reads a source text. -/
def parse (source : Bytes) : Except Complaint FunctionBody :=
  let tokens := lex source
  match (Parser.program (12 * tokens.length + 100)).run { tokens } with
  | .ok (body, _) => .ok body
  | .error complaint => .error complaint

end OscHost.Script
