import OscHost.Script.Bytes
/-!
  Patterns for texts.

  A pattern is matched from left to right; a repeated item first takes as much as it can, or as
  little for `-`, and gives back when the rest does not match.  Each item of a pattern stands for
  one byte; captures remember what a part of the pattern matched, or where.
-/

namespace OscHost.Script

/-- How far a capture reaches. -/
inductive CaptureEnd
  | isOpen
  | position
  | length (n : Nat)
  deriving DecidableEq, Inhabited

/-- A capture: where it starts and how far it reaches. -/
structure PatternCapture where
  start : Nat
  reach : CaptureEnd
  deriving Inhabited

/-- What a pattern captured. -/
abbrev Captures := Array PatternCapture

/-- Why a pattern cannot be used. -/
inductive PatternError
  | endsWithEscape
  | missingBracket
  | missingFrontier
  | missingBalance
  | noOpenCapture
  | badIndex (n : Int)
  | tooMany
  | unfinished
  | tooComplex

/-- The wording of a fault in a pattern. -/
def PatternError.message : PatternError → String
  | .endsWithEscape => "malformed pattern (ends with '%')"
  | .missingBracket => "malformed pattern (missing ']')"
  | .missingFrontier => "missing '[' after '%f' in pattern"
  | .missingBalance => "malformed pattern (missing arguments to '%b')"
  | .noOpenCapture => "invalid pattern capture"
  | .badIndex n => "invalid capture index %" ++ toString n
  | .tooMany => "too many captures"
  | .unfinished => "unfinished capture"
  | .tooComplex => "pattern too complex"

namespace Pattern

/-- The byte of a character. -/
def byteOf (c : Char) : UInt8 := c.toNat.toUInt8

/-- The byte that starts a class or quotes the next byte. -/
def escape : UInt8 := byteOf '%'

/-- A byte of a text; zero beyond its end. -/
def at0 (b : Bytes) (i : Nat) : UInt8 := (b[i]?).getD 0

/-- Whether a byte is an upper case letter. -/
def isUpper (c : UInt8) : Bool := byteOf 'A' ≤ c && c ≤ byteOf 'Z'

/-- Whether a byte is a lower case letter. -/
def isLower (c : UInt8) : Bool := byteOf 'a' ≤ c && c ≤ byteOf 'z'

/-- The lower case form of a letter. -/
def lower (c : UInt8) : UInt8 := if isUpper c then c + 32 else c

/-- The upper case form of a letter. -/
def upper (c : UInt8) : UInt8 := if isLower c then c - 32 else c

/-- Whether a byte is a digit. -/
def isDigit (c : UInt8) : Bool := byteOf '0' ≤ c && c ≤ byteOf '9'

/-- Whether a byte is a letter. -/
def isAlpha (c : UInt8) : Bool := isUpper c || isLower c

/-- Whether a byte shows as a mark on paper. -/
def isGraph (c : UInt8) : Bool := 33 ≤ c && c ≤ 126

/-- Whether a byte is in the class that a letter names; an upper case letter names the rest. -/
def inClass (c letter : UInt8) : Bool :=
  let named := match Char.ofNat (lower letter).toNat with
    | 'a' => some (isAlpha c)
    | 'c' => some (c < 32 || c == 127)
    | 'd' => some (isDigit c)
    | 'g' => some (isGraph c)
    | 'l' => some (isLower c)
    | 'p' => some (isGraph c && ! isAlpha c && ! isDigit c)
    | 's' => some (c == 32 || (9 ≤ c && c ≤ 13))
    | 'u' => some (isUpper c)
    | 'w' => some (isAlpha c || isDigit c)
    | 'x' => some (isDigit c || (byteOf 'a' ≤ lower c && lower c ≤ byteOf 'f'))
    | _ => none
  match named with
  | some r => if isUpper letter then ! r else r
  | none => letter == c

/-- Whether a byte is in the set written between `p` and `last`, the place of its bracket. -/
def inItems (pat : Bytes) (c : UInt8) (last : Nat) : (fuel p : Nat) → Bool
  | 0, _ => false
  | fuel + 1, p =>
    if last ≤ p then false
    else if at0 pat p == escape then inClass c (at0 pat (p + 1)) || inItems pat c last fuel (p + 2)
    else if at0 pat (p + 1) == byteOf '-' && p + 2 < last then
      (at0 pat p ≤ c && c ≤ at0 pat (p + 2)) || inItems pat c last fuel (p + 3)
    else at0 pat p == c || inItems pat c last fuel (p + 1)

/-- Whether a byte is in the set that starts at `p` and whose bracket closes at `last`. -/
def inSet (pat : Bytes) (c : UInt8) (p last : Nat) : Bool :=
  if at0 pat (p + 1) == byteOf '^' then ! inItems pat c last (last + 1) (p + 2)
  else inItems pat c last (last + 1) (p + 1)

/-- The place after a set whose items start at `p`. -/
def setEnd (pat : Bytes) : (fuel p : Nat) → Except PatternError Nat
  | 0, _ => .error .missingBracket
  | fuel + 1, p =>
    if pat.size ≤ p then .error .missingBracket
    else
      let next := if at0 pat p == escape && p + 1 < pat.size then p + 2 else p + 1
      if next < pat.size && at0 pat next == byteOf ']' then .ok (next + 1) else setEnd pat fuel next

/-- The place after the item at `p`. -/
def itemEnd (pat : Bytes) (p : Nat) : Except PatternError Nat :=
  let c := at0 pat p
  if c == escape then
    if pat.size ≤ p + 1 then .error .endsWithEscape else .ok (p + 2)
  else if c == byteOf '[' then
    setEnd pat (pat.size + 1) (if at0 pat (p + 1) == byteOf '^' then p + 2 else p + 1)
  else .ok (p + 1)

/-- Whether the byte at `s` matches the item from `p` to `ep`. -/
def matchesItem (src pat : Bytes) (s p ep : Nat) : Bool :=
  if h : s < src.size then
    let c := src[s]
    let item := at0 pat p
    if item == byteOf '.' then true
    else if item == escape then inClass c (at0 pat (p + 1))
    else if item == byteOf '[' then inSet pat c p (ep - 1)
    else item == c
  else false

/-- The place after a balanced part that starts at `s`. -/
def balanced (src : Bytes) (opening closing : UInt8) : (fuel s nesting : Nat) → Option Nat
  | 0, _, _ => none
  | fuel + 1, s, nesting =>
    if h : s < src.size then
      let c := src[s]
      if c == closing then
        if nesting ≤ 1 then some (s + 1) else balanced src opening closing fuel (s + 1) (nesting - 1)
      else if c == opening then balanced src opening closing fuel (s + 1) (nesting + 1)
      else balanced src opening closing fuel (s + 1) nesting
    else none

/-- What a match comes to. -/
abbrev Result := Except PatternError (Option (Nat × Captures))

/-- Tries the rest of a pattern after `i`, `i - 1`, … bytes. -/
def longest (rest : Nat → Result) (s : Nat) : (i : Nat) → Result
  | 0 => rest s
  | i + 1 =>
    match rest (s + i + 1) with
    | .ok none => longest rest s i
    | r => r

/-- Tries the rest of a pattern after as few bytes as will do. -/
def fewest (rest : Nat → Result) (item : Nat → Bool) : (fuel s : Nat) → Result
  | 0, _ => .ok none
  | fuel + 1, s =>
    match rest s with
    | .ok none => if item s then fewest rest item fuel (s + 1) else .ok none
    | r => r

/-- How many bytes from `s` on match an item, beside `n` before them. -/
def countItems (item : Nat → Bool) (n : Nat) : (fuel s : Nat) → Nat
  | 0, _ => n
  | fuel + 1, s => if item s then countItems item (n + 1) fuel (s + 1) else n

/-- The newest open capture. -/
def openCapture? (caps : Captures) : Option Nat :=
  (List.range caps.size).reverse.find? fun i => (caps.getD i default).reach == .isOpen

/-- Most captures of a pattern. -/
def maxCaptures : Nat := 32

/-- How deep matching may nest. -/
def maxNesting : Nat := 200

/-- Matches the pattern from `p` on at `s`; yields the place after the match. -/
def matchHere (src pat : Bytes) : (fuel depth s p : Nat) → Captures → Result
  | 0, _, _, _, _ => .error .tooComplex
  | fuel + 1, depth, s, p, caps =>
    if pat.size ≤ p then .ok (some (s, caps))
    else
      let c := at0 pat p
      let deeper (s p : Nat) (caps : Captures) : Result :=
        if depth = 0 then .error .tooComplex else matchHere src pat fuel (depth - 1) s p caps
      let plainItem : Result := do
        let ep ← itemEnd pat p
        let item := fun s => matchesItem src pat s p ep
        let mark := at0 pat ep
        if mark == byteOf '?' then
          if item s then
            match ← deeper (s + 1) (ep + 1) caps with
            | some r => pure (some r)
            | none => matchHere src pat fuel depth s (ep + 1) caps
          else matchHere src pat fuel depth s (ep + 1) caps
        else if mark == byteOf '+' then
          if item s then
            longest (fun s => deeper s (ep + 1) caps) (s + 1) (countItems item 0 (src.size + 1) (s + 1))
          else pure none
        else if mark == byteOf '*' then
          longest (fun s => deeper s (ep + 1) caps) s (countItems item 0 (src.size + 1) s)
        else if mark == byteOf '-' then
          fewest (fun s => deeper s (ep + 1) caps) item (src.size + 2) s
        else if item s then matchHere src pat fuel depth (s + 1) ep caps
        else pure none
      if c == byteOf '(' then
        if maxCaptures ≤ caps.size then .error .tooMany
        else if at0 pat (p + 1) == byteOf ')' then deeper s (p + 2) (caps.push ⟨s, .position⟩)
        else deeper s (p + 1) (caps.push ⟨s, .isOpen⟩)
      else if c == byteOf ')' then
        match openCapture? caps with
        | none => .error .noOpenCapture
        | some i =>
          let start := (caps.getD i default).start
          deeper s (p + 1) (caps.setIfInBounds i ⟨start, .length (s - start)⟩)
      else if c == byteOf '$' && p + 1 = pat.size then
        .ok (if s = src.size then some (s, caps) else none)
      else if c == escape then
        let d := at0 pat (p + 1)
        if pat.size ≤ p + 1 then plainItem
        else if d == byteOf 'b' then
          if pat.size < p + 4 then .error .missingBalance
          else if s < src.size && at0 src s == at0 pat (p + 2) then
            match balanced src (at0 pat (p + 2)) (at0 pat (p + 3)) (src.size + 1) (s + 1) 1 with
            | some s => matchHere src pat fuel depth s (p + 4) caps
            | none => .ok none
          else .ok none
        else if d == byteOf 'f' then
          if at0 pat (p + 2) != byteOf '[' then .error .missingFrontier
          else do
            let ep ← itemEnd pat (p + 2)
            let before := if s = 0 then 0 else at0 src (s - 1)
            if ! inSet pat before (p + 2) (ep - 1) && inSet pat (at0 src s) (p + 2) (ep - 1) then
              matchHere src pat fuel depth s ep caps
            else pure none
        else if isDigit d then
          let i : Int := (d.toNat : Int) - '1'.toNat
          match if i < 0 then none else caps[i.toNat]? with
          | some ⟨start, .length n⟩ =>
            if s + n ≤ src.size && src.extract start (start + n) == src.extract s (s + n) then
              matchHere src pat fuel depth (s + n) (p + 2) caps
            else .ok none
          | some ⟨_, .position⟩ => .ok none
          | _ => .error (.badIndex (i + 1))
        else plainItem
      else plainItem

/-- Matches a whole pattern at `s`. -/
def matchAt (src pat : Bytes) (s p : Nat) : Result :=
  matchHere src pat (2 * (src.size + pat.size) + 10) maxNesting s p #[]

/-- A match: where it starts, where it ends, and what it captured. -/
structure Match where
  start : Nat
  stop : Nat
  captures : Captures

/-- The first match at or after `s`; `anchored` matches count only at `s`. -/
def search (src pat : Bytes) (anchored : Bool) (p : Nat) :
    (fuel s : Nat) → Except PatternError (Option Match)
  | 0, _ => .ok none
  | fuel + 1, s =>
    match matchAt src pat s p with
    | .error e => .error e
    | .ok (some (stop, captures)) => .ok (some ⟨s, stop, captures⟩)
    | .ok none =>
      if anchored || src.size ≤ s then .ok none else search src pat anchored p fuel (s + 1)

/-- Where a plain text first occurs at or after `s`. -/
def occurrence (src text : Bytes) : (fuel s : Nat) → Option Nat
  | 0, _ => none
  | fuel + 1, s =>
    if src.size < s + text.size then none
    else if src.extract s (s + text.size) == text then some s
    else occurrence src text fuel (s + 1)

/-- Whether a pattern stands for itself only. -/
def isPlain (pat : Bytes) : Bool := pat.toChars.all fun c => ! "^$*+?.([%-".contains c

end Pattern

end OscHost.Script
