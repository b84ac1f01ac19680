import OscHost.Number.Binary
import OscHost.Script.Bytes
/-!
  Values of the script language.

  Tables, functions, coroutines and objects are references: the number of a place in the heap.
  The functions of the library are named by `Builtin`.
-/

namespace OscHost.Script

/-- The functions of the library, by the name under which scripts find them. -/
inductive Builtin
  -- base
  | assert | collectgarbage | dofile | error | getmetatable | ipairs | ipairsNext | load
  | loadfile | next | pairs | pcall | print | rawequal | rawget | rawlen | rawset | require
  | select | setmetatable | sleep | tonumber | tostring | type | warn | xpcall
  -- coroutine
  | coClose | coCreate | coIsYieldable | coResume | coRunning | coStatus | coWrap | coYield
  -- string
  | strByte | strChar | strDump | strFind | strFormat | strGmatch | strGsub | strLen | strLower
  | strMatch | strPack | strPackSize | strRep | strReverse | strSub | strUnpack | strUpper
  -- arithmetic of strings, as metamethods
  | strArith (event : String)
  -- table
  | tabConcat | tabInsert | tabMove | tabPack | tabRemove | tabSort | tabUnpack
  -- math
  | mathAbs | mathAcos | mathAsin | mathAtan | mathCeil | mathCos | mathDeg | mathExp | mathFloor
  | mathFmod | mathLog | mathMax | mathMin | mathModf | mathRad | mathRandom | mathRandomseed
  | mathSin | mathSqrt | mathTan | mathTointeger | mathType | mathUlt
  -- utf8
  | utfChar | utfCodepoint | utfCodes | utfCodesNext (lax : Bool) | utfLen | utfOffset
  -- io
  | ioClose | ioFlush | ioInput | ioLines | ioList | ioOpen | ioOutput | ioPopen | ioRead
  | ioTmpfile | ioType | ioWrite
  -- methods of files
  | fileClose | fileFlush | fileLines | fileRead | fileSeek | fileSetvbuf | fileWrite
  | fileToString | fileGc
  -- os
  | osClock | osDate | osDifftime | osExecute | osExit | osGetenv | osRemove | osRename
  | osSetlocale | osTime | osTmpname
  -- package
  | loadlib | searchpath | searchPreload | searchScript | searchForeign (whole : Bool)
  -- debug
  | debugGetinfo | debugGetlocal | debugGetmetatable | debugGethook | debugGetregistry
  | debugGetupvalue | debugGetuservalue | debugSethook | debugSetlocal | debugSetmetatable
  | debugSetupvalue | debugSetuservalue | debugTraceback | debugUpvalueid | debugUpvaluejoin
  | debugDebug | debugSetcstacklimit
  -- the host
  | oscSend | menuUpdate | menuOnclick | jsonRead | jsonWrite | jsonEncode | jsonDecode
  | errorText
  -- a function without effect that only serves as a value
  | idle
  deriving DecidableEq, Repr, Hashable

/-- A value. -/
inductive Value
  | nil
  | bool (b : Bool)
  | int (n : Int64)
  /-- A double that is a number. -/
  | float (x : Float)
  /-- Not a number, with the sign it is written with. -/
  | nan (negative : Bool)
  | string (s : Bytes)
  | table (id : Nat)
  | closure (id : Nat)
  | builtin (b : Builtin)
  | native (id : Nat)
  | thread (id : Nat)
  | object (id : Nat)
  /-- A bare mark of the host: a value equal only to itself. -/
  | mark (n : Nat)
  deriving Inhabited

namespace Value

/-- A text as a value. -/
def text (s : String) : Value := .string s

/-- The value of a computed double: an invalid operation yields the negative form. -/
def ofFloat (x : Float) : Value := if x.isNaN then .nan true else .float x

/-- The double that is not a number. -/
def notNumber : Float := 0.0 / 0.0

/-- A truth value or nil. -/
def ofBool? : Option Bool → Value
  | some b => .bool b
  | none => .nil

/-- Whether a value counts as true. -/
def isTrue : Value → Bool
  | .nil | .bool false => false
  | _ => true

/-- Whether a value is nil. -/
def isNil : Value → Bool
  | .nil => true
  | _ => false

/-- The name of the type of a value. -/
def typeName : Value → String
  | .nil => "nil"
  | .bool _ => "boolean"
  | .int _ | .float _ | .nan _ => "number"
  | .string _ => "string"
  | .table _ => "table"
  | .closure _ | .builtin _ | .native _ => "function"
  | .thread _ => "thread"
  | .object _ | .mark _ => "userdata"

/-- Equality without metamethods: numbers by value, references by identity. -/
def rawEquals : Value → Value → Bool
  | .nil, .nil => true
  | .bool a, .bool b => a == b
  | .int a, .int b => a == b
  | .float a, .float b => a == b
  | .int a, .float b => intEqualsFloat a b
  | .float a, .int b => intEqualsFloat b a
  | .string a, .string b => a == b
  | .table a, .table b => a == b
  | .closure a, .closure b => a == b
  | .builtin a, .builtin b => a == b
  | .native a, .native b => a == b
  | .thread a, .thread b => a == b
  | .object a, .object b => a == b
  | .mark a, .mark b => a == b
  | _, _ => false
where
  /-- Exact comparison: a double equals the integer it is. -/
  intEqualsFloat (n : Int64) (x : Float) : Bool :=
    let m := x.toInt64
    m == n && Number.ofWord m == x && x < 9223372036854775808.0

end Value

/-- The integer that a double is, when it fits 64 bits. -/
def floatToInt? (x : Float) : Option Int64 :=
  match (Number.Binary.ofFloat x).toInt? with
  | some n => if Int64.minValue.toInt ≤ n ∧ n ≤ Int64.maxValue.toInt then some (.ofInt n) else none
  | none => none

local instance : DecidableEq Bytes := ByteArray.instDecidableEq

/-- A key of a table: never nil or NaN, and a number that is an integer is the integer. -/
inductive Key
  | bool (b : Bool)
  | int (n : Int64)
  | float (bits : UInt64)
  | string (s : Bytes)
  | table (id : Nat)
  | closure (id : Nat)
  | builtin (b : Builtin)
  | native (id : Nat)
  | thread (id : Nat)
  | object (id : Nat)
  | mark (n : Nat)
  deriving DecidableEq, Hashable

/-- Why a value cannot be a key. -/
inductive KeyError
  | nil
  | nan

namespace Key

/-- The key of a value. -/
def ofValue : Value → Except KeyError Key
  | .nil => .error .nil
  | .bool b => .ok (.bool b)
  | .int n => .ok (.int n)
  | .float x =>
    match floatToInt? x with
    | some n => .ok (.int n)
    | none => .ok (.float x.toBits)
  | .nan _ => .error .nan
  | .string s => .ok (.string s)
  | .table id => .ok (.table id)
  | .closure id => .ok (.closure id)
  | .builtin b => .ok (.builtin b)
  | .native id => .ok (.native id)
  | .thread id => .ok (.thread id)
  | .object id => .ok (.object id)
  | .mark n => .ok (.mark n)

/-- The value of a key. -/
def toValue : Key → Value
  | .bool b => .bool b
  | .int n => .int n
  | .float bits => .float (Float.ofBits bits)
  | .string s => .string s
  | .table id => .table id
  | .closure id => .closure id
  | .builtin b => .builtin b
  | .native id => .native id
  | .thread id => .thread id
  | .object id => .object id
  | .mark n => .mark n

end Key

end OscHost.Script
