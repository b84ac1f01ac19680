import OscHost.Host
import OscHost.Script.Library
/-!
  What scripts find when they start.

  The names that a script can reach depend on the policy alone.  A capability whose flag is off is
  still there by name, but the function behind the name only refuses; the library for inspection is
  missing altogether.
-/

namespace OscHost.Sandbox

open Script

/-- Functions by name. -/
abbrev Functions := List (String × Builtin)

/-- The functions without a table of their own. -/
def baseFunctions : Functions :=
  [("assert", .assert), ("collectgarbage", .collectgarbage), ("dofile", .dofile),
    ("error", .error), ("getmetatable", .getmetatable), ("ipairs", .ipairs), ("load", .load),
    ("loadfile", .loadfile), ("next", .next), ("pairs", .pairs), ("pcall", .pcall),
    ("print", .print), ("rawequal", .rawequal), ("rawget", .rawget), ("rawlen", .rawlen),
    ("rawset", .rawset), ("require", .require), ("select", .select),
    ("setmetatable", .setmetatable), ("sleep", .sleep), ("tonumber", .tonumber),
    ("tostring", .tostring), ("type", .type), ("warn", .warn), ("xpcall", .xpcall)]

/-- The functions on coroutines. -/
def coroutineFunctions : Functions :=
  [("close", .coClose), ("create", .coCreate), ("isyieldable", .coIsYieldable),
    ("resume", .coResume), ("running", .coRunning), ("status", .coStatus), ("wrap", .coWrap),
    ("yield", .coYield)]

/-- The functions on texts. -/
def stringFunctions : Functions :=
  [("byte", .strByte), ("char", .strChar), ("dump", .strDump), ("find", .strFind),
    ("format", .strFormat), ("gmatch", .strGmatch), ("gsub", .strGsub), ("len", .strLen),
    ("lower", .strLower), ("match", .strMatch), ("pack", .strPack), ("packsize", .strPackSize),
    ("rep", .strRep), ("reverse", .strReverse), ("sub", .strSub), ("unpack", .strUnpack),
    ("upper", .strUpper)]

/-- The arithmetic events of texts that write numbers. -/
def stringEvents : List String :=
  ["__add", "__sub", "__mul", "__mod", "__pow", "__div", "__idiv", "__unm"]

/-- The functions on tables. -/
def tableFunctions : Functions :=
  [("concat", .tabConcat), ("insert", .tabInsert), ("move", .tabMove), ("pack", .tabPack),
    ("remove", .tabRemove), ("sort", .tabSort), ("unpack", .tabUnpack)]

/-- The functions on numbers. -/
def mathFunctions : Functions :=
  [("abs", .mathAbs), ("acos", .mathAcos), ("asin", .mathAsin), ("atan", .mathAtan),
    ("ceil", .mathCeil), ("cos", .mathCos), ("deg", .mathDeg), ("exp", .mathExp),
    ("floor", .mathFloor), ("fmod", .mathFmod), ("log", .mathLog), ("max", .mathMax),
    ("min", .mathMin), ("modf", .mathModf), ("rad", .mathRad), ("random", .mathRandom),
    ("randomseed", .mathRandomseed), ("sin", .mathSin), ("sqrt", .mathSqrt), ("tan", .mathTan),
    ("tointeger", .mathTointeger), ("type", .mathType), ("ult", .mathUlt)]

/-- The numbers beside the functions on numbers. -/
def mathConstants : List (String × Value) :=
  [("pi", .float Library.Mathematics.pi), ("huge", .float (1.0 / 0.0)),
    ("maxinteger", .int Int64.maxValue), ("mininteger", .int Int64.minValue)]

/-- The functions on code points. -/
def codePointFunctions : Functions :=
  [("char", .utfChar), ("codepoint", .utfCodepoint), ("codes", .utfCodes), ("len", .utfLen),
    ("offset", .utfOffset)]

/-- The pattern that matches one code point. -/
def codePointPattern : Bytes :=
  "[\x00-\x7F".toUTF8 ++ ⟨#[0xC2, 45, 0xFD]⟩ ++ "][".toUTF8 ++ ⟨#[0x80, 45, 0xBF]⟩ ++ "]*".toUTF8

/-- The functions on files, up to `popen` in the order of their names. -/
def fileFunctions : Functions :=
  [("close", .ioClose), ("flush", .ioFlush), ("input", .ioInput), ("lines", .ioLines),
    ("list", .ioList), ("open", .ioOpen), ("output", .ioOutput)]

/-- The functions on files after `popen`. -/
def laterFileFunctions : Functions :=
  [("read", .ioRead), ("tmpfile", .ioTmpfile), ("type", .ioType), ("write", .ioWrite)]

/-- The methods of open files. -/
def fileMethods : Functions :=
  [("close", .fileClose), ("flush", .fileFlush), ("lines", .fileLines), ("read", .fileRead),
    ("seek", .fileSeek), ("setvbuf", .fileSetvbuf), ("write", .fileWrite)]

/-- How open files behave. -/
def fileEvents : Functions :=
  [("__gc", .fileGc), ("__close", .fileGc), ("__tostring", .fileToString)]

/-- The functions on the system, up to `execute` in the order of their names. -/
def systemFunctions : Functions :=
  [("clock", .osClock), ("date", .osDate), ("difftime", .osDifftime)]

/-- The functions on the system between `exit` and `tmpname`. -/
def laterSystemFunctions : Functions :=
  [("getenv", .osGetenv), ("remove", .osRemove), ("rename", .osRename),
    ("setlocale", .osSetlocale), ("time", .osTime)]

/-- The functions for inspection. -/
def debugFunctions : Functions :=
  [("debug", .debugDebug), ("gethook", .debugGethook), ("getinfo", .debugGetinfo),
    ("getlocal", .debugGetlocal), ("getmetatable", .debugGetmetatable),
    ("getregistry", .debugGetregistry), ("getupvalue", .debugGetupvalue),
    ("getuservalue", .debugGetuservalue), ("sethook", .debugSethook),
    ("setlocal", .debugSetlocal), ("setmetatable", .debugSetmetatable),
    ("setupvalue", .debugSetupvalue), ("setuservalue", .debugSetuservalue),
    ("traceback", .debugTraceback), ("upvalueid", .debugUpvalueid),
    ("upvaluejoin", .debugUpvaluejoin), ("setcstacklimit", .debugSetcstacklimit)]

/-- The functions on JSON. -/
def jsonFunctions : Functions :=
  [("decode", .jsonDecode), ("encode", .jsonEncode), ("read", .jsonRead), ("write", .jsonWrite)]

/-- Where native modules are looked for when they are allowed. -/
def nativePath : String :=
  "/usr/local/lib/lua/5.4/?.so;/usr/local/lib/lua/5.4/loadall.so;./?.so"

/-- The signs that paths of modules are made of. -/
def pathSigns : String := "/\n;\n?\n!\n-\n"

/-! ## Places -/

/-- The tables that scripts start with, in the order in which they lie on the heap. -/
inductive Place
  | globals
  | loaded
  | string
  | stringMeta
  | failureMeta
  | preload
  | searchers
  | package
  | coroutine
  | fileMethods
  | fileMeta
  | io
  | math
  | os
  | table
  | utf8
  | osc
  | menu
  | json
  | debug
  deriving DecidableEq, Repr

namespace Place

/-- All places. -/
def all : List Place :=
  [globals, loaded, string, stringMeta, failureMeta, preload, searchers, package, coroutine,
    fileMethods, fileMeta, io, math, os, table, utf8, osc, menu, json, debug]

/-- Where a table lies. -/
def id (t : Place) : Nat := t.ctorIdx

end Place

/-- The place of the view of the table of modules, which comes right after all places and its own
    metatable. -/
def facade : Nat := Place.all.length + 1

/-- The functions that refuse a capability. -/
inductive Refusal
  | loadlib
  | popen
  | execute
  | tmpname
  | exit
  deriving DecidableEq, Repr

namespace Refusal

/-- All functions that refuse. -/
def all : List Refusal := [loadlib, popen, execute, tmpname, exit]

/-- What a function refuses. -/
def capability : Refusal → String
  | loadlib => "native library loading"
  | popen | execute => "process execution"
  | tmpname => "temporary files outside io_dir"
  | exit => "host termination"

/-- The function itself. -/
def value (r : Refusal) : Value := .native r.ctorIdx

end Refusal

/-- A function when it is allowed, else one that refuses. -/
def gated (allowed : Bool) (r : Refusal) (b : Builtin) : Value :=
  if allowed then .builtin b else r.value

/-- The places of the standard files among the objects. -/
def standardFiles : List (String × Nat) := [("stdin", Host.input), ("stdout", Host.output),
  ("stderr", Host.errorOutput)]

/-! ## Tables -/

/-- Functions as entries of a table. -/
def entries (fs : Functions) : List (String × Value) := fs.map fun f => (f.1, .builtin f.2)

/-- The table of some entries. -/
def tableOf (fields : List (String × Value)) : Table :=
  fields.foldl (fun t f => t.setText f.1 f.2) {}

/-- The libraries, by the names that they have both as modules and as globals. -/
def libraries (p : Policy) : List (String × Value) :=
  let places := [("_G", Place.globals), ("coroutine", .coroutine), ("io", .io), ("math", .math),
    ("os", .os), ("string", .string), ("table", .table), ("utf8", .utf8)]
  (if p.debug then places ++ [("debug", .debug)] else places).map fun f => (f.1, .table f.2.id)

/-- Those who look for modules, in the order in which they are asked. -/
def searchers (p : Policy) : List Value :=
  let own : List Builtin := [.searchPreload, .searchScript]
  let foreign : List Builtin := [.searchForeign true, .searchForeign false]
  (if p.foreignModules then own ++ foreign else own).map .builtin

/-- Where modules are looked for below the script root. -/
def modulePath (scriptRoot : String) : String :=
  ";".intercalate (Library.Modules.templates.map fun t => scriptRoot ++ "/" ++ t)

/-- The table that modules are found by. -/
def packageEntries (p : Policy) (scriptRoot : String) : List (String × Value) :=
  [("config", .text pathSigns), ("cpath", .text (if p.foreignModules then nativePath else "")),
    ("loaded", .table Place.loaded.id), ("loadlib", gated p.nativeLibraries .loadlib .loadlib),
    ("path", .text (modulePath scriptRoot)), ("preload", .table Place.preload.id),
    ("searchers", .table Place.searchers.id), ("searchpath", .builtin .searchpath)]

/-- What is in a table. -/
def contents (p : Policy) (scriptRoot : String) : Place → Table
  | .globals => tableOf (entries baseFunctions
      ++ [("package", .table facade), ("_VERSION", .text "Lua 5.4")] ++ libraries p
      ++ [("osc", .table Place.osc.id), ("menu", .table Place.menu.id),
        ("json", .table Place.json.id)])
  | .loaded => tableOf (("package", .table Place.package.id) :: libraries p)
  | .string => tableOf (entries stringFunctions)
  | .stringMeta => tableOf
      (("__index", .table Place.string.id) :: stringEvents.map fun e => (e, .builtin (.strArith e)))
  | .failureMeta => tableOf [("__tostring", .builtin .errorText), ("__metatable", .bool false)]
  | .preload => {}
  | .searchers => Table.ofList (searchers p)
  | .package => tableOf (packageEntries p scriptRoot)
  | .coroutine => tableOf (entries coroutineFunctions)
  | .fileMethods => tableOf (entries fileMethods)
  | .fileMeta => tableOf (entries fileEvents
      ++ [("__index", .table Place.fileMethods.id), ("__name", .text "FILE*")])
  | .io => tableOf (entries fileFunctions ++ [("popen", gated p.processes .popen .ioPopen)]
      ++ entries laterFileFunctions ++ standardFiles.map fun f => (f.1, .object f.2))
  | .math => tableOf (entries mathFunctions ++ mathConstants)
  | .os => tableOf (entries systemFunctions
      ++ [("execute", gated p.processes .execute .osExecute), ("exit", Refusal.exit.value)]
      ++ entries laterSystemFunctions
      ++ [("tmpname", gated p.unrestrictedFiles .tmpname .osTmpname)])
  | .table => tableOf (entries tableFunctions)
  | .utf8 => tableOf (entries codePointFunctions ++ [("charpattern", .string codePointPattern)])
  | .osc => tableOf [("send", .builtin .oscSend)]
  | .menu => tableOf [("update", .builtin .menuUpdate), ("onclick", .builtin .menuOnclick)]
  | .json => tableOf (entries jsonFunctions)
  | .debug => tableOf (if p.debug then entries debugFunctions else [])

/-! ## The heap -/

/-- The heap without the view of the table of modules. -/
def base (p : Policy) (scriptRoot : String) : Heap where
  tables := (Place.all.map (contents p scriptRoot)).toArray
  natives := (Refusal.all.map fun r => .denied r.capability).toArray
  objects := (standardFiles.map fun f => .file f.2).toArray
  roots :=
    { globals := Place.globals.id, loaded := Place.loaded.id, package := Place.package.id
      preload := Place.preload.id, stringMeta := Place.stringMeta.id
      fileMeta := Place.fileMeta.id, failureMeta := Place.failureMeta.id
      input := .object Host.input, output := .object Host.output }

/-- The heap in which scripts start. -/
def heap (p : Policy) (scriptRoot : String) : Heap :=
  (Library.Modules.view Place.package.id "package" (base p scriptRoot)).2

end OscHost.Sandbox
