import OscHost.Script.Library.CodePoints
import OscHost.Script.Library.Coroutines
import OscHost.Script.Library.Files
import OscHost.Script.Library.Formats
import OscHost.Script.Library.HostApi
import OscHost.Script.Library.Inspection
import OscHost.Script.Library.Mathematics
import OscHost.Script.Library.Modules
import OscHost.Script.Library.Packing
import OscHost.Script.Library.Strings
import OscHost.Script.Library.System
import OscHost.Script.Library.Tables
/-!
  The library of the script language.

  `invoke` says what each library function does.  Nothing else in the language runs code that is not
  a script's, so a property of all library functions is a property of `invoke`.
-/

namespace OscHost.Script.Library

open Lib

/-- Runs a library function without a state. -/
def callBuiltin (b : Builtin) (args : Args) : Lib (List Value) :=
  match b with
  | .assert => Base.assert args
  | .collectgarbage => Base.collectgarbage args
  | .dofile => Base.dofile args
  | .error => Base.error args
  | .getmetatable => Base.getmetatable args
  | .ipairs => Base.ipairs args
  | .ipairsNext => Base.ipairsNext args
  | .load => Base.load args
  | .loadfile => Base.loadfile args
  | .next => Base.next args
  | .pairs => Base.pairs args
  | .pcall => Base.pcall args
  | .print => Base.print args
  | .rawequal => Base.rawequal args
  | .rawget => Base.rawget args
  | .rawlen => Base.rawlen args
  | .rawset => Base.rawset args
  | .require => Modules.require args
  | .select => Base.select args
  | .setmetatable => Base.setmetatable args
  | .sleep => HostApi.sleep args
  | .tonumber => Base.tonumber args
  | .tostring => Base.tostring args
  | .type => Base.type args
  | .warn => Base.warn args
  | .xpcall => Base.xpcall args
  | .coClose => Coroutines.coClose args
  | .coCreate => Coroutines.coCreate args
  | .coIsYieldable => Coroutines.coIsYieldable args
  | .coResume => Coroutines.coResume args
  | .coRunning => Coroutines.coRunning
  | .coStatus => Coroutines.coStatus args
  | .coWrap => Coroutines.coWrap args
  | .coYield => Coroutines.coYield args
  | .strByte => Strings.strByte args
  | .strChar => Strings.strChar args
  | .strDump => Strings.strDump args
  | .strFind => Strings.strFind args
  | .strFormat => Formats.strFormat args
  | .strGmatch => Strings.strGmatch args
  | .strGsub => Strings.strGsub args
  | .strLen => Strings.strLen args
  | .strLower => Strings.strLower args
  | .strMatch => Strings.strMatch args
  | .strPack => Packing.strPack args
  | .strPackSize => Packing.strPackSize args
  | .strRep => Strings.strRep args
  | .strReverse => Strings.strReverse args
  | .strSub => Strings.strSub args
  | .strUnpack => Packing.strUnpack args
  | .strUpper => Strings.strUpper args
  | .strArith event => Strings.strArith event args
  | .tabConcat => Tables.tabConcat args
  | .tabInsert => Tables.tabInsert args
  | .tabMove => Tables.tabMove args
  | .tabPack => Tables.tabPack args
  | .tabRemove => Tables.tabRemove args
  | .tabSort => Tables.tabSort args
  | .tabUnpack => Tables.tabUnpack args
  | .mathAbs => Mathematics.mathAbs args
  | .mathAcos => Mathematics.onFloat Float.acos args
  | .mathAsin => Mathematics.onFloat Float.asin args
  | .mathAtan => Mathematics.mathAtan args
  | .mathCeil => Mathematics.rounded Float.ceil args
  | .mathCos => Mathematics.onFloat Float.cos args
  | .mathDeg => Mathematics.onFloat (· * (180.0 / Mathematics.pi)) args
  | .mathExp => Mathematics.onFloat Float.exp args
  | .mathFloor => Mathematics.rounded Float.floor args
  | .mathFmod => Mathematics.mathFmod args
  | .mathLog => Mathematics.mathLog args
  | .mathMax => Mathematics.mathMax args
  | .mathMin => Mathematics.mathMin args
  | .mathModf => Mathematics.mathModf args
  | .mathRad => Mathematics.onFloat (· * (Mathematics.pi / 180.0)) args
  | .mathRandom => Mathematics.mathRandom args
  | .mathRandomseed => return [.int 0, .int 0]
  | .mathSin => Mathematics.onFloat Float.sin args
  | .mathSqrt => Mathematics.onFloat Float.sqrt args
  | .mathTan => Mathematics.onFloat Float.tan args
  | .mathTointeger => Mathematics.mathTointeger args
  | .mathType => Mathematics.mathType args
  | .mathUlt => Mathematics.mathUlt args
  | .utfChar => CodePoints.utfChar args
  | .utfCodepoint => CodePoints.utfCodepoint args
  | .utfCodes => CodePoints.utfCodes args
  | .utfCodesNext lax => CodePoints.utfCodesNext lax args
  | .utfLen => CodePoints.utfLen args
  | .utfOffset => CodePoints.utfOffset args
  | .ioClose => Files.ioClose args
  | .ioFlush => Files.ioFlush
  | .ioInput => Files.ioInput args
  | .ioLines => Files.ioLines args
  | .ioList => Files.ioList args
  | .ioOpen => Files.ioOpen args
  | .ioOutput => Files.ioOutput args
  | .ioPopen => Files.ioPopen args
  | .ioRead => Files.ioRead args
  | .ioTmpfile => Files.ioTmpfile
  | .ioType => Files.ioType args
  | .ioWrite => Files.ioWrite args
  | .fileClose => Files.fileClose args
  | .fileFlush => Files.fileFlush args
  | .fileLines => Files.fileLines args
  | .fileRead => Files.fileRead args
  | .fileSeek => Files.fileSeek args
  | .fileSetvbuf => Files.fileSetvbuf args
  | .fileWrite => Files.fileWrite args
  | .fileToString => Files.fileToString args
  | .fileGc => Files.fileGc args
  | .osClock => System.osClock
  | .osDate => System.osDate args
  | .osDifftime => System.osDifftime args
  | .osExecute => System.osExecute args
  | .osExit => System.callDenied "host termination"
  | .osGetenv => System.osGetenv args
  | .osRemove => Files.osRemove args
  | .osRename => Files.osRename args
  | .osSetlocale => System.osSetlocale args
  | .osTime => System.osTime args
  | .osTmpname => System.osTmpname
  | .loadlib => Modules.loadlib args
  | .searchpath => Modules.searchpath args
  | .searchPreload => Modules.searchPreload args
  | .searchScript => Modules.searchScript args
  | .searchForeign whole => Modules.searchForeign whole args
  | .debugGetinfo => Inspection.getinfo args
  | .debugGetlocal => Inspection.getlocal args
  | .debugGetmetatable => Inspection.getmetatable args
  | .debugGethook => return [.nil]
  | .debugGetregistry => Inspection.getregistry
  | .debugGetupvalue => Inspection.getupvalue args
  | .debugGetuservalue => return [.nil]
  | .debugSethook => return []
  | .debugSetlocal => Inspection.setlocal args
  | .debugSetmetatable => Inspection.setmetatable args
  | .debugSetupvalue => Inspection.setupvalue args
  | .debugSetuservalue => return [.nil]
  | .debugTraceback => Inspection.traceback args
  | .debugUpvalueid => Inspection.upvalueid args
  | .debugUpvaluejoin => Inspection.upvaluejoin args
  | .debugDebug => return []
  | .debugSetcstacklimit => return [.int 200]
  | .oscSend => HostApi.oscSend args
  | .menuUpdate => HostApi.menuUpdate
  | .menuOnclick => HostApi.menuOnclick args
  | .jsonRead => HostApi.jsonRead args
  | .jsonWrite => HostApi.jsonWrite args
  | .jsonEncode => HostApi.jsonEncode args
  | .jsonDecode => HostApi.jsonDecode args
  | .errorText => HostApi.errorText args
  | .idle => return []

/-- Runs a library function with a state. -/
def callNative (id : Nat) (n : Native) (args : Args) : Lib (List Value) :=
  match n with
  | .wrapped thread => Coroutines.callWrapped thread args
  | .matcher source pattern start last => Strings.callMatcher id source pattern start last
  | .reader file formats closes => Files.callReader file formats closes
  | .denied capability => System.callDenied capability
  | .view role table name => Modules.callView role table name args

/-- Runs a library function. -/
def invoke (f : Value) (args : Args) : Lib (List Value) :=
  match f with
  | .builtin b => callBuiltin b args
  | .native id => do
    match ← read fun h => h.natives[id]? with
    | some n => callNative id n args
    | none => return []
  | _ => return []

end OscHost.Script.Library
