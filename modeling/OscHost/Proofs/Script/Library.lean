import OscHost.Proofs.Script.Library.Coroutines
import OscHost.Proofs.Script.Library.HostApi
import OscHost.Proofs.Script.Library.Inspection
import OscHost.Proofs.Script.Library.Tables
import OscHost.Proofs.Script.Library.Texts
/-!
  All library functions that scripts may have are safe.

  The one exception is `require` in the presence of a vault: asked for the module `package` it
  hands out the table of modules itself, so it must not be called for this name.
-/

namespace OscHost.Script.Library

open Lib

variable {V : Ward} {a : Actor} {args : Args} {f : Value}

/-- What makes `require` the exception: the module that it is asked for. -/
def Wanted (V : Ward) (a : Actor) (f : Value) (args : Args) : Prop :=
  f = .builtin .require → ∀ w ∈ V, ∀ s, (args.get 1).asText? = some s → a.name = s ∧ w.asked s

theorem safe_callBuiltin {b : Builtin} (hb : V.withholds b = false) (ha : a.function = .builtin b)
    (hargs : CleanAll V args) (hw : Wanted V a (.builtin b) args) :
    (callBuiltin b args).Safe V a (CleanAll V) := by
  -- one case per function; those that are left are for trusted scripts alone
  cases b with
  | assert => exact Base.safe_assert hargs
  | collectgarbage => exact Base.safe_collectgarbage args
  | dofile => exact Base.safe_dofile hargs
  | error => exact Base.safe_error hargs
  | getmetatable => exact Base.safe_getmetatable hargs
  | ipairs => exact Base.safe_ipairs hargs
  | ipairsNext => exact Base.safe_ipairsNext hargs
  | load => exact Base.safe_load hargs
  | loadfile => exact Base.safe_loadfile hargs
  | next => exact Base.safe_next hargs
  | pairs => exact Base.safe_pairs hargs
  | pcall => exact Base.safe_pcall hargs
  | print => exact Base.safe_print hargs
  | rawequal => exact Base.safe_rawequal hargs
  | rawget => exact Base.safe_rawget hargs
  | rawlen => exact Base.safe_rawlen args
  | rawset => exact Base.safe_rawset hargs
  | require => exact Modules.safe_require ha (hw rfl)
  | select => exact Base.safe_select hargs
  | setmetatable => exact Base.safe_setmetatable hargs
  | sleep => exact HostApi.safe_sleep ha args
  | tonumber => exact Base.safe_tonumber hargs
  | tostring => exact Base.safe_tostring hargs
  | type => exact Base.safe_type hargs
  | warn => exact Base.safe_warn args
  | xpcall => exact Base.safe_xpcall hargs
  | coClose => exact Coroutines.safe_coClose args
  | coCreate => exact Coroutines.safe_coCreate hargs
  | coIsYieldable => exact Coroutines.safe_coIsYieldable args
  | coResume => exact Coroutines.safe_coResume hargs
  | coRunning => exact Coroutines.safe_coRunning
  | coStatus => exact Coroutines.safe_coStatus args
  | coWrap => exact Coroutines.safe_coWrap hargs
  | coYield => exact Coroutines.safe_coYield ha hargs
  | strByte => exact Strings.safe_strByte args
  | strChar => exact Strings.safe_strChar args
  | strDump => exact Strings.safe_strDump hargs
  | strFind => exact Strings.safe_strFind args
  | strFormat => exact Formats.safe_strFormat hargs
  | strGmatch => exact Strings.safe_strGmatch args
  | strGsub => exact Strings.safe_strGsub hargs
  | strLen => exact Strings.safe_strLen args
  | strLower => exact Strings.safe_strLower args
  | strMatch => exact Strings.safe_strMatch args
  | strPack => exact Packing.safe_strPack args
  | strPackSize => exact Packing.safe_strPackSize args
  | strRep => exact Strings.safe_strRep args
  | strReverse => exact Strings.safe_strReverse args
  | strSub => exact Strings.safe_strSub args
  | strUnpack => exact Packing.safe_strUnpack args
  | strUpper => exact Strings.safe_strUpper args
  | strArith event => exact Strings.safe_strArith _ hargs
  | tabConcat => exact Tables.safe_tabConcat hargs
  | tabInsert => exact Tables.safe_tabInsert hargs
  | tabMove => exact Tables.safe_tabMove hargs
  | tabPack => exact Tables.safe_tabPack hargs
  | tabRemove => exact Tables.safe_tabRemove hargs
  | tabSort => exact Tables.safe_tabSort hargs
  | tabUnpack => exact Tables.safe_tabUnpack hargs
  | mathAbs => exact Mathematics.safe_mathAbs args
  | mathAcos => exact Mathematics.safe_onFloat _ args
  | mathAsin => exact Mathematics.safe_onFloat _ args
  | mathAtan => exact Mathematics.safe_mathAtan args
  | mathCeil => exact Mathematics.safe_rounded _ args
  | mathCos => exact Mathematics.safe_onFloat _ args
  | mathDeg => exact Mathematics.safe_onFloat (· * (180.0 / Mathematics.pi)) args
  | mathExp => exact Mathematics.safe_onFloat _ args
  | mathFloor => exact Mathematics.safe_rounded _ args
  | mathFmod => exact Mathematics.safe_mathFmod args
  | mathLog => exact Mathematics.safe_mathLog args
  | mathMax => exact Mathematics.safe_mathMax args
  | mathMin => exact Mathematics.safe_mathMin args
  | mathModf => exact Mathematics.safe_mathModf args
  | mathRad => exact Mathematics.safe_onFloat (· * (Mathematics.pi / 180.0)) args
  | mathRandom => exact Mathematics.safe_mathRandom args
  | mathRandomseed => exact .pure (by simp)
  | mathSin => exact Mathematics.safe_onFloat _ args
  | mathSqrt => exact Mathematics.safe_onFloat _ args
  | mathTan => exact Mathematics.safe_onFloat _ args
  | mathTointeger => exact Mathematics.safe_mathTointeger hargs
  | mathType => exact Mathematics.safe_mathType hargs
  | mathUlt => exact Mathematics.safe_mathUlt args
  | utfChar => exact CodePoints.safe_utfChar args
  | utfCodepoint => exact CodePoints.safe_utfCodepoint args
  | utfCodes => exact CodePoints.safe_utfCodes args
  | utfCodesNext lax => exact CodePoints.safe_utfCodesNext _ args
  | utfLen => exact CodePoints.safe_utfLen args
  | utfOffset => exact CodePoints.safe_utfOffset args
  | ioClose => exact Files.safe_ioClose args
  | ioFlush => exact Files.safe_ioFlush
  | ioInput => exact Files.safe_ioInput hargs
  | ioLines => exact Files.safe_ioLines hargs
  | ioList => exact Files.safe_ioList args
  | ioOpen => exact Files.safe_ioOpen args
  | ioPopen => exact Files.safe_ioPopen (Ward.reachesOut_of_withholds hb) args
  | ioOutput => exact Files.safe_ioOutput hargs
  | ioRead => exact Files.safe_ioRead args
  | ioTmpfile => exact Files.safe_ioTmpfile ha
  | ioType => exact Files.safe_ioType hargs
  | ioWrite => exact Files.safe_ioWrite args
  | fileClose => exact Files.safe_fileClose args
  | fileFlush => exact Files.safe_fileFlush args
  | fileLines => exact Files.safe_fileLines hargs
  | fileRead => exact Files.safe_fileRead args
  | fileSeek => exact Files.safe_fileSeek args
  | fileSetvbuf => exact Files.safe_fileSetvbuf args
  | fileWrite => exact Files.safe_fileWrite hargs
  | fileToString => exact Files.safe_fileToString args
  | fileGc => exact Files.safe_fileGc args
  | osClock => exact System.safe_osClock
  | osExecute => exact System.safe_osExecute (Ward.reachesOut_of_withholds hb) args
  | osTmpname => exact System.safe_osTmpname (Ward.reachesOut_of_withholds hb)
  | osDate => exact System.safe_osDate args
  | osDifftime => exact System.safe_osDifftime args
  | osExit => exact System.safe_callDenied _
  | osGetenv => exact System.safe_osGetenv args
  | osRemove => exact Files.safe_osRemove args
  | osRename => exact Files.safe_osRename args
  | osSetlocale => exact System.safe_osSetlocale args
  | osTime => exact System.safe_osTime hargs
  | searchpath => exact Modules.safe_searchpath ha args
  | searchPreload => exact Modules.safe_searchPreload args
  | searchScript => exact Modules.safe_searchScript args
  | oscSend => exact HostApi.safe_oscSend args
  | menuUpdate => exact HostApi.safe_menuUpdate ha
  | menuOnclick => exact HostApi.safe_menuOnclick args
  | jsonRead => exact HostApi.safe_jsonRead args
  | jsonWrite => exact HostApi.safe_jsonWrite args
  | jsonEncode => exact HostApi.safe_jsonEncode args
  | jsonDecode => exact HostApi.safe_jsonDecode args
  | errorText => exact HostApi.safe_errorText args
  | idle => exact .pure (by simp)
  | _ =>
    obtain rfl := Ward.eq_trusted_of_withholds hb
    exact safe_withheld rfl args

theorem safe_callNative {id : Nat} {n : Native} (hn : n.Clean V) (hargs : CleanAll V args) :
    (callNative id n args).Safe V a (CleanAll V) := by
  cases n with
  | wrapped thread => exact Coroutines.safe_callWrapped thread hargs
  | matcher source pattern start last => exact Strings.safe_callMatcher ..
  | reader file formats closes => exact Files.safe_callReader ..
  | denied capability => exact System.safe_callDenied capability
  | view role table name => exact Modules.safe_callView role table name hargs

/-- Every function that a script may have is safe on arguments that it may have. -/
theorem safe_invoke (hf : f.Clean V) (ha : a.function = f) (hargs : CleanAll V args)
    (hw : Wanted V a f args) : (invoke f args).Safe V a (CleanAll V) := by
  cases f with
  | builtin b => exact safe_callBuiltin hf ha hargs hw
  | native id =>
    refine .bind (P := fun r => ∀ n ∈ r, n.Clean V) (safe_read fun h hg n hn => ?_) fun r hr => ?_
    · exact hg.natives n (Array.mem_of_getElem? hn)
    · split
      · exact safe_callNative (hr _ rfl) hargs
      · exact .pure (by simp)
  | _ => exact .pure (by simp)

end OscHost.Script.Library
