import OscHost.Proofs.Script.Library.Files
import OscHost.Proofs.Script.Library.Modules
import OscHost.Script.Library
/-!
  Functions that are for trusted scripts alone are safe where scripts are trusted.

  Nothing is kept back from such scripts, so what these functions hand out and change is of no concern.
  What is left to say is what they ask the host for: files on the search path of libraries, no more.
-/

namespace OscHost.Script.Library

open Lib

variable {a : Actor} {args : Args}

/-- Trusted scripts may have all values. -/
theorem cleanAll_trusted (vs : List Value) : CleanAll .trusted vs := fun v _ => v.clean_trusted

/-- Where scripts are trusted, a function may end with any values. -/
theorem safe_return (vs : List Value) : (return vs : Lib (List Value)).Safe .trusted a (CleanAll .trusted) :=
  .pure (cleanAll_trusted vs)

/-- Where scripts are trusted, the heap may be changed in any way. -/
theorem safe_change (f : Heap → Heap) : (modify f).Safe .trusted a fun _ => True :=
  safe_modify fun h _ => h.follows_trusted (f h)

theorem safe_allocate {α : Type} (f : Heap → α × Heap) : (update f).Safe .trusted a fun _ => True :=
  safe_update fun h _ => ⟨trivial, h.follows_trusted (f h).2⟩

theorem safe_look {α : Type} (f : Heap → α) : (read f).Safe .trusted a fun _ => True :=
  safe_read fun _ _ => trivial

theorem safe_function (args : Args) (n : Nat) : (functionArg args n).Safe .trusted a fun _ => True :=
  (safe_functionArg (cleanAll_trusted args) n).mono fun _ _ => trivial

theorem safe_any (args : Args) (n : Nat) : (anyArg args n).Safe .trusted a fun _ => True :=
  (safe_anyArg (cleanAll_trusted args) n).mono fun _ _ => trivial

/-! ## Native libraries -/

namespace Modules

theorem safe_libraryFailure (path : Bytes) : (libraryFailure path).Safe .trusted a fun _ => True :=
  .then (safe_ask (.inl rfl)) fun _ => .ite (fun _ => .pure trivial) fun _ => .pure trivial

theorem safe_loadlib (args : Args) : (loadlib args).Safe .trusted a (CleanAll .trusted) := by
  refine (safe_textArg args 1).then fun path => (safe_textArg args 2).then fun _ => ?_
  exact (safe_libraryFailure path).then fun _ => safe_return _

theorem safe_searchForeign (whole : Bool) (args : Args) :
    (searchForeign whole args).Safe .trusted a (CleanAll .trusted) := by
  refine (safe_textArg args 1).then fun name => .ite (fun _ => safe_return _) fun _ => ?_
  refine (safe_look _).then fun package => ?_
  refine (safe_index package.clean_trusted (Value.clean_text _)).bind fun cpath _ => ?_
  split
  · exact safe_raise _
  · refine (safe_firstReadable (.inl rfl) _).then fun found => ?_
    split
    · exact safe_return _
    · exact (safe_libraryFailure _).then fun _ => safe_raise _

end Modules

/-! ## Inspection of functions and values -/

namespace Inspection

theorem safe_getinfo (args : Args) : (getinfo args).Safe .trusted a (CleanAll .trusted) := by
  unfold getinfo
  refine (safe_textArg? (withoutThread args) 2).then fun letters => ?_
  extract_lets letters report level
  have hreport (l : Option Level) : (report l).Safe .trusted a (CleanAll .trusted) := by
    unfold report
    split
    · exact safe_return _
    · extract_lets fields
      have hfields (u : Unit) : (fields u).Safe .trusted a (CleanAll .trusted) := by
        refine (safe_look _).then fun p => ?_
        extract_lets table
        split
        · exact (safe_allocate _).then fun _ => (safe_allocate _).then fun _ => safe_return _
        · exact (safe_allocate _).then fun _ => safe_return _
      exact .ite (fun _ => (safe_badArgument ..).then hfields) fun _ => hfields ()
  clear_value report
  have hknown (l : Option Level) : (pure l >>= report).Safe .trusted a (CleanAll .trusted) :=
    .bind (P := fun _ => True) (.pure trivial) fun l _ => hreport l
  have hlevel (u : Unit) : (level u).Safe .trusted a (CleanAll .trusted) := by
    unfold level
    split
    · exact hknown _
    · exact hknown _
    · exact hknown _
    · refine (safe_intArg (withoutThread args) 1).then fun n => ?_
      exact .ite (fun _ => hknown _) fun _ => safe_site.then fun s => hknown _
  exact .ite (fun _ => (safe_badArgument ..).then hlevel) fun _ => hlevel ()

theorem safe_getlocal (args : Args) : (getlocal args).Safe .trusted a (CleanAll .trusted) := by
  refine (safe_intArg (withoutThread args) 2).then fun _ => ?_
  split
  · exact safe_return _
  · exact safe_return _
  · exact safe_return _
  · refine (safe_intArg (withoutThread args) 1).then fun n => safe_site.then fun s => ?_
    exact .ite (fun _ => safe_badArgument ..) fun _ => safe_return _

theorem safe_traceback (args : Args) : (traceback args).Safe .trusted a (CleanAll .trusted) := by
  unfold traceback
  extract_lets args
  split
  · exact safe_return _
  · split
    · exact safe_return _
    · exact safe_return _

theorem safe_getmetatable (args : Args) : (getmetatable args).Safe .trusted a (CleanAll .trusted) :=
  (safe_any args 1).then fun _ => (safe_look _).then fun _ => safe_return _

theorem safe_setmetatable (args : Args) : (setmetatable args).Safe .trusted a (CleanAll .trusted) := by
  unfold setmetatable
  extract_lets v finish ofStrings assign
  clear_value v
  have hassign (metatable : Option Nat) : (assign metatable).Safe .trusted a (CleanAll .trusted) := by
    unfold assign
    split
    · exact (safe_change _).then fun _ => safe_return _
    · split
      · exact .bind (P := fun _ => True) (.pure trivial) fun id _ =>
          (safe_change _).then fun _ => safe_return _
      · exact (safe_allocate _).then fun id => (safe_change _).then fun _ => safe_return _
    · exact safe_return _
    · exact (safe_change _).then fun _ => safe_return _
  clear_value assign
  have hgiven (metatable : Option Nat) : (pure metatable >>= assign).Safe .trusted a (CleanAll .trusted) :=
    .bind (P := fun _ => True) (.pure trivial) fun metatable _ => hassign metatable
  split
  · exact .ite (fun _ => hgiven none) fun _ => (safe_badType args 2 _).then hassign
  · exact hgiven _
  · exact (safe_badType args 2 _).then hassign

theorem safe_getregistry : getregistry.Safe .trusted a (CleanAll .trusted) :=
  (safe_look _).then fun _ => (safe_allocate _).then fun _ => safe_return _

theorem safe_getupvalue (args : Args) : (getupvalue args).Safe .trusted a (CleanAll .trusted) := by
  refine (safe_intArg args 2).then fun n => (safe_function args 1).then fun f => ?_
  refine (safe_look _).then fun found => ?_
  split
  · exact (safe_look _).then fun _ => safe_return _
  · exact safe_return _

theorem safe_setupvalue (args : Args) : (setupvalue args).Safe .trusted a (CleanAll .trusted) := by
  refine (safe_any args 3).then fun v => (safe_intArg args 2).then fun n => ?_
  refine (safe_function args 1).then fun f => (safe_look _).then fun found => ?_
  split
  · exact (safe_change _).then fun _ => safe_return _
  · exact safe_return _

theorem safe_upvalueid (args : Args) : (upvalueid args).Safe .trusted a (CleanAll .trusted) := by
  refine (safe_intArg args 2).then fun n => (safe_function args 1).then fun f => ?_
  refine (safe_look _).then fun found => ?_
  split
  · exact safe_return _
  · exact safe_return _

theorem safe_upvaluejoin (args : Args) : (upvaluejoin args).Safe .trusted a (CleanAll .trusted) := by
  refine (safe_intArg args 2).then fun n => (safe_function args 1).then fun f => ?_
  refine (safe_intArg args 4).then fun n' => (safe_function args 3).then fun f' => ?_
  refine (safe_look _).then fun found => (safe_look _).then fun found' => ?_
  split
  · exact (safe_change _).then fun _ => safe_return _
  · exact safe_badArgument ..
  · exact safe_badArgument ..

end Inspection

/-! ## All of them -/

/-- What trusted scripts have beyond all others is safe for them. -/
theorem safe_withheld {b : Builtin} (hb : b.isWithheld) (args : Args) :
    (callBuiltin b args).Safe .trusted a (CleanAll .trusted) := by
  cases b with
  | ioPopen => exact Files.safe_ioPopen rfl args
  | osExecute => exact System.safe_osExecute rfl args
  | osTmpname => exact System.safe_osTmpname rfl
  | loadlib => exact Modules.safe_loadlib args
  | searchForeign whole => exact Modules.safe_searchForeign whole args
  | debugGetinfo => exact Inspection.safe_getinfo args
  | debugGetlocal => exact Inspection.safe_getlocal args
  | debugSetlocal => exact Inspection.safe_getlocal args
  | debugGetmetatable => exact Inspection.safe_getmetatable args
  | debugSetmetatable => exact Inspection.safe_setmetatable args
  | debugGetregistry => exact Inspection.safe_getregistry
  | debugGetupvalue => exact Inspection.safe_getupvalue args
  | debugSetupvalue => exact Inspection.safe_setupvalue args
  | debugUpvalueid => exact Inspection.safe_upvalueid args
  | debugUpvaluejoin => exact Inspection.safe_upvaluejoin args
  | debugTraceback => exact Inspection.safe_traceback args
  | debugGethook | debugSethook | debugGetuservalue | debugSetuservalue | debugDebug
  | debugSetcstacklimit => exact safe_return _
  | _ => cases hb

end OscHost.Script.Library
