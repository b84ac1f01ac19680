import OscHost.Proofs.Script.Library.Base
import OscHost.Script.Library.Files
import OscHost.Script.Library.System
/-!
  Functions on files and on the system are safe.

  Files are objects, and the host is asked for what happens to them.  Only `tmpfile` asks for a
  file that has no path.
-/

namespace OscHost.Script.Library

open Lib

variable {V : Ward} {a : Actor} {α : Type} {args : Args}

/-! ## Files -/

namespace Files

open OscHost.Files

theorem safe_guarded {answer : Guarded α} {go : String → α → Lib (List Value)}
    (hg : ∀ path r, (go path r).Safe V a (CleanAll V)) :
    (guarded answer go).Safe V a (CleanAll V) := by
  unfold guarded
  split
  · exact .pure (by simp)
  · exact safe_failHost _
  · exact Base.safe_calledFrom _ _ (hg _ _)

theorem cleanAll_failure (what : Option String) (e : FileError) :
    CleanAll V (failure what e) := by
  simp [failure]

theorem cleanAll_outcome (what : Option String) (r : Except FileError Unit) :
    CleanAll V (outcome what r) := by
  unfold outcome
  split
  · simp
  · exact cleanAll_failure _ _

theorem safe_newFile (file : Nat) : (newFile file).Safe V a (Value.Clean V) :=
  .then (safe_update fun _ hg => ⟨trivial, hg.newObject _⟩) fun _ => .pure trivial

theorem safe_ioOpen (args : Args) : (ioOpen args).Safe V a (CleanAll V) := by
  refine .then (safe_ask trivial) fun answer => safe_guarded fun path r => ?_
  refine (safe_textArg? args 2).then fun _ => ?_
  split
  · exact safe_badArgument ..
  · exact .pure (cleanAll_failure _ _)
  · exact (safe_newFile _).bind fun v hv => .pure (by simp [hv])

theorem safe_openOrComplain (path : String) (r : Opening) :
    (openOrComplain path r).Safe V a (Value.Clean V) := by
  unfold openOrComplain
  split
  · exact safe_newFile _
  · exact safe_raise _
  · exact safe_badArgument ..

/-! ### Open files -/

theorem safe_anyFileArg (args : Args) (n : Nat) : (anyFileArg args n).Safe V a fun _ => True := by
  refine .then (safe_read fun _ _ => trivial) fun file => ?_
  split
  · exact .pure trivial
  · exact safe_badType ..

theorem safe_fileArg (args : Args) (n : Nat) : (fileArg args n).Safe V a fun _ => True := by
  refine (safe_anyFileArg args n).then fun file => .then (safe_ask trivial) fun isOpen => ?_
  exact .ite (fun _ => .pure trivial) fun _ => safe_raise _

theorem safe_defaultFile (isInput : Bool) :
    (defaultFile isInput).Safe V a fun r => r.1.Clean V := by
  refine .bind (P := Value.Clean V) (safe_read fun h hg => ?_) fun v hv => ?_
  · split
    · exact hg.roots.input
    · exact hg.roots.output
  · refine .then (safe_read fun _ _ => trivial) fun file => ?_
    split
    · exact safe_raise _
    · refine .then (safe_ask trivial) fun isOpen => ?_
      exact .ite (fun _ => .pure hv) fun _ => safe_raise _

theorem clean_numeralOf (s : Bytes) : (numeralOf s).Clean V :=
  clean_getD fun _ h => clean_ofNumeral h

theorem safe_readOne (file : Nat) (format : ReadFormat) :
    (readOne file format).Safe V a fun r => ∀ v, r = .ok (some v) → v.Clean V := by
  refine .then (safe_ask trivial) fun answer => ?_
  split
  · exact .pure fun _ h => nomatch h
  · exact .pure fun _ h => nomatch h
  · rename_i s
    split
    · have hn := clean_numeralOf (V := V) s
      split
      · exact .pure fun _ h => nomatch h
      · exact .pure fun _ h => by cases h; exact hn
    · exact .pure fun _ h => by cases h; trivial

theorem safe_formatArg (args : Args) (n : Nat) : (formatArg args n).Safe V a fun _ => True := by
  unfold formatArg
  split
  case h_1 | h_2 | h_3 => exact (safe_intArg args n).then fun _ => .pure trivial
  case h_4 =>
    refine (safe_textArg args n).then fun s => ?_
    extract_lets s
    split
    case h_5 => exact safe_badArgument ..
    all_goals exact .pure trivial

theorem safe_readFrom (file : Nat) (args : Args) (n count : Nat) {acc : List Value}
    (hacc : CleanAll V acc) : (readFrom file args n count acc).Safe V a (CleanAll V) := by
  induction count generalizing n acc with
  | zero => exact .pure (cleanAll_reverse.mpr hacc)
  | succ count ih =>
    refine (safe_formatArg args n).then fun format => (safe_readOne file format).bind fun r hr => ?_
    split
    · exact .pure (cleanAll_failure _ _)
    · exact .pure (by simp [hacc])
    · exact ih _ (by simp [hacc, hr _ rfl])

theorem safe_readAll (file : Nat) (args : Args) (n : Nat) :
    (readAll file args n).Safe V a (CleanAll V) := by
  refine .ite (fun _ => ?_) fun _ => safe_readFrom _ _ _ _ cleanAll_nil
  refine (safe_readOne file _).bind fun r hr => ?_
  split
  · exact .pure (cleanAll_failure _ _)
  · exact .pure (by simp [clean_getD fun v hv => hr v (congrArg _ hv)])

theorem safe_writtenArg (args : Args) (n : Nat) : (writtenArg args n).Safe V a fun _ => True := by
  unfold writtenArg
  split
  · exact .pure trivial
  · exact safe_textArg args n

theorem safe_writeFrom (file : Nat) (args : Args) (n count : Nat) :
    (writeFrom file args n count).Safe V a fun _ => True := by
  induction count generalizing n with
  | zero => exact .pure trivial
  | succ count ih =>
    refine (safe_writtenArg args n).then fun s => .then (safe_ask trivial) fun r => ?_
    split
    · exact .pure trivial
    · exact ih _

theorem safe_writeAll {v : Value} (hv : v.Clean V) (file : Nat) (args : Args) (n : Nat) :
    (writeAll v file args n).Safe V a (CleanAll V) := by
  refine (safe_writeFrom ..).then fun r => ?_
  split
  · exact .pure (by simp [hv])
  · exact .pure (cleanAll_failure _ _)

theorem safe_closeFile (file : Nat) : (closeFile file).Safe V a (CleanAll V) := by
  refine .then (safe_ask trivial) fun r => ?_
  split
  · exact .pure (by simp)
  · refine .pure ?_
    split <;> simp
  · exact .pure (by simp)

theorem safe_newReader {file : Value} {formats : List Value} (hf : file.Clean V)
    (hs : CleanAll V formats) (closes : Bool) :
    (newReader file formats closes).Safe V a (Value.Clean V) :=
  .ite (fun _ => safe_badArgument ..) fun _ =>
    .then (safe_update fun _ hg => ⟨trivial, hg.newNative ⟨hf, hs⟩⟩) fun _ => .pure trivial

theorem safe_callReader (v : Value) (formats : List Value) (closes : Bool) :
    (callReader v formats closes).Safe V a (CleanAll V) := by
  refine .then (safe_read fun _ _ => trivial) fun file => ?_
  split
  · exact .pure cleanAll_nil
  · refine .then (safe_ask trivial) fun isOpen => .ite (fun _ => safe_raise _) fun _ => ?_
    refine (safe_readAll ..).bind fun values hv => .ite (fun _ => .pure hv) fun _ => ?_
    split
    · exact safe_raise _
    · refine .ite (fun _ => ?_) fun _ => .pure cleanAll_nil
      exact (safe_closeFile _).discard.then fun _ => .pure cleanAll_nil

theorem safe_fileClose (args : Args) : (fileClose args).Safe V a (CleanAll V) :=
  (safe_fileArg args 1).then fun file => safe_closeFile file

theorem safe_fileGc (args : Args) : (fileGc args).Safe V a (CleanAll V) := by
  refine (safe_anyFileArg args 1).then fun file => .then (safe_ask trivial) fun isOpen => ?_
  refine .ite (fun _ => ?_) fun _ => .pure cleanAll_nil
  exact (safe_closeFile _).discard.then fun _ => .pure cleanAll_nil

theorem safe_fileFlush (args : Args) : (fileFlush args).Safe V a (CleanAll V) :=
  (safe_fileArg args 1).then fun _ => .then (safe_ask trivial) fun _ => .pure (cleanAll_outcome _ _)

theorem safe_fileLines (ha : CleanAll V args) : (fileLines args).Safe V a (CleanAll V) :=
  (safe_fileArg args 1).then fun _ =>
    (safe_newReader (clean_get ha 1) (ha.drop 1) false).bind fun _ hv => .pure (by simp [hv])

theorem safe_fileRead (args : Args) : (fileRead args).Safe V a (CleanAll V) :=
  (safe_fileArg args 1).then fun file => safe_readAll file args 2

theorem safe_fileWrite (ha : CleanAll V args) : (fileWrite args).Safe V a (CleanAll V) :=
  (safe_fileArg args 1).then fun file => safe_writeAll (clean_get ha 1) file args 2

theorem safe_fileSeek (args : Args) : (fileSeek args).Safe V a (CleanAll V) := by
  refine (safe_fileArg args 1).then fun file => (safe_optionArg args 2 _ _).then fun whence => ?_
  refine (safe_intArgOr args 3 0).then fun offset => .then (safe_ask trivial) fun r => ?_
  split
  · exact .pure (by simp)
  · exact .pure (cleanAll_failure _ _)

theorem safe_fileSetvbuf (args : Args) : (fileSetvbuf args).Safe V a (CleanAll V) :=
  (safe_fileArg args 1).then fun _ => (safe_optionArg args 2 _ _).then fun _ =>
    (safe_intArgOr args 3 0).then fun _ => .pure (by simp)

theorem safe_fileToString (args : Args) : (fileToString args).Safe V a (CleanAll V) := by
  refine (safe_anyFileArg args 1).then fun file => .then (safe_ask trivial) fun isOpen => ?_
  exact .ite (fun _ => .pure (by simp)) fun _ => .pure (by simp)

/-! ### The library table -/

theorem safe_ioClose (args : Args) : (ioClose args).Safe V a (CleanAll V) := by
  refine .ite (fun _ => ?_) fun _ => (safe_fileArg args 1).then safe_closeFile
  exact .then (safe_read fun _ _ => trivial) fun v => (safe_fileArg [v] 1).then safe_closeFile

theorem safe_ioFlush : ioFlush.Safe V a (CleanAll V) :=
  (safe_defaultFile false).bind fun (_, _) _ => .then (safe_ask trivial) fun _ =>
    .pure (cleanAll_outcome _ _)

theorem safe_ioRead (args : Args) : (ioRead args).Safe V a (CleanAll V) :=
  (safe_defaultFile true).bind fun (_, file) _ => safe_readAll file args 1

theorem safe_ioWrite (args : Args) : (ioWrite args).Safe V a (CleanAll V) :=
  (safe_defaultFile false).bind fun (_, file) hv => safe_writeAll hv file args 1

theorem safe_ioType (ha : CleanAll V args) : (ioType args).Safe V a (CleanAll V) := by
  refine (safe_anyArg ha 1).bind fun v _ => .then (safe_read fun _ _ => trivial) fun file => ?_
  split
  · exact .pure (by simp)
  · exact .then (safe_ask trivial) fun _ => .pure (by simp)

theorem safe_selectFile (isInput : Bool) (ha : CleanAll V args) :
    (selectFile isInput args).Safe V a (CleanAll V) := by
  unfold selectFile
  extract_lets set
  have hset : ∀ v, v.Clean V → (set v).Safe V a (CleanAll V) := by
    intro v hv
    refine .then (safe_modify fun h hg => ?_) fun _ => .pure (by simp [hv])
    split
    · exact hg.withFiles hv hg.roots.output
    · exact hg.withFiles hg.roots.input hv
  clear_value set
  split
  · refine .bind (P := Value.Clean V) (safe_read fun h hg => ?_) fun v hv => .pure (by simp [hv])
    split
    · exact hg.roots.input
    · exact hg.roots.output
  · refine .ite (fun _ => Base.safe_calledFrom _ _ ?_) fun _ => ?_
    · exact (safe_fileArg args 1).then fun _ => hset _ (clean_get ha 1)
    · exact .then (safe_ask trivial) fun answer => safe_guarded fun path r =>
        (safe_openOrComplain path r).bind hset

theorem safe_ioInput (ha : CleanAll V args) : (ioInput args).Safe V a (CleanAll V) :=
  safe_selectFile true ha

theorem safe_ioOutput (ha : CleanAll V args) : (ioOutput args).Safe V a (CleanAll V) :=
  safe_selectFile false ha

theorem safe_ioLines (ha : CleanAll V args) : (ioLines args).Safe V a (CleanAll V) := by
  unfold ioLines
  split
  · refine Base.safe_calledFrom _ _ ((safe_defaultFile true).bind fun r hv => ?_)
    exact (safe_newReader hv (ha.drop 1) false).bind fun _ hr => .pure (by simp [hr])
  · refine .ite (fun _ => Base.safe_calledFrom _ _ ?_) fun _ => ?_
    · exact (safe_textArg args 1).then fun _ => .pure cleanAll_nil
    · refine .then (safe_ask trivial) fun answer => safe_guarded fun path r => ?_
      refine (safe_openOrComplain path r).bind fun file hf => ?_
      exact (safe_newReader hf (ha.drop 1) true).bind fun _ hr => .pure (by simp [hr, hf])

theorem cleanAll_texts (names : List String) : CleanAll V (names.map Value.text) := by
  simp [CleanAll]

theorem safe_ioList (args : Args) : (ioList args).Safe V a (CleanAll V) := by
  refine (safe_hostText? args 1).then fun path => .then (safe_ask trivial) fun r => ?_
  split
  · refine (safe_newTable (Table.each_ofList (fun _ => trivial) (cleanAll_texts _))
      (Table.metatable_ofList _)).bind fun t ht => .pure (by simp [ht])
  · exact .pure (by simp)

theorem safe_ioTmpfile (ha : a.function = .builtin .ioTmpfile) :
    ioTmpfile.Safe V a (CleanAll V) := by
  refine .then (safe_ask (.inr ha)) fun r => ?_
  split
  · exact (safe_newFile _).bind fun v hv => .pure (by simp [hv])
  · exact .pure (cleanAll_failure _ _)

theorem safe_ioPopen (hV : V.reachesOut) (args : Args) : (ioPopen args).Safe V a (CleanAll V) := by
  refine (safe_textArg args 1).then fun command => (safe_textArg? args 2).then fun mode => ?_
  refine .ite (fun _ => safe_badArgument ..) fun _ => .then (safe_ask hV) fun r => ?_
  split
  · exact (safe_newFile _).bind fun v hv => .pure (by simp [hv])
  · exact .pure (cleanAll_failure _ _)

/-! ### Removal and renaming -/

theorem safe_osRemove (args : Args) : (osRemove args).Safe V a (CleanAll V) :=
  .then (safe_ask trivial) fun _ => safe_guarded fun _ _ => .pure (cleanAll_outcome _ _)

theorem safe_osRename (args : Args) : (osRename args).Safe V a (CleanAll V) :=
  .then (safe_ask trivial) fun _ => safe_guarded fun _ _ => .pure (cleanAll_outcome _ _)

end Files

/-! ## The system -/

namespace System

theorem clean_fields (d : Date) : ∀ f ∈ d.fields, f.2.Clean V := by
  simp [Date.fields]

theorem safe_osDate (args : Args) : (osDate args).Safe V a (CleanAll V) := by
  refine (safe_textArg? args 1).then fun format => ?_
  extract_lets format plain next
  have hn : ∀ t, (next t).Safe V a (CleanAll V) := by
    intro t
    refine .ite (fun _ => ?_) fun _ => ?_
    · refine (safe_newTable ?_ (Table.metatable_setTexts _ _)).bind fun t ht => .pure (by simp [ht])
      exact Table.each_empty.setTexts Value.clean_nil (fun _ => trivial) (fun _ => trivial)
        (clean_fields _)
    · split
      · exact .pure (by simp)
      · exact safe_badArgument ..
  clear_value next
  split
  · exact .then (safe_ask trivial) hn
  · exact ((safe_intArg args 2).map fun _ _ => trivial).then hn

theorem safe_dateField {t : Value} (ht : t.Clean V) (name : String) (default : Option Int) :
    (dateField t name default).Safe V a fun _ => True := by
  refine (safe_index ht (Value.clean_text name)).bind fun v _ => ?_
  split
  · split
    · exact .pure trivial
    · exact safe_raise _
  · split
    · exact .pure trivial
    · exact safe_raise _

theorem safe_setFields {id : Nat} (hid : (Value.table id).Clean V) {fields : List (String × Value)}
    (hf : ∀ f ∈ fields, f.2.Clean V) : (setFields id fields).Safe V a fun _ => True := by
  induction fields with
  | nil => exact .pure trivial
  | cons f fields ih =>
    obtain ⟨h, hs⟩ := List.forall_mem_cons.mp hf
    exact (safe_setIndex hid (Value.clean_text f.1) h).then fun _ => ih hs

theorem safe_osTime (ha : CleanAll V args) : (osTime args).Safe V a (CleanAll V) := by
  unfold osTime
  split
  · exact .then (safe_ask trivial) fun _ => .pure (by simp)
  · refine (safe_tableArg ha 1).bind fun id hid => ?_
    refine (safe_dateField hid "year" none).then fun year => ?_
    refine (safe_dateField hid "month" none).then fun month => ?_
    refine (safe_dateField hid "day" none).then fun day => ?_
    refine (safe_dateField hid "hour" _).then fun hour => ?_
    refine (safe_dateField hid "min" _).then fun minute => ?_
    refine (safe_dateField hid "sec" _).then fun second => ?_
    exact (safe_setFields hid (clean_fields _)).then fun _ => .pure (by simp)

theorem safe_osClock : osClock.Safe V a (CleanAll V) :=
  .then (safe_ask trivial) fun _ => .pure (by simp)

theorem safe_osDifftime (args : Args) : (osDifftime args).Safe V a (CleanAll V) :=
  (safe_intArg args 1).then fun _ => (safe_intArg args 2).then fun _ => .pure (by simp)

theorem safe_osGetenv (args : Args) : (osGetenv args).Safe V a (CleanAll V) := by
  refine (safe_textArg args 1).then fun name => .then (safe_ask trivial) fun r => ?_
  refine .pure (cleanAll_cons.mpr ⟨clean_getD fun v hv => ?_, cleanAll_nil⟩)
  obtain ⟨s, _, rfl⟩ := Option.map_eq_some_iff.mp hv
  trivial

theorem safe_osSetlocale (args : Args) : (osSetlocale args).Safe V a (CleanAll V) := by
  refine (safe_textArg? args 1).then fun name => (safe_optionArg args 2 _ _).then fun _ => ?_
  split
  · exact .pure (by simp)
  · exact .ite (fun _ => .pure (by simp)) fun _ => .pure (by simp)

theorem safe_osExecute (hV : V.reachesOut) (args : Args) : (osExecute args).Safe V a (CleanAll V) := by
  refine (safe_textArg? args 1).then fun command => ?_
  split
  · exact .pure (by simp)
  · refine .then (safe_ask hV) fun code => .pure ?_
    split <;> simp

theorem safe_osTmpname (hV : V.reachesOut) : osTmpname.Safe V a (CleanAll V) := by
  refine .then (safe_ask (.inl hV)) fun r => ?_
  split
  · exact (safe_ask (e := .close _) trivial).then fun _ => .pure (by simp)
  · exact safe_raise _

theorem safe_callDenied (capability : String) : (callDenied capability).Safe V a (CleanAll V) :=
  (safe_log _).then fun _ => .pure (by simp)

end System

end OscHost.Script.Library
