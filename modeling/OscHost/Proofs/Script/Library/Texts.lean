import OscHost.Proofs.Script.Library.Base
import OscHost.Script.Library.CodePoints
import OscHost.Script.Library.Formats
import OscHost.Script.Library.Mathematics
import OscHost.Script.Library.Packing
/-!
  Functions on texts and numbers are safe: they yield texts and numbers, but for what a function
  or table that replaces matches yields.
-/

namespace OscHost.Script.Library

open Lib

variable {V : Ward} {a : Actor} {α : Type} {P : α → Prop} {args : Args}

/-! ## Texts -/

namespace Strings

theorem safe_strLen (args : Args) : (strLen args).Safe V a (CleanAll V) :=
  (safe_textArg args 1).then fun _ => .pure (by simp)

theorem safe_strSub (args : Args) : (strSub args).Safe V a (CleanAll V) :=
  (safe_textArg args 1).then fun _ => (safe_intArg args 2).then fun _ =>
    (safe_intArgOr args 3 _).then fun _ => .pure (by simp)

theorem safe_strLower (args : Args) : (strLower args).Safe V a (CleanAll V) :=
  (safe_textArg args 1).then fun _ => .pure (by simp)

theorem safe_strUpper (args : Args) : (strUpper args).Safe V a (CleanAll V) :=
  (safe_textArg args 1).then fun _ => .pure (by simp)

theorem safe_strReverse (args : Args) : (strReverse args).Safe V a (CleanAll V) :=
  (safe_textArg args 1).then fun _ => .pure (by simp)

theorem safe_strRep (args : Args) : (strRep args).Safe V a (CleanAll V) := by
  refine (safe_textArg args 1).then fun s => (safe_intArg args 2).then fun n => ?_
  refine (safe_textArg? args 3).then fun sep => ?_
  exact .ite (fun _ => .pure (by simp)) fun _ => .ite (fun _ => safe_raise _) fun _ =>
    .pure (by simp)

theorem cleanAll_codes {β : Type} (l : List β) (f : β → Int64) :
    CleanAll V (l.map fun c => .int (f c)) := by
  simp [CleanAll]

theorem safe_strByte (args : Args) : (strByte args).Safe V a (CleanAll V) := by
  refine (safe_textArg args 1).then fun s => (safe_intArgOr args 2 1).then fun i => ?_
  refine (safe_intArgOr args 3 i).then fun last => ?_
  exact .ite (fun _ => .pure (cleanAll_codes _ _)) fun _ => .pure cleanAll_nil

theorem safe_charsFrom (args : Args) (acc : Bytes) (n count : Nat) :
    (charsFrom args acc n count).Safe V a fun _ => True := by
  induction count generalizing acc n with
  | zero => exact .pure trivial
  | succ count ih =>
    refine (safe_intArg args n).then fun c => ?_
    exact .ite (fun _ => safe_badArgument ..) fun _ => ih ..

theorem safe_strChar (args : Args) : (strChar args).Safe V a (CleanAll V) :=
  (safe_charsFrom ..).then fun _ => .pure (by simp)

theorem safe_strDump (ha : CleanAll V args) : (strDump args).Safe V a (CleanAll V) := by
  refine (safe_functionArg ha 1).bind fun f _ => ?_
  split
  · exact .pure (by simp)
  · exact safe_raise _

theorem safe_noArithmetic (event : String) {x y : Value} (hx : x.Clean V) (hy : y.Clean V) :
    (noArithmetic event x y).Safe V a (CleanAll V) := by
  unfold noArithmetic
  extract_lets next
  have hn : ∀ other, other.Clean V → (next other).Safe V a (CleanAll V) := by
    intro other ho
    unfold next
    split
    · exact .then (safe_read fun _ _ => trivial) fun _ => safe_raise _
    · exact (safe_call ho (by simp [hx, hy])).bind fun rs hr => .pure (by simp [hr.firstOf])
  split
  · exact .bind (.pure trivial) hn
  · exact .bind (safe_read fun _ hg => hg.metamethod _ _) hn

theorem safe_strArith (event : String) (ha : CleanAll V args) :
    (strArith event args).Safe V a (CleanAll V) := by
  unfold strArith
  extract_lets x y
  split
  · rename_i hx hy
    refine .ite (fun _ => ?_) fun _ => ?_
    · exact (safe_minus (clean_toNumber hx) none).bind fun v hv => .pure (by simp [hv])
    · exact (safe_arith _ (clean_toNumber hx) (clean_toNumber hy) _).bind fun v hv =>
        .pure (by simp [hv])
  · exact safe_noArithmetic event (clean_get ha 1) (clean_get ha 2)

/-! ### Patterns -/

theorem safe_usePattern {r : Except PatternError α} (hr : ∀ x, r = .ok x → P x) :
    (usePattern r).Safe V a P := by
  unfold usePattern
  split
  · exact .pure (hr _ rfl)
  · exact safe_raise _

theorem clean_captureValue {src : Bytes} {c : PatternCapture} {v : Value}
    (h : captureValue src c = .ok v) : v.Clean V := by
  unfold captureValue at h
  split at h <;> cases h <;> trivial

theorem clean_captures {src : Bytes} {cs : List PatternCapture} {vs : List Value}
    (h : cs.mapM (captureValue src) = .ok vs) : CleanAll V vs := by
  induction cs generalizing vs with
  | nil =>
    cases h
    exact cleanAll_nil
  | cons c cs ih =>
    rw [List.mapM_cons] at h
    rcases hc : captureValue src c with e | v
    · rw [hc] at h
      cases h
    · rcases hs : cs.mapM (captureValue src) with e | ws
      · rw [hc, hs] at h
        cases h
      · rw [hc, hs] at h
        cases h
        exact cleanAll_cons.mpr ⟨clean_captureValue hc, ih hs⟩

theorem clean_captureValues {src : Bytes} {m : Pattern.Match} {vs : List Value}
    (h : captureValues src m = .ok vs) : CleanAll V vs := by
  unfold captureValues at h
  split at h
  · cases h
    simp
  · exact clean_captures h

theorem safe_searchStart (args : Args) (size : Nat) :
    (searchStart args size).Safe V a fun _ => True :=
  (safe_intArgOr args 3 1).then fun _ => .pure trivial

theorem safe_strFind (args : Args) : (strFind args).Safe V a (CleanAll V) := by
  refine (safe_textArg args 1).then fun s => (safe_textArg args 2).then fun pat => ?_
  refine (safe_searchStart args s.size).then fun start => ?_
  split
  · exact .pure (by simp)
  · extract_lets place
    refine .ite (fun _ => ?_) fun _ => ?_
    · split
      · exact .pure (by simp [place])
      · exact .pure (by simp)
    · refine .then (safe_usePattern fun _ _ => trivial) fun m => ?_
      split
      · exact .pure (by simp)
      · exact .bind (P := CleanAll V) (safe_usePattern fun vs => clean_captures) fun vs hv =>
          .pure (by simp [place, hv])

theorem safe_strMatch (args : Args) : (strMatch args).Safe V a (CleanAll V) := by
  refine (safe_textArg args 1).then fun s => (safe_textArg args 2).then fun pat => ?_
  refine (safe_searchStart args s.size).then fun start => ?_
  split
  · exact .pure (by simp)
  · refine .then (safe_usePattern fun _ _ => trivial) fun m => ?_
    split
    · exact .pure (by simp)
    · exact safe_usePattern fun vs => clean_captureValues

theorem safe_strGmatch (args : Args) : (strGmatch args).Safe V a (CleanAll V) := by
  refine (safe_textArg args 1).then fun s => (safe_textArg args 2).then fun pat => ?_
  refine (safe_searchStart args s.size).then fun start => ?_
  refine .then (safe_update fun h hg => ⟨trivial, hg.newNative trivial⟩) fun id => ?_
  exact .pure (by simp)

theorem safe_callMatcher (id : Nat) (src pat : Bytes) (start : Nat) (last : Option Nat) :
    (callMatcher id src pat start last).Safe V a (CleanAll V) := by
  refine .then (safe_usePattern fun _ _ => trivial) fun m => ?_
  split
  · exact .then (safe_modify fun h hg => hg.setNative id trivial) fun _ => .pure (by simp)
  · exact .then (safe_modify fun h hg => hg.setNative id trivial) fun _ =>
      safe_usePattern fun vs => clean_captureValues

theorem safe_replacement (src : Bytes) {repl : Value} (hr : repl.Clean V) (m : Pattern.Match) :
    (replacement src repl m).Safe V a fun _ => True := by
  unfold replacement
  extract_lets whole checked
  have hchecked : ∀ v, (checked v).Safe V a fun _ => True := by
    intro v
    unfold checked
    split
    · exact .pure trivial
    · exact .pure trivial
    · split
      · exact .pure trivial
      · exact .then (safe_read fun _ _ => trivial) fun _ => safe_raise _
  have hcaptures : (usePattern (captureValues src m)).Safe V a (CleanAll V) :=
    safe_usePattern fun vs => clean_captureValues
  split
  case h_1 | h_2 | h_3 =>
    exact hcaptures.bind fun vs hv => (safe_call hr hv).bind fun rs _ => hchecked _
  case h_4 => exact hcaptures.bind fun vs hv => (safe_index hr hv.firstOf).bind fun v _ => hchecked v
  case h_5 =>
    extract_lets text
    split
    · exact .pure trivial
    · exact safe_raise _

theorem safe_replaceFrom (src pat : Bytes) {repl : Value} (hr : repl.Clean V) (anchored : Bool)
    (p limit fuel s : Nat) (last : Option Nat) (count : Nat) (acc : Bytes) :
    (replaceFrom src pat repl anchored p limit fuel s last count acc).Safe V a fun _ => True := by
  induction fuel generalizing s last count acc with
  | zero => exact .pure trivial
  | succ fuel ih =>
    refine .ite (fun _ => .pure trivial) fun _ => .ite (fun _ => ?_) fun _ => ?_
    · refine .then (safe_usePattern fun _ _ => trivial) fun m => ?_
      split
      · exact .pure trivial
      · exact (safe_replacement src hr _).then fun _ => .pure trivial
    · refine .then (safe_usePattern fun _ _ => trivial) fun m => ?_
      split
      · exact .pure trivial
      · exact (safe_replacement src hr _).then fun _ => ih ..

theorem safe_strGsub (ha : CleanAll V args) : (strGsub args).Safe V a (CleanAll V) := by
  refine (safe_textArg args 1).then fun s => (safe_textArg args 2).then fun pat => ?_
  extract_lets repl next
  have hr : repl.Clean V := clean_get ha 3
  have hn : ∀ r, (next r).Safe V a (CleanAll V) := by
    intro r
    refine (safe_intArgOr args 4 _).then fun limit => ?_
    exact (safe_replaceFrom s pat hr ..).then fun (text, count) => .pure (by simp)
  clear_value next repl
  split
  case h_5 => exact .ite (fun _ => hn ()) fun _ => (safe_badType args 3 _).then hn
  all_goals exact hn ()

end Strings

/-! ## Code points -/

namespace CodePoints

theorem safe_utfChar (args : Args) : (utfChar args).Safe V a (CleanAll V) := by
  have hgo : ∀ n count acc, (utfChar.go args n count acc).Safe V a fun _ => True := by
    intro n count acc
    induction count generalizing n acc with
    | zero => exact .pure trivial
    | succ count ih =>
      refine (safe_intArg args n).then fun c => ?_
      exact .ite (fun _ => safe_badArgument ..) fun _ => ih ..
  exact (hgo ..).then fun _ => .pure (by simp)

theorem safe_utfCodepoint (args : Args) : (utfCodepoint args).Safe V a (CleanAll V) := by
  refine (safe_textArg args 1).then fun s => (safe_intArgOr args 2 1).then fun first => ?_
  refine (safe_intArgOr args 3 _).then fun last => ?_
  refine .ite (fun _ => safe_badArgument ..) fun _ => .ite (fun _ => safe_badArgument ..) fun _ =>
    .ite (fun _ => .pure cleanAll_nil) fun _ => ?_
  split
  · exact .pure (Strings.cleanAll_codes _ _)
  · exact safe_raise _

theorem safe_utfLen (args : Args) : (utfLen args).Safe V a (CleanAll V) := by
  refine (safe_textArg args 1).then fun s => (safe_intArgOr args 2 1).then fun first => ?_
  refine (safe_intArgOr args 3 _).then fun last => ?_
  refine .ite (fun _ => safe_badArgument ..) fun _ => .ite (fun _ => safe_badArgument ..) fun _ => ?_
  split
  · exact .pure (by simp)
  · exact .pure (by simp)

theorem safe_utfOffset (args : Args) : (utfOffset args).Safe V a (CleanAll V) := by
  refine (safe_textArg args 1).then fun s => (safe_intArg args 2).then fun n => ?_
  refine (safe_intArgOr args 3 _).then fun start => ?_
  refine .ite (fun _ => safe_badArgument ..) fun _ => ?_
  extract_lets i answer
  have hanswer : ∀ r, CleanAll V (answer r) := by
    intro r
    cases r <;> simp [answer]
  clear_value answer
  exact .ite (fun _ => .pure (hanswer _)) fun _ => .ite (fun _ => safe_raise _) fun _ =>
    .ite (fun _ => .pure (hanswer _)) fun _ => .pure (hanswer _)

theorem safe_utfCodes (args : Args) : (utfCodes args).Safe V a (CleanAll V) := by
  refine (safe_textArg args 1).then fun s => ?_
  exact .ite (fun _ => safe_badArgument ..) fun _ => .pure (by simp [Ward.withholds, Builtin.isWithheld])

theorem safe_utfCodesNext (lax : Bool) (args : Args) :
    (utfCodesNext lax args).Safe V a (CleanAll V) := by
  refine (safe_textArg args 1).then fun s => (safe_intArg args 2).then fun n => ?_
  refine .ite (fun _ => .pure cleanAll_nil) fun _ => ?_
  split
  · exact .ite (fun _ => safe_raise _) fun _ => .pure (by simp)
  · exact safe_raise _

end CodePoints

/-! ## Binary layouts -/

namespace Packing

theorem safe_useLayout (r : Except Fault α) : (useLayout r).Safe V a fun _ => True := by
  unfold useLayout
  split
  · exact .pure trivial
  · exact safe_badArgument ..
  · exact safe_raise _

theorem safe_packFrom (args : Args) (fuel : Nat) (o : Order) (n : Nat) (layout : List Char)
    (acc : Bytes) : (packFrom args fuel o n layout acc).Safe V a fun _ => True := by
  induction fuel generalizing o n layout acc with
  | zero => exact .pure trivial
  | succ fuel ih =>
    refine (safe_useLayout _).then fun r => ?_
    split
    · exact .pure trivial
    · extract_lets acc go
      have hgo : ∀ n b, (go n b).Safe V a fun _ => True := fun n b => ih ..
      split
      · refine (safe_intArg args n).then fun i => ?_
        exact .ite (fun _ => safe_badArgument ..) fun _ => hgo ..
      · refine (safe_intArg args n).then fun i => ?_
        exact .ite (fun _ => safe_badArgument ..) fun _ => hgo ..
      · exact (safe_floatArg args n).then fun x => hgo ..
      · exact (safe_floatArg args n).then fun x => hgo ..
      · refine (safe_textArg args n).then fun s => ?_
        exact .ite (fun _ => safe_badArgument ..) fun _ => hgo ..
      · refine (safe_textArg args n).then fun s => ?_
        exact .ite (fun _ => safe_badArgument ..) fun _ => hgo ..
      · refine (safe_textArg args n).then fun s => ?_
        exact .ite (fun _ => safe_badArgument ..) fun _ => hgo ..
      · exact hgo ..
      · exact hgo ..

theorem safe_strPack (args : Args) : (strPack args).Safe V a (CleanAll V) :=
  (safe_textArg args 1).then fun _ => (safe_packFrom ..).then fun _ => .pure (by simp)

theorem safe_sizeFrom (fuel : Nat) (o : Order) (layout : List Char) (total : Nat) :
    (sizeFrom fuel o layout total).Safe V a fun _ => True := by
  induction fuel generalizing o layout total with
  | zero => exact .pure trivial
  | succ fuel ih =>
    refine (safe_useLayout _).then fun r => ?_
    split
    · exact .pure trivial
    · split
      · exact safe_badArgument ..
      · exact safe_badArgument ..
      · exact ih ..
      · exact ih ..
      · exact ih ..

theorem safe_strPackSize (args : Args) : (strPackSize args).Safe V a (CleanAll V) :=
  (safe_textArg args 1).then fun _ => (safe_sizeFrom ..).then fun _ => .pure (by simp)

theorem safe_unpackInteger (o : Order) (isSigned : Bool) (b : Bytes) :
    (unpackInteger o isSigned b).Safe V a (Value.Clean V) :=
  .ite (fun _ => safe_raise _) fun _ => .pure trivial

theorem safe_unpackFrom (data : Bytes) (fuel : Nat) (o : Order) (layout : List Char)
    (position : Nat) {acc : List Value} (hacc : CleanAll V acc) :
    (unpackFrom data fuel o layout position acc).Safe V a fun r => CleanAll V r.1 := by
  induction fuel generalizing o layout position acc with
  | zero => exact .pure (cleanAll_reverse.mpr hacc)
  | succ fuel ih =>
    refine (safe_useLayout _).then fun r => ?_
    split
    · exact .pure (cleanAll_reverse.mpr hacc)
    · extract_lets take start go
      have htake : ∀ start size, (take start size).Safe V a fun _ => True := fun start size =>
        .ite (fun _ => safe_badArgument ..) fun _ => .pure trivial
      have hgo : ∀ v position, v.Clean V → (go v position).Safe V a fun r => CleanAll V r.1 :=
        fun v position hv => ih _ _ _ (cleanAll_cons.mpr ⟨hv, hacc⟩)
      split
      case h_1 | h_2 =>
        exact (htake ..).then fun b => (safe_unpackInteger ..).bind fun v hv => hgo v _ hv
      case h_3 | h_4 => exact (htake ..).then fun b => hgo _ _ (Value.clean_ofFloat _)
      case h_5 => exact (htake ..).then fun b => hgo _ _ trivial
      case h_6 => exact (htake ..).then fun b => (htake ..).then fun s => hgo _ _ trivial
      case h_7 => exact .ite (fun _ => safe_badArgument ..) fun _ => hgo _ _ trivial
      case h_8 | h_9 => exact (htake ..).then fun _ => ih _ _ _ hacc

theorem safe_strUnpack (args : Args) : (strUnpack args).Safe V a (CleanAll V) := by
  refine (safe_textArg args 1).then fun layout => (safe_textArg args 2).then fun data => ?_
  refine (safe_intArgOr args 3 1).then fun start => ?_
  refine .ite (fun _ => safe_badArgument ..) fun _ => ?_
  exact (safe_unpackFrom data _ _ _ _ cleanAll_nil).bind fun (values, position) hv =>
    .pure (by simp [show CleanAll V values from hv])

end Packing

/-! ## Formats -/

namespace Formats

theorem safe_convert (ha : CleanAll V args) (n : Nat) (spec : List Char) (letter : Char) :
    (convert args n spec letter).Safe V a fun _ => True := by
  unfold convert
  extract_lets checked
  have hchecked : checked.Safe V a fun _ => True := by
    unfold checked
    split
    · exact .pure trivial
    · exact safe_raise _
  clear_value checked
  split
  case h_1 => exact hchecked.then fun c => (safe_intArg args n).then fun _ => .pure trivial
  case h_2 | h_3 | h_4 | h_5 | h_6 | h_7 =>
    exact (safe_intArg args n).then fun i => hchecked.then fun _ => .pure trivial
  case h_15 => exact hchecked.then fun c => .pure trivial
  case h_16 =>
    refine .ite (fun _ => ?_) fun _ => safe_raise _
    split
    · exact .pure trivial
    · exact safe_badArgument ..
  case h_17 =>
    refine (safe_text (clean_get ha n)).then fun s => ?_
    refine .ite (fun _ => .pure trivial) fun _ => .ite (fun _ => safe_badArgument ..) fun _ => ?_
    refine hchecked.then fun c => .ite (fun _ => .pure trivial) fun _ => ?_
    exact .pure trivial
  case h_18 => exact safe_raise _
  all_goals
    exact (safe_numberArg args n).bind fun v _ => hchecked.then fun _ => .pure trivial

theorem safe_formatFrom (ha : CleanAll V args) (fuel n : Nat) (s : List Char) (acc : Bytes) :
    (formatFrom args fuel n s acc).Safe V a fun _ => True := by
  induction fuel generalizing n s acc with
  | zero => exact .pure trivial
  | succ fuel ih =>
    unfold formatFrom
    split
    · exact .pure trivial
    · exact ih ..
    · refine .ite (fun _ => safe_badArgument ..) fun _ => .ite (fun _ => safe_raise _) fun _ => ?_
      split
      · exact safe_raise _
      · exact (safe_convert ha ..).then fun _ => ih ..
    · exact ih ..

theorem safe_strFormat (ha : CleanAll V args) : (strFormat args).Safe V a (CleanAll V) :=
  (safe_textArg args 1).then fun _ => (safe_formatFrom ha ..).then fun _ => .pure (by simp)

end Formats

/-! ## Numbers -/

namespace Mathematics

theorem safe_onFloat (f : Float → Float) (args : Args) : (onFloat f args).Safe V a (CleanAll V) := by
  refine (safe_numberArg args 1).bind fun v _ => ?_
  split
  · exact .pure (by simp)
  · exact .pure (by simp)

theorem clean_whole (x : Float) : (whole x).Clean V := by
  unfold whole
  split
  · trivial
  · exact Value.clean_ofFloat _

theorem safe_rounded (f : Float → Float) (args : Args) :
    (rounded f args).Safe V a (CleanAll V) := by
  refine (safe_numberArg args 1).bind fun v _ => ?_
  split
  · exact .pure (by simp)
  · exact .pure (by simp)
  · exact .pure (by simp [clean_whole])

theorem safe_mathAbs (args : Args) : (mathAbs args).Safe V a (CleanAll V) := by
  refine (safe_numberArg args 1).bind fun v _ => ?_
  split
  · exact .pure (by simp)
  · exact .pure (by simp)
  · exact .pure (by simp)

theorem safe_mathAtan (args : Args) : (mathAtan args).Safe V a (CleanAll V) := by
  refine (safe_floatArg args 1).then fun y => ?_
  extract_lets next
  have hn : ∀ x, (next x).Safe V a (CleanAll V) := fun x => .pure (by simp)
  split
  · exact .then (.pure trivial) hn
  · exact (safe_floatArg args 2).then hn

theorem safe_mathFmod (args : Args) : (mathFmod args).Safe V a (CleanAll V) := by
  refine (safe_numberArg args 1).bind fun x _ => (safe_numberArg args 2).bind fun y _ => ?_
  split
  · exact .ite (fun _ => safe_badArgument ..) fun _ => .pure (by simp)
  · exact .pure (by simp [clean_onFloats])

theorem safe_mathLog (args : Args) : (mathLog args).Safe V a (CleanAll V) := by
  refine (safe_floatArg args 1).then fun x => ?_
  split
  · exact .pure (by simp)
  · exact (safe_floatArg args 2).then fun _ => .pure (by simp)

theorem safe_bestFrom (better : Value → Value → Bool) (args : Args) {best : Value} (n count : Nat)
    (hb : best.Clean V) : (bestFrom better args best n count).Safe V a (Value.Clean V) := by
  induction count generalizing best n with
  | zero => exact .pure hb
  | succ count ih =>
    refine (safe_numberArg args n).bind fun v hv => ih _ ?_
    split
    · exact hv
    · exact hb

theorem safe_mathMax (args : Args) : (mathMax args).Safe V a (CleanAll V) :=
  (safe_numberArg args 1).bind fun _ hf => (safe_bestFrom _ args _ _ hf).bind fun _ hv =>
    .pure (by simp [hv])

theorem safe_mathMin (args : Args) : (mathMin args).Safe V a (CleanAll V) :=
  (safe_numberArg args 1).bind fun _ hf => (safe_bestFrom _ args _ _ hf).bind fun _ hv =>
    .pure (by simp [hv])

theorem safe_mathModf (args : Args) : (mathModf args).Safe V a (CleanAll V) := by
  refine (safe_numberArg args 1).bind fun v _ => ?_
  split
  · exact .pure (by simp)
  · exact .pure (by simp)
  · exact .pure (by simp)

theorem safe_mathRandom (args : Args) : (mathRandom args).Safe V a (CleanAll V) := by
  refine .then (safe_ask trivial) fun r => ?_
  extract_lets r
  split
  · exact .pure (by simp)
  case h_2 | h_3 =>
    refine (safe_intArg args 1).then fun first => ?_
    extract_lets next
    have hn : ∀ bounds, (next bounds).Safe V a (CleanAll V) := fun (low, high) =>
      .ite (fun _ => .pure (by simp)) fun _ => .ite (fun _ => safe_badArgument ..) fun _ =>
        .pure (by simp)
    exact .ite (fun _ => .then (.pure trivial) hn) fun _ =>
      ((safe_intArg args 2).map fun _ _ => trivial).then hn
  · exact safe_raise _

theorem safe_mathTointeger (ha : CleanAll V args) : (mathTointeger args).Safe V a (CleanAll V) := by
  unfold mathTointeger
  split
  · exact .pure (by simp [clean_mapInt])
  · exact (safe_anyArg ha 1).bind fun _ _ => .pure (by simp [clean_mapInt])

theorem safe_mathType (ha : CleanAll V args) : (mathType args).Safe V a (CleanAll V) := by
  refine (safe_anyArg ha 1).bind fun v _ => ?_
  split
  · exact .pure (by simp)
  · exact .pure (by simp)
  · exact .pure (by simp)
  · exact .pure (by simp)

theorem safe_mathUlt (args : Args) : (mathUlt args).Safe V a (CleanAll V) :=
  (safe_intArg args 1).then fun _ => (safe_intArg args 2).then fun _ => .pure (by simp)

end Mathematics

end OscHost.Script.Library
