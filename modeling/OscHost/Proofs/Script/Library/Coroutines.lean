import OscHost.Proofs.Script.Library.Base
import OscHost.Script.Library.Coroutines
/-!
  Functions on coroutines are safe: what a coroutine yields, ends with or left open is clean.
-/

namespace OscHost.Script.Library.Coroutines

open Lib

variable {V : Ward} {a : Actor} {args : Args}

theorem safe_threadArg (args : Args) (n : Nat) : (threadArg args n).Safe V a fun _ => True := by
  unfold threadArg
  split
  · exact .pure trivial
  · exact safe_badType ..

theorem safe_current : current.Safe V a fun _ => True :=
  safe_site.then fun _ => .pure trivial

theorem safe_standing (id : Nat) : (standing id).Safe V a fun _ => True := by
  refine safe_current.then fun n => ?_
  exact .ite (fun _ => .pure trivial) fun _ => .ite (fun _ => .pure trivial) fun _ =>
    safe_inspect id

theorem safe_resumeThread (id : Nat) (ha : CleanAll V args) :
    (resumeThread id args).Safe V a (CleanResult V) :=
  .ite (fun _ => .pure (by simp)) fun _ => safe_resume ha

theorem safe_coCreate (ha : CleanAll V args) : (coCreate args).Safe V a (CleanAll V) := by
  refine (safe_functionArg ha 1).bind fun f hf => ?_
  refine (safe_create hf).then fun id => ?_
  exact .pure (by simp)

theorem safe_coResume (ha : CleanAll V args) : (coResume args).Safe V a (CleanAll V) :=
  (safe_threadArg args 1).then fun id =>
    (safe_resumeThread id (ha.drop 1)).bind Base.safe_caught

theorem safe_coYield (ha : a.function = .builtin .coYield) (hargs : CleanAll V args) :
    (coYield args).Safe V a (CleanAll V) :=
  safe_yield ⟨fun hs => (by cases ha.symm.trans hs), fun _ => hargs⟩

theorem safe_coStatus (args : Args) : (coStatus args).Safe V a (CleanAll V) :=
  (safe_threadArg args 1).then fun id => (safe_standing id).then fun _ => .pure (by simp)

theorem safe_coRunning : coRunning.Safe V a (CleanAll V) :=
  safe_current.then fun _ => .pure (by simp)

theorem safe_coIsYieldable (args : Args) : (coIsYieldable args).Safe V a (CleanAll V) := by
  unfold coIsYieldable
  split
  · refine safe_current.then fun n => ?_
    exact .ite (fun _ => safe_site.then fun _ => .pure (by simp)) fun _ => .pure (by simp)
  · exact safe_site.then fun _ => .pure (by simp)

/-- Whether a script may have the error in progress, if there is one. -/
theorem safe_closeLeft (vs : List Value) {error : Option Value} (hv : CleanAll V vs)
    (he : ∀ v ∈ error, Value.Clean V v) :
    (closeLeft error vs).Safe V a fun r => ∀ v ∈ r, Value.Clean V v := by
  induction vs generalizing error with
  | nil => exact .pure he
  | cons v vs ih =>
    obtain ⟨h, hs⟩ := cleanAll_cons.mp hv
    refine (safe_read fun _ hg => hg.metamethod v _).bind fun f hf => ?_
    refine (safe_attemptPinned hf (by simp [h, clean_getD he])).bind fun r hr => ?_
    split
    · exact ih hs he
    · exact ih hs fun _ h => by cases h; exact hr

theorem safe_closeThread (id : Nat) :
    (closeThread id).Safe V a fun r => ∀ v ∈ r, Value.Clean V v := by
  refine (safe_abandon id).bind fun remains hr => ?_
  exact safe_closeLeft _ hr.leftOpen hr.failure

theorem safe_coClose (args : Args) : (coClose args).Safe V a (CleanAll V) := by
  refine (safe_threadArg args 1).then fun id => (safe_standing id).then fun s => ?_
  split
  case h_1 | h_2 =>
    refine (safe_closeThread id).bind fun r hr => ?_
    split
    · exact .pure (by simp)
    · exact .pure (by simp [hr _ rfl])
  case h_3 => exact safe_raise _

theorem safe_coWrap (ha : CleanAll V args) : (coWrap args).Safe V a (CleanAll V) := by
  refine (safe_functionArg ha 1).bind fun f hf => ?_
  refine (safe_create hf).then fun id => ?_
  refine .then (safe_update fun h hg => ⟨trivial, hg.newNative trivial⟩) fun id => ?_
  exact .pure (by simp)

theorem safe_callWrapped (id : Nat) (ha : CleanAll V args) :
    (callWrapped id args).Safe V a (CleanAll V) := by
  refine (safe_inspect id).then fun before => ?_
  refine (safe_resumeThread id ha).bind fun r hr => ?_
  split
  · exact .pure hr
  · rename_i e
    extract_lets next
    have hn : ∀ closed : Option Value, (∀ v ∈ closed, Value.Clean V v) →
        (next closed).Safe V a (CleanAll V) := by
      intro closed hc
      have hv : (closed.getD e).Clean V := by
        cases closed with
        | none => exact hr
        | some v => exact hc v rfl
      unfold next
      split
      · exact safe_raise _
      · exact safe_throw hv
    exact .ite (fun _ => (safe_closeThread id).bind hn) fun _ =>
      .bind (P := (· = none)) (.pure rfl) fun r hr => hn r (by simp [hr])

end OscHost.Script.Library.Coroutines
