import OscHost.Proofs.Script.Operations
import OscHost.Script.Library.Base
/-!
  Basic functions are safe.
-/

namespace OscHost.Script.Library.Base

open Lib

variable {V : Ward} {a : Actor} {α : Type} {P : α → Prop} {args : Args}

theorem safe_calledFrom (position : String × Nat) (name : String) {x : Lib α}
    (hx : x.Safe V a P) : (calledFrom position name x).Safe V a P :=
  ⟨fun _ k h₀ h ht hk => hx.acts _ k h₀ h ht hk⟩

theorem safe_assert (ha : CleanAll V args) : (assert args).Safe V a (CleanAll V) := by
  refine .ite (fun _ => .pure ha) fun _ => ?_
  refine (safe_anyArg ha 1).bind fun _ _ => ?_
  split
  · exact safe_throw trivial
  · rename_i message rest hd
    have hm : CleanAll V (message :: rest) := hd ▸ ha.drop 1
    exact safe_throw (cleanAll_cons.mp hm).1

theorem safe_error (ha : CleanAll V args) : (error args).Safe V a (CleanAll V) := by
  refine (safe_intArgOr args 2 1).then fun level => ?_
  split
  · exact .ite (fun _ => safe_complainAt _ _) fun _ => safe_throw trivial
  · exact safe_throw (clean_get ha 1)

theorem safe_collectgarbage (args : Args) : (collectgarbage args).Safe V a (CleanAll V) := by
  refine (safe_optionArg args 1 _ _).then fun word => ?_
  split
  · exact .then (safe_read fun _ _ => trivial) fun _ => .pure (by simp)
  all_goals exact .pure (by simp)

theorem safe_getmetatable (ha : CleanAll V args) : (getmetatable args).Safe V a (CleanAll V) := by
  refine (safe_anyArg ha 1).bind fun v _ => ?_
  refine .bind (P := fun r => ∀ id ∈ r, (Value.table id).Clean V)
    (safe_read fun h hg id hid => hg.metatable hid) fun r hr => ?_
  split
  · exact .pure (by simp)
  · rename_i id
    have hid := hr id rfl
    refine (safe_read fun h hg => hg.get hid (.string "__metatable")).bind fun v hv => ?_
    split
    · exact .pure (by simp [hid])
    · exact .pure (by simp [hv])

theorem safe_setmetatable (ha : CleanAll V args) : (setmetatable args).Safe V a (CleanAll V) := by
  refine (safe_tableArg ha 1).bind fun id hid => ?_
  extract_lets next
  have hn : ∀ metatable : Option Nat, (∀ m ∈ metatable, (Value.table m).Clean V) →
      (next metatable).Safe V a (CleanAll V) := by
    intro metatable hm
    refine (safe_read fun h hg => hg.metamethod _ _).bind fun v _ => ?_
    split
    · refine (safe_modify fun h hg => ?_).then fun _ => .pure (by simp [hid])
      exact hg.modifyTable hid ((hg.tables id).withMetatable metatable) hm
    · exact safe_raise _
  have hm := clean_get ha 2
  split
  · split
    · exact .bind (P := (· = none)) (.pure rfl) fun r hr => hn r (by simp [hr])
    · exact (safe_badType args 2 _).bind hn
  · rename_i m he
    rw [he] at hm
    exact .bind (.pure fun _ h => by cases h; exact hm) fun r hr => hn r hr
  · exact (safe_badType args 2 _).bind hn

theorem safe_ipairs (ha : CleanAll V args) : (ipairs args).Safe V a (CleanAll V) := by
  refine (safe_anyArg ha 1).bind fun v hv => ?_
  exact .pure (by simp [hv, Ward.withholds, Builtin.isWithheld])

theorem safe_ipairsNext (ha : CleanAll V args) : (ipairsNext args).Safe V a (CleanAll V) := by
  refine (safe_intArg args 2).then fun i => ?_
  extract_lets i
  refine (safe_index (clean_get ha 1) (Value.clean_int i)).bind fun v hv => ?_
  split
  · exact .pure (by simp)
  · exact .pure (by simp [hv])

/-- The next entry of a table has a clean key, and a value that fits the table. -/
theorem safe_nextEntry (args : Args) : (next args).Safe V a fun r => r = [.nil] ∨
    ∃ id k v, args.get 1 = .table id ∧ r = [k, v] ∧ k.Clean V ∧ v.Fits V id := by
  refine (safe_tableArg_eq args 1).bind fun id hid => ?_
  extract_lets after
  have hafter : ∀ k, (after k).Safe V a fun r => r = [.nil] ∨
      ∃ id k v, args.get 1 = .table id ∧ r = [k, v] ∧ k.Clean V ∧ v.Fits V id := by
    intro k
    refine (safe_read (P := fun r => ∀ e, r = some (some e) →
      e.1.toValue.Clean V ∧ e.2.Fits V id) fun h hg e he =>
        (hg.tables id).next (fun _ => trivial) he).bind fun r hr => ?_
    split
    · exact safe_complain _
    · exact .pure (.inl rfl)
    · rename_i k v
      obtain ⟨hk, hv⟩ := hr _ rfl
      exact .pure (.inr ⟨id, _, v, hid, rfl, hk, hv⟩)
  split
  · exact hafter none
  · split
    · exact hafter _
    · exact safe_complain _

theorem safe_next (ha : CleanAll V args) : (next args).Safe V a (CleanAll V) := by
  refine (safe_nextEntry args).mono fun r hr => ?_
  obtain rfl | ⟨id, k, v, hid, rfl, hk, hv⟩ := hr
  · simp
  · have h1 := clean_get ha 1
    rw [hid] at h1
    simp [hk, hv.clean h1]

theorem safe_pairs (ha : CleanAll V args) : (pairs args).Safe V a (CleanAll V) := by
  refine (safe_anyArg ha 1).bind fun v hv => ?_
  refine (safe_read fun h hg => hg.metamethod v _).bind fun f hf => ?_
  split
  · exact .pure (by simp [hv, Ward.withholds, Builtin.isWithheld])
  · refine (safe_callLoose hf (by simp [hv])).bind fun r hr => ?_
    exact .pure (by simp [-List.getD_eq_getElem?_getD, hr.getD])

/-- What comes of a call whose error is caught, as the values of a protected call. -/
theorem safe_caught (r : Except Value (List Value)) : CleanResult V r →
    (match r with
      | .ok values => pure (.bool true :: values)
      | .error e => pure [.bool false, e] : Lib (List Value)).Safe V a (CleanAll V) := by
  intro hr
  split
  · exact .pure (cleanAll_cons.mpr ⟨trivial, hr⟩)
  · exact .pure (cleanAll_cons.mpr ⟨trivial, cleanAll_cons.mpr ⟨hr, cleanAll_nil⟩⟩)

theorem safe_pcall (ha : CleanAll V args) : (pcall args).Safe V a (CleanAll V) := by
  refine (safe_anyArg ha 1).bind fun f hf => ?_
  exact (safe_attempt hf (ha.drop 1) (by simp)).bind safe_caught

theorem safe_xpcall (ha : CleanAll V args) : (xpcall args).Safe V a (CleanAll V) := by
  refine (safe_functionArg ha 2).bind fun handler hh => ?_
  refine (safe_attempt (clean_get ha 1) (ha.drop 2) fun g hg => ?_).bind safe_caught
  cases hg
  exact hh

theorem safe_texts {vs : List Value} (hv : CleanAll V vs) :
    (texts vs).Safe V a fun _ => True := by
  induction vs with
  | nil => exact .pure trivial
  | cons v vs ih =>
    obtain ⟨h, hs⟩ := cleanAll_cons.mp hv
    exact (safe_calledFrom _ _ (safe_text h)).then fun _ => (ih hs).then fun _ => .pure trivial

theorem safe_print (ha : CleanAll V args) : (print args).Safe V a (CleanAll V) := by
  refine (safe_texts ha).then fun pieces => ?_
  extract_lets line
  split
  · exact (safe_log _).then fun _ => .pure cleanAll_nil
  · exact safe_badHostArgument ..

theorem safe_rawequal (ha : CleanAll V args) : (rawequal args).Safe V a (CleanAll V) := by
  refine (safe_anyArg ha 1).bind fun _ _ => (safe_anyArg ha 2).bind fun _ _ => ?_
  exact .pure (by simp)

theorem safe_rawlen (args : Args) : (rawlen args).Safe V a (CleanAll V) := by
  unfold rawlen
  split
  · exact .then (safe_read fun _ _ => trivial) fun _ => .pure (by simp)
  · exact .pure (by simp)
  · exact safe_badArgument ..

theorem safe_rawget (ha : CleanAll V args) : (rawget args).Safe V a (CleanAll V) := by
  refine (safe_tableArg ha 1).bind fun id hid => (safe_anyArg ha 2).bind fun k _ => ?_
  split
  · exact (safe_read fun h hg => hg.get hid _).bind fun v hv => .pure (by simp [hv])
  · exact .pure (by simp)

theorem safe_rawset (ha : CleanAll V args) : (rawset args).Safe V a (CleanAll V) := by
  refine (safe_tableArg ha 1).bind fun id hid => (safe_anyArg ha 2).bind fun k hk => ?_
  refine (safe_anyArg ha 3).bind fun v hv => (safe_rawSet hid hk hv).then fun _ => ?_
  exact .pure (by simp [hid])

theorem safe_select (ha : CleanAll V args) : (select args).Safe V a (CleanAll V) := by
  unfold select
  extract_lets rest next
  have hrest : CleanAll V rest := ha.drop 1
  have hnext : ∀ r, (next r).Safe V a (CleanAll V) := by
    intro r
    refine (safe_intArg args 1).then fun n => ?_
    extract_lets n
    refine .ite (fun _ => .ite (fun _ => safe_badArgument ..) fun _ => .pure (hrest.drop _))
      fun _ => .ite (fun _ => safe_badArgument ..) fun _ => .pure (hrest.drop _)
  split
  · exact .ite (fun _ => .pure (by simp)) fun _ => hnext ()
  · exact hnext ()

theorem safe_tonumber (ha : CleanAll V args) : (tonumber args).Safe V a (CleanAll V) := by
  unfold tonumber
  split
  · refine (safe_anyArg ha 1).bind fun v _ => .pure (cleanAll_cons.mpr ⟨?_, cleanAll_nil⟩)
    exact clean_getD fun n hn => clean_toNumber hn
  · refine (safe_intArg args 2).then fun base => ?_
    extract_lets base
    split
    · refine .ite (fun _ => safe_badArgument ..) fun _ =>
        .pure (by simp [clean_mapInt])
    · exact safe_badType ..

theorem safe_tostring (ha : CleanAll V args) : (tostring args).Safe V a (CleanAll V) :=
  (safe_anyArg ha 1).bind fun _ hv => (safe_text hv).then fun _ => .pure (by simp)

theorem safe_type (ha : CleanAll V args) : (type args).Safe V a (CleanAll V) :=
  (safe_anyArg ha 1).bind fun _ _ => .pure (by simp)

theorem safe_warn (args : Args) : (warn args).Safe V a (CleanAll V) := by
  refine (safe_textArg args 1).then fun _ => ?_
  refine .then (.forIn fun i _ => ?_) fun _ => .pure cleanAll_nil
  exact (safe_textArg args _).discard.then fun _ => .pure trivial

/-! ## Code from texts -/

theorem safe_readPieces {f : Value} (hf : f.Clean V) (fuel : Nat) (acc : Bytes) :
    (readPieces f acc fuel).Safe V a fun r => ∀ e, r = .error e → e.Clean V := by
  induction fuel generalizing acc with
  | zero => exact .pure fun _ h => nomatch h
  | succ fuel ih =>
    refine (safe_attemptPinned hf cleanAll_nil).bind fun r hr => ?_
    split
    · exact .pure fun _ h => by cases h; exact hr
    · split
      · exact .pure fun _ h => nomatch h
      · split
        · exact .ite (fun _ => .pure fun _ h => nomatch h) fun _ => ih _
        · exact safe_site.then fun s => .pure fun _ h => by cases h; trivial

/-- Going on with a given environment, or with the globals. -/
theorem safe_environment {next : Value → Lib α} (environment : Option Value)
    (hn : ∀ v, v.Clean V → (next v).Safe V a P) : (∀ v ∈ environment, Value.Clean V v) →
    (match environment with
      | some v => pure v >>= next
      | none => read (·.globalsValue) >>= next).Safe V a P := by
  intro he
  split
  · exact .bind (.pure (he _ rfl)) hn
  · exact .bind (safe_read fun h hg => hg.roots.globals) hn

theorem safe_newChunk (p : Proto) {environment : Value} (he : environment.Clean V) :
    (update (·.newChunk p environment)).Safe V a (Value.Clean V) :=
  safe_update fun _ hg => ⟨trivial, hg.newChunk p he⟩

theorem safe_loadText (chunk source : Bytes) {environment : Option Value}
    (he : ∀ v ∈ environment, Value.Clean V v) :
    (loadText chunk source environment).Safe V a (CleanAll V) := by
  unfold loadText
  split
  · extract_lets next
    refine safe_environment environment (fun v hv => ?_) he
    exact (safe_newChunk _ hv).bind fun f hf => .pure (by simp [hf])
  · exact .pure (by simp)

theorem safe_load (ha : CleanAll V args) : (load args).Safe V a (CleanAll V) := by
  unfold load
  extract_lets environment args'
  have he : ∀ v ∈ environment, Value.Clean V v := fun v hv =>
    ha.drop 3 v (List.mem_of_mem_head? hv)
  have ha' : CleanAll V args' := ha.take 2
  refine safe_calledFrom _ _ ?_
  split
  · exact (safe_textArg? _ 2).then fun _ => safe_loadText _ _ he
  · refine (safe_textArg? _ 2).then fun chunk => (safe_functionArg ha' 1).bind fun f hf => ?_
    refine (safe_readPieces hf _ _).bind fun r hr => ?_
    split
    · exact safe_loadText _ _ he
    · exact .pure (by simp [hr _ rfl])

/-- Whether a script may have what comes of loading a script. -/
theorem safe_loadScript (path : Option String) {environment : Option Value}
    (he : ∀ v ∈ environment, Value.Clean V v) :
    (loadScript path environment).Safe V a fun r => ∀ f, r = .ok f → f.Clean V := by
  refine .then (safe_ask trivial) fun r => ?_
  split
  · exact .pure fun _ h => nomatch h
  · split
    · exact .pure fun _ h => nomatch h
    · extract_lets next
      refine safe_environment environment (fun v hv => ?_) he
      exact (safe_newChunk _ hv).bind fun f hf => .pure fun _ h => by cases h; exact hf

theorem safe_loadfile (ha : CleanAll V args) : (loadfile args).Safe V a (CleanAll V) := by
  refine (safe_hostText? args 1).then fun path => (safe_hostText? args 2).then fun _ => ?_
  refine (safe_hostTable? ha 3).bind fun environment he => ?_
  refine (safe_loadScript path fun v hv => ?_).bind fun r hr => ?_
  · obtain ⟨id, hid, rfl⟩ := Option.map_eq_some_iff.mp hv
    exact he id hid
  · split
    · exact .pure (by simp [hr _ rfl])
    · exact (safe_log _).then fun _ => .pure (by simp)

theorem safe_dofile (ha : CleanAll V args) : (dofile args).Safe V a (CleanAll V) := by
  refine (safe_loadfile (ha.take 1)).bind fun r hr => ?_
  split
  · exact .pure hr
  · exact safe_become hr.firstOf cleanAll_nil

end OscHost.Script.Library.Base
