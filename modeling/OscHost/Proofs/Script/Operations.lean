import OscHost.Proofs.Script.Safety
/-!
  Arguments and operators are safe.

  Reading an argument yields it or complains.  An operator yields what it finds in clean tables or
  what a metamethod yields, and the metamethods of clean values are clean.
-/

namespace OscHost.Script.Lib

variable {V : Ward} {a : Actor} {α : Type} {P : α → Prop} {args : Args}

theorem clean_get (ha : CleanAll V args) (n : Nat) : (args.get n).Clean V := ha.getD _

theorem clean_getD {o : Option Value} (ho : ∀ v ∈ o, v.Clean V) : (o.getD .nil).Clean V := by
  cases o with
  | none => trivial
  | some v => exact ho v rfl

theorem clean_mapInt (o : Option Int64) : ((o.map Value.int).getD .nil).Clean V := by
  cases o <;> trivial

/-! ## Arguments -/

theorem safe_ownName : ownName.Safe V a fun _ => True := by
  refine safe_site.then fun s => ?_
  split
  · exact .pure trivial
  · exact .then (safe_read fun _ _ => trivial) fun _ => .pure trivial
  · exact .pure trivial

theorem safe_badArgument (n : Nat) (why : Bytes) : (badArgument n why : Lib α).Safe V a P := by
  refine safe_ownName.then fun (origin, name) => ?_
  exact .ite (fun _ => safe_raise _) fun _ => safe_raise _

theorem safe_badType (args : Args) (n : Nat) (expected : String) :
    (badType args n expected : Lib α).Safe V a P := by
  unfold badType
  extract_lets next
  have hn : ∀ got, (next got).Safe V a P := fun got => safe_badArgument _ _
  split
  · split
    · exact .then (.pure trivial) hn
    · exact .then (safe_read fun _ _ => trivial) hn
  · exact .then (.pure trivial) hn

theorem safe_anyArg (ha : CleanAll V args) (n : Nat) :
    (anyArg args n).Safe V a (Value.Clean V) :=
  .ite (fun _ => .pure (clean_get ha n)) fun _ => safe_badArgument _ _

theorem safe_tableArg_eq (args : Args) (n : Nat) :
    (tableArg args n).Safe V a fun id => args.get n = .table id := by
  unfold tableArg
  split
  · exact .pure ‹_›
  · exact safe_badType ..

theorem safe_tableArg (ha : CleanAll V args) (n : Nat) :
    (tableArg args n).Safe V a fun id => (Value.table id).Clean V :=
  (safe_tableArg_eq args n).mono fun _ he => he ▸ clean_get ha n

theorem safe_textArg_eq (args : Args) (n : Nat) :
    (textArg args n).Safe V a fun s => (args.get n).asText? = some s := by
  unfold textArg
  split
  · exact .pure ‹_›
  · exact safe_badType ..

theorem safe_textArg (args : Args) (n : Nat) : (textArg args n).Safe V a fun _ => True :=
  (safe_textArg_eq args n).mono fun _ _ => trivial

theorem safe_textArg? (args : Args) (n : Nat) : (textArg? args n).Safe V a fun _ => True := by
  unfold textArg?
  split
  · exact .pure trivial
  · exact (safe_textArg args n).then fun _ => .pure trivial

theorem clean_ofNumeral {s : Bytes} {n : Value} (h : Value.ofNumeral? s = some n) :
    n.Clean V := by
  obtain ⟨x, _, rfl⟩ := Option.map_eq_some_iff.mp h
  split <;> trivial

theorem clean_toNumber {v n : Value} (h : v.toNumber? = some n) : n.Clean V := by
  unfold Value.toNumber? at h
  split at h
  · cases h
    trivial
  · cases h
    trivial
  · cases h
    trivial
  · exact clean_ofNumeral h
  · cases h

theorem safe_numberArg (args : Args) (n : Nat) : (numberArg args n).Safe V a (Value.Clean V) := by
  unfold numberArg
  split
  · exact .pure (clean_toNumber ‹_›)
  · exact safe_badType ..

theorem safe_floatArg (args : Args) (n : Nat) : (floatArg args n).Safe V a fun _ => True :=
  (safe_numberArg args n).bind fun _ _ => .pure trivial

theorem safe_intArg (args : Args) (n : Nat) : (intArg args n).Safe V a fun _ => True := by
  unfold intArg
  split
  · split
    · exact .pure trivial
    · split
      all_goals first | exact safe_badArgument .. | exact safe_badType ..
  · exact safe_badType ..

theorem safe_intArgOr (args : Args) (n : Nat) (default : Int64) :
    (intArgOr args n default).Safe V a fun _ => True := by
  unfold intArgOr
  split
  · exact .pure trivial
  · exact safe_intArg args n

theorem safe_optionArg (args : Args) (n : Nat) (default : Option String) (words : List String) :
    (optionArg args n default words).Safe V a fun _ => True := by
  unfold optionArg
  split
  · exact .pure trivial
  · refine (safe_textArg args n).then fun s => ?_
    split
    · exact .pure trivial
    · exact safe_badArgument ..

theorem safe_functionArg (ha : CleanAll V args) (n : Nat) :
    (functionArg args n).Safe V a (Value.Clean V) := by
  have hn := clean_get ha n
  unfold functionArg
  split
  · exact .pure trivial
  · rename_i b he
    rw [he] at hn
    exact .pure hn
  · exact .pure trivial
  · exact safe_badType ..

theorem safe_badHostArgument (n : Nat) (v : Value) (target : String) :
    (badHostArgument n v target : Lib α).Safe V a P :=
  .then (safe_read fun _ _ => trivial) fun _ => safe_failHost _

theorem safe_hostText (args : Args) (n : Nat) : (hostText args n).Safe V a fun _ => True := by
  unfold hostText
  extract_lets v
  split
  · exact safe_badHostArgument ..
  · split
    · exact .pure trivial
    · exact safe_badHostArgument ..

theorem safe_hostText? (args : Args) (n : Nat) : (hostText? args n).Safe V a fun _ => True := by
  unfold hostText?
  split
  · exact .pure trivial
  · exact (safe_hostText args n).then fun _ => .pure trivial

theorem safe_hostTable? (ha : CleanAll V args) (n : Nat) :
    (hostTable? args n).Safe V a fun r => ∀ id ∈ r, (Value.table id).Clean V := by
  have hn := clean_get ha n
  unfold hostTable?
  split
  · exact .pure fun _ h => nomatch h
  · rename_i id he
    rw [he] at hn
    exact .pure fun _ h => by cases h; exact hn
  · exact safe_badHostArgument ..

/-! ## Indexing -/

theorem safe_callMeta (event : String) {f : Value} (hf : f.Clean V) (ha : CleanAll V args) :
    (callMeta event f args).Safe V a (CleanAll V) := by
  refine safe_site.then fun s => ?_
  exact .ite (fun _ => safe_callLoose hf ha _) fun _ => safe_call hf ha _

/-- What a look-up yields or goes on with is clean. -/
def Lookup.Clean (V : Ward) : Lookup → Prop
  | .found v | .viaCall v | .via v => v.Clean V
  | .impossible => True

theorem lookup_clean {h : Heap} (hg : h.Good V) {o k : Value} (ho : o.Clean V) :
    (lookup h o k).Clean V := by
  unfold lookup
  extract_lets next
  -- what stands in for a missing entry
  have hnext : ∀ (v : Value) (missing : Lookup), v.Clean V → missing.Clean V →
      (next v missing).Clean V := by
    intro v missing hv hm
    unfold next
    split
    · exact hm
    all_goals exact hv
  split
  · dsimp only
    split
    · split
      · trivial
      · exact hnext _ _ (hg.get (hg.metatables _ _ ‹_›) _) trivial
    · split
      · exact hg.get ho _
      · trivial
  · exact hnext _ _ (hg.metamethod _ _) trivial

theorem safe_indexFrom (fuel : Nat) {o k : Value} (origin : Option Origin) (ho : o.Clean V)
    (hk : k.Clean V) : (indexFrom o k origin fuel).Safe V a (Value.Clean V) := by
  induction fuel generalizing o origin with
  | zero => exact safe_complain _
  | succ fuel ih =>
    refine (safe_read fun h hg => lookup_clean hg ho).bind fun r hr => ?_
    split
    · exact .pure hr
    · exact (safe_callMeta _ hr (by simp [ho, hk])).bind fun rs hrs => .pure hrs.firstOf
    · exact ih none hr
    · exact safe_wrongType ..

theorem safe_index {o k : Value} (ho : o.Clean V) (hk : k.Clean V)
    (origin : Option Origin := none) : (index o k origin).Safe V a (Value.Clean V) :=
  safe_indexFrom maxChain origin ho hk

/-- What setting an entry comes to is a table, or a value to go on with, that is clean. -/
def Assignment.Clean (V : Ward) : Assignment → Prop
  | .raw id => (Value.table id).Clean V
  | .viaCall v | .via v => v.Clean V
  | .impossible => True

theorem assignment_clean {h : Heap} (hg : h.Good V) {o k : Value} (ho : o.Clean V) :
    (assignment h o k).Clean V := by
  unfold assignment
  extract_lets next
  have hnext : ∀ (v : Value) (missing : Assignment), v.Clean V → missing.Clean V →
      (next v missing).Clean V := by
    intro v missing hv hm
    unfold next
    split
    · exact hm
    all_goals exact hv
  split
  · dsimp only
    split
    · exact ho
    · rename_i m hm
      have hn := hnext _ (.raw _) (hg.get (hg.metatables _ m hm) (.string "__newindex")) ho
      split
      · split
        · exact ho
        · exact hn
      · exact hn
  · exact hnext _ _ (hg.metamethod _ _) trivial

theorem safe_rawSet {id : Nat} {k v : Value} (hid : (Value.table id).Clean V) (hk : k.Clean V)
    (hv : v.Clean V) : (rawSet id k v).Safe V a fun _ => True := by
  unfold rawSet
  split
  · exact safe_modify fun h hg => hg.set hid (Key.clean_of_ofValue hk ‹_›) hv
  · exact safe_complain _
  · exact safe_complain _

theorem safe_setIndexFrom (fuel : Nat) {o k v : Value} (origin : Option Origin) (ho : o.Clean V)
    (hk : k.Clean V) (hv : v.Clean V) :
    (setIndexFrom o k v origin fuel).Safe V a fun _ => True := by
  induction fuel generalizing o origin with
  | zero => exact safe_complain _
  | succ fuel ih =>
    refine (safe_read fun h hg => assignment_clean (k := k) hg ho).bind fun r hr => ?_
    split
    · exact safe_rawSet hr hk hv
    · exact (safe_callMeta _ hr (by simp [ho, hk, hv])).discard
    · exact ih none hr
    · exact safe_wrongType ..

theorem safe_setIndex {o k v : Value} (ho : o.Clean V) (hk : k.Clean V) (hv : v.Clean V)
    (origin : Option Origin := none) : (setIndex o k v origin).Safe V a fun _ => True :=
  safe_setIndexFrom maxChain origin ho hk hv

/-! ## Operators -/

theorem clean_onFloats (f : Float → Float → Float) (x y : Value) (c d : Float) :
    (Arith.onFloats f x y c d).Clean V := by
  unfold Arith.onFloats
  split
  · trivial
  · trivial
  · exact Value.clean_ofFloat _

theorem clean_floating {f : Float → Float → Float} {x y v : Value}
    (h : Arith.floating f x y = .ok v) : v.Clean V := by
  unfold Arith.floating at h
  split at h
  · cases h
    exact clean_onFloats ..
  · cases h

theorem clean_mixed {onInts : Int64 → Int64 → Except Arith.Failure Value}
    {f : Float → Float → Float} {x y v : Value}
    (hi : ∀ m n v, onInts m n = .ok v → v.Clean V) (h : Arith.mixed onInts f x y = .ok v) :
    v.Clean V := by
  unfold Arith.mixed at h
  split at h
  · exact hi _ _ _ h
  · split at h
    · cases h
      exact clean_onFloats ..
    · cases h

theorem clean_bitwise {f : Int64 → Int64 → Int64} {x y v : Value}
    (h : Arith.bitwise f x y = .ok v) : v.Clean V := by
  unfold Arith.bitwise at h
  split at h
  · cases h
    trivial
  · split at h <;> cases h

theorem clean_binary {op : Binary} {x y v : Value} (h : Arith.binary op x y = .ok v) :
    v.Clean V := by
  unfold Arith.binary at h
  split at h
  case h_1 | h_2 | h_3 => exact clean_mixed (fun _ _ _ h => by cases h; trivial) h
  case h_4 | h_5 => exact clean_mixed (fun _ _ _ h => by split at h <;> cases h; trivial) h
  case h_6 | h_7 => exact clean_floating h
  case h_8 | h_9 | h_10 | h_11 | h_12 => exact clean_bitwise h
  all_goals cases h

theorem clean_minus {x v : Value} (h : Arith.minus x = some v) : v.Clean V := by
  unfold Arith.minus at h
  split at h <;> cases h <;> trivial

theorem clean_complement {x v : Value} (h : Arith.complement x = .ok v) : v.Clean V := by
  unfold Arith.complement at h
  split at h
  · cases h
    trivial
  · split at h <;> cases h

theorem clean_metaOf {h : Heap} (hg : h.Good V) (event : String) (x y : Value) :
    (metaOf event x y h).Clean V := by
  unfold metaOf
  split
  · exact hg.metamethod _ _
  · exact hg.metamethod _ _

variable {x y : Value}

/-- Calling the metamethod of an operator for its first result. -/
theorem safe_firstMeta (event : String) {f : Value} (hf : f.Clean V) (ha : CleanAll V args) :
    (do return firstOf (← callMeta event f args)).Safe V a (Value.Clean V) :=
  (safe_callMeta event hf ha).bind fun _ hr => .pure hr.firstOf

theorem safe_badOperand (what : String) (x y : Value) (origins : Origins) :
    (badOperand what x y origins : Lib α).Safe V a P :=
  .ite (fun _ => safe_wrongType ..) fun _ => safe_wrongType ..

theorem safe_arith (op : Binary) (hx : x.Clean V) (hy : y.Clean V) (origins : Origins) :
    (arith op x y origins).Safe V a (Value.Clean V) := by
  unfold arith
  split
  · exact .pure (clean_binary ‹_›)
  · exact safe_complain _
  · exact safe_complain _
  · refine (safe_read fun h hg => clean_metaOf hg _ x y).bind fun f hf => ?_
    split
    · split
      · exact safe_complain _
      · exact safe_badOperand ..
    · exact safe_firstMeta _ hf (by simp [hx, hy])

theorem safe_minus (hx : x.Clean V) (origin : Option Origin) :
    (minus x origin).Safe V a (Value.Clean V) := by
  unfold minus
  split
  · exact .pure (clean_minus ‹_›)
  · refine (safe_read fun h hg => hg.metamethod x _).bind fun f hf => ?_
    split
    · exact safe_wrongType ..
    · exact safe_firstMeta _ hf (by simp [hx])

theorem safe_complement (hx : x.Clean V) (origin : Option Origin) :
    (complement x origin).Safe V a (Value.Clean V) := by
  unfold complement
  split
  · exact .pure (clean_complement ‹_›)
  · refine (safe_read fun h hg => hg.metamethod x _).bind fun f hf => ?_
    split
    · split
      · exact safe_complain _
      · exact safe_wrongType ..
    · exact safe_firstMeta _ hf (by simp [hx])

theorem safe_concat (hx : x.Clean V) (hy : y.Clean V) (origins : Origins) :
    (concat x y origins).Safe V a (Value.Clean V) := by
  unfold concat
  split
  · exact .pure trivial
  · refine (safe_read fun h hg => clean_metaOf hg _ x y).bind fun f hf => ?_
    split
    · exact .ite (fun _ => safe_wrongType ..) fun _ => safe_wrongType ..
    · exact safe_firstMeta _ hf (by simp [hx, hy])

theorem safe_length (hx : x.Clean V) (origin : Option Origin := none) :
    (length x origin).Safe V a (Value.Clean V) := by
  unfold length
  split
  · exact .pure trivial
  · refine (safe_read fun h hg => hg.metamethod _ _).bind fun f hf => ?_
    split
    · split
      · exact .then (safe_read fun _ _ => trivial) fun _ => .pure trivial
      · exact safe_wrongType ..
    · exact safe_firstMeta _ hf (by simp [hx])

theorem safe_noOrder (x y : Value) : (noOrder x y : Lib α).Safe V a P := by
  refine .then (safe_read fun _ _ => trivial) fun _ => ?_
  refine .then (safe_read fun _ _ => trivial) fun _ => ?_
  exact .ite (fun _ => safe_complain _) fun _ => safe_complain _

/-- Calling the metamethod of a comparison. -/
theorem safe_truthMeta (event : String) {f : Value} (hf : f.Clean V) (ha : CleanAll V args) :
    (do return (firstOf (← callMeta event f args)).isTrue).Safe V a fun _ => True :=
  (safe_callMeta event hf ha).bind fun _ _ => .pure trivial

theorem safe_less (hx : x.Clean V) (hy : y.Clean V) : (less x y).Safe V a fun _ => True := by
  unfold less
  split
  · exact .pure trivial
  · refine (safe_read fun h hg => clean_metaOf hg _ x y).bind fun f hf => ?_
    split
    · exact safe_noOrder ..
    · exact safe_truthMeta _ hf (by simp [hx, hy])

theorem safe_atMost (hx : x.Clean V) (hy : y.Clean V) : (atMost x y).Safe V a fun _ => True := by
  unfold atMost
  split
  · exact .pure trivial
  · refine (safe_read fun h hg => clean_metaOf hg _ x y).bind fun f hf => ?_
    split
    · exact safe_noOrder ..
    · exact safe_truthMeta _ hf (by simp [hx, hy])

theorem safe_equal (hx : x.Clean V) (hy : y.Clean V) : (equal x y).Safe V a fun _ => True := by
  unfold equal
  refine .ite (fun _ => .pure trivial) fun _ => .ite (fun _ => ?_) fun _ => .pure trivial
  refine (safe_read fun h hg => clean_metaOf hg _ x y).bind fun f hf => ?_
  split
  · exact .pure trivial
  · exact safe_truthMeta _ hf (by simp [hx, hy])

theorem safe_binary (op : Binary) (hx : x.Clean V) (hy : y.Clean V) (origins : Origins) :
    (binary op x y origins).Safe V a (Value.Clean V) := by
  unfold binary
  split
  · exact safe_concat hx hy origins
  · exact (safe_equal hx hy).then fun _ => .pure trivial
  · exact (safe_equal hx hy).then fun _ => .pure trivial
  · exact (safe_less hx hy).then fun _ => .pure trivial
  · exact (safe_atMost hx hy).then fun _ => .pure trivial
  · exact (safe_less hy hx).then fun _ => .pure trivial
  · exact (safe_atMost hy hx).then fun _ => .pure trivial
  · exact safe_arith op hx hy origins

theorem safe_unary (op : Unary) (hx : x.Clean V) (origin : Option Origin) :
    (unary op x origin).Safe V a (Value.Clean V) := by
  unfold unary
  split
  · exact safe_minus hx origin
  · exact .pure trivial
  · exact safe_length hx origin
  · exact safe_complement hx origin

theorem safe_text (hx : x.Clean V) : (text x).Safe V a fun _ => True := by
  refine (safe_read fun h hg => hg.metamethod x _).bind fun f hf => ?_
  split
  · exact safe_read fun _ _ => trivial
  · refine (safe_call hf (by simp [hx])).bind fun rs _ => ?_
    split
    · exact .pure trivial
    · exact safe_raise _

end OscHost.Script.Lib
