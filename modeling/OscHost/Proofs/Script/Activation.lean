import OscHost.Proofs.Script.Operations
import OscHost.Script.Activation
/-!
  What an activation of a script holds stays clean.

  An activation has nothing but what it was called with, what it reads off the heap and what its
  calls give back.  So as long as all that is clean, whatever its instructions are, it pauses with
  clean values, and with an operator to be worked out that is safe.  There is one lemma for each
  instruction that does more than move values; `run_clean` is the induction over the instructions.
-/

namespace OscHost.Script

variable {V : Ward} {h h' : Heap}

/-- Whether a script may have what is in a variable. -/
def Slot.Clean (V : Ward) : Slot → Prop
  | .own v => v.Clean V
  | .shared _ => True

/-- Whether a script may have all that an activation holds. -/
structure Activation.Clean (V : Ward) (x : Activation) : Prop where
  slots : ∀ s ∈ x.slots, s.Clean V
  stack : CleanAll V x.stack
  opened : CleanAll V x.opened
  varargs : CleanAll V x.varargs

/-- Whether a script may have what an activation pauses with, and an operator is safe, whoever works
    it out. -/
def Pause.Clean (V : Ward) : Pause → Prop
  | .outOfFuel => True
  | .call f args _ | .tailCall f args _ => f.Clean V ∧ CleanAll V args
  | .returned values => CleanAll V values
  | .compute x => ∀ a, x.Safe V a (CleanAll V)

/-- What is to come of instructions that are carried out on a heap. -/
structure Paused.Clean (V : Ward) (h : Heap) (p : Paused) : Prop where
  follows : h.Follows V p.heap
  activation : p.activation.Clean V
  pause : p.pause.Clean V

theorem Paused.Clean.after {p : Paused} (hf : h.Follows V h') (hp : p.Clean V h') :
    p.Clean V h :=
  ⟨hf.trans hp.follows, hp.activation, hp.pause⟩

namespace Activation

variable {x : Activation}

/-! ## Variables and operands -/

theorem start_clean (closure : Nat) (c : Closure) {args : List Value} (ha : CleanAll V args)
    (name : Option Origin) : (start closure c args name).Clean V := by
  refine ⟨fun s hs => ?_, cleanAll_nil, cleanAll_nil, ?_⟩
  · rcases Array.mem_append.mp hs with hs | hs
    · obtain ⟨v, hv, rfl⟩ := List.mem_map.mp (List.mem_toArray.mp hs)
      exact ha.take _ v hv
    · rw [(Array.mem_replicate.mp hs).2]
      trivial
  · show CleanAll V (if c.proto.isVararg then args.drop c.proto.params else [])
    split
    · exact ha.drop _
    · exact cleanAll_nil

theorem Clean.slot (hx : x.Clean V) (hg : h.Good V) (n : Nat) : (x.slot h n).Clean V := by
  unfold Activation.slot
  split
  · rename_i hn
    exact hx.slots _ (Array.mem_of_getElem? hn)
  · exact hg.cell _
  · trivial

theorem Clean.leftOpen (hx : x.Clean V) (hg : h.Good V) : CleanAll V (x.leftOpen h) := by
  intro v hv
  obtain ⟨n, _, rfl⟩ := List.mem_map.mp hv
  exact hx.slot hg n

theorem pushExactly_clean {stack values : List Value} (hs : CleanAll V stack)
    (hv : CleanAll V values) (n : Nat) : CleanAll V (pushExactly stack n values) := by
  induction n generalizing stack values with
  | zero => cases values <;> exact hs
  | succ n ih =>
    cases values with
    | nil => exact ih (by simp [hs]) cleanAll_nil
    | cons v values => exact ih (by simp_all) (cleanAll_cons.mp hv).2

theorem Clean.deliver {values : List Value} (hx : x.Clean V) (hv : CleanAll V values) :
    (x.deliver values).Clean V := by
  unfold Activation.deliver
  split
  · exact ⟨hx.slots, pushExactly_clean hx.stack hv _, hx.opened, hx.varargs⟩
  · exact ⟨hx.slots, hx.stack, hv, hx.varargs⟩
  · exact ⟨hx.slots, by simp [hx.stack], hx.opened, hx.varargs⟩

theorem pop_clean {stack taken : List Value} (hs : CleanAll V stack) (ht : CleanAll V taken)
    (n : Nat) : CleanAll V (pop n stack taken).1 ∧ CleanAll V (pop n stack taken).2 := by
  induction n generalizing stack taken with
  | zero => exact ⟨ht, hs⟩
  | succ n ih =>
    cases stack with
    | nil => exact ih cleanAll_nil (by simp [ht])
    | cons v stack => exact ih (cleanAll_cons.mp hs).2 (by simp_all)

/-- Operands and, where they are asked for, the open values. -/
theorem Clean.popOpen (hx : x.Clean V) (n : Nat) (isOpen : Bool) :
    CleanAll V (if isOpen then (pop n x.stack []).1 ++ x.opened else (pop n x.stack []).1) := by
  have hp := (pop_clean hx.stack cleanAll_nil n).1
  split
  · exact cleanAll_append.mpr ⟨hp, hx.opened⟩
  · exact hp

theorem Clean.popCall (hx : x.Clean V) (n : Nat) (isOpen : Bool) :
    (x.popCall n isOpen).1.Clean V ∧ CleanAll V (x.popCall n isOpen).2.1 ∧
      (x.popCall n isOpen).2.2.Clean V := by
  have hargs := hx.popOpen n isOpen
  have hs := (pop_clean hx.stack cleanAll_nil n).2
  unfold Activation.popCall
  generalize pop n x.stack [] = p at *
  obtain ⟨args, stack⟩ := p
  cases stack with
  | nil => exact ⟨trivial, hargs, hx.slots, cleanAll_nil, cleanAll_nil, hx.varargs⟩
  | cons f stack =>
    obtain ⟨hf, hs⟩ := cleanAll_cons.mp hs
    exact ⟨hf, hargs, hx.slots, hs, cleanAll_nil, hx.varargs⟩

theorem setSlot_clean {slots : Array Slot} (ht : ∀ s ∈ slots, s.Clean V) {s : Slot}
    (hs : s.Clean V) (n : Nat) : ∀ t ∈ slots.setIfInBounds n s, t.Clean V := by
  intro t hm
  rcases Table.mem_of_mem_setIfInBounds hm with hm | rfl
  · exact ht t hm
  · exact hs

theorem setOwn_clean {slots : Array Slot} (ht : ∀ s ∈ slots, s.Clean V) {v : Value}
    (hv : v.Clean V) (n : Nat) : ∀ s ∈ slots.setIfInBounds n (.own v), s.Clean V :=
  setSlot_clean ht (s := .own v) hv n

/-! ## Captured variables -/

theorem Clean.share (hx : x.Clean V) (hg : h.Good V) (n : Nat) :
    (x.share h n).2.1.Clean V ∧ h.Follows V (x.share h n).2.2 := by
  unfold Activation.share
  split
  · exact ⟨hx, hg.follows⟩
  · rename_i v hn
    have hv : v.Clean V := hx.slots _ (Array.mem_of_getElem? hn)
    have hs := setSlot_clean hx.slots (s := .shared (h.newCell v).1) trivial n
    exact ⟨⟨hs, hx.stack, hx.opened, hx.varargs⟩, hg.newCell hv⟩
  · exact ⟨hx, hg.newCell Value.clean_nil⟩

theorem Clean.captureAll (hx : x.Clean V) (hg : h.Good V) (cells : Array Nat)
    (captures : List (Capture × String)) :
    (x.captureAll h cells captures).2.1.Clean V ∧
      h.Follows V (x.captureAll h cells captures).2.2 := by
  induction captures generalizing x h cells with
  | nil => exact ⟨hx, hg.follows⟩
  | cons c captures ih =>
    obtain ⟨place, name⟩ := c
    cases place with
    | slot n =>
      obtain ⟨hs, hf⟩ := hx.share hg n
      exact (ih hs hf.good _).imp_right hf.trans
    | upvalue n => exact ih hx hg _

/-! ## Operators -/

theorem plainBinary_clean {op : Binary} {u v w : Value} (hw : plainBinary op u v = some w) :
    w.Clean V := by
  unfold plainBinary at hw
  split at hw
  -- comparing for equality
  case h_1 | h_2 =>
    split at hw
    · cases hw
    · cases hw
      trivial
  case h_3 | h_4 | h_5 | h_6 =>
    obtain ⟨b, _, rfl⟩ := Option.map_eq_some_iff.mp hw
    trivial
  case h_7 =>
    split at hw
    · cases hw
      trivial
    · cases hw
  case h_8 =>
    rcases he : Arith.binary op u v with _ | w'
    · rw [he] at hw
      cases hw
    · rw [he] at hw
      cases hw
      exact Lib.clean_binary he

theorem safe_single {a : Actor} {y : Lib Value} (hy : y.Safe V a (Value.Clean V)) :
    (single y).Safe V a (CleanAll V) :=
  hy.bind fun v hv => .pure (by simp [hv])

theorem safe_quiet {a : Actor} {y : Lib Unit} (hy : y.Safe V a fun _ => True) :
    (quiet y).Safe V a (CleanAll V) :=
  hy.then fun _ => .pure cleanAll_nil

theorem safe_closeValue {a : Actor} {v : Value} (hv : v.Clean V) :
    (closeValue v).Safe V a (CleanAll V) := by
  refine (Lib.safe_read fun h hg => hg.metamethod v _).bind fun f hf => ?_
  have hargs : CleanAll V [v, .nil] := by simp [hv]
  exact (Lib.safe_callLoose hf hargs _).discard.then fun _ => .pure cleanAll_nil

/-! ## Instructions -/

/-- Whether going on with an activation keeps everything clean. -/
def Steady (V : Ward) (go : Heap → Activation → Paused) : Prop :=
  ∀ h x, Heap.Good V h → Clean V x → (go h x).Clean V h

section

variable {go : Heap → Activation → Paused} {origin : Option Origin}
variable (hgo : Steady V go) (hg : h.Good V) (hx : x.Clean V)
include hgo hg hx

/-- Going on at some place with some operands. -/
theorem onward {stack : List Value} (hs : CleanAll V stack) (pc : Nat) :
    (go h { x with pc, stack }).Clean V h :=
  hgo _ _ hg ⟨hx.slots, hs, hx.opened, hx.varargs⟩

/-- Going on at some place with some operands and some variables. -/
theorem assigned {stack : List Value} {slots : Array Slot} (hs : CleanAll V stack)
    (ht : ∀ s ∈ slots, s.Clean V) (pc : Nat) :
    (go h { x with pc, stack, slots }).Clean V h :=
  hgo _ _ hg ⟨ht, hs, hx.opened, hx.varargs⟩

theorem exec_setSlot {n : Nat} :
    (exec go (.setSlot n) h x).Clean V h := by
  have hs := hx.stack
  unfold exec
  dsimp only
  split
  · rename_i v stack he
    rw [he] at hs
    obtain ⟨hv, hs⟩ := cleanAll_cons.mp hs
    split
    · rename_i cell _
      have hf := hg.setCell cell hv
      exact .after hf (onward hgo hf.good hx hs _)
    · exact assigned hgo hg hx hs (setOwn_clean hx.slots hv n) _
  · exact onward hgo hg hx hs _

theorem exec_newSlot {n : Nat} :
    (exec go (.newSlot n) h x).Clean V h := by
  have hs := hx.stack
  unfold exec
  dsimp only
  split
  · rename_i v stack he
    rw [he] at hs
    obtain ⟨hv, hs⟩ := cleanAll_cons.mp hs
    exact assigned hgo hg hx hs (setOwn_clean hx.slots hv n) _
  · exact onward hgo hg hx hs _

theorem exec_setUpvalue {n : Nat} :
    (exec go (.setUpvalue n) h x).Clean V h := by
  have hs := hx.stack
  unfold exec
  dsimp only
  split
  · rename_i v stack he
    rw [he] at hs
    obtain ⟨hv, hs⟩ := cleanAll_cons.mp hs
    have hf := hg.setCell (x.cells.getD n 0) hv
    exact .after hf (onward hgo hf.good hx hs _)
  · exact onward hgo hg hx hs _

/-! ### Tables -/

theorem exec_index :
    (exec go (.index origin) h x).Clean V h := by
  have hs := hx.stack
  unfold exec
  dsimp only
  split
  · rename_i k o stack he
    rw [he] at hs
    obtain ⟨hk, hs⟩ := cleanAll_cons.mp hs
    obtain ⟨ho, hs⟩ := cleanAll_cons.mp hs
    split
    · rename_i v hl
      have hv : (Lib.Lookup.found v).Clean V := hl ▸ Lib.lookup_clean hg ho
      exact onward hgo hg hx (cleanAll_cons.mpr ⟨hv, hs⟩) _
    · exact ⟨hg.follows, ⟨hx.slots, hs, hx.opened, hx.varargs⟩, fun a =>
        safe_single (Lib.safe_index ho hk origin)⟩
  · exact onward hgo hg hx hs _

theorem exec_setIndex :
    (exec go (.setIndex origin) h x).Clean V h := by
  have hs := hx.stack
  unfold exec
  dsimp only
  split
  · rename_i v k o stack he
    rw [he] at hs
    obtain ⟨hv, hs⟩ := cleanAll_cons.mp hs
    obtain ⟨hk, hs⟩ := cleanAll_cons.mp hs
    obtain ⟨ho, hs⟩ := cleanAll_cons.mp hs
    split
    · rename_i id key hl hkey
      have hid : (Lib.Assignment.raw id).Clean V := hl ▸ Lib.assignment_clean hg ho
      have hf := hg.set hid (Key.clean_of_ofValue hk hkey) hv
      exact .after hf (onward hgo hf.good hx hs _)
    · exact ⟨hg.follows, ⟨hx.slots, hs, hx.opened, hx.varargs⟩, fun a =>
        safe_quiet (Lib.safe_setIndex ho hk hv origin)⟩
  · exact onward hgo hg hx hs _

theorem exec_setIndexAt {depth : Nat} :
    (exec go (.setIndexAt depth origin) h x).Clean V h := by
  have hs := hx.stack
  unfold exec
  dsimp only
  split
  · rename_i v stack he
    rw [he] at hs
    obtain ⟨hv, hs⟩ := cleanAll_cons.mp hs
    have hheld := hs.drop (depth - 1)
    split
    · rename_i k o rest hd
      rw [hd] at hheld
      obtain ⟨hk, hheld⟩ := cleanAll_cons.mp hheld
      obtain ⟨ho, _⟩ := cleanAll_cons.mp hheld
      have hrest := cleanAll_append.mpr ⟨hs.take (depth - 1), (hs.drop (depth - 1)).drop 2⟩
      exact ⟨hg.follows, ⟨hx.slots, hrest, hx.opened, hx.varargs⟩, fun a =>
        safe_quiet (Lib.safe_setIndex ho hk hv origin)⟩
    · exact onward hgo hg hx hs _
  · exact onward hgo hg hx hs _

theorem exec_method {name : Bytes} :
    (exec go (.method name origin) h x).Clean V h := by
  have hs := hx.stack
  unfold exec
  dsimp only
  split
  · rename_i o stack he
    rw [he] at hs
    obtain ⟨ho, hs⟩ := cleanAll_cons.mp hs
    split
    · rename_i f hl
      have hf : (Lib.Lookup.found f).Clean V := hl ▸ Lib.lookup_clean hg ho
      exact onward hgo hg hx (cleanAll_cons.mpr ⟨ho, cleanAll_cons.mpr ⟨hf, hs⟩⟩) _
    · exact ⟨hg.follows, ⟨hx.slots, hs, hx.opened, hx.varargs⟩, fun a =>
        (Lib.safe_index ho (Value.clean_string _) origin).bind fun f hf => .pure (by simp [hf, ho])⟩
  · exact onward hgo hg hx hs _

theorem exec_newTable :
    (exec go .newTable h x).Clean V h := by
  have hf := hg.newTable (t := {}) Table.each_empty fun _ h => nomatch h
  exact .after hf (onward hgo hf.good hx (cleanAll_cons.mpr ⟨hg.newTable_clean {}, hx.stack⟩) _)

theorem exec_append {first n : Nat} {isOpen : Bool} :
    (exec go (.append first n isOpen) h x).Clean V h := by
  have hvalues := hx.popOpen n isOpen
  have hs := (pop_clean hx.stack cleanAll_nil n).2
  unfold exec
  dsimp only
  generalize pop n x.stack [] = p at *
  obtain ⟨values, stack⟩ := p
  dsimp only at *
  split
  · rename_i id rest
    have hid := (cleanAll_cons.mp hs).1
    have hf := hg.modifyTable (f := (·.setRun first (if isOpen then values ++ x.opened else values)))
      hid ((hg.tables id).setRun (Value.fits_nil id) (fun _ => trivial) first
        fun v hv => (hvalues v hv).fits id)
      fun m hm => hg.metatables id m (by rwa [Table.metatable_setRun] at hm)
    exact .after hf (hgo _ _ hf.good ⟨hx.slots, hs, cleanAll_nil, hx.varargs⟩)
  · exact hgo _ _ hg ⟨hx.slots, hs, cleanAll_nil, hx.varargs⟩

theorem exec_setField :
    (exec go .setField h x).Clean V h := by
  have hs := hx.stack
  unfold exec
  dsimp only
  split
  · rename_i v k o stack he
    rw [he] at hs
    obtain ⟨hv, hs⟩ := cleanAll_cons.mp hs
    obtain ⟨hk, hrest⟩ := cleanAll_cons.mp hs
    have ho := (cleanAll_cons.mp hrest).1
    split
    · have hf := hg.set ho (Key.clean_of_ofValue hk ‹_›) hv
      exact .after hf (onward hgo hf.good hx hrest _)
    · exact ⟨hg.follows, ⟨hx.slots, hrest, hx.opened, hx.varargs⟩, fun a =>
        safe_quiet (Lib.safe_setIndex ho hk hv none)⟩
  · exact onward hgo hg hx hs _

/-! ### Functions -/

theorem exec_closure {n : Nat} :
    (exec go (.closure n) h x).Clean V h := by
  unfold exec
  dsimp only
  split
  · rename_i p _
    obtain ⟨hc, hf⟩ := hx.captureAll hg #[] p.captures
    have hn := hf.good.newClosure ⟨p, (x.captureAll h #[] p.captures).1⟩
    exact .after (hf.trans hn) (onward hgo hn.good hc (by simp [hc.stack]) _)
  · exact onward hgo hg hx (by simp [hx.stack]) _

omit hgo in
theorem exec_call {n : Nat} {isOpen : Bool} {want : Want} :
    (exec go (.call n isOpen want origin) h x).Clean V h := by
  obtain ⟨hf, hargs, hc⟩ := hx.popCall n isOpen
  exact ⟨hg.follows, ⟨hc.slots, hc.stack, hc.opened, hc.varargs⟩, hf, hargs⟩

omit hgo in
theorem exec_tailCall {n : Nat} {isOpen : Bool} :
    (exec go (.tailCall n isOpen origin) h x).Clean V h := by
  obtain ⟨hf, hargs, hc⟩ := hx.popCall n isOpen
  unfold exec
  dsimp only
  split
  · exact ⟨hg.follows, ⟨hc.slots, hc.stack, hc.opened, hc.varargs⟩, hf, hargs⟩
  · exact ⟨hg.follows, ⟨hc.slots, hc.stack, hc.opened, hc.varargs⟩, hf, hargs⟩

omit hgo in
theorem exec_ret {n : Nat} {isOpen : Bool} :
    (exec go (.ret n isOpen) h x).Clean V h := by
  unfold exec
  dsimp only
  have hvalues : CleanAll V (if x.returning then x.opened else
      if isOpen then (pop n x.stack []).1 ++ x.opened else (pop n x.stack []).1) := by
    split
    · exact hx.opened
    · exact hx.popOpen n isOpen
  split
  · exact ⟨hg.follows, ⟨hx.slots, hx.stack, hx.opened, hx.varargs⟩, hvalues⟩
  · exact ⟨hg.follows, ⟨hx.slots, hx.stack, hvalues, hx.varargs⟩, fun a =>
      safe_closeValue (hx.slot hg _)⟩

/-! ### Operators -/

theorem exec_unary {op : Unary} :
    (exec go (.unary op origin) h x).Clean V h := by
  have hs := hx.stack
  unfold exec
  dsimp only
  split
  · rename_i v stack he
    rw [he] at hs
    obtain ⟨hv, hrest⟩ := cleanAll_cons.mp hs
    split
    · exact onward hgo hg hx (by simp [hrest]) _
    · exact onward hgo hg hx (by simp [hrest]) _
    · exact onward hgo hg hx (by simp [hrest]) _
    · exact ⟨hg.follows, ⟨hx.slots, hrest, hx.opened, hx.varargs⟩, fun a =>
        safe_single (Lib.safe_unary op hv origin)⟩
  · exact onward hgo hg hx hs _

theorem exec_binary {op : Binary} {origins : Origins} :
    (exec go (.binary op origins) h x).Clean V h := by
  have hs := hx.stack
  unfold exec
  dsimp only
  split
  · rename_i v u stack he
    rw [he] at hs
    obtain ⟨hv, hs⟩ := cleanAll_cons.mp hs
    obtain ⟨hu, hs⟩ := cleanAll_cons.mp hs
    split
    · rename_i w hw
      exact onward hgo hg hx (cleanAll_cons.mpr ⟨plainBinary_clean hw, hs⟩) _
    · exact ⟨hg.follows, ⟨hx.slots, hs, hx.opened, hx.varargs⟩, fun a =>
        safe_single (Lib.safe_binary op hu hv origins)⟩
  · exact onward hgo hg hx hs _

/-! ### Variables to be closed -/

theorem exec_markClose {slot : Nat} {name : String} :
    (exec go (.markClose slot name) h x).Clean V h := by
  unfold exec
  dsimp only
  split
  · exact onward hgo hg hx hx.stack _
  · exact onward hgo hg hx hx.stack _
  · split
    · exact ⟨hg.follows, ⟨hx.slots, hx.stack, hx.opened, hx.varargs⟩, fun a => Lib.safe_complain _⟩
    · exact hgo _ _ hg ⟨hx.slots, hx.stack, hx.opened, hx.varargs⟩

theorem exec_close {slot : Nat} :
    (exec go (.close slot) h x).Clean V h := by
  unfold exec
  dsimp only
  split
  · exact onward hgo hg hx hx.stack _
  · split
    · exact onward hgo hg hx hx.stack _
    · exact ⟨hg.follows, ⟨hx.slots, hx.stack, hx.opened, hx.varargs⟩, fun a =>
        safe_closeValue (hx.slot hg _)⟩

/-! ### Jumps and loops -/

theorem exec_jumpIfNot {target : Nat} :
    (exec go (.jumpIfNot target) h x).Clean V h := by
  have hs := hx.stack
  unfold exec
  dsimp only
  split
  · rename_i v stack he
    rw [he] at hs
    exact onward hgo hg hx (cleanAll_cons.mp hs).2 _
  · exact onward hgo hg hx hs _

theorem exec_jumpKeeping {on : Bool} {target : Nat} :
    (exec go (.jumpKeeping on target) h x).Clean V h := by
  have hs := hx.stack
  unfold exec
  dsimp only
  split
  · rename_i v stack he
    split
    · exact onward hgo hg hx hs _
    · rw [he] at hs
      exact onward hgo hg hx (cleanAll_cons.mp hs).2 _
  · exact onward hgo hg hx hs _

theorem exec_forPrepare {base exit : Nat} :
    (exec go (.forPrepare base exit) h x).Clean V h := by
  unfold exec
  dsimp only
  split
  · exact ⟨hg.follows, ⟨hx.slots, hx.stack, hx.opened, hx.varargs⟩, fun a => Lib.safe_complain _⟩
  · exact onward hgo hg hx hx.stack _
  · exact assigned hgo hg hx hx.stack (setOwn_clean (setOwn_clean (setOwn_clean (setOwn_clean
      hx.slots (Value.clean_int _) _) (Value.clean_int _) _) (Value.clean_int _) _)
      (Value.clean_int _) _) _
  · exact assigned hgo hg hx hx.stack (setOwn_clean (setOwn_clean (setOwn_clean (setOwn_clean
      hx.slots (Value.clean_float _) _) (Value.clean_float _) _) (Value.clean_float _) _)
      (Value.clean_float _) _) _

theorem exec_forLoop {base start : Nat} :
    (exec go (.forLoop base start) h x).Clean V h := by
  unfold exec
  dsimp only
  split
  · split
    · exact onward hgo hg hx hx.stack _
    · exact assigned hgo hg hx hx.stack (setOwn_clean (setOwn_clean (setOwn_clean
        hx.slots (Value.clean_int _) _) (Value.clean_int _) _) (Value.clean_int _) _) _
  · refine iteInduction (fun _ => ?_) fun _ => ?_
    · exact assigned hgo hg hx hx.stack (setOwn_clean (setOwn_clean
        hx.slots (Value.clean_float _) _) (Value.clean_float _) _) _
    · exact onward hgo hg hx hx.stack _
  · exact onward hgo hg hx hx.stack _

theorem exec_forTest {base exit : Nat} :
    (exec go (.forTest base exit) h x).Clean V h := by
  have hv := hx.slot hg (base + 4)
  unfold exec
  dsimp only
  split
  · exact onward hgo hg hx hx.stack _
  · exact assigned hgo hg hx hx.stack (setOwn_clean hx.slots hv _) _

end

/-- An instruction, whatever it is, keeps what its activation holds clean and the heap good. -/
theorem exec_clean {go : Heap → Activation → Paused} (hgo : Steady V go) (i : Instr)
    (hg : h.Good V) (hx : x.Clean V) : (exec go i h x).Clean V h := by
  cases i with
  | pushNil | pushBool _ | pushInt _ | pushFloat _ | pushString _ =>
    exact onward hgo hg hx (by simp [hx.stack]) _
  | drop n => exact onward hgo hg hx (hx.stack.drop n) _
  | getSlot n => exact onward hgo hg hx (cleanAll_cons.mpr ⟨hx.slot hg n, hx.stack⟩) _
  | setSlot n => exact exec_setSlot hgo hg hx
  | newSlot n => exact exec_newSlot hgo hg hx
  | getUpvalue n => exact onward hgo hg hx (cleanAll_cons.mpr ⟨hg.cell _, hx.stack⟩) _
  | setUpvalue n => exact exec_setUpvalue hgo hg hx
  | index origin => exact exec_index hgo hg hx
  | setIndex origin => exact exec_setIndex hgo hg hx
  | setIndexAt depth origin => exact exec_setIndexAt hgo hg hx
  | method name origin => exact exec_method hgo hg hx
  | newTable => exact exec_newTable hgo hg hx
  | append first n isOpen => exact exec_append hgo hg hx
  | setField => exact exec_setField hgo hg hx
  | closure n => exact exec_closure hgo hg hx
  | varargs want =>
    have hw : Clean V { x with pc := x.pc + 1, want } :=
      ⟨hx.slots, hx.stack, hx.opened, hx.varargs⟩
    exact hgo _ _ hg (hw.deliver hx.varargs)
  | call n isOpen want origin => exact exec_call hg hx
  | tailCall n isOpen origin => exact exec_tailCall hg hx
  | ret n isOpen => exact exec_ret hg hx
  | jump target => exact onward hgo hg hx hx.stack _
  | jumpIfNot target => exact exec_jumpIfNot hgo hg hx
  | jumpKeeping on target => exact exec_jumpKeeping hgo hg hx
  | unary op origin => exact exec_unary hgo hg hx
  | binary op origins => exact exec_binary hgo hg hx
  | markClose slot name => exact exec_markClose hgo hg hx
  | close slot => exact exec_close hgo hg hx
  | forPrepare base exit => exact exec_forPrepare hgo hg hx
  | forLoop base start => exact exec_forLoop hgo hg hx
  | forTest base exit => exact exec_forTest hgo hg hx

theorem run_end {x : Activation} (hc : x.code[x.pc]? = none) (fuel : Nat) (h : Heap) :
    run (fuel + 1) h x = ⟨h, x, .returned []⟩ := by
  unfold run
  rw [hc]

theorem run_code {x : Activation} {i : Instr} {line : Nat} (hc : x.code[x.pc]? = some (i, line))
    (fuel : Nat) (h : Heap) : run (fuel + 1) h x = exec (run fuel) i h x := by
  unfold run
  rw [hc]

/-- Instructions, however many they are, keep what their activation holds clean and the heap good,
    up to where they pause. -/
theorem run_clean (fuel : Nat) : Steady V (run fuel) := by
  induction fuel with
  | zero => exact fun h x hg hx => ⟨hg.follows, hx, trivial⟩
  | succ fuel ih =>
    intro h x hg hx
    rcases hc : x.code[x.pc]? with _ | ⟨i, line⟩
    · rw [run_end hc]
      exact ⟨hg.follows, hx, cleanAll_nil⟩
    · rw [run_code hc]
      exact exec_clean ih _ hg hx

end Activation

end OscHost.Script
