import OscHost.Proofs.Script.Vault
import OscHost.Script.Library.HostApi
/-!
  Library computations that keep scripts where they are.

  An action is `Safe` when it leaves a good heap behind, hands over clean values only and goes on
  safely, whatever clean values it is answered with and however the heap has changed meanwhile.
  What it may change of the loaded modules, and what it may ask the host for, is up to the
  function that acts: only `require` registers a module, and only under the name it was asked for.

  `Lib.Safe` says the same of a computation, in the style of what the rest of the computation may
  rely on.  The rules below follow the monad, so a proof about a library function has the shape of
  its definition.
-/

namespace OscHost.Script

/-- Who acts: a function and the name of the module it is to find, if that is what it does. -/
structure Actor where
  function : Value
  name : Bytes

/-- Which effects a function may ask for.  Whoever else scripts may have, only `menu.update` asks for a
    new menu. -/
def Actor.May (V : Ward) (a : Actor) : Effect → Prop
  | .requestMenu => a.function = .builtin .menuUpdate
  | .probe _ => V.reachesOut ∨ a.function = .builtin .searchpath
  | .temporaryFile => V.reachesOut ∨ a.function = .builtin .ioTmpfile
  | .openProcess .. | .execute _ => V.reachesOut
  | _ => True

/-- What a coroutine says that sleeps: the mark and a number. -/
def SleepSignal (vs : List Value) : Prop :=
  ∃ n : Value, n.isNumber ∧ vs = [Library.HostApi.sleepMark, n]

theorem clean_sleepMark {V : Ward} (hV : V ≠ .mark) : Library.HostApi.sleepMark.Clean V :=
  fun he => absurd he hV

/-- Of what says that a coroutine sleeps, scripts may have all but the mark. -/
theorem SleepSignal.clean_of_ne {vs : List Value} (hs : SleepSignal vs) {V : Ward} :
    ∀ v ∈ vs, v ≠ Library.HostApi.sleepMark → v.Clean V := by
  obtain ⟨n, hn, rfl⟩ := hs
  simp only [List.forall_mem_cons]
  refine ⟨fun hne => absurd rfl hne, fun _ => ?_, List.forall_mem_nil _⟩
  cases n with
  | int _ | float _ | nan _ => trivial
  | _ => cases hn

theorem SleepSignal.clean {vs : List Value} (hs : SleepSignal vs) {V : Ward} (hV : V ≠ .mark) :
    CleanAll V vs := by
  intro v hv
  by_cases he : v = Library.HostApi.sleepMark
  · exact he ▸ clean_sleepMark hV
  · exact hs.clean_of_ne v hv he

/-- Whether a function may suspend its coroutine with some values: `sleep` does so to say that it sleeps,
    all others with what scripts may have. -/
structure Actor.MayYield (V : Ward) (a : Actor) (vs : List Value) : Prop where
  sleep : a.function = .builtin .sleep → SleepSignal vs
  other : a.function ≠ .builtin .sleep → CleanAll V vs

/-- The loaded modules are the same, but for one that `require` has registered. -/
def Heap.Kept (V : Ward) (a : Actor) (h h' : Heap) : Prop :=
  ∀ w ∈ V, ∀ k, (h'.table w.loaded).get k = (h.table w.loaded).get k ∨
    a.function = .builtin .require ∧ w.asked a.name ∧ k = .string a.name ∧
      ((h'.table w.loaded).get k).isNil = false

/-- What a function has made of a heap so far. -/
structure Tidy (V : Ward) (a : Actor) (h₀ h : Heap) : Prop where
  good : h.Good V
  kept : h₀.Kept V a h

variable {V : Ward} {a : Actor} {h₀ h h' : Heap}

theorem Heap.Good.tidy (hg : h.Good V) : Tidy V a h h := ⟨hg, fun _ _ _ => .inl rfl⟩

theorem Tidy.follow (ht : Tidy V a h₀ h) (hf : h.Follows V h') : Tidy V a h₀ h' :=
  ⟨hf.good, fun w hw k => by rw [hf.same w hw]; exact ht.kept w hw k⟩

/-- Whether a script may have what comes of a call whose error is caught. -/
def CleanResult (V : Ward) : Except Value (List Value) → Prop
  | .ok vs => CleanAll V vs
  | .error v => v.Clean V

@[simp] theorem cleanResult_ok {vs : List Value} : CleanResult V (.ok vs) ↔ CleanAll V vs := .rfl

@[simp] theorem cleanResult_error {v : Value} : CleanResult V (.error v) ↔ v.Clean V := .rfl

theorem CleanAll.firstOf {vs : List Value} (h : CleanAll V vs) : (firstOf vs).Clean V := by
  cases vs with
  | nil => trivial
  | cons v vs => exact h v List.mem_cons_self

/-- Whether a script may have what remains of a coroutine. -/
structure Remains.Clean (V : Ward) (r : Remains) : Prop where
  failure : ∀ v ∈ r.failure, v.Clean V
  leftOpen : CleanAll V r.leftOpen

theorem Remains.clean_empty : ({} : Remains).Clean V := ⟨(fun _ h => nomatch h), cleanAll_nil⟩

/-! ## Actions -/

/-- The heap at the moment of an action. -/
def Action.heap : Action → Heap
  | .done _ h | .fail _ h | .call _ _ _ _ h _ | .become _ _ h | .guard _ _ _ _ h _ | .ask _ h _
  | .create _ h _ | .inspect _ h _ | .resume _ _ h _ | .yield _ h _ | .abandon _ h _ => h

/-- Whether an action, and all that it goes on with, is safe. -/
inductive Action.Safe (V : Ward) (a : Actor) : Heap → Action → Prop
  | done {h₀ h vs} (tidy : Tidy V a h₀ h) (values : CleanAll V vs) : Safe V a h₀ (.done vs h)
  | fail {h₀ h v} (tidy : Tidy V a h₀ h) (error : v.Clean V) : Safe V a h₀ (.fail v h)
  | call {h₀ h f vs origin pinned k} (tidy : Tidy V a h₀ h) (callee : f.Clean V)
      (args : CleanAll V vs)
      (next : ∀ rs h', CleanAll V rs → h'.Good V → Safe V a h' (k rs h')) :
      Safe V a h₀ (.call f vs origin pinned h k)
  | become {h₀ h f vs} (tidy : Tidy V a h₀ h) (callee : f.Clean V) (args : CleanAll V vs) :
      Safe V a h₀ (.become f vs h)
  | guard {h₀ h f vs g pinned k} (tidy : Tidy V a h₀ h) (callee : f.Clean V)
      (args : CleanAll V vs) (handler : ∀ v ∈ g, Value.Clean V v)
      (next : ∀ r h', CleanResult V r → h'.Good V → Safe V a h' (k r h')) :
      Safe V a h₀ (.guard f vs g pinned h k)
  | ask {h₀ h e k} (tidy : Tidy V a h₀ h) (may : a.May V e)
      (next : ∀ r h', h'.Good V → Safe V a h' (k r h')) : Safe V a h₀ (.ask e h k)
  | create {h₀ h body k} (tidy : Tidy V a h₀ h) (clean : body.Clean V)
      (next : ∀ id h', h'.Good V → Safe V a h' (k id h')) : Safe V a h₀ (.create body h k)
  | inspect {h₀ h thread k} (tidy : Tidy V a h₀ h)
      (next : ∀ s h', h'.Good V → Safe V a h' (k s h')) : Safe V a h₀ (.inspect thread h k)
  | resume {h₀ h thread vs k} (tidy : Tidy V a h₀ h) (args : CleanAll V vs)
      (next : ∀ r h', CleanResult V r → h'.Good V → Safe V a h' (k r h')) :
      Safe V a h₀ (.resume thread vs h k)
  | yield {h₀ h vs k} (tidy : Tidy V a h₀ h) (may : a.MayYield V vs)
      (next : ∀ rs h', CleanAll V rs → h'.Good V → Safe V a h' (k rs h')) :
      Safe V a h₀ (.yield vs h k)
  | abandon {h₀ h thread k} (tidy : Tidy V a h₀ h)
      (next : ∀ r h', r.Clean V → h'.Good V → Safe V a h' (k r h')) :
      Safe V a h₀ (.abandon thread h k)

theorem Action.Safe.tidy {x : Action} (hx : x.Safe V a h₀) : Tidy V a h₀ x.heap := by
  cases hx <;> assumption

/-! ## Computations -/

namespace Lib

/-- Whether a computation is safe and yields nothing but what has some property. -/
structure Safe {α : Type} (V : Ward) (a : Actor) (P : α → Prop) (x : Lib α) : Prop where
  acts : ∀ s k h₀ h, Tidy V a h₀ h →
    (∀ r h₁ h', P r → Tidy V a h₁ h' → (k r h').Safe V a h₁) → (x s k h).Safe V a h₀

variable {α β : Type} {P : α → Prop} {Q : β → Prop}

/-- A safe computation whose results are clean is a safe action. -/
theorem Safe.action {x : Lib (List Value)} (hx : x.Safe V a (CleanAll V)) (s : Site)
    (hg : h.Good V) : (x.action s h).Safe V a h :=
  hx.acts s .done h h hg.tidy fun _ _ _ hr ht => .done ht hr

theorem Safe.mono {P' : α → Prop} {x : Lib α} (hx : x.Safe V a P) (hp : ∀ r, P r → P' r) :
    x.Safe V a P' :=
  ⟨fun s k h₀ h ht hk => hx.acts s k h₀ h ht fun r h₁ h' hr => hk r h₁ h' (hp r hr)⟩

theorem Safe.pure {r : α} (hr : P r) : (Pure.pure r : Lib α).Safe V a P :=
  ⟨fun _ _ h₀ h ht hk => hk r h₀ h hr ht⟩

theorem Safe.bind {x : Lib α} {f : α → Lib β} (hx : x.Safe V a P)
    (hf : ∀ r, P r → (f r).Safe V a Q) : (x >>= f).Safe V a Q :=
  ⟨fun s k h₀ h ht hk => hx.acts s _ h₀ h ht fun r h₁ h' hr ht' => (hf r hr).acts s k h₁ h' ht' hk⟩

theorem Safe.map {x : Lib α} {f : α → β} (hx : x.Safe V a P) (hf : ∀ r, P r → Q (f r)) :
    (f <$> x).Safe V a Q :=
  hx.bind fun r hr => .pure (hf r hr)

theorem Safe.discard {x : Lib α} (hx : x.Safe V a P) :
    (Functor.discard x).Safe V a fun _ => True :=
  hx.map fun _ _ => trivial

theorem Safe.ite {c : Prop} [Decidable c] {x y : Lib α} (hx : c → x.Safe V a P)
    (hy : ¬ c → y.Safe V a P) : (if c then x else y).Safe V a P := by
  split
  · exact hx ‹_›
  · exact hy ‹_›

/-- Going on the same way whatever comes of a computation. -/
theorem Safe.then {x : Lib α} {f : α → Lib β} (hx : x.Safe V a fun _ => True)
    (hf : ∀ r, (f r).Safe V a Q) : (x >>= f).Safe V a Q :=
  hx.bind fun r _ => hf r

theorem Safe.forIn {l : List α} {f : α → PUnit → Lib (ForInStep PUnit)}
    (hf : ∀ r s, (f r s).Safe V a fun _ => True) :
    (ForIn.forIn l PUnit.unit f).Safe V a fun _ => True := by
  induction l with
  | nil => exact .pure trivial
  | cons r l ih =>
    rw [List.forIn_cons]
    refine (hf r _).then fun s => ?_
    split
    · exact .pure trivial
    · exact ih

/-! ### Primitives -/

theorem safe_site : site.Safe V a fun _ => True :=
  ⟨fun s _ h₀ h ht hk => hk s h₀ h trivial ht⟩

theorem safe_read {f : Heap → α} (hf : ∀ h : Heap, h.Good V → P (f h)) : (read f).Safe V a P :=
  ⟨fun _ _ h₀ h ht hk => hk (f h) h₀ h (hf h ht.good) ht⟩

theorem safe_modify {f : Heap → Heap} (hf : ∀ h : Heap, h.Good V → h.Follows V (f h)) :
    (modify f).Safe V a fun _ => True :=
  ⟨fun _ _ h₀ h ht hk => hk () h₀ (f h) trivial (ht.follow (hf h ht.good))⟩

theorem safe_update {f : Heap → α × Heap}
    (hf : ∀ h : Heap, h.Good V → P (f h).1 ∧ h.Follows V (f h).2) : (update f).Safe V a P :=
  ⟨fun _ _ h₀ h ht hk => hk (f h).1 h₀ (f h).2 (hf h ht.good).1 (ht.follow (hf h ht.good).2)⟩

theorem safe_throw {v : Value} (hv : v.Clean V) : (throw v : Lib α).Safe V a P :=
  ⟨fun _ _ _ _ ht _ => .fail ht hv⟩

theorem safe_ask {e : Effect} (he : a.May V e) : (ask e).Safe V a fun _ => True :=
  ⟨fun _ _ _ _ ht hk => .ask ht he fun r _ hg => hk r _ _ trivial hg.tidy⟩

theorem safe_log (r : LogRecord) : (log r).Safe V a fun _ => True := safe_ask (e := .log r) trivial

theorem safe_call {f : Value} {args : List Value} (hf : f.Clean V) (ha : CleanAll V args)
    (origin : Option Origin := none) : (call f args origin).Safe V a (CleanAll V) :=
  ⟨fun _ _ _ _ ht hk => .call ht hf ha fun rs _ hr hg => hk rs _ _ hr hg.tidy⟩

theorem safe_callLoose {f : Value} {args : List Value} (hf : f.Clean V) (ha : CleanAll V args)
    (origin : Option Origin := none) : (callLoose f args origin).Safe V a (CleanAll V) :=
  ⟨fun _ _ _ _ ht hk => .call ht hf ha fun rs _ hr hg => hk rs _ _ hr hg.tidy⟩

theorem safe_become {f : Value} {args : List Value} (hf : f.Clean V) (ha : CleanAll V args) :
    (become f args : Lib α).Safe V a P :=
  ⟨fun _ _ _ _ ht _ => .become ht hf ha⟩

theorem safe_attempt {f : Value} {args : List Value} {handler : Option Value} (hf : f.Clean V)
    (ha : CleanAll V args) (hh : ∀ g ∈ handler, Value.Clean V g) :
    (attempt f args handler).Safe V a (CleanResult V) :=
  ⟨fun _ _ _ _ ht hk => .guard ht hf ha hh fun r _ hr hg => hk r _ _ hr hg.tidy⟩

theorem safe_attemptPinned {f : Value} {args : List Value} (hf : f.Clean V)
    (ha : CleanAll V args) : (attemptPinned f args).Safe V a (CleanResult V) :=
  ⟨fun _ _ _ _ ht hk => .guard ht hf ha (fun _ h => nomatch h) fun r _ hr hg => hk r _ _ hr hg.tidy⟩

theorem safe_create {body : Value} (hb : body.Clean V) : (create body).Safe V a fun _ => True :=
  ⟨fun _ _ _ _ ht hk => .create ht hb fun id _ hg => hk id _ _ trivial hg.tidy⟩

theorem safe_inspect (thread : Nat) : (inspect thread).Safe V a fun _ => True :=
  ⟨fun _ _ _ _ ht hk => .inspect ht fun s _ hg => hk s _ _ trivial hg.tidy⟩

theorem safe_resume {thread : Nat} {args : List Value} (ha : CleanAll V args) :
    (resume thread args).Safe V a (CleanResult V) :=
  ⟨fun _ _ _ _ ht hk => .resume ht ha fun r _ hr hg => hk r _ _ hr hg.tidy⟩

theorem safe_yield {vs : List Value} (hv : a.MayYield V vs) :
    (yield vs).Safe V a (CleanAll V) :=
  ⟨fun _ _ _ _ ht hk => .yield ht hv fun rs _ hr hg => hk rs _ _ hr hg.tidy⟩

theorem safe_abandon (thread : Nat) : (abandon thread).Safe V a (Remains.Clean V) :=
  ⟨fun _ _ _ _ ht hk => .abandon ht fun r _ hr hg => hk r _ _ hr hg.tidy⟩

theorem safe_newTable {t : Table} (ht : t.Each (Value.Clean V) (Value.Clean V))
    (hm : t.metatable = none) : (newTable t).Safe V a (Value.Clean V) :=
  safe_update fun _ hg =>
    ⟨hg.newTable_clean t, hg.newTable ht fun m h => by rw [hm] at h; cases h⟩

/-! ### Complaints -/

theorem safe_complainAt (level : Nat) (text : Bytes) : (complainAt level text : Lib α).Safe V a P :=
  safe_site.bind fun _ _ => safe_throw (Value.clean_string _)

theorem safe_raise (text : Bytes) : (raise text : Lib α).Safe V a P := safe_complainAt 1 text

theorem safe_complain (text : Bytes) : (complain text : Lib α).Safe V a P := by
  refine safe_site.bind fun s _ => ?_
  split
  · exact safe_complainAt 0 text
  · exact safe_throw (Value.clean_string _)

theorem safe_failHost (message : String) : (failHost message : Lib α).Safe V a P :=
  (safe_update fun _ hg => ⟨trivial, hg.newObject _⟩).bind fun _ (_ : True) =>
    safe_throw (Value.clean_object _)

theorem safe_wrongType (what : String) (v : Value) (origin : Option Origin) :
    (wrongType what v origin : Lib α).Safe V a P :=
  (safe_read fun _ _ => trivial).bind fun _ (_ : True) => safe_complain _

end Lib

end OscHost.Script
