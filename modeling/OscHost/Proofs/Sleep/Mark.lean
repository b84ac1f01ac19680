import OscHost.Proofs.Runs
import OscHost.Proofs.Script.Coroutines
/-!
  Who gets hold of the mark of `sleep`.

  `sleep` suspends the running coroutine with a mark, by which the scheduler tells that it sleeps.  When
  the host has resumed the coroutine, nobody but the host sees the mark.  But when a script has, the mark
  is handed to that script (`Machine.Exposes`), which may do with it as it likes.  As long as this does not
  happen, no script and no library function but `sleep` ever has the mark, and so nothing but `sleep` itself
  makes a thread sleep.
-/

namespace OscHost

open Script Relation
open Library.HostApi (sleepMark)

/-! ## What there is to be had -/

/-- Whether an activation has a value: in a variable of its own, among the values that it works with or
    hands on, or among its extra arguments. -/
inductive Script.Activation.Has (x : Activation) (v : Value) : Prop
  | slot (h : Slot.own v ∈ x.slots)
  | stack (h : v ∈ x.stack)
  | opened (h : v ∈ x.opened)
  | varargs (h : v ∈ x.varargs)

/-- Whether a value is on the heap: in a table, in a variable that functions share, or with a library
    function or library that keeps values. -/
inductive Script.Heap.Has (h : Heap) (v : Value) : Prop
  | element {id : Nat} (hv : v ∈ (h.table id).seq)
  | key {id : Nat} {e : Key × Value} (he : e ∈ (h.table id).slots) (hv : e.1.toValue = v)
  | entry {id : Nat} {e : Key × Value} (he : e ∈ (h.table id).slots) (hv : e.2 = v)
  | cell (hv : v ∈ h.cells)
  | reader {file : Value} {formats : List Value} {closes : Bool}
      (hn : Native.reader file formats closes ∈ h.natives) (hv : v ∈ file :: formats)
  | standard (hv : v = h.roots.input ∨ v = h.roots.output)

/-- Whether one of some frames has a value: an activation that waits, or a handler. -/
inductive Script.Held.Has (fs : List Held) (v : Value) : Prop
  | script {f : Held} {x : Activation} (hf : f ∈ fs) (hx : f.frame = .script x) (hv : x.Has v)
  | handler {f : Held} {c : Context} {k : Except Value (List Value) → Heap → Action} (hf : f ∈ fs)
      (hc : f.frame = .library c (.guarded (some v) k))

/-- Whether something that waits in a machine has a value, or a coroutine that is dead. -/
inductive Script.Machine.Has (m : Machine) (v : Value) : Prop
  | frames (hv : Held.Has m.frames v)
  | resumer {r : Resumer} (hr : r ∈ m.resumers) (hv : Held.Has r.frames v)
  | body {co : Coroutine} (hco : co ∈ m.coroutines) (hv : v = co.body)
  | suspended {co : Coroutine} (hco : co ∈ m.coroutines) (hv : Held.Has co.frames v)
  | failure {co : Coroutine} (hco : co ∈ m.coroutines) (hv : co.remains.failure = some v)
  | leftOpen {co : Coroutine} (hco : co ∈ m.coroutines) (hv : v ∈ co.remains.leftOpen)

/-- Whether a library function hands a value to someone else: to its caller, to a function that it calls
    or to a coroutine, or to whoever resumed its own.  Only what `sleep` yields does not count. -/
inductive Script.Action.HandsOut (f v : Value) : Action → Prop
  | done {vs h} (hv : v ∈ vs) : HandsOut f v (.done vs h)
  | fail {h} : HandsOut f v (.fail v h)
  | call {g vs origin pinned h k} (hv : v ∈ g :: vs) : HandsOut f v (.call g vs origin pinned h k)
  | become {g vs h} (hv : v ∈ g :: vs) : HandsOut f v (.become g vs h)
  | guard {g vs handler pinned h k} (hv : v ∈ g :: vs ∨ handler = some v) :
      HandsOut f v (.guard g vs handler pinned h k)
  | create {h k} : HandsOut f v (.create v h k)
  | resume {thread vs h k} (hv : v ∈ vs) : HandsOut f v (.resume thread vs h k)
  | yield {vs h k} (hf : f ≠ .builtin .sleep) (hv : v ∈ vs) : HandsOut f v (.yield vs h k)

/-- Whether what a machine looks at has or hands out a value. -/
inductive Script.Focus.Has (v : Value) : Focus → Prop
  | script {x h} (hv : Activation.Has x v) : Has v (.script x h)
  | library {x c} (hv : x.HandsOut c.function v) : Has v (.library x c)
  | values {vs h} (hv : v ∈ vs) : Has v (.values vs h)
  | error {h} : Has v (.error v h)
  | unwind {h} : Has v (.unwind v h)

namespace Moment

/-- Whether a script or a library function other than `sleep` has a value. -/
inductive Has (v : Value) : Moment → Prop
  | heap {t : Moment} (hv : t.heap.Has v) : Has v t
  | idle {vm : Vm} {known : List Value} (hv : vm.machine.Has v) : Has v (.idle vm known)
  | waiting {m : Machine} {f : Focus} {s : Host} {known : List Value} (hv : m.Has v) :
      Has v (.busy m f s known)
  | working {m : Machine} {f : Focus} {s : Host} {known : List Value} (hv : f.Has v) :
      Has v (.busy m f s known)

/-- A step that does not hand the mark of `sleep` to a script.  The host forgets the marks that it is
    handed: all that it makes of them is the time to wake a thread at. -/
def DirectStep (t t' : Moment) : Prop := ¬ t.Exposes ∧ ∃ u, Step t u ∧ t' = u.forget

/-- What can come of a moment when no step hands the mark to a script. -/
def DirectRun : Moment → Moment → Prop := ReflTransGen DirectStep

end Moment

/-! ## Whatever there is to be had is clean -/

variable {V : Ward} {v : Value} {m m' : Machine} {f : Focus} {h : Heap} {t t' : Moment}

theorem Script.Activation.Has.clean {x : Activation} (hv : x.Has v) (hx : x.Clean V) : v.Clean V := by
  cases hv with
  | slot hs => exact hx.slots _ hs
  | stack hs => exact hx.stack v hs
  | opened hs => exact hx.opened v hs
  | varargs hs => exact hx.varargs v hs

theorem Script.Held.Has.clean {fs : List Held} (hv : Held.Has fs v) (hfs : SafeAll V fs) :
    v.Clean V := by
  cases hv with
  | script hf hx hv =>
    have hs := hfs _ hf
    rw [hx] at hs
    exact hv.clean hs
  | handler hf hc =>
    have hs := hfs _ hf
    rw [hc] at hs
    exact hs.1 v rfl

theorem Script.Machine.Has.clean (hv : m.Has v) (hm : m.Good V) : v.Clean V := by
  cases hv with
  | frames hv => exact hv.clean hm.frames
  | resumer hr hv => exact hv.clean (hm.resumers _ hr).frames
  | body hco hv => exact hv ▸ (hm.coroutines _ hco).body
  | suspended hco hv => exact hv.clean (hm.coroutines _ hco).frames
  | failure hco hv => exact (hm.coroutines _ hco).remains.failure v hv
  | leftOpen hco hv => exact (hm.coroutines _ hco).remains.leftOpen v hv

/-- Values on the heap are clean, but for tables in the vault. -/
theorem Script.Heap.Has.clean (hv : h.Has v) (hg : h.Good V) (hn : ∀ w, w ∉ V) : v.Clean V := by
  have hfits : ∀ {id}, v.Fits V id → v.Clean V := fun hf => hf.clean fun w hw => absurd hw (hn w)
  cases hv with
  | element hv => exact hfits ((hg.tables _).seq v hv)
  | key he hv => exact hv ▸ (hg.tables _).keys _ he
  | entry he hv => exact hfits (hv ▸ (hg.tables _).values _ he)
  | cell hv => exact hg.cells v hv
  | reader hn hv =>
    obtain ⟨hfile, hformats⟩ := hg.natives _ hn
    exact cleanAll_cons.mpr ⟨hfile, hformats⟩ v hv
  | standard hv =>
    obtain rfl | rfl := hv
    · exact hg.roots.input
    · exact hg.roots.output

theorem Script.Action.HandsOut.clean {a : Actor} {x : Action} {h₀ : Heap}
    (hv : x.HandsOut a.function v) (hx : x.Safe V a h₀) : v.Clean V := by
  cases hv with
  | done hv =>
    cases hx with
    | done _ values => exact values v hv
  | fail =>
    cases hx with
    | fail _ error => exact error
  | call hv =>
    cases hx with
    | call _ callee args => exact cleanAll_cons.mpr ⟨callee, args⟩ v hv
  | become hv =>
    cases hx with
    | become _ callee args => exact cleanAll_cons.mpr ⟨callee, args⟩ v hv
  | guard hv =>
    cases hx with
    | guard _ callee args handler =>
      obtain hv | hh := hv
      · exact cleanAll_cons.mpr ⟨callee, args⟩ v hv
      · exact handler v hh
  | create =>
    cases hx with
    | create _ clean => exact clean
  | resume hv =>
    cases hx with
    | resume _ args => exact args v hv
  | yield hf hv =>
    cases hx with
    | yield _ may => exact may.other hf v hv

theorem Script.Focus.Has.clean {h₀ : Heap} (hv : f.Has v) (hf : f.Safe V h₀) : v.Clean V := by
  cases hv with
  | script hv => exact hv.clean hf.2
  | library hv =>
    obtain ⟨name, hx⟩ := hf
    exact Action.HandsOut.clean (a := ⟨_, name⟩) hv hx
  | values hv => exact hf.2 v hv
  | error | unwind => exact hf.2

namespace Moment

/-- In a good moment scripts may have all that they have. -/
theorem Good.clean_of_has (ht : t.Good V) (hn : ∀ w, w ∉ V) (hv : t.Has v) : v.Clean V := by
  have hg := ht.heap
  obtain ⟨_, ht⟩ := ht
  cases hv with
  | heap hv => exact hv.clean hg hn
  | idle hv => exact hv.clean ht.1
  | waiting hv => exact hv.clean ht.1
  | working hv => exact hv.clean ht.2.1

/-- Where the mark is kept back, a step that does not hand it to a script keeps the invariant. -/
theorem DirectStep.good (hs : DirectStep t t') (ht : t.Good .mark) : t'.Good .mark := by
  obtain ⟨hn, u, hstep, rfl⟩ := hs
  exact ⟨_, (hstep.good_forget ht fun _ => hn).resolve_right not_trespasses_mark⟩

theorem DirectRun.good (hr : DirectRun t t') (ht : t.Good .mark) : t'.Good .mark := by
  induction hr with
  | refl => exact ht
  | tail _ hs ih => exact hs.good ih

end Moment

end OscHost
