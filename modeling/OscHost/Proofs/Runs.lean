import OscHost.Proofs.Sandbox
import OscHost.Proofs.Script.Machine
import OscHost.Runner
import Mathlib.Logic.Relation
/-!
  What can happen in a script machine.

  A `Moment` is a machine at rest or at work, with the values that its host has got hold of.  A step
  is one of the machine, an answer of the host, or something that the host begins with a machine at
  rest: it compiles a text, calls a function, reads a field, makes or resumes a coroutine.  Texts
  are not looked at: a step may begin with whatever code, so a fact about all runs is one about all
  scripts, and about all orders in which a host may run them.

  The invariant of a run is the one of the machine together with that of the heap.  It holds of every
  run from a new machine with all flags off, without a vault; with one, of every run in which
  `require` is called for no other names than it may be.
-/

namespace OscHost

open Script Relation

/-- Whether the host can make up a value without the machine. -/
def Script.Value.isPlain : Value → Bool
  | .nil | .bool _ | .int _ | .float _ | .nan _ | .string _ => true
  | _ => false

/-- The script root as scripts see it. -/
abbrev Host.scriptRoot (s : Host) : String := Files.Location.text s.scriptJail.root

/-- The values that a run hands to the host. -/
def Script.Outcome.values : Outcome → List Value
  | .finished vs | .yielded vs => vs
  | .failed v => [v]
  | .outOfFuel => []

/-- A machine at rest, or one at work with its host, and the values that the host has. -/
inductive Moment
  | idle (vm : Vm) (known : List Value)
  | busy (m : Machine) (f : Focus) (s : Host) (known : List Value)

namespace Moment

/-- The host. -/
def host : Moment → Host
  | .idle vm _ => vm.host
  | .busy _ _ s _ => s

/-- The heap. -/
def heap : Moment → Heap
  | .idle vm _ => vm.heap
  | .busy _ f _ _ => f.heap

/-- A new machine, of which the host knows the globals. -/
def new (s : Host) : Moment := .idle (Vm.new s) [(Vm.new s).heap.globalsValue]

/-- Whether the machine asks the host for something. -/
def Asks (t : Moment) (e : Effect) : Prop :=
  ∃ m f s known m' h k c, t = .busy m f s known ∧
    Machine.step Library.invoke m f = .ask m' e h k c

/-- Whether the machine is about to call `require` for a module. -/
def Demands (name : Bytes) : Moment → Prop
  | .idle .. => False
  | .busy _ f _ _ => f.Demands name

/-- Whether `sleep` is about to hand its mark to a script. -/
def Exposes : Moment → Prop
  | .idle .. => False
  | .busy m f _ _ => m.Exposes f

/-- A moment whose host has forgotten the marks of `sleep` that it was handed. -/
def forget : Moment → Moment
  | .idle vm known => .idle vm (known.filter (! Runner.isSleepMark ·))
  | .busy m f s known => .busy m f s (known.filter (! Runner.isSleepMark ·))

/-- Whether the host may change in this way from outside a run: the files and everything about them
    may have become different, but neither the policy nor what scripts have opened. -/
structure Outside (s s' : Host) : Prop where
  policy : s'.policy = s.policy
  files : s'.files = s.files

/-- Whether the host can hand over all of some values. -/
def Handy (known vs : List Value) : Prop := ∀ v ∈ vs, v ∈ known ∨ v.isPlain

/-- What can happen next. -/
inductive Step : Moment → Moment → Prop
  | next {m f s known m' f'} (hs : Machine.step Library.invoke m f = .next m' f') :
      Step (.busy m f s known) (.busy m' f' s known)
  | answer {m f s known m' e h k c} (hs : Machine.step Library.invoke m f = .ask m' e h k c) :
      Step (.busy m f s known)
        (.busy m' (.library (k (s.perform e).1 h) c) (s.perform e).2 known)
  | finish {m f s known o m' h} (hs : Machine.step Library.invoke m f = .ended o m' h)
      (base : Nat) :
      Step (.busy m f s known) (.idle ⟨h, { m' with base }, s⟩ (o.values ++ known))
  | outside {m f s s' known} (hs : Outside s s') : Step (.busy m f s known) (.busy m f s' known)
  | rest {vm s' known} (hs : Outside vm.host s') :
      Step (.idle vm known) (.idle { vm with host := s' } known)
  | compile {vm known} (p : Proto) : Step (.idle vm known)
      (.idle { vm with heap := (vm.heap.newChunk p vm.heap.globalsValue).2 }
        ((vm.heap.newChunk p vm.heap.globalsValue).1 :: known))
  | texts {vm known} (ss : List String) : Step (.idle vm known)
      (.idle { vm with heap := (vm.heap.newTable (Table.ofList (ss.map Value.text))).2 }
        (.table (vm.heap.newTable (Table.ofList (ss.map Value.text))).1 :: known))
  | thread {vm known f} (hf : f ∈ known) : Step (.idle vm known)
      (.idle { vm with machine := (vm.machine.newCoroutine f).2 } known)
  | call {vm known f args} (hf : f ∈ known) (ha : Handy known args) : Step (.idle vm known)
      (.busy vm.machine (vm.machine.enter Library.invoke f args none vm.heap) vm.host known)
  | field {vm known v} (hv : v ∈ known) (name : String) : Step (.idle vm known)
      (.busy vm.machine (.library
        ((do return [← Lib.index v (.text name)] : Lib (List Value)).action Machine.hostSite vm.heap)
        Machine.hostContext) vm.host known)
  | text {vm known v} (hv : v ∈ known) : Step (.idle vm known)
      (.busy vm.machine (.library
        ((do return [.string (← Lib.text v)] : Lib (List Value)).action Machine.hostSite vm.heap)
        Machine.hostContext) vm.host known)
  | resume {vm known args} (thread : Nat) (ha : Handy known args) : Step (.idle vm known)
      (.busy (Vm.resumption vm.heap vm.machine thread args).1
        (Vm.resumption vm.heap vm.machine thread args).2 vm.host known)

/-- What can come of a moment. -/
def Run : Moment → Moment → Prop := ReflTransGen Step

/-- A step that does not lead to a call of `require` but for certain names. -/
def CalmStep (asked : Bytes → Prop) (t t' : Moment) : Prop :=
  Step t t' ∧ ∀ name, t'.Demands name → asked name

/-- What can come of a moment when `require` is called for certain names only. -/
def CalmRun (asked : Bytes → Prop) : Moment → Moment → Prop := ReflTransGen (CalmStep asked)

/-! ## The invariant -/

variable {V : Ward} {t t' : Moment}

/-- What has come of a heap when the invariant holds: the machine and the heap are good, and the host
    has nothing that scripts may not have. -/
def GoodAfter (V : Ward) (h : Heap) : Moment → Prop
  | .idle vm known => vm.machine.Good V ∧ h.Follows V vm.heap ∧ CleanAll V known
  | .busy m f _ known => m.Good V ∧ f.Safe V h ∧ CleanAll V known

/-- The invariant. -/
def Good (V : Ward) (t : Moment) : Prop := ∃ h, t.GoodAfter V h

theorem Good.heap (ht : t.Good V) : t.heap.Good V := by
  obtain ⟨h, ht⟩ := ht
  cases t with
  | idle vm known => exact ht.2.1.good
  | busy m f s known => exact ht.2.1.good

theorem Handy.clean {known vs : List Value} (h : Handy known vs) (hk : CleanAll V known) :
    CleanAll V vs := by
  intro v hv
  obtain hm | hp := h v hv
  · exact hk v hm
  · cases v with
    | table _ | builtin _ => cases hp
    | _ => trivial

theorem isSleepMark_iff (v : Value) : Runner.isSleepMark v ↔ v = Library.HostApi.sleepMark := by
  cases v <;> simp [Runner.isSleepMark, Library.HostApi.sleepMark, Value.rawEquals]

theorem mem_forget {v : Value} {vs : List Value} :
    v ∈ vs.filter (! Runner.isSleepMark ·) ↔ v ∈ vs ∧ v ≠ Library.HostApi.sleepMark := by
  rw [List.mem_filter, Bool.not_eq_true', ← Bool.not_eq_true, isSleepMark_iff]

/-- Scripts may have all that the host has got hold of and not forgotten. -/
theorem cleanAll_forget {known : List Value} (hk : CleanAll V known) :
    CleanAll V (known.filter (! Runner.isSleepMark ·)) :=
  fun v hv => hk v (mem_forget.mp hv).1

/-- Where the mark of `sleep` is not kept back, there is nothing that the host had to forget. -/
theorem cleanAll_of_forget (hV : V ≠ .mark) {known : List Value}
    (hk : CleanAll V (known.filter (! Runner.isSleepMark ·))) : CleanAll V known := by
  intro v hv
  by_cases he : v = Library.HostApi.sleepMark
  · exact he ▸ clean_sleepMark hV
  · exact hk v (mem_forget.mpr ⟨hv, he⟩)

/-- What a run hands to the host scripts may have, but for the mark of `sleep`. -/
theorem clean_values {o : Outcome} (ho : o.Clean V) :
    CleanAll V (o.values.filter (! Runner.isSleepMark ·)) := by
  cases o with
  | finished vs => exact cleanAll_forget ho
  | yielded vs =>
    obtain hv | hs := ho
    · exact cleanAll_forget hv
    · intro v hv
      obtain ⟨hv, hne⟩ := mem_forget.mp hv
      exact hs.clean_of_ne v hv hne
  | failed v => exact cleanAll_forget (cleanAll_cons.mpr ⟨ho, cleanAll_nil⟩)
  | outOfFuel => exact cleanAll_nil

theorem GoodAfter.forget {h : Heap} (ht : t.GoodAfter V h) : t.forget.GoodAfter V h := by
  cases t with
  | idle vm known => exact ⟨ht.1, ht.2.1, cleanAll_forget ht.2.2⟩
  | busy m f s known => exact ⟨ht.1, ht.2.1, cleanAll_forget ht.2.2⟩

theorem GoodAfter.of_forget (hV : V ≠ .mark) {h : Heap} (ht : t.forget.GoodAfter V h) :
    t.GoodAfter V h := by
  cases t with
  | idle vm known => exact ⟨ht.1, ht.2.1, cleanAll_of_forget hV ht.2.2⟩
  | busy m f s known => exact ⟨ht.1, ht.2.1, cleanAll_of_forget hV ht.2.2⟩

/-- Whether a moment is a call of `require` that may not be made. -/
def Trespasses (V : Ward) (t : Moment) : Prop := ∃ w ∈ V, ∃ name, t.Demands name ∧ ¬ w.asked name

theorem not_trespasses_mark : ¬ t.Trespasses .mark := by
  rintro ⟨w, hw, -⟩
  exact Ward.not_mem_mark hw

/-- A focus that is fine leads to a good moment, or to a call of `require` that may not be made. -/
theorem good_of_fine {m : Machine} {f : Focus} {h : Heap} {s : Host} {known : List Value}
    (hm : m.Good V) (hf : f.Fine V h) (hk : CleanAll V known) :
    (busy m f s known).GoodAfter V h ∨ (busy m f s known).Trespasses V :=
  hf.imp_left fun hf => ⟨hm, hf, hk⟩

theorem resumption_fine {m : Machine} {h : Heap} (hm : m.Good V) (hg : h.Good V) (thread : Nat)
    {args : List Value} (ha : CleanAll V args) :
    (Vm.resumption h m thread args).1.Good V ∧ (Vm.resumption h m thread args).2.Fine V h := by
  have hm' : Machine.Good V { m with base := 1, resumers := [] } :=
    ⟨hm.frames, hm.coroutines, List.forall_mem_nil _⟩
  exact Machine.awaken_fine hm' hg thread ha

/-- A step of the machine from a good moment. -/
theorem step_fine {m : Machine} {f : Focus} {s : Host} {known : List Value}
    (ht : (busy m f s known).Good V) (hn : V = .mark → ¬ m.Exposes f) :
    (Machine.step Library.invoke m f).Fine V f.heap ∧ CleanAll V known := by
  obtain ⟨_, hm, hf, hk⟩ := ht
  exact ⟨Machine.step_fine hm hf hn, hk⟩

/-- A step keeps the invariant once the host has forgotten the mark of `sleep`, unless it leads to a call
    of `require` that may not be made.  Where the mark is kept back, the step must not be one that hands it
    to a script. -/
theorem Step.good_forget (hs : Step t t') (ht : t.Good V) (hn : V = .mark → ¬ t.Exposes) :
    t'.forget.GoodAfter V t.heap ∨ t'.Trespasses V := by
  have hg := ht.heap
  have hforget : ∀ {h : Heap}, t'.GoodAfter V h ∨ t'.Trespasses V →
      t'.forget.GoodAfter V h ∨ t'.Trespasses V := fun h => h.imp_left GoodAfter.forget
  cases hs with
  | next hs =>
    obtain ⟨hp, hk⟩ := step_fine ht hn
    rw [hs] at hp
    exact hforget (good_of_fine hp.1 hp.2 hk)
  | answer hs =>
    obtain ⟨hp, hk⟩ := step_fine ht hn
    rw [hs] at hp
    obtain ⟨hm', hf, name, _, hnext⟩ := hp
    exact hforget (.inl ⟨hm', ⟨name, (hnext _ _ hf.good).after hf.tidy⟩, hk⟩)
  | finish hs base =>
    obtain ⟨hp, hk⟩ := step_fine ht hn
    rw [hs] at hp
    obtain ⟨hm', hf, ho⟩ := hp
    refine .inl ⟨⟨hm'.frames, hm'.coroutines, hm'.resumers⟩, hf, ?_⟩
    rw [List.filter_append]
    exact cleanAll_append.mpr ⟨clean_values ho, cleanAll_forget hk⟩
  | @outside m f s s' known hs =>
    obtain ⟨_, hm, hf, hk⟩ := ht
    exact hforget (.inl ⟨hm, Focus.Safe.rebase hf, hk⟩)
  | rest hs =>
    obtain ⟨_, hm, hf, hk⟩ := ht
    exact hforget (.inl ⟨hm, hg.follows, hk⟩)
  | compile p =>
    obtain ⟨_, hm, _, hk⟩ := ht
    exact hforget (.inl ⟨hm, hg.newChunk p hg.roots.globals, cleanAll_cons.mpr ⟨trivial, hk⟩⟩)
  | texts ss =>
    obtain ⟨_, hm, _, hk⟩ := ht
    have ht : (Table.ofList (ss.map Value.text)).Each (Value.Clean V) (Value.Clean V) :=
      Table.each_ofList (fun _ => trivial) (List.forall_mem_map.mpr fun s _ => Value.clean_text s)
    have hf := hg.newTable ht fun m h => by rw [Table.metatable_ofList] at h; cases h
    exact hforget (.inl ⟨hm, hf, cleanAll_cons.mpr ⟨hg.newTable_clean _, hk⟩⟩)
  | thread hf =>
    obtain ⟨_, hm, _, hk⟩ := ht
    exact hforget (.inl ⟨hm.newCoroutine (hk _ hf), hg.follows, hk⟩)
  | call hf ha =>
    obtain ⟨_, hm, _, hk⟩ := ht
    exact hforget (good_of_fine hm (Machine.enter_fine hg (hk _ hf) (ha.clean hk) none) hk)
  | field hv name =>
    obtain ⟨_, hm, _, hk⟩ := ht
    have hx : ∀ a, (do return [← Lib.index _ (.text name)] : Lib (List Value)).Safe V a (CleanAll V) :=
      fun a => (Lib.safe_index (hk _ hv) (Value.clean_text name)).bind fun r hr => .pure (by simp [hr])
    exact hforget (.inl ⟨hm, ⟨.empty, (hx _).action _ hg⟩, hk⟩)
  | text hv =>
    obtain ⟨_, hm, _, hk⟩ := ht
    have hx : ∀ a, (do return [.string (← Lib.text _)] : Lib (List Value)).Safe V a (CleanAll V) :=
      fun a => (Lib.safe_text (hk _ hv)).then fun r => .pure (by simp)
    exact hforget (.inl ⟨hm, ⟨.empty, (hx _).action _ hg⟩, hk⟩)
  | resume thread ha =>
    obtain ⟨_, hm, _, hk⟩ := ht
    obtain ⟨hm', hf⟩ := resumption_fine hm hg thread (ha.clean hk)
    exact hforget (good_of_fine hm' hf hk)

/-- Where the mark of `sleep` is not kept back, every step keeps the invariant, unless it leads to a call
    of `require` that may not be made. -/
theorem Step.good (hs : Step t t') (ht : t.Good V) (hV : V ≠ .mark) :
    t'.GoodAfter V t.heap ∨ t'.Trespasses V :=
  (hs.good_forget ht fun he => absurd he hV).imp_left (GoodAfter.of_forget hV)

/-- Without a vault the invariant holds throughout every run. -/
theorem Run.good (hr : Run t t') (ht : t.Good .free) : t'.Good .free := by
  induction hr with
  | refl => exact ht
  | tail _ hs ih => exact ⟨_, (hs.good ih nofun).resolve_right fun ⟨w, hw, _⟩ => Ward.not_mem_free hw⟩

/-- With a vault a step keeps it where `require` is called for the names that it may be called for. -/
theorem CalmStep.good {w : Vault} (hs : CalmStep w.asked t t') (ht : t.Good (.vault w)) :
    t'.GoodAfter (.vault w) t.heap := by
  refine (hs.1.good ht nofun).resolve_right ?_
  rintro ⟨_, hw, name, hn, ha⟩
  cases hw
  exact ha (hs.2 name hn)

theorem CalmRun.good {w : Vault} (hr : CalmRun w.asked t t') (ht : t.Good (.vault w)) :
    t'.Good (.vault w) := by
  induction hr with
  | refl => exact ht
  | tail _ hs ih => exact ⟨_, hs.good ih⟩

/-- The invariant holds of new machines whose policy suits it. -/
theorem new_good_of_suits {s : Host} (hs : Sandbox.Suits V s.policy) (asked : Bytes → Prop)
    (reserved : ¬ asked "package") (hV : ∀ w ∈ V, w = Sandbox.vault s.scriptRoot asked reserved) :
    (new s).Good V := by
  have hg : (Vm.new s).heap.Good V := Sandbox.heap_good hV hs
  exact ⟨_, Machine.good_new, hg.follows, cleanAll_cons.mpr ⟨hg.roots.globals, cleanAll_nil⟩⟩

/-- The invariant holds of new machines with all flags off. -/
theorem new_good {s : Host} (hs : s.policy = {}) (asked : Bytes → Prop) (reserved : ¬ asked "package")
    (hV : ∀ w ∈ V, w = Sandbox.vault s.scriptRoot asked reserved) :
    (new s).Good V :=
  new_good_of_suits (.inl hs) asked reserved hV

end Moment

end OscHost
