import OscHost.Proofs.Resumption
import OscHost.Proofs.Scheduler.Operations
import OscHost.Proofs.Script.Endings
import OscHost.Proofs.Sleep.Mark
/-!
  What the host makes of a coroutine that is suspended.

  The host sees nothing but the values that a coroutine hands over, and takes them for a call of `sleep`
  when the first is the mark.  As long as nobody else has the mark, this is right: what `sleep` has
  suspended sleeps, and everything else yields.  When `sleep` suspends a coroutine that a script has
  resumed, that script is handed the mark.
-/

namespace OscHost

open Script Relation
open Library.HostApi (sleepMark)

namespace Moment

variable {t t' : Moment} {n : Nat} {f : Value} {args vs : List Value} {vm : Vm} {known : List Value}

/-! ## Resumed coroutines at work -/

/-- A step of the machine by itself, or with the answer of the host to what it asks. -/
inductive Work : Moment → Moment → Prop
  | next {m f s known m' f'} (hs : Machine.step Library.invoke m f = .next m' f') :
      Work (.busy m f s known) (.busy m' f' s known)
  | answer {m f s known m' e h k c} (hs : Machine.step Library.invoke m f = .ask m' e h k c) :
      Work (.busy m f s known)
        (.busy m' (.library (k (s.perform e).1 h) c) (s.perform e).2 known)

/-- What can come of a moment while the machine works. -/
def Works : Moment → Moment → Prop := ReflTransGen Work

/-- The moment when the host has a coroutine start or go on. -/
def resumed (vm : Vm) (known : List Value) (n : Nat) (args : List Value) : Moment :=
  .busy (Vm.resumption vm.heap vm.machine n args).1 (Vm.resumption vm.heap vm.machine n args).2 vm.host
    known

/-- Whether a function is about to suspend the coroutine that the host has resumed. -/
inductive Yields (n : Nat) (f : Value) (vs : List Value) : Moment → Prop
  | intro {m : Machine} {h k c s known} (function : c.function = f) (chain : m.chain = [some n])
      (loose : Machine.loose m.frames) : Yields n f vs (.busy m (.library (.yield vs h k) c) s known)

theorem Work.step (hw : Work t t') : Step t t' := by
  cases hw with
  | next hs => exact .next hs
  | answer hs => exact .answer hs

/-- A run that ends with values yielded comes to where a function of the coroutine that the host has
    resumed suspends it with these values. -/
theorem works_of_run {fuel : Nat} {m : Machine} {x : Focus} {s : Host}
    (hlast : m.chain.getLast? = some (some n))
    (hr : (Machine.run Library.invoke Host.perform fuel m x s).1 = .yielded vs) :
    ∃ t f, Works (.busy m x s known) t ∧ t.Yields n f vs := by
  -- the coroutine that the host has resumed stays the last of the chain, whatever the step
  induction fuel generalizing m x s with
  | zero => cases hr
  | succ fuel ih =>
    have hp := Machine.step_passage Library.invoke m x
    unfold Machine.run at hr
    generalize he : Machine.step Library.invoke m x = p at hp hr
    cases p with
    | next m' x' =>
      obtain ⟨t, f, hw, hy⟩ := ih (hp.last.trans hlast) hr
      exact ⟨t, f, .head (.next he) hw, hy⟩
    | ask m' e h k c =>
      cases hp
      obtain ⟨t, f, hw, hy⟩ := ih hlast hr
      exact ⟨t, f, .head (.answer he) hw, hy⟩
    | ended o m' h =>
      cases hr
      obtain ⟨h, k, c, rfl, hchain, -, hl⟩ := Machine.step_yielded he
      have hn : m.thread = some n := by
        rw [hchain] at hlast
        exact Option.some.inj hlast
      exact ⟨_, c.function, .refl, .intro rfl (by rw [hchain, hn]) hl⟩

/-- So does a resumption that ends with values yielded. -/
theorem works_of_resume {vm' : Vm} (hr : vm.resume n args = (.yielded vs, vm')) :
    ∃ t f, Works (resumed vm known n args) t ∧ t.Yields n f vs := by
  by_cases hs : vm.machine.standing n = .suspended
  · have hrun : (vm.runThread n args).1 = .yielded vs := by
      have hb := congrArg Prod.fst ((Vm.resume_eq hs).symm.trans hr)
      unfold Vm.settleThread Vm.handBack at hb
      generalize vm.runThread n args = r at hb
      obtain ⟨o, vm₁⟩ := r
      cases o with
      | yielded vs' => cases hb; rfl
      | finished _ | failed _ | outOfFuel => cases hb
    refine works_of_run ?_ ((Vm.runFrom_eq ..).1.symm.trans hrun)
    rw [Vm.chain_resumption]
    rfl
  · rw [Vm.resume_refused hs] at hr
    cases hr

/-! ## What the host makes of it -/

/-- Whether the host takes the values that a function has suspended a coroutine with for what they are:
    when it was `sleep`, for the number of seconds that comes after the mark, and else for values. -/
inductive Discerned (f : Value) (vs : List Value) : Prop
  | slept {x : Value} (function : f = .builtin .sleep) (number : x.isNumber) (values : vs = [sleepMark, x])
      (taken : Runner.ofYield vs = .slept (.ofSeconds (Runner.seconds x)))
  | yielded (function : f ≠ .builtin .sleep) (taken : Runner.ofYield vs = .yielded vs)

theorem ofYield_sleepMark (x : Value) :
    Runner.ofYield [sleepMark, x] = .slept (.ofSeconds (Runner.seconds x)) := rfl

/-- Values of which the first is not the mark are no sleep. -/
theorem ofYield_values (hv : sleepMark ∉ vs) : Runner.ofYield vs = .yielded vs := by
  cases vs with
  | nil => rfl
  | cons v rest =>
    have hne : ¬ Runner.isSleepMark v := by
      rw [isSleepMark_iff]
      exact fun he => hv (he ▸ List.mem_cons_self)
    exact if_neg hne

/-- Where the mark is kept back, scripts may not have it. -/
theorem not_clean_sleepMark : ¬ sleepMark.Clean .mark := fun hc => hc rfl rfl

/-- In a good moment there is no taking one for the other. -/
theorem Good.discerned (ht : t.Good .mark) (hy : t.Yields n f vs) : Discerned f vs := by
  obtain ⟨hf, -, -⟩ := hy
  obtain ⟨_, -, ⟨name, hx⟩, -⟩ := ht
  cases hx with
  | yield tidy may =>
    by_cases hs : f = .builtin .sleep
    · obtain ⟨x, hx, rfl⟩ := may.sleep (hf.trans hs)
      exact .slept hs hx rfl (ofYield_sleepMark x)
    · refine .yielded hs (ofYield_values fun hm => not_clean_sleepMark ?_)
      exact may.other (fun he => hs (hf.symm.trans he)) _ hm

/-- While the machine works, the host gets hold of nothing. -/
theorem Work.good (hw : Work t t') (ht : t.Good .mark) (hn : ¬ t.Exposes) : t'.Good .mark := by
  have hstep := (hw.step.good_forget ht fun _ => hn).resolve_right not_trespasses_mark
  cases hw with
  | next | answer =>
    obtain ⟨_, -, -, hk⟩ := ht
    exact ⟨_, hstep.1, hstep.2.1, hk⟩

theorem Works.good (hw : Works t t') (ht : t.Good .mark) (hn : ∀ u, Works t u → ¬ u.Exposes) :
    t'.Good .mark := by
  induction hw with
  | refl => exact ht
  | tail hw hs ih => exact hs.good ih (hn _ hw)

theorem good_resumed (ht : (idle vm known).Good .mark) (ha : Handy known args) (n : Nat) :
    (resumed vm known n args).Good .mark := by
  have hg := ht.heap
  obtain ⟨_, hm, -, hk⟩ := ht
  obtain ⟨hm', hf⟩ := resumption_fine hm hg n (ha.clean hk)
  exact ⟨_, (good_of_fine hm' hf hk).resolve_right not_trespasses_mark⟩

/-- Whether no coroutine that a script has resumed sleeps while a coroutine that the host resumes runs. -/
def Spares (vm : Vm) (known : List Value) (n : Nat) (args : List Value) : Prop :=
  ∀ t, Works (resumed vm known n args) t → ¬ t.Exposes

/-- What a coroutine hands to the host when it is suspended comes of one of its own functions, and the host
    takes it for what it is. -/
theorem Good.discerns (ht : (idle vm known).Good .mark) (ha : Handy known args)
    (hn : Spares vm known n args) {vm' : Vm} (hr : vm.resume n args = (.yielded vs, vm')) :
    ∃ t f, Works (resumed vm known n args) t ∧ t.Yields n f vs ∧ Discerned f vs := by
  obtain ⟨t, f, hw, hy⟩ : ∃ t f, Works (resumed vm known n args) t ∧ t.Yields n f vs :=
    works_of_resume hr
  exact ⟨t, f, hw, hy, (hw.good (good_resumed ht ha n) hn).discerned hy⟩

/-- A body that has slept was suspended with the mark. -/
theorem yielded_of_slept {nap : Nap} (hr : (Runner.world.resume n args vm).1 = .slept nap) :
    ∃ vs vm', vm.resume n args = (.yielded vs, vm') ∧ Runner.ofYield vs = .slept nap := by
  change Runner.ofResumption (vm.resume n args).1 = _ at hr
  generalize vm.resume n args = r at hr ⊢
  obtain ⟨r, vm'⟩ := r
  cases r with
  | yielded vs => exact ⟨vs, vm', rfl, hr⟩
  | finished vs => cases hr
  | failed message => cases hr

theorem slept_of_state {back : Handback Value} {now wake : Nat}
    (hs : back.state now = .suspended (some wake)) :
    ∃ nap, back = .slept nap ∧ nap.wakeAt now = some wake := by
  cases back with
  | slept nap => exact ⟨nap, rfl, ThreadState.suspended.inj hs⟩
  | yielded | finished | failed => cases hs

/-- Only when `sleep` suspends the coroutine of a thread is it given a time to wake at. -/
theorem Good.wakes (ht : (idle vm known).Good .mark) (ha : Handy known args) {k : Scheduler Nat}
    {thread : ScriptThread Nat} (hk : thread ∈ k.threads) (hu : k.ids.Nodup)
    (hn : Spares vm known thread.body args) {wake : Nat}
    (hs : (k.resumeThread Runner.world thread.id args vm).2.1.status thread.id =
      some (.suspended (some wake))) :
    ∃ t x, Works (resumed vm known thread.body args) t ∧
      t.Yields thread.body (.builtin .sleep) [sleepMark, x] ∧ x.isNumber ∧
      (Nap.ofSeconds (Runner.seconds x)).wakeAt k.now = some wake := by
  rw [Scheduler.resumeThread_eq (Scheduler.find?_thread hu hk),
    Scheduler.status_setState (Scheduler.mem_ids hk)] at hs
  obtain ⟨nap, hback, hwake⟩ := slept_of_state (Option.some.inj hs)
  obtain ⟨vs, vm', hr, hslept⟩ := yielded_of_slept hback
  obtain ⟨t, f, hw, hy, hd⟩ := ht.discerns ha hn hr
  cases hd with
  | slept hf hx hvs htaken =>
    subst hf hvs
    cases htaken.symm.trans hslept
    exact ⟨t, _, hw, hy, hx, hwake⟩
  | yielded _ htaken => cases htaken.symm.trans hslept

/-! ## When a script gets it -/

/-- Where `sleep` suspends a coroutine that a script has resumed, the mark is handed to that script. -/
theorem Good.handed {m : Machine} {x : Focus} {s : Host} (ht : (busy m x s known).Good .mark)
    (he : m.Exposes x) : ∃ waiting rest m' seconds h, m.resumers = waiting :: rest ∧
      Machine.step Library.invoke m x =
        .next m' (.library (waiting.k (.ok [sleepMark, seconds]) h) waiting.context) := by
  obtain ⟨vs, h, k, c, rfl, hf, hid, hl, hr⟩ := he
  obtain ⟨id, hid⟩ := Option.isSome_iff_exists.mp hid
  obtain ⟨waiting, rest, hr⟩ := List.exists_cons_of_ne_nil hr
  obtain ⟨_, -, ⟨name, hx⟩, -⟩ := ht
  cases hx with
  | yield tidy may =>
    obtain ⟨seconds, -, rfl⟩ := may.sleep hf
    obtain ⟨m₁, hsame, hyield⟩ : ∃ m₁ : Machine, m₁.resumers = m.resumers ∧
        Machine.yieldStep m c [sleepMark, seconds] h k =
          Machine.leave m₁ (.ok [sleepMark, seconds]) .suspended h :=
      Machine.yieldStep_loose hid hl k
    obtain ⟨m', hleave⟩ : ∃ m', Machine.leave m₁ (.ok [sleepMark, seconds]) .suspended h =
        .next m' (.library (waiting.k (.ok [sleepMark, seconds]) h) waiting.context) :=
      Machine.leave_next (hsame.trans hr)
    exact ⟨waiting, rest, m', seconds, h, hr, hyield.trans hleave⟩

end Moment

end OscHost
