import OscHost.Proofs.FirstSteps
import OscHost.Proofs.Scheduler.Sleep
import OscHost.Proofs.Sleep.Signals
/-!
  Threads that sleep.

  The main result is that nobody but `sleep` and the host has the mark, and that a thread is given a time
  to wake at only when `sleep` has suspended it, unless a coroutine sleeps that a script has resumed.  Such
  a script has the mark from then on.  It can suspend itself with the mark as if it slept, and the host
  does not know better.
-/

namespace OscHost

open Script Relation
open Library.HostApi (sleepMark)

namespace Moment

variable {t t' : Moment} {n : Nat} {f : Value} {args vs : List Value} {vm : Vm} {known : List Value}

/-! ## Scripts that sleep -/

/-- The code of `sleep(5)`. -/
def doze : Proto := .mk
  #[(.getUpvalue 0, 1), (.pushString "sleep", 1), (.index (some ⟨"upvalue", "_ENV"⟩), 1), (.pushInt 5, 1),
    (.call 1 false (.exact 0) (some ⟨"global", "sleep"⟩), 1), (.ret 0 false, 1)]
  #[] [(.slot 0, "_ENV")] 0 true 0 "=s" "main" 0 1

/-- The code of `coroutine.yield(coroutine.wrap(sleep)(5))`. -/
def disguise : Proto := .mk
  #[(.getUpvalue 0, 1), (.pushString "coroutine", 1), (.index (some ⟨"upvalue", "_ENV"⟩), 1),
    (.pushString "yield", 1), (.index (some ⟨"global", "coroutine"⟩), 1), (.getUpvalue 0, 1),
    (.pushString "coroutine", 1), (.index (some ⟨"upvalue", "_ENV"⟩), 1), (.pushString "wrap", 1),
    (.index (some ⟨"global", "coroutine"⟩), 1), (.getUpvalue 0, 1), (.pushString "sleep", 1),
    (.index (some ⟨"upvalue", "_ENV"⟩), 1), (.call 1 false (.exact 1) (some ⟨"field", "wrap"⟩), 1),
    (.pushInt 5, 1), (.call 1 false .all none, 1),
    (.call 0 true (.exact 0) (some ⟨"field", "yield"⟩), 1), (.ret 0 false, 1)]
  #[] [(.slot 0, "_ENV")] 0 true 0 "=s" "main" 0 1

section

variable {s : Host} {p : Proto} {h : Heap} {id cell k : Nat} {m : Machine} {x : Focus}

/-! ### Their code -/

theorem run_doze (id : Nat)
    (hv : Lib.lookup h (h.cell cell) (.string "sleep") = .found (.builtin .sleep)) (fuel : Nat) :
    let x := Activation.start id ⟨doze, #[cell]⟩ [] none
    Activation.run (fuel + 5) h x =
      ⟨h, { x with pc := 5, pausedAt := 4, want := .exact 0 },
        .call (.builtin .sleep) [.int 5] (some ⟨"global", "sleep"⟩)⟩ := by
  intro x
  rw [run_global (x := x) rfl rfl rfl hv]
  show Activation.run (fuel + 2) h { x with pc := 3, stack := [.builtin .sleep] } = _
  rw [Activation.run_code (i := .pushInt 5) rfl]
  show Activation.run (fuel + 1) h { x with pc := 4, stack := [.int 5, .builtin .sleep] } = _
  rw [Activation.run_code (i := .call 1 false (.exact 0) (some ⟨"global", "sleep"⟩)) rfl]
  rfl

/-- The script makes a coroutine that runs `sleep`. -/
theorem run_disguise (id : Nat) {library : Value}
    (hl : Lib.lookup h (h.cell cell) (.string "coroutine") = .found library)
    (hs : Lib.lookup h (h.cell cell) (.string "sleep") = .found (.builtin .sleep))
    (hy : Lib.lookup h library (.string "yield") = .found (.builtin .coYield))
    (hw : Lib.lookup h library (.string "wrap") = .found (.builtin .coWrap)) (fuel : Nat) :
    let x := Activation.start id ⟨disguise, #[cell]⟩ [] none
    Activation.run (fuel + 14) h x =
      ⟨h, { x with pc := 14, pausedAt := 13, stack := [.builtin .coYield], want := .exact 1 },
        .call (.builtin .coWrap) [.builtin .sleep] (some ⟨"field", "wrap"⟩)⟩ := by
  intro x
  rw [run_global (x := x) rfl rfl rfl hl, run_member rfl rfl rfl hy, run_global rfl rfl rfl hl,
    run_member rfl rfl rfl hw, run_global rfl rfl rfl hs,
    Activation.run_code (i := .call 1 false (.exact 1) (some ⟨"field", "wrap"⟩)) rfl]
  rfl

/-- It has that coroutine start. -/
theorem run_disguise_wrapped (h : Heap) (id cell k fuel : Nat) :
    let x := Activation.start id ⟨disguise, #[cell]⟩ [] none
    Activation.run (fuel + 2) h (Activation.deliver
        { x with pc := 14, pausedAt := 13, stack := [.builtin .coYield], want := .exact 1 } [.native k]) =
      ⟨h, { x with pc := 16, pausedAt := 15, stack := [.builtin .coYield], want := .all },
        .call (.native k) [.int 5] none⟩ := by
  intro x
  rw [Activation.run_code (i := .pushInt 5) rfl]
  show Activation.run (fuel + 1) h { x with
    pc := 15, pausedAt := 13, stack := [.int 5, .native k, .builtin .coYield], want := .exact 1 } = _
  rw [Activation.run_code (i := .call 1 false .all none) rfl]
  rfl

/-- It suspends itself with what it is given. -/
theorem run_disguise_given (h : Heap) (id cell : Nat) (given : List Value) (fuel : Nat) :
    let x := Activation.start id ⟨disguise, #[cell]⟩ [] none
    Activation.run (fuel + 1) h (Activation.deliver
        { x with pc := 16, pausedAt := 15, stack := [.builtin .coYield], want := .all } given) =
      ⟨h, { x with pc := 17, pausedAt := 16, want := .exact 0 },
        .call (.builtin .coYield) given (some ⟨"field", "yield"⟩)⟩ := by
  intro x
  rw [Activation.run_code (i := .call 0 true (.exact 0) (some ⟨"field", "yield"⟩)) rfl]
  rfl

/-- Calling a function that `coroutine.wrap` has made. -/
theorem enter_wrapped {thread : Nat} (hn : h.natives[k]? = some (.wrapped thread))
    (args : List Value) (origin : Option Origin) :
    m.enter Library.invoke (.native k) args origin h =
      .library ((Library.Coroutines.callWrapped thread args).action (m.siteOf (.native k) origin) h)
        ⟨.native k, origin, m.siteOf (.native k) origin⟩ := by
  have henter : m.enter Library.invoke (.native k) args origin h =
      .library ((Library.invoke (.native k) args).action (m.siteOf (.native k) origin) h)
        ⟨.native k, origin, m.siteOf (.native k) origin⟩ := rfl
  rw [henter]
  unfold Library.invoke
  simp only [Lib.action, bind, Lib.read, hn]
  rfl

/-! ### Threads that run them -/

theorem getText_sleep : (Sandbox.contents {} s.scriptRoot .globals).getText "sleep" = .builtin .sleep :=
  Sandbox.getText_tableOf ((Sandbox.entries Sandbox.baseFunctions).take 19) _ (by decide) (by decide)

/-- Whether `sleep` is at work. -/
def Naps : Focus → Prop
  | .library _ c => c.function = .builtin .sleep
  | _ => False

theorem not_exposes (hx : ¬ Naps x) : ¬ (busy m x s known).Exposes := by
  rintro ⟨_, _, _, _, rfl, hs, _⟩
  exact hx hs

theorem not_exposes_script {a : Activation} : ¬ (busy m (.script a h) s known).Exposes :=
  not_exposes fun he => he

theorem not_exposes_values : ¬ (busy m (.values vs h) s known).Exposes := not_exposes fun he => he

theorem not_exposes_idle : ¬ (idle vm known).Exposes := fun he => he

/-- A step that hands the mark to nobody, neither a script nor the host. -/
def PlainStep (t t' : Moment) : Prop := Step t t' ∧ ¬ t.Exposes ∧ t'.forget = t'

/-- What can come of a moment when the mark is handed to nobody. -/
def PlainRun : Moment → Moment → Prop := ReflTransGen PlainStep

theorem PlainRun.directRun (hr : PlainRun t t') : DirectRun t t' :=
  ReflTransGen.mono (fun _ t' hs => ⟨hs.2.1, t', hs.1, hs.2.2.symm⟩) _ _ hr

theorem PlainRun.run (hr : PlainRun t t') : Run t t' :=
  ReflTransGen.mono (fun _ _ hs => hs.1) _ _ hr

/-- A machine in which the host has had its first coroutine start. -/
def started (body : Value) : Machine where
  coroutines := #[{ body := .nil }, { body, standing := .running }]
  thread := some 1
  base := 1

/-- A machine at rest with a compiled script as the body of its first coroutine. -/
def threaded (h : Heap) (id : Nat) (s : Host) : Vm :=
  ⟨h, (Machine.newCoroutine {} (.closure id)).2, s⟩

namespace Compiled

variable (hc : Compiled s p h id cell)
include hc

theorem plainRun_threaded :
    PlainRun (new s) (.idle (threaded h id s) [.closure id, .table Sandbox.Place.globals.id]) :=
  .head ⟨hc.step, not_exposes_idle, rfl⟩ (.single ⟨.thread List.mem_cons_self, not_exposes_idle, rfl⟩)

theorem resumed_threaded (hp : p.slots ≤ Machine.maxExtent) :
    resumed (threaded h id s) known 1 [] =
      .busy (started (.closure id)) (.script (.start id ⟨p, #[cell]⟩ [] none) h) s known := by
  have henter : (started (.closure id)).enter Library.invoke (.closure id) [] none h =
      .script (.start id ⟨p, #[cell]⟩ [] none) h :=
    enter_closure hc.closure (by simpa [Machine.extent, started] using hp)
  rw [← henter]
  rfl

theorem plainRun_resumed (hp : p.slots ≤ Machine.maxExtent) :
    PlainRun (new s) (.busy (started (.closure id)) (.script (.start id ⟨p, #[cell]⟩ [] none) h) s
      [.closure id, .table Sandbox.Place.globals.id]) := by
  rw [← hc.resumed_threaded hp]
  exact hc.plainRun_threaded.tail ⟨.resume 1 (List.forall_mem_nil _), not_exposes_idle, rfl⟩

end Compiled

theorem Work.eq_of_next {m' : Machine} {x' : Focus} (hs : Machine.step Library.invoke m x = .next m' x')
    (hw : Work (.busy m x s known) t) : t = .busy m' x' s known := by
  cases hw with
  | next hs' =>
    cases hs.symm.trans hs'
    rfl
  | answer hs' => cases hs.symm.trans hs'

theorem Work.not_of_ended {o : Outcome} {m' : Machine}
    (hs : Machine.step Library.invoke m x = .ended o m' h) : ¬ Work (.busy m x s known) t := by
  intro hw
  cases hw with
  | next hs' => cases hs.symm.trans hs'
  | answer hs' => cases hs.symm.trans hs'

/-- The host has a thread start that sleeps: nobody but the host is handed the mark. -/
theorem exists_dozing (hs : s.policy = {}) : ∃ vm known, DirectRun (new s) (.idle vm known) ∧
    Spares vm known 1 [] ∧ ∃ vm', vm.resume 1 [] = (.yielded [sleepMark, .int 5], vm') := by
  obtain ⟨h, id, cell, hc⟩ := exists_compiled hs doze
  have hcall := step_call (m := started (.closure id)) (run_doze id
    (hc.lookup_global getText_sleep) 9995)
  rw [enter_builtin] at hcall
  have hstart (known : List Value) : resumed (threaded h id s) known 1 [] =
      .busy (started (.closure id)) (.script (.start id ⟨doze, #[cell]⟩ [] none) h) s known :=
    hc.resumed_threaded (Nat.zero_le _)
  refine ⟨_, _, hc.plainRun_threaded.directRun, fun t hw => ?_, ?_⟩
  · rw [hstart] at hw
    -- two moments: the script runs, and `sleep` has been called; then the run ends
    obtain rfl | ⟨u, hstep, hw⟩ := hw.cases_head
    · exact not_exposes_script
    · obtain rfl := hstep.eq_of_next hcall
      obtain rfl | ⟨u, hstep, -⟩ := hw.cases_head
      · rintro ⟨_, _, _, _, _, _, _, _, hr⟩
        exact hr rfl
      · exact absurd hstep (Work.not_of_ended rfl)
  · have hsuspended : (threaded h id s).machine.standing 1 = .suspended := rfl
    obtain ⟨hm, hx, -⟩ := Moment.busy.inj (hstart [])
    rw [Vm.resume_eq hsuspended, Vm.runThread, hm, hx, runFrom_of_steps hcall rfl]
    exact ⟨_, rfl⟩

/-- The other thread comes to where a coroutine that it has resumed sleeps, and from there to where it
    suspends itself with the mark. -/
theorem exists_run_disguise (hs : s.policy = {}) : ∃ t t', PlainRun (new s) t ∧ t.Exposes ∧ Run t t' ∧
    t'.Yields 1 (.builtin .coYield) [sleepMark, .int 5] := by
  obtain ⟨h, id, cell, hc⟩ := exists_compiled hs disguise
  have hlibrary : (Sandbox.contents {} s.scriptRoot .globals).getText "coroutine" =
      .table Sandbox.Place.coroutine.id := by
    refine Sandbox.getText_tableOf_of_mem (by decide) (by decide) ?_
    simp [Sandbox.libraries]
  have hyield : (Sandbox.contents {} s.scriptRoot .coroutine).getText "yield" = .builtin .coYield := by
    refine Sandbox.getText_tableOf_of_mem (by decide) (by decide) ?_
    simp [Sandbox.entries, Sandbox.coroutineFunctions]
  have hwrap : (Sandbox.contents {} s.scriptRoot .coroutine).getText "wrap" = .builtin .coWrap := by
    refine Sandbox.getText_tableOf_of_mem (by decide) (by decide) ?_
    simp [Sandbox.entries, Sandbox.coroutineFunctions]
  have hcall := step_call (m := started (.closure id)) (run_disguise id
    (hc.lookup_global hlibrary) (hc.lookup_global getText_sleep) (hc.lookup hyield)
    (hc.lookup hwrap) 9986)
  rw [enter_builtin] at hcall
  let h' := (h.newNative (.wrapped 2)).2
  have hn : h'.natives[h.natives.size]? = some (.wrapped 2) := Array.getElem?_push_size
  let m : Machine := { started (.closure id) with
    coroutines :=
      #[{ body := .nil }, { body := .closure id, standing := .running }, { body := .builtin .sleep }] }
  have hresume := step_call (m := m)
    (run_disguise_wrapped h' id cell h.natives.size 9998)
  rw [enter_wrapped hn] at hresume
  have hend := fun m => step_call (m := m) (run_disguise_given h' id cell [sleepMark, .int 5] 9999)
  have hr := (hc.plainRun_resumed (Nat.zero_le _)).tail ⟨.next hcall, not_exposes_script, rfl⟩
  -- `coroutine.wrap` makes a coroutine and its function
  have hr₁ := hr.tail ⟨.next rfl, (not_exposes fun he => by cases he), rfl⟩
  have hr₂ := hr₁.tail ⟨.next rfl, (not_exposes fun he => by cases he), rfl⟩
  have hr₃ := hr₂.tail ⟨.next rfl, not_exposes_values, rfl⟩
  have hr₄ := hr₃.tail ⟨.next hresume, not_exposes_script, rfl⟩
  -- the function has that coroutine start, which is about to sleep
  have hr₅ := hr₄.tail ⟨.next rfl, (not_exposes fun he => by cases he), rfl⟩
  have hr₆ := hr₅.tail ⟨.next rfl, (not_exposes fun he => by cases he), rfl⟩
  refine ⟨_, _, hr₆, ?_,
    .head (.next rfl) (.head (.next rfl) (.head (.next rfl) (.single (.next (hend _))))), ?_⟩
  · exact ⟨[sleepMark, .int 5], h', _, _, rfl, rfl, rfl, rfl, List.cons_ne_nil _ _⟩
  · exact .intro (h := h') rfl rfl rfl

end

/-! ## The mark -/

/-- As long as neither inspection nor native code is allowed, and no coroutine sleeps that a script has
    resumed, no script and no library function but `sleep` has the mark.  Then whatever suspends a
    coroutine is taken for what it is, and a thread is given a time to wake at only when `sleep` has
    suspended its own coroutine, for the number of seconds that comes after the mark.  The first coroutine
    to sleep that a script has resumed hands the mark to that script. -/
theorem sleep_mark_kept {s : Host} (hd : s.policy.debug = false) (hl : s.policy.nativeLibraries = false)
    (hf : s.policy.foreignModules = false) (hr : DirectRun (new s) t) :
    (∀ v, t.Has v → v ≠ sleepMark) ∧
    (∀ n f vs, t.Yields n f vs → Discerned f vs) ∧
    (∀ vm known args, t = .idle vm known → Handy known args →
      (∀ n vs vm', Spares vm known n args → vm.resume n args = (.yielded vs, vm') →
        ∃ u f, Works (resumed vm known n args) u ∧ u.Yields n f vs ∧ Discerned f vs) ∧
      ∀ (k : Scheduler Nat) thread wake, thread ∈ k.threads → k.ids.Nodup →
        Spares vm known thread.body args →
        (k.resumeThread Runner.world thread.id args vm).2.1.status thread.id =
          some (.suspended (some wake)) →
        ∃ u x, Works (resumed vm known thread.body args) u ∧
          u.Yields thread.body (.builtin .sleep) [sleepMark, x] ∧ x.isNumber ∧
          (Nap.ofSeconds (Runner.seconds x)).wakeAt k.now = some wake) ∧
    ∀ m x s' known, t = .busy m x s' known → m.Exposes x →
      ∃ waiting rest m' seconds h, m.resumers = waiting :: rest ∧
        Machine.step Library.invoke m x =
          .next m' (.library (waiting.k (.ok [sleepMark, seconds]) h) waiting.context) := by
  have hnone : ∀ w, w ∉ Ward.mark := fun w => Ward.not_mem_mark
  have ht : t.Good .mark :=
    hr.good (new_good_of_suits (.inr ⟨rfl, hd, hl, hf⟩) (fun _ => False) id
      fun w hw => absurd hw (hnone w))
  refine ⟨fun v hv he => ?_, fun n f vs hy => ht.discerned hy, ?_, ?_⟩
  · exact not_clean_sleepMark (he ▸ ht.clean_of_has hnone hv)
  · rintro vm known args rfl ha
    exact ⟨fun n vs vm' hn hr => ht.discerns ha hn hr,
      fun k thread wake hk hu hn hs => ht.wakes ha hk hu hn hs⟩
  · rintro m x s' known rfl he
    exact ht.handed he

/-- A scheduler with a thread that has not run yet. -/
def fresh : Scheduler Nat where
  threads := [⟨1, "main", 1, .runnable⟩]
  nextId := 2

/-- A thread is given a time to wake at because it has called `sleep`.  Another one has not got hold of the
    mark when a coroutine sleeps that it has resumed, but is handed it then. -/
theorem plain_sleep_mark_kept :
    (∃ vm known wake u x, DirectRun (new plainHost) (.idle vm known) ∧ Spares vm known 1 [] ∧
      (fresh.resumeThread Runner.world 1 [] vm).2.1.status 1 = some (.suspended (some wake)) ∧
      Works (resumed vm known 1 []) u ∧ u.Yields 1 (.builtin .sleep) [sleepMark, x] ∧
      (Nap.ofSeconds (Runner.seconds x)).wakeAt 0 = some wake) ∧
    ∃ m x s known resumer rest m' seconds h, DirectRun (new plainHost) (.busy m x s known) ∧
      m.Exposes x ∧ (∀ v, (busy m x s known).Has v → v ≠ sleepMark) ∧ m.resumers = resumer :: rest ∧
      Machine.step Library.invoke m x =
        .next m' (.library (resumer.k (.ok [sleepMark, seconds]) h) resumer.context) := by
  constructor
  · obtain ⟨vm, known, hr, hn, vm', hresume⟩ := exists_dozing (s := plainHost) rfl
    let nap := Nap.ofSeconds (Runner.seconds (.int 5))
    have hwake : nap.wakeAt 0 = some (0 + nap.ns) := Nap.wakeAt_eq_some (by decide) nap
    -- the mark with a number behind it is read as a time to sleep
    have hslept : (Runner.world.resume 1 [] vm).1 = .slept (.ofSeconds (Runner.seconds (.int 5))) := by
      show Runner.ofResumption (vm.resume 1 []).1 = _
      rw [hresume]
      rfl
    have hstatus : (fresh.resumeThread Runner.world 1 [] vm).2.1.status 1 =
        some (.suspended (some (0 + (Nap.ofSeconds (Runner.seconds (.int 5))).ns))) := by
      rw [Scheduler.resumeThread_eq (t := ⟨1, "main", 1, .runnable⟩) rfl,
        Scheduler.status_setState (List.mem_singleton_self _), hslept, ← hwake]
      rfl
    obtain ⟨-, -, hidle, -⟩ := sleep_mark_kept (s := plainHost) rfl rfl rfl hr
    obtain ⟨u, x, hw, hy, -, hx⟩ := (hidle vm known [] rfl (List.forall_mem_nil _)).2 fresh
      ⟨1, "main", 1, .runnable⟩ _ (List.mem_singleton_self _) (List.nodup_singleton _) hn hstatus
    exact ⟨vm, known, _, u, x, hr, hn, hstatus, hw, hy, hx⟩
  · obtain ⟨t, _, hplain, he, -⟩ := exists_run_disguise (s := plainHost) rfl
    have hr := hplain.directRun
    obtain ⟨hkept, -, -, hhanded⟩ := sleep_mark_kept (s := plainHost) rfl rfl rfl hr
    cases t with
    | idle vm known => exact he.elim
    | busy m x s known =>
      obtain ⟨resumer, rest, m', seconds, h, hrest, hstep⟩ := hhanded m x s known rfl he
      exact ⟨m, x, s, known, resumer, rest, m', seconds, h, hr, he, hkept, hrest, hstep⟩

/-- So with all flags off a script can have the mark, and what `coroutine.yield` has suspended can be
    taken for a thread that sleeps. -/
theorem not_forall_discerned :
    (¬ ∀ s t v, s.policy = {} → Run (new s) t → t.Has v → v ≠ sleepMark) ∧
    ¬ ∀ s t n f vs, s.policy = {} → Run (new s) t → t.Yields n f vs → Discerned f vs := by
  obtain ⟨t, t', hr, -, hr', hy⟩ := exists_run_disguise (s := plainHost) rfl
  have hrun : Run (new plainHost) t' := hr.run.trans hr'
  constructor
  · intro hkept
    have hhas : t'.Has sleepMark := by
      obtain ⟨hf, -, -⟩ := hy
      refine .working (.library (.yield ?_ List.mem_cons_self))
      rw [hf]
      exact fun he => by cases he
    exact hkept plainHost t' _ rfl hrun hhas rfl
  · intro hall
    obtain ⟨hf, -, -, -⟩ | ⟨-, htaken⟩ := hall plainHost t' _ _ _ rfl hrun hy
    · cases hf
    · cases htaken

end Moment

end OscHost
