import OscHost.Proofs.Script.Activation
import OscHost.Proofs.Script.Library
import OscHost.Script.Machine
/-!
  The machine keeps scripts where they are.

  The invariant of the machine is that all frames are safe: those of the running coroutine, of the
  suspended ones and of those that wait.  A step from a safe focus leads to a safe focus and keeps
  the invariant, with one exception: the focus that it leads to may be a call of `require` for a name
  that it may not be called for.
-/

namespace OscHost.Script

variable {V : Ward} {h₀ h h' : Heap} {m : Machine}

/-! ## What is safe -/

/-- Whether the rest of a library computation is safe. -/
def Continuation.Safe (V : Ward) (c : Context) : Continuation → Prop
  | .plain k => ∃ name, ∀ rs h, CleanAll V rs → h.Good V → (k rs h).Safe V ⟨c.function, name⟩ h
  | .guarded handler k => (∀ g ∈ handler, Value.Clean V g) ∧
    ∃ name, ∀ r h, CleanResult V r → h.Good V → (k r h).Safe V ⟨c.function, name⟩ h
  | .handling => True

/-- Whether going on with what waits for results is safe. -/
def Frame.Safe (V : Ward) : Frame → Prop
  | .script x => x.Clean V
  | .library c k => k.Safe V c

/-- Whether all of some frames are safe. -/
def SafeAll (V : Ward) (fs : List Held) : Prop := ∀ f ∈ fs, f.frame.Safe V

/-- Whether going on with someone who waits for a coroutine is safe. -/
structure Resumer.Safe (V : Ward) (r : Resumer) : Prop where
  frames : SafeAll V r.frames
  next : ∃ name, ∀ res h, CleanResult V res → h.Good V →
    (r.k res h).Safe V ⟨r.context.function, name⟩ h

/-- Whether going on with a coroutine is safe, and scripts may have what remains of it. -/
structure Coroutine.Safe (V : Ward) (co : Coroutine) : Prop where
  body : co.body.Clean V
  frames : SafeAll V co.frames
  remains : co.remains.Clean V

/-- The invariant of the machine. -/
structure Machine.Good (V : Ward) (m : Machine) : Prop where
  frames : SafeAll V m.frames
  coroutines : ∀ co ∈ m.coroutines, co.Safe V
  resumers : ∀ r ∈ m.resumers, r.Safe V

/-- The heap at the moment of a focus. -/
def Focus.heap : Focus → Heap
  | .script _ h | .values _ h | .error _ h | .unwind _ h => h
  | .library x _ => x.heap

/-- Whether what the machine looks at is safe, and what has become of a heap so far as well. -/
def Focus.Safe (V : Ward) (h₀ : Heap) : Focus → Prop
  | .script x h => h₀.Follows V h ∧ x.Clean V
  | .library x c => ∃ name, x.Safe V ⟨c.function, name⟩ h₀
  | .values vs h => h₀.Follows V h ∧ CleanAll V vs
  | .error v h | .unwind v h => h₀.Follows V h ∧ v.Clean V

/-- Whether a focus is a call of `require` for a module. -/
def Focus.Demands (name : Bytes) (f : Focus) : Prop :=
  ∃ args s h c, f = .library ((Library.invoke (.builtin .require) args).action s h) c ∧
    c.function = .builtin .require ∧ (Args.get args 1).asText? = some name

/-- Whether a focus is a call of `require` that may not be made. -/
def Focus.Trespasses (V : Ward) (f : Focus) : Prop :=
  ∃ w ∈ V, ∃ name, f.Demands name ∧ ¬ w.asked name

/-- Whether a focus is safe, or a call of `require` that may not be made. -/
def Focus.Fine (V : Ward) (h₀ : Heap) (f : Focus) : Prop :=
  f.Safe V h₀ ∨ f.Trespasses V

/-- Whether scripts may have what a run ends with, if it is not that a coroutine sleeps. -/
def Outcome.Clean (V : Ward) : Outcome → Prop
  | .finished vs => CleanAll V vs
  | .yielded vs => CleanAll V vs ∨ SleepSignal vs
  | .failed v => v.Clean V
  | .outOfFuel => True

/-- Whether `sleep` is about to suspend a coroutine that a script has resumed, which hands its mark to
    that script. -/
def Machine.Exposes (m : Machine) (f : Focus) : Prop :=
  ∃ vs h k c, f = .library (.yield vs h k) c ∧ c.function = .builtin .sleep ∧
    m.thread.isSome ∧ Machine.loose m.frames ∧ m.resumers ≠ []

/-- What is to come of a step from a heap. -/
def Machine.Progress.Fine (V : Ward) (h₀ : Heap) : Machine.Progress → Prop
  | .next m f => m.Good V ∧ f.Fine V h₀
  | .ended o m h => m.Good V ∧ h₀.Follows V h ∧ o.Clean V
  | .ask m e h k c => m.Good V ∧ h₀.Follows V h ∧ ∃ name, Actor.May V ⟨c.function, name⟩ e ∧
    ∀ r h', h'.Good V → (k r h').Safe V ⟨c.function, name⟩ h'

theorem Focus.Safe.good {f : Focus} (hf : f.Safe V h₀) : f.heap.Good V := by
  cases f with
  | library x c =>
    obtain ⟨_, hx⟩ := hf
    exact hx.tidy.good
  | _ => exact hf.1.good

/-! ## Steps from another heap -/

theorem Heap.Follows.tidy {a : Actor} (hf : h₀.Follows V h) : Tidy V a h₀ h :=
  ⟨hf.good, fun w hw k => by rw [hf.same w hw]; exact .inl rfl⟩

theorem Tidy.trans {a : Actor} (h₁ : Tidy V a h₀ h) (h₂ : Tidy V a h h') : Tidy V a h₀ h' := by
  refine ⟨h₂.good, fun w hw k => ?_⟩
  obtain he | hr := h₂.kept w hw k
  · rw [he]
    exact h₁.kept w hw k
  · exact .inr hr

theorem Action.Safe.after {a : Actor} {x : Action} (ht : Tidy V a h₀ h) (hx : x.Safe V a h) :
    x.Safe V a h₀ := by
  cases hx with
  | done tidy values => exact .done (ht.trans tidy) values
  | fail tidy error => exact .fail (ht.trans tidy) error
  | call tidy callee args next => exact .call (ht.trans tidy) callee args next
  | become tidy callee args => exact .become (ht.trans tidy) callee args
  | guard tidy callee args handler next => exact .guard (ht.trans tidy) callee args handler next
  | ask tidy may next => exact .ask (ht.trans tidy) may next
  | create tidy clean next => exact .create (ht.trans tidy) clean next
  | inspect tidy next => exact .inspect (ht.trans tidy) next
  | resume tidy args next => exact .resume (ht.trans tidy) args next
  | yield tidy may next => exact .yield (ht.trans tidy) may next
  | abandon tidy next => exact .abandon (ht.trans tidy) next

/-- What an action goes on with does not depend on what has come before it. -/
theorem Action.Safe.rebase {a : Actor} {x : Action} (hx : x.Safe V a h₀) : x.Safe V a x.heap := by
  have ht : Tidy V a x.heap x.heap := hx.tidy.good.tidy
  cases hx with
  | done _ values => exact .done ht values
  | fail _ error => exact .fail ht error
  | call _ callee args next => exact .call ht callee args next
  | become _ callee args => exact .become ht callee args
  | guard _ callee args handler next => exact .guard ht callee args handler next
  | ask _ may next => exact .ask ht may next
  | create _ clean next => exact .create ht clean next
  | inspect _ next => exact .inspect ht next
  | resume _ args next => exact .resume ht args next
  | yield _ may next => exact .yield ht may next
  | abandon _ next => exact .abandon ht next

theorem Focus.Safe.rebase {f : Focus} (hf : f.Safe V h₀) : f.Safe V f.heap := by
  cases f with
  | library x c =>
    obtain ⟨name, hx⟩ := hf
    exact ⟨name, hx.rebase⟩
  | _ => exact ⟨hf.1.good.follows, hf.2⟩

theorem Focus.Fine.after {f : Focus} (hf : h₀.Follows V h) (hx : f.Fine V h) :
    f.Fine V h₀ := by
  refine hx.imp_left fun hs => ?_
  cases f with
  | library x c =>
    obtain ⟨name, hx⟩ := hs
    exact ⟨name, hx.after hf.tidy⟩
  | _ => exact ⟨hf.trans hs.1, hs.2⟩

namespace Machine

theorem Progress.Fine.after {p : Progress} (hf : h₀.Follows V h) (hp : p.Fine V h) :
    p.Fine V h₀ := by
  cases p with
  | next m f => exact ⟨hp.1, hp.2.after hf⟩
  | ended o m h' => exact ⟨hp.1, hf.trans hp.2.1, hp.2.2⟩
  | ask m e h' k c => exact ⟨hp.1, hf.trans hp.2.1, hp.2.2⟩

/-! ## Frames -/

theorem Good.hold (hm : m.Good V) {x : Activation} (hx : x.Clean V) : (m.hold x).Good V :=
  ⟨List.forall_mem_cons.mpr ⟨hx, hm.frames⟩, hm.coroutines, hm.resumers⟩

theorem Good.holdLibrary (hm : m.Good V) {c : Context} {k : Continuation} (hk : k.Safe V c)
    (pinned : Bool) : (m.holdLibrary c k pinned).Good V :=
  ⟨List.forall_mem_cons.mpr ⟨hk, hm.frames⟩, hm.coroutines, hm.resumers⟩

theorem leftOpen_clean {frames : List Held} (hf : SafeAll V frames) (hg : h.Good V) :
    CleanAll V (leftOpen h frames) := by
  intro v hv
  obtain ⟨f, hm, hv⟩ := List.mem_flatMap.mp hv
  have hs := hf f hm
  unfold Frame.Safe at hs
  split at hv
  · rename_i x he
    rw [he] at hs
    exact hs.leftOpen hg v hv
  · cases hv

/-- The frames around the innermost one that catches errors are safe, and so is that one. -/
theorem catcher_safe {above frames up rest : List Held} {c : Context} {handler : Option Value}
    {k : Except Value (List Value) → Heap → Action} (ha : SafeAll V above)
    (hf : SafeAll V frames) (he : catcher above frames = some (up, c, handler, k, rest)) :
    SafeAll V up ∧ (Continuation.guarded handler k).Safe V c ∧ SafeAll V rest := by
  induction frames generalizing above with
  | nil => cases he
  | cons f frames ih =>
    obtain ⟨hs, hf⟩ := List.forall_mem_cons.mp hf
    unfold catcher at he
    split at he
    · rename_i hframe
      cases he
      rw [hframe] at hs
      exact ⟨fun f hm => ha f (List.mem_reverse.mp hm), hs, hf⟩
    · exact ih (List.forall_mem_cons.mpr ⟨hs, ha⟩) hf he

/-! ## Calls -/

/-- What calling a value comes to is clean. -/
def Callee.Clean (V : Ward) : Callee → Prop
  | .closure _ args => CleanAll V args
  | .library f args => f.Clean V ∧ CleanAll V args
  | .nothing v => v.Clean V

theorem callee_clean (hg : h.Good V) {f : Value} {args : List Value} (hf : f.Clean V)
    (ha : CleanAll V args) (fuel : Nat) : (callee h f args fuel).Clean V := by
  induction fuel generalizing f args with
  | zero => exact hf
  | succ fuel ih =>
    unfold callee
    split
    · exact ha
    · exact ⟨hf, ha⟩
    · exact ⟨hf, ha⟩
    · have hn := hg.metamethod f "__call"
      split
      · exact hf
      · exact ih hn (cleanAll_cons.mpr ⟨hf, ha⟩)

theorem refuse_safe {x : Lib (List Value)} (hx : ∀ a, x.Safe V a (CleanAll V)) (hg : h.Good V) :
    (m.refuse x h).Safe V h :=
  ⟨.empty, (hx _).action _ hg⟩

/-- A function of the library that is called is safe, or a call of `require` that may not be made. -/
theorem invoke_fine (hg : h.Good V) {f : Value} {args : List Value} (hf : f.Clean V)
    (ha : CleanAll V args) (origin : Option Origin) (s : Site) :
    (Focus.library ((Library.invoke f args).action s h) ⟨f, origin, s⟩).Fine V h := by
  by_cases hd : ∃ w ∈ V, f = .builtin .require ∧
      ∃ name, (Args.get args 1).asText? = some name ∧ ¬ w.asked name
  · obtain ⟨w, hw, rfl, name, hn, ha⟩ := hd
    exact .inr ⟨w, hw, name, ⟨args, s, h, _, rfl, rfl, hn⟩, ha⟩
  · refine .inl ⟨((Args.get args 1).asText?).getD .empty, ?_⟩
    refine (Library.safe_invoke hf rfl ha ?_).action s hg
    intro he w hw name hn
    exact ⟨by rw [hn]; rfl, Classical.byContradiction fun ha => hd ⟨w, hw, he, name, hn, ha⟩⟩

theorem enter_fine (hg : h.Good V) {f : Value} {args : List Value} (hf : f.Clean V)
    (ha : CleanAll V args) (origin : Option Origin) :
    (m.enter Library.invoke f args origin h).Fine V h := by
  have hc := callee_clean hg hf ha maxCallees
  unfold enter
  split
  · rename_i id args he
    rw [he] at hc
    split
    · split
      · exact .inl (refuse_safe (fun a => Lib.safe_complain _) hg)
      · exact .inl ⟨hg.follows, Activation.start_clean _ _ hc _⟩
    · exact .inl ⟨hg.follows, cleanAll_nil⟩
  · rename_i f args he
    rw [he] at hc
    exact invoke_fine hg hc.1 hc.2 _ _
  · exact .inl (refuse_safe (fun a => Lib.safe_wrongType ..) hg)

theorem enterNested_fine (hg : h.Good V) {f : Value} {args : List Value} (hf : f.Clean V)
    (ha : CleanAll V args) (origin : Option Origin) :
    (m.enterNested Library.invoke f args origin h).Fine V h := by
  unfold enterNested
  split
  · exact .inl (refuse_safe (fun a => Lib.safe_complain _) hg)
  · split
    · exact .inl ⟨hg.follows, Value.clean_text _⟩
    · exact enter_fine hg hf ha origin

/-! ## Errors -/

theorem safe_closeAll {a : Actor} {vs : List Value} (hv : CleanAll V vs) (error : Option Value)
    (he : ∀ v ∈ error, Value.Clean V v) :
    (closeAll error vs).Safe V a fun r => ∀ v ∈ r, Value.Clean V v := by
  induction vs generalizing error with
  | nil => exact .pure he
  | cons v vs ih =>
    obtain ⟨hc, hs⟩ := cleanAll_cons.mp hv
    refine (Lib.safe_read fun _ hg => hg.metamethod v _).bind fun f hf => ?_
    refine (Lib.safe_attempt hf (by simp [hc, Lib.clean_getD he]) (by simp)).bind fun r hr => ?_
    split
    · exact ih hs _ he
    · exact ih hs _ fun _ h => by cases h; exact hr

theorem clean_orElse {e : Option Value} {v : Value} (he : ∀ u ∈ e, Value.Clean V u)
    (hv : v.Clean V) : (e.getD v).Clean V := by
  cases e with
  | none => exact hv
  | some u => exact he u rfl

theorem caught_safe (hg : h.Good V) {c : Context} {handler : Option Value}
    {k : Except Value (List Value) → Heap → Action} (hk : (Continuation.guarded handler k).Safe V c)
    {vs : List Value} (hvs : CleanAll V vs) {v : Value} (hv : v.Clean V) :
    (caught c k vs v h).Safe V h := by
  obtain ⟨_, name, hk⟩ := hk
  have hclose := safe_closeAll (a := ⟨c.function, name⟩) hvs (some v) (by simp [hv])
  exact ⟨name, hclose.acts c.site _ h h hg.tidy fun e h₁ h' he ht =>
    (hk (.error (e.getD v)) h' (clean_orElse he hv) ht.good).after ht⟩

/-! ## Steps -/

theorem Good.withFrames (hm : m.Good V) {frames : List Held} (hf : SafeAll V frames) :
    Machine.Good V { m with frames } :=
  ⟨hf, hm.coroutines, hm.resumers⟩

theorem Good.withoutFrames (hm : m.Good V) : Machine.Good V { m with frames := [] } :=
  hm.withFrames (List.forall_mem_nil _)

/-! ### Coroutines -/

/-- The invariant holds of a new machine. -/
theorem good_new : Machine.Good V {} where
  frames := List.forall_mem_nil _
  coroutines := by
    intro co hco
    obtain rfl := Array.mem_singleton.mp hco
    exact ⟨trivial, List.forall_mem_nil _, Remains.clean_empty⟩
  resumers := List.forall_mem_nil _

theorem Good.modifyCoroutine (hm : m.Good V) (id : Nat) {f : Coroutine → Coroutine}
    (hf : ∀ co : Coroutine, co.Safe V → (f co).Safe V) : (m.modifyCoroutine id f).Good V := by
  refine ⟨hm.frames, fun co hco => ?_, hm.resumers⟩
  obtain ⟨i, hi, rfl⟩ := Array.mem_iff_getElem.mp hco
  have hi' : i < m.coroutines.size := by simpa [Machine.modifyCoroutine] using hi
  have hold := hm.coroutines _ (Array.getElem_mem hi')
  simp only [Machine.modifyCoroutine, Array.getElem_modify]
  split
  · exact hf _ hold
  · exact hold

theorem Good.newCoroutine (hm : m.Good V) {body : Value} (hb : body.Clean V) :
    (m.newCoroutine body).2.Good V := by
  refine ⟨hm.frames, fun co hco => ?_, hm.resumers⟩
  rcases Array.mem_push.mp hco with hco | rfl
  · exact hm.coroutines co hco
  · exact ⟨hb, List.forall_mem_nil _, Remains.clean_empty⟩

theorem Good.stand (hm : m.Good V) (thread : Option Nat) (standing : Standing) :
    (m.stand thread standing).Good V := by
  cases thread with
  | none => exact hm
  | some id => exact hm.modifyCoroutine id fun co hco => ⟨hco.body, hco.frames, hco.remains⟩

/-- What holds of all coroutines holds of what is known of any number. -/
theorem Good.coroutine (hm : m.Good V) {id : Nat} {co : Coroutine}
    (h : m.coroutines[id]? = some co) : co.Safe V :=
  hm.coroutines co (Array.mem_of_getElem? h)

theorem Good.bodyOf (hm : m.Good V) (id : Nat) : (m.bodyOf id).Clean V := by
  unfold Machine.bodyOf
  split
  · exact (hm.coroutine ‹_›).body
  · trivial

theorem Good.framesOf (hm : m.Good V) (id : Nat) : SafeAll V (m.framesOf id) := by
  unfold Machine.framesOf
  split
  · exact (hm.coroutine ‹_›).frames
  · exact List.forall_mem_nil _

theorem Good.remainsOf (hm : m.Good V) (id : Nat) (hg : h.Good V) : (m.remainsOf id h).Clean V := by
  unfold Machine.remainsOf
  split
  · have hco := hm.coroutine ‹_›
    exact ⟨hco.remains.failure,
      cleanAll_append.mpr ⟨leftOpen_clean hco.frames hg, hco.remains.leftOpen⟩⟩
  · exact Remains.clean_empty

/-! ### The end of a coroutine -/

/-- Handing what scripts may have to whoever waits for a coroutine, or to the host anything that it may
    end a run with. -/
theorem hand_fine (hm : m.Good V) (hg : h.Good V) {r : Except Value (List Value)} (standing : Standing)
    (hr : m.resumers ≠ [] → CleanResult V r) (ho : (outcomeOf r standing).Clean V) :
    (leave m r standing h).Fine V h := by
  have hm₁ := hm.stand m.thread standing
  have hsame : (m.stand m.thread standing).resumers = m.resumers := by
    cases m.thread <;> rfl
  unfold leave
  extract_lets m₁
  split
  · rename_i r' resumers he
    have hall := hm₁.resumers
    rw [he] at hall
    obtain ⟨hr', hrest⟩ := List.forall_mem_cons.mp hall
    have hm₂ := hm₁.stand r'.thread .running
    obtain ⟨name, hk⟩ := hr'.next
    have hr := hr (by rw [← hsame, he]; exact List.cons_ne_nil _ _)
    exact ⟨⟨hr'.frames, hm₂.coroutines, hrest⟩, .inl ⟨name, hk r h hr hg⟩⟩
  · exact ⟨⟨List.forall_mem_nil _, hm₁.coroutines, hm₁.resumers⟩, hg.follows, ho⟩

theorem leave_fine (hm : m.Good V) (hg : h.Good V) {r : Except Value (List Value)}
    (hr : CleanResult V r) (standing : Standing) : (leave m r standing h).Fine V h := by
  refine hand_fine hm hg standing (fun _ => hr) ?_
  cases r with
  | error v => exact hr
  | ok values =>
    cases standing with
    | suspended => exact .inl hr
    | _ => exact hr

theorem uncaught_fine (hm : m.Good V) (hg : h.Good V) {v : Value} (hv : v.Clean V) :
    (uncaught m v h).Fine V h := by
  have hopen := leftOpen_clean hm.frames hg
  unfold uncaught
  extract_lets openValues
  split
  · rename_i id _
    have hm' := hm.modifyCoroutine id (f := fun co => { co with remains := ⟨some v, openValues⟩ })
      fun co hco => ⟨hco.body, hco.frames, ⟨by simp [hv], hopen⟩⟩
    exact leave_fine (r := .error v) hm'.withoutFrames hg hv .dead
  · have hm' := hm.withoutFrames
    split
    · exact leave_fine (r := .error v) hm' hg hv .dead
    · refine ⟨hm', .inl ⟨.empty, ?_⟩⟩
      have hclose := safe_closeAll (a := ⟨.nil, .empty⟩) hopen (some v) (by simp [hv])
      exact hclose.acts hostSite _ h h hg.tidy fun e h₁ h' he ht => .fail ht (clean_orElse he hv)

theorem giveBack_fine (hm : m.Good V) (hg : h.Good V) {vs : List Value} (hv : CleanAll V vs) :
    (giveBack m vs h).Fine V h := by
  have hall := hm.frames
  unfold giveBack
  split
  · exact leave_fine (r := .ok vs) hm hg hv .dead
  · rename_i x _ _ _ frames he
    rw [he] at hall
    obtain ⟨hx, hrest⟩ := List.forall_mem_cons.mp hall
    exact ⟨hm.withFrames hrest, .inl ⟨hg.follows, Activation.Clean.deliver hx hv⟩⟩
  · rename_i c k _ _ _ frames he
    rw [he] at hall
    obtain ⟨hk, hrest⟩ := List.forall_mem_cons.mp hall
    have hm' := hm.withFrames hrest
    split
    · obtain ⟨name, hk⟩ := hk
      exact ⟨hm', .inl ⟨name, hk vs h hv hg⟩⟩
    · obtain ⟨_, name, hk⟩ := hk
      exact ⟨hm', .inl ⟨name, hk (.ok vs) h hv hg⟩⟩
    · exact ⟨hm', .inl ⟨hg.follows, hv.firstOf⟩⟩

theorem awaken_fine (hm : m.Good V) (hg : h.Good V) (thread : Nat) {args : List Value}
    (ha : CleanAll V args) :
    (awaken Library.invoke m thread args h).1.Good V ∧
      (awaken Library.invoke m thread args h).2.Fine V h := by
  have hbody := hm.bodyOf thread
  have hframes := hm.framesOf thread
  unfold awaken
  extract_lets body frames m₁ m₂
  have hm₁ : m₁.Good V := hm.modifyCoroutine thread fun co hco =>
    ⟨hco.body, List.forall_mem_nil _, hco.remains⟩
  refine ⟨⟨hframes, hm₁.coroutines, hm₁.resumers⟩, ?_⟩
  split
  · exact enter_fine hg hbody ha none
  · exact .inl ⟨hg.follows, ha⟩

theorem resumeStep_fine (hm : m.Good V) (hg : h.Good V) {c : Context} {thread : Nat}
    {args : List Value} (ha : CleanAll V args) {k : Except Value (List Value) → Heap → Action}
    {name : Bytes}
    (hk : ∀ r h', CleanResult V r → h'.Good V → (k r h').Safe V ⟨c.function, name⟩ h') :
    (resumeStep Library.invoke m c thread args h k).Fine V h := by
  unfold resumeStep
  extract_lets refused resumer base m₁
  have hrefused : ∀ text, (refused text).Fine V h := by
    intro text
    have ht : CleanResult V (.error (.text text)) := Value.clean_text (V := V) text
    exact ⟨hm, .inl ⟨name, hk _ h ht hg⟩⟩
  have hm₁ : m₁.Good V := hm.stand m.thread .normal
  split
  · exact hrefused _
  · exact hrefused _
  · exact hrefused _
  · split
    · exact hrefused _
    · have hm₂ : Machine.Good V { m₁ with base, resumers := resumer :: m₁.resumers } :=
        ⟨hm₁.frames, hm₁.coroutines, List.forall_mem_cons.mpr ⟨⟨hm.frames, name, hk⟩, hm₁.resumers⟩⟩
      exact awaken_fine hm₂ hg thread ha

theorem yieldStep_fine (hm : m.Good V) (hg : h.Good V) {c : Context} {name : Bytes}
    {values : List Value} (hv : Actor.MayYield V ⟨c.function, name⟩ values)
    {k : List Value → Heap → Action} (hk : (Continuation.plain k).Safe V c)
    (hn : V = .mark → ¬ m.Exposes (.library (.yield values h k) c)) :
    (yieldStep m c values h k).Fine V h := by
  have hframes := (hm.holdLibrary hk false).frames
  unfold yieldStep
  split
  · exact ⟨hm, .inl ⟨hg.follows, Value.clean_text _⟩⟩
  · rename_i id hid
    split
    · exact ⟨hm, .inl ⟨hg.follows, Value.clean_text _⟩⟩
    · rename_i hloose
      extract_lets frames m'
      have hm' : m'.Good V := hm.modifyCoroutine id fun co hco => ⟨hco.body, hframes, hco.remains⟩
      refine hand_fine (r := .ok values) hm'.withoutFrames hg .suspended (fun hr => ?_) ?_
      · by_cases hs : c.function = .builtin .sleep
        · exact (hv.sleep hs).clean fun he =>
            hn he ⟨values, h, k, c, rfl, hs, by simp [hid], by simpa using hloose, hr⟩
        · exact hv.other hs
      · by_cases hs : c.function = .builtin .sleep
        · exact .inr (hv.sleep hs)
        · exact .inl (hv.other hs)

/-- Running the code of an activation as far as it goes by itself. -/
theorem stepScript_fine (hm : m.Good V) (hg : h.Good V) {x : Activation} (hx : x.Clean V) :
    (step Library.invoke m (.script x h)).Fine V h := by
  have hp := Activation.run_clean burst h x hg hx
  unfold step
  dsimp only
  generalize Activation.run burst h x = p at *
  obtain ⟨h', x', pause⟩ := p
  obtain ⟨hf, hx', hpause⟩ := hp
  have hm' := hm.hold hx'
  refine .after hf ?_
  cases pause with
  | outOfFuel => exact ⟨hm, .inl ⟨hf.good.follows, hx'⟩⟩
  | call f args origin => exact ⟨hm', enter_fine hf.good hpause.1 hpause.2 origin⟩
  | tailCall f args origin =>
    dsimp only
    split
    · exact ⟨hm, enter_fine hf.good hpause.1 hpause.2 none⟩
    · exact ⟨hm', enter_fine hf.good hpause.1 hpause.2 origin⟩
  | returned values => exact ⟨hm, .inl ⟨hf.good.follows, hpause⟩⟩
  | compute y => exact ⟨hm', .inl ⟨.empty, (hpause _).action _ hf.good⟩⟩

/-- Doing what a library computation asks for. -/
theorem stepLibrary_fine (hm : m.Good V) {x : Action} {c : Context} {name : Bytes}
    (hx : x.Safe V ⟨c.function, name⟩ h₀) (hn : V = .mark → ¬ m.Exposes (.library x c)) :
    (step Library.invoke m (.library x c)).Fine V x.heap := by
  have hg := hx.tidy.good
  cases hx with
  | done tidy values => exact ⟨hm, .inl ⟨hg.follows, values⟩⟩
  | fail tidy error => exact ⟨hm, .inl ⟨hg.follows, error⟩⟩
  | call tidy callee args next =>
    exact ⟨hm.holdLibrary (k := .plain _) ⟨name, next⟩ _, enterNested_fine hg callee args _⟩
  | become tidy callee args => exact ⟨hm, enter_fine hg callee args none⟩
  | guard tidy callee args handler next =>
    exact ⟨hm.holdLibrary (k := .guarded _ _) ⟨handler, name, next⟩ _,
      enterNested_fine hg callee args none⟩
  | ask tidy may next => exact ⟨hm, hg.follows, name, may, next⟩
  | create tidy clean next => exact ⟨hm.newCoroutine clean, .inl ⟨name, next _ _ hg⟩⟩
  | inspect tidy next => exact ⟨hm, .inl ⟨name, next _ _ hg⟩⟩
  | resume tidy args next => exact resumeStep_fine hm hg args next
  | yield tidy may next => exact yieldStep_fine hm hg may ⟨name, next⟩ hn
  | @abandon _ h thread k tidy next =>
    have hm' := hm.modifyCoroutine thread (f := fun co => { body := co.body, standing := .dead })
      fun co hco => ⟨hco.body, List.forall_mem_nil _, Remains.clean_empty⟩
    exact ⟨hm', .inl ⟨name, next _ _ (hm.remainsOf _ hg) hg⟩⟩

/-- An error on its way to its handler. -/
theorem stepError_fine (hm : m.Good V) (hg : h.Good V) {v : Value} (hv : v.Clean V) :
    (step Library.invoke m (.error v h)).Fine V h := by
  unfold step
  dsimp only
  split
  · rename_i c handler _ _ he
    obtain ⟨_, hk, _⟩ := catcher_safe (List.forall_mem_nil _) hm.frames he
    exact ⟨hm.holdLibrary (c := c) (k := .handling) trivial true,
      enterNested_fine hg (hk.1 handler rfl) (by simp [hv]) none⟩
  · exact ⟨hm, .inl ⟨hg.follows, hv⟩⟩

/-- An error on its way to whoever catches it. -/
theorem stepUnwind_fine (hm : m.Good V) (hg : h.Good V) {v : Value} (hv : v.Clean V) :
    (step Library.invoke m (.unwind v h)).Fine V h := by
  unfold step
  dsimp only
  split
  · exact uncaught_fine hm hg hv
  · rename_i above c handler k frames he
    obtain ⟨ha, hk, hf⟩ := catcher_safe (List.forall_mem_nil _) hm.frames he
    exact ⟨hm.withFrames hf, .inl (caught_safe hg hk (leftOpen_clean ha hg) hv)⟩

/-- A step from a safe focus keeps the invariant and leads to a safe focus, unless it leads to a
    call of `require` that may not be made.  Where the mark of `sleep` is kept back, the step must not
    be one that hands it to a script. -/
theorem step_fine (hm : m.Good V) {f : Focus} (hf : f.Safe V h₀)
    (hn : V = .mark → ¬ m.Exposes f) :
    (step Library.invoke m f).Fine V f.heap := by
  cases f with
  | script x h => exact stepScript_fine hm hf.1.good hf.2
  | library x c =>
    obtain ⟨name, hx⟩ := hf
    exact stepLibrary_fine hm hx hn
  | values vs h => exact giveBack_fine hm hf.1.good hf.2
  | error v h => exact stepError_fine hm hf.1.good hf.2
  | unwind v h => exact stepUnwind_fine hm hf.1.good hf.2

end Machine

end OscHost.Script
