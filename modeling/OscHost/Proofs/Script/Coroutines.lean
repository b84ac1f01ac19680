import OscHost.Script.Machine
/-!
  What becomes of the coroutines in a run.

  The running coroutine, the one that waits for it, and so on make a chain that ends with what the
  host has begun.  A coroutine in the chain is running or waits; any other one that is alive is
  suspended.  Scripts may resume a coroutine and see it yield: that changes nothing of this.  But a
  script can also close a coroutine, or see one that it has resumed come to its end.  Such a
  coroutine is lost to the host.  A coroutine that is not lost is suspended when the run ends, unless
  it is what the host has begun: then the run ends with it.

  `Passage` says all that a step does to coroutines.  Nothing here depends on what the library does
  or on what the host answers.
-/

namespace OscHost.Script

/-- The coroutines that a script is about to close. -/
def Focus.closed : Focus → List Nat
  | .library (.abandon thread ..) _ => [thread]
  | _ => []

/-- Whether a run that ends like this leaves its coroutine like this. -/
def Outcome.Leaves (co : Coroutine) : Outcome → Prop
  | .yielded _ => co.standing = .suspended ∧ co.remains.failure = none
  | .finished _ => co.standing = .dead ∧ co.remains.failure = none
  | .failed v => co.standing = .dead ∧ co.remains.failure = some v
  | .outOfFuel => False

namespace Machine

variable {m m' m₁ : Machine} {n : Nat} {s : Standing}

/-- The running coroutine, the one that waits for it, and so on; last what the host has begun. -/
def chain (m : Machine) : List (Option Nat) := m.thread :: m.resumers.map (·.thread)

/-- Whether a coroutine, if there is one of that number, is the same in another machine. -/
def Keeps (m : Machine) (n : Nat) (m' : Machine) : Prop :=
  ∀ co, m.coroutines[n]? = some co → m'.coroutines[n]? = some co

/-- Whether there is a coroutine of that number that stands like this and has not died of an error. -/
def Stands (m : Machine) (n : Nat) (s : Standing) : Prop :=
  ∃ co, m.coroutines[n]? = some co ∧ co.standing = s ∧ co.remains.failure = none

/-- Whether a coroutine is as a run leaves it. -/
def Left (m : Machine) (n : Nat) (o : Outcome) : Prop :=
  ∃ co, m.coroutines[n]? = some co ∧ o.Leaves co

theorem Keeps.refl (m : Machine) (n : Nat) : m.Keeps n m := fun _ h => h

theorem Keeps.of_eq (h : m'.coroutines = m.coroutines) : m.Keeps n m' := by
  intro co hco
  rw [h]
  exact hco

theorem Keeps.trans {m'' : Machine} (h : m.Keeps n m') (h' : m'.Keeps n m'') : m.Keeps n m'' :=
  fun co hco => h' co (h co hco)

theorem Keeps.stands (h : m.Keeps n m') (hs : m.Stands n s) : m'.Stands n s := by
  obtain ⟨co, hco, hs⟩ := hs
  exact ⟨co, h co hco, hs⟩

theorem Stands.standing (h : m.Stands n s) : m.standing n = s := by
  obtain ⟨co, hco, hs, -⟩ := h
  unfold Machine.standing
  rw [hco]
  exact hs

/-! ## Changing a coroutine -/

theorem getElem?_modifyCoroutine (m : Machine) (id n : Nat) (f : Coroutine → Coroutine) :
    (m.modifyCoroutine id f).coroutines[n]? =
      if id = n then m.coroutines[n]?.map f else m.coroutines[n]? := by
  unfold modifyCoroutine
  dsimp only
  rw [Array.getElem?_modify]

theorem getElem?_modifyCoroutine_self {id : Nat} {co : Coroutine} (h : m.coroutines[id]? = some co)
    (f : Coroutine → Coroutine) : (m.modifyCoroutine id f).coroutines[id]? = some (f co) := by
  rw [getElem?_modifyCoroutine, if_pos rfl, h]
  rfl

theorem keeps_modifyCoroutine {id : Nat} (h : n ≠ id) (f : Coroutine → Coroutine) :
    m.Keeps n (m.modifyCoroutine id f) := by
  intro co hco
  rw [getElem?_modifyCoroutine, if_neg h.symm]
  exact hco

theorem keeps_newCoroutine (body : Value) : m.Keeps n (m.newCoroutine body).2 := by
  intro co hco
  obtain ⟨hlt, rfl⟩ := Array.getElem?_eq_some_iff.mp hco
  exact Array.getElem?_push_lt hlt

theorem keeps_stand {thread : Option Nat} (h : some n ≠ thread) (standing : Standing) :
    m.Keeps n (m.stand thread standing) := by
  cases thread with
  | none => exact .refl m n
  | some id => exact keeps_modifyCoroutine (fun he => h (congrArg some he)) _

theorem Stands.stand (h : m.Stands n s) (standing : Standing) :
    (m.stand (some n) standing).Stands n standing := by
  obtain ⟨co, hco, -, hf⟩ := h
  exact ⟨_, getElem?_modifyCoroutine_self hco _, rfl, hf⟩

theorem resumers_stand (thread : Option Nat) (standing : Standing) :
    (m.stand thread standing).resumers = m.resumers := by
  cases thread <;> rfl

/-! ## Steps -/

/-- All that a step does to coroutines. -/
inductive Passage (m : Machine) (f : Focus) : Progress → Prop
  /-- Nobody comes or goes. -/
  | stay {m' f'} (chain : m'.chain = m.chain) (keeps : ∀ n ∉ f.closed, m.Keeps n m') :
      Passage m f (.next m' f')
  | ask {e h k c} : Passage m f (.ask m e h k c)
  /-- A script resumes a suspended coroutine and waits for it. -/
  | descend {m' f' id} (suspended : m.standing id = .suspended) (chain : m'.chain = some id :: m.chain)
      (comes : ∀ s, m.Stands id s → m'.Stands id .running)
      (waits : ∀ n s, n ≠ id → m.thread = some n → m.Stands n s → m'.Stands n .normal)
      (keeps : ∀ n, n ≠ id → some n ≠ m.thread → m.Keeps n m') : Passage m f (.next m' f')
  /-- A coroutine that a script has resumed yields or ends, and the script goes on. -/
  | ascend {m' f'} (chain : m.chain = m.thread :: m'.chain)
      (goes : ∀ n s, m.thread = some n → some n ≠ m'.thread → m.Stands n s →
        m'.standing n = .dead ∨ m'.Stands n .suspended)
      (returns : ∀ n s, some n ≠ m.thread → m'.thread = some n → m.Stands n s → m'.Stands n .running)
      (keeps : ∀ n, some n ≠ m.thread → some n ≠ m'.thread → m.Keeps n m') : Passage m f (.next m' f')
  /-- What the host has begun yields or ends. -/
  | finish {o m' h} (chain : m.chain = [m.thread]) (idle : m'.chain = [none])
      (goes : ∀ n s, m.thread = some n → m.Stands n s → m'.Left n o)
      (keeps : ∀ n, some n ≠ m.thread → m.Keeps n m') : Passage m f (.ended o m' h)

section

variable {f : Focus}

/-- A step that does nothing to coroutines. -/
theorem Passage.same {f' : Focus} (hc : m'.coroutines = m.coroutines)
    (hchain : m'.chain = m.chain) : Passage m f (.next m' f') :=
  .stay hchain fun _ _ => .of_eq hc

/-- A coroutine that yields is suspended, and dead otherwise. -/
theorem standing_of_leaves {r : Except Value (List Value)} {standing : Standing} {co : Coroutine}
    (h : (outcomeOf r standing).Leaves { co with standing }) :
    standing = .dead ∨ standing = .suspended ∧ co.remains.failure = none := by
  cases r with
  | error v => exact .inl h.1
  | ok vs => cases standing <;> first | exact .inr h | exact .inl h.1

/-- The end of the running coroutine, which may have changed before. -/
theorem leave_passage {r : Except Value (List Value)} {standing : Standing} {h : Heap}
    (hthread : m₁.thread = m.thread) (hresumers : m₁.resumers = m.resumers)
    (hkeeps : ∀ n, some n ≠ m.thread → m.Keeps n m₁)
    (hgoes : ∀ n s, m.thread = some n → m.Stands n s → ∃ co, m₁.coroutines[n]? = some co ∧
      (outcomeOf r standing).Leaves { co with standing }) :
    Passage m f (leave m₁ r standing h) := by
  unfold leave
  -- `m₂` is the machine with the end written into the running coroutine; somebody waits for it or
  -- it was the last
  extract_lets m₂
  have hresumers₂ : m₂.resumers = m.resumers := (resumers_stand _ _).trans hresumers
  have hkeeps₂ : ∀ n, some n ≠ m.thread → m.Keeps n m₂ :=
    fun n hn => (hkeeps n hn).trans (keeps_stand (hthread ▸ hn) standing)
  have hgoes₂ : ∀ n s, m.thread = some n → m.Stands n s → ∃ co : Coroutine,
      m₂.coroutines[n]? = some { co with standing } ∧
        (outcomeOf r standing).Leaves { co with standing } := by
    intro n s hn hs
    obtain ⟨co, hco, hl⟩ := hgoes n s hn hs
    refine ⟨co, ?_, hl⟩
    dsimp only [m₂]
    rw [hthread, hn]
    exact getElem?_modifyCoroutine_self hco _
  clear_value m₂
  split
  · rename_i r' resumers he
    have hup : m.chain = m.thread :: r'.thread :: resumers.map (·.thread) := by
      unfold chain
      rw [← hresumers₂, he]
      rfl
    refine .ascend hup (fun n s hn hn' hs => ?_) (fun n s hn hn' hs => ?_) fun n hn hn' => ?_
    · obtain ⟨co, hco, hl⟩ := hgoes₂ n s hn hs
      have hco' := keeps_stand hn' .running _ hco
      rcases standing_of_leaves hl with hdead | ⟨hsuspended, hf⟩
      · refine .inl ?_
        show Machine.standing (m₂.stand r'.thread .running) n = .dead
        unfold Machine.standing
        rw [hco']
        exact hdead
      · exact .inr ⟨_, hco', hsuspended, hf⟩
    · show (m₂.stand r'.thread .running).Stands n .running
      rw [show r'.thread = some n from hn']
      exact ((hkeeps₂ n hn).stands hs).stand .running
    · exact (hkeeps₂ n hn).trans (keeps_stand hn' .running)
  · rename_i he
    have hlast : m.chain = [m.thread] := by
      unfold chain
      rw [← hresumers₂, he]
      rfl
    have hidle : Machine.chain { m₂ with thread := none, frames := [] } = [none] := by
      unfold chain
      dsimp only
      rw [he]
      rfl
    refine .finish hlast hidle (fun n s hn hs => ?_) hkeeps₂
    obtain ⟨co, hco, hl⟩ := hgoes₂ n s hn hs
    exact ⟨_, hco, hl⟩

theorem uncaught_passage (m : Machine) (v : Value) (h : Heap) : Passage m f (uncaught m v h) := by
  unfold uncaught
  extract_lets openValues
  split
  · rename_i id hid
    extract_lets m₁
    refine leave_passage rfl rfl (fun n hn => ?_) fun n s hn hs => ?_
    · exact keeps_modifyCoroutine (fun he => hn ((congrArg some he).trans hid.symm)) _
    · obtain rfl : id = n := Option.some.inj (hid.symm.trans hn)
      obtain ⟨co, hco, -⟩ := hs
      exact ⟨{ co with remains := ⟨some v, openValues⟩ }, getElem?_modifyCoroutine_self hco _, rfl, rfl⟩
  · rename_i hnone
    split
    · exact leave_passage rfl rfl (fun _ _ => .of_eq rfl) fun n s hn => nomatch hnone.symm.trans hn
    · exact .same rfl rfl

theorem giveBack_passage (m : Machine) (vs : List Value) (h : Heap) :
    Passage m f (giveBack m vs h) := by
  unfold giveBack
  split
  · refine leave_passage rfl rfl (fun _ _ => .of_eq rfl) fun n s _ hs => ?_
    obtain ⟨co, hco, -, hf⟩ := hs
    exact ⟨co, hco, rfl, hf⟩
  · exact .same rfl rfl
  · split <;> exact .same rfl rfl

theorem yieldStep_passage (m : Machine) (c : Context) (values : List Value) (h : Heap)
    (k : List Value → Heap → Action) : Passage m f (yieldStep m c values h k) := by
  unfold yieldStep
  split
  · exact .same rfl rfl
  · rename_i id hid
    split
    · exact .same rfl rfl
    · extract_lets frames m₁
      refine leave_passage rfl rfl (fun n hn => ?_) fun n s hn hs => ?_
      · exact keeps_modifyCoroutine (fun he => hn ((congrArg some he).trans hid.symm)) _
      · obtain rfl : id = n := Option.some.inj (hid.symm.trans hn)
        obtain ⟨co, hco, -, hf⟩ := hs
        exact ⟨{ co with frames }, getElem?_modifyCoroutine_self hco _, rfl, hf⟩

/-- Who is resumed runs. -/
theorem Stands.awaken (invoke : Value → List Value → Lib (List Value)) {id : Nat}
    (h : m.Stands id s) (args : List Value) (heap : Heap) :
    (m.awaken invoke id args heap).1.Stands id .running := by
  obtain ⟨co, hco, -, hf⟩ := h
  exact ⟨_, getElem?_modifyCoroutine_self hco _, rfl, hf⟩

/-- Everyone else stays as they are. -/
theorem keeps_awaken (invoke : Value → List Value → Lib (List Value)) {id : Nat} (h : n ≠ id)
    (args : List Value) (heap : Heap) : m.Keeps n (m.awaken invoke id args heap).1 :=
  keeps_modifyCoroutine h _

variable {invoke : Value → List Value → Lib (List Value)}

theorem resumeStep_passage (m : Machine) (c : Context) (thread : Nat) (args : List Value) (h : Heap)
    (k : Except Value (List Value) → Heap → Action) :
    Passage m f (resumeStep invoke m c thread args h k) := by
  unfold resumeStep
  extract_lets refused resumer base m₁
  have hrefused : ∀ text, Passage m f (refused text) := fun _ => .same rfl rfl
  split
  · exact hrefused _
  · exact hrefused _
  · exact hrefused _
  · rename_i hsuspended
    split
    · exact hrefused _
    · -- the caller becomes normal before the other one wakes, and a coroutine may not resume itself
      have hresumers : m₁.resumers = m.resumers := resumers_stand _ _
      refine .descend hsuspended ?_ (fun s hs => ?_) (fun n s hn ht hs => ?_) fun n hn ht => ?_
      · show some thread :: m.thread :: m₁.resumers.map (·.thread) = _
        rw [hresumers]
        rfl
      · have hm₁ : ∃ s', m₁.Stands thread s' := by
          by_cases ht : some thread = m.thread
          · refine ⟨.normal, ?_⟩
            dsimp only [m₁]
            rw [← ht]
            exact hs.stand .normal
          · exact ⟨s, (keeps_stand ht .normal).stands hs⟩
        obtain ⟨s', hs'⟩ := hm₁
        exact hs'.awaken invoke args h
      · have hm₁ : m₁.Stands n .normal := by
          dsimp only [m₁]
          rw [ht]
          exact hs.stand .normal
        exact (keeps_awaken invoke hn args h).stands hm₁
      · exact (keeps_stand ht .normal).trans (keeps_awaken invoke hn args h)

/-- Every step of the machine is one of these. -/
theorem step_passage (invoke : Value → List Value → Lib (List Value)) (m : Machine) (f : Focus) :
    Passage m f (step invoke m f) := by
  cases f with
  | script a h =>
    unfold step
    dsimp only
    split
    · exact .same rfl rfl
    · exact .same rfl rfl
    · split <;> exact .same rfl rfl
    · exact .same rfl rfl
    · exact .same rfl rfl
  | library x c =>
    cases x with
    | ask e h k => exact .ask
    | create body h k => exact .stay rfl fun _ _ => keeps_newCoroutine body
    | resume thread args h k => exact resumeStep_passage m c thread args h k
    | yield values h k => exact yieldStep_passage m c values h k
    | abandon thread h k =>
      exact .stay rfl fun n hn => keeps_modifyCoroutine (fun he => hn (List.mem_singleton.mpr he)) _
    | _ => exact .same rfl rfl
  | values vs h => exact giveBack_passage m vs h
  | error v h =>
    unfold step
    dsimp only
    split <;> exact .same rfl rfl
  | unwind v h =>
    unfold step
    dsimp only
    split
    · exact uncaught_passage m v h
    · exact .same rfl rfl

end

/-! ## Places in the chain -/

/-- How a coroutine that is alive stands, by its place in the chain. -/
structure Alive (m : Machine) (n : Nat) : Prop where
  once : m.chain.count (some n) ≤ 1
  inside : some n ∈ m.chain → m.Stands n .running ∨ m.Stands n .normal
  outside : some n ∉ m.chain → m.Stands n .suspended

/-- Whether a coroutine is dead and has no place in the chain. -/
structure Dead (m : Machine) (n : Nat) : Prop where
  dead : ∃ co, m.coroutines[n]? = some co ∧ co.standing = .dead
  outside : some n ∉ m.chain

/-- The running coroutine, if a step brings it to its end. -/
def ended (m m' : Machine) : List Nat := m.thread.toList.filter fun id => m'.standing id = .dead

theorem mem_ended (ht : m.thread = some n) (hd : m'.standing n = .dead) : n ∈ m.ended m' := by
  unfold ended
  rw [ht]
  exact List.mem_filter.mpr ⟨List.mem_singleton_self n, decide_eq_true hd⟩

theorem Alive.of_outside (hs : m.Stands n .suspended) (hout : some n ∉ m.chain) : m.Alive n := by
  refine ⟨?_, fun hin => absurd hin hout, fun _ => hs⟩
  rw [List.count_eq_zero_of_not_mem hout]
  exact Nat.zero_le 1

theorem Alive.of_inside (hs : m.Stands n .running ∨ m.Stands n .normal) (hin : some n ∈ m.chain)
    (hc : m.chain.count (some n) ≤ 1) : m.Alive n :=
  ⟨hc, fun _ => hs, fun hout => absurd hin hout⟩

theorem Alive.inside_stands (h : m.Alive n) (hc : some n ∈ m.chain) : ∃ s, m.Stands n s := by
  rcases h.inside hc with hs | hs
  · exact ⟨_, hs⟩
  · exact ⟨_, hs⟩

theorem Alive.not_mem_of_suspended (h : m.Alive n) (hs : m.standing n = .suspended) :
    some n ∉ m.chain := by
  intro hin
  rcases h.inside hin with hn | hn
  · exact nomatch hn.standing.symm.trans hs
  · exact nomatch hn.standing.symm.trans hs

/-- Nobody is in the chain twice, so who leaves it has no place in it any more. -/
theorem Alive.not_mem_of_leaves (h : m.Alive n) (ht : m.thread = some n)
    (hchain : m.chain = m.thread :: m'.chain) : some n ∉ m'.chain := by
  intro hin
  have honce := h.once
  rw [hchain, ht, List.count_cons_self] at honce
  have hpos := List.count_pos_iff.mpr hin
  omega

/-- What stays as it is and keeps its place stays alive. -/
theorem Alive.keeps (h : m.Alive n) (hk : m.Keeps n m') (hc : m'.chain.count (some n) ≤ 1)
    (hm : some n ∈ m'.chain ↔ some n ∈ m.chain) : m'.Alive n := by
  refine ⟨hc, fun hin => ?_, fun hout => ?_⟩
  · exact (h.inside (hm.mp hin)).imp hk.stands hk.stands
  · exact hk.stands (h.outside (mt hm.mpr hout))

section

variable {f f' : Focus} {o : Outcome} {h : Heap}

/-- A coroutine that is alive and is not lost stays alive. -/
theorem Passage.alive (hp : Passage m f (.next m' f')) (hn : n ∉ f.closed) (he : n ∉ m.ended m')
    (ha : m.Alive n) : m'.Alive n := by
  -- in each passage a coroutine that is alive is the one that moves, or is kept
  have hthread : m.thread = some n → some n ∈ m.chain := fun h => h ▸ List.mem_cons_self
  cases hp with
  | stay chain keeps =>
    exact ha.keeps (keeps n hn) (chain ▸ ha.once) (by rw [chain])
  | @descend _ _ id suspended chain comes waits keeps =>
    by_cases hid : n = id
    · subst hid
      have hout := ha.not_mem_of_suspended suspended
      have hcount : m'.chain.count (some n) ≤ 1 := by
        have hzero := List.count_eq_zero_of_not_mem hout
        rw [chain, List.count_cons_self]
        omega
      exact .of_inside (.inl (comes _ (ha.outside hout))) (chain ▸ List.mem_cons_self) hcount
    · have hne : some id ≠ some n := fun h => hid (Option.some.inj h).symm
      have hcount : m'.chain.count (some n) ≤ 1 := by
        rw [chain, List.count_cons_of_ne hne]
        exact ha.once
      have hmem : some n ∈ m'.chain ↔ some n ∈ m.chain := by
        rw [chain, List.mem_cons, or_iff_right hne.symm]
      by_cases ht : m.thread = some n
      · obtain ⟨s, hs⟩ := ha.inside_stands (hthread ht)
        exact .of_inside (.inr (waits n s hid ht hs)) (hmem.mpr (hthread ht)) hcount
      · exact ha.keeps (keeps n hid fun h => ht h.symm) hcount hmem
  | ascend chain goes returns keeps =>
    by_cases ht : m.thread = some n
    · have hout := ha.not_mem_of_leaves ht chain
      have hnext : some n ≠ m'.thread := fun h => hout (h ▸ List.mem_cons_self)
      obtain ⟨s, hs⟩ := ha.inside_stands (hthread ht)
      exact .of_outside ((goes n s ht hnext hs).resolve_left fun hd => he (mem_ended ht hd)) hout
    · have hcount : m'.chain.count (some n) ≤ 1 := by
        have honce := ha.once
        rw [chain, List.count_cons_of_ne ht] at honce
        exact honce
      have hmem : some n ∈ m'.chain ↔ some n ∈ m.chain := by
        rw [chain, List.mem_cons, or_iff_right fun h => ht h.symm]
      by_cases hnext : m'.thread = some n
      · have hin : some n ∈ m'.chain := hnext ▸ List.mem_cons_self
        obtain ⟨s, hs⟩ := ha.inside_stands (hmem.mp hin)
        exact .of_inside (.inl (returns n s (fun h => ht h.symm) hnext hs)) hin hcount
      · exact ha.keeps (keeps n (fun h => ht h.symm) fun h => hnext h.symm) hcount hmem

/-- Who is dead stays out of the chain and as it is, unless a script closes it once more. -/
theorem Passage.dead (hp : Passage m f (.next m' f')) (hn : n ∉ f.closed) (hd : m.Dead n) :
    m.Keeps n m' ∧ m'.Dead n := by
  obtain ⟨⟨co, hco, hdead⟩, hout⟩ := hd
  have hthread : some n ≠ m.thread := fun h => hout (h ▸ List.mem_cons_self)
  have hkept : ∀ h : m.Keeps n m', some n ∉ m'.chain → m.Keeps n m' ∧ m'.Dead n :=
    fun h hout' => ⟨h, ⟨co, h co hco, hdead⟩, hout'⟩
  cases hp with
  | stay chain keeps => exact hkept (keeps n hn) (chain ▸ hout)
  | @descend _ _ id suspended chain comes waits keeps =>
    -- only who is suspended can be resumed
    have hid : n ≠ id := by
      rintro rfl
      unfold Machine.standing at suspended
      rw [hco] at suspended
      exact nomatch hdead.symm.trans suspended
    refine hkept (keeps n hid hthread) fun hin => ?_
    rw [chain] at hin
    rcases List.mem_cons.mp hin with he | hin
    · exact hid (Option.some.inj he)
    · exact hout hin
  | ascend chain goes returns keeps =>
    have hout' : some n ∉ m'.chain := fun hin => hout (chain ▸ List.mem_cons_of_mem _ hin)
    exact hkept (keeps n hthread fun h => hout' (h ▸ List.mem_cons_self)) hout'

/-- The last of the chain is the last until the run ends. -/
theorem Passage.last (hp : Passage m f (.next m' f')) : m'.chain.getLast? = m.chain.getLast? := by
  cases hp with
  | stay chain keeps => rw [chain]
  | descend suspended chain comes waits keeps =>
    rw [chain]
    exact List.getLast?_cons_cons
  | ascend chain goes returns keeps =>
    rw [chain]
    exact List.getLast?_cons_cons.symm

end

/-! ## Runs -/

section

variable {σ : Type} (invoke : Value → List Value → Lib (List Value))
  (perform : (e : Effect) → σ → e.Reply × σ)

/-- The coroutines that are lost to the host in a run: a script closes them, or has resumed them and
    sees them end.  Nothing is said of a run that is given up. -/
def lost : (fuel : Nat) → Machine → Focus → σ → Option (List Nat)
  | 0, _, _, _ => none
  | fuel + 1, m, f, s =>
    match step invoke m f with
    | .next m' f' => (lost fuel m' f' s).map (f.closed ++ m.ended m' ++ ·)
    | .ended .. => some []
    | .ask m' e h k c =>
      match perform e s with
      | (r, s) => lost fuel m' (.library (k r h) c) s

variable {invoke perform} {fuel : Nat} {f : Focus} {s : σ} {l : List Nat}

/-- Induction along a run that is not given up, together with who is lost in it: what holds at its
    end is carried back over every step. -/
theorem lost_induction {motive : Machine → Focus → List Nat → Outcome → Machine → Prop}
    (next : ∀ {m f m' f' l o out}, Passage m f (.next m' f') → motive m' f' l o out →
      motive m f (f.closed ++ m.ended m' ++ l) o out)
    (ask : ∀ {m f m' e h k c r l o out}, Passage m f (.ask m' e h k c) →
      motive m' (.library (k r h) c) l o out → motive m f l o out)
    (ended : ∀ {m f o out h}, Passage m f (.ended o out h) → motive m f [] o out)
    (hl : lost invoke perform fuel m f s = some l) :
    motive m f l (run invoke perform fuel m f s).1 (run invoke perform fuel m f s).2.1 := by
  induction fuel generalizing m f s l with
  | zero => cases hl
  | succ fuel ih =>
    have hp := step_passage invoke m f
    unfold run
    unfold lost at hl
    generalize step invoke m f = p at hp hl ⊢
    cases p with
    | next m' f' =>
      obtain ⟨l', hl', rfl⟩ := Option.map_eq_some_iff.mp hl
      exact next hp (ih hl')
    | ask m' e h k c => exact ask hp (ih hl)
    | ended o m' h =>
      cases hl
      exact ended hp

/-- A run that is not given up leaves nobody waiting. -/
theorem run_idle (hl : lost invoke perform fuel m f s = some l) :
    (run invoke perform fuel m f s).2.1.chain = [none] := by
  refine lost_induction (motive := fun _ _ _ _ out => out.chain = [none]) (fun _ ih => ih)
    (fun _ ih => ih) (fun hp => ?_) hl
  cases hp with
  | finish chain idle goes keeps => exact idle

/-- Who is dead stays as it is in a run, unless a script closes it once more. -/
theorem run_dead (hl : lost invoke perform fuel m f s = some l) (hn : n ∉ l) (hd : m.Dead n) :
    m.Keeps n (run invoke perform fuel m f s).2.1 := by
  refine lost_induction (motive := fun m _ l _ out => n ∉ l → m.Dead n → m.Keeps n out)
    (fun hp ih hn hd => ?_) (fun hp ih hn hd => ?_) (fun hp _ hd => ?_) hl hn hd
  · rw [List.append_assoc, List.mem_append, not_or, List.mem_append, not_or] at hn
    obtain ⟨hkeeps, hd'⟩ := hp.dead hn.1 hd
    exact hkeeps.trans (ih hn.2.2 hd')
  · cases hp
    exact ih hn hd
  · cases hp with
    | finish chain idle goes keeps => exact keeps n fun h => hd.outside (h ▸ List.mem_cons_self)

/-- Who is alive and is not lost is suspended when a run ends, unless it is what the host has begun:
    then the run ends with it. -/
theorem run_alive (hl : lost invoke perform fuel m f s = some l) (hn : n ∉ l) (ha : m.Alive n) :
    (m.chain.getLast? = some (some n) →
      (run invoke perform fuel m f s).2.1.Left n (run invoke perform fuel m f s).1) ∧
    (m.chain.getLast? ≠ some (some n) → (run invoke perform fuel m f s).2.1.Stands n .suspended) := by
  refine lost_induction (motive := fun m _ l o out => n ∉ l → m.Alive n →
      (m.chain.getLast? = some (some n) → out.Left n o) ∧
      (m.chain.getLast? ≠ some (some n) → out.Stands n .suspended))
    (fun hp ih hn ha => ?_) (fun hp ih hn ha => ?_) (fun {m _ _ _ _} hp _ ha => ?_) hl hn ha
  · -- nobody goes below what the host has begun
    rw [List.append_assoc, List.mem_append, not_or, List.mem_append, not_or] at hn
    rw [← hp.last]
    exact ih hn.2.2 (hp.alive hn.1 hn.2.1 ha)
  · cases hp
    exact ih hn ha
  · cases hp with
    | finish chain idle goes keeps =>
      have hlast : m.chain.getLast? = some m.thread := by rw [chain]; rfl
      rw [hlast]
      constructor
      · intro ht
        obtain ⟨s', hs⟩ := ha.inside_stands (Option.some.inj ht ▸ List.mem_cons_self)
        exact goes n s' (Option.some.inj ht) hs
      · intro ht
        have hne : some n ≠ m.thread := fun h => ht (congrArg some h.symm)
        have hout : some n ∉ m.chain := by
          rw [chain]
          exact fun h => hne (List.mem_singleton.mp h)
        exact (keeps n hne).stands (ha.outside hout)

end

end Machine

end OscHost.Script
