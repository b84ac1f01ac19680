import OscHost.Engine
import OscHost.Proofs.Menus.Requests
import OscHost.Proofs.Scheduler.Operations
/-!
  How an engine gets from one state to another.

  All that operations of the engine do, but for the look of a tick whether a menu is asked for, is
  made of a few moves: the machine reads an entry, writes an error out or resumes a coroutine, code
  is loaded, a thread is registered, a menu is presented, and so on.  Only the first three run
  scripts, and each says how often scripts ask for a new menu while it does.  A trail is a sequence
  of moves with the count of all these requests, and every operation leaves one (`Leaves`): so what
  every move keeps is kept by every operation.

  There are three kinds of moves, each with those before: such that are not about the menu (`Move`),
  such that are not about the inbox (`Act`), and all (`Pass`).  Most operations need no more of a kind
  than that it has what happens to the machine and to the threads (`Admits`), so what is said of
  them holds for each kind, and for whatever all such moves keep.
-/

namespace OscHost

open Script

/-! ## Trails -/

section

variable {σ τ : Type} {Move : σ → Nat → σ → Prop} {s s' s'' : σ} {a b : Nat}

/-- Some moves in turn, each with a count, and the sum of these. -/
inductive Trail {σ : Type} (Move : σ → Nat → σ → Prop) : σ → Nat → σ → Prop
  | nil (s : σ) : Trail Move s 0 s
  | snoc {s s' s'' : σ} {a b : Nat} (before : Trail Move s a s') (last : Move s' b s'') :
      Trail Move s (a + b) s''

namespace Trail

theorem single (h : Move s a s') : Trail Move s a s' := Nat.zero_add a ▸ .snoc (.nil s) h

theorem append (h : Trail Move s a s') (h' : Trail Move s' b s'') : Trail Move s (a + b) s'' := by
  induction h' with
  | nil => exact h
  | snoc _ last ih => exact Nat.add_assoc .. ▸ ih.snoc last

/-- Moves of one kind are moves of another kind, in a larger state. -/
theorem map {Move' : τ → Nat → τ → Prop} (f : σ → τ)
    (hf : ∀ {s a s'}, Move s a s' → Move' (f s) a (f s')) (h : Trail Move s a s') :
    Trail Move' (f s) a (f s') := by
  induction h with
  | nil => exact .nil _
  | snoc _ last ih => exact ih.snoc (hf last)

/-- What every move keeps is kept. -/
theorem keeps {P : σ → σ → Prop} (refl : ∀ s, P s s)
    (trans : ∀ {s s' s''}, P s s' → P s' s'' → P s s'')
    (move : ∀ {s a s'}, Move s a s' → P s s') (h : Trail Move s a s') : P s s' := by
  induction h with
  | nil => exact refl _
  | snoc _ last ih => exact trans ih (move last)

end Trail

/-- Whether there is a trail from one state to another. -/
def Gets (Move : σ → Nat → σ → Prop) (s s' : σ) : Prop := ∃ a, Trail Move s a s'

namespace Gets

theorem refl (s : σ) : Gets Move s s := ⟨0, .nil s⟩

theorem trans (h : Gets Move s s') (h' : Gets Move s' s'') : Gets Move s s'' := by
  obtain ⟨a, h⟩ := h
  obtain ⟨b, h'⟩ := h'
  exact ⟨a + b, h.append h'⟩

theorem of_move (h : Move s a s') : Gets Move s s' := ⟨a, .single h⟩

theorem keeps {P : σ → σ → Prop} (h : Gets Move s s') (refl : ∀ s, P s s)
    (trans : ∀ {s s' s''}, P s s' → P s' s'' → P s s'')
    (move : ∀ {s a s'}, Move s a s' → P s s') : P s s' := by
  obtain ⟨a, ha⟩ := h
  exact ha.keeps refl trans move

end Gets

end

/-! ## Moves of the machine -/

namespace Vm

/-- One thing that happens to the machine and its host, with the count of the requests for a new
    menu meanwhile. -/
inductive Move : Vm → Nat → Vm → Prop
  | record (vm : Vm) (r : LogRecord) : Move vm 0 (vm.record r)
  | arguments (vm : Vm) (values : List BoundaryValue) : Move vm 0 (vm.arguments values).2
  | treeOf (vm : Vm) (v : Value) : Move vm 0 (vm.treeOf v).2
  | loadScript (vm : Vm) (path : String) : Move vm 0 (vm.loadScript path).2
  | newThread (vm : Vm) (f : Value) : Move vm 0 (vm.newThread f).2
  | newTable (vm : Vm) (t : Table) : Move vm 0 { vm with heap := (vm.heap.newTable t).2 }
  | readClock (vm : Vm) : Move vm 0 (vm.onHost fun host => host.readClock.2)
  | addRoots (vm : Vm) (roots : Files.JailSet) :
      Move vm 0 (vm.onHost fun host => { host with jsonRoots := roots })
  /-- An entry is read, which may call a function of a script. -/
  | entry (vm : Vm) (v : Value) (name : String) :
      Move vm (vm.requestsInCompute (entryOf v name)) (vm.compute (entryOf v name)).2
  /-- An error is written out, which may call one too. -/
  | text (vm : Vm) (v : Value) :
      Move vm (vm.requestsInCompute (textOf v)) (vm.compute (textOf v)).2
  /-- A coroutine runs until it hands back control. -/
  | thread (vm : Vm) (n : Nat) (args : List Value) (hn : vm.machine.standing n = .suspended) :
      Move vm (vm.requestsInThread n args)
        { (vm.runThread n args).2 with
          machine := { (vm.runThread n args).2.machine with base := 0 } }

variable {vm vm' : Vm}

/-- A move keeps a machine honest, and after it a menu is asked for if it was before or a script has asked
    for one meanwhile. -/
theorem Move.menuRequested_iff {n : Nat} (h : Move vm n vm') (hvm : vm.Honest) :
    vm'.Honest ∧ (vm'.host.menuRequested ↔ vm.host.menuRequested ∨ 0 < n) := by
  have quiet (hmachine : vm'.machine = vm.machine)
      (hflag : vm'.host.menuRequested = vm.host.menuRequested) :
      vm'.Honest ∧ (vm'.host.menuRequested ↔ vm.host.menuRequested ∨ 0 < 0) := by
    refine ⟨?_, ?_⟩
    · unfold Honest
      rw [hmachine]
      exact hvm
    · rw [hflag]
      exact (or_iff_left (Nat.lt_irrefl 0)).symm
  cases h with
  | arguments values => exact quiet rfl (Host.menuRequested_of_frame (Host.records_frame ..))
  | treeOf v => exact quiet rfl (Host.menuRequested_of_frame (Host.records_frame ..))
  | loadScript path =>
    have hkept : (vm.loadScript path).2.machine = vm.machine ∧
        (vm.loadScript path).2.host = vm.host := by
      unfold Vm.loadScript
      split
      · exact ⟨rfl, rfl⟩
      · split
        · exact ⟨rfl, rfl⟩
        · exact ⟨rfl, rfl⟩
    exact quiet hkept.1 (congrArg Host.menuRequested hkept.2)
  | newThread f =>
    exact ⟨Machine.Good.newCoroutine hvm f.clean_trusted, (or_iff_left (Nat.lt_irrefl 0)).symm⟩
  | entry v name =>
    refine compute_menuRequested hvm fun a => ?_
    exact (Lib.safe_index v.clean_trusted (Value.clean_text name)).bind fun _ _ =>
      Library.safe_return _
  | text v =>
    exact compute_menuRequested hvm fun a =>
      (Lib.safe_text v.clean_trusted).then fun _ => Library.safe_return _
  | thread n args hn =>
    obtain ⟨hgood, hflag⟩ := runThread_menuRequested hvm n args
    exact ⟨⟨hgood.frames, hgood.coroutines, hgood.resumers⟩, hflag⟩
  | _ => exact quiet rfl rfl

/-- Whether all that it takes to run a thread is among some moves. -/
class Runs (V : Vm → Nat → Vm → Prop) : Prop where
  record (vm : Vm) (r : LogRecord) : V vm 0 (vm.record r)
  newThread (vm : Vm) (f : Value) : V vm 0 (vm.newThread f).2
  readClock (vm : Vm) : V vm 0 (vm.onHost fun host => host.readClock.2)
  text (vm : Vm) (v : Value) : V vm (vm.requestsInCompute (textOf v)) (vm.compute (textOf v)).2
  thread (vm : Vm) (n : Nat) (args : List Value) (hn : vm.machine.standing n = .suspended) :
    V vm (vm.requestsInThread n args)
      { (vm.runThread n args).2 with
        machine := { (vm.runThread n args).2.machine with base := 0 } }

instance : Runs Move := ⟨.record, .newThread, .readClock, .text, .thread⟩

variable {V : Vm → Nat → Vm → Prop} [Runs V]

theorem gets_errorText (vm : Vm) (v : Value) : Gets V vm (vm.errorText v).2 := by
  have htext : Gets V vm (vm.compute (textOf v)).2 := .of_move (Runs.text vm v)
  unfold errorText
  split
  · exact .refl vm
  · dsimp only
    generalize vm.compute (textOf v) = r at htext ⊢
    split <;> exact htext

theorem gets_lift {α : Type} (r : Except Value α × Vm) : Gets V r.2 (lift r).2 := by
  obtain ⟨a | a, vm⟩ := r
  · exact gets_errorText vm a
  · exact .refl vm

theorem gets_field (vm : Vm) (v : Value) (name : String) : Gets Move vm (vm.field v name).2 := by
  have hentry : Gets Move vm (vm.compute (entryOf v name)).2 := .of_move (.entry vm v name)
  have hlift := hentry.trans (gets_lift (vm.compute (entryOf v name)))
  unfold field
  generalize lift (vm.compute (entryOf v name)) = r at hlift ⊢
  obtain ⟨a | a, vm'⟩ := r
  · exact hlift
  · exact hlift

theorem gets_global (vm : Vm) (name : String) : Gets Move vm (vm.global name).2 :=
  gets_field vm _ name

theorem gets_handBack (vm : Vm) (o : Outcome) : Gets V vm (vm.handBack o).2 := by
  cases o with
  | failed v => exact gets_errorText vm v
  | _ => exact .refl vm

theorem gets_resume (vm : Vm) (n : Nat) (args : List Value) :
    Gets V vm (vm.resume n args).2 := by
  by_cases hn : vm.machine.standing n = .suspended
  · rw [resume_eq hn]
    exact (Gets.of_move (Runs.thread vm n args hn)).trans (gets_handBack _ _)
  · rw [resume_refused hn]
    exact .refl vm

end Vm

/-! ## Threads -/

namespace Runner

open Vm (Move)

section

variable {V : Vm → Nat → Vm → Prop} [Vm.Runs V]

theorem gets_lines (lines : List LogRecord) (vm : Vm) :
    Gets V vm (lines.foldl (fun vm line => world.record line vm) vm) := by
  induction lines generalizing vm with
  | nil => exact .refl vm
  | cons line lines ih => exact (Gets.of_move (Vm.Runs.record vm line)).trans (ih (vm.record line))

theorem gets_resumeThread (k : Scheduler Nat) (id : Nat) (args : List Value) (vm : Vm) :
    Gets V vm (k.resumeThread world id args vm).2.2 := by
  unfold Scheduler.resumeThread
  split
  · exact .refl vm
  · exact (Vm.gets_resume vm _ args).trans (gets_lines _ _)

theorem gets_resumeAll (ids : List Nat) (args : List Value) (k : Scheduler Nat) (vm : Vm) :
    Gets V vm (Scheduler.resumeAll world args ids k vm).2.2 := by
  induction ids generalizing k vm with
  | nil => exact .refl vm
  | cons id ids ih => exact (gets_resumeThread k id args vm).trans (ih _ _)

theorem gets_schedule (k : Scheduler Nat) (now : Nat) (label : String) (body : Nat)
    (args : List Value) (vm : Vm) :
    Gets V vm (k.launch world now label body args vm).2.2 := by
  obtain ⟨spawned, hspawned⟩ : ∃ vm', vm' = world.record (.trace ("spawned thread " ++
    threadName k.nextId)) vm := ⟨_, rfl⟩
  have hrecord : Gets V vm spawned := hspawned ▸ .of_move (Vm.Runs.record vm _)
  have hresume := hrecord.trans
    (gets_resumeThread (k.register now label body) k.nextId args spawned)
  unfold Scheduler.launch
  dsimp only
  rw [← hspawned]
  generalize Scheduler.resumeThread world _ k.nextId args spawned = r at hresume ⊢
  rcases r with ⟨_ | _, k', vm'⟩
  · exact hresume
  · exact hresume

theorem gets_launch (r : Runner) (label : String) (f : Value) (args : List Value) :
    Gets V r.vm (r.launch (.function label f) args).2.vm := by
  have hthread : Gets V r.vm (r.vm.newThread f).2 := .of_move (Vm.Runs.newThread r.vm f)
  have hclock := hthread.trans (.of_move (Vm.Runs.readClock (r.vm.newThread f).2))
  exact hclock.trans (gets_schedule ..)

theorem gets_run (r : Runner) (label : String) (f : Value) (args : List Value) :
    Gets V r.vm (r.run (.function label f) args).2.vm := by
  have hlaunch := gets_launch (V := V) r label f args
  unfold run
  generalize r.launch (.function label f) args = result at hlaunch ⊢
  obtain ⟨e | ⟨id, back⟩, r'⟩ := result
  · exact hlaunch
  · exact hlaunch

end

/-- Whether scripts go on by moves of their machine, and their threads stay in order if they are. -/
structure Goes (r r' : Runner) : Prop where
  vm : Gets Move r.vm r'.vm
  order : r.scheduler.Orderly → r'.scheduler.Orderly

theorem goes_tick (r : Runner) (now : Nat) : Goes r (r.tick now) :=
  ⟨gets_resumeAll _ [] _ r.vm, fun h => h.perform (w := world) (.tick now) r.vm⟩

variable (r : Runner) (label : String) (f : Value) (args : List Value)

theorem goes_launch : Goes r (r.launch (.function label f) args).2 := by
  let began := readClock { r with vm := (r.vm.newThread f).2 }
  refine ⟨gets_launch r label f args, fun h => ?_⟩
  exact h.perform (w := world) (.launch began.1 label (r.vm.newThread f).1 args) began.2.vm

theorem goes_spawn : Goes r (r.spawn (.function label f) args).2 := by
  have hlaunch := goes_launch r label f args
  unfold spawn
  generalize r.launch (.function label f) args = result at hlaunch ⊢
  obtain ⟨e | ⟨id, back⟩, r'⟩ := result
  · exact hlaunch
  · exact hlaunch

theorem goes_run : Goes r (r.run (.function label f) args).2 := by
  have hlaunch := goes_launch r label f args
  unfold run
  generalize r.launch (.function label f) args = result at hlaunch ⊢
  obtain ⟨e | ⟨id, back⟩, r'⟩ := result
  · exact hlaunch
  · exact hlaunch

end Runner

/-! ## Moves of the engine -/

namespace Engine

/-- One thing that happens to the engine and is not about its menu. -/
inductive Move : Engine → Nat → Engine → Prop
  | machine {e : Engine} {n : Nat} {vm : Vm} (h : e.runner.vm.Move n vm) :
      Move e n { e with runner := { e.runner with vm } }
  | threads (e : Engine) (k : Scheduler Nat) :
      Move e 0 { e with runner := { e.runner with scheduler := k } }
  | ready (e : Engine) : Move e 0 { e with readyFired := true }

/-- One thing that happens to the engine, its inbox aside. -/
inductive Act : Engine → Nat → Engine → Prop
  | move {e e' : Engine} {n : Nat} (h : Move e n e') : Act e n e'
  | present (e : Engine) (items : List MenuItem) :
      Act e 0 { e with presented := e.presented.push items, menu := some items }

/-- One thing that happens to the engine. -/
inductive Pass : Engine → Nat → Engine → Prop
  | act {e e' : Engine} {n : Nat} (h : Act e n e') : Pass e n e'
  | inbox (e : Engine) (events : List Event) : Pass e 0 { e with inbox := events }

/-- Whether what happens to the machine and to the threads, which keep their order, is among some
    moves. -/
class Admits (M : Engine → Nat → Engine → Prop) : Prop where
  machine {e : Engine} {n : Nat} {vm : Vm} (h : e.runner.vm.Move n vm) :
    M e n { e with runner := { e.runner with vm } }
  threads (e : Engine) (k : Scheduler Nat) (h : e.runner.scheduler.Orderly → k.Orderly) :
    M e 0 { e with runner := { e.runner with scheduler := k } }

/-- Whether the presenting of a menu is among them, too. -/
class Presents (M : Engine → Nat → Engine → Prop) : Prop extends Admits M where
  present (e : Engine) (items : List MenuItem) :
    M e 0 { e with presented := e.presented.push items, menu := some items }

/-- Whether it is among them to keep in mind that `ready` was called. -/
def Readies (M : Engine → Nat → Engine → Prop) : Prop :=
  ∀ e : Engine, M e 0 { e with readyFired := true }

/-- Whether it is among them to forget that a menu was asked for. -/
def Lowers (M : Engine → Nat → Engine → Prop) : Prop :=
  ∀ e : Engine, M e 0 { e with runner := { e.runner with
    vm := e.runner.vm.onHost fun host => { host with menuRequested := false } } }

/-- Whether it is among them that other events wait. -/
def Refills (M : Engine → Nat → Engine → Prop) : Prop :=
  ∀ (e : Engine) (events : List Event), M e 0 { e with inbox := events }

instance : Admits Move := ⟨.machine, fun e k _ => .threads e k⟩

instance : Presents Pass where
  machine h := .act (.move (.machine h))
  threads e k _ := .act (.move (.threads e k))
  present e items := .act (.present e items)

theorem Pass.readies : Readies Pass := fun e => .act (.move (.ready e))

/-- Whether a part of the engine is the same afterwards. -/
def Keeping {γ : Type} (part : Engine → γ) (e : Engine) (_ : Nat) (e' : Engine) : Prop :=
  part e' = part e

variable {α β : Type} {M : Engine → Nat → Engine → Prop}

/-- What the runner does is done to the engine. -/
theorem gets_onRunner [Admits M] {e : Engine} {r : Runner} (h : e.runner.Goes r) :
    Gets M e { e with runner := r } := by
  obtain ⟨⟨a, h⟩, horder⟩ := h
  let withVm (vm : Vm) : Engine := { e with runner := { e.runner with vm } }
  have hmove {vm n vm'} (hm : Vm.Move vm n vm') : M (withVm vm) n (withVm vm') :=
    Admits.machine (e := withVm vm) hm
  have hmachine : Trail M e a (withVm r.vm) := h.map withVm hmove
  have hthreads : M (withVm r.vm) 0 { e with runner := r } :=
    Admits.threads (withVm r.vm) r.scheduler horder
  exact .trans ⟨a, hmachine⟩ (.of_move hthreads)

/-- Whether an operation leaves a trail of some moves. -/
def Leaves (M : Engine → Nat → Engine → Prop) (x : EngineM α) : Prop :=
  ∀ e, Gets M e (x e).2

namespace Leaves

theorem pure (a : α) : Leaves M (Pure.pure a) := fun e => .refl e

theorem get : Leaves M (MonadState.get : EngineM Engine) := fun e => .refl e

theorem bind {x : EngineM α} {f : α → EngineM β} (hx : Leaves M x) (hf : ∀ a, Leaves M (f a)) :
    Leaves M (x >>= f) := fun e => (hx e).trans (hf (x e).1 (x e).2)

theorem discard {x : EngineM α} (hx : Leaves M x) : Leaves M (Functor.discard x) := hx

/-- A loop over a list. -/
theorem forIn {γ : Type} (l : List γ) (init : β) {f : γ → β → EngineM (ForInStep β)}
    (hf : ∀ c b, Leaves M (f c b)) : Leaves M (ForIn.forIn l init f) := by
  induction l generalizing init with
  | nil => exact pure init
  | cons c l ih =>
    rw [List.forIn_cons]
    refine (hf c init).bind fun step => ?_
    cases step with
    | done b => exact pure b
    | yield b => exact ih b

/-- What every one of the moves keeps is kept by the operation. -/
theorem keeps {P : Engine → Engine → Prop} {x : EngineM α} (hx : Leaves M x)
    (refl : ∀ e, P e e) (trans : ∀ {e e' e''}, P e e' → P e' e'' → P e e'')
    (move : ∀ {e a e'}, M e a e' → P e e') (e : Engine) : P e (x e).2 :=
  (hx e).keeps refl trans move

/-- So is a part of the engine that none of them changes. -/
theorem keeping {γ : Type} {part : Engine → γ} {x : EngineM α} (hx : Leaves (Keeping part) x)
    (e : Engine) : part (x e).2 = part e :=
  hx.keeps (P := fun e e' => part e' = part e) (fun _ => rfl) (fun h h' => h'.trans h) id e

section

variable [Admits M]

theorem onRunner {f : Runner → α × Runner} (hf : ∀ r : Runner, r.Goes (f r).2) :
    Leaves M (Engine.onRunner f) := fun e => gets_onRunner (hf e.runner)

theorem onVm {f : Vm → α × Vm} (hf : ∀ vm, Gets Vm.Move vm (f vm).2) :
    Leaves M (Engine.onVm f) := onRunner fun r => ⟨hf r.vm, id⟩

theorem record (r : LogRecord) : Leaves M (Engine.record r) :=
  onVm fun vm => .of_move (.record vm r)

end

end Leaves

end Engine

end OscHost
