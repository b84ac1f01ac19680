import OscHost.Proofs.Script.Coroutines
import OscHost.Vm
/-!
  What becomes of the coroutines while the host uses its machine.

  The host calls functions, has values written out, and resumes coroutines.  When it is done nobody is
  in the machine any more, who was dead is as before, and who was suspended still is, but for the
  coroutine that the host has resumed and those that are lost.  How a resumed coroutine hands back
  control is how it is left then.
-/

namespace OscHost

open Script

/-- Whether a coroutine that hands back control like this is left like that. -/
def Resumption.Fits (co : Coroutine) : Resumption → Prop
  | .finished _ => co.standing = .dead ∧ co.remains.failure = none
  | .yielded _ => co.standing = .suspended ∧ co.remains.failure = none
  | .failed _ => co.standing = .dead ∧ co.remains.failure ≠ none

namespace Vm

variable {vm vm' vm'' : Vm} {lost lost' : List Nat} {n : Nat}

/-- Whether nobody is in the machine. -/
def Idle (vm : Vm) : Prop := vm.machine.chain = [none]

theorem Idle.alive (h : vm.Idle) (hs : vm.machine.Stands n .suspended) : vm.machine.Alive n := by
  have hout : some n ∉ vm.machine.chain := by
    rw [h]
    exact fun hin => nomatch List.mem_singleton.mp hin
  exact .of_outside hs hout

theorem Idle.dead (h : vm.Idle) {co : Coroutine} (hco : vm.machine.coroutines[n]? = some co)
    (hd : co.standing = .dead) : vm.machine.Dead n := by
  refine ⟨⟨co, hco, hd⟩, ?_⟩
  rw [h]
  exact fun hin => nomatch List.mem_singleton.mp hin

/-- What the host has done leaves nobody in the machine, and all but some coroutines suspended if they
    were, and as they were if they were dead. -/
structure Course (vm : Vm) (lost : List Nat) (vm' : Vm) : Prop where
  idle : vm'.Idle
  suspended : ∀ n ∉ lost, vm.machine.Stands n .suspended → vm'.machine.Stands n .suspended
  dead : ∀ n ∉ lost, ∀ co, vm.machine.coroutines[n]? = some co → co.standing = .dead →
    vm'.machine.coroutines[n]? = some co

theorem Course.of_keeps (h : vm'.Idle) (hk : ∀ n ∉ lost, vm.machine.Keeps n vm'.machine) :
    Course vm lost vm' :=
  ⟨h, fun n hn => (hk n hn).stands, fun n hn co hco _ => hk n hn co hco⟩

theorem Course.refl (h : vm.Idle) : Course vm lost vm := .of_keeps h fun _ _ => .refl _ _

theorem Course.trans (h : Course vm lost vm') (h' : Course vm' lost' vm'') :
    Course vm (lost ++ lost') vm'' := by
  refine ⟨h'.idle, fun n hn hs => ?_, fun n hn co hco hd => ?_⟩
  · obtain ⟨hl, hl'⟩ := not_or.mp (mt List.mem_append.mpr hn)
    exact h'.suspended n hl' (h.suspended n hl hs)
  · obtain ⟨hl, hl'⟩ := not_or.mp (mt List.mem_append.mpr hn)
    exact h'.dead n hl' co (h.dead n hl co hco hd) hd

/-! ## Runs -/

/-- The coroutines that are lost in a run from a focus. -/
def lostFrom (host : Host) (m : Machine) (f : Focus) : Option (List Nat) :=
  Machine.lost Library.invoke Host.perform fuel m f host

section

variable {host : Host} {m : Machine} {f : Focus}

theorem runFrom_eq (host : Host) (m : Machine) (f : Focus) :
    (runFrom host m f).1 = (Machine.run Library.invoke Host.perform fuel m f host).1 ∧
      (runFrom host m f).2.machine =
        (Machine.run Library.invoke Host.perform fuel m f host).2.1 := by
  unfold runFrom
  generalize Machine.run Library.invoke Host.perform fuel m f host = r
  exact ⟨rfl, rfl⟩

theorem runFrom_idle (hl : lostFrom host m f = some lost) : (runFrom host m f).2.Idle := by
  unfold Idle
  rw [(runFrom_eq host m f).2]
  exact Machine.run_idle hl

theorem runFrom_dead (hl : lostFrom host m f = some lost) (hn : n ∉ lost) (hd : m.Dead n) :
    m.Keeps n (runFrom host m f).2.machine := by
  rw [(runFrom_eq host m f).2]
  exact Machine.run_dead hl hn hd

theorem runFrom_suspended (hl : lostFrom host m f = some lost) (hn : n ∉ lost) (ha : m.Alive n)
    (hlast : m.chain.getLast? ≠ some (some n)) :
    (runFrom host m f).2.machine.Stands n .suspended := by
  rw [(runFrom_eq host m f).2]
  exact (Machine.run_alive hl hn ha).2 hlast

theorem runFrom_left (hl : lostFrom host m f = some lost) (hn : n ∉ lost) (ha : m.Alive n)
    (hlast : m.chain.getLast? = some (some n)) :
    (runFrom host m f).2.machine.Left n (runFrom host m f).1 := by
  rw [(runFrom_eq host m f).1, (runFrom_eq host m f).2]
  exact (Machine.run_alive hl hn ha).1 hlast

/-- A run on the host's own thread. -/
theorem runFrom_course (h : vm.Idle) (hl : lostFrom vm.host vm.machine f = some lost) :
    Course vm lost (runFrom vm.host vm.machine f).2 := by
  refine ⟨runFrom_idle hl, fun n hn hs => ?_, fun n hn co hco hd => ?_⟩
  · refine runFrom_suspended hl hn (h.alive hs) ?_
    rw [h]
    exact nofun
  · exact runFrom_dead hl hn (h.dead hco hd) co hco

end

/-! ## Calls -/

/-- The coroutines that are lost in a computation of the library. -/
def lostByCompute (vm : Vm) (x : Lib (List Value)) : Option (List Nat) :=
  lostFrom vm.host vm.machine (.library (x.action Machine.hostSite vm.heap) Machine.hostContext)

/-- The coroutines that are lost in a call. -/
def lostByCall (vm : Vm) (f : Value) (args : List Value) : Option (List Nat) :=
  lostFrom vm.host vm.machine (vm.machine.enter Library.invoke f args none vm.heap)

theorem settle_snd (r : Outcome × Vm) : (settle r).2 = r.2 := rfl

theorem compute_eq (vm : Vm) (x : Lib (List Value)) :
    (vm.compute x).2 = (runFrom vm.host vm.machine
      (.library (x.action Machine.hostSite vm.heap) Machine.hostContext)).2 := by
  unfold compute
  dsimp only
  rw [settle_snd]

theorem call_eq (vm : Vm) (f : Value) (args : List Value) :
    (vm.call f args).2 = (runFrom vm.host vm.machine
      (vm.machine.enter Library.invoke f args none vm.heap)).2 := by
  unfold call
  dsimp only
  rw [settle_snd]

theorem compute_course (h : vm.Idle) {x : Lib (List Value)} (hl : vm.lostByCompute x = some lost) :
    Course vm lost (vm.compute x).2 := by
  rw [compute_eq]
  exact runFrom_course h hl

theorem call_course (h : vm.Idle) {f : Value} {args : List Value}
    (hl : vm.lostByCall f args = some lost) : Course vm lost (vm.call f args).2 := by
  rw [call_eq]
  exact runFrom_course h hl

/-- The coroutines that are lost when an error is written out. -/
def lostByErrorText (vm : Vm) (v : Value) : Option (List Nat) :=
  match vm.hostMessage v with
  | some _ => some []
  | none => vm.lostByCompute (textOf v)

theorem errorText_course (h : vm.Idle) {v : Value} (hl : vm.lostByErrorText v = some lost) :
    Course vm lost (vm.errorText v).2 := by
  unfold lostByErrorText at hl
  unfold errorText
  cases hm : vm.hostMessage v with
  | some message => exact .refl h
  | none =>
    rw [hm] at hl
    have hc := compute_course h hl
    dsimp only
    generalize vm.compute (textOf v) = r at hc
    split <;> exact hc

/-- The coroutines that are lost when an error becomes one of the host. -/
def lostByLift {α : Type} (r : Except Value α × Vm) : Option (List Nat) :=
  match r.1 with
  | .ok _ => some []
  | .error v => r.2.lostByErrorText v

theorem lift_course {α : Type} {r : Except Value α × Vm} (h : r.2.Idle)
    (hl : lostByLift r = some lost) : Course r.2 lost (lift r).2 := by
  obtain ⟨a, vm⟩ := r
  cases a with
  | ok a => exact .refl h
  | error v =>
    have hc := errorText_course h hl
    unfold lift
    dsimp only
    generalize vm.errorText v = t at hc
    exact hc

/-- The coroutines that are lost when the host reads an entry. -/
def lostByField (vm : Vm) (v : Value) (name : String) : Option (List Nat) := do
  let lost ← vm.lostByCompute (entryOf v name)
  let lost' ← lostByLift (vm.compute (entryOf v name))
  return lost ++ lost'

theorem field_course (h : vm.Idle) {v : Value} {name : String}
    (hl : vm.lostByField v name = some lost) : Course vm lost (vm.field v name).2 := by
  obtain ⟨l, hl₁, hl⟩ := Option.bind_eq_some_iff.mp hl
  obtain ⟨l', hl₂, hl⟩ := Option.bind_eq_some_iff.mp hl
  obtain rfl := Option.some.inj hl
  have hcompute := compute_course h hl₁
  have hc := hcompute.trans (lift_course hcompute.idle hl₂)
  unfold field
  generalize lift (vm.compute (entryOf v name)) = r at hc
  obtain ⟨a, vm₁⟩ := r
  cases a <;> exact hc

theorem compile_course (h : vm.Idle) (chunk source : String) :
    Course vm [] (vm.compile chunk source).2 := by
  unfold compile
  split
  · exact .refl h
  · exact .of_keeps h fun _ _ => .refl _ _

/-! ## Resuming -/

/-- The coroutines that are lost when what a run has ended with is handed back. -/
def lostByHandBack (vm : Vm) : Outcome → Option (List Nat)
  | .failed v => vm.lostByErrorText v
  | _ => some []

/-- The coroutines that are lost after the run of a resumed coroutine. -/
def lostBySettle (r : Outcome × Vm) : Option (List Nat) :=
  { r.2 with machine := { r.2.machine with base := 0 } }.lostByHandBack r.1

/-- The run of a coroutine that the host resumes. -/
def runThread (vm : Vm) (thread : Nat) (args : List Value) : Outcome × Vm :=
  runFrom vm.host (resumption vm.heap vm.machine thread args).1
    (resumption vm.heap vm.machine thread args).2

/-- The coroutines that are lost in that run. -/
def lostByRunThread (vm : Vm) (thread : Nat) (args : List Value) : Option (List Nat) :=
  lostFrom vm.host (resumption vm.heap vm.machine thread args).1
    (resumption vm.heap vm.machine thread args).2

/-- The coroutines that are lost while the host resumes one. -/
def lostByResume (vm : Vm) (thread : Nat) (args : List Value) : Option (List Nat) :=
  match vm.machine.standing thread with
  | .suspended => do
    let lost ← vm.lostByRunThread thread args
    let lost' ← lostBySettle (vm.runThread thread args)
    return lost ++ lost'
  | _ => some []

theorem handBack_course (h : vm.Idle) {o : Outcome} (hl : vm.lostByHandBack o = some lost) :
    Course vm lost (vm.handBack o).2 := by
  cases o with
  | failed v =>
    have hc := errorText_course h hl
    unfold handBack
    dsimp only
    generalize vm.errorText v = r at hc
    exact hc
  | _ => exact .refl h

theorem settleThread_course {r : Outcome × Vm} (h : r.2.Idle) (hl : lostBySettle r = some lost) :
    Course r.2 lost (settleThread r).2 := by
  have hidle : Idle { r.2 with machine := { r.2.machine with base := 0 } } := h
  have hc := handBack_course hidle hl
  exact ⟨hc.idle, hc.suspended, hc.dead⟩

/-- How a run has ended is how a coroutine hands back control. -/
theorem settleThread_fits {r : Outcome × Vm} (h : r.2.Idle) (hleft : r.2.machine.Left n r.1)
    (hl : lostBySettle r = some lost) (hn : n ∉ lost) :
    ∃ co, (settleThread r).2.machine.coroutines[n]? = some co ∧ (settleThread r).1.Fits co := by
  obtain ⟨o, vm⟩ := r
  obtain ⟨co, hco, hleaves⟩ := hleft
  cases o with
  | finished values => exact ⟨co, hco, hleaves⟩
  | yielded values => exact ⟨co, hco, hleaves⟩
  | failed v =>
    -- the coroutine is dead, and writing out its error leaves it so
    have hkept := (settleThread_course h hl).dead n hn co hco hleaves.1
    have hf : co.remains.failure ≠ none := by
      rw [hleaves.2]
      exact Option.some_ne_none v
    exact ⟨co, hkept, hleaves.1, hf⟩
  | outOfFuel => exact hleaves.elim

section

variable {thread : Nat} {args : List Value}

/-- A suspended coroutine goes on, and what its run ends with is handed back. -/
theorem resume_eq (hs : vm.machine.standing thread = .suspended) :
    vm.resume thread args = settleThread (vm.runThread thread args) := by
  unfold resume runThread
  rw [hs]

/-- Nobody else is resumed. -/
theorem resume_refused (hs : vm.machine.standing thread ≠ .suspended) :
    vm.resume thread args = (.failed unresumable, vm) := by
  unfold resume
  split
  · exact absurd ‹_› hs
  · rfl

theorem lostByResume_eq (hs : vm.machine.standing thread = .suspended)
    (hl : vm.lostByResume thread args = some lost) :
    ∃ l l', vm.lostByRunThread thread args = some l ∧
      lostBySettle (vm.runThread thread args) = some l' ∧ lost = l ++ l' := by
  unfold lostByResume at hl
  rw [hs] at hl
  obtain ⟨l, hl₁, hl⟩ := Option.bind_eq_some_iff.mp hl
  obtain ⟨l', hl₂, hl⟩ := Option.bind_eq_some_iff.mp hl
  exact ⟨l, l', hl₁, hl₂, (Option.some.inj hl).symm⟩

theorem chain_resumption : (resumption vm.heap vm.machine thread args).1.chain = [some thread] := rfl

/-- A coroutine that the host resumes runs. -/
theorem resumption_alive (hs : vm.machine.Stands thread .suspended) :
    (resumption vm.heap vm.machine thread args).1.Alive thread := by
  refine ⟨Nat.le_of_eq ?_, fun _ => .inl ?_, fun hout => ?_⟩
  · rw [chain_resumption, List.count_singleton_self]
  · exact Machine.Stands.awaken Library.invoke (m := { vm.machine with base := 1, resumers := [] }) hs
      args vm.heap
  · exact absurd (List.mem_singleton_self _) (chain_resumption ▸ hout)

theorem keeps_resumption (vm : Vm) (args : List Value) (hn : n ≠ thread) :
    vm.machine.Keeps n (resumption vm.heap vm.machine thread args).1 :=
  Machine.keeps_awaken Library.invoke (m := { vm.machine with base := 1, resumers := [] }) hn args vm.heap

theorem not_mem_chain_resumption (vm : Vm) (args : List Value) (hn : n ≠ thread) :
    some n ∉ (resumption vm.heap vm.machine thread args).1.chain := by
  rw [chain_resumption]
  exact fun hin => hn (Option.some.inj (List.mem_singleton.mp hin))

/-- The run of a resumed coroutine does nothing to the others, but for those that are lost. -/
theorem runThread_course (hl : vm.lostByRunThread thread args = some lost) :
    Course vm (thread :: lost) (vm.runThread thread args).2 := by
  refine ⟨runFrom_idle hl, fun n hn hs => ?_, fun n hn co hco hd => ?_⟩
  · obtain ⟨hne, hn⟩ := not_or.mp (mt List.mem_cons.mpr hn)
    have ha : (resumption vm.heap vm.machine thread args).1.Alive n :=
      .of_outside ((keeps_resumption vm args hne).stands hs) (not_mem_chain_resumption vm args hne)
    refine runFrom_suspended hl hn ha ?_
    rw [chain_resumption]
    exact fun he => hne (Option.some.inj (Option.some.inj he)).symm
  · obtain ⟨hne, hn⟩ := not_or.mp (mt List.mem_cons.mpr hn)
    have hco' := keeps_resumption vm args hne co hco
    exact runFrom_dead hl hn ⟨⟨co, hco', hd⟩, not_mem_chain_resumption vm args hne⟩ co hco'

/-- Resuming a coroutine does nothing to the others, but for those that are lost. -/
theorem resume_course (h : vm.Idle) (hl : vm.lostByResume thread args = some lost) :
    Course vm (thread :: lost) (vm.resume thread args).2 := by
  by_cases hs : vm.machine.standing thread = .suspended
  · obtain ⟨l, l', hl₁, hl₂, rfl⟩ := lostByResume_eq hs hl
    have hrun := runThread_course hl₁
    rw [resume_eq hs]
    exact hrun.trans (settleThread_course hrun.idle hl₂)
  · rw [resume_refused hs]
    exact .refl h

/-- How a coroutine that was suspended hands back control is how it is left. -/
theorem resume_fits (hs : vm.machine.Stands thread .suspended)
    (hl : vm.lostByResume thread args = some lost) (hn : thread ∉ lost) :
    ∃ co, (vm.resume thread args).2.machine.coroutines[thread]? = some co ∧
      (vm.resume thread args).1.Fits co := by
  obtain ⟨l, l', hl₁, hl₂, rfl⟩ := lostByResume_eq hs.standing hl
  obtain ⟨hn₁, hn₂⟩ := not_or.mp (mt List.mem_append.mpr hn)
  have hleft : (vm.runThread thread args).2.machine.Left thread (vm.runThread thread args).1 :=
    runFrom_left hl₁ hn₁ (resumption_alive hs) (by rw [chain_resumption]; rfl)
  rw [resume_eq hs.standing]
  exact settleThread_fits (runFrom_idle hl₁) hleft hl₂ hn₂

end

end Vm

end OscHost
