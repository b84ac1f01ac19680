import OscHost.Proofs.Resumption
import OscHost.Proofs.Runs
/-!
  Requests for a new menu.

  A script asks for a new menu by calling `menu.update`: the call asks the host with an effect of its own
  (`menuUpdate_asks`), and the host keeps in mind that a script has asked.  No other effect touches
  that flag, and none at all what scripts may do and where (`Host.perform_frame`).

  No other function asks with this effect, whatever scripts may have.  That is a matter of what is left of
  suspended calls, so it is an invariant of the machine (`Vm.Honest`): the one of its safety, where nothing
  is kept from scripts.  Hence the flag is up after a run exactly when it was before or `menu.update` has
  been called meanwhile (`runFrom_menuRequested`).
-/

namespace OscHost

open Files Script

/-! ## What effects leave alone -/

namespace Host

variable {α : Type}

/-- A host without its files, what was sent and logged and the time. -/
def frame (s : Host) : Host :=
  { s with tree := {}, transport := { s.transport with sent := #[] }, files := #[], log := #[],
           clock := 0 }

theorem menuRequested_of_frame {s s' : Host} (h : s'.frame = s.frame) :
    s'.menuRequested = s.menuRequested := by
  show s'.frame.menuRequested = s.frame.menuRequested
  rw [h]

theorem registry_of_frame {s s' : Host} (h : s'.frame = s.frame) :
    s'.transport.registry = s.transport.registry := by
  show s'.frame.transport.registry = s.frame.transport.registry
  rw [h]

theorem records_frame (s : Host) (rs : List LogRecord) : (s.records rs).frame = s.frame :=
  List.foldlRecOn (motive := fun s' : Host => s'.frame = s.frame) rs record rfl fun _ hs _ _ => hs

theorem records_tree (s : Host) (rs : List LogRecord) : (s.records rs).tree = s.tree :=
  List.foldlRecOn (motive := fun s' : Host => s'.tree = s.tree) rs record rfl fun _ hs _ _ => hs

theorem guardPath_frame (s : Host) (path : PathArg) : (s.guardPath path).2.frame = s.frame := by
  unfold guardPath
  split
  · rfl
  · split
    · rfl
    · split <;> rfl

theorem guarded_frame (s : Host) (path : PathArg) {f : String → Host → α × Host}
    (hf : ∀ path s, (f path s).2.frame = s.frame) : (s.guarded path f).2.frame = s.frame := by
  have hguard := guardPath_frame s path
  unfold guarded
  generalize s.guardPath path = r at hguard ⊢
  rcases r with ⟨text | e | path, s'⟩
  · exact hguard
  · exact hguard
  · exact (hf _ _).trans hguard

theorem openFile_frame (s : Host) (path : String) (mode : Bytes) :
    (s.openFile path mode).2.frame = s.frame := by
  unfold openFile
  split
  · rfl
  · split <;> rfl

theorem removeFile_frame (s : Host) (path : String) : (s.removeFile path).2.frame = s.frame := by
  unfold removeFile
  split <;> rfl

theorem renameFile_frame (s : Host) (source target : String) :
    (s.renameFile source target).2.frame = s.frame := by
  unfold renameFile
  split <;> rfl

theorem openProcess_frame (s : Host) (command mode : Bytes) :
    (s.openProcess command mode).2.frame = s.frame := by
  unfold openProcess
  split <;> rfl

theorem closeFile_frame (s : Host) (n : Nat) : (s.closeFile n).2.frame = s.frame := by
  unfold closeFile
  split
  · rfl
  · split
    · rfl
    · dsimp only
      split <;> rfl

theorem writeJson_frame (s : Host) (path : String) (tree : Logged Json) :
    (s.writeJson path tree).2.frame = s.frame := by
  have hrecords := records_frame s tree.log
  unfold writeJson
  split
  · rfl
  · dsimp only
    split
    · exact hrecords
    · split
      · exact hrecords
      · exact hrecords

section

variable {t t' : Osc.Transport} {address : String}

/-! Whoever sends only adds to what was sent. -/

theorem push_unsent {arg : Osc.Arg} (h : t.push address arg = .ok t') :
    { t' with sent := #[] } = { t with sent := #[] } := by
  unfold Osc.Transport.push at h
  split at h
  · cases h
    rfl
  · exact nomatch h

theorem sendNumber_unsent {x : Float} (h : t.sendNumber address x = .ok t') :
    { t' with sent := #[] } = { t with sent := #[] } := by
  unfold Osc.Transport.sendNumber at h
  cases hresolve : Osc.resolveNumber address x (t.registry.get? address) with
  | error e =>
    rw [hresolve] at h
    exact nomatch h
  | ok arg =>
    rw [hresolve] at h
    exact push_unsent h

theorem dispatch_unsent {values : List BoundaryValue}
    (h : (t.dispatch address values).value = .ok t') :
    { t' with sent := #[] } = { t with sent := #[] } := by
  unfold Osc.Transport.dispatch at h
  split at h
  · exact push_unsent h
  · exact push_unsent h
  · exact push_unsent h
  · exact sendNumber_unsent h
  · exact sendNumber_unsent h
  · exact push_unsent h
  · exact push_unsent h
  · exact nomatch h

end

theorem send_frame (s : Host) (address : String) (values : List BoundaryValue) :
    (s.send address values).2.frame = s.frame := by
  have hrecords := records_frame s (s.transport.dispatch address values).log
  unfold send
  dsimp only
  split
  · rename_i transport hsent
    have hunsent := dispatch_unsent hsent
    have hframe : { (s.records (s.transport.dispatch address values).log) with transport }.frame =
        { (s.records (s.transport.dispatch address values).log).frame with
          transport := { transport with sent := #[] } } := rfl
    rw [hframe, hrecords, hunsent]
    rfl
  · exact hrecords

end Host

/-- Whether an effect asks for a new menu. -/
def Script.Effect.isRequest : Effect → Bool
  | .requestMenu => true
  | _ => false

/-- An effect changes nothing else about the host than that it may ask for a new menu, which the
    host keeps in mind. -/
theorem Host.perform_frame (e : Effect) (s : Host) : (s.perform e).2.frame =
    { s.frame with menuRequested := s.menuRequested || e.isRequest } := by
  -- but for one effect the flag stays, so it is enough that the frame does
  have keeps : e.isRequest = false → (s.perform e).2.frame = s.frame → (s.perform e).2.frame =
      { s.frame with menuRequested := s.menuRequested || e.isRequest } := by
    intro he hs
    rw [he, hs, Bool.or_false]
    rfl
  cases e with
  | requestMenu =>
    rw [show Effect.isRequest .requestMenu = true from rfl, Bool.or_true]
    rfl
  | send address values => exact keeps rfl (send_frame s address values)
  | writeJson path tree => exact keeps rfl (writeJson_frame s path tree)
  | openFile path mode =>
    exact keeps rfl (guarded_frame s path fun path s => openFile_frame s path mode)
  | removeFile path => exact keeps rfl (guarded_frame s path fun path s => removeFile_frame s path)
  | renameFile source target =>
    have hsource := guarded_frame (f := fun path s => (path, s)) s source fun _ _ => rfl
    refine keeps rfl ?_
    unfold perform
    dsimp only
    generalize s.guarded source (fun path s => (path, s)) = r at hsource ⊢
    rcases r with ⟨text | e | source, s'⟩
    · exact hsource
    · exact hsource
    · exact (guarded_frame s' target fun target s => renameFile_frame s _ target).trans hsource
  | openProcess command mode => exact keeps rfl (openProcess_frame s command mode)
  | close n => exact keeps rfl (closeFile_frame s n)
  | read n _ | write n _ | seek n _ _ =>
    refine keeps rfl ?_
    unfold perform
    dsimp only
    split
    · rfl
    · split <;> rfl
  | flush n =>
    refine keeps rfl ?_
    unfold perform
    dsimp only
    split <;> rfl
  | _ => exact keeps rfl rfl

/-- What every effect keeps of the host is kept by a run. -/
theorem Script.Machine.run_keeps {P : Host → Prop}
    (hperform : ∀ (e : Effect) (s : Host), P s → P (s.perform e).2)
    (invoke : Value → List Value → Lib (List Value)) (fuel : Nat) (m : Machine) (f : Focus)
    {s : Host} (hs : P s) : P (run invoke Host.perform fuel m f s).2.2.2 := by
  induction fuel generalizing m f s with
  | zero => exact hs
  | succ fuel ih =>
    rw [run]
    cases step invoke m f with
    | next m f => exact ih m f hs
    | ended o m h => exact hs
    | ask m e h k c => exact ih m _ (hperform e s hs)

/-- So a part of the host that no effect changes is the same after a run. -/
theorem Vm.runFrom_part {γ : Type} (part : Host → γ)
    (hperform : ∀ (e : Effect) (s : Host), part (s.perform e).2 = part s)
    (host : Host) (m : Machine) (f : Focus) : part (runFrom host m f).2.host = part host := by
  have hkeeps := Machine.run_keeps (P := fun s => part s = part host)
    (fun e s hs => (hperform e s).trans hs) Library.invoke fuel m f rfl
  unfold runFrom
  exact hkeeps

/-! ## Calls of `menu.update` -/

/-- The machine's next step after a call of `menu.update` is to ask for a menu, and with the answer the call
    is over. -/
theorem menuUpdate_asks (m : Machine) (args : List Value) (origin : Option Origin) (h : Heap) :
    Machine.step Library.invoke m (m.enter Library.invoke (.builtin .menuUpdate) args origin h) =
      .ask m .requestMenu h (fun _ h => .done [] h)
        ⟨.builtin .menuUpdate, origin, m.siteOf (.builtin .menuUpdate) origin⟩ := rfl

namespace Script

/-- How often a call of `menu.update` asks for a menu when a function asks for an effect. -/
def Effect.requests (e : Effect) (function : Value) : Nat :=
  match function with
  | .builtin .menuUpdate => e.isRequest.toNat
  | _ => 0

/-- Nobody else may ask for a menu. -/
theorem Effect.requests_of_may {V : Ward} {a : Actor} {e : Effect} (h : a.May V e) :
    e.requests a.function = e.isRequest.toNat := by
  cases e with
  | requestMenu =>
    rw [show a.function = .builtin .menuUpdate from h]
    rfl
  | _ =>
    unfold requests
    split
    · rfl
    · rfl

/-- Where nothing is kept from scripts they may call `require` for any name. -/
theorem Focus.Fine.safe {f : Focus} {h : Heap} (hf : f.Fine .trusted h) : f.Safe .trusted h :=
  hf.resolve_right fun ⟨_, hw, _⟩ => Ward.not_mem_trusted hw

namespace Machine

/-- How often `menu.update` asks for a menu in a run. -/
def requests : Nat → Machine → Focus → Host → Nat
  | 0, _, _, _ => 0
  | fuel + 1, m, f, s =>
    match step Library.invoke m f with
    | .next m f => requests fuel m f s
    | .ended .. => 0
    | .ask m e h k c =>
      e.requests c.function + requests fuel m (.library (k (s.perform e).1 h) c) (s.perform e).2

/-- After a run a menu is asked for if it was before or `menu.update` has asked for one. -/
theorem run_menuRequested (fuel : Nat) {m : Machine} {f : Focus} {h₀ : Heap} (s : Host)
    (hm : m.Good .trusted) (hf : f.Safe .trusted h₀) :
    (run Library.invoke Host.perform fuel m f s).2.1.Good .trusted ∧
      ((run Library.invoke Host.perform fuel m f s).2.2.2.menuRequested ↔
        s.menuRequested ∨ 0 < requests fuel m f s) := by
  -- the invariant is what keeps all other functions from asking, for any machine and host on the way
  induction fuel generalizing m f h₀ s with
  | zero => exact ⟨hm, (or_iff_left (Nat.lt_irrefl 0)).symm⟩
  | succ fuel ih =>
    have hp := step_fine hm hf nofun
    rw [run, requests]
    generalize step Library.invoke m f = p at hp ⊢
    cases p with
    | next m f => exact ih s hp.1 hp.2.safe
    | ended o m h => exact ⟨hp.1, (or_iff_left (Nat.lt_irrefl 0)).symm⟩
    | ask m e h k c =>
      obtain ⟨hm, hfollows, name, hmay, hnext⟩ := hp
      have hperform : (s.perform e).2.menuRequested = (s.menuRequested || e.isRequest) :=
        congrArg Host.menuRequested (Host.perform_frame e s)
      obtain ⟨hgood, hflag⟩ := ih (f := .library (k (s.perform e).1 h) c) (s.perform e).2 hm
        ⟨name, hnext _ h hfollows.good⟩
      have hrequests : e.requests c.function = e.isRequest.toNat := Effect.requests_of_may hmay
      have hcount : 0 < e.isRequest.toNat ↔ e.isRequest := by
        cases e.isRequest with
        | false => decide
        | true => decide
      refine ⟨hgood, ?_⟩
      dsimp only
      rw [hflag, hperform, hrequests, Bool.or_eq_true, or_assoc, Nat.add_pos_iff_pos_or_pos,
        hcount]

end Machine

end Script

namespace Vm

/-- Whether what is left of suspended calls asks for a menu in the name of `menu.update` alone. -/
def Honest (vm : Vm) : Prop := vm.machine.Good .trusted

variable {vm : Vm}

/-- How often `menu.update` asks for a menu in a run of the machine. -/
def requestsFrom (host : Host) (m : Machine) (f : Focus) : Nat := m.requests fuel f host

theorem runFrom_menuRequested {m : Machine} {f : Focus} {h : Heap} (host : Host)
    (hm : m.Good .trusted) (hf : f.Safe .trusted h) :
    (runFrom host m f).2.Honest ∧ ((runFrom host m f).2.host.menuRequested ↔
      host.menuRequested ∨ 0 < requestsFrom host m f) := by
  have hrun := Machine.run_menuRequested fuel host hm hf
  unfold runFrom
  generalize Machine.run Library.invoke Host.perform fuel m f host = r at hrun ⊢
  exact hrun

/-- How often it asks in a computation of the library. -/
def requestsInCompute (vm : Vm) (x : Lib (List Value)) : Nat :=
  requestsFrom vm.host vm.machine (.library (x.action Machine.hostSite vm.heap) Machine.hostContext)

theorem compute_menuRequested (hvm : vm.Honest) {x : Lib (List Value)}
    (hx : ∀ a, x.Safe .trusted a (CleanAll .trusted)) :
    (vm.compute x).2.Honest ∧ ((vm.compute x).2.host.menuRequested ↔
      vm.host.menuRequested ∨ 0 < vm.requestsInCompute x) := by
  rw [compute_eq]
  have hfollows := vm.heap.follows_trusted vm.heap
  exact runFrom_menuRequested vm.host hvm ⟨.empty, (hx _).action Machine.hostSite hfollows.good⟩

/-- How often it asks while a coroutine runs that the host resumes. -/
def requestsInThread (vm : Vm) (thread : Nat) (args : List Value) : Nat :=
  requestsFrom vm.host (resumption vm.heap vm.machine thread args).1
    (resumption vm.heap vm.machine thread args).2

theorem runThread_menuRequested (hvm : vm.Honest) (thread : Nat) (args : List Value) :
    (vm.runThread thread args).2.Honest ∧ ((vm.runThread thread args).2.host.menuRequested ↔
      vm.host.menuRequested ∨ 0 < vm.requestsInThread thread args) := by
  have hfollows := vm.heap.follows_trusted vm.heap
  obtain ⟨hm, hf⟩ := Moment.resumption_fine hvm hfollows.good thread
    (Library.cleanAll_trusted args)
  exact runFrom_menuRequested vm.host hm hf.safe

end Vm

end OscHost
