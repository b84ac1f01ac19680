import OscHost.Proofs.Runs
/-!
  The first steps of a script.

  With all flags off a script starts in a good heap, finds its globals there and comes to its first
  call by running its code.
-/

namespace OscHost

open Script Relation

namespace Moment

variable {s : Host} {m : Machine} {h h' : Heap} {x y : Activation}

/-- The vault that scripts start with. -/
abbrev vaultOf (s : Host) (asked : Bytes → Prop) (reserved : ¬ asked "package") : Vault :=
  Sandbox.vault s.scriptRoot asked reserved

theorem new_sealed (hs : s.policy = {}) (asked : Bytes → Prop) (reserved : ¬ asked "package") :
    (new s).Good (.vault (vaultOf s asked reserved)) :=
  new_good hs asked reserved fun _ hw => Ward.mem_vault.mp hw

theorem table_new (hs : s.policy = {}) (p : Sandbox.Place) :
    (new s).heap.table p.id = Sandbox.contents {} s.scriptRoot p := by
  show (Sandbox.heap s.policy _).table p.id = _
  rw [hs]
  exact Sandbox.table_heap _ p

/-! ## Steps of a script -/

theorem enter_closure {id : Nat} {f : Closure} {args : List Value} {origin : Option Origin}
    (hc : h.closures[id]? = some f) (hm : m.extent + f.proto.slots ≤ Machine.maxExtent) :
    m.enter Library.invoke (.closure id) args origin h = .script (.start id f args origin) h := by
  unfold Machine.enter
  rw [show Machine.callee h (.closure id) args Machine.maxCallees = .closure id args from rfl]
  dsimp only
  rw [hc]
  exact if_neg (Nat.not_lt.mpr hm)

theorem enter_builtin (b : Builtin) (args : List Value) (origin : Option Origin) :
    m.enter Library.invoke (.builtin b) args origin h =
      .library ((Library.invoke (.builtin b) args).action (m.siteOf (.builtin b) origin) h)
        ⟨.builtin b, origin, m.siteOf (.builtin b) origin⟩ := rfl

theorem step_call {f : Value} {args : List Value} {origin : Option Origin}
    (hr : Activation.run Machine.burst h x = ⟨h', y, .call f args origin⟩) :
    Machine.step Library.invoke m (.script x h) =
      .next (m.hold y) ((m.hold y).enter Library.invoke f args origin h') := by
  unfold Machine.step
  dsimp only
  rw [hr]

theorem step_returned {vs : List Value}
    (hr : Activation.run Machine.burst h x = ⟨h', y, .returned vs⟩) :
    Machine.step Library.invoke m (.script x h) = .next m (.values vs h') := by
  unfold Machine.step
  dsimp only
  rw [hr]

theorem exec_index_found {go : Heap → Activation → Paused} {h : Heap} {x : Activation}
    {origin : Option Origin} {o k v : Value} {stack : List Value} (hs : x.stack = k :: o :: stack)
    (hv : Lib.lookup h o k = .found v) : Activation.exec go (.index origin) h x =
      go h { x with pc := x.pc + 1, stack := v :: stack } := by
  unfold Activation.exec
  simp only [hs, hv]

theorem exec_setIndex_raw {go : Heap → Activation → Paused} {h : Heap} {x : Activation}
    {origin : Option Origin} {o k v : Value} {e : Key} {id : Nat} {stack : List Value}
    (hs : x.stack = v :: k :: o :: stack) (ha : Lib.assignment h o k = .raw id)
    (hk : Key.ofValue k = .ok e) : Activation.exec go (.setIndex origin) h x =
      go (h.set id e v) { x with pc := x.pc + 1, stack } := by
  unfold Activation.exec
  simp only [hs, ha, hk]

/-- A run of two steps. -/
theorem runFrom_of_steps {m' m₁ : Machine} {f f' : Focus} {o : Outcome}
    (hs : Machine.step Library.invoke m f = .next m' f')
    (hs' : Machine.step Library.invoke m' f' = .ended o m₁ h) :
    Vm.runFrom s m f = (o, ⟨h, m₁, s⟩) := by
  have hfuel : Vm.fuel = 0x3FFFFFFFFFFFFFFE + 1 + 1 := rfl
  unfold Vm.runFrom
  rw [hfuel, Machine.run, hs]
  dsimp only
  rw [Machine.run, hs']

/-- A name of a table that lies in a captured variable. -/
theorem run_global {line line' line'' n : Nat} {name : Bytes} {origin : Option Origin} {v : Value}
    (hcell : x.code[x.pc]? = some (.getUpvalue n, line))
    (hname : x.code[x.pc + 1]? = some (.pushString name, line'))
    (hindex : x.code[x.pc + 2]? = some (.index origin, line''))
    (hv : Lib.lookup h (h.cell (x.cells.getD n 0)) (.string name) = .found v) (fuel : Nat) :
    Activation.run (fuel + 3) h x =
      Activation.run fuel h { x with pc := x.pc + 3, stack := v :: x.stack } := by
  rw [Activation.run_code hcell]
  show Activation.run (fuel + 2) h
    { x with pc := x.pc + 1, stack := h.cell (x.cells.getD n 0) :: x.stack } = _
  rw [Activation.run_code (i := .pushString name) hname]
  show Activation.run (fuel + 1) h
    { x with pc := x.pc + 2, stack := .string name :: h.cell (x.cells.getD n 0) :: x.stack } = _
  rw [Activation.run_code (i := .index origin) hindex, exec_index_found rfl hv]

/-- A name of what is on top of the stack. -/
theorem run_member {line line' : Nat} {name : Bytes} {origin : Option Origin} {o v : Value}
    {stack : List Value} (hs : x.stack = o :: stack)
    (hname : x.code[x.pc]? = some (.pushString name, line))
    (hindex : x.code[x.pc + 1]? = some (.index origin, line'))
    (hv : Lib.lookup h o (.string name) = .found v) (fuel : Nat) :
    Activation.run (fuel + 2) h x =
      Activation.run fuel h { x with pc := x.pc + 2, stack := v :: stack } := by
  rw [Activation.run_code hname]
  show Activation.run (fuel + 1) h { x with pc := x.pc + 1, stack := .string name :: x.stack } = _
  rw [hs, Activation.run_code (i := .index origin) hindex, exec_index_found rfl hv]

/-! ## A compiled script -/

/-- A heap in which some code has just been compiled, as the function `id` with its globals in the
    cell `n`. -/
structure Compiled (s : Host) (p : Proto) (h : Heap) (id n : Nat) : Prop where
  step : Step (new s) (.idle ⟨h, {}, s⟩ [.closure id, .table Sandbox.Place.globals.id])
  closure : h.closures[id]? = some ⟨p, #[n]⟩
  cell : h.cell n = .table Sandbox.Place.globals.id
  table : ∀ t : Sandbox.Place, h.table t.id = Sandbox.contents {} s.scriptRoot t
  good : ∀ (asked : Bytes → Prop) (reserved : ¬ asked "package"),
    h.Good (.vault (vaultOf s asked reserved))

/-- What comes of compiling code on a new machine. -/
theorem compiled_new (hs : s.policy = {}) (p : Proto) :
    Compiled s p ((Vm.new s).heap.newChunk p (Vm.new s).heap.globalsValue).2
      (Vm.new s).heap.closures.size (Vm.new s).heap.cells.size := by
  let g := (Vm.new s).heap
  have hglobals : g.globalsValue = .table Sandbox.Place.globals.id := by
    show Heap.globalsValue (Sandbox.heap s.policy _) = _
    rw [hs]
    rfl
  refine ⟨?_, ?_, ?_, ?_, ?_⟩
  · rw [← hglobals]
    exact .compile p
  · exact Array.getElem?_push_size
  · show (g.cells.push g.globalsValue).getD g.cells.size .nil = _
    simpa using hglobals
  · exact table_new hs
  · intro asked reserved
    have hg := (new_sealed hs asked reserved).heap
    exact (hg.newChunk p hg.roots.globals).good

theorem exists_compiled (hs : s.policy = {}) (p : Proto) : ∃ h id n, Compiled s p h id n :=
  ⟨_, _, _, compiled_new hs p⟩

namespace Compiled

variable {p : Proto} {id n : Nat}

theorem lookup (hc : Compiled s p h id n) {t : Sandbox.Place} {name : String} {v : Value}
    (hv : (Sandbox.contents {} s.scriptRoot t).getText name = v) :
    Lib.lookup h (.table t.id) (.string name) = .found v := by
  have hm : (h.table t.id).metatable = none := by
    rw [hc.table]
    exact Sandbox.metatable_contents ..
  rw [Library.Modules.lookup_plain hm, hc.table]
  exact congrArg Lib.Lookup.found hv

/-- A global name, as the script finds it. -/
theorem lookup_global (hc : Compiled s p h id n) {name : String} {v : Value}
    (hv : (Sandbox.contents {} s.scriptRoot .globals).getText name = v) :
    Lib.lookup h (h.cell n) (.string name) = .found v := by
  rw [hc.cell]
  exact hc.lookup hv

/-- Calling the script. -/
theorem call (hc : Compiled s p h id n) (hp : p.slots ≤ Machine.maxExtent) :
    Step (.idle ⟨h, {}, s⟩ [.closure id, .table Sandbox.Place.globals.id])
      (.busy {} (.script (.start id ⟨p, #[n]⟩ [] none) h) s
        [.closure id, .table Sandbox.Place.globals.id]) := by
  have henter : Machine.enter Library.invoke {} (.closure id) [] none h =
      .script (.start id ⟨p, #[n]⟩ [] none) h :=
    enter_closure hc.closure (by simpa [Machine.extent] using hp)
  rw [← henter]
  exact .call List.mem_cons_self (List.forall_mem_nil _)

/-- Nothing is asked of `require` until the script runs. -/
theorem calmRun (hc : Compiled s p h id n) (hp : p.slots ≤ Machine.maxExtent)
    (asked : Bytes → Prop) : CalmRun asked (new s)
      (.busy {} (.script (.start id ⟨p, #[n]⟩ [] none) h) s
        [.closure id, .table Sandbox.Place.globals.id]) := by
  refine .head ⟨hc.step, fun _ hn => hn.elim⟩ (.single ⟨hc.call hp, fun name hn => ?_⟩)
  obtain ⟨_, _, _, _, hf, _⟩ := hn
  cases hf

theorem run (hc : Compiled s p h id n) (hp : p.slots ≤ Machine.maxExtent) :
    Run (new s) (.busy {} (.script (.start id ⟨p, #[n]⟩ [] none) h) s
      [.closure id, .table Sandbox.Place.globals.id]) :=
  .head hc.step (.single (hc.call hp))

end Compiled

end Moment

/-- A host with all flags off and two empty roots. -/
def plainHost : Host :=
  { tree := ⟨[(["lua"], .directory), (["lua", "io"], .directory)]⟩, around := ⟨"/", none⟩, policy := {}
    scriptJail := ⟨["lua"]⟩, ioJail := ⟨["lua", "io"]⟩, jsonRoots := ⟨[⟨["lua", "io"]⟩]⟩
    files := Host.standardFiles }

end OscHost
