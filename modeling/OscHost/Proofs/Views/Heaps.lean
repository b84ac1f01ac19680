import OscHost.Proofs.Sandbox
/-!
  Views in a heap.

  A view is an empty table whose metatable has functions that serve the table it shows
  (`Heap.IsView`).  In an orderly heap tables name tables of the heap only, and each view on record is a
  view, and not of itself.  What leaves the views alone keeps a heap orderly (`Heap.Keeps`), and so does
  making a view.
-/

namespace OscHost.Script

/-- Whether a value is a table with a number below a bound, if it is a table. -/
def Value.Below (n : Nat) : Value → Prop
  | .table id => id < n
  | _ => True

/-- Whether a value is a table of the heap, if it is a table. -/
abbrev Value.Lies (h : Heap) : Value → Prop := Value.Below h.tables.size

@[simp] theorem Value.below_nil (n : Nat) : Value.nil.Below n := trivial

theorem Value.Below.mono {n n' : Nat} (hn : n ≤ n') {v : Value} (hv : v.Below n) : v.Below n' := by
  cases v with
  | table id => exact Nat.lt_of_lt_of_le hv hn
  | _ => trivial

theorem Table.Each.imp {P Q : Value → Prop} {u : Table} (hu : u.Each P P) (h : ∀ v, P v → Q v) :
    u.Each Q Q :=
  ⟨fun v hv => h v (hu.seq v hv), fun e he => h _ (hu.keys e he), fun e he => h _ (hu.values e he)⟩

namespace Heap

/-- Whether a value is a function of a view. -/
def Serves (h : Heap) (role : ViewRole) (t : Nat) (name : Bytes) (f : Value) : Prop :=
  ∃ n, f = .native n ∧ h.natives[n]? = some (.view role t name)

/-- Whether a table is a view of another one, under the name that it is shown by. -/
structure IsView (h : Heap) (t p : Nat) (name : Bytes) : Prop where
  vacant : ∀ k, (h.table p).get k = .nil
  index : h.Serves .index t name (h.metamethod (.table p) "__index")
  assign : h.Serves .assign t name (h.metamethod (.table p) "__newindex")
  pairs : h.Serves .pairs t name (h.metamethod (.table p) "__pairs")

/-- Whether tables name none but tables below a bound, and the views on record are views. -/
structure OrderlyTo (n : Nat) (h : Heap) : Prop where
  entries : ∀ id, (h.table id).Each (Value.Below n) (Value.Below n)
  served : ∀ role t name f, h.Serves role t name f → t < h.tables.size
  views : ∀ t p, h.views.lookup t = some p → t ≠ p ∧ ∃ name, h.IsView t p name

/-- Whether tables name none but tables of the heap, and the views on record are views. -/
abbrev Orderly (h : Heap) : Prop := h.OrderlyTo h.tables.size

/-- Whether a heap has all views of another one as they are there. -/
structure Retains (h h' : Heap) : Prop where
  size : h.tables.size ≤ h'.tables.size
  serves : ∀ role t name f, h.Serves role t name f → h'.Serves role t name f
  lookup : ∀ t p, h.views.lookup t = some p → h'.views.lookup t = some p
  isView : ∀ t p name, h.views.lookup t = some p → h.IsView t p name → h'.IsView t p name

/-- Whether a heap is orderly and has all views of another one as they are there. -/
structure Keeps (h h' : Heap) : Prop extends Retains h h' where
  orderly : h'.Orderly

variable {h h' h'' : Heap} {t t' p n : Nat} {name name' : Bytes} {v : Value} {u : Table}

/-! ## Views -/

theorem metamethod_table (h : Heap) (p : Nat) (event : String) :
    h.metamethod (.table p) event = match (h.table p).metatable with
      | none => .nil
      | some m => (h.table m).getText event := rfl

theorem table_of_ge (hp : h.tables.size ≤ p) : h.table p = {} := by
  rw [table, Array.getD_eq_getD_getElem?, Array.getElem?_eq_none hp]
  rfl

theorem get_empty (k : Key) : ({} : Table).get k = .nil :=
  Table.each_empty (K := fun _ => True) (P := (· = .nil)) |>.get rfl k

/-- A view and its metatable are tables of the heap. -/
theorem IsView.inside (hv : h.IsView t p name) :
    p < h.tables.size ∧ ∃ m, (h.table p).metatable = some m ∧ m < h.tables.size := by
  obtain ⟨n, hn, -⟩ := hv.index
  rw [metamethod_table] at hn
  cases hm : (h.table p).metatable with
  | none =>
    rw [hm] at hn
    cases hn
  | some m =>
    rw [hm] at hn
    refine ⟨Nat.lt_of_not_le fun hp => ?_, m, rfl, Nat.lt_of_not_le fun hlt => ?_⟩
    · rw [table_of_ge hp] at hm
      cases hm
    · dsimp only at hn
      rw [table_of_ge hlt] at hn
      cases (get_empty _).symm.trans hn

/-- A view stays one while its tables and its functions do. -/
theorem IsView.congr (hv : h.IsView t p name) (hview : h'.table p = h.table p)
    (hevents : ∀ m, (h.table p).metatable = some m → h'.table m = h.table m)
    (hserves : ∀ role t name f, h.Serves role t name f → h'.Serves role t name f) :
    h'.IsView t p name := by
  obtain ⟨-, m, hm, -⟩ := hv.inside
  have hmeta : ∀ event, h'.metamethod (.table p) event = h.metamethod (.table p) event := by
    intro event
    rw [metamethod_table, metamethod_table, hview, hm]
    dsimp only
    rw [hevents m hm]
  refine ⟨fun k => by rw [hview]; exact hv.vacant k, ?_, ?_, ?_⟩
  · rw [hmeta]
    exact hserves _ _ _ _ hv.index
  · rw [hmeta]
    exact hserves _ _ _ _ hv.assign
  · rw [hmeta]
    exact hserves _ _ _ _ hv.pairs

/-- A function of a view serves one table, under one name and in one role. -/
theorem Serves.unique {role role' : ViewRole} {f : Value} (hs : h.Serves role t name f)
    (hs' : h.Serves role' t' name' f) : role = role' ∧ t = t' ∧ name = name' := by
  obtain ⟨n, rfl, hn⟩ := hs
  obtain ⟨n', he, hn'⟩ := hs'
  cases he
  rw [hn] at hn'
  cases hn'
  exact ⟨rfl, rfl, rfl⟩

/-! ## Keeping views -/

theorem Retains.refl (h : Heap) : h.Retains h :=
  ⟨Nat.le_refl _, fun _ _ _ _ hs => hs, fun _ _ hl => hl, fun _ _ _ _ hv => hv⟩

theorem Retains.trans (h₁ : h.Retains h') (h₂ : h'.Retains h'') : h.Retains h'' :=
  ⟨Nat.le_trans h₁.size h₂.size, fun _ _ _ _ hs => h₂.serves _ _ _ _ (h₁.serves _ _ _ _ hs),
    fun _ _ hl => h₂.lookup _ _ (h₁.lookup _ _ hl),
    fun _ _ _ hl hv => h₂.isView _ _ _ (h₁.lookup _ _ hl) (h₁.isView _ _ _ hl hv)⟩

theorem Orderly.keeps (ho : h.Orderly) : h.Keeps h := ⟨.refl h, ho⟩

theorem Keeps.trans (h₁ : h.Keeps h') (h₂ : h'.Keeps h'') : h.Keeps h'' :=
  ⟨h₁.toRetains.trans h₂.toRetains, h₂.orderly⟩

theorem Retains.lies (hr : h.Retains h') (hv : v.Lies h) : v.Lies h' := hv.mono hr.size

theorem OrderlyTo.mono {n' : Nat} (hn : n ≤ n') (ho : h.OrderlyTo n) : h.OrderlyTo n' :=
  ⟨fun id => (ho.entries id).imp fun _ => Value.Below.mono hn, ho.served, ho.views⟩

theorem retains_newNative (h : Heap) (f : Native) : h.Retains (h.newNative f).2 := by
  have hserves : ∀ role t name g, h.Serves role t name g → (h.newNative f).2.Serves role t name g := by
    rintro role t name g ⟨i, rfl, hi⟩
    refine ⟨i, rfl, ?_⟩
    rw [newNative, Array.getElem?_push, if_neg (Nat.ne_of_lt (Array.getElem?_eq_some_iff.mp hi).1)]
    exact hi
  exact ⟨Nat.le_refl _, hserves, fun _ _ hl => hl, fun t p name _ hv => hv.congr rfl (fun _ _ => rfl) hserves⟩

theorem serves_newNative (h : Heap) (role : ViewRole) (t : Nat) (name : Bytes) :
    (h.newNative (.view role t name)).2.Serves role t name (.native h.natives.size) :=
  ⟨_, rfl, by simp [newNative]⟩

theorem size_newTable (h : Heap) (u : Table) : (h.newTable u).2.tables.size = h.tables.size + 1 :=
  Array.size_push _

theorem table_newTable_self (h : Heap) (u : Table) : (h.newTable u).2.table h.tables.size = u := by
  rw [table_newTable, if_pos rfl]

theorem retains_newTable (h : Heap) (u : Table) : h.Retains (h.newTable u).2 := by
  have htable : ∀ id < h.tables.size, (h.newTable u).2.table id = h.table id := fun id hid => by
    rw [table_newTable, if_neg (Nat.ne_of_lt hid)]
  refine ⟨Nat.le_of_lt (Nat.lt_of_lt_of_eq (Nat.lt_succ_self _) (size_newTable h u).symm),
    fun _ _ _ _ hs => hs, fun _ _ hl => hl, fun t p name _ hv => ?_⟩
  obtain ⟨hp, m, hm, hlt⟩ := hv.inside
  refine hv.congr (htable p hp) (fun m' hm' => ?_) fun _ _ _ _ hs => hs
  obtain rfl := Option.some.inj (hm.symm.trans hm')
  exact htable m hlt

theorem retains_record (hnew : h.views.lookup t = none) :
    h.Retains { h with views := (t, p) :: h.views } := by
  refine ⟨Nat.le_refl _, fun _ _ _ _ hs => hs, fun t' p' hl => ?_,
    fun t p name _ hv => ⟨hv.1, hv.2, hv.3, hv.4⟩⟩
  rw [List.lookup_cons]
  split
  · rename_i he
    rw [eq_of_beq he, hnew] at hl
    cases hl
  · exact hl

namespace OrderlyTo

variable (ho : h.OrderlyTo n)
include ho

/-- What a metatable names is below the bound, if it is a table. -/
theorem metamethod (v : Value) (event : String) : (h.metamethod v event).Below n := by
  unfold Heap.metamethod
  split
  · trivial
  · exact (ho.entries _).get trivial _

/-- The views on record stay views. -/
theorem views_of_retains (hr : h.Retains h') (t p : Nat) (hl : h.views.lookup t = some p) :
    t ≠ p ∧ ∃ name, h'.IsView t p name := by
  obtain ⟨hne, name, hv⟩ := ho.views t p hl
  exact ⟨hne, name, hr.isView t p name hl hv⟩

theorem newNative {f : Native} (hf : ∀ role t name, f = .view role t name → t < h.tables.size) :
    (h.newNative f).2.OrderlyTo n := by
  refine ⟨ho.entries, ?_, ho.views_of_retains (retains_newNative h f)⟩
  rintro role t name g ⟨i, rfl, hi⟩
  rw [Heap.newNative, Array.getElem?_push] at hi
  split at hi
  · exact hf role t name (Option.some.inj hi)
  · exact ho.served role t name (.native i) ⟨i, rfl, hi⟩

theorem newTable (hu : u.Each (Value.Below n) (Value.Below n)) : (h.newTable u).2.OrderlyTo n := by
  refine ⟨fun id => ?_, fun role t name f hs => ?_, ho.views_of_retains (retains_newTable h u)⟩
  · rw [table_newTable]
    split
    · exact hu
    · exact ho.entries id
  · exact Nat.lt_of_lt_of_le (ho.served role t name f hs) (retains_newTable h u).size

theorem record (hnew : h.views.lookup t = none) (hne : t ≠ p) (hv : h.IsView t p name) :
    OrderlyTo n { h with views := (t, p) :: h.views } := by
  refine ⟨ho.entries, ho.served, fun t' p' hl => ?_⟩
  rw [List.lookup_cons] at hl
  split at hl
  · rename_i he
    obtain rfl := Option.some.inj hl
    obtain rfl := eq_of_beq he
    exact ⟨hne, name, ⟨hv.1, hv.2, hv.3, hv.4⟩⟩
  · exact ho.views_of_retains (retains_record hnew) t' p' hl

end OrderlyTo

/-- Setting an entry of a table leaves all views alone when the table is neither a view nor the
    metatable of one. -/
theorem Orderly.keeps_set (ho : h.Orderly) {id : Nat} {k : Key} (hk : k.toValue.Lies h)
    (hv : v.Lies h) (hview : ∀ t p, h.views.lookup t = some p → p ≠ id)
    (hevents : ∀ t p, h.views.lookup t = some p → (h.table p).metatable ≠ some id) :
    h.Keeps (h.set id k v) := by
  have hsize : (h.set id k v).tables.size = h.tables.size := Array.size_modify
  have htable : ∀ n, n ≠ id → (h.set id k v).table n = h.table n := fun n hn => by
    rw [set, table_modifyTable, if_neg fun hc => hn hc.1]
  have hr : h.Retains (h.set id k v) := by
    refine ⟨Nat.le_of_eq hsize.symm, fun _ _ _ _ hs => hs, fun _ _ hl => hl, fun t p name hl hv => ?_⟩
    refine hv.congr (htable p (hview t p hl)) (fun m hm => htable m ?_) fun _ _ _ _ hs => hs
    rintro rfl
    exact hevents t p hl hm
  refine ⟨hr, fun n => ?_, fun role t name f hs => ?_, ho.views_of_retains hr⟩
  · rw [hsize, set, table_modifyTable]
    split
    · exact (ho.entries _).set trivial (fun _ => trivial) hk hv
    · exact ho.entries n
  · rw [hsize]
    exact ho.served role t name f hs

end Heap

/-! ## Making views -/

namespace Library.Modules

open Heap

variable {h : Heap} {t n : Nat} {name : Bytes} {u : Table} {i a p l : Value}

/-- The metatable of a view. -/
def viewEvents (index assign pairs length : Value) : List (String × Value) :=
  [("__index", index), ("__newindex", assign), ("__pairs", pairs), ("__len", length),
    ("__metatable", .bool false)]

/-- An empty table is a view once its metatable has functions that serve one. -/
theorem isView_newTable (hi : h.Serves .index t name (u.getText "__index"))
    (ha : h.Serves .assign t name (u.getText "__newindex"))
    (hp : h.Serves .pairs t name (u.getText "__pairs")) :
    ((h.newTable u).2.newTable { metatable := some h.tables.size }).2.IsView t
      (h.newTable u).2.tables.size name := by
  generalize hh : ((h.newTable u).2.newTable { metatable := some h.tables.size }).2 = h'
  have hlt : h.tables.size < (h.newTable u).2.tables.size :=
    Nat.lt_of_lt_of_eq (Nat.lt_succ_self _) (size_newTable h u).symm
  have hview : h'.table (h.newTable u).2.tables.size = { metatable := some h.tables.size } := by
    rw [← hh, table_newTable_self]
  -- the metatable comes first and the view right behind it
  have hmeta : ∀ event, h'.metamethod (.table (h.newTable u).2.tables.size) event = u.getText event := by
    intro event
    rw [metamethod_table, hview]
    dsimp only
    rw [← hh, table_newTable, if_neg (Nat.ne_of_lt hlt), table_newTable_self]
  have hserves : ∀ role event, h.Serves role t name (u.getText event) →
      h'.Serves role t name (h'.metamethod (.table (h.newTable u).2.tables.size) event) := by
    intro role event hs
    rw [hmeta, ← hh]
    exact hs
  refine ⟨fun k => ?_, hserves _ _ hi, hserves _ _ ha, hserves _ _ hp⟩
  rw [hview]
  exact get_empty k

/-- What making a view comes to: a table that is the view on record, with all views that there were. -/
structure Made (n : Nat) (h : Heap) (t p : Nat) (name : Bytes) (h' : Heap) : Prop where
  retains : h.Retains h'
  orderly : h'.OrderlyTo n
  recorded : h'.views.lookup t = some p
  isView : h'.IsView t p name

/-- Making an empty table the view of a table that has none. -/
theorem made_newView {h₀ : Heap} (hr : h₀.Retains h) (ho : h.OrderlyTo n) (ht : t < h₀.tables.size)
    (hl : h.views.lookup t = none) (hi : h.Serves .index t name i) (ha : h.Serves .assign t name a)
    (hp : h.Serves .pairs t name p) (hlen : h.Serves .length t name l) :
    let (m, h₁) := h.newTable (((((({} : Table).setText "__index" i).setText "__newindex" a).setText
      "__pairs" p).setText "__len" l).setText "__metatable" (.bool false))
    let (proxy, h₂) := h₁.newTable { metatable := some m }
    let made : Value × Heap := (.table proxy, { h₂ with views := (t, proxy) :: h₂.views })
    ∃ p, made.1 = .table p ∧ p = h.tables.size + 1 ∧ made.2.tables.size = h.tables.size + 2 ∧
      Made n h₀ t p name made.2 := by
  generalize hu : ((((({} : Table).setText "__index" i).setText "__newindex" a).setText
      "__pairs" p).setText "__len" l).setText "__metatable" (.bool false) = u
  have htable : u = Sandbox.tableOf (viewEvents i a p l) := by
    rw [← hu]
    simp only [Sandbox.tableOf, viewEvents, List.foldl_cons, List.foldl_nil]
  have hnative : ∀ {role f}, h.Serves role t name f → f.Below n ∧ f.isNil = false := by
    rintro role _ ⟨n, rfl, -⟩
    exact ⟨trivial, rfl⟩
  have hall : ∀ f ∈ viewEvents i a p l, f.2.Below n ∧ f.2.isNil = false := by
    simp only [viewEvents, List.forall_mem_cons]
    exact ⟨hnative hi, hnative ha, hnative hp, hnative hlen, ⟨trivial, rfl⟩, List.forall_mem_nil _⟩
  -- the names of the events differ, so each finds its own function
  have hget : ∀ {event f}, (event, f) ∈ viewEvents i a p l → u.getText event = f := by
    intro event f hf
    rw [htable]
    exact Sandbox.getText_tableOf_of_mem (fun f hf => (hall f hf).2) (by simp [viewEvents]) hf
  have heach : u.Each (Value.Below n) (Value.Below n) := by
    rw [htable]
    exact Table.Each.setTexts Table.each_empty trivial (fun _ => trivial) (fun _ => trivial)
      fun f hf => (hall f hf).1
  have hindex : u.getText "__index" = i := hget (.head _)
  have hassign : u.getText "__newindex" = a := hget (.tail _ (.head _))
  have hpairs : u.getText "__pairs" = p := hget (.tail _ (.tail _ (.head _)))
  have hview : ((h.newTable u).2.newTable { metatable := some h.tables.size }).2.IsView t
      (h.newTable u).2.tables.size name :=
    isView_newTable (hindex ▸ hi) (hassign ▸ ha) (hpairs ▸ hp)
  have hne : t ≠ (h.newTable u).2.tables.size :=
    Nat.ne_of_lt (Nat.lt_of_lt_of_le ht (hr.trans (retains_newTable h u)).size)
  have hretains := (hr.trans (retains_newTable h u)).trans
    (retains_newTable _ { metatable := some h.tables.size })
  have horderly := (ho.newTable heach).newTable (u := { metatable := some h.tables.size })
    (Table.each_empty.withMetatable _)
  exact ⟨_, rfl, size_newTable h u, (size_newTable _ _).trans (congrArg (· + 1) (size_newTable h u)),
    hretains.trans (retains_record hl), horderly.record hl hne hview, List.lookup_cons_self,
    ⟨hview.1, hview.2, hview.3, hview.4⟩⟩

/-- The view of a table that has one. -/
theorem view_of_lookup {p : Nat} (hl : h.views.lookup t = some p) (name : Bytes) :
    view t name h = (.table p, h) := by
  unfold view
  rw [hl]

/-- The view of a table that has none is the second table after all others. -/
theorem made_view (ho : h.OrderlyTo n) (ht : t < h.tables.size) (hl : h.views.lookup t = none)
    (name : Bytes) :
    ∃ p, (view t name h).1 = .table p ∧ p = h.tables.size + 1 ∧
      (view t name h).2.tables.size = h.tables.size + 2 ∧ Made n h t p name (view t name h).2 := by
  have hnative : ∀ {h' : Heap} (role : ViewRole), h.Retains h' → h'.OrderlyTo n →
      (h'.newNative (.view role t name)).2.OrderlyTo n := fun role hr ho =>
    ho.newNative fun _ _ _ he => by
      cases he
      exact Nat.lt_of_lt_of_le ht hr.size
  -- four functions, one after the other; each is there for good
  have hr₁ := retains_newNative h (.view .index t name)
  have hr₂ := retains_newNative (h.newNative (.view .index t name)).2 (.view .assign t name)
  have hr₃ := retains_newNative ((h.newNative (.view .index t name)).2.newNative (.view .assign t name)).2
    (.view .pairs t name)
  have hr₄ := retains_newNative (((h.newNative (.view .index t name)).2.newNative
    (.view .assign t name)).2.newNative (.view .pairs t name)).2 (.view .length t name)
  have ho₄ := hnative .length ((hr₁.trans hr₂).trans hr₃) (hnative .pairs (hr₁.trans hr₂)
    (hnative .assign hr₁ (hnative .index (.refl h) ho)))
  unfold view
  rw [hl]
  exact made_newView (((hr₁.trans hr₂).trans hr₃).trans hr₄) ho₄ ht hl
    (((hr₂.trans hr₃).trans hr₄).serves _ _ _ _ (serves_newNative ..))
    ((hr₃.trans hr₄).serves _ _ _ _ (serves_newNative ..))
    (hr₄.serves _ _ _ _ (serves_newNative ..)) (serves_newNative ..)

/-- Showing a table leaves all views alone, and the table has a view then. -/
theorem keeps_view (ho : h.Orderly) (ht : t < h.tables.size) (name : Bytes) :
    ∃ p, (view t name h).1 = .table p ∧ (view t name h).2.views.lookup t = some p ∧
      h.Keeps (view t name h).2 := by
  cases hl : h.views.lookup t with
  | some p =>
    rw [view_of_lookup hl]
    exact ⟨p, rfl, hl, ho.keeps⟩
  | none =>
    obtain ⟨p, hp, -, -, hmade⟩ := made_view ho ht hl name
    exact ⟨p, hp, hmade.recorded, hmade.retains, hmade.orderly.mono hmade.retains.size⟩

end Library.Modules

end OscHost.Script
