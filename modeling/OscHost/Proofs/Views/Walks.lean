import OscHost.Proofs.Views.Paths
/-!
  Walks through views.

  A script that has a view reads its entries and traverses it, goes on from the views that it comes by,
  and does other things in between.  Whatever it comes by on such a walk is no table but a view on record
  (`Walk.pictured`), and a view on record is read-only (`Heap.ReadOnly`).
-/

namespace OscHost.Script

open Lib Library.Modules

/-- One step from a view: reading an entry, or going on from a key with the function that traversing the
    view starts with. -/
inductive Step (others : Answers) (p : Nat) (h : Heap) (v : Value) (h' : Heap) : Prop
  | index {k : Value} {origin : Option Origin}
      (read : Ends others (reading (.table p) k origin) h (.ok [v]) h') : Step others p h v h'
  | pairs {f state first k key : Value} {h₁ h₂ : Heap}
      (begun : Ends others (Library.Base.pairs [.table p]) h (.ok [f, state, first]) h₁)
      (later : h₁.Keeps h₂) (next : Calls others f [state, k] h₂ (.ok [key, v]) h') : Step others p h v h'

/-- The values that a walk has come by, starting with a view and stepping from any view among them.
    Between the steps may happen what leaves the views alone. -/
inductive Walk (others : Answers) (start : Nat) (h₀ : Heap) : List Value → Heap → Prop
  | start : Walk others start h₀ [.table start] h₀
  | wait {held : List Value} {h h' : Heap} (before : Walk others start h₀ held h) (later : h.Keeps h') :
      Walk others start h₀ held h'
  | step {held : List Value} {h h' : Heap} {p : Nat} {v : Value} (before : Walk others start h₀ held h)
      (has : .table p ∈ held) (step : Step others p h v h') : Walk others start h₀ (v :: held) h'

variable {others : Answers} {h₀ h h' h₁ : Heap} {t p start : Nat} {name : Bytes} {k u v : Value}

theorem Heap.Pictures.mono (hp : h.Pictures u v) (hr : h.Retains h') : h'.Pictures u v := by
  cases hp with
  | plain hu => exact .plain hu
  | table apart recorded => exact .table apart (hr.lookup _ _ recorded)

theorem Heap.Pictures.of_table (hp : h.Pictures u (.table p)) :
    ∃ t, u = .table t ∧ t ≠ p ∧ h.views.lookup t = some p := by
  cases hp with
  | plain hu => exact absurd rfl (hu p)
  | table apart recorded => exact ⟨_, rfl, apart, recorded⟩

theorem keeps_newNative_step (ho : h.Orderly) (ht : t < h.tables.size) (name : Bytes) :
    h.Keeps (h.newNative (.view .step t name)).2 :=
  ⟨Heap.retains_newNative h _, ho.newNative fun _ _ _ he => by
    cases he
    exact ht⟩

/-- The entry after a key is a value of the heap. -/
theorem lies_of_next (ho : h.Orderly) {key : Value}
    (hn : Ends others (Library.Base.next [.table t, k]) h (.ok [key, u]) h) : u.Lies h := by
  obtain ⟨depth, s, hx⟩ := hn
  obtain ⟨r, he, -, -, hr⟩ | ⟨e, he, -⟩ := (settled_next ho t k).comes hx
  · cases he
    obtain hr | ⟨_, _, hr, -, hu⟩ := hr
    · cases hr
    · cases hr
      exact hu
  · cases he

section

variable (hd : others.Discreet)
include hd

/-- A step from a view leaves all views alone and yields what the value behind it is to be shown as. -/
theorem Step.pictured (ho : h.Orderly) (hv : h.IsView t p name) (hl : h.views.lookup t = some p)
    (hs : Step others p h v h') : h.Keeps h' ∧ ∃ u, h'.Pictures u v := by
  cases hs with
  | index read =>
    obtain ⟨u, h₁, hu, hshown⟩ := (ends_reading_view hd ho hv _).mp read
    obtain ⟨hk, hlies⟩ := keeps_of_reading hd ho hu
    obtain ⟨hk', hp⟩ := hshown.pictures hd hk.orderly hlies
    exact ⟨hk.trans hk', u, hp⟩
  | pairs begun later next =>
    obtain ⟨he, rfl⟩ := (ends_pairs_view hv hl).mp begun
    cases he
    have hk := (keeps_newNative_step ho (ho.served _ _ _ _ hv.index) name).trans later
    have hserves := later.serves _ _ _ _ (Heap.serves_newNative h .step t name)
    obtain ⟨-, he, rfl⟩ | ⟨key, u, w, hn, he, hshown⟩ := (calls_step hd later.orderly hserves).mp next
    · cases he
      exact ⟨hk, .nil, .plain nofun⟩
    · cases he
      obtain ⟨hk', hp⟩ := hshown.pictures hd later.orderly (lies_of_next later.orderly hn)
      exact ⟨hk.trans hk', u, hp⟩

/-- Whatever a walk comes by is no table but a view on record, and stays one. -/
theorem Walk.pictured (ho : h₀.Orderly) (hl : h₀.views.lookup t = some start) {held : List Value}
    (hw : Walk others start h₀ held h) : h₀.Keeps h ∧ ∀ v ∈ held, ∃ u, h.Pictures u v := by
  induction hw with
  | start =>
    refine ⟨ho.keeps, ?_⟩
    rw [List.forall_mem_singleton]
    exact ⟨.table t, .table (ho.views t start hl).1 hl⟩
  | wait _ later ih =>
    exact ⟨ih.1.trans later, fun v hv => (ih.2 v hv).imp fun _ hp => hp.mono later.toRetains⟩
  | step _ has step ih =>
    obtain ⟨hk, hheld⟩ := ih
    obtain ⟨_, hp⟩ := hheld _ has
    obtain ⟨t, rfl, -, hrecorded⟩ := hp.of_table
    obtain ⟨-, name, hview⟩ := hk.orderly.views t _ hrecorded
    obtain ⟨hk', hshown⟩ := step.pictured hd hk.orderly hview hrecorded
    refine ⟨hk.trans hk', List.forall_mem_cons.mpr ⟨hshown, fun v hv => ?_⟩⟩
    exact (hheld v hv).imp fun _ hp => hp.mono hk'.toRetains

end

/-! ## Read-only views -/

/-- What operations on the view of a table do. -/
structure Heap.ReadOnly (others : Answers) (h : Heap) (t p : Nat) (name : Bytes) : Prop where
  /-- It is the view of no other table. -/
  only : ∀ t', h.views.lookup t' = some p → t' = t
  /-- Reading an entry yields what is there in the table, as it is shown. -/
  index : ∀ k origin v h', Ends others (reading (.table p) k origin) h (.ok [v]) h' ↔
    ∃ u h₁, Ends others (reading (.table t) k) h (.ok [u]) h₁ ∧ ShownAs others name k u h₁ v h' ∧
      h'.Pictures u v
  /-- Reading an entry fails where reading it in the table does, or where a table is there and the key
      cannot be written out. -/
  indexError : ∀ k origin e h', Ends others (reading (.table p) k origin) h (.error e) h' ↔
    Ends others (reading (.table t) k) h (.error e) h' ∨
      ∃ i h₁, Ends others (reading (.table t) k) h (.ok [.table i]) h₁ ∧
        Ends others (Library.Base.tostring [k]) h₁ (.error e) h'
  /-- Traversing it starts with a function that serves the table. -/
  pairs : ∀ r h', Ends others (Library.Base.pairs [.table p]) h r h' ↔
    r = .ok [.native h.natives.size, .table p, .nil] ∧ h' = (h.newNative (.view .step t name)).2
  /-- Such a function yields the next key of the table as it is and its value as it is shown. -/
  next : ∀ f, h.Serves .step t name f → ∀ state k values h',
    Calls others f [state, k] h (.ok values) h' ↔
      (Ends others (Library.Base.next [.table t, k]) h (.ok [.nil]) h ∧ values = [.nil, .nil] ∧
        h' = h) ∨
      ∃ key u v, Ends others (Library.Base.next [.table t, k]) h (.ok [key, u]) h ∧
        values = [key, v] ∧ ShownAs others name key u h v h' ∧ h'.Pictures u v
  /-- No step takes a view away. -/
  keeps : ∀ v h', Step others p h v h' → h.Keeps h'
  /-- An assignment fails with the error about it, or because the key cannot be written out, and leaves
      behind what writing out the key does. -/
  assign : ∀ k v origin r h', Ends others (assigning (.table p) k v origin) h r h' →
    (∃ text place, Ends others (Library.Base.tostring [k]) h (.ok [.string text]) h' ∧
      r = .error (.string (place ++ refusal name text))) ∨
      ∃ e, Ends others (Library.Base.tostring [k]) h (.error e) h' ∧ r = .error e
  /-- Where the key can be written out, the assignment does fail with the error about it. -/
  refused : ∀ k v origin text h', Ends others (Library.Base.tostring [k]) h (.ok [.string text]) h' →
    ∃ place, Ends others (assigning (.table p) k v origin) h
      (.error (.string (place ++ refusal name text))) h'
  /-- Where it cannot, the assignment does fail with the error of writing it out. -/
  failed : ∀ k v origin e h', Ends others (Library.Base.tostring [k]) h (.error e) h' →
    Ends others (assigning (.table p) k v origin) h (.error e) h'
  /-- Where no function writes out the key, it fails so and in no other way, and nothing changes. -/
  unchanged : ∀ k, h.metamethod k "__tostring" = .nil → ∀ v origin,
    (∃ r h', Ends others (assigning (.table p) k v origin) h r h') ∧
      ∀ r h', Ends others (assigning (.table p) k v origin) h r h' →
        h' = h ∧ ∃ place, r = .error (.string (place ++ refusal name (plainText h k)))

/-- A table is the view of one table at most. -/
theorem Heap.Orderly.source_unique (ho : h.Orderly) {t' : Nat} (hl : h.views.lookup t = some p)
    (hl' : h.views.lookup t' = some p) : t' = t := by
  obtain ⟨-, name, hv⟩ := ho.views t p hl
  obtain ⟨-, name', hv'⟩ := ho.views t' p hl'
  exact (hv'.index.unique hv.index).2.1

/-- In an orderly heap the views on record are read-only. -/
theorem Heap.Orderly.readOnly (hd : others.Discreet) (ho : h.Orderly) (hv : h.IsView t p name)
    (hl : h.views.lookup t = some p) : h.ReadOnly others t p name := by
  -- with no `__tostring` on the key, writing it out changes nothing and cannot fail
  have hplain : ∀ k, h.metamethod k "__tostring" = .nil → ∀ v origin r h',
      Ends others (assigning (.table p) k v origin) h r h' →
        h' = h ∧ ∃ place, r = .error (.string (place ++ refusal name (plainText h k))) := by
    intro k hk v origin r h' hx
    obtain ⟨text, place, htext, rfl⟩ | ⟨e, htext, -⟩ := ends_assigning_view hd ho hv origin hx
    · obtain ⟨he, rfl⟩ := (ends_tostring_plain hk).mp htext
      cases he
      exact ⟨rfl, place, rfl⟩
    · cases ((ends_tostring_plain hk).mp htext).1
  exact {
    only := fun t' hl' => ho.source_unique hl hl'
    index := fun k origin v h' => by
      rw [ends_reading_view hd ho hv]
      refine exists_congr fun u => exists_congr fun h₁ => and_congr_right fun hu => ?_
      obtain ⟨hk, hlies⟩ := keeps_of_reading hd ho hu
      exact (and_iff_left_of_imp fun hshown => (hshown.pictures hd hk.orderly hlies).2).symm
    indexError := fun k origin e h' => ends_reading_view_error hd ho hv origin
    pairs := fun r h' => ends_pairs_view hv hl
    next := fun f hf state k values h' => by
      rw [calls_step hd ho hf]
      refine or_congr_right (exists_congr fun key => exists_congr fun u => exists_congr fun v => ?_)
      refine and_congr_right fun hn => and_congr_right fun _ => ?_
      exact (and_iff_left_of_imp fun hshown => (hshown.pictures hd ho (lies_of_next ho hn)).2).symm
    keeps := fun v h' hs => (hs.pictured hd ho hv hl).1
    assign := fun k v origin r h' => ends_assigning_view hd ho hv origin
    refused := fun k v origin text h' => exists_ends_assigning_view hd ho hv origin
    failed := fun k v origin e h' => ends_assigning_view_error hd ho hv origin
    unchanged := fun k hk v origin => by
      refine ⟨?_, hplain k hk v origin⟩
      have htext : Ends others (Library.Base.tostring [k]) h (.ok [.string (plainText h k)]) h :=
        (ends_tostring_plain hk).mpr ⟨rfl, rfl⟩
      obtain ⟨place, hx⟩ := exists_ends_assigning_view (v := v) hd ho hv origin htext
      exact ⟨_, _, hx⟩ }

end OscHost.Script
