import OscHost.Proofs.Views.Serving
import OscHost.Script.Machine
/-!
  Access paths through views.

  What an operation on a view comes to is what the same operation on the table behind it comes to, with
  views in place of tables, or the error that the view raises.
-/

namespace OscHost.Script

/-! ## Operations on tables -/

/-- Reading an entry, as a function. -/
def Lib.reading (o k : Value) (origin : Option Origin := none) : Lib (List Value) := do
  return [← Lib.index o k origin]

/-- Setting an entry, as a function. -/
def Lib.assigning (o k v : Value) (origin : Option Origin := none) : Lib (List Value) := do
  Lib.setIndex o k v origin
  return []

/-- What a function can end with where functions of views serve their tables and others answer as they
    do. -/
def Lib.Ends (others : Answers) (x : Lib (List Value)) (h : Heap) (r : Except Value (List Value))
    (h' : Heap) : Prop :=
  ∃ depth s, (x.action s h).Comes (answers others depth) r h'

/-- What a call can end with. -/
def Calls (others : Answers) (f : Value) (args : List Value) (h : Heap)
    (r : Except Value (List Value)) (h' : Heap) : Prop :=
  ∃ depth, answers others depth f args h r h'

open Lib Library.Modules

variable {others : Answers} {h h' h₁ : Heap} {t p : Nat} {name : Bytes} {k v : Value}
  {r : Except Value (List Value)} {role : ViewRole} {f : Value} {args : List Value}

section

variable {α : Type} {x : Lib α} {g : α → List Value} {a : α} {e : Value} {Q : α → Heap → Prop}
  {F : Heap → Prop}
  (hx : ∀ depth s, x.Settled (answers others depth) s h Q F)
include hx

/-- What ends with a value gives it from some depth on. -/
theorem gives_of_ends (hg : ∀ a b, g a = g b → a = b)
    (he : Ends others (do return g (← x)) h (.ok (g a)) h') :
    ∃ n, ∀ depth, n ≤ depth → x.Gives (answers others depth) h a h' := by
  obtain ⟨n, s, hc⟩ := he
  refine ⟨n, fun depth hn => ?_⟩
  obtain ⟨b, hb, hgives, -⟩ | ⟨e, hr, -⟩ :=
    (hx depth s).comes_map (hc.mono fun _ _ _ _ _ => answers_mono hn)
  · rwa [hg a b (Except.ok.inj hb)]
  · cases hr

theorem fails_of_ends (he : Ends others (do return g (← x)) h (.error e) h') :
    ∃ n s, ∀ depth, n ≤ depth → x.Fails (answers others depth) s h e h' := by
  obtain ⟨n, s, hc⟩ := he
  refine ⟨n, s, fun depth hn => ?_⟩
  obtain ⟨b, hb, -⟩ | ⟨e', hr, hfails, -⟩ :=
    (hx depth s).comes_map (hc.mono fun _ _ _ _ _ => answers_mono hn)
  · cases hb
  · cases hr
    exact hfails

end

theorem Lib.Gives.ends {α : Type} {x : Lib α} {a : α} {depth : Nat}
    (hx : x.Gives (answers others depth) h a h') (g : α → List Value) :
    Ends others (do return g (← x)) h (.ok (g a)) h' :=
  ⟨depth, Machine.hostSite, Gives.comes (x := do return g (← x)) (hx.bind gives_pure)⟩

theorem Lib.Fails.ends {α : Type} {x : Lib α} {e : Value} {depth : Nat} {s : Site}
    (hx : x.Fails (answers others depth) s h e h') (g : α → List Value) :
    Ends others (do return g (← x)) h (.error e) h' :=
  ⟨depth, s, Fails.comes hx.bind⟩

/-! ## What a view does -/

/-- What a value is shown as under a key, after the heap in which it was read: itself, or the view of
    the table that it is, for which the key is written out. -/
inductive ShownAs (others : Answers) (name : Bytes) (key : Value) :
    Value → Heap → Value → Heap → Prop
  | plain {u : Value} {h : Heap} (hu : ∀ i, u ≠ .table i) : ShownAs others name key u h u h
  | table {i : Nat} {text : Bytes} {h h₁ : Heap}
      (written : Ends others (Library.Base.tostring [key]) h (.ok [.string text]) h₁) :
      ShownAs others name key (.table i) h (view i (name ++ ".".toUTF8 ++ text) h₁).1
        (view i (name ++ ".".toUTF8 ++ text) h₁).2

/-- Whether a value is what another one is to be shown as. -/
inductive Heap.Pictures (h : Heap) : Value → Value → Prop
  | plain {u : Value} (hu : ∀ i, u ≠ .table i) : Pictures h u u
  | table {t p : Nat} (apart : t ≠ p) (recorded : h.views.lookup t = some p) :
      Pictures h (.table t) (.table p)

/-- A function of a view answers what serving the view comes to. -/
theorem answers_view (hs : h.Serves role t name f) {depth : Nat} :
    answers others (depth + 1) f args h r h' ↔
      ∃ s, ((callView role t name args).action s h).Comes (answers others depth) r h' := by
  constructor
  · rintro (⟨role', t', name', s, hs', hx⟩ | ⟨hno, -⟩)
    · obtain ⟨rfl, rfl, rfl⟩ := hs.unique hs'
      rw [invoke_of_serves hs] at hx
      exact ⟨s, hx⟩
    · exact absurd hs (hno role t name)
  · rintro ⟨s, hx⟩
    refine .inl ⟨role, t, name, s, hs, ?_⟩
    rwa [invoke_of_serves hs]

/-- Whatever it has answered, serving the view has come to at a depth below. -/
theorem comes_of_answers_view (hs : h.Serves role t name f) {depth : Nat}
    (ha : answers others depth f args h r h') :
    ∃ n s, ((callView role t name args).action s h).Comes (answers others n) r h' := by
  cases depth with
  | zero => exact ha.elim
  | succ n => exact ⟨n, (answers_view hs).mp ha⟩

theorem lookup_view (hv : h.IsView t p name) (k : Value) :
    lookup h (.table p) k = .viaCall (h.metamethod (.table p) "__index") := by
  obtain ⟨n, hn, -⟩ := hv.index
  obtain ⟨-, m, hm, -⟩ := hv.inside
  have hfunction : (h.table m).getText "__index" = .native n := by
    rw [Heap.metamethod_table, hm] at hn
    exact hn
  rw [hn]
  unfold lookup
  cases Key.ofValue k with
  | ok e => simp only [hv.vacant e, hm, hfunction]
  | error _ => simp only [hm, hfunction]

theorem assignment_view (hv : h.IsView t p name) (k : Value) :
    assignment h (.table p) k = .viaCall (h.metamethod (.table p) "__newindex") := by
  obtain ⟨n, hn, -⟩ := hv.assign
  obtain ⟨-, m, hm, -⟩ := hv.inside
  have hfunction : (h.table m).getText "__newindex" = .native n := by
    rw [Heap.metamethod_table, hm] at hn
    exact hn
  rw [hn]
  unfold assignment
  dsimp only
  rw [hm]
  dsimp only
  rw [hfunction]
  cases Key.ofValue k with
  | ok k => exact if_neg (by dsimp only; rw [hv.vacant]; decide)
  | error _ => rfl

/-- Reading an entry of a view calls its function. -/
theorem reading_view (hv : h.IsView t p name) (k : Value) (origin : Option Origin) (s : Site) :
    (reading (.table p) k origin).action s h =
      callMeta "__index" (h.metamethod (.table p) "__index") [.table p, k] s
        (fun values h => .done [firstOf values] h) h := by
  show indexFrom (.table p) k origin (1999 + 1) s _ h = _
  unfold indexFrom
  simp only [bind, Lib.read, lookup_view hv]
  rfl

theorem assigning_view (hv : h.IsView t p name) (k v : Value) (origin : Option Origin) (s : Site) :
    (assigning (.table p) k v origin).action s h =
      callMeta "__newindex" (h.metamethod (.table p) "__newindex") [.table p, k, v] s
        (fun _ h => .done [] h) h := by
  show setIndexFrom (.table p) k v origin (1999 + 1) s _ h = _
  unfold setIndexFrom
  simp only [bind, Lib.read, assignment_view hv]
  rfl

theorem pairs_view (hv : h.IsView t p name) (s : Site) :
    (Library.Base.pairs [.table p]).action s h =
      .call (h.metamethod (.table p) "__pairs") [.table p] none false h
        (fun r h => .done [r.getD 0 .nil, r.getD 1 .nil, r.getD 2 .nil] h) := by
  obtain ⟨n, hn, -⟩ := hv.pairs
  unfold Library.Base.pairs Lib.action
  have harg : Args.get [.table p] 1 = .table p := rfl
  show bind (Lib.read _) _ s Action.done h = _
  simp only [bind, Lib.read, harg, hn]
  rfl

/-- What goes on with a value as it is shown. -/
theorem comes_shown {calls : Answers} (hd : calls.Discreet) (ho : h.Orderly) {u : Value} {s : Site}
    {kont : Value → Heap → Action} (hx : (shown name k u s kont h).Comes calls r h') :
    ((∀ i, u ≠ .table i) ∧ (kont u h).Comes calls r h') ∨ ∃ i, u = .table i ∧
      ((∃ written h₁, (text k).Gives calls h written h₁ ∧
        (kont (view i (name ++ ".".toUTF8 ++ written) h₁).1
          (view i (name ++ ".".toUTF8 ++ written) h₁).2).Comes calls r h') ∨
      ∃ e, r = .error e ∧ (text k).Fails calls s h e h') := by
  unfold shown at hx
  split at hx
  · rename_i i
    refine .inr ⟨i, rfl, ?_⟩
    obtain ⟨written, h₁, hg, -, hk⟩ | ⟨e, rfl, hf, -⟩ := settled_text hd ho.keeps k _ _ _ hx
    · exact .inl ⟨written, h₁, hg, hk⟩
    · exact .inr ⟨e, rfl, hf⟩
  · rename_i hu
    exact .inl ⟨hu, hx⟩

theorem gives_shown_table {calls : Answers} {i : Nat} {written : Bytes}
    (hk : (text k).Gives calls h written h₁) :
    (shown name k (.table i)).Gives calls h (view i (name ++ ".".toUTF8 ++ written) h₁).1
      (view i (name ++ ".".toUTF8 ++ written) h₁).2 :=
  hk.bind (gives_update _)

theorem fails_shown_table {calls : Answers} {i : Nat} {s : Site} {e : Value}
    (hk : (text k).Fails calls s h e h') : (shown name k (.table i)).Fails calls s h e h' := hk.bind

theorem gives_shown_plain {calls : Answers} {u : Value} (hu : ∀ i, u ≠ .table i) :
    (shown name k u).Gives calls h u h := by
  cases u with
  | table i => exact absurd rfl (hu i)
  | _ => exact gives_pure

section

variable (hd : others.Discreet)
include hd

/-- The text of a key, as a function writes it. -/
theorem gives_text (ho : h.Orderly) {written : Bytes}
    (he : Ends others (Library.Base.tostring [k]) h (.ok [.string written]) h₁) :
    ∃ n, ∀ depth, n ≤ depth → (text k).Gives (answers others depth) h written h₁ :=
  gives_of_ends (g := fun written => [.string written])
    (fun depth _ => settled_text (discreet_answers hd depth) ho.keeps k)
    (fun _ _ he => Value.string.inj (List.head_eq_of_cons_eq he)) he

theorem fails_text (ho : h.Orderly) {e : Value}
    (he : Ends others (Library.Base.tostring [k]) h (.error e) h') :
    ∃ n s, ∀ depth, n ≤ depth → (text k).Fails (answers others depth) s h e h' :=
  fails_of_ends (g := fun written => [.string written])
    (fun depth _ => settled_text (discreet_answers hd depth) ho.keeps k) he

theorem gives_index (ho : h.Orderly) {o u : Value}
    (he : Ends others (reading o k) h (.ok [u]) h₁) :
    ∃ n, ∀ depth, n ≤ depth → (index o k).Gives (answers others depth) h u h₁ :=
  gives_of_ends (g := fun v => [v])
    (fun depth _ => settled_index (discreet_answers hd depth) ho.keeps)
    (fun _ _ he => List.head_eq_of_cons_eq he) he

theorem fails_index (ho : h.Orderly) {o e : Value} (he : Ends others (reading o k) h (.error e) h₁) :
    ∃ n s, ∀ depth, n ≤ depth → (index o k).Fails (answers others depth) s h e h₁ :=
  fails_of_ends (g := fun v => [v])
    (fun depth _ => settled_index (discreet_answers hd depth) ho.keeps) he

/-- Reading leaves the views alone and yields a value of the heap. -/
theorem keeps_of_reading (ho : h.Orderly) {o : Value} {origin : Option Origin}
    (he : Ends others (reading o k origin) h (.ok [v]) h₁) : h.Keeps h₁ ∧ v.Lies h₁ := by
  obtain ⟨depth, s, hx⟩ := he
  obtain ⟨w, hw, -, hk, hl⟩ | ⟨e, hr, -⟩ :=
    (settled_index (discreet_answers hd depth) ho.keeps).comes_map hx
  · cases hw
    exact ⟨hk, hl⟩
  · cases hr

theorem keeps_of_tostring (ho : h.Orderly)
    (he : Ends others (Library.Base.tostring [k]) h r h₁) : h.Keeps h₁ := by
  obtain ⟨depth, s, hx⟩ := he
  obtain ⟨_, -, -, hk⟩ | ⟨_, -, -, hk⟩ := (settled_text (discreet_answers hd depth) ho.keeps k).comes_map
    (g := fun written => [.string written]) hx
  · exact hk
  · exact hk

/-- What a value is shown as is no table but the view of the one that it is. -/
theorem ShownAs.pictures (ho : h.Orderly) {u : Value} (hu : u.Lies h)
    (hs : ShownAs others name k u h v h') : h.Keeps h' ∧ h'.Pictures u v := by
  cases hs with
  | plain hplain => exact ⟨ho.keeps, .plain hplain⟩
  | @table i written _ h₁ hwritten =>
    have hk := keeps_of_tostring hd ho hwritten
    obtain ⟨p, hp, hl, hk'⟩ := keeps_view hk.orderly (hk.toRetains.lies hu)
      (name ++ ".".toUTF8 ++ written)
    rw [hp]
    exact ⟨hk.trans hk', .table (hk'.orderly.views _ _ hl).1 hl⟩

/-- A value is shown as what serving it comes to. -/
theorem gives_shown (ho : h.Orderly) {u : Value} (hs : ShownAs others name k u h v h') :
    ∃ n, ∀ depth, n ≤ depth → (shown name k u).Gives (answers others depth) h v h' := by
  cases hs with
  | plain hu => exact ⟨0, fun _ _ => gives_shown_plain hu⟩
  | table written =>
    obtain ⟨n, hn⟩ := gives_text hd ho written
    exact ⟨n, fun depth hle => gives_shown_table (hn depth hle)⟩

/-- What ends with a value that serves a view ends with it as it is shown. -/
theorem shownAs_of_comes (ho : h.Orderly) {depth : Nat} {u : Value} {s : Site}
    {g : Value → List Value} {values : List Value}
    (hx : (shown name k u s (fun v h => .done (g v) h) h).Comes (answers others depth) (.ok values) h') :
    ∃ v, values = g v ∧ ShownAs others name k u h v h' := by
  obtain ⟨hu, hk⟩ | ⟨i, rfl, ⟨written, h₁, hg, hk⟩ | ⟨e, hr, -⟩⟩ :=
    comes_shown (discreet_answers hd depth) ho hx
  · cases hk
    exact ⟨u, rfl, .plain hu⟩
  · cases hk
    exact ⟨_, rfl, .table (hg.ends fun written => [.string written])⟩
  · cases hr

/-! ### Reading -/

/-- Reading an entry of a view yields what is there in the table behind it, as it is shown. -/
theorem ends_reading_view (ho : h.Orderly) (hv : h.IsView t p name) (origin : Option Origin) :
    Ends others (reading (.table p) k origin) h (.ok [v]) h' ↔
      ∃ u h₁, Ends others (reading (.table t) k) h (.ok [u]) h₁ ∧ ShownAs others name k u h₁ v h' := by
  constructor
  · rintro ⟨n, s, hx⟩
    rw [reading_view hv, comes_callMeta] at hx
    obtain ⟨values, h₁, ha, hdone⟩ | ⟨e, hr, -⟩ := hx
    · obtain ⟨n, s, hx⟩ := comes_of_answers_view hv.index ha
      obtain ⟨u, h₂, hg, ⟨hk, -⟩, hx⟩ | ⟨e, hr, -⟩ :=
        (settled_index (discreet_answers hd n) ho.keeps).comes_bind hx
      · obtain ⟨w, rfl, hs⟩ := shownAs_of_comes hd hk.orderly (g := fun v => [v]) hx
        cases hdone
        exact ⟨u, h₂, hg.ends fun u => [u], hs⟩
      · cases hr
    · cases hr
  · rintro ⟨u, h₁, hu, hs⟩
    obtain ⟨n, hn⟩ := gives_index hd ho hu
    obtain ⟨n', hn'⟩ := gives_shown hd (keeps_of_reading hd ho hu).1.orderly hs
    -- deep enough for reading and for showing, and one more for the function of the view
    refine ⟨max n n' + 1, Machine.hostSite, ?_⟩
    rw [reading_view hv, comes_callMeta]
    refine .inl ⟨[v], h', (answers_view hv.index).mpr ⟨Machine.hostSite, ?_⟩, .done⟩
    exact Gives.comes ((hn _ (Nat.le_max_left ..)).bind ((hn' _ (Nat.le_max_right ..)).bind gives_pure))

/-- It fails where reading the table does, or where the key of a table that is there cannot be written
    out. -/
theorem ends_reading_view_error (ho : h.Orderly) (hv : h.IsView t p name) (origin : Option Origin)
    {e : Value} :
    Ends others (reading (.table p) k origin) h (.error e) h' ↔
      Ends others (reading (.table t) k) h (.error e) h' ∨
        ∃ i h₁, Ends others (reading (.table t) k) h (.ok [.table i]) h₁ ∧
          Ends others (Library.Base.tostring [k]) h₁ (.error e) h' := by
  constructor
  · rintro ⟨n, s, hx⟩
    rw [reading_view hv, comes_callMeta] at hx
    obtain ⟨values, h₁, -, hdone⟩ | ⟨e', hr, ha⟩ := hx
    · cases hdone
    · cases hr
      obtain ⟨n, s, hx⟩ := comes_of_answers_view hv.index ha
      obtain ⟨u, h₂, hg, ⟨hk, -⟩, hx⟩ | ⟨e', hr, hf, -⟩ :=
        (settled_index (discreet_answers hd n) ho.keeps).comes_bind hx
      · obtain ⟨-, hdone⟩ | ⟨i, rfl, ⟨_, _, -, hdone⟩ | ⟨e', hr, hf⟩⟩ :=
          comes_shown (discreet_answers hd n) hk.orderly hx
        · cases hdone
        · cases hdone
        · cases hr
          exact .inr ⟨i, h₂, hg.ends fun u => [u], hf.ends fun written => [.string written]⟩
      · cases hr
        exact .inl (hf.ends fun u => [u])
  · rintro (hf | ⟨i, h₁, hu, hf⟩)
    · obtain ⟨n, s, hn⟩ := fails_index hd ho hf
      refine ⟨n + 1, s, ?_⟩
      rw [reading_view hv, comes_callMeta]
      exact .inr ⟨e, rfl, (answers_view hv.index).mpr ⟨s, (hn n (Nat.le_refl n)).bind.comes⟩⟩
    · obtain ⟨n, hn⟩ := gives_index hd ho hu
      obtain ⟨n', s, hn'⟩ := fails_text hd (keeps_of_reading hd ho hu).1.orderly hf
      refine ⟨max n n' + 1, s, ?_⟩
      rw [reading_view hv, comes_callMeta]
      refine .inr ⟨e, rfl, (answers_view hv.index).mpr ⟨s, ?_⟩⟩
      exact Fails.comes ((hn _ (Nat.le_max_left ..)).bind_fails
        (fails_shown_table (hn' _ (Nat.le_max_right ..))).bind)

/-! ### Traversing -/

omit hd in
theorem callView_pairs (hl : h.views.lookup t = some p) (s : Site) :
    (callView .pairs t name args).action s h =
      .done [.native h.natives.size, .table p, .nil] (h.newNative (.view .step t name)).2 := by
  have hview := view_of_lookup (h := (h.newNative (.view .step t name)).2) hl name
  unfold callView Lib.action
  simp only [bind, Lib.update, viewFunction, hview]
  rfl

omit hd in
/-- Traversing a view starts with a function that serves its table. -/
theorem ends_pairs_view (hv : h.IsView t p name) (hl : h.views.lookup t = some p) :
    Ends others (Library.Base.pairs [.table p]) h r h' ↔
      r = .ok [.native h.natives.size, .table p, .nil] ∧
        h' = (h.newNative (.view .step t name)).2 := by
  constructor
  · rintro ⟨n, s, hx⟩
    rw [pairs_view hv, Action.comes_call] at hx
    obtain ⟨values, h₁, ha, hdone⟩ | ⟨e, -, ha⟩ := hx
    · obtain ⟨_, s, hx⟩ := comes_of_answers_view hv.pairs ha
      rw [callView_pairs hl] at hx
      cases hx
      cases hdone
      exact ⟨rfl, rfl⟩
    · obtain ⟨_, s, hx⟩ := comes_of_answers_view hv.pairs ha
      rw [callView_pairs hl] at hx
      cases hx
  · rintro ⟨rfl, rfl⟩
    refine ⟨1, Machine.hostSite, ?_⟩
    rw [pairs_view hv, Action.comes_call]
    refine .inl ⟨[_, _, _], _, (answers_view hv.pairs).mpr ⟨Machine.hostSite, ?_⟩, .done⟩
    rw [callView_pairs hl]
    exact .done

omit hd in
theorem gives_next (ho : h.Orderly) {entry : List Value}
    (he : Ends others (Library.Base.next [.table t, k]) h (.ok entry) h) :
    ∃ n, ∀ depth, n ≤ depth →
      (Library.Base.next [.table t, k]).Gives (answers others depth) h entry h := by
  obtain ⟨n, s, hx⟩ := he
  refine ⟨n, fun depth hle => ?_⟩
  obtain ⟨_, he, hg, -⟩ | ⟨_, he, -⟩ :=
    (settled_next ho t k).comes (hx.mono fun _ _ _ _ _ => answers_mono hle)
  · cases he
    exact hg
  · cases he

/-- Going on from a key yields the next entry of the table, as it is shown under its key, or nil after
    the last one. -/
theorem calls_step (ho : h.Orderly) (hs : h.Serves .step t name f) {state : Value} {values : List Value} :
    Calls others f [state, k] h (.ok values) h' ↔
      (Ends others (Library.Base.next [.table t, k]) h (.ok [.nil]) h ∧ values = [.nil, .nil] ∧ h' = h) ∨
      ∃ key u v, Ends others (Library.Base.next [.table t, k]) h (.ok [key, u]) h ∧
        values = [key, v] ∧ ShownAs others name key u h v h' := by
  constructor
  · rintro ⟨_, ha⟩
    obtain ⟨n, s, hx⟩ := comes_of_answers_view hs ha
    -- the entry is found in the heap as it is; only showing its value may change it
    obtain ⟨r, h₁, hg, ⟨rfl, hr⟩, hx⟩ | ⟨e, hr, -⟩ := (settled_next ho t k).comes_bind hx
    · have hnext : Ends others (Library.Base.next [.table t, k]) h (.ok r) h :=
        ⟨n, Machine.hostSite, hg.comes⟩
      obtain rfl | ⟨key, u, rfl, -⟩ := hr
      · cases hx
        exact .inl ⟨hnext, rfl, rfl⟩
      · obtain ⟨v, rfl, hshown⟩ := shownAs_of_comes hd ho (g := fun v => [key, v]) hx
        exact .inr ⟨key, u, v, hnext, rfl, hshown⟩
    · cases hr
  · rintro (⟨hnext, rfl, rfl⟩ | ⟨key, u, v, hnext, rfl, hshown⟩)
    · obtain ⟨n, hn⟩ := gives_next ho hnext
      refine ⟨n + 1, (answers_view hs).mpr ⟨Machine.hostSite, ?_⟩⟩
      exact Gives.comes ((hn n (Nat.le_refl n)).bind gives_pure)
    · obtain ⟨n, hn⟩ := gives_next ho hnext
      obtain ⟨n', hn'⟩ := gives_shown hd ho hshown
      refine ⟨max n n' + 1, (answers_view hs).mpr ⟨Machine.hostSite, ?_⟩⟩
      exact Gives.comes ((hn _ (Nat.le_max_left ..)).bind
        ((hn' _ (Nat.le_max_right ..)).bind gives_pure))

/-! ### Assigning -/

/-- What the error of an assignment says, after the position of who assigns. -/
def refusal (name key : Bytes) : Bytes :=
  "policy violation: ".toUTF8 ++ name ++ ".".toUTF8 ++ key ++ " is read-only".toUTF8

/-- An assignment to a view fails, either with the error about it or because the key cannot be written
    out, and all it leaves behind is what writing out the key does. -/
theorem ends_assigning_view (ho : h.Orderly) (hv : h.IsView t p name) (origin : Option Origin)
    (hx : Ends others (assigning (.table p) k v origin) h r h') :
    (∃ written place, Ends others (Library.Base.tostring [k]) h (.ok [.string written]) h' ∧
      r = .error (.string (place ++ refusal name written))) ∨
      ∃ e, Ends others (Library.Base.tostring [k]) h (.error e) h' ∧ r = .error e := by
  obtain ⟨n, s, hx⟩ := hx
  -- the function of the view answers with an error, and it does so by writing out the key first
  have hanswer : ∀ {r}, answers others n (h.metamethod (.table p) "__newindex") [.table p, k, v] h r h' →
      (∃ written place, Ends others (Library.Base.tostring [k]) h (.ok [.string written]) h' ∧
        r = .error (.string (place ++ refusal name written))) ∨
        ∃ e, Ends others (Library.Base.tostring [k]) h (.error e) h' ∧ r = .error e := by
    intro r ha
    obtain ⟨n, s, hx⟩ := comes_of_answers_view hv.assign ha
    obtain ⟨written, h₁, hg, -, hx⟩ | ⟨e, rfl, hf, -⟩ :=
      (settled_text (discreet_answers hd n) ho.keeps k).comes_bind hx
    · cases hx
      exact .inl ⟨written, s.position 1, hg.ends fun written => [.string written], rfl⟩
    · exact .inr ⟨e, hf.ends fun written => [.string written], rfl⟩
  rw [assigning_view hv, comes_callMeta] at hx
  obtain ⟨values, h₁, ha, hdone⟩ | ⟨e, rfl, ha⟩ := hx
  · cases hdone
    obtain ⟨_, _, -, hr⟩ | ⟨_, -, hr⟩ := hanswer ha <;> cases hr
  · exact hanswer ha

/-- Where the key can be written out, the assignment does fail. -/
theorem exists_ends_assigning_view (ho : h.Orderly) (hv : h.IsView t p name) (origin : Option Origin)
    {written : Bytes} (hk : Ends others (Library.Base.tostring [k]) h (.ok [.string written]) h') :
    ∃ place, Ends others (assigning (.table p) k v origin) h
      (.error (.string (place ++ refusal name written))) h' := by
  obtain ⟨n, hn⟩ := gives_text hd ho hk
  refine ⟨Machine.hostSite.position 1, n + 1, Machine.hostSite, ?_⟩
  rw [assigning_view hv, comes_callMeta]
  refine .inr ⟨_, rfl, (answers_view hv.assign).mpr ⟨Machine.hostSite, ?_⟩⟩
  exact Fails.comes ((hn n (Nat.le_refl n)).bind_fails (fails_raise _))

/-- Where writing out the key fails, so does the assignment. -/
theorem ends_assigning_view_error (ho : h.Orderly) (hv : h.IsView t p name) (origin : Option Origin)
    {e : Value} (hk : Ends others (Library.Base.tostring [k]) h (.error e) h') :
    Ends others (assigning (.table p) k v origin) h (.error e) h' := by
  obtain ⟨n, s, hn⟩ := fails_text hd ho hk
  refine ⟨n + 1, Machine.hostSite, ?_⟩
  rw [assigning_view hv, comes_callMeta]
  exact .inr ⟨e, rfl, (answers_view hv.assign).mpr ⟨s, (hn n (Nat.le_refl n)).bind.comes⟩⟩

end

/-! ### Writing out keys -/

/-- A key whose text no function makes can always be written out, and this changes nothing. -/
theorem ends_tostring_plain (hk : h.metamethod k "__tostring" = .nil) :
    Ends others (Library.Base.tostring [k]) h r h' ↔ r = .ok [.string (plainText h k)] ∧ h' = h := by
  have haction : ∀ s, (Library.Base.tostring [k]).action s h =
      .done [.string (plainText h k)] h := by
    intro s
    show bind (text k) _ s Action.done h = _
    simp only [bind, text, Lib.read, hk]
    rfl
  constructor
  · rintro ⟨n, s, hx⟩
    rw [haction] at hx
    cases hx
    exact ⟨rfl, rfl⟩
  · rintro ⟨rfl, rfl⟩
    refine ⟨0, Machine.hostSite, ?_⟩
    rw [haction]
    exact .done

/-- Where a function makes the text of a key, its errors are those of writing out the key. -/
theorem ends_tostring_raised {e : Value} (hf : f.isNil = false) (hk : h.metamethod k "__tostring" = f)
    (ha : Calls others f [k] h (.error e) h') :
    Ends others (Library.Base.tostring [k]) h (.error e) h' := by
  obtain ⟨n, ha⟩ := ha
  refine ⟨n, Machine.hostSite, ?_⟩
  show (bind (text k) _ Machine.hostSite Action.done h).Comes _ _ _
  cases f with
  | nil => cases hf
  | _ =>
    simp only [bind, text, Lib.read, hk]
    exact .raised ha

end OscHost.Script
