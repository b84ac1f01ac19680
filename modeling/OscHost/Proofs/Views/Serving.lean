import OscHost.Proofs.Script.Outcomes
import OscHost.Proofs.Views.Heaps
import OscHost.Script.Library
/-!
  How views are served.

  A function of a view reads the table that it serves, and what it reads it hands out as views.  All
  that may run in between are functions that the table or the key names.  When these leave the views
  alone (`Answers.Discreet`), so does the function of the view, however deep views of views are nested.
-/

namespace OscHost.Script

/-- Whether functions leave the views alone and hand out tables of the heap only. -/
def Answers.Discreet (calls : Answers) : Prop :=
  ∀ f args h r h', h.Orderly → calls f args h r h' →
    h.Keeps h' ∧ ∀ values, r = .ok values → ∀ v ∈ values, v.Lies h'

theorem lies_firstOf {h : Heap} {values : List Value} (hv : ∀ v ∈ values, v.Lies h) :
    (firstOf values).Lies h := by
  cases values with
  | nil => trivial
  | cons v values => exact hv v List.mem_cons_self

namespace Lib

variable {calls : Answers} {s : Site} {h₀ h : Heap}

/-- What is found is a value of the heap. -/
theorem lookup_lies (ho : h.Orderly) (o k : Value) : ∀ v, lookup h o k = .found v → v.Lies h := by
  unfold lookup
  extract_lets next
  have hnext : ∀ (u : Value) (missing : Lookup), (∀ v, missing = .found v → v.Lies h) →
      ∀ v, next u missing = .found v → v.Lies h := by
    intro u missing hm v hv
    unfold next at hv
    split at hv
    · exact hm v hv
    all_goals cases hv
  split
  · dsimp only
    split
    · split
      · rintro v hv
        cases hv
        trivial
      · exact hnext _ _ fun v hv => by
          cases hv
          trivial
    · rintro v hv
      obtain rfl := Lookup.found.inj hv
      split
      · exact (ho.entries _).get trivial _
      · trivial
  · exact hnext _ _ fun v hv => by cases hv

section

variable (hd : calls.Discreet) (hk : h₀.Keeps h)
include hd hk

theorem settled_metamethod {event : String} {f : Value} {args : List Value} :
    (callMeta event f args).Settled calls s h
      (fun values h' => h₀.Keeps h' ∧ ∀ v ∈ values, v.Lies h') h₀.Keeps :=
  settled_callMeta
    (fun values _ ha => (hd _ _ _ _ _ hk.orderly ha).imp hk.trans fun hv => hv values rfl)
    fun _ _ ha => hk.trans (hd _ _ _ _ _ hk.orderly ha).1

/-- Reading an entry yields a value of the heap. -/
theorem settled_index {o k : Value} {origin : Option Origin} :
    (index o k origin).Settled calls s h (fun v h' => h₀.Keeps h' ∧ v.Lies h') h₀.Keeps := by
  unfold index
  generalize maxChain = fuel
  induction fuel generalizing o origin with
  | zero => exact settled_complain hk
  | succ fuel ih =>
    refine (settled_read (Q := fun r h₁ => h = h₁ ∧ r = lookup h o k) ⟨rfl, rfl⟩).bind ?_
    rintro r _ ⟨rfl, hr⟩
    cases r with
    | found v => exact settled_pure ⟨hk, lookup_lies hk.orderly _ _ v hr.symm⟩
    | viaCall f =>
      exact (settled_metamethod hd hk).bind fun values h' hv =>
        settled_pure ⟨hv.1, lies_firstOf hv.2⟩
    | via v => exact ih
    | impossible => exact settled_wrongType hk

theorem settled_length {o : Value} {origin : Option Origin} :
    (length o origin).Settled calls s h (fun v h' => h₀.Keeps h' ∧ v.Lies h') h₀.Keeps := by
  unfold length
  split
  · exact settled_pure ⟨hk, trivial⟩
  · refine (settled_read (Q := fun _ h₁ => h = h₁) rfl).bind ?_
    rintro f _ rfl
    split
    · split
      · refine (settled_read (Q := fun _ h₁ => h = h₁) rfl).bind ?_
        rintro _ _ rfl
        exact settled_pure ⟨hk, trivial⟩
      · exact settled_wrongType hk
    · exact (settled_metamethod hd hk).bind fun values h' hv =>
        settled_pure ⟨hv.1, lies_firstOf hv.2⟩

theorem settled_text (v : Value) :
    (text v).Settled calls s h (fun _ h' => h₀.Keeps h') h₀.Keeps := by
  refine (settled_read (Q := fun _ h₁ => h = h₁) rfl).bind ?_
  rintro f _ rfl
  split
  · exact settled_read hk
  · refine (settled_call (Q := fun _ h' => h₀.Keeps h')
      (fun values _ ha => hk.trans (hd _ _ _ _ _ hk.orderly ha).1)
      fun _ _ ha => hk.trans (hd _ _ _ _ _ hk.orderly ha).1).bind fun values h' hk' => ?_
    split
    · exact settled_pure hk'
    · exact settled_raise hk'

end

/-- The entry after a key is one of the table. -/
theorem settled_next (ho : h.Orderly) (t : Nat) (k : Value) :
    (Library.Base.next [.table t, k]).Settled calls s h
      (fun r h' => h = h' ∧ (r = [.nil] ∨ ∃ k v, r = [k, v] ∧ k.Lies h ∧ v.Lies h)) (h = ·) := by
  unfold Library.Base.next
  refine (settled_pure (a := t) (Q := fun id h₁ => t = id ∧ h = h₁) ⟨rfl, rfl⟩).bind ?_
  rintro _ _ ⟨rfl, rfl⟩
  extract_lets after
  -- a key that is no key of the table is complained about, and leaves the heap as well
  have hafter : ∀ k, (after k).Settled calls s h
      (fun r h' => h = h' ∧ (r = [.nil] ∨ ∃ k v, r = [k, v] ∧ k.Lies h ∧ v.Lies h)) (h = ·) := by
    intro k
    refine (settled_read (Q := fun r h₁ => h = h₁ ∧ r = (h.table t).next k) ⟨rfl, rfl⟩).bind ?_
    rintro r _ ⟨rfl, hr⟩
    split
    · exact settled_complain rfl
    · exact settled_pure ⟨rfl, .inl rfl⟩
    · obtain ⟨hkey, hvalue⟩ := (ho.entries t).next (fun _ => trivial) hr.symm
      exact settled_pure ⟨rfl, .inr ⟨_, _, rfl, hkey, hvalue⟩⟩
  split
  · exact hafter none
  · split
    · exact hafter _
    · exact settled_complain rfl

end Lib

namespace Library.Modules

open Lib Heap

variable {calls : Answers} {s : Site} {h₀ h : Heap} {t : Nat} {role : ViewRole} {name : Bytes}

section

variable (hd : calls.Discreet) (hk : h₀.Keeps h)
include hd hk

/-- What is shown of a value of the heap is one. -/
theorem settled_shown (name : Bytes) (key : Value) {v : Value} (hv : v.Lies h) :
    (shown name key v).Settled calls s h (fun v h' => h₀.Keeps h' ∧ v.Lies h') h₀.Keeps := by
  unfold shown
  split
  · rename_i t
    have htext := settled_text (s := s) hd hk.orderly.keeps key
    refine (htext.mono (fun _ _ h₁ => h₁) fun _ => hk.trans).bind fun key h₁ hk₁ => settled_update ?_
    have ht : t < h₁.tables.size := hk₁.lies hv
    obtain ⟨p, hp, hl, hk₂⟩ := keeps_view hk₁.orderly ht (name ++ ".".toUTF8 ++ key)
    refine ⟨(hk.trans hk₁).trans hk₂, ?_⟩
    rw [hp]
    obtain ⟨-, _, hview⟩ := hk₂.orderly.views t p hl
    exact hview.inside.1
  · exact settled_pure ⟨hk, hv⟩

/-- A function of a view leaves the views alone and hands out values of the heap. -/
theorem settled_callView (ht : t < h.tables.size) (args : Args) :
    (callView role t name args).Settled calls s h
      (fun values h' => h₀.Keeps h' ∧ ∀ v ∈ values, v.Lies h') h₀.Keeps := by
  cases role with
  | index =>
    exact (settled_index hd hk).bind fun u h₁ ⟨hk₁, hu⟩ =>
      (settled_shown hd hk₁ name _ hu).bind fun v h₂ ⟨hk₂, hv⟩ => settled_pure ⟨hk₂, by simp [hv]⟩
  | assign => exact (settled_text hd hk _).bind fun key h₁ hk₁ => settled_raise hk₁
  | pairs =>
    refine (settled_update (Q := fun r h' => h₀.Keeps h' ∧ r.1.Lies h' ∧ r.2.Lies h') ?_).bind
      fun r h₁ ⟨hk₁, hs, hp⟩ => settled_pure ⟨hk₁, by simp [hs, hp]⟩
    -- the function for the next steps is made before the view is, and only adds to the heap
    have hk₁ : h.Keeps (h.newNative (.view .step t name)).2 :=
      ⟨retains_newNative h _, hk.orderly.newNative fun _ _ _ he => by
        cases he
        exact ht⟩
    obtain ⟨p, hp, hl, hk₂⟩ := keeps_view hk₁.orderly (Nat.lt_of_lt_of_le ht hk₁.size) name
    obtain ⟨-, _, hview⟩ := hk₂.orderly.views t p hl
    refine ⟨(hk.trans hk₁).trans hk₂, trivial, ?_⟩
    show Value.Lies _ (view t name (h.newNative (.view .step t name)).2).1
    rw [hp]
    exact hview.inside.1
  | step =>
    refine (settled_next hk.orderly t _ |>.mono (fun _ _ h => h) fun _ he => he ▸ hk).bind ?_
    rintro r _ ⟨rfl, rfl | ⟨k, v, rfl, hkey, hv⟩⟩
    · exact settled_pure ⟨hk, by simp⟩
    · refine (settled_shown hd hk.orderly.keeps name k hv |>.mono (fun _ _ h => h) fun _ => hk.trans).bind
        fun w h₁ ⟨hk₁, hw⟩ => settled_pure ⟨hk.trans hk₁, ?_⟩
      simp [hw, hk₁.lies hkey]
  | length => exact (settled_length hd hk).bind fun v h₁ ⟨hk₁, hv⟩ => settled_pure ⟨hk₁, by simp [hv]⟩

end

end Library.Modules

/-! ## Nested views -/

/-- What functions answer where calls of view functions are nested at most so deep: those serve their
    tables, and others answer as they do. -/
def answers (others : Answers) : (depth : Nat) → Answers
  | 0 => fun _ _ _ _ _ => False
  | depth + 1 => fun f args h r h' =>
    (∃ role t name s, h.Serves role t name f ∧
      ((Library.invoke f args).action s h).Comes (answers others depth) r h') ∨
    (∀ role t name, ¬ h.Serves role t name f) ∧ others f args h r h'

variable {others : Answers} {h h' : Heap} {f : Value} {args : List Value}
  {r : Except Value (List Value)}

theorem answers_succ (depth : Nat) (ha : answers others depth f args h r h') :
    answers others (depth + 1) f args h r h' := by
  induction depth generalizing f args h r h' with
  | zero => cases ha
  | succ depth ih =>
    obtain ⟨role, t, name, s, hs, hx⟩ | ha := ha
    · exact .inl ⟨role, t, name, s, hs, hx.mono fun _ _ _ _ _ => ih⟩
    · exact .inr ha

/-- Deeper nesting takes no answer away. -/
theorem answers_mono {depth depth' : Nat} (hle : depth ≤ depth')
    (ha : answers others depth f args h r h') : answers others depth' f args h r h' := by
  induction hle with
  | refl => exact ha
  | step _ ih => exact answers_succ _ ih

/-- A function of a view is run by the library. -/
theorem invoke_of_serves {role : ViewRole} {t : Nat} {name : Bytes} (hs : h.Serves role t name f)
    (args : Args) (s : Site) :
    (Library.invoke f args).action s h = (Library.Modules.callView role t name args).action s h := by
  obtain ⟨n, rfl, hn⟩ := hs
  unfold Library.invoke Lib.action
  simp only [bind, Lib.read, hn]
  rfl

/-- Where other functions leave the views alone, the functions of views do too. -/
theorem discreet_answers (ho : others.Discreet) (depth : Nat) : (answers others depth).Discreet := by
  induction depth with
  | zero => exact fun _ _ _ _ _ _ ha => ha.elim
  | succ depth ih =>
    intro f args h r h' horderly ha
    obtain ⟨role, t, name, s, hs, hx⟩ | ⟨-, ha⟩ := ha
    · rw [invoke_of_serves hs] at hx
      obtain ⟨values, h₁, -, ⟨hk, hv⟩, hdone⟩ | ⟨e, rfl, -, hk⟩ :=
        Library.Modules.settled_callView ih horderly.keeps (horderly.served role t name f hs) args
          _ _ _ hx
      · cases hdone
        exact ⟨hk, fun _ he => by cases he; exact hv⟩
      · exact ⟨hk, nofun⟩
    · exact ho f args h r h' horderly ha

end OscHost.Script
