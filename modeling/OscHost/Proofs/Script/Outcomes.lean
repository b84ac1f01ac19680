import OscHost.Script.Operators
/-!
  What library computations come to.

  A computation asks for functions to be called and goes on with what they yield.  Here a relation says
  what functions answer (`Answers`), and `Action.Comes` what an action comes to with such answers.  Of a
  computation this is said value by value, whatever goes on with the value: it `Gives` one, or it
  `Fails` with an error.  When it is `Settled`, nothing else can come of it.

  Coroutines, effects and caught errors have no part in this: an action that asks for them comes to
  nothing here.
-/

namespace OscHost.Script

/-- What functions may answer: to some arguments in some heap the results, or an error, and the heap
    that they leave behind. -/
abbrev Answers := Value → List Value → Heap → Except Value (List Value) → Heap → Prop

/-- What an action comes to when the functions that it calls answer so. -/
inductive Action.Comes (calls : Answers) : Action → Except Value (List Value) → Heap → Prop
  | done {values : List Value} {h : Heap} : Comes calls (.done values h) (.ok values) h
  | fail {error : Value} {h : Heap} : Comes calls (.fail error h) (.error error) h
  | call {f : Value} {args values : List Value} {origin : Option Origin} {pinned : Bool}
      {h h₁ h' : Heap} {k : List Value → Heap → Action} {r : Except Value (List Value)}
      (answer : calls f args h (.ok values) h₁) (rest : Comes calls (k values h₁) r h') :
      Comes calls (.call f args origin pinned h k) r h'
  | raised {f : Value} {args : List Value} {origin : Option Origin} {pinned : Bool} {h h' : Heap}
      {k : List Value → Heap → Action} {error : Value} (answer : calls f args h (.error error) h') :
      Comes calls (.call f args origin pinned h k) (.error error) h'

theorem Action.Comes.mono {calls calls' : Answers}
    (hsub : ∀ f args h r h', calls f args h r h' → calls' f args h r h') {x : Action}
    {r : Except Value (List Value)} {h : Heap} (hx : x.Comes calls r h) : x.Comes calls' r h := by
  induction hx with
  | done => exact .done
  | fail => exact .fail
  | call answer _ ih => exact .call (hsub _ _ _ _ _ answer) ih
  | raised answer => exact .raised (hsub _ _ _ _ _ answer)

/-- What comes of a call: what comes of the rest, after what the function answers. -/
theorem Action.comes_call {calls : Answers} {f : Value} {args : List Value} {origin : Option Origin}
    {pinned : Bool} {h h' : Heap} {k : List Value → Heap → Action} {r : Except Value (List Value)} :
    (Action.call f args origin pinned h k).Comes calls r h' ↔
      (∃ values h₁, calls f args h (.ok values) h₁ ∧ (k values h₁).Comes calls r h') ∨
        ∃ e, r = .error e ∧ calls f args h (.error e) h' := by
  constructor
  · intro hx
    cases hx with
    | call answer rest => exact .inl ⟨_, _, answer, rest⟩
    | raised answer => exact .inr ⟨_, rfl, answer⟩
  · rintro (⟨values, h₁, answer, rest⟩ | ⟨e, rfl, answer⟩)
    · exact .call answer rest
    · exact .raised answer

namespace Lib

variable {α β : Type} {calls : Answers} {x : Lib α} {f : α → Lib β} {s : Site} {h h₁ h' : Heap}
  {a : α} {b : β} {e : Value} {Q Q' : α → Heap → Prop} {R : β → Heap → Prop} {F : Heap → Prop}

/-- Whether a computation can yield a value in some heap, wherever it runs. -/
def Gives (calls : Answers) (x : Lib α) (h : Heap) (a : α) (h' : Heap) : Prop :=
  ∀ (s : Site) (k : α → Heap → Action) (r : Except Value (List Value)) (last : Heap),
    (k a h').Comes calls r last → (x s k h).Comes calls r last

/-- Whether a computation can end with an error in some heap. -/
def Fails (calls : Answers) (x : Lib α) (s : Site) (h : Heap) (e : Value) (h' : Heap) : Prop :=
  ∀ k : α → Heap → Action, (x s k h).Comes calls (.error e) h'

/-- Whether a computation yields nothing but such values and leaves nothing but such heaps when it
    fails. -/
def Settled (calls : Answers) (x : Lib α) (s : Site) (h : Heap) (Q : α → Heap → Prop)
    (F : Heap → Prop) : Prop :=
  ∀ (k : α → Heap → Action) (r : Except Value (List Value)) (last : Heap),
    (x s k h).Comes calls r last →
      (∃ a h', x.Gives calls h a h' ∧ Q a h' ∧ (k a h').Comes calls r last) ∨
        ∃ e, r = .error e ∧ x.Fails calls s h e last ∧ F last

/-! ## Values and errors -/

theorem gives_pure : (pure a : Lib α).Gives calls h a h := fun _ _ _ _ hk => hk

theorem gives_read (g : Heap → α) : (read g).Gives calls h (g h) h := fun _ _ _ _ hk => hk

theorem gives_update (g : Heap → α × Heap) : (update g).Gives calls h (g h).1 (g h).2 :=
  fun _ _ _ _ hk => hk

theorem Gives.bind (hx : x.Gives calls h a h₁) (hf : (f a).Gives calls h₁ b h') :
    (x >>= f).Gives calls h b h' := fun s _ _ _ hk => hx s _ _ _ (hf s _ _ _ hk)

theorem Gives.bind_fails (hx : x.Gives calls h a h₁) (hf : (f a).Fails calls s h₁ e h') :
    (x >>= f).Fails calls s h e h' := fun _ => hx s _ _ _ (hf _)

theorem Fails.bind (hx : x.Fails calls s h e h') : (x >>= f).Fails calls s h e h' := fun _ => hx _

/-- Complaining as a function does fails with a text that starts with a position. -/
theorem fails_raise (text : Bytes) :
    (raise text : Lib α).Fails calls s h (.string (s.position 1 ++ text)) h := fun _ => .fail

/-! ## Settled computations -/

theorem Settled.mono {F' : Heap → Prop} (hx : x.Settled calls s h Q F) (hq : ∀ a h, Q a h → Q' a h)
    (hf : ∀ h, F h → F' h) : x.Settled calls s h Q' F' := by
  intro k r last hr
  obtain ⟨a, h₁, hg, ha, hk⟩ | ⟨e, rfl, he, hl⟩ := hx k r last hr
  · exact .inl ⟨a, h₁, hg, hq a h₁ ha, hk⟩
  · exact .inr ⟨e, rfl, he, hf last hl⟩

theorem settled_pure (ha : Q a h) : (pure a : Lib α).Settled calls s h Q F :=
  fun _ _ _ hr => .inl ⟨a, h, gives_pure, ha, hr⟩

theorem settled_read {g : Heap → α} (hg : Q (g h) h) : (read g).Settled calls s h Q F :=
  fun _ _ _ hr => .inl ⟨_, h, gives_read g, hg, hr⟩

theorem settled_update {g : Heap → α × Heap} (hg : Q (g h).1 (g h).2) :
    (update g).Settled calls s h Q F := fun _ _ _ hr => .inl ⟨_, _, gives_update g, hg, hr⟩

/-- A computation that does nothing but fail at the site. -/
theorem settled_of_fail (hx : ∀ k, x s k h = .fail e h) (hf : F h) : x.Settled calls s h Q F := by
  intro k r last hr
  rw [hx] at hr
  cases hr
  refine .inr ⟨e, rfl, fun k => ?_, hf⟩
  rw [hx]
  exact .fail

theorem settled_raise {text : Bytes} (hf : F h) : (raise text : Lib α).Settled calls s h Q F :=
  settled_of_fail (fun _ => rfl) hf

theorem settled_complain {text : Bytes} (hf : F h) :
    (complain text : Lib α).Settled calls s h Q F := by
  cases hs : s.isOperator
  · exact settled_of_fail (fun k => by simp only [complain, site, bind, hs]; rfl) hf
  · exact settled_of_fail (fun k => by simp only [complain, site, bind, hs]; rfl) hf

theorem Settled.bind (hx : x.Settled calls s h Q F)
    (hf : ∀ a h₁, Q a h₁ → (f a).Settled calls s h₁ R F) : (x >>= f).Settled calls s h R F := by
  intro k r last hr
  obtain ⟨a, h₁, hg, ha, hk⟩ | ⟨e, rfl, he, hl⟩ := hx _ r last hr
  · obtain ⟨b, h₂, hg₂, hb, hk⟩ | ⟨e, rfl, he, hl⟩ := hf a h₁ ha k r last hk
    · exact .inl ⟨b, h₂, hg.bind hg₂, hb, hk⟩
    · exact .inr ⟨e, rfl, hg.bind_fails he, hl⟩
  · exact .inr ⟨e, rfl, he.bind, hl⟩

theorem settled_wrongType {what : String} {v : Value} {origin : Option Origin} (hf : F h) :
    (wrongType what v origin : Lib α).Settled calls s h Q F :=
  (settled_read (Q := fun _ h₁ => h₁ = h) rfl).bind fun _ _ he => settled_complain (he ▸ hf)

section

variable {g : Value} {args : List Value} {origin : Option Origin} {event : String}

/-- Calling a metamethod is a call; where it is made decides only whether it can be suspended. -/
theorem comes_callMeta {k : List Value → Heap → Action} {r : Except Value (List Value)} :
    (callMeta event g args s k h).Comes calls r h' ↔
      (∃ values h₁, calls g args h (.ok values) h₁ ∧ (k values h₁).Comes calls r h') ∨
        ∃ e, r = .error e ∧ calls g args h (.error e) h' := by
  unfold callMeta
  simp only [site, bind]
  cases s.isOperator
  · exact Action.comes_call
  · exact Action.comes_call

variable {Q : List Value → Heap → Prop}
  (hq : ∀ values h', calls g args h (.ok values) h' → Q values h')
  (hf : ∀ e h', calls g args h (.error e) h' → F h')
include hq hf

/-- What a call yields is what the function answers. -/
theorem settled_call : (call g args origin).Settled calls s h Q F := by
  intro k r last hr
  obtain ⟨values, h₁, answer, rest⟩ | ⟨e, rfl, answer⟩ := Action.comes_call.mp hr
  · exact .inl ⟨values, h₁, fun _ _ _ _ hk => .call answer hk, hq _ _ answer, rest⟩
  · exact .inr ⟨e, rfl, fun _ => .raised answer, hf _ _ answer⟩

theorem settled_callMeta : (callMeta event g args).Settled calls s h Q F := by
  intro k r last hr
  obtain ⟨values, h₁, answer, rest⟩ | ⟨e, rfl, answer⟩ := comes_callMeta.mp hr
  · exact .inl ⟨values, h₁, fun _ _ _ _ hk => comes_callMeta.mpr (.inl ⟨_, _, answer, hk⟩),
      hq _ _ answer, rest⟩
  · exact .inr ⟨e, rfl, fun _ => comes_callMeta.mpr (.inr ⟨e, rfl, answer⟩), hf _ _ answer⟩

end

/-! ## Functions -/

theorem Gives.comes {x : Lib (List Value)} {values : List Value}
    (hx : x.Gives calls h values h') : (x.action s h).Comes calls (.ok values) h' :=
  hx s _ _ _ .done

theorem Fails.comes {x : Lib (List Value)} (hx : x.Fails calls s h e h') :
    (x.action s h).Comes calls (.error e) h' := hx _

/-- What comes of a function that is settled. -/
theorem Settled.comes {x : Lib (List Value)} {Q : List Value → Heap → Prop}
    (hx : x.Settled calls s h Q F) {r : Except Value (List Value)}
    (hr : (x.action s h).Comes calls r h') :
    (∃ values, r = .ok values ∧ x.Gives calls h values h' ∧ Q values h') ∨
      ∃ e, r = .error e ∧ x.Fails calls s h e h' ∧ F h' := by
  obtain ⟨values, h₁, hg, hq, hk⟩ | hf := hx _ r h' hr
  · cases hk
    exact .inl ⟨values, rfl, hg, hq⟩
  · exact .inr hf

/-- What comes of a function that begins with a settled computation. -/
theorem Settled.comes_bind {f : α → Lib (List Value)} (hx : x.Settled calls s h Q F)
    {r : Except Value (List Value)} (hr : ((x >>= f).action s h).Comes calls r h') :
    (∃ a h₁, x.Gives calls h a h₁ ∧ Q a h₁ ∧ ((f a).action s h₁).Comes calls r h') ∨
      ∃ e, r = .error e ∧ x.Fails calls s h e h' ∧ F h' := hx _ r h' hr

/-- What comes of a function that yields what a settled computation finds. -/
theorem Settled.comes_map {g : α → List Value} (hx : x.Settled calls s h Q F)
    {r : Except Value (List Value)} (hr : ((do return g (← x)).action s h).Comes calls r h') :
    (∃ a, r = .ok (g a) ∧ x.Gives calls h a h' ∧ Q a h') ∨
      ∃ e, r = .error e ∧ x.Fails calls s h e h' ∧ F h' := by
  obtain ⟨a, h₁, hg, hq, hk⟩ | hf := hx.comes_bind hr
  · cases hk
    exact .inl ⟨a, rfl, hg, hq⟩
  · exact .inr hf

end Lib

end OscHost.Script
