import OscHost.Proofs.Number.Doubles
import OscHost.Proofs.Script.Lawful
import OscHost.Proofs.Trees.RoundTrip
/-!
  How keys are written.

  A key is a truth value, an integer, a double that is no integer of 64 bits, or a text; a reference is
  not written.  No two of the first three kinds are written alike, because a text of digits says which
  number it is the text of.  A text is written as it is, so it may be another key's text, and bytes that
  are no text are written like those that replace them (`keyText?_inj`).
-/

namespace OscHost.Script

open Number

namespace Trees

variable {k k' : Key} {name : String}

/-- The texts of keys that are none. -/
inductive Written : Key → String → Prop
  | bool (b : Bool) : Written (.bool b) (if b then "true" else "false")
  | int (n : Int64) : Written (.int n) (toString n.toInt)
  | float {x : Float} (hx : floatToInt? x = none) : Written (.float x.toBits) (Layout.plain.float x)

/-- A double that is not kept as an integer is not written as one. -/
theorem plain_float_ne_int {x : Float} (hx : floatToInt? x = none) (n : Int64) :
    Layout.plain.float x ≠ toString n.toInt := by
  intro h
  obtain ⟨k, hk, hle, hlt⟩ := toInt?_of_plain_float h
  unfold floatToInt? at hx
  rw [hk] at hx
  dsimp only at hx
  rw [if_pos ⟨hle, Int.lt_add_one_iff.mp hlt⟩] at hx
  cases hx

/-- Keys that are written alike are the same, texts aside. -/
theorem Written.inj (h : Written k name) (h' : Written k' name) : k = k' := by
  -- a text cannot be an index of both cases at once, so it is made a variable first
  cases h with
  | bool b =>
    generalize hname : (if b then "true" else "false") = name at h'
    cases h' with
    | bool b' => cases b <;> cases b' <;> first | rfl | exact absurd hname (by decide)
    | int n => exact absurd hname.symm (toString_int_ne_bool n.toInt b)
    | float hx => exact absurd hname.symm (plain_float_ne_bool _ b)
  | int n =>
    generalize hname : toString n.toInt = name at h'
    cases h' with
    | bool b => exact absurd hname (toString_int_ne_bool n.toInt b)
    | int n' => rw [Int64.toInt_inj.mp (Int.repr_inj.mp hname)]
    | float hx => exact absurd hname.symm (plain_float_ne_int hx n)
  | @float x hx =>
    generalize hname : Layout.plain.float x = name at h'
    cases h' with
    | bool b => exact absurd hname (plain_float_ne_bool x b)
    | int n => exact absurd hname (plain_float_ne_int hx n)
    | float hx' => rw [plain_float_inj hname]

/-- A key that is written is a text, or written as no other one that is none. -/
theorem written_of_keyText? (hk : k.Proper) (h : keyText? k = some name) :
    (∃ s, k = .string s ∧ Text.Utf8.lossy s = name) ∨ Written k name := by
  cases k with
  | string s => exact .inl ⟨s, rfl, Option.some.inj h⟩
  | bool b =>
    obtain rfl := Option.some.inj h
    exact .inr (.bool b)
  | int n =>
    obtain rfl := Option.some.inj h
    exact .inr (.int n)
  | float bits =>
    obtain ⟨x, rfl, hx⟩ := hk
    obtain rfl : Layout.plain.float (Float.ofBits x.toBits) = name := Option.some.inj h
    rw [Float.ofBits_toBits]
    exact .inr (.float hx)
  | _ => cases h

/-- Of two keys that are written alike one is a text, and if both are one of them is not in UTF-8. -/
theorem keyText?_inj (hk : k.Proper) (hk' : k'.Proper) (h : keyText? k = some name)
    (h' : keyText? k' = some name) (hne : k ≠ k') :
    ((∃ s, k = .string s) ∨ ∃ s, k' = .string s) ∧
      ∀ t t' : String, ¬ (k = .string (Bytes.ofText t) ∧ k' = .string (Bytes.ofText t')) := by
  constructor
  · rcases written_of_keyText? hk h with ⟨s, rfl, -⟩ | hw
    · exact .inl ⟨s, rfl⟩
    · rcases written_of_keyText? hk' h' with ⟨s, rfl, -⟩ | hw'
      · exact .inr ⟨s, rfl⟩
      · exact absurd (hw.inj hw') hne
  · rintro t t' ⟨rfl, rfl⟩
    have htext : t = name := (lossy_ofText t).symm.trans (Option.some.inj h)
    have htext' : t' = name := (lossy_ofText t').symm.trans (Option.some.inj h')
    exact hne (by rw [htext, htext'])

end Trees

end OscHost.Script
