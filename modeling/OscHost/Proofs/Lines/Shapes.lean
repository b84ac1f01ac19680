import OscHost.Session
import Mathlib.Data.List.Forall2
import Mathlib.Data.List.TakeWhile
/-!
  What a line says.

  A line is JSON or it is refused, and an object says what the first of three shapes says that it has
  (`Says`).  The shapes overlap: other members are ignored, `values` may be left out, and an object
  that is no message because a member of its own is wrong may still be a discovery or a click.  Each
  shape is a relation here, free of the order in which a decoder looks at the members, and the
  decoder finds exactly what the relations say (`ofJson?_eq_some`).
-/

namespace OscHost.Osc.Inbound

variable {members : List (String × Json)} {name : String} {j : Json} {said : Inbound}

/-! ## Members -/

/-- Whether an object has a member just once, and what it is. -/
def Once (members : List (String × Json)) (name : String) (j : Json) : Prop :=
  (members.filter fun m => m.1 == name) = [(name, j)]

/-- Whether an object is without a member. -/
def Lacks (members : List (String × Json)) (name : String) : Prop :=
  (members.filter fun m => m.1 == name) = []

theorem single?_eq_some {found : Option Json} : single? members name = some found ↔
    match found with
    | none => Lacks members name
    | some j => Once members name j := by
  have hnamed : ∀ m ∈ members.filter fun m => m.1 == name, m.1 = name := fun m hm =>
    beq_iff_eq.mp (List.mem_filter.mp hm).2
  unfold single? Lacks Once
  generalize (members.filter fun m => m.1 == name) = named at hnamed ⊢
  match named with
  | [] => cases found <;> simp
  | [m] =>
    obtain ⟨n, j⟩ := m
    obtain rfl : n = name := hnamed _ List.mem_cons_self
    cases found <;> simp
  | _ :: _ :: _ => cases found <;> simp

/-! ## Shapes -/

/-- The shape of a message: a text for its address, and perhaps an array of values. -/
inductive IsMessage (members : List (String × Json)) : Inbound → Prop
  | bare {address : String} (haddress : Once members "address" (.string address))
      (hvalues : Lacks members "values") : IsMessage members (.message address [])
  | full {address : String} {items : List Json}
      (haddress : Once members "address" (.string address))
      (hvalues : Once members "values" (.array items)) :
      IsMessage members (.message address (items.map BoundaryValue.ofJson))

/-- How a type is written: as its word, or as an object with the word as its only name and null. -/
inductive Names : Json → EndpointType → Prop
  | word (type : EndpointType) : Names (.string type.name) type
  | tag (type : EndpointType) : Names (.object [(type.name, .null)]) type

/-- The shape of a discovery: an object of types. -/
inductive IsEndpoints (members : List (String × Json)) : Inbound → Prop
  | mk {types : List (String × Json)} {defs : List (String × EndpointType)}
      (hendpoints : Once members "endpoints" (.object types))
      (hdefs : List.Forall₂ (fun m d => d.1 = m.1 ∧ Names m.2 d.2) types defs) :
      IsEndpoints members (.endpoints (Registry.extend {} defs))

/-- The shape of a click: an array of texts. -/
inductive IsClick (members : List (String × Json)) : Inbound → Prop
  | mk {path : List String} (hclick : Once members "click" (.array (path.map Json.string))) :
      IsClick members (.click path)

/-- Whether an object has a shape. -/
def Has (shape : Inbound → Prop) : Prop := ∃ said, shape said

/-- What an object says: what its first shape says. -/
inductive Says (members : List (String × Json)) (said : Inbound) : Prop
  | message (h : IsMessage members said)
  | endpoints (hnot : ¬ Has (IsMessage members)) (h : IsEndpoints members said)
  | click (hnot : ¬ Has (IsMessage members)) (hnot' : ¬ Has (IsEndpoints members))
      (h : IsClick members said)

/-! ## The decoder -/

theorem text?_eq_some {s : String} : text? j = some s ↔ j = .string s := by
  cases j <;> simp [text?]

theorem message?_eq_some : message? members = some said ↔ IsMessage members said := by
  unfold message?
  simp only [Option.bind_eq_bind, Option.bind_eq_some_iff]
  constructor
  · rintro ⟨found, hfound, _, rfl, address, haddress, values, hvalues, hsaid⟩
    obtain rfl := text?_eq_some.mp haddress
    have haddress := single?_eq_some.mp hfound
    have hvalues := single?_eq_some.mp hvalues
    match values with
    | none =>
      obtain rfl := Option.some.inj hsaid
      exact .bare haddress hvalues
    | some (.array items) =>
      obtain rfl := Option.some.inj hsaid
      exact .full haddress hvalues
    | some .null | some (.bool _) | some (.int _) | some (.float _) | some (.string _)
    | some (.object _) => exact nomatch hsaid
  · rintro (⟨haddress, hvalues⟩ | ⟨haddress, hvalues⟩)
    · exact ⟨_, single?_eq_some.mpr haddress, _, rfl, _, text?_eq_some.mpr rfl, none,
        single?_eq_some.mpr hvalues, rfl⟩
    · exact ⟨_, single?_eq_some.mpr haddress, _, rfl, _, text?_eq_some.mpr rfl, some _,
        single?_eq_some.mpr hvalues, rfl⟩

theorem ofName?_eq_some {s : String} {type : EndpointType} :
    EndpointType.ofName? s = some type ↔ s = type.name := by
  unfold EndpointType.ofName?
  constructor
  · intro h
    have hname := List.find?_some h
    exact (beq_iff_eq.mp hname).symm
  · rintro rfl
    cases type <;> decide

theorem type?_eq_some {type : EndpointType} : type? j = some type ↔ Names j type := by
  constructor
  · intro h
    unfold type? at h
    split at h
    · rw [ofName?_eq_some.mp h]
      exact .word type
    · rw [ofName?_eq_some.mp h]
      exact .tag type
    · exact nomatch h
  · rintro (_ | _)
    · exact ofName?_eq_some.mpr rfl
    · exact ofName?_eq_some.mpr rfl

theorem mapM_eq_some {α β : Type} {f : α → Option β} {l : List α} {found : List β} :
    l.mapM f = some found ↔ List.Forall₂ (fun a b => f a = some b) l found := by
  induction l generalizing found with
  | nil =>
    rw [List.forall₂_nil_left_iff]
    exact ⟨fun h => (Option.some.inj h).symm, fun h => h ▸ rfl⟩
  | cons a l ih =>
    simp only [List.mapM_cons, Option.bind_eq_bind, Option.bind_eq_some_iff,
      List.forall₂_cons_left_iff]
    constructor
    · rintro ⟨b, hb, rest, hrest, hfound⟩
      exact ⟨b, rest, hb, ih.mp hrest, (Option.some.inj hfound).symm⟩
    · rintro ⟨b, rest, hb, hrest, rfl⟩
      exact ⟨b, hb, rest, ih.mpr hrest, rfl⟩

theorem typed_eq_some {m : String × Json} {d : String × EndpointType} :
    (type? m.2).map (fun t => (m.1, t)) = some d ↔ d.1 = m.1 ∧ Names m.2 d.2 := by
  obtain ⟨name, type⟩ := d
  rw [Option.map_eq_some_iff]
  constructor
  · rintro ⟨t, ht, hd⟩
    obtain ⟨rfl, rfl⟩ := Prod.mk.inj hd
    exact ⟨rfl, type?_eq_some.mp ht⟩
  · rintro ⟨rfl, htype⟩
    exact ⟨type, type?_eq_some.mpr htype, rfl⟩

theorem endpoints?_eq_some : endpoints? members = some said ↔ IsEndpoints members said := by
  unfold endpoints?
  simp only [Option.bind_eq_bind, Option.bind_eq_some_iff]
  constructor
  · rintro ⟨found, hfound, j, rfl, hsaid⟩
    have hendpoints := single?_eq_some.mp hfound
    cases j with
    | object types =>
      obtain ⟨defs, hdefs, hsaid⟩ := Option.bind_eq_some_iff.mp hsaid
      obtain rfl := Option.some.inj hsaid
      exact .mk hendpoints ((mapM_eq_some.mp hdefs).imp fun _ _ => typed_eq_some.mp)
    | null | bool _ | int _ | float _ | string _ | array _ => cases hsaid
  · rintro ⟨hendpoints, hdefs⟩
    have htypes := mapM_eq_some.mpr (hdefs.imp fun _ _ => typed_eq_some.mpr)
    refine ⟨_, single?_eq_some.mpr hendpoints, _, rfl, ?_⟩
    exact Option.bind_eq_some_iff.mpr ⟨_, htypes, rfl⟩

theorem click?_eq_some : click? members = some said ↔ IsClick members said := by
  have htexts : ∀ {items : List Json} {path : List String},
      items.mapM text? = some path ↔ items = path.map Json.string := by
    intro items path
    rw [mapM_eq_some, ← List.forall₂_eq_eq_eq, List.forall₂_map_right_iff]
    exact ⟨fun h => h.imp fun _ _ => text?_eq_some.mp, fun h => h.imp fun _ _ => text?_eq_some.mpr⟩
  unfold click?
  simp only [Option.bind_eq_bind, Option.bind_eq_some_iff]
  constructor
  · rintro ⟨found, hfound, j, rfl, hsaid⟩
    have hclick := single?_eq_some.mp hfound
    cases j with
    | array items =>
      obtain ⟨path, hpath, hsaid⟩ := Option.bind_eq_some_iff.mp hsaid
      obtain rfl := Option.some.inj hsaid
      obtain rfl := htexts.mp hpath
      exact .mk hclick
    | null | bool _ | int _ | float _ | string _ | object _ => cases hsaid
  · rintro ⟨hclick⟩
    refine ⟨_, single?_eq_some.mpr hclick, _, rfl, ?_⟩
    exact Option.bind_eq_some_iff.mpr ⟨_, htexts.mpr rfl, rfl⟩

/-- A decoder finds nothing where there is no such shape. -/
theorem eq_none_iff {found : Option Inbound} {shape : Inbound → Prop}
    (h : ∀ {said}, found = some said ↔ shape said) : found = none ↔ ¬ Has shape := by
  rw [Option.eq_none_iff_forall_ne_some]
  exact ⟨fun hnone ⟨said, hs⟩ => hnone said (h.mpr hs), fun hnot said hs => hnot ⟨said, h.mp hs⟩⟩

theorem ofJson?_eq_some : ofJson? j = some said ↔
    ∃ members, j = .object members ∧ Says members said := by
  -- the first decoder that finds something decides
  have hfirst (members : List (String × Json)) : ofJson? (.object members) =
      ((message? members).or (endpoints? members)).or (click? members) := by
    rw [ofJson?]
    cases message? members <;> cases endpoints? members <;> rfl
  constructor
  · intro h
    cases j with
    | object members =>
      refine ⟨members, rfl, ?_⟩
      simp only [hfirst, Option.or_eq_some_iff, Option.or_eq_none_iff] at h
      obtain (hm | ⟨hm, he⟩) | ⟨⟨hm, he⟩, hc⟩ := h
      · exact .message (message?_eq_some.mp hm)
      · exact .endpoints ((eq_none_iff message?_eq_some).mp hm) (endpoints?_eq_some.mp he)
      · exact .click ((eq_none_iff message?_eq_some).mp hm)
          ((eq_none_iff endpoints?_eq_some).mp he) (click?_eq_some.mp hc)
    | null | bool _ | int _ | float _ | string _ | array _ => cases h
  · rintro ⟨members, rfl, hshape⟩
    simp only [hfirst, Option.or_eq_some_iff, Option.or_eq_none_iff]
    rcases hshape with hm | ⟨hm, he⟩ | ⟨hm, he, hc⟩
    · exact .inl (.inl (message?_eq_some.mpr hm))
    · exact .inl (.inr ⟨(eq_none_iff message?_eq_some).mpr hm, endpoints?_eq_some.mpr he⟩)
    · exact .inr ⟨⟨(eq_none_iff message?_eq_some).mpr hm,
        (eq_none_iff endpoints?_eq_some).mpr he⟩, click?_eq_some.mpr hc⟩

/-- A text is read as what the JSON that it holds says. -/
theorem parse_eq_some {text : String} : (parse text).toOption = some said ↔
    ∃ j, Json.parse text = .ok j ∧ ofJson? j = some said := by
  unfold parse
  cases Json.parse text with
  | error e => exact ⟨nofun, fun ⟨_, h, _⟩ => nomatch h⟩
  | ok j =>
    simp only [Except.ok.injEq, exists_eq_left']
    cases ofJson? j with
    | none => exact ⟨nofun, nofun⟩
    | some said' => exact Iff.rfl

end OscHost.Osc.Inbound

namespace OscHost.Session

open Osc (Inbound)

/-! ## Lines -/

/-- What a line says; nothing if it is blank or refused. -/
def said? (line : String) : Option Inbound :=
  if trimmed line = "" then none else (Inbound.parse (trimmed line)).toOption

/-- Nothing is left of a line exactly if all of it is blank. -/
theorem trimmed_eq_empty {line : String} :
    trimmed line = "" ↔ ∀ c ∈ line.toList, isBlank c = true := by
  unfold trimmed
  dsimp only
  rw [← String.toList_inj, String.toList_ofList, String.toList_empty, List.reverse_eq_nil_iff,
    List.dropWhile_eq_nil_iff]
  constructor
  · intro hrest
    by_contra hnot
    have hne : line.toList.dropWhile isBlank ≠ [] := mt List.dropWhile_eq_nil_iff.mp hnot
    -- what is left begins with something that is not blank
    have hhead := List.head_dropWhile_not isBlank hne
    have hblank := hrest _ (List.mem_reverse.mpr (List.head_mem hne))
    rw [hblank] at hhead
    exact nomatch hhead
  · intro hall
    rw [List.dropWhile_eq_nil_iff.mpr hall]
    exact fun _ hc => absurd hc List.not_mem_nil

/-- A line says something if it is not blank, and what the object says that it holds. -/
theorem said?_eq_some {line : String} {said : Inbound} : said? line = some said ↔
    (∃ c ∈ line.toList, isBlank c = false) ∧
      ∃ members, Json.parse (trimmed line) = .ok (.object members) ∧ Inbound.Says members said := by
  have hnotBlank : (∃ c ∈ line.toList, isBlank c = false) ↔ trimmed line ≠ "" := by
    rw [Ne, trimmed_eq_empty]
    simp
  unfold said?
  rw [hnotBlank]
  split
  · rename_i hblank
    exact ⟨nofun, fun h => absurd hblank h.1⟩
  · rename_i hblank
    rw [Inbound.parse_eq_some]
    constructor
    · rintro ⟨j, hj, h⟩
      obtain ⟨members, rfl, hshape⟩ := Inbound.ofJson?_eq_some.mp h
      exact ⟨hblank, members, hj, hshape⟩
    · rintro ⟨-, members, hj, hshape⟩
      exact ⟨_, hj, Inbound.ofJson?_eq_some.mpr ⟨members, rfl, hshape⟩⟩

end OscHost.Session
