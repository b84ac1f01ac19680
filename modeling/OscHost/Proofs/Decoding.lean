import OscHost.Proofs.Loading
import OscHost.Proofs.Trees.Alike
import OscHost.Proofs.Trees.Depth
import OscHost.Script.Library
/-!
  Trees that scripts read.

  `json.decode` makes a value of a text, `json.read` of the text in a file.  Each parses the text and
  makes a value of the tree by itself, so it is shown that they agree: on whatever heaps and hosts
  they are called, they yield the same value, or both yield nil and a message.

  There are two ways to fail, and they agree in one of them only.  A text that is no JSON is told by
  both.  A tree that is accepted by the parser, which goes down 127 levels, and refused afterwards,
  because values go down 64, is told by `json.read`; `json.decode` raises an error instead.  The
  text of a tower (`Trees.towerText`) of 65 arrays is such a one.
-/

namespace OscHost

open Files

namespace Host

/-- Whether a request for JSON is accepted, and the file it stands for can be read and holds a
    text. -/
def HoldsText (s : Host) (path text : String) : Prop :=
  ∃ l, s.jsonRoots.resolve s.tree s.around path = .ok l ∧ s.readText (Location.text l) = .ok text

theorem readJson_of_holdsText {s : Host} {path text : String} (hfile : s.HoldsText path text) :
    s.readJson path =
      match Json.parse text with
      | .ok j => .ok j.canonical
      | .error e => .error (.marshal (path ++ ": " ++ e.message)) := by
  obtain ⟨l, hresolved, htext⟩ := hfile
  show (refusal (s.jsonRoots.resolve s.tree s.around path) >>= _) = _
  rw [hresolved]
  show (s.readText (Location.text l) >>= _) = _
  rw [htext]
  show (match Json.parse text with | .ok j => _ | .error e => _) = _
  cases Json.parse text <;> rfl

end Host

namespace Script

open Library

/-! ## Two calls -/

/-- What a call of `json.decode` comes to, and the host after it. -/
def decodeAnswer (site : Site) (h : Heap) (text : String) (s : Host) : Action × Host :=
  ((invoke (.builtin .jsonDecode) [.text text]).action site h).answered s

/-- What a call of `json.read` comes to, and the host after it. -/
def readAnswer (site : Site) (h : Heap) (path : String) (s : Host) : Action × Host :=
  ((invoke (.builtin .jsonRead) [.text path]).action site h).answered s

/-- Whether two calls both yield a value, the same one and no message, or both nil and a message. -/
inductive SameOutcome : Action → Action → Prop
  | value {h h' : Heap} {v v' : Value} (same : SameValue h v h' v') :
    SameOutcome (.done [v, .nil] h) (.done [v', .nil] h')
  | refused {h h' : Heap} {m m' : String} :
    SameOutcome (.done [.nil, .text m] h) (.done [.nil, .text m'] h')

/-- Whether a text is JSON, of a tree that is too high to be made into a value. -/
def Overdeep (text : String) : Prop :=
  ∃ j, Json.parse text = .ok j ∧ Trees.maxDepth < j.canonical.height

variable {site site' : Site} {h h' : Heap} {s s' : Host} {text path : String}

theorem pure_bind_text (f : String → Lib (List Value)) : (pure text >>= f) = f text := rfl

theorem bind_action {α : Type} (x : Lib α) (f : α → Lib (List Value)) :
    (x >>= f).action site h = x site (fun a h => (f a).action site h) h := rfl

theorem valueOf_eq (tree : Json) (k : Except String Value → Heap → Action) :
    HostApi.valueOf tree site k h =
      match Trees.toValue tree h with
      | .ok (v, h') => k (.ok v) h'
      | .error e => k (.error e) h := by
  rw [HostApi.valueOf, Lib.update]
  cases Trees.toValue tree h <;> rfl

theorem decodeAnswer_eq :
    decodeAnswer site h text s =
      (match Json.parse text with
        | .error e => .done [.nil, .text ("invalid json: " ++ e.message)] h
        | .ok j =>
          match Trees.toValue j.canonical h with
          | .ok (v, h') => .done [v, .nil] h'
          | .error e => .fail (.object (h.newObject (.failure e)).1) (h.newObject (.failure e)).2,
        s) := by
  have htext : Lib.hostText [.text text] 1 = pure text := hostText_of_text rfl
  show ((HostApi.jsonDecode [.text text]).action site h).answered s = _
  rw [HostApi.jsonDecode, htext, pure_bind_text]
  cases Json.parse text with
  | error e => rfl
  | ok j =>
    dsimp only
    rw [bind_action, valueOf_eq]
    cases Trees.toValue j.canonical h <;> rfl

theorem readAnswer_eq (hfile : s.HoldsText path text) :
    readAnswer site h path s =
      (match Json.parse text with
        | .error e => .done [.nil, .text (HostError.marshal (path ++ ": " ++ e.message)).message] h
        | .ok j =>
          match Trees.toValue j.canonical h with
          | .ok (v, h') => .done [v, .nil] h'
          | .error e => .done [.nil, .text e] h,
        s) := by
  have hpath : Lib.hostText [.text path] 1 = pure path := hostText_of_text rfl
  have hread := Host.readJson_of_holdsText hfile
  show ((HostApi.jsonRead [.text path]).action site h).answered s = _
  rw [HostApi.jsonRead, hpath, pure_bind_text]
  show (Action.ask (.readJson path) h _).answered s = _
  rw [Action.answered_ask, Host.perform, hread]
  -- the file is read; from here both calls go the same way
  cases Json.parse text with
  | error e => rfl
  | ok j =>
    dsimp only
    show (HostApi.valueOf j.canonical site _ h).answered s = _
    rw [valueOf_eq]
    cases Trees.toValue j.canonical h <;> rfl

/-! ## Where they agree -/

/-- Unless a text is JSON that is too high, both calls come to the same, whatever their heaps, and
    neither raises an error.  If it is, `json.decode` raises one and `json.read` tells the same words
    as a message.  The hosts stay as they are. -/
theorem decode_read_agree (hfile : s'.HoldsText path text) :
    (decodeAnswer site h text s).2 = s ∧ (readAnswer site' h' path s').2 = s' ∧
      (¬ Overdeep text →
        SameOutcome (decodeAnswer site h text s).1 (readAnswer site' h' path s').1) ∧
      (Overdeep text →
        (∃ id h₁, (decodeAnswer site h text s).1 = .fail (.object id) h₁ ∧
          h₁.objects[id]? = some (.failure Trees.tooDeep)) ∧
        (readAnswer site' h' path s').1 = .done [.nil, .text Trees.tooDeep] h') := by
  rw [decodeAnswer_eq, readAnswer_eq hfile]
  cases hparse : Json.parse text with
  | error e =>
    refine ⟨rfl, rfl, fun _ => .refused, fun hdeep => ?_⟩
    obtain ⟨j, hj, _⟩ := hdeep
    rw [hparse] at hj
    cases hj
  | ok j =>
    dsimp only
    -- the height of the one tree that the text holds decides
    have hdeep : Overdeep text ↔ Trees.maxDepth < j.canonical.height := by
      constructor
      · rintro ⟨j', hj', hheight⟩
        cases hparse.symm.trans hj'
        exact hheight
      · intro hheight
        exact ⟨j, hparse, hheight⟩
    have hsettles : ∀ h, Trees.Settles Trees.maxDepth j.canonical.height
        (Trees.toValue j.canonical h) := Trees.toValueFrom_settles Trees.maxDepth j.canonical
    refine ⟨rfl, rfl, fun hnot => ?_, fun hover => ?_⟩
    · obtain ⟨⟨v, h₁⟩, ⟨v', h₁'⟩, hr, hr', hsame⟩ | ⟨e, hr, _⟩ :=
        Trees.toValue_same j.canonical h h'
      · rw [hr, hr']
        exact .value hsame
      · obtain ⟨_, r, hok⟩ | ⟨hheight, _⟩ := hsettles h
        · rw [hr] at hok
          cases hok
        · exact absurd (hdeep.mpr hheight) hnot
    · have hrefused : ∀ h, Trees.toValue j.canonical h = .error Trees.tooDeep := by
        intro h
        obtain ⟨hle, _⟩ | ⟨_, hr⟩ := hsettles h
        · exact absurd (hdeep.mp hover) (by omega)
        · exact hr
      rw [hrefused, hrefused]
      exact ⟨⟨_, _, rfl, by simp [Heap.newObject]⟩, rfl⟩

end Script

/-! ## A tower as text -/

namespace Json

open Script

/-- The text of a tower. -/
def towerText (n : Nat) : List Char := List.replicate (n + 1) '[' ++ List.replicate (n + 1) ']'

theorem towerText_succ (n : Nat) (rest : List Char) :
    towerText (n + 1) ++ rest = '[' :: (towerText n ++ ']' :: rest) := by
  have hclosing : List.replicate (n + 2) ']' = List.replicate (n + 1) ']' ++ [']'] :=
    List.replicate_succ'
  rw [towerText, hclosing, List.replicate_succ, towerText]
  simp

/-- An array begins with its bracket. -/
theorem value_bracket {fuel room : Nat} (hroom : 1 < room) (rest : List Char) :
    value (fuel + 1) room ('[' :: rest) = items fuel (room - 1) true [] rest := by
  have hopen : ¬ room ≤ 1 := by omega
  simp [value, skipBlanks, hopen]

/-- Its first item may be an array too. -/
theorem items_bracket (fuel room : Nat) (rest : List Char) :
    items (fuel + 1) room true [] ('[' :: rest) =
      (value fuel room ('[' :: rest) >>= fun r => items fuel room false [r.1] r.2) := by
  simp [items, skipBlanks]

/-- And it ends with the other bracket. -/
theorem items_close (fuel room : Nat) (first : Bool) (acc : List Json) (rest : List Char) :
    items (fuel + 1) room first acc (']' :: rest) = .ok (.array acc.reverse, rest) := by
  simp [items, skipBlanks]

/-- A tower is read from its text, as long as there is room for its arrays. -/
theorem value_towerText (n : Nat) : ∀ (fuel room : Nat) (rest : List Char), 2 * n + 2 ≤ fuel →
    n + 2 ≤ room → value fuel room (towerText n ++ rest) = .ok (Trees.tower n, rest) := by
  induction n with
  | zero =>
    intro fuel room rest hfuel hroom
    obtain ⟨fuel, rfl⟩ : ∃ f, fuel = f + 2 := ⟨fuel - 2, by omega⟩
    show value (fuel + 2) room ('[' :: ']' :: rest) = _
    rw [value_bracket (by omega), items_close]
    rfl
  | succ n ih =>
    intro fuel room rest hfuel hroom
    obtain ⟨fuel, rfl⟩ : ∃ f, fuel = f + 2 := ⟨fuel - 2, by omega⟩
    have hinner := ih fuel (room - 1) (']' :: rest) (by omega) (by omega)
    obtain ⟨more, hmore⟩ : ∃ more, towerText n ++ ']' :: rest = '[' :: more := ⟨_, rfl⟩
    rw [hmore] at hinner
    rw [towerText_succ, value_bracket (by omega), hmore, items_bracket, hinner]
    -- what is left is the bracket that closes the outer array
    obtain ⟨fuel, rfl⟩ : ∃ f, fuel = f + 1 := ⟨fuel - 1, by omega⟩
    exact items_close fuel (room - 1) false [Trees.tower n] rest

theorem parse_towerText {n : Nat} (hn : n + 2 ≤ maxNesting) :
    parse (String.ofList (towerText n)) = .ok (Trees.tower n) := by
  have hlength : (towerText n).length = 2 * n + 2 := by
    simp [towerText]
    omega
  have hread := value_towerText n (3 * (towerText n).length + 3) maxNesting [] (by omega) hn
  rw [List.append_nil] at hread
  rw [parse, String.toList_ofList]
  dsimp only
  rw [hread]
  rfl

end Json

namespace Script

theorem canonical_tower (n : Nat) : (Trees.tower n).canonical = Trees.tower n := by
  induction n with
  | zero => rfl
  | succ n ih =>
    rw [Trees.tower, Json.canonical, Json.canonicalItems, ih]
    rfl

/-- The parser accepts a tower of 65 arrays, and no value is made of it. -/
theorem overdeep_tower : Overdeep (String.ofList (Json.towerText 64)) := by
  refine ⟨Trees.tower 64, Json.parse_towerText (by decide), ?_⟩
  rw [canonical_tower, (Trees.tower_measures 64).2.2]
  decide

/-! ## A file with it -/

/-- A host where JSON is read from anywhere, with a text in one file. -/
def shelf (text : String) : Host :=
  { tree := ⟨[(["deep.json"], .file text.toUTF8)]⟩, around := ⟨"/", none⟩, policy := {},
    scriptJail := ⟨[]⟩, ioJail := ⟨[]⟩, jsonRoots := ⟨[⟨[]⟩]⟩ }

theorem shelf_walk (text : String) :
    (shelf text).tree.walk Tree.maxLinks [] [.name "deep.json"] = .ok (.entry ["deep.json"]) := by
  rw [Tree.walk_other (e := .file text.toUTF8) rfl (by decide) rfl (fun _ => nofun)]
  exact Tree.walk_nil

theorem shelf_resolve (text : String) :
    (shelf text).jsonRoots.resolve (shelf text).tree (shelf text).around "deep.json" =
      .ok ["deep.json"] := by
  have hanchor : anchorAt (shelf text).around (Location.text []) "deep.json" =
      .ok (Path.join (Location.text []) "deep.json") := by
    rw [anchorAt, if_neg (by decide)]
  have hnormal : Path.normalize (Path.join (Location.text []) "deep.json") = ["deep.json"] := by
    decide +kernel
  have hreal : (shelf text).tree.canonicalize ["deep.json"] = .ok ["deep.json"] :=
    congrArg (· >>= Tree.Target.existing) (shelf_walk text)
  have hharden : harden (shelf text).tree ["deep.json"] = ["deep.json"] := by
    rw [harden, hardenFrom, hreal]
    rfl
  have hjail : (Jail.mk []).resolve (shelf text).tree (shelf text).around "deep.json" =
      .ok ["deep.json"] := by
    rw [Jail.resolve, hanchor, if_neg (by decide)]
    -- everything is below the root of the file system
    show Except.ok (harden (shelf text).tree
      (Path.normalize (Path.join (Location.text []) "deep.json"))) = _
    rw [hnormal, hharden]
  show JailSet.firstResolved _ _ _ _ [Jail.mk []] = _
  rw [JailSet.firstResolved, hjail]

theorem shelf_holdsText (text : String) : (shelf text).HoldsText "deep.json" text := by
  refine ⟨["deep.json"], shelf_resolve text, ?_⟩
  have hsteps : Tree.steps (Location.text ["deep.json"]) = [.name "deep.json"] := by
    decide
  have hexisting : (shelf text).tree.existing (Location.text ["deep.json"]) =
      .ok ["deep.json"] := by
    rw [Tree.existing, Tree.followText, if_neg (by decide), if_neg (by decide),
      hsteps, shelf_walk]
    rfl
  have hread : (shelf text).tree.read (Location.text ["deep.json"]) = .ok text.toUTF8 := by
    rw [Tree.read, hexisting]
    rfl
  exact readText_of_read (by decide) hread

/-- The shelf meets the hypothesis of `decode_read_agree` with any text on it, and with the tower on
    it the calls come to different things. -/
theorem decode_read_agree_shelf :
    (shelf (String.ofList (Json.towerText 64))).HoldsText "deep.json"
        (String.ofList (Json.towerText 64)) ∧
      (readAnswer emptySite {} "deep.json" (shelf (String.ofList (Json.towerText 64)))).1 =
        .done [.nil, .text Trees.tooDeep] {} ∧
      ∃ id h, (decodeAnswer emptySite {} (String.ofList (Json.towerText 64)) mazeHost).1 =
        .fail (.object id) h ∧ h.objects[id]? = some (.failure Trees.tooDeep) := by
  obtain ⟨_, _, _, hover⟩ := @decode_read_agree emptySite emptySite {} {} mazeHost _ _ _
    (shelf_holdsText (String.ofList (Json.towerText 64)))
  obtain ⟨hraised, htold⟩ := hover overdeep_tower
  exact ⟨shelf_holdsText _, htold, hraised⟩

/-- So they do not always come to the same. -/
theorem not_forall_sameOutcome :
    ¬ ∀ (site site' : Site) (h h' : Heap) (s s' : Host) (path text : String),
      s'.HoldsText path text →
      SameOutcome (decodeAnswer site h text s).1 (readAnswer site' h' path s').1 := by
  intro hall
  obtain ⟨j, hparse, hheight⟩ := overdeep_tower
  have hsame := hall emptySite emptySite {} {} mazeHost _ _ _
    (shelf_holdsText (String.ofList (Json.towerText 64)))
  have hrefused : Trees.toValue j.canonical {} = .error Trees.tooDeep := by
    obtain ⟨hle, _⟩ | ⟨_, hr⟩ := Trees.toValueFrom_settles Trees.maxDepth j.canonical {}
    · omega
    · exact hr
  rw [decodeAnswer_eq, hparse] at hsame
  dsimp only at hsame
  rw [hrefused] at hsame
  cases hsame

end Script

end OscHost
