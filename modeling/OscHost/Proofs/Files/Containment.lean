import Mathlib.Data.List.Basic
import OscHost.Files.Jail
import OscHost.Proofs.Files.Walk
/-!
  Where an accepted request leads.

  A jail makes the longest part of a request that resolves link-free and appends the names that
  are left (`harden_eq`).  The result is a text, and opening the text walks it again.  The walk
  passes the link-free part without a surprise; what the first name left over holds decides the
  rest (`Resolution.opened`).  If it is free, the place is the one the jail accepted.  If it is a
  link, one that resolving could not get past (it dangles, or no more links could be followed),
  then the open follows it, and the jail has not looked at where it leads.

  So a jail contains what it accepts exactly when no such broken link leads out of it.  The yard
  at the end has a dangling link that does.
-/

namespace OscHost.Files

/-! ## Resolving what exists -/

namespace Tree

variable {t : Tree} {l m : Location}

theorem canonicalize_eq_ok : t.canonicalize l = .ok m ↔ t.follow l = .ok (.entry m) :=
  bind_existing_eq_ok

theorem canonicalize_root : t.canonicalize [] = .ok [] :=
  canonicalize_eq_ok.mpr walk_nil

/-- Text that can be opened can be walked. -/
theorem walk_of_followText {path : String} {q : Target} (h : t.followText path = .ok q) :
    t.walk maxLinks [] (steps path) = .ok q := by
  unfold followText at h
  split at h
  · cases h
  · split at h
    · cases h
    · exact h

/-- The longest part of a location that resolves: `asked` leads to `here`, and one more of the
    names in `tail` would lead nowhere. -/
structure Resolution (t : Tree) (l : Location) where
  asked : Location
  tail : List String
  here : Location
  split : l = asked ++ tail
  resolved : t.canonicalize asked = .ok here
  stuck : ∀ s ∈ tail.head?, ∀ m, t.canonicalize (asked ++ [s]) ≠ .ok m

/-- A link at which resolving a location stops. -/
structure BrokenLink (t : Tree) (l : Location) extends Resolution t l where
  name : String
  rest : List String
  target : String
  tail_eq : tail = name :: rest
  link : t.get? (here ++ [name]) = some (.link target)

/-- What opening finds behind a broken link: its target, then the names below it. -/
def BrokenLink.leadsTo (b : BrokenLink t l) : Except FileError Target :=
  t.walk (maxLinks - 1) (if Path.isAbsolute b.target then [] else b.here)
    (steps b.target ++ b.rest.map .name)

/-- Past a link that resolving stopped at, a walk goes where the link leads. -/
theorem BrokenLink.leadsTo_of_walk (b : BrokenLink t l) {q : Target}
    (h : t.walk maxLinks b.here (b.tail.map .name) = .ok q) : b.leadsTo = .ok q := by
  rw [b.tail_eq, List.map_cons] at h
  by_cases hd : t.get? b.here = some .directory
  · by_cases hlong : maxName < b.name.utf8ByteSize
    · rw [walk_long hd hlong] at h
      cases h
    · have htarget : b.target ≠ "" := by
        intro ht
        rw [show maxLinks = 39 + 1 from rfl, walk_blank hd hlong (ht ▸ b.link)] at h
        cases h
      rw [show maxLinks = 39 + 1 from rfl, walk_link hd hlong b.link htarget] at h
      exact h
  · rw [walk_stuck hd] at h
    cases h

namespace Resolution

/-- A part that resolves is no longer than the one where resolving stopped. -/
theorem asked_length_le (r r' : Resolution t l) : r'.asked.length ≤ r.asked.length := by
  rcases Nat.lt_or_ge r.asked.length r'.asked.length with hlt | hge
  · -- one name more than `r.asked` would be a part of `r'.asked`, and resolve with it
    exfalso
    obtain ⟨s, more, hs⟩ : ∃ s more, r'.asked = r.asked ++ s :: more := by
      have hpre : r.asked <+: r'.asked :=
        List.prefix_of_prefix_length_le ⟨r.tail, r.split.symm⟩ ⟨r'.tail, r'.split.symm⟩
          (Nat.le_of_lt hlt)
      obtain ⟨more, hmore⟩ := hpre
      cases more with
      | nil =>
        rw [← hmore, List.append_nil] at hlt
        exact absurd hlt (Nat.lt_irrefl _)
      | cons s more => exact ⟨s, more, hmore.symm⟩
    have htail : r.tail = s :: (more ++ r'.tail) := by
      have h := r.split.symm.trans r'.split
      rw [hs, List.append_assoc] at h
      exact List.append_cancel_left h
    have hfail : ∀ k, t.walk maxLinks [] ((r.asked ++ [s]).map .name) ≠ .ok (.entry k) :=
      fun k hk => r.stuck s (by rw [htail]; rfl) k (canonicalize_eq_ok.mpr hk)
    refine walk_append_of_not_entry hfail (more.map .name) r'.here ?_
    rw [← List.map_append, List.append_assoc]
    show t.follow (r.asked ++ s :: more) = _
    rw [← hs]
    exact canonicalize_eq_ok.mp r'.resolved
  · exact hge

/-- There is one longest part that resolves. -/
theorem unique (r r' : Resolution t l) :
    r.asked = r'.asked ∧ r.tail = r'.tail ∧ r.here = r'.here := by
  have hlen : r.asked.length = r'.asked.length :=
    Nat.le_antisymm (asked_length_le r' r) (asked_length_le r r')
  obtain ⟨hasked, htail⟩ := List.append_inj (r.split.symm.trans r'.split) hlen
  refine ⟨hasked, htail, ?_⟩
  have h := r.resolved
  rw [hasked, r'.resolved] at h
  exact (Except.ok.inj h).symm

variable (good : ∀ s ∈ l, WellNamed s)

include good in
/-- The part that resolves leads to a real location. -/
theorem real (r : Resolution t l) : Real t r.here := by
  refine real_of_walk .root ?_ (canonicalize_eq_ok.mp r.resolved)
  intro s hs
  obtain ⟨m, hm, he⟩ := List.mem_map.mp hs
  cases he
  exact good s (r.split ▸ List.mem_append_left _ hm)

include good in
/-- Opening the text of a hardened location walks on from the part that resolves. -/
theorem walk_tail (r : Resolution t l) {q : Target}
    (h : t.followText (Location.text (r.here ++ r.tail)) = .ok q) :
    t.walk maxLinks r.here (r.tail.map .name) = .ok q := by
  have hreal := r.real good
  have hwalk := walk_of_followText h
  rcases List.eq_nil_or_concat (r.here ++ r.tail) with hnil | ⟨init, last, hconcat⟩
  · -- the root of the file system: its text asks for a directory, and it is one
    obtain ⟨hhere, htail⟩ := List.append_eq_nil_iff.mp hnil
    have hsteps : steps (Location.text []) = [.current] := by decide
    rw [hnil, hsteps, walk_current rfl, walk_nil] at hwalk
    rw [hhere, htail, ← hwalk]
    exact walk_nil
  · have hgood : ∀ s ∈ r.here ++ r.tail, WellNamed s := by
      intro s hs
      rcases List.mem_append.mp hs with hs | hs
      · exact hreal.wellNamed s hs
      · exact good s (r.split ▸ List.mem_append_right _ hs)
    rw [Location.steps_text hgood (by simp [hconcat]), List.map_append,
      hreal.walk_names] at hwalk
    exact hwalk

include good in
/-- What an open reaches beyond the part that resolves: nothing is left over, or one free name
    is, or a link is next and is followed. -/
theorem opened (r : Resolution t l) {q : Target}
    (h : t.followText (Location.text (r.here ++ r.tail)) = .ok q) :
    (r.tail = [] ∧ q = .entry r.here) ∨
    (∃ s, r.tail = [s] ∧ t.get? (r.here ++ [s]) = none ∧ q = .free (r.here ++ [s])) ∨
    ∃ b : BrokenLink t l, b.leadsTo = .ok q := by
  have hwalk := r.walk_tail good h
  rcases htail : r.tail with _ | ⟨s, rest⟩
  · rw [htail] at hwalk
    cases walk_nil.symm.trans hwalk
    exact .inl ⟨rfl, rfl⟩
  · rw [htail, List.map_cons] at hwalk
    by_cases hd : t.get? r.here = some .directory
    · by_cases hlong : maxName < s.utf8ByteSize
      · rw [walk_long hd hlong] at hwalk
        cases hwalk
      · rcases hg : t.get? (r.here ++ [s]) with _ | e
        · -- a free name: only the last one can be opened
          rw [walk_free hd hlong hg] at hwalk
          split at hwalk
          · next hrest =>
            cases hwalk
            rw [List.map_eq_nil_iff.mp hrest]
            exact .inr (.inl ⟨s, rfl, hg, rfl⟩)
          · cases hwalk
        · by_cases hlink : ∃ target, e = .link target
          · obtain ⟨target, rfl⟩ := hlink
            let b : BrokenLink t l :=
              { r with name := s, rest, target, tail_eq := htail, link := hg }
            exact .inr (.inr ⟨b, b.leadsTo_of_walk (r.walk_tail good h)⟩)
          · -- anything else would have been resolved
            exfalso
            obtain ⟨n, -, happend⟩ := walk_append (canonicalize_eq_ok.mp r.resolved)
            refine r.stuck s (by rw [htail]; rfl) (r.here ++ [s]) (canonicalize_eq_ok.mpr ?_)
            rw [follow, List.map_append, happend, List.map_singleton,
              walk_other hd hlong hg (fun target he => hlink ⟨target, he⟩), walk_nil]
    · rw [walk_stuck hd] at hwalk
      cases hwalk

include good in
/-- An open that meets a broken link goes where the link leads. -/
theorem opened_of_brokenLink (r : Resolution t l) (b : BrokenLink t l) {q : Target}
    (h : t.followText (Location.text (r.here ++ r.tail)) = .ok q) : b.leadsTo = .ok q := by
  obtain ⟨-, htail, hhere⟩ := r.unique b.toResolution
  refine b.leadsTo_of_walk ?_
  rw [← htail, ← hhere]
  exact r.walk_tail good h

end Resolution

/-! ## Opening, creating, writing -/

/-- The locations that opening, creating or writing a path text gets at. -/
inductive Reaches (t : Tree) (path : String) : Location → Prop
  | opens {l : Location} (h : t.existing path = .ok l) : Reaches t path l
  | creates {l : Location} (h : t.followText path = .ok (.free l)) : Reaches t path l
  | writes {l : Location} (h : t.writable path = .ok l) : Reaches t path l

theorem existing_eq_ok {path : String} :
    t.existing path = .ok l ↔ t.followText path = .ok (.entry l) :=
  bind_existing_eq_ok

/-- Writing puts the bytes where the path text leads. -/
theorem followText_of_writable {path : String} (h : t.writable path = .ok l) :
    ∃ q, t.followText path = .ok q ∧ q.location = l := by
  unfold writable at h
  split at h
  · -- a trailing separator: nothing is ever written
    rcases hf : t.followText path with e | q
    · rw [hf] at h
      cases h
    · rw [hf] at h
      cases q <;> cases h
  · obtain ⟨q, hq, h⟩ := bind_eq_ok.mp h
    refine ⟨q, hq, ?_⟩
    cases q with
    | free k =>
      cases h
      rfl
    | entry k =>
      dsimp only at h
      split at h <;> cases h
      rfl

/-- Whichever way a location is got at, the path text leads there. -/
theorem Reaches.followText {path : String} (h : Reaches t path l) :
    ∃ q, t.followText path = .ok q ∧ q.location = l := by
  cases h with
  | opens h => exact ⟨.entry l, existing_eq_ok.mp h, rfl⟩
  | creates h => exact ⟨.free l, h, rfl⟩
  | writes h => exact followText_of_writable h

end Tree

/-! ## Hardening -/

variable {t : Tree}

theorem hardenFrom_eq (l : Location) (rest : List String)
    (hstuck : ∀ s ∈ rest.head?, ∀ m, t.canonicalize (l ++ [s]) ≠ .ok m) :
    ∃ r : Tree.Resolution t (l ++ rest), hardenFrom t l rest = r.here ++ r.tail := by
  fun_induction hardenFrom t l rest with
  | case1 l rest real hreal => exact ⟨⟨l, rest, real, rfl, hreal, hstuck⟩, rfl⟩
  | case2 rest e he =>
    rw [Tree.canonicalize_root] at he
    cases he
  | case3 l rest e he hne ih =>
    -- `l` itself does not resolve, so the search goes on above it
    have hlast : l.dropLast ++ [l.getLast hne] = l := List.dropLast_concat_getLast hne
    have hih := ih (by
      intro s hs m
      cases hs
      rw [hlast, he]
      exact nofun)
    rw [List.append_cons, hlast] at hih
    exact hih

/-- Hardening resolves the longest part that it can and keeps the names that are left. -/
theorem harden_eq (l : Location) :
    ∃ r : Tree.Resolution t l, harden t l = r.here ++ r.tail := by
  have h := hardenFrom_eq (t := t) l [] nofun
  rw [List.append_nil] at h
  exact h

/-- What opening a hardened location gets at lies below a root above that location exactly when
    every link at which resolving stopped leads below that root. -/
theorem below_iff_of_harden {root l wanted : Location} (good : ∀ s ∈ wanted, WellNamed s)
    (hroot : root <+: harden t wanted) (hl : t.Reaches (harden t wanted).text l) :
    root <+: l ↔
      ∀ b : Tree.BrokenLink t wanted, ∀ q, b.leadsTo = .ok q → root <+: q.location := by
  obtain ⟨r, hr⟩ := harden_eq (t := t) wanted
  rw [hr] at hroot hl
  obtain ⟨q, hq, rfl⟩ := hl.followText
  constructor
  · intro hin b q' hb
    rw [r.opened_of_brokenLink good b hq] at hb
    cases hb
    exact hin
  · intro hlinks
    rcases r.opened good hq with ⟨htail, rfl⟩ | ⟨s, htail, -, rfl⟩ | ⟨b, hb⟩
    · rw [htail, List.append_nil] at hroot
      exact hroot
    · rw [htail] at hroot
      exact hroot
    · exact hlinks b q hb

/-! ## Accepted requests -/

namespace Jail

variable {around : Surroundings} {j : Jail} {requested : String} {p l real : Location}

/-- The location a request names before any link is looked at. -/
def wanted (j : Jail) (around : Surroundings) (requested : String) : Location :=
  match anchorAt around j.root.text requested with
  | .ok anchored => Path.normalize anchored
  | .error _ => []

theorem wellNamed_of_mem_wanted : ∀ s ∈ j.wanted around requested, WellNamed s := by
  intro s hs
  unfold wanted at hs
  split at hs
  · exact Path.wellNamed_of_mem_normalize hs
  · exact absurd hs List.not_mem_nil

/-- An accepted request is what it names, hardened, and lies below the root. -/
theorem resolve_eq_ok (h : j.resolve t around requested = .ok p) :
    p = harden t (j.wanted around requested) ∧ j.root <+: p := by
  unfold resolve at h
  split at h
  · cases h
  · rcases ha : anchorAt around j.root.text requested with e | anchored
    · rw [ha] at h
      cases h
    · rw [ha] at h
      change (if j.root.isPrefixOf (harden t (Path.normalize anchored)) = true
        then Except.ok (harden t (Path.normalize anchored)) else _) = _ at h
      split at h
      · next hpre =>
        cases h
        refine ⟨?_, List.isPrefixOf_iff_prefix.mp hpre⟩
        rw [wanted, ha]
      · cases h

/-- The root of a jail at a place that exists is that place, free of links. -/
theorem make_root {root : String}
    (h : t.canonicalizeText (Path.join around.current root) = .ok real) :
    (make t around root).root = real := by
  simp only [make, h]

/-- A jail contains what it accepts exactly when no broken link on the way leads out of it.

    The root exists, the request is accepted as `p`, and opening, creating or writing `p` gets at
    `l`.  Then `l` is the root or lies below it if and only if every link at which resolving the
    request stopped leads to such a place. -/
theorem opened_below_root_iff {root : String}
    (hroot : t.canonicalizeText (Path.join around.current root) = .ok real)
    (hp : (make t around root).resolve t around requested = .ok p)
    (hl : t.Reaches p.text l) :
    real <+: l ↔
      ∀ b : Tree.BrokenLink t ((make t around root).wanted around requested),
        ∀ q, b.leadsTo = .ok q → real <+: q.location := by
  obtain ⟨rfl, hbelow⟩ := resolve_eq_ok hp
  rw [make_root hroot] at hbelow
  exact below_iff_of_harden wellNamed_of_mem_wanted hbelow hl

/-! ## A yard with a dangling link -/

/-- A jail `yard` with a link in it to a name outside that is free. -/
def yard : Tree := ⟨[(["yard"], .directory), (["yard", "new"], .link "../street")]⟩

/-- Someone who stands at the root of the file system. -/
def visitor : Surroundings := ⟨"/", none⟩

theorem yard_link : yard.get? (["yard"] ++ ["new"]) = some (.link "../street") := rfl

/-- The walk over the link goes on into the street. -/
theorem yard_walk (n : Nat) :
    yard.walk (n + 1) [] [.name "yard", .name "new"] = .ok (.free ["street"]) := by
  have htarget : Tree.steps "../street" = [.parent, .name "street"] := by decide
  calc yard.walk (n + 1) [] [.name "yard", .name "new"]
    _ = yard.walk (n + 1) ["yard"] [.name "new"] :=
        Tree.walk_other (e := .directory) rfl (by decide) rfl (fun _ => nofun)
    _ = yard.walk n ["yard"] [.parent, .name "street"] := by
        rw [Tree.walk_link rfl (by decide) yard_link (by decide),
          if_neg (by decide), htarget, List.append_nil]
    _ = yard.walk n [] [.name "street"] := Tree.walk_parent rfl
    _ = .ok (.free ["street"]) := Tree.walk_free rfl (by decide) rfl

theorem yard_canonicalize : yard.canonicalize ["yard"] = .ok ["yard"] := by
  refine Tree.canonicalize_eq_ok.mpr ?_
  rw [Tree.follow, List.map_singleton,
    Tree.walk_other (e := .directory) rfl (by decide) rfl (fun _ => nofun)]
  exact Tree.walk_nil

theorem yard_canonicalizeText :
    yard.canonicalizeText (Path.join visitor.current "yard") = .ok ["yard"] := by
  have hsteps : Tree.steps (Path.join visitor.current "yard") = [.name "yard"] := by
    decide +kernel
  rw [Tree.canonicalizeText, if_neg (by decide +kernel), hsteps]
  exact yard_canonicalize

theorem yard_anchored : anchorAt visitor (Location.text ["yard"]) "new" = .ok "/yard/new" := by
  have hname : (Path.components "new").head? = some (.name "new") := by decide
  rw [anchorAt, hname, if_neg (by decide)]
  exact congrArg Except.ok (by decide +kernel)

/-- The link does not resolve, so only the yard is made link-free and the name is kept. -/
theorem yard_resolve :
    (make yard visitor "yard").resolve yard visitor "new" = .ok ["yard", "new"] := by
  have hnormal : Path.normalize "/yard/new" = ["yard", "new"] := by decide
  have hnew : yard.canonicalize ["yard", "new"] = .error .notFound :=
    congrArg (· >>= Tree.Target.existing) (yard_walk 39)
  have hharden : harden yard ["yard", "new"] = ["yard", "new"] := by
    rw [harden, hardenFrom, hnew]
    show hardenFrom yard ["yard"] ["new"] = _
    rw [hardenFrom, yard_canonicalize]
    rfl
  rw [resolve, make_root yard_canonicalizeText, yard_anchored, if_neg (by decide)]
  show (if List.isPrefixOf ["yard"] (harden yard (Path.normalize "/yard/new")) = true
    then _ else _) = _
  rw [hnormal, hharden]
  rfl

/-- The accepted path creates a file beside the yard. -/
theorem yard_reaches_street : yard.Reaches (Location.text ["yard", "new"]) ["street"] := by
  have hsteps : Tree.steps (Location.text ["yard", "new"]) = [.name "yard", .name "new"] := by
    decide
  refine .creates ?_
  rw [Tree.followText, if_neg (by decide), if_neg (by decide), hsteps]
  exact yard_walk 39

/-- The yard meets every hypothesis of `opened_below_root_iff`, and the link in it is what the
    equivalence is about. -/
theorem yard_opened_below_root_iff :
    yard.canonicalizeText (Path.join visitor.current "yard") = .ok ["yard"] ∧
    (make yard visitor "yard").resolve yard visitor "new" = .ok ["yard", "new"] ∧
    yard.Reaches (Location.text ["yard", "new"]) ["street"] ∧
    (["yard"] <+: ["street"] ↔
      ∀ b : Tree.BrokenLink yard ((make yard visitor "yard").wanted visitor "new"),
        ∀ q, b.leadsTo = .ok q → ["yard"] <+: q.location) :=
  ⟨yard_canonicalizeText, yard_resolve, yard_reaches_street,
    opened_below_root_iff yard_canonicalizeText yard_resolve yard_reaches_street⟩

/-- So an accepted path can be opened outside the root. -/
theorem not_forall_opened_below_root :
    ¬ ∀ (t : Tree) (around : Surroundings) (root requested : String) (real p l : Location),
      t.canonicalizeText (Path.join around.current root) = .ok real →
      (make t around root).resolve t around requested = .ok p →
      t.Reaches p.text l → real <+: l := by
  intro h
  have hout := h yard visitor "yard" "new" ["yard"] ["yard", "new"] ["street"]
    yard_canonicalizeText yard_resolve yard_reaches_street
  exact absurd (List.isPrefixOf_iff_prefix.mpr hout) (by decide)

end Jail

end OscHost.Files
