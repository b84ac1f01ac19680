import Mathlib.Data.List.Induction
import OscHost.Proofs.Files.Containment
import OscHost.Proofs.Files.NormalForms
/-!
  What a jail accepts inside itself.

  The root of a jail is fixed once: its link-free location if it exists, else the normal form of its
  text.  A request is made link-free each time, as far as it exists.  Below a location nothing
  changes that when no link is met there (`harden_append`): so for requests that meet none, all
  depends on whether the root is as link-free as what is asked below it (`resolve_inside_iff`).

  A root that exists is.  One that does not need not be: if a directory above it is reached through
  a link, every request is taken to where the link leads and refused, even the one for the root
  itself.  The alley at the end is such a place.
-/

namespace OscHost.Files

namespace Tree

variable {t : Tree} {l here m : Location} {s : String} {names : List String}

/-! ## Links on the way and links below -/

/-- Whether no link is on the way to a location, as far as it resolves: each part of it that does is
    its own link-free location. -/
def LinkFree (t : Tree) (l : Location) : Prop :=
  ∀ asked, asked <+: l → ∀ here, t.canonicalize asked = .ok here → here = asked

/-- Whether following some names below a location meets no link: none of them is a link at the place
    that the names before it lead to. -/
def Unlinked (t : Tree) (l : Location) (names : List String) : Prop :=
  ∀ before s, before ++ [s] <+: names → ∀ here target, t.canonicalize (l ++ before) = .ok here →
    t.get? (here ++ [s]) ≠ some (.link target)

theorem Unlinked.nil : Unlinked t l [] := fun before s h => by
  simp at h

/-- A part of what resolves does too. -/
theorem canonicalize_part {more : List String} (h : t.canonicalize (l ++ more) = .ok m) :
    ∃ here, t.canonicalize l = .ok here := by
  by_contra hnone
  have hstuck : ∀ k, t.walk maxLinks [] (l.map .name) ≠ .ok (.entry k) :=
    fun k hk => hnone ⟨k, canonicalize_eq_ok.mpr hk⟩
  have hwalk := canonicalize_eq_ok.mp h
  rw [follow, List.map_append] at hwalk
  exact walk_append_of_not_entry hstuck _ _ hwalk

/-- A name that is no link resolves to the place below, if it resolves at all. -/
theorem canonicalize_name (hl : t.canonicalize l = .ok here)
    (hs : ∀ target, t.get? (here ++ [s]) ≠ some (.link target))
    (h : t.canonicalize (l ++ [s]) = .ok m) : m = here ++ [s] := by
  obtain ⟨n, _, hwalk⟩ := walk_append (canonicalize_eq_ok.mp hl)
  have hm := canonicalize_eq_ok.mp h
  rw [follow, List.map_append, hwalk, List.map_singleton] at hm
  by_cases hd : t.get? here = some .directory
  · by_cases hlong : maxName < s.utf8ByteSize
    · rw [walk_long hd hlong] at hm
      cases hm
    · rcases hg : t.get? (here ++ [s]) with _ | e
      · rw [walk_free hd hlong hg, if_pos rfl] at hm
        cases hm
      · rw [walk_other hd hlong hg (fun target he => hs target (he ▸ hg)), walk_nil] at hm
        cases hm
        rfl
  · rw [walk_stuck hd] at hm
    cases hm

/-- What is real resolves to itself. -/
theorem Real.canonicalize (h : Real t l) : t.canonicalize l = .ok l := by
  refine canonicalize_eq_ok.mpr ?_
  have hnames := h.walk_names maxLinks []
  rwa [List.append_nil, walk_nil] at hnames

/-- So opening it leads there. -/
theorem Real.existing (h : Real t l) (hne : l ≠ []) (hlong : l.text.utf8ByteSize ≤ maxPath) :
    t.existing l.text = .ok l := by
  have hnames := h.walk_names maxLinks []
  rw [List.append_nil, walk_nil] at hnames
  have htext : l.text ≠ "" := by
    intro he
    have hslash : l.text.toList.head? = some '/' := by simp [Location.text]
    rw [he] at hslash
    cases hslash
  refine existing_eq_ok.mpr ?_
  rw [followText, if_neg htext, if_neg (Nat.not_lt.mpr hlong), Location.steps_text h.wellNamed hne]
  exact hnames

/-- So a file that is real is found under its text. -/
theorem Real.isFile {content : ByteArray} (h : Real t l) (hheld : t.get? l = some (.file content))
    (hne : l ≠ []) (hlong : l.text.utf8ByteSize ≤ maxPath) : t.isFile l.text = true := by
  unfold Tree.isFile
  rw [h.existing hne hlong]
  dsimp only
  rw [hheld]

/-- No link is on the way to what is real. -/
theorem Real.linkFree (h : Real t l) : LinkFree t l := by
  induction h with
  | root =>
    intro asked hasked here hhere
    rw [List.prefix_nil.mp hasked, canonicalize_root] at hhere
    cases hhere
    exact (List.prefix_nil.mp hasked).symm
  | @child above s e parent directory good short held plain ih =>
    intro asked hasked here hhere
    rcases List.prefix_concat_iff.mp hasked with rfl | habove
    · have hreal : Real t (above ++ [s]) := .child parent directory good short held plain
      rw [hreal.canonicalize] at hhere
      exact (Except.ok.inj hhere).symm
    · exact ih asked habove here hhere

/-- What the text of a path resolves to is real. -/
theorem real_of_canonicalizeText {path : String} (h : t.canonicalizeText path = .ok l) :
    Real t l := by
  unfold canonicalizeText at h
  split at h
  · cases h
  · exact real_of_walk .root (fun s => wellNamed_of_mem_steps) (bind_existing_eq_ok.mp h)

end Tree

variable {t : Tree} {l : Location} {names : List String}

/-! ## Hardening below a location -/

theorem harden_of_ok {here : Location} (h : t.canonicalize l = .ok here) : harden t l = here := by
  rw [harden, hardenFrom, h]
  exact List.append_nil here

/-- The names that are left stay behind what is made link-free. -/
theorem hardenFrom_append (l : Location) (rest more : List String) :
    hardenFrom t l (rest ++ more) = hardenFrom t l rest ++ more := by
  fun_induction hardenFrom t l rest with
  | case1 l rest real hreal =>
    rw [hardenFrom, hreal]
    exact (List.append_assoc real rest more).symm
  | case2 rest e he =>
    rw [Tree.canonicalize_root] at he
    cases he
  | case3 l rest e he hne ih =>
    rw [hardenFrom, he]
    dsimp only
    rw [dif_neg hne, ← List.cons_append]
    exact ih

/-- A name that leads nowhere stays as it is. -/
theorem harden_name_of_error {s : String} {e : FileError}
    (h : t.canonicalize (l ++ [s]) = .error e) : harden t (l ++ [s]) = harden t l ++ [s] := by
  have hrest : hardenFrom t l ([] ++ [s]) = harden t l ++ [s] := hardenFrom_append l [] [s]
  rw [← hrest, harden, hardenFrom, h]
  dsimp only
  rw [dif_neg (List.append_ne_nil_of_right_ne_nil l (List.cons_ne_nil s [])), List.dropLast_concat,
    List.getLast_concat]
  rfl

/-- Where no link is met, what is below a location stays below what the location is made. -/
theorem harden_append (h : t.Unlinked l names) :
    harden t (l ++ names) = harden t l ++ names := by
  induction names using List.reverseRecOn with
  | nil => rw [List.append_nil, List.append_nil]
  | append_singleton names s ih =>
    have hnames : t.Unlinked l names := fun before s hpre =>
      h before s (hpre.trans (List.prefix_append _ _))
    have habove := ih hnames
    rw [← List.append_assoc, ← List.append_assoc, ← habove]
    rcases hc : t.canonicalize (l ++ names ++ [s]) with e | real
    · exact harden_name_of_error hc
    · obtain ⟨here, hhere⟩ := Tree.canonicalize_part hc
      rw [harden_of_ok hc, harden_of_ok hhere]
      exact Tree.canonicalize_name hhere
        (fun target => h names s (List.prefix_refl _) here target hhere) hc

/-- Making a location link-free changes nothing exactly when no link is on the way to it. -/
theorem harden_eq_self_iff (good : ∀ s ∈ l, WellNamed s) : harden t l = l ↔ t.LinkFree l := by
  obtain ⟨r, hr⟩ := harden_eq (t := t) l
  rw [hr]
  constructor
  · intro heq asked hasked here hhere
    -- the longest part that resolves is real, and every part that resolves is one of its own
    have hself : r.here = r.asked := List.append_cancel_right (heq.trans r.split)
    have hfree : t.LinkFree r.asked := (hself ▸ r.real good : Tree.Real t r.asked).linkFree
    rcases List.prefix_or_prefix_of_prefix hasked ⟨r.tail, r.split.symm⟩ with hle | hge
    · exact hfree asked hle here hhere
    · obtain ⟨more, rfl⟩ := hge
      cases more with
      | nil =>
        rw [List.append_nil] at hhere ⊢
        exact hfree _ (List.prefix_refl _) here hhere
      | cons s more =>
        -- nothing longer resolves
        exfalso
        have htail : r.tail.head? = some s := by
          obtain ⟨rest, hrest⟩ := hasked
          have hsplit : r.asked ++ r.tail = r.asked ++ (s :: more ++ rest) := by
            rw [← List.append_assoc, hrest]
            exact r.split.symm
          rw [List.append_cancel_left hsplit]
          rfl
        rw [List.append_cons] at hhere
        obtain ⟨k, hk⟩ := Tree.canonicalize_part hhere
        exact r.stuck s htail k hk
  · intro hfree
    rw [hfree r.asked ⟨r.tail, r.split.symm⟩ r.here r.resolved]
    exact r.split.symm

/-! ## Requests for what is inside -/

namespace Jail

variable {around : Surroundings} {j : Jail} {requested : String}

/-- The names in the root of a jail are good, whether it exists or not. -/
theorem wellNamed_of_mem_make {root : String} : ∀ s ∈ (make t around root).root, WellNamed s := by
  intro s hs
  unfold make at hs
  dsimp only at hs
  split at hs
  · rename_i real hreal
    exact (Tree.real_of_canonicalizeText hreal).wellNamed s hs
  · exact Path.wellNamed_of_mem_normalize hs

/-- What becomes of a request that can be anchored. -/
theorem resolve_of_anchored {anchored : String} (hne : requested ≠ "")
    (ha : anchorAt around j.root.text requested = .ok anchored) :
    j.resolve t around requested =
      if j.root.isPrefixOf (harden t (Path.normalize anchored)) then
        .ok (harden t (Path.normalize anchored))
      else .error (.outside requested j.root) := by
  rw [resolve, if_neg hne, ha]
  rfl

/-- A request for what some names lead to below the root: it is relative, it does not start at home,
    and its normal form adds the names to the root. -/
structure Asks (j : Jail) (requested : String) (names : List String) : Prop where
  nonempty : requested ≠ ""
  relative : Path.isAbsolute requested = false
  away : (Path.components requested).head? ≠ some (.name homeMark)
  below : (Path.components requested).foldl Path.fold j.root = j.root ++ names

/-- Where no link is met below the root, a request is taken to what it asks for below the link-free
    root, and must still lie below the root as it was fixed. -/
theorem Asks.resolve_eq (hasks : j.Asks requested names) (good : ∀ s ∈ j.root, WellNamed s)
    (hfree : t.Unlinked j.root names) :
    j.resolve t around requested =
      if j.root.isPrefixOf (harden t j.root ++ names) then .ok (harden t j.root ++ names)
      else .error (.outside requested j.root) := by
  have hanchor : anchorAt around j.root.text requested = .ok (Path.join j.root.text requested) :=
    if_neg hasks.away
  rw [resolve_of_anchored hasks.nonempty hanchor, Path.normalize_join, Location.normalize_text good,
    hasks.below, harden_append hfree]

/-- So it comes back as what it asks for below the root exactly when the root is link-free. -/
theorem Asks.resolve_eq_ok_iff (hasks : j.Asks requested names)
    (good : ∀ s ∈ j.root, WellNamed s) (hfree : t.Unlinked j.root names) :
    j.resolve t around requested = .ok (j.root ++ names) ↔ t.LinkFree j.root := by
  rw [hasks.resolve_eq good hfree, ← harden_eq_self_iff good]
  constructor
  · intro h
    split at h
    · exact List.append_cancel_right (Except.ok.inj h)
    · cases h
  · intro hself
    rw [hself, if_pos (List.isPrefixOf_iff_prefix.mpr (List.prefix_append _ _))]

/-- A dot asks for the root itself. -/
theorem asks_dot (j : Jail) : j.Asks "." [] where
  nonempty := by decide
  relative := by decide
  away := by decide
  below := by
    have hdot : Path.components "." = [.current] := by decide
    rw [hdot, List.append_nil]
    rfl

/-- A jail accepts what is inside it exactly when no link is on the way to its root, as far as the
    root resolves.

    What is inside are all names that a request may ask for below the root without meeting a link
    there, among them none at all, which is the root itself.  The way to a root that exists is always
    free of links. -/
theorem resolve_inside_iff (t : Tree) (around : Surroundings) (root : String) :
    (∀ requested names, (make t around root).Asks requested names →
      t.Unlinked (make t around root).root names →
      ((make t around root).resolve t around requested = .ok ((make t around root).root ++ names) ↔
        t.LinkFree (make t around root).root)) ∧
    ((make t around root).resolve t around "." = .ok (make t around root).root ↔
      t.LinkFree (make t around root).root) ∧
    ∀ real, t.canonicalizeText (Path.join around.current root) = .ok real →
      t.LinkFree (make t around root).root := by
  refine ⟨fun requested names hasks hfree => ?_, ?_, fun real hreal => ?_⟩
  · exact hasks.resolve_eq_ok_iff wellNamed_of_mem_make hfree
  · have hdot : (make t around root).resolve t around "." =
        .ok ((make t around root).root ++ []) ↔ _ :=
      (asks_dot (make t around root)).resolve_eq_ok_iff wellNamed_of_mem_make .nil
    rwa [List.append_nil] at hdot
  · rw [make_root hreal]
    exact (Tree.real_of_canonicalizeText hreal).linkFree

/-- In the yard a plan is asked for by way of a shed that is not there. -/
theorem yard_asks : (make yard visitor "yard").Asks "shed/.././plan" ["plan"] where
  nonempty := by decide
  relative := by decide
  away := by decide
  below := by
    have hcomponents : Path.components "shed/.././plan" = [.name "shed", .parent, .name "plan"] := by
      decide
    rw [make_root yard_canonicalizeText, hcomponents]
    rfl

theorem yard_unlinked : yard.Unlinked (make yard visitor "yard").root ["plan"] := by
  rw [make_root yard_canonicalizeText]
  intro before s hpre here target hhere
  cases before with
  | nil =>
    obtain ⟨rfl, -⟩ := List.cons_prefix_cons.mp hpre
    rw [List.append_nil, yard_canonicalize] at hhere
    cases hhere
    exact nofun
  | cons a before =>
    obtain ⟨-, hmore⟩ := List.cons_prefix_cons.mp hpre
    simp at hmore

/-- The yard exists, so its jail accepts the plan. -/
theorem yard_resolve_inside :
    (make yard visitor "yard").Asks "shed/.././plan" ["plan"] ∧
    yard.Unlinked (make yard visitor "yard").root ["plan"] ∧
    yard.canonicalizeText (Path.join visitor.current "yard") = .ok ["yard"] ∧
    (make yard visitor "yard").resolve yard visitor "shed/.././plan" =
      .ok ((make yard visitor "yard").root ++ ["plan"]) :=
  have hinside := resolve_inside_iff yard visitor "yard"
  ⟨yard_asks, yard_unlinked, yard_canonicalizeText,
    (hinside.1 _ _ yard_asks yard_unlinked).mpr (hinside.2.2 _ yard_canonicalizeText)⟩

/-! ## A yard behind an alley -/

/-- An alley that is a link to a street, with no yard in it yet. -/
def alley : Tree := ⟨[(["alley"], .link "/street"), (["street"], .directory)]⟩

/-- The walk turns into the street. -/
theorem alley_walk (n : Nat) (rest : List Component) :
    alley.walk (n + 1) [] (.name "alley" :: rest) = alley.walk n ["street"] rest := by
  have htarget : Tree.steps "/street" = [.name "street"] := by decide
  have hlink : alley.get? ([] ++ ["alley"]) = some (.link "/street") := rfl
  rw [Tree.walk_link rfl (by decide) hlink (by decide), htarget,
    if_pos (by decide)]
  exact Tree.walk_other (e := .directory) rfl (by decide) rfl (fun _ => nofun)

theorem alley_root : (make alley visitor "alley/yard").root = ["alley", "yard"] := by
  have hsteps : Tree.steps (Path.join visitor.current "alley/yard") =
      [.name "alley", .name "yard"] := by decide +kernel
  have hmissing : alley.canonicalizeText (Path.join visitor.current "alley/yard") =
      .error .notFound := by
    rw [Tree.canonicalizeText, if_neg (by decide +kernel), hsteps, Tree.maxLinks, alley_walk,
      Tree.walk_free rfl (by decide) rfl]
    rfl
  rw [make, hmissing]
  show Path.normalize _ = _
  decide +kernel

/-- The alley itself resolves to the street. -/
theorem alley_not_linkFree : ¬ alley.LinkFree ["alley", "yard"] := by
  intro hfree
  have hstreet : alley.canonicalize ["alley"] = .ok ["street"] := by
    refine Tree.canonicalize_eq_ok.mpr ?_
    rw [Tree.follow, List.map_singleton, Tree.maxLinks, alley_walk]
    exact Tree.walk_nil
  exact absurd (hfree ["alley"] ⟨["yard"], rfl⟩ ["street"] hstreet) (by decide)

/-- So a jail may refuse its own root. -/
theorem not_forall_resolve_inside :
    ¬ ∀ (t : Tree) (around : Surroundings) (root requested : String) (names : List String),
      (make t around root).Asks requested names → t.Unlinked (make t around root).root names →
      (make t around root).resolve t around requested =
        .ok ((make t around root).root ++ names) := by
  intro h
  have hdot := h alley visitor "alley/yard" "." [] (asks_dot _) .nil
  rw [(asks_dot _).resolve_eq_ok_iff wellNamed_of_mem_make .nil, alley_root] at hdot
  exact alley_not_linkFree hdot

end Jail

end OscHost.Files
