import OscHost.Host
import OscHost.Proofs.Files.Acceptance
/-!
  Jails where there are no links.

  Without links a path means what its letters say.  `Path.lexical` reads them: an empty piece or a
  dot stays, two dots go up and stop at the root, any other piece goes down.  Walking a tree without
  links goes by the same rule, as far as it gets (`Tree.Plain.eq_of_walk`), so making a location
  link-free changes nothing, and a root is fixed where its letters say whether it exists or not
  (`Jail.make_of_plain`).  What a jail answers is then decided by prefixes of names alone
  (`Jail.refusal_resolve_plain`).
-/

namespace OscHost.Files

namespace Path

/-! ## What the letters of a path say -/

/-- Goes by one piece of a path text. -/
def go (l : Location) (piece : String) : Location :=
  if piece = "" ∨ piece = "." then l
  else if piece = ".." then l.dropLast
  else l ++ [piece]

/-- Where a path text leads from a base by its letters. -/
def lexical (base : Location) (path : String) : Location :=
  (pieces path).foldl go (if isAbsolute path then [] else base)

/-- Where a request leads by its letters: from home when its first piece stands for home. -/
def lexicalRequest (base home : Location) (requested : String) : Location :=
  if (pieces requested).head? = some homeMark then (pieces requested).tail.foldl go home
  else lexical base requested

theorem foldl_go (ps : List String) (l : Location) :
    ps.foldl go l = (ps.filterMap component?).foldl fold l := by
  induction ps generalizing l with
  | nil => rfl
  | cons p ps ih =>
    rw [List.foldl_cons, ih, List.filterMap_cons, go, component?]
    split
    · rfl
    · split <;> rfl

theorem foldl_components_eq_lexical (path : String) (l : Location) :
    (components path).foldl fold l = lexical l path := by
  rw [foldl_components, lexical, foldl_go]
  rfl

theorem normalize_eq_lexical (path : String) : normalize path = lexical [] path :=
  foldl_components_eq_lexical path []

end Path

namespace Tree

variable {t : Tree} {n : Nat} {here l : Location} {xs : List Component}

/-! ## Walks without links -/

/-- Whether there are no links. -/
def Plain (t : Tree) : Prop := ∀ l target, t.get? l ≠ some (.link target)

/-- There are none when there is none among the entries. -/
theorem plain_of_entries (h : ∀ e ∈ t.entries, ∀ target, e.2 ≠ .link target) : t.Plain := by
  intro l target hl
  unfold get? at hl
  split at hl
  · cases hl
  · obtain ⟨e, he, hlink⟩ := Option.map_eq_some_iff.mp hl
    exact h e (List.mem_of_find?_eq_some he) target hlink

/-- Without links a walk ends where its steps say. -/
theorem Plain.eq_of_walk (hplain : t.Plain) (h : t.walk n here xs = .ok (.entry l)) :
    l = xs.foldl Path.fold here := by
  fun_induction t.walk n here xs with
  | case1 n here =>
    cases h
    rfl
  | case2 n here rest hd ih => exact ih h
  | case3 n here rest hd ih => exact ih h
  | case4 n here rest hd ih => exact ih h
  | case10 here rest hd s hs target hg n ht ih => exact absurd hg (hplain _ _)
  | case11 n here rest hd s hs e he hg ih => exact ih h
  | case5 | case6 | case7 | case8 | case9 | case12 => cases h

theorem Plain.linkFree (hplain : t.Plain) (l : Location) : t.LinkFree l := by
  intro asked _ here hhere
  have hwalk := hplain.eq_of_walk (canonicalize_eq_ok.mp hhere)
  rwa [Path.foldl_fold_names, List.nil_append] at hwalk

theorem Plain.canonicalizeText (hplain : t.Plain) {path : String}
    (h : t.canonicalizeText path = .ok l) : l = Path.normalize path := by
  unfold Tree.canonicalizeText at h
  split at h
  · cases h
  · rw [hplain.eq_of_walk (bind_existing_eq_ok.mp h), Path.foldl_steps, Path.normalize_eq_body]

end Tree

namespace Jail

variable {t : Tree} {around : Surroundings} {home root requested : String}

/-! ## Jails without links -/

/-- The root is fixed where its letters say. -/
theorem make_of_plain (hplain : t.Plain) :
    (make t around root).root = Path.lexical (Path.lexical [] around.current) root := by
  have hnormal : (make t around root).root = Path.normalize (Path.join around.current root) := by
    unfold make
    dsimp only
    split
    · rename_i real hreal
      exact hplain.canonicalizeText hreal
    · rfl
  rw [hnormal, Path.normalize_join, Path.normalize_eq_lexical, Path.foldl_components_eq_lexical]

theorem wellNamed_homeMark : WellNamed homeMark := by
  unfold WellNamed
  decide

/-- A request is anchored where its letters say. -/
theorem exists_anchored {j : Jail} (good : ∀ s ∈ j.root, WellNamed s)
    (hhome : around.home = some home) :
    ∃ anchored, anchorAt around j.root.text requested = .ok anchored ∧
      Path.normalize anchored = Path.lexicalRequest j.root (Path.lexical [] home) requested := by
  unfold anchorAt Path.lexicalRequest
  by_cases hfirst : (Path.components requested).head? = some (.name homeMark)
  · obtain ⟨ps, hpieces, -⟩ := Path.pieces_of_head_name hfirst
    rw [if_pos hfirst, hhome, hpieces]
    refine ⟨_, rfl, ?_⟩
    rw [Path.normalize_join, Path.foldl_components, Path.isAbsolute_afterFirst,
      Path.body_afterFirst, hpieces, Path.normalize_eq_lexical]
    exact (Path.foldl_go ps _).symm
  · have hpiece : (Path.pieces requested).head? ≠ some homeMark := fun h =>
      hfirst (Path.head_components_of_pieces wellNamed_homeMark h)
    rw [if_neg hfirst, if_neg hpiece]
    refine ⟨_, rfl, ?_⟩
    rw [Path.normalize_join, Location.normalize_text good, Path.foldl_components_eq_lexical]

/-- Without links a jail answers by letters alone: it accepts a request that is not empty and leads
    to its root or below it, as the location that it leads to, and refuses every other request as a
    violation of policy. -/
theorem refusal_resolve_plain (hplain : t.Plain) (hhome : around.home = some home)
    (root requested : String) :
    let base := Path.lexical (Path.lexical [] around.current) root
    let wanted := Path.lexicalRequest base (Path.lexical [] home) requested
    Host.refusal ((make t around root).resolve t around requested) =
      if requested = "" then .error (.policyViolation "empty path")
      else if base <+: wanted then .ok wanted
      else .error (.policyViolation ("'" ++ requested ++ "' resolves outside " ++ base.text)) := by
  intro base wanted
  have hroot : (make t around root).root = base := make_of_plain hplain
  obtain ⟨anchored, hanchored, hwanted⟩ : ∃ anchored,
      anchorAt around (make t around root).root.text requested = .ok anchored ∧ _ :=
    exists_anchored wellNamed_of_mem_make hhome
  -- without links hardening changes nothing, so only the normal form is left
  have hharden : harden t (Path.normalize anchored) = wanted := by
    rw [(harden_eq_self_iff fun s => Path.wellNamed_of_mem_normalize).mpr (hplain.linkFree _),
      hwanted, hroot]
  by_cases hne : requested = ""
  · rw [resolve, if_pos hne, if_pos hne]
    rfl
  · rw [resolve_of_anchored hne hanchored, hharden, hroot, if_neg hne]
    by_cases hbelow : base <+: wanted
    · rw [if_pos (List.isPrefixOf_iff_prefix.mpr hbelow), if_pos hbelow]
      rfl
    · rw [if_neg (fun h => hbelow (List.isPrefixOf_iff_prefix.mp h)), if_neg hbelow]
      rfl

/-- A court with a bench in it, and nothing else. -/
def court : Tree := ⟨[(["court"], .directory), (["court", "bench"], .file "".toUTF8)]⟩

theorem court_plain : court.Plain := by
  refine Tree.plain_of_entries fun e he => ?_
  rcases List.mem_cons.mp he with rfl | he
  · exact fun _ => nofun
  · rw [List.mem_singleton.mp he]
    exact fun _ => nofun

/-- Someone at home in the lane beside the court. -/
def neighbour : Surroundings := ⟨"/", some "/./court//../lane"⟩

/-- From home up and across the court, past the bench and to a gate that is not there. -/
theorem court_resolve : court.Plain ∧ neighbour.home = some "/./court//../lane" ∧
    Host.refusal ((make court neighbour "court/./").resolve court neighbour
      "~/../court//bench/../gate/.") = .ok ["court", "gate"] :=
  ⟨court_plain, rfl, (refusal_resolve_plain court_plain rfl "court/./"
    "~/../court//bench/../gate/.").trans (by decide +kernel)⟩

end Jail

end OscHost.Files
