import OscHost.Proofs.Files.Acceptance
import OscHost.Proofs.Loading
/-!
  Resolving what was resolved.

  What a jail accepts is made of the place that the longest part of the request resolves to and of
  the names that are left.  Asking for that again starts at the place itself and so follows none of
  the links on the way to it.  Nothing else is different: the second time more links may be followed
  after that place than the first time, and a walk that did not fail for want of links goes on as it
  did (`Tree.walk_of_le`).

  So a name that is free, that is too long or that lies behind a file stops resolving both times, and
  so does a link that dangles or leads round in a circle by itself.  A link that was one too many the
  first time need not be the second time, and in the maze it is not.
-/

namespace OscHost.Files

namespace Tree

variable {t : Tree} {n m : Nat} {here l k : Location} {xs : List Component} {s : String}

/-! ## The same walk with more links -/

/-- A walk that does not run out of links goes the same way with more of them. -/
theorem walk_of_le (hle : n ≤ m) (h : t.walk n here xs ≠ .error .tooManyLinks) :
    t.walk m here xs = t.walk n here xs := by
  fun_induction t.walk n here xs generalizing m with
  | case1 n here => exact walk_nil
  | case2 n here rest hd ih => exact (walk_root hd).trans (ih hle h)
  | case3 n here rest hd ih => exact (walk_current hd).trans (ih hle h)
  | case4 n here rest hd ih => exact (walk_parent hd).trans (ih hle h)
  | case5 n here rest hd s hs => exact walk_long hd hs
  | case6 n here hd s hs hg => exact (walk_free hd hs hg).trans (if_pos rfl)
  | case7 n here rest hd s hs hg hrest => exact (walk_free hd hs hg).trans (if_neg hrest)
  | case8 => exact absurd rfl h
  | case9 here rest hd s hs n hg =>
    obtain ⟨m, rfl⟩ := Nat.exists_eq_succ_of_ne_zero (Nat.ne_zero_of_lt hle)
    exact walk_blank hd hs hg
  | case10 here rest hd s hs target hg n ht ih =>
    -- one link is taken from what either walk has
    obtain ⟨m, rfl⟩ := Nat.exists_eq_succ_of_ne_zero (Nat.ne_zero_of_lt hle)
    exact (walk_link hd hs hg ht).trans (ih (Nat.le_of_succ_le_succ hle) h)
  | case11 n here rest hd s hs e he hg ih => exact (walk_other hd hs hg he).trans (ih hle h)
  | case12 n here step rest hd => exact walk_stuck hd

/-- A name below a part that resolves is walked to from the place of that part, with what links are
    left. -/
theorem exists_walk_name (hl : t.canonicalize l = .ok here) (s : String) :
    ∃ n ≤ maxLinks, t.canonicalize (l ++ [s]) = t.walk n here [.name s] >>= Target.existing := by
  obtain ⟨n, hn, hwalk⟩ := walk_append (canonicalize_eq_ok.mp hl)
  refine ⟨n, hn, ?_⟩
  rw [canonicalize, follow, List.map_append, hwalk, List.map_singleton]

/-- Asked for below that place, the name may have all links. -/
theorem Real.canonicalize_name (hreal : Real t here) (s : String) :
    t.canonicalize (here ++ [s]) = t.walk maxLinks here [.name s] >>= Target.existing := by
  rw [Tree.canonicalize, follow, List.map_append, hreal.walk_names, List.map_singleton]

/-- So it leads to the same, unless links ran out. -/
theorem Real.canonicalize_name_eq (hreal : Real t here) (hl : t.canonicalize l = .ok here)
    (h : t.canonicalize (l ++ [s]) ≠ .error .tooManyLinks) :
    t.canonicalize (here ++ [s]) = t.canonicalize (l ++ [s]) := by
  obtain ⟨n, hn, hwalk⟩ := exists_walk_name hl s
  rw [hwalk] at h
  rw [hwalk, hreal.canonicalize_name, walk_of_le hn]
  intro herror
  rw [herror] at h
  exact h rfl

/-- Only at a link can links run out. -/
theorem exists_link_of_walk (h : t.walk n here [.name s] = .error .tooManyLinks) :
    ∃ target, t.get? (here ++ [s]) = some (.link target) := by
  by_contra hlink
  by_cases hd : t.get? here = some .directory
  · by_cases hlong : maxName < s.utf8ByteSize
    · rw [walk_long hd hlong] at h
      cases h
    · rcases hg : t.get? (here ++ [s]) with _ | e
      · rw [walk_free hd hlong hg, if_pos rfl] at h
        cases h
      · rw [walk_other hd hlong hg (fun target he => hlink ⟨target, he ▸ hg⟩), walk_nil] at h
        cases h
  · rw [walk_stuck hd] at h
    cases h

theorem bind_existing_eq_tooManyLinks {r : Except FileError Target} :
    r >>= Target.existing = .error .tooManyLinks ↔ r = .error .tooManyLinks := by
  rcases r with e | (l | l)
  · exact ⟨fun h => by cases h; rfl, fun h => by cases h; rfl⟩
  · exact ⟨nofun, nofun⟩
  · exact ⟨nofun, nofun⟩

/-- A real location holds no link. -/
theorem Real.not_link (h : Real t l) (target : String) : t.get? l ≠ some (.link target) := by
  cases h with
  | root => exact nofun
  | child parent directory good short held plain =>
    rw [held]
    exact fun he => plain target (Option.some.inj he)

namespace Resolution

/-- Where resolving stopped, only a link that it had no links left for can lead somewhere. -/
theorem exists_brokenLink (r : Resolution t l) (hreal : Real t r.here) (hs : s ∈ r.tail.head?)
    (hk : t.canonicalize (r.here ++ [s]) = .ok k) :
    ∃ b : BrokenLink t l, b.toResolution = r ∧ b.name = s ∧
      t.canonicalize (b.asked ++ [b.name]) = .error .tooManyLinks := by
  obtain ⟨rest, htail⟩ : ∃ rest, r.tail = s :: rest := List.head?_eq_some_iff.mp hs
  have hout : t.canonicalize (r.asked ++ [s]) = .error .tooManyLinks := by
    by_contra hne
    rw [hreal.canonicalize_name_eq r.resolved hne] at hk
    exact r.stuck s hs k hk
  obtain ⟨n, -, hwalk⟩ := exists_walk_name r.resolved s
  obtain ⟨target, hlink⟩ :=
    exists_link_of_walk (bind_existing_eq_tooManyLinks.mp (hwalk ▸ hout))
  exact ⟨{ r with name := s, rest, target, tail_eq := htail, link := hlink }, rfl, rfl, hout⟩

/-- A hardened location is hardened again without a change exactly when its first name that is left
    leads nowhere from the place before it either. -/
theorem harden_eq_self_iff (r : Resolution t l) (good : ∀ s ∈ l, WellNamed s) :
    harden t (r.here ++ r.tail) = r.here ++ r.tail ↔
      ∀ s ∈ r.tail.head?, ∀ k, t.canonicalize (r.here ++ [s]) ≠ .ok k := by
  have hreal := r.real good
  have hgood : ∀ s ∈ r.here ++ r.tail, WellNamed s := by
    intro s hs
    rcases List.mem_append.mp hs with hs | hs
    · exact hreal.wellNamed s hs
    · exact good s (r.split ▸ List.mem_append_right _ hs)
  constructor
  · intro hself s hs k hk
    obtain ⟨b, rfl, rfl, -⟩ := r.exists_brokenLink hreal hs hk
    -- what the link leads to would be the link's own place, which holds no link
    have hfree := (Files.harden_eq_self_iff hgood).mp hself
    obtain ⟨rest, htail⟩ := List.head?_eq_some_iff.mp hs
    have hpre : b.here ++ [b.name] <+: b.here ++ b.tail := ⟨rest, by rw [htail]; simp⟩
    have hplace : k = b.here ++ [b.name] := hfree _ hpre k hk
    have hplaceReal : Real t (b.here ++ [b.name]) := by
      refine real_of_walk .root (fun a ha => ?_) (canonicalize_eq_ok.mp (hplace ▸ hk))
      obtain ⟨c, hc, he⟩ := List.mem_map.mp ha
      cases he
      exact hgood a (hpre.subset hc)
    exact hplaceReal.not_link b.target b.link
  · intro hstuck
    let again : Resolution t (r.here ++ r.tail) :=
      { asked := r.here, tail := r.tail, here := r.here, split := rfl,
        resolved := hreal.canonicalize, stuck := hstuck }
    obtain ⟨r', hr'⟩ := harden_eq (t := t) (r.here ++ r.tail)
    obtain ⟨-, htail, hhere⟩ := r'.unique again
    rw [hr', htail, hhere]

end Resolution

end Tree

/-! ## Asking again for what was accepted -/

/-- A path that starts at the root is not anchored anywhere else. -/
theorem anchorAt_of_isAbsolute {around : Surroundings} {path : String}
    (h : Path.isAbsolute path = true) (base : String) : anchorAt around base path = .ok path := by
  have hhead : (Path.components path).head? = some .root := by
    rw [Path.components, if_pos h]
    rfl
  rw [anchorAt, hhead, if_neg (by simp), Path.join, if_pos h]

namespace Jail

variable {t : Tree} {around : Surroundings} {j : Jail} {requested : String} {p : Location}

/-- The names of what is accepted are good. -/
theorem wellNamed_of_resolve (h : j.resolve t around requested = .ok p) :
    ∀ s ∈ p, WellNamed s := by
  obtain ⟨r, hr⟩ := harden_eq (t := t) (j.wanted around requested)
  rw [(resolve_eq_ok h).1, hr]
  intro s hs
  rcases List.mem_append.mp hs with hs | hs
  · exact (r.real wellNamed_of_mem_wanted).wellNamed s hs
  · have hwanted : s ∈ j.wanted around requested := by
      rw [r.split]
      exact List.mem_append_right _ hs
    exact wellNamed_of_mem_wanted s hwanted

/-- What is accepted is accepted again, as it is, when hardening leaves it alone. -/
theorem resolve_text_eq_ok_iff (h : j.resolve t around requested = .ok p) :
    j.resolve t around p.text = .ok p ↔ harden t p = p := by
  have habsolute : Path.isAbsolute p.text = true := Location.isAbsolute_text p
  have hne : p.text ≠ "" := by
    intro hempty
    rw [hempty] at habsolute
    exact absurd habsolute (by decide)
  rw [resolve_of_anchored hne (anchorAt_of_isAbsolute habsolute _),
    Location.normalize_text (wellNamed_of_resolve h)]
  constructor
  · intro hagain
    split at hagain
    · exact Except.ok.inj hagain
    · cases hagain
  · intro hself
    rw [hself, if_pos (List.isPrefixOf_iff_prefix.mpr (resolve_eq_ok h).2)]

/-- A request that is accepted as a place is accepted again as that place, exactly when no link at
    which resolving it stopped leads somewhere when asked for from the place before it.

    A link does so only if the links that may be followed ran out at it.  So whatever else resolving
    stops at (a name that is free, a dangling link, a file in the place of a directory), the answer
    stays the same. -/
theorem resolve_resolved_iff (h : j.resolve t around requested = .ok p) :
    (j.resolve t around p.text = .ok p ↔
      ∀ b : t.BrokenLink (j.wanted around requested),
        ∀ k, t.canonicalize (b.here ++ [b.name]) ≠ .ok k) ∧
    ((∀ b : t.BrokenLink (j.wanted around requested),
        t.canonicalize (b.asked ++ [b.name]) ≠ .error .tooManyLinks) →
      j.resolve t around p.text = .ok p) := by
  obtain ⟨r, hr⟩ := harden_eq (t := t) (j.wanted around requested)
  have hreal := r.real wellNamed_of_mem_wanted
  have hp : p = r.here ++ r.tail := (resolve_eq_ok h).1.trans hr
  have hself : harden t p = p ↔ ∀ s ∈ r.tail.head?, ∀ k, t.canonicalize (r.here ++ [s]) ≠ .ok k :=
    hp ▸ r.harden_eq_self_iff wellNamed_of_mem_wanted
  -- the answer comes back if the first name left over leads nowhere from where resolving stopped
  rw [resolve_text_eq_ok_iff h, hself]
  refine ⟨⟨fun hstuck b k hk => ?_, fun hlinks s hs k hk => ?_⟩, fun hlinks s hs k hk => ?_⟩
  · -- every broken link is the one at which this resolution stopped
    obtain ⟨-, htail, hhere⟩ := r.unique b.toResolution
    exact hstuck b.name (by rw [htail, b.tail_eq]; rfl) k (hhere ▸ hk)
  · obtain ⟨b, rfl, rfl, -⟩ := r.exists_brokenLink hreal hs hk
    exact hlinks b k hk
  · -- a name that leads somewhere after all is a link, and only want of links stopped it before
    obtain ⟨b, -, -, hout⟩ := r.exists_brokenLink hreal hs hk
    exact hlinks b hout

/-- The link of the yard dangles. -/
theorem yard_canonicalize_new : yard.canonicalize ["yard", "new"] = .error .notFound :=
  congrArg (· >>= Tree.Target.existing) (yard_walk 39)

theorem yard_wanted : (make yard visitor "yard").wanted visitor "new" = ["yard", "new"] := by
  rw [wanted, make_root yard_canonicalizeText, yard_anchored]
  show Path.normalize "/yard/new" = _
  decide

theorem yard_brokenLink (b : yard.BrokenLink ["yard", "new"]) :
    yard.canonicalize (b.asked ++ [b.name]) = .error .notFound := by
  let r : yard.Resolution ["yard", "new"] :=
    { asked := ["yard"], tail := ["new"], here := ["yard"], split := rfl,
      resolved := yard_canonicalize
      stuck := fun s hs m hm => by
        cases hs
        cases yard_canonicalize_new.symm.trans hm }
  obtain ⟨hasked, htail, -⟩ := r.unique b.toResolution
  have hname : b.name = "new" := (List.cons.inj (b.tail_eq.symm.trans htail.symm)).1
  rw [← hasked, hname]
  exact yard_canonicalize_new

/-- The request for it is accepted, and accepted again. -/
theorem yard_resolve_resolved :
    (make yard visitor "yard").resolve yard visitor "new" = .ok ["yard", "new"] ∧
    (∀ b : yard.BrokenLink ((make yard visitor "yard").wanted visitor "new"),
      yard.canonicalize (b.asked ++ [b.name]) ≠ .error .tooManyLinks) ∧
    (make yard visitor "yard").resolve yard visitor (Location.text ["yard", "new"]) =
      .ok ["yard", "new"] := by
  have hlinks : ∀ b : yard.BrokenLink ((make yard visitor "yard").wanted visitor "new"),
      yard.canonicalize (b.asked ++ [b.name]) ≠ .error .tooManyLinks := by
    rw [yard_wanted]
    intro b
    rw [yard_brokenLink]
    exact nofun
  exact ⟨yard_resolve, hlinks, (resolve_resolved_iff yard_resolve).2 hlinks⟩

/-- In the maze the way out is accepted after forty turns, and refused when it is asked for again. -/
theorem not_forall_resolve_resolved :
    ¬ ∀ (t : Tree) (around : Surroundings) (j : Jail) (requested : String) (p : Location),
      j.resolve t around requested = .ok p → j.resolve t around p.text = .ok p := by
  intro h
  have hagain := h _ _ _ _ _ Script.maze_resolve
  rw [resolve_text_eq_ok_iff Script.maze_resolve] at hagain
  have hout : Script.maze.canonicalize ["lua", "out.lua"] = .ok ["beyond.lua"] := by
    rw [Tree.canonicalize, Tree.follow, List.map_cons, List.map_singleton, Script.maze_enter]
    exact congrArg (· >>= Tree.Target.existing) (Script.maze_leave 39)
  exact absurd ((harden_of_ok hout).symm.trans hagain) (by decide)

end Jail

end OscHost.Files
