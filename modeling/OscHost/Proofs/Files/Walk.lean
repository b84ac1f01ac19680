import OscHost.Proofs.Files.Names
/-!
  What a walk does, and where it can end.

  One equation per kind of step comes first (`walk_root`, …, `walk_other`); nothing after them
  opens `walk` again.  Two facts carry everything else.  A walk that reaches an entry can be
  continued from there (`walk_append`), with no more links left than it started with.  And what
  it reaches is `Real` (`real_of_walk`): directories lead to it, and neither it nor anything
  above it is a link.  A real location is reached by following its own names without meeting a
  link (`Real.walk_names`), so opening its text leads to that very place.
-/

namespace OscHost.Files

/-- A computation in two parts succeeds when both do. -/
theorem bind_eq_ok {ε α β : Type} {x : Except ε α} {f : α → Except ε β} {b : β} :
    x >>= f = .ok b ↔ ∃ a, x = .ok a ∧ f a = .ok b := by
  cases x with
  | error e => exact ⟨nofun, nofun⟩
  | ok a => exact ⟨fun h => ⟨a, rfl, h⟩, fun ⟨_, ha, h⟩ => Except.ok.inj ha ▸ h⟩

namespace Tree

/-- The location of what a path leads to. -/
def Target.location : Target → Location
  | .entry l => l
  | .free l => l

/-- Only entries exist. -/
theorem bind_existing_eq_ok {r : Except FileError Target} {l : Location} :
    r >>= Target.existing = .ok l ↔ r = .ok (.entry l) := by
  rw [bind_eq_ok]
  constructor
  · rintro ⟨q, rfl, hq⟩
    cases q <;> cases hq
    rfl
  · rintro rfl
    exact ⟨.entry l, rfl, rfl⟩

variable {t : Tree} {n : Nat} {here l : Location} {rest xs : List Component} {s : String}

/-! ## One step -/

theorem walk_nil : t.walk n here [] = .ok (.entry here) := by
  rw [walk]

theorem walk_root (hd : t.get? here = some .directory) :
    t.walk n here (.root :: rest) = t.walk n [] rest := by
  rw [walk, hd]

theorem walk_current (hd : t.get? here = some .directory) :
    t.walk n here (.current :: rest) = t.walk n here rest := by
  rw [walk, hd]

theorem walk_parent (hd : t.get? here = some .directory) :
    t.walk n here (.parent :: rest) = t.walk n here.dropLast rest := by
  rw [walk, hd]

/-- A name that is too long for the file system ends the walk. -/
theorem walk_long (hd : t.get? here = some .directory) (hs : maxName < s.utf8ByteSize) :
    t.walk n here (.name s :: rest) = .error .nameTooLong := by
  rw [walk, hd]
  exact if_pos hs

/-- Where a name leads depends on what is stored under it. -/
theorem walk_name (hd : t.get? here = some .directory) (hs : ¬ maxName < s.utf8ByteSize) :
    t.walk n here (.name s :: rest) =
      match t.get? (here ++ [s]) with
      | none => if rest = [] then .ok (.free (here ++ [s])) else .error .notFound
      | some (.link target) =>
        match n with
        | 0 => .error .tooManyLinks
        | n + 1 =>
          if target = "" then .error .notFound
          else t.walk n (if Path.isAbsolute target then [] else here) (steps target ++ rest)
      | some _ => t.walk n (here ++ [s]) rest := by
  rw [walk, hd]
  exact if_neg hs

/-- A name nothing is stored under can only be the last one. -/
theorem walk_free (hd : t.get? here = some .directory) (hs : ¬ maxName < s.utf8ByteSize)
    (hg : t.get? (here ++ [s]) = none) :
    t.walk n here (.name s :: rest) =
      if rest = [] then .ok (.free (here ++ [s])) else .error .notFound := by
  rw [walk_name hd hs, hg]

/-- A link is replaced by its target, if another link may be followed. -/
theorem walk_link {target : String} (hd : t.get? here = some .directory)
    (hs : ¬ maxName < s.utf8ByteSize) (hg : t.get? (here ++ [s]) = some (.link target))
    (ht : target ≠ "") :
    t.walk (n + 1) here (.name s :: rest) =
      t.walk n (if Path.isAbsolute target then [] else here) (steps target ++ rest) := by
  rw [walk_name hd hs, hg]
  exact if_neg ht

/-- A link without a target leads nowhere. -/
theorem walk_blank (hd : t.get? here = some .directory) (hs : ¬ maxName < s.utf8ByteSize)
    (hg : t.get? (here ++ [s]) = some (.link "")) :
    t.walk (n + 1) here (.name s :: rest) = .error .notFound := by
  rw [walk_name hd hs, hg]
  exact if_pos rfl

/-- When no more links may be followed, a link ends the walk. -/
theorem walk_exhausted {target : String} (hd : t.get? here = some .directory)
    (hs : ¬ maxName < s.utf8ByteSize) (hg : t.get? (here ++ [s]) = some (.link target)) :
    t.walk 0 here (.name s :: rest) = .error .tooManyLinks := by
  rw [walk_name hd hs, hg]

/-- A file or a directory is walked onto. -/
theorem walk_other {e : Entry} (hd : t.get? here = some .directory)
    (hs : ¬ maxName < s.utf8ByteSize) (hg : t.get? (here ++ [s]) = some e)
    (he : ∀ target, e ≠ .link target) :
    t.walk n here (.name s :: rest) = t.walk n (here ++ [s]) rest := by
  rw [walk_name hd hs, hg]
  cases e with
  | link target => exact absurd rfl (he target)
  | file _ => rfl
  | directory => rfl

/-- Only in a directory can a step be taken. -/
theorem walk_stuck {step : Component} (hd : t.get? here ≠ some .directory) :
    t.walk n here (step :: rest) = .error .notDirectory := by
  cases step <;>
  · rw [walk]
    split
    · next h => exact absurd h hd
    · rfl

/-! ## Continuing a walk -/

/-- A walk that reaches an entry goes on from there, and has followed no fewer links than none. -/
theorem walk_append (h : t.walk n here xs = .ok (.entry l)) :
    ∃ m, m ≤ n ∧ ∀ ys, t.walk n here (xs ++ ys) = t.walk m l ys := by
  fun_induction t.walk n here xs with
  | case1 n here =>
    cases h
    exact ⟨n, Nat.le_refl n, fun ys => rfl⟩
  | case2 n here rest hd ih =>
    obtain ⟨m, hm, ih⟩ := ih h
    exact ⟨m, hm, fun ys => (walk_root hd).trans (ih ys)⟩
  | case3 n here rest hd ih =>
    obtain ⟨m, hm, ih⟩ := ih h
    exact ⟨m, hm, fun ys => (walk_current hd).trans (ih ys)⟩
  | case4 n here rest hd ih =>
    obtain ⟨m, hm, ih⟩ := ih h
    exact ⟨m, hm, fun ys => (walk_parent hd).trans (ih ys)⟩
  | case10 here rest hd s hs target hg n ht ih =>
    -- the link's target is walked before what was left and what is added
    obtain ⟨m, hm, ih⟩ := ih h
    refine ⟨m, Nat.le_succ_of_le hm, fun ys => ?_⟩
    rw [List.cons_append, walk_link hd hs hg ht, ← List.append_assoc]
    exact ih ys
  | case11 n here rest hd s hs e he hg ih =>
    obtain ⟨m, hm, ih⟩ := ih h
    exact ⟨m, hm, fun ys => (walk_other hd hs hg he).trans (ih ys)⟩
  | case5 | case6 | case7 | case8 | case9 | case12 => cases h

/-- More steps do not help a walk that reaches no entry. -/
theorem walk_append_of_not_entry (h : ∀ l, t.walk n here xs ≠ .ok (.entry l))
    (ys : List Component) (l : Location) : t.walk n here (xs ++ ys) ≠ .ok (.entry l) := by
  fun_induction t.walk n here xs with
  | case1 n here => exact absurd rfl (h here)
  | case2 n here rest hd ih =>
    rw [List.cons_append, walk_root hd]
    exact ih h
  | case3 n here rest hd ih =>
    rw [List.cons_append, walk_current hd]
    exact ih h
  | case4 n here rest hd ih =>
    rw [List.cons_append, walk_parent hd]
    exact ih h
  -- where the shorter walk has failed, the longer one fails at the same step
  | case5 n here rest hd s hs =>
    rw [List.cons_append, walk_long hd hs]
    exact nofun
  | case6 n here hd s hs hg =>
    rw [List.cons_append, walk_free hd hs hg]
    split <;> exact nofun
  | case7 n here rest hd s hs hg =>
    rw [List.cons_append, walk_free hd hs hg]
    split <;> exact nofun
  | case8 here rest hd s hs target hg =>
    rw [List.cons_append, walk_exhausted hd hs hg]
    exact nofun
  | case9 here rest hd s hs n hg =>
    rw [List.cons_append, walk_blank hd hs hg]
    exact nofun
  -- a link puts its target before what is left, and the additional steps stay behind both
  | case10 here rest hd s hs target hg n ht ih =>
    rw [List.cons_append, walk_link hd hs hg ht, ← List.append_assoc]
    exact ih h
  | case11 n here rest hd s hs e he hg ih =>
    rw [List.cons_append, walk_other hd hs hg he]
    exact ih h
  | case12 n here step rest hd =>
    rw [List.cons_append, walk_stuck hd]
    exact nofun

/-! ## Real locations -/

/-- A location that directories lead to and that holds something, with no link on the way. -/
inductive Real (t : Tree) : Location → Prop
  | root : Real t []
  | child {above : Location} {s : String} {e : Entry} (parent : Real t above)
      (directory : t.get? above = some .directory) (good : WellNamed s)
      (short : ¬ maxName < s.utf8ByteSize) (held : t.get? (above ++ [s]) = some e)
      (plain : ∀ target, e ≠ .link target) : Real t (above ++ [s])

/-- What lies above a real location is real. -/
theorem Real.dropLast (h : Real t l) : Real t l.dropLast := by
  cases h with
  | root => exact .root
  | child parent =>
    rw [List.dropLast_concat]
    exact parent

/-- The names of a real location are good. -/
theorem Real.wellNamed (h : Real t l) : ∀ s ∈ l, WellNamed s := by
  induction h with
  | root => exact nofun
  | child _ _ good _ _ _ ih =>
    intro s hs
    rcases List.mem_append.mp hs with hs | hs
    · exact ih s hs
    · exact List.mem_singleton.mp hs ▸ good

/-- Following the names of a real location leads to it and meets no link. -/
theorem Real.walk_names (h : Real t l) (n : Nat) (ys : List Component) :
    t.walk n [] (l.map .name ++ ys) = t.walk n l ys := by
  induction h generalizing ys with
  | root => rfl
  | child _ directory _ short held plain ih =>
    rw [List.map_append, List.append_assoc, ih]
    exact walk_other directory short held plain

/-- A walk over good names from a real location ends at a real one. -/
theorem real_of_walk (hhere : Real t here) (hxs : ∀ s, .name s ∈ xs → WellNamed s)
    (h : t.walk n here xs = .ok (.entry l)) : Real t l := by
  fun_induction t.walk n here xs with
  | case1 n here =>
    cases h
    exact hhere
  | case2 n here rest hd ih => exact ih .root (fun s hs => hxs s (.tail _ hs)) h
  | case3 n here rest hd ih => exact ih hhere (fun s hs => hxs s (.tail _ hs)) h
  | case4 n here rest hd ih => exact ih hhere.dropLast (fun s hs => hxs s (.tail _ hs)) h
  -- the steps of a target are good names as well, since they are pieces of a text
  | case10 here rest hd s hs target hg n ht ih =>
    refine ih ?_ (fun m hm => ?_) h
    · split
      · exact .root
      · exact hhere
    · rcases List.mem_append.mp hm with hm | hm
      · exact wellNamed_of_mem_steps hm
      · exact hxs m (.tail _ hm)
  -- an entry that is no link, below a real directory, is real
  | case11 n here rest hd s hs e he hg ih =>
    exact ih (.child hhere hd (hxs s List.mem_cons_self) hs hg he)
      (fun m hm => hxs m (.tail _ hm)) h
  | case5 | case6 | case7 | case8 | case9 | case12 => cases h

end Tree

end OscHost.Files
