import OscHost.Files.Jail
import OscHost.Settings
import Mathlib.Data.List.Forall2
/-!
  The directories that a configuration names.

  A tree asks for some directories (`Settings.Asks`) or it is malformed, and reading it tells these
  two apart.  A directory stands for a place below home, for itself if it starts at the root of the
  file system, or for a place below the script root (`Files.Stands`).  The only ones that may stand
  for nothing are those below a home that is missing.
-/

namespace OscHost.Files

variable {around : Surroundings} {base dir path : String} {dirs : List String}

/-! ## What directories stand for -/

/-- Whether a directory is named by its place below home. -/
def BelowHome (dir : String) : Prop := (Path.components dir).head? = some (.name homeMark)

instance (dir : String) : Decidable (BelowHome dir) := inferInstanceAs (Decidable (_ = _))

/-- The path that a directory stands for. -/
inductive Stands (around : Surroundings) (base : String) : String → String → Prop
  | home {dir home : String} (hdir : BelowHome dir) (hhome : around.home = some home) :
      Stands around base dir (Path.join home (Path.afterFirst dir))
  | itself {dir : String} (hdir : Path.isAbsolute dir = true) : Stands around base dir dir
  | below {dir : String} (hdir : ¬ BelowHome dir) (hrelative : Path.isAbsolute dir = false) :
      Stands around base dir (Path.join base dir)

theorem not_belowHome_of_isAbsolute (h : Path.isAbsolute dir = true) : ¬ BelowHome dir := by
  rw [BelowHome, Path.components, if_pos h]
  nofun

theorem anchorAt_eq (around : Surroundings) (base dir : String) :
    anchorAt around base dir =
      if BelowHome dir then
        match around.home with
        | none => .error .noHome
        | some home => .ok (Path.join home (Path.afterFirst dir))
      else .ok (Path.join base dir) := rfl

theorem anchorAt_eq_ok_iff : anchorAt around base dir = .ok path ↔ Stands around base dir path := by
  rw [anchorAt_eq]
  constructor
  · intro h
    split at h
    · next hdir =>
      split at h <;> cases h
      exact .home hdir ‹_›
    · next hdir =>
      cases h
      cases hrelative : Path.isAbsolute dir with
      | true =>
        rw [Path.join, if_pos hrelative]
        exact .itself hrelative
      | false => exact .below hdir hrelative
  · rintro (⟨hdir, hhome⟩ | habsolute | ⟨hdir, hrelative⟩)
    · rw [if_pos hdir, hhome]
    · rw [if_neg (not_belowHome_of_isAbsolute habsolute), Path.join, if_pos habsolute]
    · rw [if_neg hdir]

/-- The only thing that may be missing is a home. -/
theorem anchorAt_of_homeless (hhome : around.home = none) (hdir : BelowHome dir) :
    anchorAt around base dir = .error .noHome := by
  rw [anchorAt_eq, if_pos hdir, hhome]

theorem exists_stands (base : String) (h : around.home = none → ¬ BelowHome dir) :
    ∃ path, Stands around base dir path := by
  by_cases hdir : BelowHome dir
  · cases hhome : around.home with
    | none => exact absurd hdir (h hhome)
    | some home => exact ⟨_, .home hdir hhome⟩
  · cases hrelative : Path.isAbsolute dir with
    | true => exact ⟨_, .itself hrelative⟩
    | false => exact ⟨_, .below hdir hrelative⟩

theorem exists_forall₂_stands (base : String)
    (h : around.home = none → ∀ dir ∈ dirs, ¬ BelowHome dir) :
    ∃ paths, List.Forall₂ (Stands around base) dirs paths := by
  induction dirs with
  | nil => exact ⟨[], .nil⟩
  | cons dir rest ih =>
    obtain ⟨path, hpath⟩ :=
      exists_stands base fun hhome => h hhome dir List.mem_cons_self
    obtain ⟨paths, hpaths⟩ := ih fun hhome dir hdir => h hhome dir (.tail _ hdir)
    exact ⟨path :: paths, .cons hpath hpaths⟩

end OscHost.Files

namespace OscHost.Settings

variable {tree value : Json} {members : List (String × Json)} {dirs : List String}

/-! ## What trees ask for -/

/-- The directories that a tree asks for. -/
inductive Asks : Json → List String → Prop
  | null : Asks .null []
  | empty : Asks (.array []) []
  | unset {members : List (String × Json)} (h : Json.lookup members "io_dirs" = none) :
      Asks (.object members) []
  | one {members : List (String × Json)} {dir : String}
      (h : Json.lookup members "io_dirs" = some (.string dir)) : Asks (.object members) [dir]
  | many {members : List (String × Json)} {dirs : List String}
      (h : Json.lookup members "io_dirs" = some (.array (dirs.map .string))) :
      Asks (.object members) dirs

/-- Whether a tree says nothing that is understood. -/
inductive Malformed : Json → Prop
  | shape {tree : Json} (hnull : tree ≠ .null) (hempty : tree ≠ .array [])
      (hobject : ∀ members, tree ≠ .object members) : Malformed tree
  | entries {members : List (String × Json)} {value : Json}
      (h : Json.lookup members "io_dirs" = some value) (hone : ∀ dir, value ≠ .string dir)
      (hmany : ∀ dirs : List String, value ≠ .array (dirs.map .string)) :
      Malformed (.object members)

theorem text?_eq_some {dir : String} : text? value = some dir ↔ value = .string dir := by
  cases value <;> simp [text?]

theorem mapM_text?_eq_some {items : List Json} :
    items.mapM text? = some dirs ↔ items = dirs.map .string := by
  induction items generalizing dirs with
  | nil => cases dirs <;> simp
  | cons item items ih =>
    simp only [List.mapM_cons, Option.bind_eq_bind, Option.bind_eq_some_iff, text?_eq_some, ih]
    constructor
    · rintro ⟨dir, rfl, rest, rfl, hdirs⟩
      cases hdirs
      rfl
    · intro h
      cases dirs with
      | nil => cases h
      | cons dir rest =>
        cases h
        exact ⟨dir, rfl, rest, rfl, rfl⟩

theorem dirs?_eq_some :
    dirs? value = some dirs ↔
      (∃ dir, value = .string dir ∧ dirs = [dir]) ∨ value = .array (dirs.map .string) := by
  cases value with
  | string dir => simp [dirs?, eq_comm]
  | array items => simp [dirs?, mapM_text?_eq_some]
  | _ => simp [dirs?]

theorem ofJson_eq_ok_iff : (∃ unknown, ofJson tree = .ok ⟨dirs, unknown⟩) ↔ Asks tree dirs := by
  constructor
  · -- a constructor of `Asks` for each branch that succeeds
    rintro ⟨unknown, h⟩
    unfold ofJson at h
    split at h
    · cases h
      exact .null
    · cases h
      exact .empty
    · split at h
      · cases h
        exact .unset ‹_›
      · next members value hvalue =>
        split at h <;> cases h
        obtain ⟨dir, rfl, rfl⟩ | rfl := dirs?_eq_some.mp ‹_›
        · exact .one hvalue
        · exact .many hvalue
    · cases h
  · intro h
    cases h with
    | null => exact ⟨_, rfl⟩
    | empty => exact ⟨_, rfl⟩
    | unset h => exact ⟨_, by rw [ofJson, h]⟩
    | one h => exact ⟨_, by rw [ofJson, h]; rfl⟩
    | many h =>
      have hdirs : dirs? (.array (dirs.map .string)) = some dirs := dirs?_eq_some.mpr (.inr rfl)
      exact ⟨_, by rw [ofJson, h]; dsimp only; rw [hdirs]⟩

theorem ofJson_of_malformed (h : Malformed tree) :
    ∃ text, ofJson tree = .error (.configLoad text) := by
  cases h with
  | shape hnull hempty hobject =>
    unfold ofJson
    split
    · exact absurd rfl hnull
    · exact absurd rfl hempty
    · exact absurd rfl (hobject _)
    · exact ⟨_, rfl⟩
  | entries h hone hmany =>
    have hdirs : dirs? _ = none := Option.eq_none_iff_forall_ne_some.mpr fun dirs hdirs => by
      obtain ⟨dir, hdir, -⟩ | hdirs := dirs?_eq_some.mp hdirs
      · exact hone dir hdir
      · exact hmany dirs hdirs
    exact ⟨_, by rw [ofJson, h]; dsimp only; rw [hdirs]⟩

/-- There is no third kind of tree. -/
theorem malformed_or_asks (tree : Json) : Malformed tree ∨ ∃ dirs, Asks tree dirs := by
  by_cases hasks : ∃ dirs, Asks tree dirs
  · exact .inr hasks
  · left
    cases tree with
    | object members =>
      cases hvalue : Json.lookup members "io_dirs" with
      | none => exact absurd ⟨[], .unset hvalue⟩ hasks
      | some value =>
        refine .entries hvalue ?_ ?_
        · rintro dir rfl
          exact hasks ⟨[dir], .one hvalue⟩
        · rintro dirs rfl
          exact hasks ⟨dirs, .many hvalue⟩
    | _ => exact .shape (fun h => hasks ⟨[], h ▸ .null⟩) (fun h => hasks ⟨[], h ▸ .empty⟩) nofun

end OscHost.Settings
