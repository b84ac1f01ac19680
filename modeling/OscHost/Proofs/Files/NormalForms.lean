import Mathlib.Data.List.Basic
import OscHost.Proofs.Files.Names
/-!
  Normal forms without texts.

  A request is joined to the text of a root, and the joined text is normalised.  None of the text
  matters in the end.  Joining puts a separator between two texts and reading splits at separators,
  so the pieces of the joined text are those of the two (`pieces_separated`), and its normal form is
  the components of the second read onto the normal form of the first (`normalize_join`).  An
  absolute text starts with a component that empties the location, so it needs no case of its own.

  A location is the normal form of its text (`Location.normalize_text`), steps are read as
  components are (`foldl_steps`), and what is left of a path behind its first name reads as the
  pieces behind that name (`body_afterFirst`).
-/

namespace OscHost.Files

namespace Path

/-! ## Reading components -/

/-- What the pieces of a path text stand for, whatever stands at its beginning. -/
def body (path : String) : List Component := (pieces path).filterMap component?

/-- Reading the components of a path onto a location is reading what its pieces stand for, from the
    root if the path is absolute. -/
theorem foldl_components (path : String) (l : Location) :
    (components path).foldl fold l =
      (body path).foldl fold (if isAbsolute path then [] else l) := by
  unfold components
  dsimp only
  split
  · rfl
  · split <;> rfl

theorem normalize_eq_body (path : String) : normalize path = (body path).foldl fold [] := by
  rw [normalize, foldl_components, ite_self]

/-- Names are read one below the other. -/
theorem foldl_fold_names (l : Location) (names : List String) :
    (names.map .name).foldl fold l = l ++ names := by
  induction names generalizing l with
  | nil => exact (List.append_nil l).symm
  | cons s names ih =>
    rw [List.map_cons, List.foldl_cons, ih, fold, List.append_assoc]
    rfl

/-- A dot that is kept as a step is read as if it were left out. -/
theorem foldl_dots (ps : List String) (l : Location) :
    (ps.filterMap fun p => if p = "." then some .current else component? p).foldl fold l =
      (ps.filterMap component?).foldl fold l := by
  induction ps generalizing l with
  | nil => rfl
  | cons p ps ih =>
    by_cases hdot : p = "."
    · have hnone : component? p = none := by rw [hdot]; decide
      rw [List.filterMap_cons, if_pos hdot, List.filterMap_cons_none hnone]
      exact ih l
    · rw [List.filterMap_cons, List.filterMap_cons, if_neg hdot]
      cases component? p with
      | none => exact ih l
      | some c => exact ih (fold l c)

/-- Steps are read as components are: a dot among them asks for a directory, but names nothing. -/
theorem foldl_steps (path : String) (l : Location) :
    (Tree.steps path).foldl fold l = (body path).foldl fold l := by
  unfold Tree.steps body
  split
  · rename_i hpieces
    rw [hpieces]
    rfl
  · dsimp only
    split
    · -- a trailing separator adds one more dot
      rw [List.foldl_append, foldl_dots]
      rfl
    · exact foldl_dots _ l

/-! ## Joined texts -/

theorem pieces_separated (a b : String) : pieces (a ++ "/" ++ b) = pieces a ++ pieces b := by
  have hsplit : (a ++ "/" ++ b).toList.splitOn '/' =
      a.toList.splitOn '/' ++ b.toList.splitOn '/' := by
    rw [String.toList_append, String.toList_append, List.append_assoc]
    exact List.splitOn_append_cons_self a.toList b.toList
  unfold pieces
  rw [hsplit, List.map_append]

theorem body_separated (a b : String) : body (a ++ "/" ++ b) = body a ++ body b := by
  rw [body, pieces_separated, List.filterMap_append]
  rfl

/-- A text that ends in a separator is one with nothing behind its last separator. -/
theorem exists_of_endsWith {base : String} (h : base.endsWith "/") : ∃ a, base = a ++ "/" := by
  rw [String.endsWith_eq_endsWith_toSlice, String.Slice.endsWith_string_iff] at h
  obtain ⟨cs, hcs⟩ := h
  refine ⟨String.ofList cs, ?_⟩
  rw [← String.toList_inj, String.toList_append, String.toList_ofList, hcs, String.copy_toSlice]

theorem body_join (base path : String) :
    body (join base path) = if isAbsolute path then body path else body base ++ body path := by
  have hempty : body "" = [] := by decide
  unfold join
  split
  · rfl
  · split
    · rename_i hbase
      rcases hbase with rfl | hends
      · rw [hempty, String.empty_append]
        rfl
      · obtain ⟨a, rfl⟩ := exists_of_endsWith hends
        have ha : body (a ++ "/") = body a := by
          have hsep := body_separated a ""
          rwa [String.append_empty, hempty, List.append_nil] at hsep
        rw [body_separated, ha]
    · exact body_separated base path

/-- The normal form of a joined path: its second part is read onto the normal form of the first. -/
theorem normalize_join (base path : String) :
    normalize (join base path) = (components path).foldl fold (normalize base) := by
  rw [normalize_eq_body, body_join, foldl_components, normalize_eq_body]
  split
  · rfl
  · rw [List.foldl_append]

/-! ## What is left of a request below home -/

/-- A text put together from pieces reads as they do. -/
theorem body_intercalate {ps : List String} (h : ∀ p ∈ ps, '/' ∉ p.toList) :
    body ("/".intercalate ps) = ps.filterMap component? := by
  by_cases hne : ps = []
  · subst hne
    decide
  · have hsplit : (['/'].intercalate (ps.map String.toList)).splitOn '/' = ps.map String.toList :=
      List.splitOn_intercalate '/' (List.forall_mem_map.mpr h) (by simpa using hne)
    have hpieces : pieces ("/".intercalate ps) = ps := by
      rw [pieces, String.toList_intercalate]
      show (List.splitOn '/' (['/'].intercalate _)).map String.ofList = ps
      rw [hsplit]
      simp
    rw [body, hpieces]

/-- Idle pieces at the beginning stand for nothing. -/
theorem filterMap_dropWhile_idle (ps : List String) :
    (ps.dropWhile isIdle).filterMap component? = ps.filterMap component? := by
  induction ps with
  | nil => rfl
  | cons p ps ih =>
    rw [List.dropWhile_cons]
    split
    · rename_i hidle
      have hnone : component? p = none := by
        unfold component?
        rw [if_pos (by simpa [isIdle] using hidle)]
      rw [List.filterMap_cons_none hnone, ih]
    · rfl

/-- Nor do those at the end. -/
theorem filterMap_trimmed (ps : List String) :
    (((ps.dropWhile isIdle).reverse.dropWhile isIdle).reverse).filterMap component? =
      ps.filterMap component? := by
  rw [List.filterMap_reverse, filterMap_dropWhile_idle, ← List.filterMap_reverse,
    List.reverse_reverse, filterMap_dropWhile_idle]

/-- A text put together from pieces starts at the root only if the first of them is empty. -/
theorem isAbsolute_intercalate {ps : List String} (h : ∀ p ∈ ps, '/' ∉ p.toList)
    (hfirst : ps.head? ≠ some "") : isAbsolute ("/".intercalate ps) = false := by
  unfold isAbsolute
  cases ps with
  | nil => decide
  | cons p ps =>
    have hchars : p.toList ≠ [] := fun hnil =>
      hfirst (congrArg some (String.toList_eq_nil_iff.mp hnil))
    obtain ⟨c, cs, hp⟩ := List.exists_cons_of_ne_nil hchars
    have hc : c ≠ '/' := fun hc => h p (.head _) (by rw [hp, hc]; exact .head _)
    have hhead : ("/".intercalate (p :: ps)).toList.head? = some c := by
      rw [String.toList_intercalate, List.map_cons, hp]
      cases ps <;> rfl
    rw [hhead]
    simpa using hc

/-- What is left of a path behind its first name does not start at the root. -/
theorem isAbsolute_afterFirst (path : String) : isAbsolute (afterFirst path) = false := by
  unfold afterFirst
  dsimp only
  generalize hps : ((pieces path).drop 1).dropWhile isIdle = ps
  have hpre : (ps.reverse.dropWhile isIdle).reverse <+: ps := by
    rw [← List.reverse_suffix, List.reverse_reverse]
    exact List.dropWhile_suffix _
  refine isAbsolute_intercalate (fun p hp => ?_) fun hfirst => ?_
  · have hmem : p ∈ (pieces path).drop 1 := (hps ▸ List.dropWhile_suffix _).mem (hpre.mem hp)
    exact not_mem_of_mem_pieces (List.mem_of_mem_drop hmem)
  · -- the first piece that is left is not idle
    obtain ⟨more, hmore⟩ := List.head?_eq_some_iff.mp hfirst
    have hhead := List.head?_dropWhile_not isIdle ((pieces path).drop 1)
    obtain ⟨rest, hrest⟩ := hpre
    rw [hps, ← hrest, hmore] at hhead
    simp [isIdle] at hhead

theorem body_afterFirst (path : String) :
    body (afterFirst path) = ((pieces path).drop 1).filterMap component? := by
  unfold afterFirst
  dsimp only
  rw [body_intercalate, filterMap_trimmed]
  intro p hp
  have hkept := (List.dropWhile_suffix _).mem (List.mem_reverse.mp hp)
  have hdropped := (List.dropWhile_suffix _).mem (List.mem_reverse.mp hkept)
  exact not_mem_of_mem_pieces (List.mem_of_mem_drop hdropped)

/-- The first piece of a path is empty only if nothing stands before its first separator. -/
theorem pieces_of_relative {path : String} (hne : path ≠ "") (h : isAbsolute path = false) :
    ∃ p ps, pieces path = p :: ps ∧ p ≠ "" := by
  have hchars : path.toList ≠ [] := fun hnil => hne (String.toList_eq_nil_iff.mp hnil)
  obtain ⟨c, cs, hpath⟩ := List.exists_cons_of_ne_nil hchars
  have hc : (c == '/') = false := by
    rw [isAbsolute, hpath] at h
    simpa using h
  obtain ⟨part, parts, hparts⟩ := List.exists_cons_of_ne_nil (List.splitOn_ne_nil '/' cs)
  refine ⟨String.ofList (c :: part), parts.map String.ofList, ?_, by simp⟩
  rw [pieces, hpath, List.splitOn_cons_eq_if_modifyHead, hc, hparts]
  rfl

/-- A path whose first component is a name has that name as its first piece. -/
theorem pieces_of_head_name {path s : String} (h : (components path).head? = some (.name s)) :
    ∃ ps, pieces path = s :: ps ∧ components path = .name s :: ps.filterMap component? := by
  have hrelative : isAbsolute path = false := by
    refine Bool.eq_false_iff.mpr fun habs => ?_
    rw [components, if_pos habs] at h
    cases h
  have hne : path ≠ "" := by
    rintro rfl
    have hnone : components "" = [] := by decide
    rw [hnone] at h
    cases h
  obtain ⟨p, ps, hpieces, hp⟩ := pieces_of_relative hne hrelative
  unfold components at h ⊢
  dsimp only at h ⊢
  rw [hrelative, hpieces] at h ⊢
  rw [if_neg Bool.false_ne_true] at h ⊢
  by_cases hdot : p = "."
  · rw [if_pos (by rw [hdot]; rfl)] at h
    cases h
  · rw [if_neg (by simpa using hdot)] at h ⊢
    -- the first piece is not idle, so the first name comes from it
    obtain ⟨c, hc⟩ : ∃ c, component? p = some c := by
      unfold component?
      rw [if_neg (not_or.mpr ⟨hp, hdot⟩)]
      split <;> exact ⟨_, rfl⟩
    rw [List.filterMap_cons_some hc] at h ⊢
    cases h
    have hname : p = s := by
      unfold component? at hc
      split at hc
      · cases hc
      · split at hc <;> cases hc
        rfl
    exact ⟨ps, by rw [hname], rfl⟩

/-- An absolute path begins with an empty piece. -/
theorem head_pieces_of_isAbsolute {path : String} (h : isAbsolute path = true) :
    (pieces path).head? = some "" := by
  obtain ⟨cs, hpath⟩ := List.head?_eq_some_iff.mp (beq_iff_eq.mp h)
  rw [pieces, hpath, List.splitOn_cons_eq_if_modifyHead, if_pos (beq_self_eq_true _)]
  rfl

/-- A path whose first piece is a name has that name as its first component. -/
theorem head_components_of_pieces {path s : String} (hs : WellNamed s)
    (h : (pieces path).head? = some s) : (components path).head? = some (.name s) := by
  have hrelative : isAbsolute path = false := by
    refine Bool.eq_false_iff.mpr fun habs => ?_
    rw [head_pieces_of_isAbsolute habs] at h
    exact hs.1 (Option.some.inj h).symm
  obtain ⟨ps, hpieces⟩ := List.head?_eq_some_iff.mp h
  unfold components
  dsimp only
  rw [hrelative, if_neg Bool.false_ne_true, hpieces,
    if_neg (by simpa using hs.2.1), List.filterMap_cons_some (component?_of_wellNamed hs)]
  rfl

end Path

namespace Location

/-- The text of a location reads as its names. -/
theorem body_text {l : Location} (h : ∀ s ∈ l, WellNamed s) : Path.body l.text = l.map .name := by
  by_cases hne : l = []
  · rw [hne]
    decide
  · rw [Path.body, pieces_text h hne, List.filterMap_cons_none (by decide)]
    exact List.filterMap_eq_map_iff_forall_eq_some.mpr fun s hs =>
      Path.component?_of_wellNamed (h s hs)

/-- A location is the normal form of its text. -/
theorem normalize_text {l : Location} (h : ∀ s ∈ l, WellNamed s) : Path.normalize l.text = l := by
  rw [Path.normalize_eq_body, body_text h, Path.foldl_fold_names, List.nil_append]

end Location

end OscHost.Files
