import OscHost.Files.Tree
/-!
  Names, and the texts that spell them.

  A `WellNamed` name is one a directory can hold: it is not empty, it is neither of the two dots
  and no separator occurs in it.  Every name that the reading of a path text produces is such a
  name (`wellNamed_of_mem_normalize`, `wellNamed_of_mem_steps`), and for locations made of them
  the text of a location reads back as that location (`steps_text`).  So a location may be handed
  on as a text without a change of meaning.
-/

namespace OscHost.Files

/-- A name that a directory can hold. -/
def WellNamed (s : String) : Prop := s ≠ "" ∧ s ≠ "." ∧ s ≠ ".." ∧ '/' ∉ s.toList

/-! ## Pieces -/

/-- No separator is left in the parts of a split. -/
theorem not_mem_of_mem_splitOn {a : Char} {cs part : List Char} (h : part ∈ cs.splitOn a) :
    a ∉ part := by
  induction cs generalizing part with
  | nil =>
    rw [List.splitOn_nil, List.mem_singleton] at h
    rw [h]
    exact List.not_mem_nil
  | cons c cs ih =>
    rw [List.splitOn_cons_eq_if_modifyHead] at h
    split at h
    · rcases List.mem_cons.mp h with rfl | h
      · exact List.not_mem_nil
      · exact ih h
    · next hne =>
      -- the first part grows by `c`, which is no separator; the others stay
      rcases hs : cs.splitOn a with _ | ⟨first, others⟩
      · rw [hs, List.modifyHead_nil] at h
        exact absurd h List.not_mem_nil
      · rw [hs, List.modifyHead_cons] at h
        rcases List.mem_cons.mp h with rfl | h
        · intro hm
          rcases List.mem_cons.mp hm with rfl | hm
          · exact hne (beq_self_eq_true _)
          · exact ih (hs ▸ List.mem_cons_self) hm
        · exact ih (hs ▸ List.mem_cons_of_mem first h)

namespace Path

/-- A piece has no separator in it. -/
theorem not_mem_of_mem_pieces {path piece : String} (h : piece ∈ pieces path) :
    '/' ∉ piece.toList := by
  obtain ⟨part, hpart, rfl⟩ := List.mem_map.mp h
  rw [String.toList_ofList]
  exact not_mem_of_mem_splitOn hpart

/-- A piece that stands for a name is that name, and it is a good one. -/
theorem component?_eq_name {piece s : String} (hp : '/' ∉ piece.toList)
    (h : component? piece = some (.name s)) : WellNamed s := by
  unfold component? at h
  split at h
  · cases h
  · next hidle =>
    split at h
    · cases h
    · next hup =>
      cases h
      exact ⟨fun he => hidle (.inl he), fun he => hidle (.inr he), hup, hp⟩

/-- A good name stands for itself. -/
theorem component?_of_wellNamed {s : String} (h : WellNamed s) :
    component? s = some (.name s) := by
  unfold component?
  rw [if_neg (not_or.mpr ⟨h.1, h.2.1⟩), if_neg h.2.2.1]

/-- The names among the components of a path are good. -/
theorem wellNamed_of_mem_components {path s : String} (h : .name s ∈ components path) :
    WellNamed s := by
  have body : .name s ∈ (pieces path).filterMap component? := by
    simp only [components] at h
    split at h
    · simpa using h
    · split at h
      · simpa using h
      · exact h
  obtain ⟨piece, hpiece, hs⟩ := List.mem_filterMap.mp body
  exact component?_eq_name (not_mem_of_mem_pieces hpiece) hs

/-- Folding components adds none but their names. -/
theorem mem_foldl_fold {s : String} {cs : List Component} {l : Location}
    (h : s ∈ cs.foldl fold l) : s ∈ l ∨ .name s ∈ cs := by
  induction cs generalizing l with
  | nil => exact .inl h
  | cons c cs ih =>
    rcases ih h with hl | hcs
    · cases c with
      | root => exact absurd hl List.not_mem_nil
      | current => exact .inl hl
      | parent => exact .inl (List.dropLast_subset l hl)
      | name m =>
        rcases List.mem_append.mp hl with hl | hm
        · exact .inl hl
        · rw [List.mem_singleton.mp hm]
          exact .inr List.mem_cons_self
    · exact .inr (List.mem_cons_of_mem c hcs)

/-- The names of a normal form are good. -/
theorem wellNamed_of_mem_normalize {path s : String} (h : s ∈ normalize path) : WellNamed s := by
  rcases mem_foldl_fold h with h | h
  · exact absurd h List.not_mem_nil
  · exact wellNamed_of_mem_components h

end Path

/-! ## Steps -/

namespace Tree

/-- The names among the steps of a path text are good. -/
theorem wellNamed_of_mem_steps {path s : String} (h : .name s ∈ steps path) : WellNamed s := by
  have body : .name s ∈ (Path.pieces path).filterMap
      fun p => if p = "." then some .current else Path.component? p := by
    unfold steps at h
    split at h
    · exact absurd h List.not_mem_nil
    · split at h
      · simpa using h
      · exact h
  obtain ⟨piece, hpiece, hs⟩ := List.mem_filterMap.mp body
  split at hs
  · cases hs
  · exact Path.component?_eq_name (Path.not_mem_of_mem_pieces hpiece) hs

end Tree

namespace Location

/-- The text of a location starts with a separator, and others stand between the names. -/
theorem toList_text (l : Location) :
    l.text.toList = '/' :: ['/'].intercalate (l.map String.toList) := by
  unfold text
  rw [String.toList_append, String.toList_intercalate]
  rfl

theorem isAbsolute_text (l : Location) : Path.isAbsolute l.text = true := by
  rw [Path.isAbsolute, toList_text]
  rfl

/-- The pieces of the text of a location are an empty one and its names. -/
theorem pieces_text {l : Location} (h : ∀ s ∈ l, WellNamed s) (hne : l ≠ []) :
    Path.pieces l.text = "" :: l := by
  have hsplit : (['/'].intercalate (l.map String.toList)).splitOn '/' = l.map String.toList := by
    refine List.splitOn_intercalate '/' ?_ (by simpa using hne)
    intro part hpart
    obtain ⟨s, hs, rfl⟩ := List.mem_map.mp hpart
    exact (h s hs).2.2.2
  unfold Path.pieces
  rw [toList_text, List.splitOn_cons_eq_if_modifyHead, if_pos (beq_self_eq_true _), hsplit]
  simp

/-- Good names are read as names. -/
theorem filterMap_step {l : Location} (h : ∀ s ∈ l, WellNamed s) :
    (l.filterMap fun p => if p = "." then some .current else Path.component? p) =
      l.map .name := by
  induction l with
  | nil => rfl
  | cons s l ih =>
    have hs := h s List.mem_cons_self
    rw [List.filterMap_cons_some (b := .name s)
      (by rw [if_neg hs.2.1, Path.component?_of_wellNamed hs]),
      ih fun m hm => h m (List.mem_cons_of_mem s hm)]
    rfl

/-- The steps of the text of a location are its names. -/
theorem steps_text {l : Location} (h : ∀ s ∈ l, WellNamed s) (hne : l ≠ []) :
    Tree.steps l.text = l.map .name := by
  have hbody : (("" : String) :: l).filterMap
      (fun p => if p = "." then some .current else Path.component? p) = l.map .name := by
    rw [List.filterMap_cons_none (by decide)]
    exact filterMap_step h
  -- the last piece is a name, so the text does not ask for a directory
  have hlast : (("" : String) :: l).getLast? ≠ some "" := by
    rw [List.getLast?_eq_some_getLast (List.cons_ne_nil _ _), List.getLast_cons hne]
    intro he
    exact (h _ (List.getLast_mem hne)).1 (Option.some.inj he)
  unfold Tree.steps
  rw [pieces_text h hne]
  show (if (("" : String) :: l).length ≥ 2 ∧ (("" : String) :: l).getLast? = some "" then _ else _)
    = _
  rw [if_neg (fun hc => hlast hc.2), hbody]

end Location

end OscHost.Files
