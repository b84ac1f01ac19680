import OscHost.Proofs.Files.Lexical
/-!
  Normal forms by a stack.

  A location lists its names from the root down, and reading appends to its end.  Read the other way
  round it is a stack: the pieces of a text are laid on it one after the other, and two dots take off
  what is on top, if anything is (`Path.normalize_eq_stack`).  The text of what results has nothing
  left to take off or leave out, so it is its own normal form; and as the stack is all that the
  second part of a joined path sees of the first, the first may be normalised before it is joined.
-/

namespace OscHost.Files

namespace Path

/-- Lays a piece of a text on a stack of names, the last of which is the first. -/
def lay (stack : List String) (piece : String) : List String :=
  if piece = "" ∨ piece = "." then stack
  else if piece = ".." then stack.tail
  else piece :: stack

theorem reverse_lay (stack : List String) (piece : String) :
    (lay stack piece).reverse = go stack.reverse piece := by
  unfold lay go
  split
  · rfl
  · split
    · exact List.dropLast_reverse.symm
    · rw [List.reverse_cons]

theorem reverse_foldl_lay (ps : List String) (stack : List String) :
    (ps.foldl lay stack).reverse = ps.foldl go stack.reverse := by
  induction ps generalizing stack with
  | nil => rfl
  | cons p ps ih => rw [List.foldl_cons, ih, reverse_lay, List.foldl_cons]

/-- A normal form is what is on the stack in the end. -/
theorem normalize_eq_stack (path : String) :
    normalize path = ((pieces path).foldl lay []).reverse := by
  rw [reverse_foldl_lay, normalize_eq_lexical, lexical, ite_self, List.reverse_nil]

/-- The text of a normal form has its names for components. -/
theorem components_text_normalize (path : String) :
    components (normalize path).text = .root :: (normalize path).map .name := by
  have hbody := Location.body_text fun s (hs : s ∈ normalize path) => wellNamed_of_mem_normalize hs
  unfold components
  dsimp only
  rw [if_pos (Location.isAbsolute_text _)]
  exact congrArg _ hbody

theorem normalize_text_normalize (path : String) :
    normalize (normalize path).text = normalize path :=
  Location.normalize_text fun _ hs => wellNamed_of_mem_normalize hs

/-- The first part of a path may be normalised before the second is joined to it. -/
theorem normalize_join_text (a b : String) :
    normalize (join a b) = normalize (join (normalize a).text b) := by
  rw [normalize_join, normalize_join, normalize_text_normalize]

/-- An absolute path has an absolute normal form, of names alone, that is left on a stack on which
    two dots pop and of which the root is the floor; to normalise it again changes nothing, nor does
    it to normalise the first part of a path before the second is joined to it. -/
theorem normalize_lexically :
    (∀ path : String, isAbsolute path = true →
      isAbsolute (normalize path).text = true ∧
        components (normalize path).text = .root :: (normalize path).map .name ∧
        (∀ s ∈ normalize path, WellNamed s) ∧
        normalize path = ((pieces path).foldl lay []).reverse ∧
        normalize (normalize path).text = normalize path) ∧
    ∀ a b : String, isAbsolute a = true →
      normalize (join a b) = normalize (join (normalize a).text b) := by
  refine ⟨fun path _ => ?_, fun a b _ => normalize_join_text a b⟩
  exact ⟨Location.isAbsolute_text _, components_text_normalize path,
    fun s hs => wellNamed_of_mem_normalize hs, normalize_eq_stack path,
    normalize_text_normalize path⟩

/-- Two dots beyond the root, in one text and in the second of two. -/
theorem normalize_lexically_samples :
    normalize "/x/../../y/./z//.." = ["y"] ∧
      normalize (join "/x/.." "../../y") = normalize (join "/" "../../y") := by
  have hx : normalize "/x/.." = [] := by
    rw [(normalize_lexically.1 "/x/.." (by decide +kernel)).2.2.2.1]
    decide +kernel
  refine ⟨?_, ?_⟩
  · rw [(normalize_lexically.1 "/x/../../y/./z//.." (by decide +kernel)).2.2.2.1]
    decide +kernel
  · rw [normalize_lexically.2 "/x/.." "../../y" (by decide +kernel), hx]
    rfl

end Path

end OscHost.Files
