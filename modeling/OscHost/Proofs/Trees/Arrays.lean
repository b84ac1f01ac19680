import OscHost.Proofs.Trees.Shapes
/-!
  Which tables are arrays.

  A traversal counts the entries and keeps the greatest of the keys, and the length of the table is
  any border of it.  That is enough to know: different positive integers, the greatest of which is
  their count, are all of `1, …, n` (`listLike_of_greatest`), and a table of these has no border but
  `n` (`Border.eq_of_listLike`).  So the order of the traversal and the choice of the border do not
  matter (`shapeOf_exact`).
-/

namespace OscHost.Script

namespace Table

/-- Whether entries are what is in a table, each key once, in any order. -/
structure Enumerates (t : Table) (entries : List (Key × Value)) : Prop where
  distinct : (entries.map (·.1)).Nodup
  mem_iff : ∀ k v, (k, v) ∈ entries ↔ v ≠ .nil ∧ t.get k = v

/-- Whether a number is a border of a table: zero or a key that is there, with no value for the next
    integer. -/
structure Border (t : Table) (n : Nat) : Prop where
  fits : n ≤ lastPlace
  last : n = 0 ∨ t.get (.place (n - 1)) ≠ .nil
  next : n < lastPlace → t.get (.place n) = .nil

variable {t : Table} {entries entries' : List (Key × Value)} {n m : Nat}

theorem Lawful.enumerates (ht : t.Lawful) : t.Enumerates t.entries :=
  ⟨ht.entries_distinct, fun _ _ => ht.mem_entries_iff⟩

theorem Lawful.border_length (ht : t.Lawful) : t.Border t.length :=
  ⟨ht.fits, ht.length_border.1, ht.length_border.2⟩

namespace Enumerates

theorem perm (h : t.Enumerates entries) (hp : entries.Perm entries') : t.Enumerates entries' :=
  ⟨(hp.map _).nodup_iff.mp h.distinct, fun k v => hp.mem_iff.symm.trans (h.mem_iff k v)⟩

theorem mem_keys_iff (h : t.Enumerates entries) (k : Key) :
    k ∈ entries.map (·.1) ↔ t.get k ≠ .nil := by
  rw [List.mem_map]
  constructor
  · rintro ⟨⟨k, v⟩, he, rfl⟩
    obtain ⟨hv, hget⟩ := (h.mem_iff k v).mp he
    exact hget ▸ hv
  · exact fun hk => ⟨(k, t.get k), (h.mem_iff _ _).mpr ⟨hk, rfl⟩, rfl⟩

end Enumerates

/-- A table of `1, …, n` has one border. -/
theorem Border.eq_of_listLike (hm : t.Border m) (h : t.ListLike n) : m = n := by
  obtain ⟨hn, hkeys⟩ := h
  have hfits := hm.fits
  have hle : m ≤ n := by
    rcases hm.last with hzero | hlast
    · omega
    · obtain ⟨i, hi, hplace⟩ := (hkeys _).mp hlast
      have := place_inj (by omega) (by omega) hplace
      omega
  have hge : n ≤ m := by
    by_contra hlt
    exact (hkeys (.place m)).mpr ⟨m, by omega, rfl⟩ (hm.next (by omega))
  omega

end Table

namespace Trees

open Table

variable {t : Table} {entries : List (Key × Value)} {n length top so : Nat}

/-! ## The greatest key -/

theorem positive?_eq_some_iff {k : Key} {m : Nat} :
    positive? k = some m ↔ ∃ i < lastPlace, k = .place i ∧ m = i + 1 := by
  constructor
  · intro h
    cases k with
    | int n =>
      unfold positive? at h
      dsimp only at h
      split at h
      · rename_i hone
        rw [Int64.le_iff_toInt_le] at hone
        have hpos : 1 ≤ n.toInt := hone
        have hm : n.toInt.toNat = m := Option.some.inj h
        obtain ⟨hplace, hlast⟩ := int_eq_place (n := n) (i := m - 1) (by omega)
        exact ⟨m - 1, hlast, hplace, by omega⟩
      · cases h
    | _ => cases h
  · rintro ⟨i, hi, rfl, rfl⟩
    exact positive?_place (by omega) (by unfold lastPlace at hi; omega)

/-- If there is a greatest key all keys are places, and none is beyond it. -/
theorem place_of_greatest (h : greatest entries so = some top) {k : Key}
    (hk : k ∈ entries.map (·.1)) : ∃ i < lastPlace, k = .place i ∧ i < top := by
  obtain ⟨⟨k, v⟩, he, rfl⟩ := List.mem_map.mp hk
  cases hkey : positive? k with
  | none =>
    rw [greatest_eq_none he hkey] at h
    cases h
  | some m =>
    have hle := (le_greatest h).2 _ he _ hkey
    obtain ⟨i, hi, rfl, rfl⟩ := positive?_eq_some_iff.mp hkey
    exact ⟨i, hi, rfl, hle⟩

/-- And it is one of them, if it is not what the search began with. -/
theorem greatest_of_places (so : Nat) (h : ∀ k ∈ entries.map (·.1), ∃ i < lastPlace, k = .place i) :
    ∃ top, greatest entries so = some top ∧
      (top = so ∨ ∃ i < lastPlace, .place i ∈ entries.map (·.1) ∧ top = i + 1) := by
  induction entries generalizing so with
  | nil => exact ⟨so, rfl, .inl rfl⟩
  | cons e entries ih =>
    rw [List.map_cons, List.forall_mem_cons] at h
    obtain ⟨⟨i, hi, hkey⟩, hrest⟩ := h
    have hpositive : positive? e.1 = some (i + 1) := positive?_eq_some_iff.mpr ⟨i, hi, hkey, rfl⟩
    obtain ⟨top, htop, hfrom⟩ := ih (max so (i + 1)) hrest
    refine ⟨top, by rw [greatest, hpositive]; exact htop, ?_⟩
    rw [List.map_cons]
    rcases hfrom with hfrom | ⟨j, hj, hmem, rfl⟩
    · rcases Nat.le_total so (i + 1) with hle | hle
      · exact .inr ⟨i, hi, hkey ▸ .head _, by omega⟩
      · exact .inl (by omega)
    · exact .inr ⟨j, hj, .tail _ hmem, rfl⟩

/-! ## Shapes -/

theorem mem_places_iff {k : Key} : k ∈ (List.range n).map Key.place ↔ ∃ i < n, k = .place i := by
  rw [List.mem_map]
  constructor
  · rintro ⟨i, hi, rfl⟩
    exact ⟨i, List.mem_range.mp hi, rfl⟩
  · rintro ⟨i, hi, rfl⟩
    exact ⟨i, List.mem_range.mpr hi, rfl⟩

/-- Different places, as many as the greatest of them, are all up to it. -/
theorem listLike_of_greatest (he : t.Enumerates entries)
    (h : greatest entries 0 = some entries.length) : t.ListLike entries.length := by
  have hplace (k : Key) (hk : k ∈ entries.map (·.1)) := place_of_greatest h hk
  have hfits : (entries.map (·.1)).Subperm ((List.range lastPlace).map .place) :=
    List.subperm_of_subset he.distinct fun k hk => by
      obtain ⟨i, hi, rfl, -⟩ := hplace k hk
      exact mem_places_iff.mpr ⟨i, hi, rfl⟩
  have hperm : (entries.map (·.1)).Perm ((List.range entries.length).map .place) := by
    refine (List.subperm_of_subset he.distinct fun k hk => ?_).perm_of_length_le ?_
    · obtain ⟨i, -, rfl, hi⟩ := hplace k hk
      exact mem_places_iff.mpr ⟨i, hi, rfl⟩
    · exact Nat.le_of_eq (by rw [List.length_map, List.length_map, List.length_range])
  refine ⟨?_, fun k => ?_⟩
  · have hle := hfits.length_le
    rwa [List.length_map, List.length_map, List.length_range] at hle
  · rw [← he.mem_keys_iff, hperm.mem_iff, mem_places_iff]

/-- A table of `1, …, n` has `n` entries, the greatest key of which is `n`. -/
theorem greatest_of_listLike (he : t.Enumerates entries) (h : t.ListLike n) :
    entries.length = n ∧ greatest entries 0 = some n := by
  obtain ⟨hn, hkeys⟩ := h
  have hmem (k : Key) : k ∈ entries.map (·.1) ↔ ∃ i < n, k = .place i :=
    (he.mem_keys_iff k).trans (hkeys k)
  have hdistinct : ((List.range n).map Key.place).Nodup := by
    refine List.Nodup.map_on (fun i hi j hj hij => ?_) List.nodup_range
    have := List.mem_range.mp hi
    have := List.mem_range.mp hj
    exact place_inj (by omega) (by omega) hij
  -- the keys are without repetition on both sides, so they are the places in some order
  have hperm : (entries.map (·.1)).Perm ((List.range n).map .place) :=
    (List.perm_ext_iff_of_nodup he.distinct hdistinct).mpr fun k =>
      (hmem k).trans mem_places_iff.symm
  have hlength := hperm.length_eq
  rw [List.length_map, List.length_map, List.length_range] at hlength
  refine ⟨hlength, ?_⟩
  have hplaces : ∀ k ∈ entries.map (·.1), ∃ i < lastPlace, k = .place i := fun k hk => by
    obtain ⟨i, hi, rfl⟩ := (hmem k).mp hk
    exact ⟨i, by omega, rfl⟩
  obtain ⟨top, htop, hfrom⟩ := greatest_of_places 0 hplaces
  -- the greatest is one of the places, and none of them is beyond it
  have hle : top ≤ n := by
    rcases hfrom with rfl | ⟨i, hi, hi', rfl⟩
    · exact Nat.zero_le n
    · obtain ⟨j, hj, hij⟩ := (hmem _).mp hi'
      have := place_inj hi (by omega) hij
      omega
  have hge : n ≤ top := by
    rcases Nat.eq_zero_or_pos n with rfl | hpos
    · exact Nat.zero_le top
    · obtain ⟨i, hi, hplace, hlt⟩ :=
        place_of_greatest htop ((hmem (.place (n - 1))).mpr ⟨n - 1, by omega, rfl⟩)
      have := place_inj (by omega) hi hplace
      omega
  rw [htop, Nat.le_antisymm hle hge]

theorem shapeOf_array_iff (he : t.Enumerates entries) (hb : t.Border length) (n : Nat) :
    shapeOf entries length = .array n ↔ t.ListLike n := by
  constructor
  · intro h
    unfold shapeOf at h
    split at h
    · rename_i top htop
      split at h
      · rename_i hcount
        obtain rfl := Shape.array.inj h
        exact listLike_of_greatest he (htop.trans (congrArg some hcount.1))
      · cases h
    · cases h
  · intro h
    obtain ⟨hcount, hgreatest⟩ := greatest_of_listLike he h
    unfold shapeOf
    rw [hgreatest, hcount, hb.eq_of_listLike h]
    exact if_pos ⟨rfl, rfl⟩

theorem shapeOf_map_iff (he : t.Enumerates entries) (hb : t.Border length) :
    shapeOf entries length = .map ↔ ∀ n, ¬ t.ListLike n := by
  constructor
  · intro h n hn
    rw [(shapeOf_array_iff he hb n).mpr hn] at h
    cases h
  · intro h
    cases hshape : shapeOf entries length with
    | array n => exact absurd ((shapeOf_array_iff he hb n).mp hshape) (h n)
    | map => rfl

/-- A table is an array of `n` if its keys are exactly `1, …, n`, and an object if they are not so
    for any `n`, in whatever order its entries come and whichever of its borders is its length.  A
    lawful table has such an order and such a length. -/
theorem shapeOf_exact :
    (∀ (t : Table) (entries : List (Key × Value)) (length : Nat),
      t.Enumerates entries → t.Border length →
      (∀ n, shapeOf entries length = .array n ↔ t.ListLike n) ∧
        (shapeOf entries length = .map ↔ ∀ n, ¬ t.ListLike n)) ∧
    ∀ t : Table, t.Lawful →
      (∀ n, classify t = .array n ↔ t.ListLike n) ∧ (classify t = .map ↔ ∀ n, ¬ t.ListLike n) :=
  ⟨fun _ _ _ he hb => ⟨shapeOf_array_iff he hb, shapeOf_map_iff he hb⟩, fun _ ht =>
    ⟨shapeOf_array_iff ht.enumerates ht.border_length,
      shapeOf_map_iff ht.enumerates ht.border_length⟩⟩

/-- A table with a value for `2` only. -/
def holed : Table := ({} : Table).set (.place 1) (.bool true)

theorem get_holed (k : Key) : holed.get k = if k = .place 1 then .bool true else .nil := by
  rw [holed, lawful_empty.get_set (k := .place 1) trivial, get_empty]

theorem get_holed_ne_nil_iff (k : Key) : holed.get k ≠ .nil ↔ k = .place 1 := by
  rw [get_holed]
  split
  · exact ⟨fun _ => ‹_›, fun _ => nofun⟩
  · exact ⟨fun h => absurd rfl h, fun h => absurd h ‹_›⟩

theorem enumerates_holed : holed.Enumerates [(.place 1, .bool true)] := by
  refine ⟨List.nodup_singleton _, fun k v => ?_⟩
  rw [List.mem_singleton, Prod.mk.injEq]
  constructor
  · rintro ⟨rfl, rfl⟩
    exact ⟨nofun, (get_holed _).trans (if_pos rfl)⟩
  · rintro ⟨hv, rfl⟩
    obtain rfl := (get_holed_ne_nil_iff k).mp hv
    exact ⟨rfl, (get_holed _).trans (if_pos rfl)⟩

theorem border_holed : holed.Border 0 ∧ holed.Border 2 := by
  have habsent {i : Nat} (hi : Key.place i ≠ .place 1) : holed.get (.place i) = .nil :=
    (get_holed _).trans (if_neg hi)
  exact ⟨⟨by decide, .inl rfl, fun _ => habsent (by decide)⟩,
    ⟨by decide, .inr ((get_holed_ne_nil_iff _).mpr rfl), fun _ => habsent (by decide)⟩⟩

theorem not_listLike_holed (n : Nat) : ¬ holed.ListLike n := by
  rintro ⟨-, hkeys⟩
  have hone (k : Key) : (∃ i < n, k = .place i) ↔ k = .place 1 :=
    (hkeys k).symm.trans (get_holed_ne_nil_iff k)
  obtain ⟨i, hi, -⟩ := (hone (.place 1)).mpr rfl
  exact absurd ((hone (.place 0)).mp ⟨0, by omega, rfl⟩) (by decide)

/-- Two values that come in the wrong order are an array; a table with a hole is none, with either
    of its borders. -/
theorem shapeOf_samples :
    shapeOf [(.place 1, .bool false), (.place 0, .bool true)] 2 = .array 2 ∧
      shapeOf [(.place 1, .bool true)] 0 = .map ∧ shapeOf [(.place 1, .bool true)] 2 = .map := by
  have hpair : ofList [.bool true, .bool false] = { seq := #[.bool true, .bool false] } :=
    ofList_of_allSome (by decide)
  have hlawful : ({ seq := #[.bool true, .bool false] } : Table).Lawful :=
    lawful_seq (by decide) nofun
  have hkeys : ({ seq := #[.bool true, .bool false] } : Table).ListLike 2 :=
    hpair ▸ listLike_ofList (by decide : AllSome [.bool true, .bool false]) (by decide)
  have horder : ({ seq := #[.bool true, .bool false] } : Table).Enumerates
      [(.place 1, .bool false), (.place 0, .bool true)] :=
    hlawful.enumerates.perm <|
      List.Perm.swap (Key.place 1, Value.bool false) (Key.place 0, .bool true) []
  refine ⟨?_, ?_, ?_⟩
  · exact ((shapeOf_exact.1 _ _ 2 horder hlawful.border_length).1 2).mpr hkeys
  · exact (shapeOf_exact.1 holed _ 0 enumerates_holed border_holed.1).2.mpr not_listLike_holed
  · exact (shapeOf_exact.1 holed _ 2 enumerates_holed border_holed.2).2.mpr not_listLike_holed

end Trees

end OscHost.Script
