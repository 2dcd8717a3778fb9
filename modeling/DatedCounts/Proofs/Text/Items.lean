import Mathlib
import DatedCounts.Options

/-!
# Items of a list

A list is cut at its commas, and what is left of each piece without the white space at its ends is an
item. So items are texts without white space at their ends and without commas, and a text of that kind is
the one item of the list that it makes. Lists with commas between them have the items of all of them.
-/

namespace DatedCounts

/-! ### White space at the ends -/

/-- Whether a text has no white space at its ends. -/
structure IsBare (cs : List Char) : Prop where
  head : ∀ c ∈ cs.head?, ¬ isBlank c
  last : ∀ c ∈ cs.getLast?, ¬ isBlank c

theorem isBare_of_forall {cs : List Char} (h : ∀ c ∈ cs, ¬ isBlank c) : IsBare cs :=
  ⟨fun c hc => h c (List.mem_of_mem_head? hc), fun c hc => h c (List.mem_of_mem_getLast? hc)⟩

private theorem trimBlank_eq (cs : List Char) :
    trimBlank cs = (cs.dropWhile isBlank).rdropWhile isBlank :=
  rfl

theorem trimBlank_sublist (cs : List Char) : (trimBlank cs).Sublist cs :=
  (List.rdropWhile_prefix _ _).sublist.trans (List.dropWhile_suffix _).sublist

theorem trimBlank_subset (cs : List Char) : trimBlank cs ⊆ cs := (trimBlank_sublist cs).subset

theorem isBare_trimBlank (cs : List Char) : IsBare (trimBlank cs) := by
  constructor
  · intro c hc
    obtain ⟨rest, hrest⟩ := List.rdropWhile_prefix isBlank (cs.dropWhile isBlank)
    have hhead : (cs.dropWhile isBlank).head? = some c := by
      rw [← hrest, List.head?_append, ← trimBlank_eq, hc]
      rfl
    have hnot := List.head?_dropWhile_not isBlank cs
    rw [hhead] at hnot
    simpa using hnot
  · intro c hc
    have hnot := List.head?_dropWhile_not isBlank (cs.dropWhile isBlank).reverse
    rw [← List.getLast?_reverse, ← trimBlank, hc] at hnot
    simpa using hnot

theorem trimBlank_of_isBare {cs : List Char} (h : IsBare cs) : trimBlank cs = cs := by
  have hhead : cs.dropWhile isBlank = cs := by
    cases cs with
    | nil => rfl
    | cons c rest => exact List.dropWhile_cons_of_neg (h.head c rfl)
  have hlast : cs.rdropWhile isBlank = cs := by
    rw [List.rdropWhile_eq_self_iff]
    exact fun hcs => h.last _ (List.getLast?_eq_some_getLast hcs)
  rw [trimBlank_eq, hhead, hlast]

theorem trimBlank_eq_self_iff {cs : List Char} : trimBlank cs = cs ↔ IsBare cs :=
  ⟨fun h => h ▸ isBare_trimBlank cs, trimBlank_of_isBare⟩

theorem trimBlank_ne_nil {cs : List Char} {c : Char} (hc : c ∈ cs) (h : ¬ isBlank c) :
    trimBlank cs ≠ [] := by
  intro hnil
  rw [trimBlank_eq, List.rdropWhile_eq_nil_iff] at hnil
  rw [← List.takeWhile_append_dropWhile (p := isBlank) (l := cs), List.mem_append] at hc
  rcases hc with hfront | hrest
  · exact h (List.mem_takeWhile_imp hfront)
  · exact h (hnil c hrest)

theorem not_isBlank_of_isDigit {c : Char} (h : c.isDigit) : ¬ isBlank c := by
  obtain ⟨hlow, hhigh⟩ := Char.isDigit_iff_toNat.1 h
  have hzero : '0'.toNat = 48 := rfl
  have hnine : '9'.toNat = 57 := rfl
  simp only [isBlank, Bool.or_eq_true, Bool.and_eq_true, decide_eq_true_iff, beq_iff_eq]
  omega

/-! ### Pieces -/

theorem notMem_intercalate {α : Type*} {separator x : α} {items : List (List α)}
    (hx : x ≠ separator) (h : ∀ item ∈ items, x ∉ item) : x ∉ [separator].intercalate items := by
  induction items with
  | nil => exact List.not_mem_nil
  | cons item rest ih =>
    obtain ⟨hitem, hrest⟩ := List.forall_mem_cons.1 h
    cases rest with
    | nil => rwa [List.intercalate_singleton]
    | cons next rest =>
      rw [List.intercalate_cons_cons, List.append_assoc, List.mem_append, List.singleton_append,
        List.mem_cons]
      rintro (hmem | rfl | hmem)
      · exact hitem hmem
      · exact hx rfl
      · exact ih hrest hmem

theorem of_mem_getLast?_intercalate {α : Type*} {separator x : α} {items : List (List α)}
    (h : x ∈ ([separator].intercalate items).getLast?) :
    x = separator ∨ ∃ item ∈ items, x ∈ item.getLast? := by
  induction items with
  | nil => cases h
  | cons item rest ih =>
    cases rest with
    | nil =>
      rw [List.intercalate_singleton] at h
      exact .inr ⟨item, List.mem_cons_self, h⟩
    | cons next rest =>
      rw [List.intercalate_cons_cons, List.append_assoc, List.singleton_append,
        List.getLast?_append_cons, List.getLast?_cons] at h
      cases hlast : ([separator].intercalate (next :: rest)).getLast? with
      | none =>
        rw [hlast] at h
        exact .inl (Option.some.inj h).symm
      | some last =>
        rw [hlast] at h
        obtain rfl : last = x := Option.some.inj h
        obtain rfl | ⟨item', hitem', hx⟩ := ih hlast
        · exact .inl rfl
        · exact .inr ⟨item', List.mem_cons_of_mem _ hitem', hx⟩

section Pieces

variable {α : Type*} [DecidableEq α] {separator : α}

theorem pieces_cons_of_ne {x : α} (h : x ≠ separator) (xs : List α) :
    pieces separator (x :: xs) = (pieces separator xs).modifyHead (x :: ·) := by
  rw [pieces, if_neg h]
  obtain ⟨piece, others, hpieces⟩ := List.exists_cons_of_ne_nil (pieces_ne_nil separator xs)
  rw [hpieces]
  rfl

theorem pieces_append (xs ys : List α) :
    pieces separator (xs ++ separator :: ys) = pieces separator xs ++ pieces separator ys := by
  induction xs with
  | nil => simp [pieces]
  | cons x xs ih =>
    by_cases hx : x = separator
    · simp [pieces, hx, ih]
    · obtain ⟨piece, others, hpieces⟩ := List.exists_cons_of_ne_nil (pieces_ne_nil separator xs)
      rw [List.cons_append, pieces_cons_of_ne hx, pieces_cons_of_ne hx, ih, hpieces]
      rfl

theorem pieces_of_notMem {xs : List α} (h : separator ∉ xs) : pieces separator xs = [xs] := by
  induction xs with
  | nil => rfl
  | cons x xs ih =>
    obtain ⟨hx, hxs⟩ := not_or.1 (mt List.mem_cons.2 h)
    rw [pieces_cons_of_ne (Ne.symm hx), ih hxs]
    rfl

theorem of_mem_pieces {xs piece : List α} (h : piece ∈ pieces separator xs) :
    separator ∉ piece ∧ ∀ x ∈ piece, x ∈ xs := by
  induction xs generalizing piece with
  | nil =>
    obtain rfl := List.mem_singleton.1 h
    simp
  | cons x xs ih =>
    by_cases hx : x = separator
    · rw [pieces, if_pos hx] at h
      rcases List.mem_cons.1 h with rfl | h
      · simp
      · exact ⟨(ih h).1, fun y hy => List.mem_cons_of_mem _ ((ih h).2 y hy)⟩
    · obtain ⟨first, others, hpieces⟩ := List.exists_cons_of_ne_nil (pieces_ne_nil separator xs)
      rw [pieces_cons_of_ne hx, hpieces] at h
      rw [hpieces] at ih
      rcases List.mem_cons.1 h with rfl | h
      · obtain ⟨hnot, hsub⟩ := ih List.mem_cons_self
        exact ⟨List.not_mem_cons_of_ne_of_not_mem (Ne.symm hx) hnot, List.cons_subset_cons x hsub⟩
      · obtain ⟨hnot, hsub⟩ := ih (List.mem_cons_of_mem _ h)
        exact ⟨hnot, fun y hy => List.mem_cons_of_mem _ (hsub y hy)⟩

/-- What is added up over the elements of a list is that of the pieces and of the separators. -/
theorem sum_pieces (separator : α) (weight : α → Nat) (xs : List α) :
    ((pieces separator xs).map fun piece => (piece.map weight).sum).sum +
        (pieces separator xs).length * weight separator =
      (xs.map weight).sum + weight separator := by
  induction xs with
  | nil => simp
  | cons x xs ih =>
    by_cases hx : x = separator
    · rw [pieces, if_pos hx, hx]
      simp only [List.map_cons, List.map_nil, List.sum_cons, List.sum_nil, List.length_cons,
        Nat.succ_mul]
      omega
    · obtain ⟨piece, others, hpieces⟩ := List.exists_cons_of_ne_nil (pieces_ne_nil separator xs)
      rw [hpieces] at ih
      rw [pieces_cons_of_ne hx, hpieces]
      simp only [List.modifyHead_cons, List.map_cons, List.sum_cons, List.length_cons] at ih ⊢
      omega

theorem pieces_intercalate {items : List (List α)} (h : items ≠ []) :
    pieces separator ([separator].intercalate items) = items.flatMap (pieces separator) := by
  induction items with
  | nil => exact absurd rfl h
  | cons item rest ih =>
    cases rest with
    | nil => simp
    | cons next rest =>
      rw [List.intercalate_cons_cons, List.append_assoc, List.singleton_append, pieces_append,
        ih (List.cons_ne_nil _ _)]
      rfl

theorem pieces_intercalate_of_notMem {items : List (List α)} (hne : items ≠ [])
    (h : ∀ item ∈ items, separator ∉ item) :
    pieces separator ([separator].intercalate items) = items := by
  rw [pieces_intercalate hne, List.flatMap_congr fun item hitem => pieces_of_notMem (h item hitem),
    List.flatMap_singleton']

end Pieces

/-! ### Items -/

namespace Options

theorem trimmed_eq_self_iff {s : String} : trimmed s = s ↔ IsBare s.toList := by
  rw [trimmed, ← trimBlank_eq_self_iff, ← String.toList_inj, String.toList_ofList]

structure IsItem (cs : List Char) : Prop where
  ne_nil : cs ≠ []
  bare : IsBare cs
  noComma : ',' ∉ cs

theorem isItem_of_mem_listItems {cs item : List Char} (h : item ∈ listItems cs) : IsItem item := by
  obtain ⟨hitem, hne⟩ := List.mem_filter.1 h
  obtain ⟨piece, hpiece, rfl⟩ := List.mem_map.1 hitem
  exact ⟨by simpa using hne, isBare_trimBlank piece,
    fun hcomma => (of_mem_pieces hpiece).1 (trimBlank_subset piece hcomma)⟩

theorem subset_of_mem_listItems {cs item : List Char} (h : item ∈ listItems cs) : item ⊆ cs := by
  obtain ⟨piece, hpiece, rfl⟩ := List.mem_map.1 (List.mem_of_mem_filter h)
  exact fun c hc => (of_mem_pieces hpiece).2 c (trimBlank_subset piece hc)

theorem listItems_of_isItem {cs : List Char} (h : IsItem cs) : listItems cs = [cs] := by
  rw [listItems, pieces_of_notMem h.noComma, List.map_singleton, trimBlank_of_isBare h.bare]
  simpa using h.ne_nil

/-- The items of lists that are joined to one. -/
theorem listItems_intercalate (lists : List (List Char)) :
    listItems ([','].intercalate lists) = lists.flatMap listItems := by
  cases lists with
  | nil => rfl
  | cons first rest =>
    rw [listItems, pieces_intercalate (List.cons_ne_nil _ _), List.map_flatMap, List.filter_flatMap]
    rfl

end Options

end DatedCounts
