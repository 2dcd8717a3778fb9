import DatedCounts.Proofs.Ordered.Ascending

/-!
# Looking up entries

An ordered map is fixed by what is found under each key, and an ordered set by its members. Each
operation is described by its effect on a look-up.
-/

namespace DatedCounts

universe u v

namespace OrderedMap

variable {α : Type u} {β : Type v} [Ord α]

@[simp] theorem get?_empty (key : α) : (empty : OrderedMap α β).get? key = none := rfl

theorem mem_keys {m : OrderedMap α β} {key : α} :
    key ∈ m.keys ↔ ∃ value, (key, value) ∈ m.toList := by
  simp [keys]

variable [Std.TransOrd α]

/-- A map has at most one entry more after an insertion. -/
theorem size_insert_le (m : OrderedMap α β) (key : α) (value : β) :
    (m.insert key value).size ≤ m.size + 1 := by
  obtain ⟨entries, _⟩ := m
  simp only [size, toList_insert]
  induction entries with
  | nil => simp [place]
  | cons first rest ih =>
    simp only [place]
    split
    · simp
    · simp
    · simpa using ih (List.pairwise_cons.1 ‹_›).2

/-! ### Adding up the values -/

section Values

variable (op : β → β → β) [Std.Associative op] [Std.Commutative op]

private theorem foldl_op (xs : List β) (start value : β) :
    xs.foldl op (op start value) = op (xs.foldl op start) value := by
  have hcomm : ∀ a b, op a b = op b a := Std.Commutative.comm
  rw [hcomm start, List.foldl_assoc, hcomm value]

private theorem foldl_place {key : α} {unit value : β} (hunit : ∀ x, op unit x = x)
    {entries : List (α × β)} (hentries : Ascending entries) (start : β) :
    let present := (entries.find? fun e => (compare key e.1).isEq).map (·.2)
    ((place key (op (present.getD unit) value) entries).map (·.2)).foldl op start =
      op ((entries.map (·.2)).foldl op start) value := by
  induction entries generalizing start with
  | nil => simp [place, hunit]
  | cons first rest ih =>
    obtain ⟨hfirst, hrest⟩ := List.pairwise_cons.1 hentries
    cases hkey : compare key first.1 with
    | lt =>
      have hnone : (rest.find? fun e => (compare key e.1).isEq) = none := by
        rw [List.find?_eq_none]
        intro e he
        simp [Std.TransCmp.lt_trans hkey (hfirst e he)]
      simp only [place, hkey, List.find?_cons, Ordering.isEq_lt, hnone, Option.map_none,
        Option.getD_none, hunit, List.map_cons]
      rw [List.foldl_cons, foldl_op op]
    | eq =>
      simp only [place, hkey, List.find?_cons, Ordering.isEq_eq, Option.map_some, Option.getD_some,
        List.map_cons, List.foldl_cons]
      have hassoc : op start (op first.2 value) = op (op start first.2) value :=
        (Std.Associative.assoc ..).symm
      rw [hassoc, foldl_op op]
    | gt =>
      simp only [place, hkey, List.find?_cons, Ordering.isEq_gt, List.map_cons, List.foldl_cons]
      exact ih hrest (op start first.2)

/-- A value that is joined to the one under its key is joined to the sum of all values. -/
theorem foldl_values_update (m : OrderedMap α β) (key : α) (start : β) {unit : β} (value : β)
    (hunit : ∀ x, op unit x = x) :
    (m.update key fun present => op (present.getD unit) value).values.foldl op start =
      op (m.values.foldl op start) value :=
  foldl_place op hunit m.ascending start

end Values

/-! ### Looking up -/

variable [Std.LawfulEqOrd α]

omit [Std.TransOrd α] in
private theorem mem_of_find? {entries : List (α × β)} {key : α} {entry : α × β}
    (h : (entries.find? fun e => (compare key e.1).isEq) = some entry) :
    entry ∈ entries ∧ key = entry.1 := by
  refine ⟨List.mem_of_find?_eq_some h, ?_⟩
  have hkey := List.find?_some h
  rwa [Ordering.isEq_iff_eq_eq, Std.compare_eq_iff_eq] at hkey

theorem get?_eq_some_iff {m : OrderedMap α β} {key : α} {value : β} :
    m.get? key = some value ↔ (key, value) ∈ m.toList := by
  constructor
  · intro h
    obtain ⟨entry, hfind, rfl⟩ := Option.map_eq_some_iff.1 h
    obtain ⟨hmem, rfl⟩ := mem_of_find? hfind
    exact hmem
  · intro h
    have hsome : (m.get? key).isSome := by
      simp only [get?, Option.isSome_map, List.find?_isSome]
      exact ⟨_, h, by simp⟩
    obtain ⟨other, hother⟩ := Option.isSome_iff_exists.1 hsome
    obtain ⟨entry, hfind, rfl⟩ := Option.map_eq_some_iff.1 hother
    obtain ⟨hmem, rfl⟩ := mem_of_find? hfind
    rw [hother]
    exact congrArg some (Ascending.value_unique m.ascending hmem h)

theorem mem_keys_iff {m : OrderedMap α β} {key : α} : key ∈ m.keys ↔ (m.get? key).isSome := by
  rw [mem_keys, Option.isSome_iff_exists]
  simp only [get?_eq_some_iff]

theorem contains_iff {m : OrderedMap α β} {key : α} : m.contains key ↔ key ∈ m.keys :=
  mem_keys_iff.symm

theorem ext_get? {m n : OrderedMap α β} (h : ∀ key, m.get? key = n.get? key) : m = n := by
  apply OrderedMap.ext
  refine Ascending.eq_of_mem_iff m.ascending n.ascending fun ⟨key, value⟩ => ?_
  rw [← get?_eq_some_iff, ← get?_eq_some_iff, h]

/-- At most one entry of a map is kept under a key. -/
theorem filterMap_toList [DecidableEq α] (m : OrderedMap α β) (key : α) :
    (m.toList.filterMap fun entry => if key = entry.1 then some entry.2 else none) =
      (m.get? key).toList := by
  have hcompare : ∀ entry : α × β, (compare key entry.1).isEq = decide (key = entry.1) := by
    intro entry
    rw [Bool.eq_iff_iff, Ordering.isEq_iff_eq_eq, Std.compare_eq_iff_eq, decide_eq_true_iff]
  obtain ⟨entries, hentries⟩ := m
  simp only [get?, hcompare]
  induction entries with
  | nil => rfl
  | cons first rest ih =>
    obtain ⟨hfirst, hrest⟩ := List.pairwise_cons.1 hentries
    by_cases hkey : key = first.1
    · simp only [List.filterMap_cons, if_pos hkey]
      rw [List.find?_cons_of_pos (by simp [hkey])]
      have hnone : (rest.filterMap fun e => if key = e.1 then some e.2 else none) = [] := by
        rw [List.filterMap_eq_nil_iff]
        exact fun e he => if_neg (hkey ▸ ne_of_compare_lt (hfirst e he))
      rw [hnone]
      rfl
    · simp only [List.filterMap_cons, if_neg hkey]
      rw [List.find?_cons_of_neg (by simp [hkey])]
      exact ih hrest

/-! ### Insertion -/

theorem mem_place_iff {key : α} {value : β} {entry : α × β} {entries : List (α × β)}
    (hentries : Ascending entries) :
    entry ∈ place key value entries ↔ entry = (key, value) ∨ entry ∈ entries ∧ entry.1 ≠ key := by
  induction entries with
  | nil => simp [place]
  | cons first rest ih =>
    obtain ⟨hfirst, hrest⟩ := List.pairwise_cons.1 hentries
    simp only [place]
    split
    · next hlt =>
      have hne : ∀ e ∈ first :: rest, e.1 ≠ key := by
        intro e he
        rcases List.mem_cons.1 he with rfl | he'
        · exact (ne_of_compare_lt hlt).symm
        · exact (ne_of_compare_lt (Std.TransCmp.lt_trans hlt (hfirst e he'))).symm
      simp only [List.mem_cons (a := entry)]
      grind
    · next heq =>
      have hkey : key = first.1 := Std.compare_eq_iff_eq.1 heq
      have hne : ∀ e ∈ rest, e.1 ≠ key := by
        intro e he
        rw [hkey]
        exact (ne_of_compare_lt (hfirst e he)).symm
      simp only [List.mem_cons]
      grind
    · next hgt =>
      have hne : first.1 ≠ key := ne_of_compare_lt (Std.OrientedCmp.lt_of_gt hgt)
      simp only [List.mem_cons, ih hrest]
      grind

theorem mem_insert {m : OrderedMap α β} {key : α} {value : β} {entry : α × β} :
    entry ∈ (m.insert key value).toList ↔
      entry = (key, value) ∨ entry ∈ m.toList ∧ entry.1 ≠ key :=
  mem_place_iff m.ascending

theorem get?_insert_self (m : OrderedMap α β) (key : α) (value : β) :
    (m.insert key value).get? key = some value := by
  rw [get?_eq_some_iff, mem_insert]
  exact .inl rfl

theorem get?_insert_of_ne (m : OrderedMap α β) {key other : α} (value : β) (h : other ≠ key) :
    (m.insert key value).get? other = m.get? other := by
  apply Option.ext
  intro found
  rw [get?_eq_some_iff, get?_eq_some_iff, mem_insert]
  simp [h]

theorem get?_insert [DecidableEq α] (m : OrderedMap α β) (key other : α) (value : β) :
    (m.insert key value).get? other = if other = key then some value else m.get? other := by
  split
  · next h => rw [h, get?_insert_self]
  · next h => rw [get?_insert_of_ne m value h]

theorem get?_update [DecidableEq α] (m : OrderedMap α β) (key other : α) (f : Option β → β) :
    (m.update key f).get? other = if other = key then some (f (m.get? key)) else m.get? other :=
  get?_insert m key other _

theorem get?_filterKeys (m : OrderedMap α β) (p : α → Bool) (key : α) :
    (m.filterKeys p).get? key = if p key then m.get? key else none := by
  apply Option.ext
  intro value
  rw [get?_eq_some_iff]
  simp only [filterKeys, List.mem_filter]
  split
  · next h => simp [h, get?_eq_some_iff]
  · next h => simp [h]

/-! ### Building up a map -/

omit [Std.LawfulEqOrd α] in
theorem place_of_above {key : α} {value : β} {entries : List (α × β)}
    (h : ∀ entry ∈ entries, compare entry.1 key = .lt) :
    place key value entries = entries ++ [(key, value)] := by
  induction entries with
  | nil => rfl
  | cons first rest ih =>
    have hfirst : compare key first.1 = .gt :=
      Std.OrientedCmp.gt_of_lt (h first List.mem_cons_self)
    rw [place, hfirst, ih fun entry hentry => h entry (List.mem_cons_of_mem _ hentry)]
    rfl

omit [Std.LawfulEqOrd α] in
/-- Inserting entries above those of a map one after another puts them at its end. -/
theorem toList_foldl_insert {entries : List (α × β)} {m : OrderedMap α β}
    (h : Ascending (m.toList ++ entries)) :
    (entries.foldl (fun m entry => m.insert entry.1 entry.2) m).toList = m.toList ++ entries := by
  induction entries generalizing m with
  | nil => simp
  | cons first rest ih =>
    have habove : ∀ entry ∈ m.toList, compare entry.1 first.1 = .lt := fun entry hentry =>
      (List.pairwise_append.1 h).2.2 entry hentry first List.mem_cons_self
    have hinsert : (m.insert first.1 first.2).toList = m.toList ++ [first] :=
      place_of_above habove
    rw [List.foldl_cons, ih, hinsert, List.append_assoc]
    · rfl
    · rwa [hinsert, List.append_assoc]

omit [Std.LawfulEqOrd α] [Std.TransOrd α] in
private theorem place_perm {key : α} {entries : List (α × β)} (value : β)
    (h : ∀ entry ∈ entries, compare key entry.1 ≠ .eq) :
    (place key value entries).Perm ((key, value) :: entries) := by
  induction entries with
  | nil => exact .refl _
  | cons first rest ih =>
    have hrest := ih fun entry hentry => h entry (List.mem_cons_of_mem _ hentry)
    rw [place]
    split
    · exact .refl _
    · next heq => exact absurd heq (h first List.mem_cons_self)
    · exact (hrest.cons first).trans (.swap ..)

private theorem foldl_insert_perm {entries : List (α × β)} {m : OrderedMap α β}
    (hentries : (entries.map (·.1)).Nodup) (h : ∀ entry ∈ entries, entry.1 ∉ m.keys) :
    (entries.foldl (fun m entry => m.insert entry.1 entry.2) m).toList.Perm
      (m.toList ++ entries) := by
  induction entries generalizing m with
  | nil => simp
  | cons first rest ih =>
    obtain ⟨hfirst, hrest⟩ := List.nodup_cons.1 hentries
    have habsent := h first List.mem_cons_self
    have hinsert : (m.insert first.1 first.2).toList.Perm (first :: m.toList) := by
      apply place_perm
      intro entry hentry heq
      rw [Std.compare_eq_iff_eq.1 heq] at habsent
      exact habsent (mem_keys.2 ⟨entry.2, hentry⟩)
    have hlater : ∀ entry ∈ rest, entry.1 ∉ (m.insert first.1 first.2).keys := by
      intro entry hentry hkey
      obtain ⟨value, hvalue⟩ := mem_keys.1 hkey
      rcases mem_insert.1 hvalue with heq | ⟨hin, _⟩
      · exact hfirst (List.mem_map.2 ⟨entry, hentry, (Prod.mk.inj heq).1⟩)
      · exact h entry (List.mem_cons_of_mem _ hentry) (mem_keys.2 ⟨value, hin⟩)
    rw [List.foldl_cons]
    exact (ih hrest hlater).trans ((hinsert.append_right rest).trans List.perm_middle.symm)

/-- A map of entries under different keys has just these entries. -/
theorem toList_ofList_perm {entries : List (α × β)} (h : (entries.map (·.1)).Nodup) :
    (ofList entries).toList.Perm entries :=
  foldl_insert_perm (m := empty) h fun _ _ => List.not_mem_nil

/-- A map of entries in any order has the last value that is given for a key. -/
theorem get?_ofList [DecidableEq α] (entries : List (α × β)) (key : α) :
    (ofList entries).get? key = entries.reverse.lookup key := by
  induction entries using List.reverseRecOn with
  | nil => rfl
  | append_singleton entries entry ih =>
    rw [List.reverse_append, List.reverse_singleton, List.singleton_append, List.lookup_cons, ← ih,
      ofList, List.foldl_append]
    change ((ofList entries).insert entry.1 entry.2).get? key = _
    rw [get?_insert]
    by_cases hkey : key = entry.1
    · rw [if_pos hkey, beq_iff_eq.2 hkey]
    · rw [if_neg hkey, beq_eq_false_iff_ne.2 hkey]

theorem toList_ofList_subset [DecidableEq α] (entries : List (α × β)) :
    (ofList entries).toList ⊆ entries := by
  intro entry hentry
  have hget := get?_eq_some_iff.2 hentry
  rw [get?_ofList, List.lookup_eq_some_iff] at hget
  obtain ⟨before, after, hsplit, _⟩ := hget
  rw [← List.mem_reverse, hsplit]
  exact List.mem_append_right _ List.mem_cons_self

/-- What is added up over a map of entries is no more than what is over the entries. -/
theorem sum_toList_ofList_le [DecidableEq α] (weight : α × β → Nat) (entries : List (α × β)) :
    ((ofList entries).toList.map weight).sum ≤ (entries.map weight).sum := by
  obtain ⟨part, hperm, hpart⟩ :=
    (Ascending.nodup (ofList entries).ascending).subperm (toList_ofList_subset entries)
  rw [← (hperm.map weight).sum_eq]
  exact (hpart.map weight).sum_le_sum fun _ _ => Nat.zero_le _

/-! ### Differences -/

def diff (m part : OrderedMap α β) : OrderedMap α β := m.filterKeys fun key => !part.contains key

omit [Std.TransOrd α] [Std.LawfulEqOrd α] in
theorem mem_of_mem_diff {m part : OrderedMap α β} {entry : α × β}
    (h : entry ∈ (m.diff part).toList) : entry ∈ m.toList :=
  (List.mem_filter.1 h).1

/-- Some entries of a map are those that it has under their keys. -/
theorem toList_eq_filter {m part : OrderedMap α β} (h : ∀ entry ∈ part.toList, entry ∈ m.toList) :
    part.toList = m.toList.filter fun entry => part.contains entry.1 := by
  refine Ascending.eq_of_mem_iff part.ascending (m.ascending.filter _) fun entry => ?_
  rw [List.mem_filter, contains_iff, mem_keys]
  constructor
  · exact fun hentry => ⟨h entry hentry, entry.2, hentry⟩
  · rintro ⟨hentry, value, hvalue⟩
    obtain rfl := Ascending.value_unique m.ascending (h _ hvalue) hentry
    exact hvalue

/-- A map is made up of some of its entries and the others. -/
theorem toList_perm_diff {m part : OrderedMap α β} (h : ∀ entry ∈ part.toList, entry ∈ m.toList) :
    m.toList.Perm ((m.diff part).toList ++ part.toList) := by
  have hsplit := List.filter_append_perm (fun entry => part.contains entry.1) m.toList
  rw [← toList_eq_filter h] at hsplit
  exact hsplit.symm.trans List.perm_append_comm

end OrderedMap

namespace OrderedSet

variable {α : Type u} [Ord α]

theorem isEmpty_iff {s : OrderedSet α} : s.isEmpty ↔ s.toList = [] := by
  simp [isEmpty, OrderedMap.isEmpty, toList, OrderedMap.keys]

@[simp] theorem toList_empty : (∅ : OrderedSet α).toList = [] := rfl

theorem mem_toList {s : OrderedSet α} {x : α} : x ∈ s.toList ↔ (x, ()) ∈ s.toMap.toList := by
  rw [toList, OrderedMap.mem_keys]
  exact ⟨fun ⟨_, h⟩ => h, fun h => ⟨_, h⟩⟩

variable [Std.TransOrd α]

theorem ext_mem {s t : OrderedSet α} (h : ∀ x, x ∈ s.toList ↔ x ∈ t.toList) : s = t := by
  apply OrderedSet.ext
  apply OrderedMap.ext
  refine Ascending.eq_of_mem_iff s.toMap.ascending t.toMap.ascending fun ⟨x, _⟩ => ?_
  exact mem_toList.symm.trans ((h x).trans mem_toList)

theorem next?_eq_some {s : OrderedSet α} {x y : α} (h : s.next? x = some y) :
    y ∈ s.toList ∧ compare x y = .lt ∧ ∀ z ∈ s.toList, compare x z = .lt → (compare y z).isLE := by
  obtain ⟨hxy, before, after, hsplit, hbefore⟩ := List.find?_eq_some_iff_append.1 h
  rw [Ordering.isLT_iff_eq_lt] at hxy
  refine ⟨hsplit ▸ by simp, hxy, fun z hz hxz => ?_⟩
  have hasc := s.ascending
  rw [hsplit] at hz hasc
  rcases List.mem_append.1 hz with hz | hz
  · have hnot := hbefore z hz
    rw [hxz] at hnot
    cases hnot
  · rcases List.mem_cons.1 hz with rfl | hz
    · exact Std.ReflCmp.isLE_rfl
    · have hyz := (List.pairwise_cons.1 (List.pairwise_append.1 hasc).2.1).1 z hz
      rw [hyz]
      rfl

omit [Std.TransOrd α] in
theorem next?_eq_none {s : OrderedSet α} {x : α} (h : s.next? x = none) :
    ∀ z ∈ s.toList, compare x z ≠ .lt := by
  intro z hz
  simpa using List.find?_eq_none.1 h z hz

omit [Std.TransOrd α] in
/-- The next member depends on no more than the members above. -/
theorem next?_congr {s : OrderedSet α} {x y : α}
    (h : ∀ z ∈ s.toList, compare x z = .lt ↔ compare y z = .lt) : s.next? x = s.next? y := by
  refine List.find?_congr fun z hz => ?_
  rw [Bool.eq_iff_iff, Ordering.isLT_iff_eq_lt, Ordering.isLT_iff_eq_lt]
  exact h z hz

variable [Std.LawfulEqOrd α]

theorem contains_iff {s : OrderedSet α} {x : α} : s.contains x ↔ x ∈ s.toList :=
  OrderedMap.contains_iff

theorem mem_insert {s : OrderedSet α} {x y : α} :
    y ∈ (s.insert x).toList ↔ y = x ∨ y ∈ s.toList := by
  rw [mem_toList, mem_toList, insert, OrderedMap.mem_insert]
  grind

theorem mem_insertAll {s : OrderedSet α} {members : List α} {y : α} :
    y ∈ (s.insertAll members).toList ↔ y ∈ members ∨ y ∈ s.toList := by
  induction members generalizing s with
  | nil => simp [insertAll]
  | cons x rest ih =>
    rw [insertAll, List.foldl_cons, ← insertAll, ih, mem_insert, List.mem_cons]
    grind

theorem mem_ofList {members : List α} {y : α} : y ∈ (ofList members).toList ↔ y ∈ members := by
  simp [ofList, mem_insertAll]

end OrderedSet

end DatedCounts
