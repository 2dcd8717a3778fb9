import DatedCounts.Proofs.Cursor.Tally

/-!
# Contiguous series

Keys are totally ordered, and the order of the qualifiers carries that of the pairs of datatype and date.
It does so because the byte between the two is the least one and a datatype has none of it: then what
follows a datatype never decides before the datatype does. So in a list of keys in order the keys of one
series stand next to one another.
-/

namespace DatedCounts

/-! ### Runs of a list -/

/-- What has a property is a run of the list, if whatever is between two of them has it too. -/
theorem filter_isInfix {γ : Type*} {p : γ → Bool} {xs : List γ}
    (hbetween : ∀ a b c, [a, b, c].Sublist xs → p a → p c → p b) : xs.filter p <:+: xs := by
  induction xs with
  | nil => exact List.infix_refl []
  | cons x rest ih =>
    by_cases hx : p x
    · -- From the first that has the property on, it lasts until it is lost.
      have hlasts : (x :: rest).Pairwise fun b c => p c → p b := by
        refine List.pairwise_cons.2 ⟨fun _ _ _ => hx, List.pairwise_iff_forall_sublist.2 ?_⟩
        exact fun {b c} hsub hc => hbetween x b c (hsub.cons_cons x) hx hc
      rw [← takeWhile_eq_filter hlasts]
      exact (List.takeWhile_prefix p).isInfix
    · rw [List.filter_cons_of_neg hx]
      have hrest := ih fun a b c hsub => hbetween a b c (hsub.cons x)
      exact hrest.trans (List.suffix_cons x rest).isInfix

/-! ### Qualifiers -/

namespace Qualifier

theorem compare_aggregated_raw (datatype date : Bytes) :
    compare (aggregated datatype).toBytes (raw datatype date).toBytes = .lt := by
  simp only [toBytes]
  induction datatype with
  | nil => rfl
  | cons byte rest ih =>
    rw [List.cons_append, List.compare_cons_cons, Std.ReflOrd.compare_self, Ordering.eq_then, ih]

theorem lt_of_datatype_lt {a b : Bytes}
    (h : compare (ofBytes a).datatype (ofBytes b).datatype = .lt) : compare a b = .lt := by
  apply Std.OrientedCmp.lt_of_not_isLE
  intro hle
  exact Std.OrientedCmp.not_lt_of_isLE (datatype_isLE hle) h

end Qualifier

namespace Key

theorem compare_eq_eq_iff {a b : Key} : compare a b = .eq ↔ a.row = b.row ∧ a.family = b.family ∧
    a.qualifier = b.qualifier ∧ a.visibility = b.visibility ∧ a.timestamp = b.timestamp := by
  rw [Std.compare_eq_iff_eq, Key.ext_iff]

theorem series_contiguous {keys : List Key} (h : keys.Pairwise fun a b => (compare a b).isLE)
    (series : Series) : (keys.filter fun key => key.series = series) <:+: keys := by
  apply filter_isInfix
  intro a b c hsub ha hc
  obtain ⟨hab, hbc⟩ : ((compare a b).isLE ∧ (compare a c).isLE) ∧ (compare b c).isLE := by
    simpa using h.sublist hsub
  have hseries : a.series = series := of_decide_eq_true ha
  have hsame : a.series = c.series := hseries.trans (of_decide_eq_true hc).symm
  exact decide_eq_true ((series_eq_of_between hab.1 hbc hsame).trans hseries)

/-- The keys that a group holds are those of a series. -/
theorem held_contiguous {keys : List Key} (h : keys.Pairwise fun a b => (compare a b).isLE)
    (group : Group) : keys.filter group.holds <:+: keys := by
  have hholds : group.holds = fun key => decide (key.series = group.series) := by
    funext key
    rw [Bool.eq_iff_iff, Group.holds_iff, decide_eq_true_iff]
  rw [hholds]
  exact series_contiguous h group.series

/-- Keys are totally ordered, and equal in the order just if all five parts are. A qualifier comes apart into
a datatype without a NUL and the rest, which make it up again. Raw qualifiers are in the order of the pairs of
their parts, the qualifier of a datatype alone is below them, and qualifiers of a lesser datatype are below
those of a greater one. So in a list of keys in order each group is a run. -/
theorem order_embeds :
    (∀ a b : Key, compare a b = (compare b a).swap) ∧
    (∀ a b c : Key, (compare a b).isLE → (compare b c).isLE → (compare a c).isLE) ∧
    (∀ a b : Key, compare a b = .eq ↔ a.row = b.row ∧ a.family = b.family ∧
      a.qualifier = b.qualifier ∧ a.visibility = b.visibility ∧ a.timestamp = b.timestamp) ∧
    (∀ bytes, Qualifier.separator ∉ (Qualifier.ofBytes bytes).datatype ∧
      (Qualifier.ofBytes bytes).toBytes = bytes) ∧
    (∀ datatype date : Bytes, Qualifier.separator ∉ datatype →
      Qualifier.ofBytes (Qualifier.raw datatype date).toBytes = .raw datatype date ∧
      compare (Qualifier.aggregated datatype).toBytes (Qualifier.raw datatype date).toBytes = .lt) ∧
    (∀ a b x y : Bytes, Qualifier.separator ∉ a → Qualifier.separator ∉ b →
      compare (Qualifier.raw a x).toBytes (Qualifier.raw b y).toBytes =
        (compare a b).then (compare x y)) ∧
    (∀ a b : Bytes, compare (Qualifier.ofBytes a).datatype (Qualifier.ofBytes b).datatype = .lt →
      compare a b = .lt) ∧
    ∀ keys : List Key, (keys.Pairwise fun a b => (compare a b).isLE) →
      ∀ group : Group, keys.filter group.holds <:+: keys :=
  ⟨fun _ _ => Std.OrientedOrd.eq_swap, fun _ _ _ => Std.TransOrd.isLE_trans,
    fun _ _ => compare_eq_eq_iff,
    fun bytes => ⟨Qualifier.separator_notMem_datatype bytes, Qualifier.toBytes_ofBytes bytes⟩,
    fun datatype date hdatatype => ⟨Qualifier.ofBytes_raw hdatatype date,
      Qualifier.compare_aggregated_raw datatype date⟩,
    fun _ _ x y ha hb => Qualifier.compare_raw ha hb x y,
    fun _ _ => Qualifier.lt_of_datatype_lt, fun _ => held_contiguous⟩

/-- Keys of both forms of a datatype and of a longer one that begins with it. -/
def climbing : List Key :=
  [⟨[1], [2], [97], [], 4⟩, ⟨[1], [2], [97, 0, 50], [], 3⟩, ⟨[1], [2], [97, 0, 50], [], 1⟩,
    ⟨[1], [2], [97, 98], [], 7⟩, ⟨[1], [2], [97, 98, 0, 49], [5], 2⟩]

theorem order_embeds_climbing :
    ((compare (climbing[0]) (climbing[1])).isLE ∧ (compare (climbing[1]) (climbing[3])).isLE ∧
      (compare (climbing[0]) (climbing[3])).isLE) ∧
    (Qualifier.separator ∉ ([97] : Bytes) ∧ Qualifier.separator ∉ ([97, 98] : Bytes)) ∧
    (Qualifier.ofBytes (Qualifier.raw [97] [50]).toBytes = .raw [97] [50] ∧
      compare (Qualifier.aggregated [97]).toBytes (Qualifier.raw [97] [50]).toBytes = .lt) ∧
    compare (Qualifier.raw [97] [50]).toBytes (Qualifier.raw [97, 98] [49]).toBytes =
      (compare ([97] : Bytes) [97, 98]).then (compare ([50] : Bytes) [49]) ∧
    compare ([97, 0, 50] : Bytes) [97, 98] = .lt ∧
    (climbing.Pairwise fun a b => (compare a b).isLE) ∧
    climbing.filter (Group.ofKey climbing[1]).holds <:+: climbing := by
  obtain ⟨_, htrans, _, _, hform, hpair, hdatatype, hrun⟩ := order_embeds
  have hfirst : (compare (climbing[0]) (climbing[1])).isLE := by decide
  have hnext : (compare (climbing[1]) (climbing[3])).isLE := by decide
  have hshort : Qualifier.separator ∉ ([97] : Bytes) := by decide
  have hlong : Qualifier.separator ∉ ([97, 98] : Bytes) := by decide
  have hascending : climbing.Pairwise fun a b => (compare a b).isLE := by decide
  exact ⟨⟨hfirst, hnext, htrans _ _ _ hfirst hnext⟩, ⟨hshort, hlong⟩, hform _ _ hshort,
    hpair _ _ _ _ hshort hlong, hdatatype _ _ (by decide), hascending, hrun _ hascending _⟩

end Key

end DatedCounts
