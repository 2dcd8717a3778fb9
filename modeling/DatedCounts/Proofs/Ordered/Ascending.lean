import Mathlib
import DatedCounts.Ordered.Set

/-!
# Ascending lists

A list of entries in strictly ascending key order is fixed by its members. On such a list the entries
up to a bound are a beginning and those from a bound on are an end, so passing over entries from
either side is the same as filtering.
-/

namespace DatedCounts

universe u v

/-- Entries in strictly ascending order of their keys. -/
abbrev Ascending {α : Type u} {β : Type v} [Ord α] (entries : List (α × β)) : Prop :=
  entries.Pairwise fun a b => compare a.1 b.1 = .lt

section Filtering

variable {γ : Type u} {p : γ → Bool}

theorem takeWhile_eq_filter {xs : List γ} (hp : xs.Pairwise fun a b => p b → p a) :
    xs.takeWhile p = xs.filter p := by
  induction xs with
  | nil => rfl
  | cons x rest ih =>
    obtain ⟨hx, hrest⟩ := List.pairwise_cons.1 hp
    by_cases hpx : p x
    · rw [List.takeWhile_cons_of_pos hpx, List.filter_cons_of_pos hpx, ih hrest]
    · rw [List.takeWhile_cons_of_neg hpx, List.filter_cons_of_neg hpx]
      symm
      rw [List.filter_eq_nil_iff]
      exact fun y hy hpy => hpx (hx y hy hpy)

theorem dropWhile_eq_filter {xs : List γ} (hp : xs.Pairwise fun a b => p a → p b) :
    (xs.dropWhile fun x => !p x) = xs.filter p := by
  induction xs with
  | nil => rfl
  | cons x rest ih =>
    obtain ⟨hx, hrest⟩ := List.pairwise_cons.1 hp
    by_cases hpx : p x
    · rw [List.dropWhile_cons_of_neg (by simp [hpx]), List.filter_cons_of_pos hpx]
      congr 1
      symm
      rw [List.filter_eq_self]
      exact fun y hy => hx y hy hpx
    · rw [List.dropWhile_cons_of_pos (by simp [hpx]), List.filter_cons_of_neg hpx, ih hrest]

end Filtering

variable {α : Type u} {β : Type v} [Ord α]

section Members

variable [Std.TransOrd α]

theorem ne_of_compare_lt {a b : α} (h : compare a b = .lt) : a ≠ b := by
  rintro rfl
  exact Std.OrientedCmp.not_lt_of_lt h h

theorem Ascending.nodup {entries : List (α × β)} (h : Ascending entries) : entries.Nodup :=
  h.imp fun hlt heq => ne_of_compare_lt hlt (congrArg Prod.fst heq)

theorem Ascending.nodup_keys {entries : List (α × β)} (h : Ascending entries) :
    (entries.map (·.1)).Nodup :=
  List.pairwise_map.2 (h.imp ne_of_compare_lt)

theorem Ascending.eq_of_mem_iff {xs ys : List (α × β)} (hxs : Ascending xs) (hys : Ascending ys)
    (h : ∀ entry, entry ∈ xs ↔ entry ∈ ys) : xs = ys := by
  have hperm : xs.Perm ys := (List.perm_ext_iff_of_nodup hxs.nodup hys.nodup).2 fun _ => h _
  refine hperm.eq_of_pairwise (fun a b _ _ hab hba => ?_) hxs hys
  exact absurd hba (Std.OrientedCmp.not_lt_of_lt hab)

theorem eq_of_pairwise_lt {xs ys : List α} (hxs : xs.Pairwise fun a b => compare a b = .lt)
    (hys : ys.Pairwise fun a b => compare a b = .lt) (h : ∀ key, key ∈ xs ↔ key ∈ ys) : xs = ys := by
  have hperm : xs.Perm ys := (List.perm_ext_iff_of_nodup (hxs.imp ne_of_compare_lt)
    (hys.imp ne_of_compare_lt)).2 fun _ => h _
  refine hperm.eq_of_pairwise (fun a b _ _ hab hba => ?_) hxs hys
  exact absurd hba (Std.OrientedCmp.not_lt_of_lt hab)

/-- An ascending list has one entry for each of its keys. -/
theorem Ascending.value_unique {entries : List (α × β)} (h : Ascending entries) {key : α}
    {value other : β} (hvalue : (key, value) ∈ entries) (hother : (key, other) ∈ entries) :
    value = other := by
  induction entries with
  | nil => cases hvalue
  | cons first rest ih =>
    obtain ⟨hfirst, hrest⟩ := List.pairwise_cons.1 h
    rcases List.mem_cons.1 hvalue with rfl | hvalue'
    · rcases List.mem_cons.1 hother with heq | hother'
      · exact (congrArg Prod.snd heq).symm
      · exact absurd rfl (ne_of_compare_lt (hfirst (key, other) hother'))
    · rcases List.mem_cons.1 hother with rfl | hother'
      · exact absurd rfl (ne_of_compare_lt (hfirst (key, value) hvalue'))
      · exact ih hrest hvalue' hother'

end Members

end DatedCounts
