/-!
# Lists cut at a separator

A list with `n` separators in it has `n + 1` pieces, the empty ones included.
-/

namespace DatedCounts

universe u

variable {α : Type u} [DecidableEq α]

def pieces (separator : α) : List α → List (List α)
  | [] => [[]]
  | x :: rest =>
    if x = separator then [] :: pieces separator rest
    else
      match pieces separator rest with
      | [] => [[x]]
      | piece :: others => (x :: piece) :: others

@[simp] theorem pieces_nil (separator : α) : pieces separator [] = [[]] := rfl

theorem pieces_ne_nil (separator : α) (xs : List α) : pieces separator xs ≠ [] := by
  cases xs with
  | nil => simp
  | cons x rest =>
    simp only [pieces]
    repeat' split
    all_goals simp

/-- The part of a list before the first `separator` and the part after it, when there is one. -/
def cutAt? (separator : α) : List α → Option (List α × List α)
  | [] => none
  | x :: rest =>
    if x = separator then some ([], rest)
    else (cutAt? separator rest).map fun (before, after) => (x :: before, after)

theorem eq_append_of_cutAt? {separator : α} {xs before after : List α}
    (h : cutAt? separator xs = some (before, after)) :
    xs = before ++ separator :: after ∧ separator ∉ before := by
  induction xs generalizing before with
  | nil => simp [cutAt?] at h
  | cons x rest ih =>
    simp only [cutAt?] at h
    split at h
    · simp_all
    · obtain ⟨⟨b, a⟩, hcut, heq⟩ := Option.map_eq_some_iff.1 h
      simp only [Prod.mk.injEq] at heq
      obtain ⟨rfl, rfl⟩ := heq
      obtain ⟨hrest, hmem⟩ := ih hcut
      simp_all [eq_comm]

theorem cutAt?_append {separator : α} {before : List α} (h : separator ∉ before) (after : List α) :
    cutAt? separator (before ++ separator :: after) = some (before, after) := by
  induction before with
  | nil => simp [cutAt?]
  | cons x rest ih => simp_all [cutAt?, eq_comm]

theorem cutAt?_eq_none {separator : α} {xs : List α} :
    cutAt? separator xs = none ↔ separator ∉ xs := by
  induction xs with
  | nil => simp [cutAt?]
  | cons x rest ih =>
    by_cases hx : x = separator
    · simp [cutAt?, hx]
    · simp [cutAt?, hx, ih, Ne.symm hx]

end DatedCounts
