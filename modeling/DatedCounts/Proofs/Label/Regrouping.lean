import DatedCounts.Proofs.Label.Conjunction

/-!
# Labels combined in parts

Labels are combined unless one of them is not valid. The combined label is fixed by the set of the labels
that are not empty, and it can stand for them: combining the combined labels of two lists gives the combined
label of both lists.
-/

namespace DatedCounts.Label

theorem isValid_nil : isValid [] := rfl

theorem exists_conjoin_eq_error_iff {labels : List Bytes} :
    (∃ e, conjoin labels = .error e) ↔ ∃ label ∈ labels, label ≠ [] ∧ ¬ isValid label := by
  constructor
  · intro h
    obtain ⟨e, herror⟩ := h
    by_contra hnone
    have hvalid : ∀ label ∈ labels, isValid label := by
      intro label hlabel
      by_contra hinvalid
      refine hnone ⟨label, hlabel, ?_, hinvalid⟩
      intro hempty
      exact hinvalid (hempty ▸ isValid_nil)
    obtain ⟨combined, hconjoin, _⟩ := conjoin_eq_ok hvalid
    rw [hconjoin] at herror
    cases herror
  · intro h
    obtain ⟨label, hlabel, _, hinvalid⟩ := h
    cases hconjoin : conjoin labels with
    | error e => exact ⟨e, rfl⟩
    | ok combined => exact absurd (isValid_of_conjoin hconjoin label hlabel) hinvalid

theorem adds_of_conjoin {labels : List Bytes} {combined : Bytes} (h : conjoin labels = .ok combined) :
    isValid combined ∧
      ∀ operand, operand ∈ adds combined ↔ ∃ label ∈ labels, operand ∈ adds label := by
  obtain ⟨other, hconjoin, hvalid, hadds⟩ := conjoin_eq_ok (isValid_of_conjoin h)
  rw [h] at hconjoin
  cases hconjoin
  exact ⟨hvalid, hadds⟩

/-- Labels that are the same but for empty ones are combined to the same label. -/
theorem conjoin_of_mem_iff {labels others : List Bytes} {combined : Bytes}
    (h : conjoin labels = .ok combined)
    (hmem : ∀ label, label ≠ [] → (label ∈ others ↔ label ∈ labels)) :
    conjoin others = .ok combined := by
  have hlabels := isValid_of_conjoin h
  have hothers : ∀ label ∈ others, isValid label := by
    intro label hlabel
    by_cases hempty : label = []
    · exact hempty ▸ isValid_nil
    · exact hlabels label ((hmem label hempty).1 hlabel)
  rw [← h]
  apply conjoin_congr hothers hlabels
  -- Empty labels add nothing.
  intro operand
  apply exists_congr
  intro label
  by_cases hempty : label = []
  · simp [hempty]
  · rw [hmem label hempty]

theorem conjoin_append {labels others : List Bytes} {combined combined' : Bytes}
    (h : conjoin labels = .ok combined) (h' : conjoin others = .ok combined') :
    ∃ whole, conjoin (labels ++ others) = .ok whole ∧ conjoin [combined, combined'] = .ok whole := by
  obtain ⟨hvalid, hadds⟩ := adds_of_conjoin h
  obtain ⟨hvalid', hadds'⟩ := adds_of_conjoin h'
  have hparts : ∀ label ∈ [combined, combined'], isValid label := by simp [hvalid, hvalid']
  have hall : ∀ label ∈ labels ++ others, isValid label := by
    intro label hlabel
    cases List.mem_append.1 hlabel with
    | inl hlabel => exact isValid_of_conjoin h label hlabel
    | inr hlabel => exact isValid_of_conjoin h' label hlabel
  obtain ⟨whole, hwhole, _⟩ := conjoin_eq_ok hall
  refine ⟨whole, hwhole, ?_⟩
  rw [← hwhole]
  apply conjoin_congr hparts hall
  intro operand
  simp only [List.mem_cons, List.not_mem_nil, or_false, exists_eq_left, List.mem_append,
    or_and_right, exists_or, hadds, hadds']

theorem conjoin_singleton {labels : List Bytes} {combined : Bytes} (h : conjoin labels = .ok combined) :
    conjoin [combined] = .ok combined := by
  obtain ⟨hvalid, hadds⟩ := adds_of_conjoin h
  rw [← h]
  apply conjoin_congr _ (isValid_of_conjoin h)
  · intro operand
    simp only [List.mem_singleton, exists_eq_left, hadds]
  · simpa using hvalid

/-- Labels are combined unless a label that is not empty is not valid. The combined label is valid, is that
of any list with the same labels but for empty ones, and can be combined in the place of its labels. -/
theorem conjoin_regroups (labels : List Bytes) :
    ((∃ e, conjoin labels = .error e) ↔ ∃ label ∈ labels, label ≠ [] ∧ ¬ isValid label) ∧
    ∀ combined, conjoin labels = .ok combined →
      isValid combined ∧
      (∀ others, (∀ label, label ≠ [] → (label ∈ others ↔ label ∈ labels)) →
        conjoin others = .ok combined) ∧
      (∀ others combined', conjoin others = .ok combined' →
        ∃ whole, conjoin (labels ++ others) = .ok whole ∧
          conjoin [combined, combined'] = .ok whole) ∧
      conjoin [combined] = .ok combined := by
  refine ⟨exists_conjoin_eq_error_iff, ?_⟩
  intro combined hconjoin
  refine ⟨(adds_of_conjoin hconjoin).1, ?_, ?_, conjoin_singleton hconjoin⟩
  · intro others hmem
    exact conjoin_of_mem_iff hconjoin hmem
  · intro others combined' hothers
    exact conjoin_append hconjoin hothers

/-- The labels of `threeLabels` in another order, one of them twice and the empty one left out. -/
def shuffledLabels : List Bytes :=
  ["c&(d|e)&c", "a|b", "c&(d|e)&c"].map fun label => Utf8.encode label.toList

/-- A label that shares an operand with `threeLabels`, and one with two operands in parentheses. -/
def sharingLabels : List Bytes := ["(a|b)", "(f&g)"].map fun label => Utf8.encode label.toList

theorem conjoin_regroups_shuffled :
    let combined := Utf8.encode "(a|b)&(d|e)&c".toList
    let combined' := Utf8.encode "(a|b)&(f&g)".toList
    (∀ label, label ≠ [] → (label ∈ shuffledLabels ↔ label ∈ threeLabels)) ∧
    conjoin threeLabels = .ok combined ∧ conjoin sharingLabels = .ok combined' ∧
    isValid combined ∧ conjoin shuffledLabels = .ok combined ∧
    (∃ whole, conjoin (threeLabels ++ sharingLabels) = .ok whole ∧
      conjoin [combined, combined'] = .ok whole) ∧
    conjoin [combined] = .ok combined := by
  intro combined combined'
  have hmem : ∀ label, label ≠ [] → (label ∈ shuffledLabels ↔ label ∈ threeLabels) := by
    intro label hne
    have hempty : Utf8.encode "".toList = [] := rfl
    simp only [shuffledLabels, threeLabels, List.map_cons, List.map_nil, List.mem_cons,
      List.not_mem_nil, or_false, hempty, hne]
    tauto
  have hcombined : conjoin threeLabels = .ok combined := by cbv
  have hcombined' : conjoin sharingLabels = .ok combined' := by cbv
  obtain ⟨hvalid, hsame, hparts, hself⟩ := (conjoin_regroups threeLabels).2 combined hcombined
  exact ⟨hmem, hcombined, hcombined', hvalid, hsame shuffledLabels hmem,
    hparts sharingLabels combined' hcombined', hself⟩

end DatedCounts.Label
