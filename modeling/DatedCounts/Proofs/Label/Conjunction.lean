import DatedCounts.Label.Conjunction
import DatedCounts.Proofs.Fallible
import DatedCounts.Proofs.Label.Grammar
import DatedCounts.Proofs.Ordered.Lookup

/-!
# The meaning of combined labels

A label stands for a condition on the terms that a reader holds. It can be taken apart into the operands
that it adds to a conjunction, and grants access just if each of them does. The combined label of some
labels adds the operands of all of them, so it grants access just if every label does, and combining it
with further labels is the same as combining all of them at once.
-/

namespace DatedCounts.Label

/-! ### Meaning -/

/-- Whether an expression is true for a reader who holds some terms. -/
def Expr.holds (held : Bytes → Bool) : Expr → Bool
  | .term bytes => held bytes
  | .group inner => inner.holds held
  | .joined .all operands => (operands.map fun operand => operand.holds held).and
  | .joined .any operands => (operands.map fun operand => operand.holds held).or

/-- Whether a label grants access to a reader who holds some terms. The empty label always does. -/
def Grants (held : Bytes → Bool) (label : Bytes) : Prop :=
  label = [] ∨ ∃ e : Expr, e.Proper ∧ e.toBytes = label ∧ e.holds held

theorem isValid_iff {label : Bytes} :
    isValid label ↔ label = [] ∨ ∃ e : Expr, e.Proper ∧ e.toBytes = label := by
  simp only [← parse_eq_ok, isValid, Bool.or_eq_true, List.isEmpty_iff]
  cases parse label <;> simp

theorem Expr.Proper.toBytes_ne_nil {e : Expr} (h : e.Proper) : e.toBytes ≠ [] := by
  intro hnil
  have hparse := parse_eq_ok.2 ⟨h, hnil⟩
  rw [parse, readChain, readOperand] at hparse
  cases hparse

/-- An expression is the only one that is written as its label. -/
theorem Expr.Proper.eq_of_toBytes {e other : Expr} (h : e.Proper) (hother : other.Proper)
    (heq : other.toBytes = e.toBytes) : other = e := by
  have hparse := parse_eq_ok.2 ⟨h, rfl⟩
  rw [parse_eq_ok.2 ⟨hother, heq⟩] at hparse
  exact Except.ok.inj hparse

theorem grants_toBytes {held : Bytes → Bool} {e : Expr} (h : e.Proper) :
    Grants held e.toBytes ↔ e.holds held := by
  constructor
  · rintro (hnil | ⟨other, hother, heq, hholds⟩)
    · exact absurd hnil h.toBytes_ne_nil
    · rwa [h.eq_of_toBytes hother heq] at hholds
  · exact fun hholds => .inr ⟨e, h, rfl, hholds⟩

/-! ### Operands of a conjunction -/

namespace Expr

/-- The expressions that an expression adds to a conjunction. -/
def factors (e : Expr) : List Expr :=
  match e with
  | .joined .all operands => operands
  | .joined .any _ => [.group e]
  | _ => [e]

theorem conjuncts_eq (e : Expr) : e.conjuncts = e.factors.map toBytes := by
  cases e with
  | term | group => rfl
  | joined joint operands => cases joint <;> rfl

theorem factors_of_isOperand {e : Expr} (h : e.isOperand) : e.factors = [e] := by
  cases e with
  | term | group => rfl
  | joined => cases h

theorem Proper.factors {e : Expr} (h : e.Proper) :
    ∀ factor ∈ e.factors, factor.isOperand ∧ factor.Proper := by
  cases h with
  | term hne hbytes => simpa [Expr.factors] using ⟨rfl, .term hne hbytes⟩
  | group hinner => simpa [Expr.factors] using ⟨rfl, .group hinner⟩
  | @joined joint operands hlength hoperand hproper =>
    cases joint with
    | all => exact fun factor hmem => ⟨hoperand factor hmem, hproper factor hmem⟩
    | any => simpa [Expr.factors] using ⟨rfl, .group (.joined hlength hoperand hproper)⟩

theorem holds_factors (held : Bytes → Bool) (e : Expr) :
    e.holds held ↔ ∀ factor ∈ e.factors, factor.holds held := by
  cases e with
  | term | group => simp [factors]
  | joined joint operands =>
    cases joint with
    | all => simp [holds, factors, List.and]
    | any => rw [factors, List.forall_mem_singleton, holds.eq_def held (.group _)]

end Expr

def adds (label : Bytes) : List Bytes :=
  if label.isEmpty then []
  else
    match parse label with
    | .ok e => e.conjuncts
    | .error _ => []

@[simp] theorem adds_nil : adds [] = [] := rfl

theorem adds_toBytes {e : Expr} (h : e.Proper) : adds e.toBytes = e.factors.map Expr.toBytes := by
  have hne : e.toBytes.isEmpty = false := by simpa using h.toBytes_ne_nil
  rw [adds, hne, parse_eq_ok.2 ⟨h, rfl⟩]
  exact e.conjuncts_eq

theorem grants_iff_adds {label : Bytes} (h : isValid label) (held : Bytes → Bool) :
    Grants held label ↔ ∀ operand ∈ adds label, Grants held operand := by
  rcases isValid_iff.1 h with rfl | ⟨e, hproper, rfl⟩
  · simp [Grants]
  · rw [grants_toBytes hproper, e.holds_factors, adds_toBytes hproper]
    simp only [List.mem_map, forall_exists_index, and_imp, forall_apply_eq_imp_iff₂]
    refine forall_congr' fun factor => ?_
    exact imp_congr_right fun hmem => (grants_toBytes (hproper.factors factor hmem).2).symm

theorem exists_operand_of_mem_adds {label operand : Bytes} (h : operand ∈ adds label) :
    ∃ e : Expr, e.isOperand ∧ e.Proper ∧ e.toBytes = operand := by
  rw [adds] at h
  split at h
  · cases h
  · split at h
    · next e hparse =>
      obtain ⟨hproper, -⟩ := parse_eq_ok.1 hparse
      rw [e.conjuncts_eq] at h
      obtain ⟨factor, hmem, rfl⟩ := List.mem_map.1 h
      obtain ⟨hkind, hfactor⟩ := hproper.factors factor hmem
      exact ⟨factor, hkind, hfactor, rfl⟩
    · cases h

/-! ### Combined labels -/

theorem adds_intercalate {operands : List Expr}
    (h : ∀ operand ∈ operands, operand.isOperand ∧ operand.Proper) :
    isValid ([Joint.all.byte].intercalate (operands.map Expr.toBytes)) ∧
      adds ([Joint.all.byte].intercalate (operands.map Expr.toBytes)) =
        operands.map Expr.toBytes := by
  cases operands with
  | nil => exact ⟨rfl, rfl⟩
  | cons first rest =>
    cases rest with
    | nil =>
      obtain ⟨hkind, hproper⟩ := h first List.mem_cons_self
      rw [List.map_singleton, List.intercalate_singleton]
      refine ⟨isValid_iff.2 (.inr ⟨first, hproper, rfl⟩), ?_⟩
      rw [adds_toBytes hproper, Expr.factors_of_isOperand hkind, List.map_singleton]
    | cons second rest =>
      have hproper : (Expr.joined .all (first :: second :: rest)).Proper :=
        .joined (by simp) (fun operand hmem => (h operand hmem).1) (fun operand hmem => (h operand hmem).2)
      rw [← Expr.toBytes]
      exact ⟨isValid_iff.2 (.inr ⟨_, hproper, rfl⟩), adds_toBytes hproper⟩

theorem exists_operands {written : List Bytes}
    (h : ∀ bytes ∈ written, ∃ e : Expr, e.isOperand ∧ e.Proper ∧ e.toBytes = bytes) :
    ∃ operands : List Expr, operands.map Expr.toBytes = written ∧
      ∀ operand ∈ operands, operand.isOperand ∧ operand.Proper := by
  induction written with
  | nil => exact ⟨[], rfl, by simp⟩
  | cons bytes rest ih =>
    obtain ⟨⟨e, hkind, hproper, hbytes⟩, hrest⟩ := List.forall_mem_cons.1 h
    obtain ⟨operands, hwritten, hoperands⟩ := ih hrest
    exact ⟨e :: operands, by rw [List.map_cons, hbytes, hwritten],
      List.forall_mem_cons.2 ⟨⟨hkind, hproper⟩, hoperands⟩⟩

private theorem foldlM_insertAll {labels : List Bytes} (h : ∀ label ∈ labels, isValid label)
    (present : OrderedSet Bytes) :
    ∃ operands, (labels.filter fun label => !label.isEmpty).foldlM (fun operands label =>
        match parse label with
        | .ok e => Except.ok (operands.insertAll e.conjuncts)
        | .error fault => .error (Error.label fault label)) present = .ok operands ∧
      ∀ operand, operand ∈ operands.toList ↔
        operand ∈ present.toList ∨ ∃ label ∈ labels, operand ∈ adds label := by
  induction labels generalizing present with
  | nil => exact ⟨present, rfl, by simp⟩
  | cons label rest ih =>
    obtain ⟨hlabel, hrest⟩ := List.forall_mem_cons.1 h
    rcases isValid_iff.1 hlabel with rfl | ⟨e, hproper, rfl⟩
    · obtain ⟨operands, hfold, hmem⟩ := ih hrest present
      exact ⟨operands, hfold, fun operand => by simp [hmem]⟩
    · obtain ⟨operands, hfold, hmem⟩ := ih hrest (present.insertAll e.conjuncts)
      refine ⟨operands, ?_, fun operand => ?_⟩
      · rw [List.filter_cons_of_pos (by simpa using hproper.toBytes_ne_nil), List.foldlM_cons,
          parse_eq_ok.2 ⟨hproper, rfl⟩]
        exact hfold
      · rw [hmem, OrderedSet.mem_insertAll, e.conjuncts_eq, ← adds_toBytes hproper]
        simp [or_assoc, or_left_comm]

theorem conjuncts_eq_ok {labels : List Bytes} (h : ∀ label ∈ labels, isValid label) :
    ∃ operands, conjuncts labels = .ok operands ∧
      ∀ operand, operand ∈ operands.toList ↔ ∃ label ∈ labels, operand ∈ adds label := by
  obtain ⟨operands, hfold, hmem⟩ := foldlM_insertAll h ∅
  exact ⟨operands, hfold, fun operand => by simp [hmem]⟩

/-- The combined label of valid labels is valid and adds what each of them adds. -/
theorem conjoin_eq_ok {labels : List Bytes} (h : ∀ label ∈ labels, isValid label) :
    ∃ combined, conjoin labels = .ok combined ∧ isValid combined ∧
      ∀ operand, operand ∈ adds combined ↔ ∃ label ∈ labels, operand ∈ adds label := by
  obtain ⟨operands, hconjuncts, hmem⟩ := conjuncts_eq_ok h
  have hwritten : ∀ bytes ∈ operands.toList, ∃ e : Expr, e.isOperand ∧ e.Proper ∧ e.toBytes = bytes := by
    intro bytes hbytes
    obtain ⟨label, _, hadds⟩ := (hmem bytes).1 hbytes
    exact exists_operand_of_mem_adds hadds
  obtain ⟨exprs, hexprs, hproper⟩ := exists_operands hwritten
  obtain ⟨hvalid, hadds⟩ := adds_intercalate hproper
  rw [hexprs] at hvalid hadds
  refine ⟨_, by rw [conjoin, hconjuncts]; rfl, hvalid, fun operand => ?_⟩
  rw [hadds, hmem]

private theorem exists_parse_of_foldlM {labels : List Bytes} {present operands : OrderedSet Bytes}
    (h : labels.foldlM (fun operands label =>
      match parse label with
      | .ok e => Except.ok (operands.insertAll e.conjuncts)
      | .error fault => .error (Error.label fault label)) present = .ok operands) :
    ∀ label ∈ labels, ∃ e, parse label = .ok e := by
  induction labels generalizing present with
  | nil => simp
  | cons label rest ih =>
    rw [List.foldlM_cons] at h
    cases hparse : parse label with
    | error fault =>
      rw [hparse] at h
      cases h
    | ok e =>
      rw [hparse] at h
      exact List.forall_mem_cons.2 ⟨⟨e, hparse⟩, ih h⟩

theorem isValid_of_conjoin {labels : List Bytes} {combined : Bytes}
    (h : conjoin labels = .ok combined) : ∀ label ∈ labels, isValid label := by
  intro label hlabel
  obtain ⟨operands, hconjuncts, _⟩ := map_eq_ok.1 h
  rw [isValid_iff]
  by_cases hempty : label = []
  · exact .inl hempty
  · have hmem : label ∈ labels.filter fun label => !label.isEmpty :=
      List.mem_filter.2 ⟨hlabel, by simpa using hempty⟩
    obtain ⟨e, hparse⟩ := exists_parse_of_foldlM hconjuncts label hmem
    exact .inr ⟨e, parse_eq_ok.1 hparse⟩

/-- The combined label depends on no more than what its labels add. -/
theorem conjoin_congr {labels others : List Bytes} (hlabels : ∀ label ∈ labels, isValid label)
    (hothers : ∀ label ∈ others, isValid label)
    (h : ∀ operand, (∃ label ∈ labels, operand ∈ adds label) ↔ ∃ label ∈ others, operand ∈ adds label) :
    conjoin labels = conjoin others := by
  obtain ⟨operands, hconjuncts, hmem⟩ := conjuncts_eq_ok hlabels
  obtain ⟨operands', hconjuncts', hmem'⟩ := conjuncts_eq_ok hothers
  obtain rfl : operands = operands' := by
    apply OrderedSet.ext_mem
    intro operand
    rw [hmem, hmem', h]
  rw [conjoin, conjoin, hconjuncts, hconjuncts']

/-- The combined label of valid labels is valid and grants access just to those readers to whom every
one of the labels does. -/
theorem conjoin_grants {labels : List Bytes} (h : ∀ label ∈ labels, isValid label) :
    ∃ combined, conjoin labels = .ok combined ∧ isValid combined ∧
      ∀ held, Grants held combined ↔ ∀ label ∈ labels, Grants held label := by
  obtain ⟨combined, hconjoin, hvalid, hadds⟩ := conjoin_eq_ok h
  refine ⟨combined, hconjoin, hvalid, fun held => ?_⟩
  rw [grants_iff_adds hvalid]
  constructor
  · intro hgrants label hlabel
    rw [grants_iff_adds (h label hlabel)]
    intro operand hoperand
    exact hgrants operand ((hadds operand).2 ⟨label, hlabel, hoperand⟩)
  · intro hgrants operand hoperand
    obtain ⟨label, hlabel, hadded⟩ := (hadds operand).1 hoperand
    exact (grants_iff_adds (h label hlabel) held).1 (hgrants label hlabel) operand hadded

/-- A disjunction, a conjunction that repeats one of its terms, and the empty label. -/
def threeLabels : List Bytes := ["a|b", "c&(d|e)&c", ""].map fun label => Utf8.encode label.toList

theorem conjoin_grants_three : (∀ label ∈ threeLabels, isValid label) ∧
    ∃ combined, conjoin threeLabels = .ok combined ∧ isValid combined ∧
      ∀ held, Grants held combined ↔ ∀ label ∈ threeLabels, Grants held label := by
  have hvalid : ∀ label ∈ threeLabels, isValid label := by
    rw [← List.all_eq_true]
    cbv
  exact ⟨hvalid, conjoin_grants hvalid⟩

end DatedCounts.Label
