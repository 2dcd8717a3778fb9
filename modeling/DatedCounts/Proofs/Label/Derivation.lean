import DatedCounts.Proofs.Label.Conjunction

/-!
# Derivations of labels

The grammar of labels by its productions, where an expression is derived together with the shape of its
top level. A label has one derivation at most. If it has one, reading takes up the whole label and gives
the tree of that derivation; of the other labels only the empty one is valid.
-/

namespace DatedCounts.Label

def termAlphabet : Bytes :=
  Utf8.encode "ABCDEFGHIJKLMNOPQRSTUVWXYZabcdefghijklmnopqrstuvwxyz0123456789_-:./".toList

/-- The top level of an expression: one operand, or some operands and what joins them. -/
inductive Shape where
  | single (operand : Bytes)
  | joined (joint : Joint) (operands : List Bytes)
  deriving DecidableEq, Repr

def Expr.shape : Expr → Shape
  | .joined joint operands => .joined joint (operands.map toBytes)
  | e => .single e.toBytes

inductive Nonterminal where
  | operand
  | expression

/-- Derivations. An operand is a term or an expression in parentheses, and an expression is one operand,
or two or more of them with the same joint between them. -/
inductive Derives : Nonterminal → Expr → Shape → Bytes → Prop
  | term {bytes : Bytes} (hne : bytes ≠ []) (hbytes : ∀ byte ∈ bytes, byte ∈ termAlphabet) :
      Derives .operand (.term bytes) (.single bytes) bytes
  | group {inner : Expr} {shape : Shape} {bytes : Bytes} (hinner : Derives .expression inner shape bytes) :
      Derives .operand (.group inner) (.single (openParen :: (bytes ++ [closeParen])))
        (openParen :: (bytes ++ [closeParen]))
  | single {e : Expr} {shape : Shape} {bytes : Bytes} (hoperand : Derives .operand e shape bytes) :
      Derives .expression e shape bytes
  | joined {joint : Joint} {operands : List (Expr × Bytes)} (hlength : 2 ≤ operands.length)
      (hoperands : ∀ operand ∈ operands, Derives .operand operand.1 (.single operand.2) operand.2) :
      Derives .expression (.joined joint (operands.map (·.1))) (.joined joint (operands.map (·.2)))
        ([joint.byte].intercalate (operands.map (·.2)))

theorem isTermByte_iff (byte : UInt8) : isTermByte byte ↔ byte ∈ termAlphabet := by
  have hperm : ((List.range 256).filter fun n => isTermByte (.ofNat n)).Perm
      (termAlphabet.map UInt8.toNat) := by
    decide +kernel
  have hinjective : Function.Injective UInt8.toNat := fun _ _ => UInt8.toNat_inj.1
  have hmem := hperm.mem_iff (a := byte.toNat)
  rw [List.mem_map_of_injective hinjective, List.mem_filter, List.mem_range, UInt8.ofNat_toNat] at hmem
  rw [← hmem, and_iff_right byte.toNat_lt]

theorem all_isTermByte_iff {bytes : Bytes} :
    bytes.all isTermByte ↔ ∀ byte ∈ bytes, byte ∈ termAlphabet := by
  simp only [List.all_eq_true, isTermByte_iff]

/-! ### Trees of derivations

The tree of a derivation is proper, is written as the label that is derived and has its shape. Every proper
tree comes from a derivation. -/

theorem Expr.shape_of_isOperand {e : Expr} (h : e.isOperand) : e.shape = .single e.toBytes := by
  cases e with
  | term | group => rfl
  | joined => cases h

theorem Derives.proper {symbol : Nonterminal} {e : Expr} {shape : Shape} {bytes : Bytes}
    (h : Derives symbol e shape bytes) : e.Proper ∧ e.toBytes = bytes ∧ e.shape = shape ∧
      (symbol = .operand → e.isOperand) := by
  induction h with
  | @term bytes hne hbytes =>
    have hwritten : (Expr.term bytes).toBytes = bytes := by rw [Expr.toBytes]
    refine ⟨.term hne (all_isTermByte_iff.2 hbytes), hwritten, ?_, fun _ => rfl⟩
    rw [Expr.shape_of_isOperand rfl, hwritten]
  | @group inner shape bytes hinner ih =>
    obtain ⟨hproper, hwritten, _⟩ := ih
    have hgroup : (Expr.group inner).toBytes = openParen :: (bytes ++ [closeParen]) := by
      rw [Expr.toBytes_group, hwritten]
    refine ⟨.group hproper, hgroup, ?_, fun _ => rfl⟩
    rw [Expr.shape_of_isOperand rfl, hgroup]
  | single _ ih =>
    obtain ⟨hproper, hwritten, hshape, _⟩ := ih
    exact ⟨hproper, hwritten, hshape, fun h => by cases h⟩
  | @joined joint operands hlength _ ih =>
    have hwritten : (operands.map (·.1)).map Expr.toBytes = operands.map (·.2) := by
      rw [List.map_map]
      apply List.map_congr_left
      intro operand hmem
      exact (ih operand hmem).2.1
    have hoperands : ∀ e ∈ operands.map (·.1), e.isOperand ∧ e.Proper := by
      intro e hmem
      obtain ⟨operand, hin, rfl⟩ := List.mem_map.1 hmem
      obtain ⟨hproper, _, _, hkind⟩ := ih operand hin
      exact ⟨hkind rfl, hproper⟩
    refine ⟨.joined ?_ ?_ ?_, ?_, ?_, fun h => by cases h⟩
    · rwa [List.length_map]
    · exact fun e hmem => (hoperands e hmem).1
    · exact fun e hmem => (hoperands e hmem).2
    · rw [Expr.toBytes, hwritten]
    · rw [Expr.shape, hwritten]

theorem Derives.operand {e : Expr} {shape : Shape} {bytes : Bytes}
    (h : Derives .expression e shape bytes) (hkind : e.isOperand) : Derives .operand e shape bytes := by
  cases h with
  | single hoperand => exact hoperand
  | joined => cases hkind

theorem Expr.Proper.derives {e : Expr} (h : e.Proper) : Derives .expression e e.shape e.toBytes := by
  induction h with
  | @term bytes hne hbytes =>
    rw [Expr.shape_of_isOperand rfl, Expr.toBytes]
    exact .single (.term hne (all_isTermByte_iff.1 hbytes))
  | group hinner ih =>
    rw [Expr.shape_of_isOperand rfl, Expr.toBytes_group]
    exact .single (.group ih)
  | @joined joint operands hlength hkind hproper ih =>
    have hpairs : ∀ pair ∈ operands.map fun e => (e, e.toBytes),
        Derives .operand pair.1 (.single pair.2) pair.2 := by
      intro pair hmem
      obtain ⟨operand, hin, rfl⟩ := List.mem_map.1 hmem
      rw [← Expr.shape_of_isOperand (hkind operand hin)]
      exact (ih operand hin).operand (hkind operand hin)
    have hderives := @Derives.joined joint _ (by rwa [List.length_map]) hpairs
    rw [List.map_map, List.map_map] at hderives
    rw [Expr.shape, Expr.toBytes]
    simpa [Function.comp_def] using hderives

theorem derives_iff {e : Expr} {shape : Shape} {label : Bytes} :
    Derives .expression e shape label ↔ (e.Proper ∧ e.toBytes = label) ∧ e.shape = shape := by
  constructor
  · intro h
    obtain ⟨hproper, hwritten, hshape, _⟩ := h.proper
    exact ⟨⟨hproper, hwritten⟩, hshape⟩
  · rintro ⟨⟨hproper, rfl⟩, rfl⟩
    exact hproper.derives

/-! ### What is read -/

theorem exists_readChain_of_parse {label : Bytes} {e : Expr} (h : parse label = .ok e) :
    ∃ joint operands hlt, readChain label.length none label = .ok (joint, operands, ⟨[], hlt⟩) ∧
      Expr.ofChain joint operands = e := by
  rw [parse] at h
  split at h
  · cases h
  · next joint operands hlt hread =>
    cases h
    exact ⟨joint, operands, hlt, hread, rfl⟩
  · cases h

/-- A label is valid just if it is empty or has a derivation. It has no more than one, and is read as a
whole into the tree of that one, which has the shape of its top level. -/
theorem parse_only_derivation (label : Bytes) :
    (isValid label ↔ label = [] ∨ ∃ e shape, Derives .expression e shape label) ∧
    ∀ e shape, Derives .expression e shape label →
      (∀ other form, Derives .expression other form label → other = e ∧ form = shape) ∧
      ∃ joint operands hlt, readChain label.length none label = .ok (joint, operands, ⟨[], hlt⟩) ∧
        Expr.ofChain joint operands = e ∧ parse label = .ok e ∧ e.shape = shape := by
  constructor
  · rw [isValid_iff]
    apply or_congr_right
    apply exists_congr
    intro e
    constructor
    · intro hproper
      exact ⟨e.shape, derives_iff.2 ⟨hproper, rfl⟩⟩
    · intro hderives
      obtain ⟨shape, hderives⟩ := hderives
      exact (derives_iff.1 hderives).1
  · intro e shape hderives
    obtain ⟨hproper, hshape⟩ := derives_iff.1 hderives
    have hparse : parse label = .ok e := parse_eq_ok.2 hproper
    obtain ⟨joint, operands, hlt, hread, hchain⟩ := exists_readChain_of_parse hparse
    refine ⟨?_, joint, operands, hlt, hread, hchain, hparse, hshape⟩
    intro other form hother
    obtain ⟨⟨hotherProper, hwritten⟩, hform⟩ := derives_iff.1 hother
    have heq : other = e := hproper.1.eq_of_toBytes hotherProper (hwritten.trans hproper.2.symm)
    exact ⟨heq, by rw [← hform, ← hshape, heq]⟩

/-- A disjunction in parentheses and a term of all five marks, joined by `&`. -/
def nestedLabel : Bytes := Utf8.encode "(a|(b))&c-1.0:/_".toList

def nestedShape : Shape :=
  .joined .all [Utf8.encode "(a|(b))".toList, Utf8.encode "c-1.0:/_".toList]

theorem parse_only_derivation_nested : isValid nestedLabel ∧
    ∃ e, Derives .expression e nestedShape nestedLabel ∧
      (∀ other form, Derives .expression other form nestedLabel → other = e ∧ form = nestedShape) ∧
      ∃ joint operands hlt,
        readChain nestedLabel.length none nestedLabel = .ok (joint, operands, ⟨[], hlt⟩) ∧
          Expr.ofChain joint operands = e ∧ parse nestedLabel = .ok e ∧ e.shape = nestedShape := by
  have hshape : (parse nestedLabel).map Expr.shape = .ok nestedShape := by cbv
  obtain ⟨e, hparse, hshape⟩ := map_eq_ok.1 hshape
  have hderives : Derives .expression e nestedShape nestedLabel :=
    derives_iff.2 ⟨parse_eq_ok.1 hparse, hshape⟩
  obtain ⟨hvalid, honly⟩ := parse_only_derivation nestedLabel
  exact ⟨hvalid.2 (.inr ⟨e, nestedShape, hderives⟩), e, hderives, honly e nestedShape hderives⟩

end DatedCounts.Label
