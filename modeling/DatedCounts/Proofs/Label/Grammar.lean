import Mathlib
import DatedCounts.Label

/-!
# The grammar of labels

Reading a label follows a grammar: a term is one or more bytes of terms, an operand is a term or an
expression in parentheses, and an expression is one operand or a chain of two or more operands with one
joint. An expression is read from a label just if it is proper and is written as that label.
-/

namespace DatedCounts.Label

namespace Expr

/-- Terms and groups are operands. -/
def isOperand : Expr → Bool
  | .joined .. => false
  | _ => true

/-- The expressions of the grammar. -/
inductive Proper : Expr → Prop
  | term {bytes : Bytes} (hne : bytes ≠ []) (hbytes : bytes.all isTermByte) : Proper (.term bytes)
  | group {inner : Expr} (hinner : Proper inner) : Proper (.group inner)
  | joined {joint : Joint} {operands : List Expr} (hlength : 2 ≤ operands.length)
      (hoperand : ∀ operand ∈ operands, operand.isOperand)
      (hproper : ∀ operand ∈ operands, Proper operand) : Proper (.joined joint operands)

theorem toBytes_group (inner : Expr) :
    (group inner).toBytes = openParen :: (inner.toBytes ++ [closeParen]) := by
  rw [toBytes]

theorem toBytes_joined_singleton (joint : Joint) (operand : Expr) :
    (joined joint [operand]).toBytes = operand.toBytes := by
  simp [toBytes]

theorem toBytes_ofChain_singleton (joint : Option Joint) (operand : Expr) :
    (ofChain joint [operand]).toBytes = operand.toBytes := by
  cases joint with
  | none => rfl
  | some joint => exact toBytes_joined_singleton joint operand

theorem toBytes_joined_cons (joint : Joint) (operand next : Expr) (operands : List Expr) :
    (joined joint (operand :: next :: operands)).toBytes =
      operand.toBytes ++ joint.byte :: (joined joint (next :: operands)).toBytes := by
  rw [toBytes, toBytes]
  simp [List.intercalate_cons_cons]

end Expr

/-! ### Bytes -/

theorem isMark_joint (joint : Joint) : isMark joint.byte := by
  cases joint <;> decide

theorem ofByte?_byte (joint : Joint) : Joint.ofByte? joint.byte = some joint := by
  cases joint <;> rfl

theorem byte_of_ofByte? {byte : UInt8} {joint : Joint} (h : Joint.ofByte? byte = some joint) :
    byte = joint.byte := by
  rw [Joint.ofByte?] at h
  split at h
  · next hall =>
    cases h
    exact hall
  · split at h
    · next hany =>
      cases h
      exact hany
    · cases h

theorem not_isMark_of_isTermByte {byte : UInt8} (h : isTermByte byte) : isMark byte = false := by
  rw [Bool.eq_false_iff]
  intro hmark
  simp only [isMark, Bool.or_eq_true, beq_iff_eq] at hmark
  rcases hmark with ((rfl | rfl) | rfl) | rfl
  all_goals exact absurd h (by decide)

/-! ### What is read is proper -/

/-- How a chain of operands goes on from the joint before it. -/
def Continues (before after : Option Joint) (operands : List Expr) : Prop :=
  after = before ∧ operands.length = 1 ∨
    ∃ joint, after = some joint ∧ (before = none ∨ before = some joint) ∧ 2 ≤ operands.length

theorem Continues.of_some {joint : Joint} {after : Option Joint} {operands : List Expr}
    (h : Continues (some joint) after operands) :
    after = some joint ∧ ∃ first others, operands = first :: others := by
  rcases h with ⟨rfl, hlength⟩ | ⟨found, rfl, hbefore, hlength⟩
  · exact ⟨rfl, List.exists_cons_of_length_pos (by omega)⟩
  · refine ⟨?_, List.exists_cons_of_length_pos (by omega)⟩
    rcases hbefore with hnone | hsame
    · cases hnone
    · exact hsame.symm

section Reading

variable {length : Nat}

/-- What it means that operands are read from some bytes as the grammar has them. -/
def OperandSound (length : Nat) (bytes : Bytes) : Prop :=
  ∀ operand rest, readOperand length bytes = .ok (operand, rest) →
    operand.isOperand ∧ operand.Proper ∧ bytes = operand.toBytes ++ rest.1

def ChainSound (length : Nat) (bytes : Bytes) : Prop :=
  ∀ before after operands rest, readChain length before bytes = .ok (after, operands, rest) →
    Continues before after operands ∧ (∀ operand ∈ operands, operand.isOperand ∧ operand.Proper) ∧
      bytes = (Expr.ofChain after operands).toBytes ++ rest.1

theorem Expr.proper_ofChain {after : Option Joint} {operands : List Expr}
    (hcontinues : Continues none after operands)
    (hoperands : ∀ operand ∈ operands, operand.isOperand ∧ operand.Proper) :
    (Expr.ofChain after operands).Proper := by
  rcases hcontinues with ⟨rfl, hlength⟩ | ⟨joint, rfl, _, hlength⟩
  · obtain ⟨operand, rfl⟩ := List.length_eq_one_iff.1 hlength
    exact (hoperands operand List.mem_cons_self).2
  · exact .joined hlength (fun operand hmem => (hoperands operand hmem).1)
      (fun operand hmem => (hoperands operand hmem).2)

theorem readTerm_sound {first : UInt8} {others : Bytes} {operand : Expr}
    {rest : Rest (first :: others)} (h : readTerm length first others = .ok (operand, rest)) :
    operand.isOperand ∧ operand.Proper ∧ first :: others = operand.toBytes ++ rest.1 := by
  rw [readTerm] at h
  split at h
  · cases h
  · simp only at h
    split at h
    · next hterm =>
      cases h
      refine ⟨rfl, .term (List.cons_ne_nil _ _) hterm, ?_⟩
      simp [Expr.toBytes]
    · cases h

theorem operandSound_of_chain {bytes : Bytes}
    (hchain : ∀ others, others.length < bytes.length → ChainSound length others) :
    OperandSound length bytes := by
  intro operand rest h
  cases bytes with
  | nil =>
    rw [readOperand] at h
    cases h
  | cons first others =>
    rw [readOperand] at h
    split at h
    · next hopen =>
      split at h
      · cases h
      · cases h
      · next joint operands close rest' hlt hread =>
        split at h
        · next hclose =>
          cases h
          obtain ⟨hcontinues, hoperands, hbytes⟩ :=
            hchain others (Nat.lt_succ_self _) none joint operands ⟨close :: rest', hlt⟩ hread
          refine ⟨rfl, .group (Expr.proper_ofChain hcontinues hoperands), ?_⟩
          have hothers : others = (Expr.ofChain joint operands).toBytes ++ close :: rest' := hbytes
          change first :: others = _ ++ rest'
          rw [Expr.toBytes_group, hopen, hothers, hclose]
          simp
        · cases h
    · exact readTerm_sound h

theorem chainSound_of_operand {bytes : Bytes} (hoperand : OperandSound length bytes)
    (hchain : ∀ others, others.length < bytes.length → ChainSound length others) :
    ChainSound length bytes := by
  intro before after operands rest h
  rw [readChain] at h
  split at h
  · cases h
  · next operand hlt hread =>
    cases h
    obtain ⟨hkind, hproper, hbytes⟩ := hoperand operand _ hread
    refine ⟨.inl ⟨rfl, rfl⟩, by simpa using ⟨hkind, hproper⟩, ?_⟩
    rw [Expr.toBytes_ofChain_singleton]
    exact hbytes
  · next operand next rest' hlt hread =>
    obtain ⟨hkind, hproper, hbytes⟩ := hoperand operand _ hread
    have hbytes' : bytes = operand.toBytes ++ next :: rest' := hbytes
    split at h
    · next found hfound =>
      split at h
      · cases h
      · next hsame =>
        split at h
        · cases h
        · next joint operands rest'' hlt' hmore =>
          cases h
          obtain ⟨hcontinues, hoperands, hrest⟩ :=
            hchain rest' (Nat.lt_trans (Nat.lt_succ_self _) hlt) (some found) _ _ _ hmore
          obtain ⟨rfl, second, others, rfl⟩ := hcontinues.of_some
          have hrest' : rest' = (Expr.joined found (second :: others)).toBytes ++ rest'' := hrest
          refine ⟨.inr ⟨found, rfl, ?_, by simp⟩, List.forall_mem_cons.2 ⟨⟨hkind, hproper⟩, hoperands⟩, ?_⟩
          · cases before <;> simp_all
          · change bytes = (Expr.joined found (operand :: second :: others)).toBytes ++ rest''
            rw [hbytes', Expr.toBytes_joined_cons, hrest', byte_of_ofByte? hfound]
            simp
    · split at h
      · next hclose =>
        cases h
        refine ⟨.inl ⟨rfl, rfl⟩, by simpa using ⟨hkind, hproper⟩, ?_⟩
        rw [Expr.toBytes_ofChain_singleton]
        exact hbytes
      · cases h

variable (length) in
/-- Reading takes a proper expression off the front. -/
theorem chainSound (bytes : Bytes) : ChainSound length bytes := by
  induction hn : bytes.length using Nat.strongRecOn generalizing bytes with
  | ind n ih =>
    have hchain : ∀ others, others.length < bytes.length → ChainSound length others :=
      fun others hlt => ih others.length (hn ▸ hlt) others rfl
    exact chainSound_of_operand (operandSound_of_chain hchain) hchain

/-! ### What is proper is read -/

def OperandComplete (length : Nat) (bytes : Bytes) : Prop :=
  ∀ (operand : Expr) (rest : Bytes), operand.isOperand → operand.Proper →
    bytes = operand.toBytes ++ rest → (∀ byte ∈ rest.head?, isMark byte) →
      ∃ hlt, readOperand length bytes = .ok (operand, ⟨rest, hlt⟩)

def ChainComplete (length : Nat) (bytes : Bytes) : Prop :=
  ∀ (before after : Option Joint) (operands : List Expr) (rest : Bytes),
    Continues before after operands → (∀ operand ∈ operands, operand.isOperand ∧ operand.Proper) →
    bytes = (Expr.ofChain after operands).toBytes ++ rest → (∀ byte ∈ rest.head?, byte = closeParen) →
      ∃ hlt, readChain length before bytes = .ok (after, operands, ⟨rest, hlt⟩)

theorem Expr.Proper.exists_chain {e : Expr} (h : e.Proper) : ∃ after operands,
    e = .ofChain after operands ∧ Continues none after operands ∧
      ∀ operand ∈ operands, operand.isOperand ∧ operand.Proper := by
  cases h with
  | term hne hbytes => exact ⟨none, [_], rfl, .inl ⟨rfl, rfl⟩, by simpa using ⟨rfl, .term hne hbytes⟩⟩
  | group hinner => exact ⟨none, [_], rfl, .inl ⟨rfl, rfl⟩, by simpa using ⟨rfl, .group hinner⟩⟩
  | @joined joint operands hlength hoperand hproper =>
    exact ⟨some joint, operands, rfl, .inr ⟨joint, rfl, .inl rfl, hlength⟩,
      fun operand hmem => ⟨hoperand operand hmem, hproper operand hmem⟩⟩

variable (length) in
theorem readTerm_complete {bytes rest : Bytes} (hne : bytes ≠ []) (hbytes : bytes.all isTermByte)
    (hrest : ∀ byte ∈ rest.head?, isMark byte) :
    ∃ first others, ∃ hlt, bytes ++ rest = first :: others ∧ first ≠ openParen ∧
      readTerm length first others = .ok (.term bytes, ⟨rest, hlt⟩) := by
  obtain ⟨first, term, rfl⟩ := List.exists_cons_of_ne_nil hne
  have hmarks : ∀ byte ∈ first :: term, !isMark byte := by
    intro byte hmem
    rw [not_isMark_of_isTermByte (List.all_eq_true.1 hbytes byte hmem)]
    rfl
  obtain ⟨hfirst, hterm⟩ := List.forall_mem_cons.1 hmarks
  have htake : (term ++ rest).takeWhile (fun byte => !isMark byte) = term := by
    rw [List.takeWhile_append_of_pos hterm]
    cases rest with
    | nil => simp
    | cons mark rest => simp [hrest mark (by simp)]
  have hdrop : (term ++ rest).dropWhile (fun byte => !isMark byte) = rest := by
    rw [List.dropWhile_append_of_pos hterm]
    cases rest with
    | nil => rfl
    | cons mark rest => simp [hrest mark (by simp)]
  have hlt : rest.length < (first :: (term ++ rest)).length := by
    rw [List.length_cons, List.length_append]
    omega
  refine ⟨first, term ++ rest, hlt, rfl, ?_, ?_⟩
  · rintro rfl
    cases hfirst
  · rw [readTerm, if_neg (by simpa using hfirst)]
    simp only [htake, hbytes, hdrop, if_true]

theorem operandComplete_of_chain {bytes : Bytes}
    (hchain : ∀ others, others.length < bytes.length → ChainComplete length others) :
    OperandComplete length bytes := by
  intro operand rest hkind hproper hbytes hrest
  cases hproper with
  | term hne hterm =>
    rw [Expr.toBytes] at hbytes
    obtain ⟨first, others, hlt, heq, hopen, hread⟩ := readTerm_complete length hne hterm hrest
    obtain rfl := hbytes.trans heq
    refine ⟨hlt, ?_⟩
    rw [readOperand, if_neg hopen, hread]
  | @group inner hinner =>
    rw [Expr.toBytes_group, List.cons_append, List.append_assoc, List.singleton_append] at hbytes
    subst hbytes
    obtain ⟨after, operands, rfl, hcontinues, hoperands⟩ := hinner.exists_chain
    obtain ⟨hlt, hread⟩ := hchain _ (Nat.lt_succ_self _) none after operands (closeParen :: rest)
      hcontinues hoperands rfl (by simp)
    refine ⟨by simp; omega, ?_⟩
    rw [readOperand, if_pos rfl]
    simp only [hread, if_true]
  | joined => cases hkind

theorem chainComplete_of_operand {bytes : Bytes} (hoperand : OperandComplete length bytes)
    (hchain : ∀ others, others.length < bytes.length → ChainComplete length others) :
    ChainComplete length bytes := by
  intro before after operands rest hcontinues hoperands hbytes hrest
  cases operands with
  | nil => rcases hcontinues with ⟨_, hlength⟩ | ⟨_, _, _, hlength⟩ <;> cases hlength
  | cons operand operands =>
    obtain ⟨⟨hkind, hproper⟩, hothers⟩ := List.forall_mem_cons.1 hoperands
    cases operands with
    | nil =>
      rw [Expr.toBytes_ofChain_singleton] at hbytes
      obtain ⟨hlt, hread⟩ := hoperand operand rest hkind hproper hbytes (by
        intro byte hbyte
        rw [hrest byte hbyte]
        decide)
      refine ⟨hlt, ?_⟩
      obtain rfl : after = before := by
        rcases hcontinues with ⟨hafter, _⟩ | ⟨_, _, _, hlength⟩
        · exact hafter
        · cases hlength
          contradiction
      rw [readChain]
      simp only [hread]
      cases rest with
      | nil => rfl
      | cons close rest =>
        obtain rfl : close = closeParen := hrest close (by simp)
        rfl
    | cons second others =>
      obtain ⟨joint, rfl, hbefore⟩ : ∃ joint, after = some joint ∧ (before = none ∨ before = some joint) := by
        rcases hcontinues with ⟨_, hlength⟩ | ⟨joint, hafter, hbefore, _⟩
        · cases hlength
        · exact ⟨joint, hafter, hbefore⟩
      have hsplit : bytes = operand.toBytes ++
          joint.byte :: ((Expr.joined joint (second :: others)).toBytes ++ rest) := by
        rw [hbytes, Expr.ofChain, Expr.toBytes_joined_cons, List.append_assoc, List.cons_append]
      obtain ⟨hlt, hread⟩ := hoperand operand _ hkind hproper hsplit (by
        intro byte hbyte
        cases hbyte
        exact isMark_joint joint)
      have hmore : Continues (some joint) (some joint) (second :: others) := by
        cases others with
        | nil => exact .inl ⟨rfl, rfl⟩
        | cons => exact .inr ⟨joint, rfl, .inr rfl, by simp⟩
      obtain ⟨hlt', hread'⟩ := hchain _ (Nat.lt_trans (Nat.lt_succ_self _) hlt) (some joint)
        (some joint) (second :: others) rest hmore hothers rfl hrest
      have hsame : before.any (· ≠ joint) = false := by
        rcases hbefore with rfl | rfl <;> simp
      refine ⟨?_, ?_⟩
      · exact Nat.lt_trans (Nat.lt_succ_of_lt hlt') hlt
      · rw [readChain]
        simp only [hread, ofByte?_byte, hsame, Bool.false_eq_true, if_false]
        rw [hread']

variable (length) in
theorem chainComplete (bytes : Bytes) : ChainComplete length bytes := by
  induction hn : bytes.length using Nat.strongRecOn generalizing bytes with
  | ind n ih =>
    have hchain : ∀ others, others.length < bytes.length → ChainComplete length others :=
      fun others hlt => ih others.length (hn ▸ hlt) others rfl
    exact chainComplete_of_operand (operandComplete_of_chain hchain) hchain

end Reading

/-- A label is read into the proper expression that it is written form of, if there is one. -/
theorem parse_eq_ok {label : Bytes} {e : Expr} :
    parse label = .ok e ↔ e.Proper ∧ e.toBytes = label := by
  constructor
  · intro h
    rw [parse] at h
    split at h
    · cases h
    · next joint operands hlt hread =>
      cases h
      obtain ⟨hcontinues, hoperands, hbytes⟩ := chainSound label.length label none joint operands _ hread
      exact ⟨Expr.proper_ofChain hcontinues hoperands, by simpa using hbytes.symm⟩
    · cases h
  · rintro ⟨hproper, rfl⟩
    obtain ⟨after, operands, rfl, hcontinues, hoperands⟩ := hproper.exists_chain
    obtain ⟨hlt, hread⟩ := chainComplete (Expr.ofChain after operands).toBytes.length _ none after
      operands [] hcontinues hoperands (List.append_nil _).symm (by simp)
    rw [parse, hread]

end DatedCounts.Label
