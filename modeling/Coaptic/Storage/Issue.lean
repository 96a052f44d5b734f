import Coaptic.Storage.Refusal

/-!
# Issuing blocks

What a sender puts on the wire: each block it issues is the block of its number in the body,
and issuing, pacing and acknowledging never change which body that is.
-/
namespace Coaptic.Block

open BlockTransfer BlockValue

variable {κ : Type}

/-! ### Blocks of a body -/

/-- `issued` is the block of its number in a body of `bodyLen` bytes at size exponent `szx`. -/
structure IsBlockOf (bodyLen szx : Nat) (issued : Issued) : Prop where
  szx_eq : issued.1.szx = szx
  notBert : issued.1.isBert = false
  offset_eq : issued.2.1 = issued.1.num * issued.1.size
  offset_le : issued.2.1 ≤ bodyLen
  offset_lt : 0 < bodyLen → issued.2.1 < bodyLen
  len_eq : issued.2.2 = min (bodyLen - issued.2.1) issued.1.size
  more_iff : issued.1.more = true ↔ issued.1.size < bodyLen - issued.2.1

theorem size_eq_of_szx {a b : BlockValue} (h : a.szx = b.szx) : a.size = b.size := by
  unfold BlockValue.size BlockValue.isBert
  rw [h]

variable {a b issued : Issued} {bodyLen capacity num size szx : Nat} {block : BlockValue}
  {t t' : BlockTransfer κ} {key : κ} {role : BlockRole}

theorem BlockValue.new_ok {more : Bool} (h : new num more szx = .ok block) :
    block.num = num ∧ block.more = more ∧ block.szx = szx := by
  revert h
  fun_cases new num more szx with
  | case1 =>
    rintro ⟨⟩
    exact ⟨rfl, rfl, rfl⟩
  | _ => exact nofun

theorem blockOffset_ok {offset : Nat} (h : blockOffset num size = .ok offset) :
    offset = num * size := by
  unfold blockOffset at h
  split at h
  · cases h
    rfl
  · cases h

theorem sizeFromSzx_of_ok (h : sizeFromSzx szx = .ok size) (same : block.szx = szx) :
    block.size = size := by
  subst same
  unfold sizeFromSzx at h
  unfold BlockValue.size BlockValue.isBert
  split at h
  next bert =>
    cases h
    rw [if_pos (by simp [bert])]
  next notBert =>
  split at h
  · cases h
  · cases h
    rw [if_neg (by simpa using notBert)]

theorem outgoingRange_ok (notBert : t.szx ≠ szxBert) (h : t.outgoingRange num = .ok issued) :
    IsBlockOf t.filled t.szx issued ∧ issued.1.num = num := by
  revert h
  fun_cases outgoingRange t num with
  | case5 size sized offset offsetEq inside left block made =>
    rintro ⟨⟩
    obtain ⟨numEq, moreEq, szxEq⟩ := new_ok made
    have sizeEq := sizeFromSzx_of_ok sized szxEq
    have offsetEq := blockOffset_ok offsetEq
    refine ⟨⟨szxEq, ?_, ?_, ?_, ?_, ?_, ?_⟩, numEq⟩
    · rw [BlockValue.isBert, szxEq]
      simpa using notBert
    · rw [numEq, sizeEq, offsetEq]
    · simp only
      omega
    · simp only
      omega
    · rw [sizeEq]
    · rw [moreEq, sizeEq, decide_eq_true_eq]
  | _ => rintro ⟨⟩

/-- The final blocks of a body all have the same number. -/
theorem IsBlockOf.num_le_of_last (ha : IsBlockOf bodyLen szx a) (hb : IsBlockOf bodyLen szx b)
    (last : b.1.more = false) : a.1.num ≤ b.1.num := by
  have same : a.1.size = b.1.size := size_eq_of_szx (ha.szx_eq.trans hb.szx_eq.symm)
  have sizePos := b.1.size_bounds.1
  have room : bodyLen - b.2.1 ≤ b.1.size := by
    by_contra h
    rw [hb.more_iff.mpr (by omega)] at last
    cases last
  by_contra beyond
  have step : (b.1.num + 1) * b.1.size ≤ a.1.num * b.1.size := Nat.mul_le_mul_right _ (by omega)
  have aOffset := ha.offset_eq
  have bOffset := hb.offset_eq
  rw [same] at aOffset
  rw [Nat.add_mul, Nat.one_mul] at step
  have := ha.offset_le
  have := ha.offset_lt
  omega

section

variable (h : IsBlockOf bodyLen szx a)
include h

theorem IsBlockOf.len_of_more (more : a.1.more = true) : a.2.2 = a.1.size := by
  have := h.more_iff.mp more
  rw [h.len_eq]
  omega

theorem IsBlockOf.end_of_last (last : a.1.more = false) : a.2.1 + a.2.2 = bodyLen := by
  have := h.offset_le
  have room : ¬ a.1.size < bodyLen - a.2.1 := by
    intro large
    rw [h.more_iff.mpr large] at last
    cases last
  rw [h.len_eq]
  omega

theorem IsBlockOf.end_le : a.2.1 + a.2.2 ≤ bodyLen ∧ a.2.2 ≤ a.1.size := by
  have := h.offset_le
  rw [h.len_eq]
  omega

theorem IsBlockOf.szx_le : szx ≤ 6 := by
  have atMost := a.1.szx_le
  have notBert := h.notBert
  rw [← Bool.not_eq_true, isBert_iff, h.szx_eq] at notBert
  rw [h.szx_eq, szxBert] at atMost
  omega

theorem IsBlockOf.size_eq : a.1.size = 16 <<< szx := by
  rw [size, h.notBert, h.szx_eq]
  rfl

/-- Byte `i` of the body travels in the block whose number is `i / size`. -/
theorem IsBlockOf.mem_range_iff (i : Nat) :
    (a.2.1 ≤ i ∧ i < a.2.1 + a.2.2) ↔ i < bodyLen ∧ i / a.1.size = a.1.num := by
  have sizePos := a.1.size_bounds.1
  rw [h.len_eq, h.offset_eq, Nat.div_eq_iff (by omega)]
  omega

end

/-- Two blocks of one body with the same number are the same range of it. -/
theorem IsBlockOf.range_eq (ha : IsBlockOf bodyLen szx a) (hb : IsBlockOf bodyLen szx b)
    (num : a.1.num = b.1.num) : a.2 = b.2 := by
  have offset : a.2.1 = b.2.1 := by
    rw [ha.offset_eq, hb.offset_eq, ha.size_eq, hb.size_eq, num]
  refine Prod.ext offset ?_
  rw [ha.len_eq, hb.len_eq, offset, ha.size_eq, hb.size_eq]

theorem IsBlockOf.eq_of_num (ha : IsBlockOf bodyLen szx a) (hb : IsBlockOf bodyLen szx b)
    (num : a.1.num = b.1.num) : a = b := by
  have range := ha.range_eq hb num
  have more : a.1.more = b.1.more := by
    rw [Bool.eq_iff_iff, ha.more_iff, hb.more_iff, range, ha.size_eq, hb.size_eq]
  refine Prod.ext ?_ range
  have szx := ha.szx_eq.trans hb.szx_eq.symm
  obtain ⟨⟨na, ma, sa, _, _⟩, _⟩ := a
  obtain ⟨⟨nb, mb, sb, _, _⟩, _⟩ := b
  simp only at num more szx
  simp only [num, more, szx]

/-! ### The sender -/

/-- `t'` sends the same body at the same size as `t`. -/
def SameBody (t t' : BlockTransfer κ) : Prop :=
  t'.szx = t.szx ∧ t'.filled = t.filled ∧ t'.role = t.role

theorem SameBody.refl (t : BlockTransfer κ) : SameBody t t := ⟨rfl, rfl, rfl⟩

/-- Everything a successful issue does. -/
theorem issueRange_ok (h : t.issueRange num = (.ok issued, t')) :
    t.outgoingRange num = .ok issued ∧ t.windowAdmits num = .ok () ∧ num + 1 < 2 ^ 32 ∧
      t' = { t with
        q := t.markIssued num, num, more := issued.1.more, nextNum := num + 1
        complete := !issued.1.more || (t.qObserveRecovery &&
          (t.markIssued num).any fun q => decide (q.mask = windowFull)) } := by
  revert h
  fun_cases issueRange t num with
  | case4 admitted block offset len range q small =>
    rintro ⟨⟩
    exact ⟨range, admitted, Nat.not_le.mp small, rfl⟩
  | _ => exact nofun

theorem sameBody_issueRange (t : BlockTransfer κ) (num : Nat) :
    SameBody t (t.issueRange num).2 := by
  fun_cases issueRange t num
  all_goals exact ⟨rfl, rfl, rfl⟩

theorem sameBody_issueQOutgoing (t : BlockTransfer κ) : SameBody t t.issueQOutgoing.2 := by
  fun_cases issueQOutgoing t with
  | case6 => exact sameBody_issueRange t _
  | _ => exact .refl t

theorem issueQOutgoing_ok (h : t.issueQOutgoing = (.ok issued, t')) :
    ∃ num, t.outgoingRange num = .ok issued := by
  revert h
  fun_cases issueQOutgoing t with
  | case6 => exact fun h => ⟨_, (issueRange_ok h).1⟩
  | _ => exact nofun

theorem reissueQOutgoing_ok (h : t.reissueQOutgoing num = .ok issued) :
    t.outgoingRange num = .ok issued := by
  unfold reissueQOutgoing at h
  split at h
  · cases h
  · exact h

theorem sameBody_paceQBlock1 (t : BlockTransfer κ) : SameBody t t.paceQBlock1.2 := by
  fun_cases paceQBlock1 t
  all_goals exact ⟨rfl, rfl, rfl⟩

theorem sameBody_ackQWindow (t : BlockTransfer κ) (num : Nat) :
    SameBody t (t.ackQWindow num).2 := by
  fun_cases ackQWindow t num
  all_goals exact ⟨rfl, rfl, rfl⟩

theorem outgoingCommon_ok {q : Option QWindow}
    (h : outgoingCommon key role bodyLen szx capacity q = .ok t) :
    t = { key, role, num := 0, szx, more := false, nextNum := 0, filled := bodyLen
          complete := false, expectedLen := some bodyLen, q, qReceive := .none } ∧
      szx ≤ 7 ∧ bodyLen ≤ capacity ∧ bodyLen < 2 ^ 32 := by
  revert h
  fun_cases outgoingCommon key role bodyLen szx capacity q with
  | case3 size sized fits small =>
    rintro ⟨⟩
    refine ⟨rfl, ?_, Nat.not_lt.mp fits, small⟩
    unfold sizeFromSzx at sized
    split at sized
    next bert => exact bert.le
    next =>
    split at sized
    · cases sized
    · omega
  | _ => exact nofun

theorem outgoingQ_ok (h : outgoingQ key role bodyLen szx capacity = .ok t) :
    t.szx = szx ∧ t.filled = bodyLen ∧ t.role = role ∧ szx ≠ szxBert ∧
      role.isOutgoing = true ∧ role.isQBlock = true := by
  revert h
  fun_cases outgoingQ key role bodyLen szx capacity with
  | case3 direction notBert =>
    intro h
    obtain ⟨rfl, -⟩ := outgoingCommon_ok h
    simp only [Bool.or_eq_true, Bool.not_eq_true', not_or, Bool.not_eq_false] at direction
    exact ⟨rfl, rfl, rfl, notBert, direction⟩
  | _ => exact nofun

theorem outgoing_ok (h : outgoing key role bodyLen szx capacity = .ok t) :
    t = { key, role, num := 0, szx, more := false, nextNum := 0, filled := bodyLen
          complete := false, expectedLen := some bodyLen, q := none, qReceive := .none } ∧
      role.isOutgoing = true ∧ role.isQBlock = false ∧ bodyLen < 2 ^ 32 := by
  unfold outgoing at h
  split at h
  · cases h
  next direction =>
  obtain ⟨started, -, -, small⟩ := outgoingCommon_ok h
  simp only [Bool.or_eq_true, Bool.not_eq_true', not_or, Bool.not_eq_false,
    Bool.not_eq_true] at direction
  exact ⟨started, direction.1, direction.2, small⟩

end Coaptic.Block
