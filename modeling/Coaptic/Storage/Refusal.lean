import Coaptic.Lib.Run
import Coaptic.Storage.Pool

/-!
# What a refused block leaves behind

An incoming block is checked in several places, some of them after the transfer was changed.
This module says exactly which refusals leave a trace.
-/
namespace Coaptic.Block

open Bitmap BlockValue Option QWindow

variable {κ : Type}

/-! ### Bounds on block values -/

section

variable (block : BlockValue)

theorem BlockValue.isBert_iff : block.isBert = true ↔ block.szx = 7 := by
  simp [isBert, szxBert]

theorem BlockValue.size_bounds : 16 ≤ block.size ∧ block.size ≤ 1024 := by
  unfold size
  split
  · decide
  next notBert =>
  have szxLe : block.szx ≤ 6 := by
    have := block.szx_le
    simp only [szxBert] at this
    have : block.szx ≠ 7 := fun h => notBert ((isBert_iff block).mpr h)
    omega
  rw [Nat.shiftLeft_eq]
  have := Nat.pow_le_pow_right (n := 2) (by decide) szxLe
  have := Nat.one_le_two_pow (n := block.szx)
  omega

theorem blockOffset_of_bounds {num size : Nat} (numLt : num < 2 ^ 32) (sizeLe : size ≤ 1024) :
    blockOffset num size = .ok (num * size) := by
  rw [blockOffset, if_pos]
  calc num * size ≤ 2 ^ 32 * 1024 := Nat.mul_le_mul numLt.le sizeLe
    _ < 2 ^ 64 := by decide

theorem BlockValue.num_lt : block.num + 1 < 2 ^ 32 := by
  have := block.num_le
  simp only [numMax] at this
  omega

theorem blockOffset_block : blockOffset block.num block.size = .ok (block.num * block.size) :=
  blockOffset_of_bounds (by have := block.num_lt; omega) block.size_bounds.2

end

namespace BlockTransfer

/-! ### Classic blocks -/

section

variable (t : BlockTransfer κ) (block : BlockValue) (payloadLen capacity : Nat)

theorem acceptNextIncoming_eq : t.acceptNextIncoming block payloadLen capacity =
      if block.refusesLength payloadLen then (.error .payloadLength, t)
      else if capacity < block.num * block.size + payloadLen then (.error .overflow, t)
      else (.ok (block.num * block.size),
        { t with
          num := block.num, more := block.more, filled := block.num * block.size + payloadLen
          nextNum := block.num + 1, complete := !block.more }) := by
  have small := block.num_lt
  simp only [acceptNextIncoming, blockOffset_block]
  rw [if_neg (by omega : ¬ 2 ^ 32 ≤ block.num + 1)]

/-- A smaller block size is adopted at the first missing byte, and the block itself is then
refused for its payload length or for lack of room. -/
structure ShrinkRefused (t : BlockTransfer κ) (block : BlockValue) (payloadLen capacity : Nat) :
    Prop where
  incoming : t.role.isIncoming = true
  classic : t.role.isQBlock = false
  incomplete : t.complete = false
  notBert : t.isBert = false
  blockNotBert : block.isBert = false
  smaller : block.szx < t.szx
  next : block.num * block.size = t.filled
  refused : block.refusesLength payloadLen = true ∨ capacity < t.filled + payloadLen

/-- A BERT payload of four tebibytes or so, whose block count takes the next NUM past `u32`. -/
structure BertOverrun (t : BlockTransfer κ) (block : BlockValue) (payloadLen capacity : Nat) :
    Prop where
  incoming : t.role.isIncoming = true
  classic : t.role.isQBlock = false
  incomplete : t.complete = false
  bert : t.szx = 7 ∧ block.szx = 7
  next : block.num = t.nextNum
  multiple : block.more → payloadLen ≠ 0 ∧ payloadLen % 1024 = 0
  room : block.num * 1024 + payloadLen ≤ capacity
  count : payloadLen / 1024 < 2 ^ 32
  overrun : 2 ^ 32 ≤ block.num + payloadLen / 1024

theorem adoptIncomingSzx_cases : (block.szx = t.szx ∧ t.adoptIncomingSzx block = (.ok (), t)) ∨
    (∃ e, t.adoptIncomingSzx block = (.error e, t)) ∨
    (t.isBert = false ∧ block.isBert = false ∧ block.szx < t.szx ∧
      block.num * block.size = t.filled ∧
      t.adoptIncomingSzx block = (.ok (), { t with szx := block.szx, nextNum := block.num })) := by
  fun_cases adoptIncomingSzx t block with
  | case1 same => exact .inl ⟨same, rfl⟩
  | case5 other mixed offset placed here =>
    rw [blockOffset_block] at placed
    cases placed
    simp only [Bool.or_eq_true, decide_eq_true_eq, not_or, Bool.not_eq_true] at mixed
    exact .inr (.inr ⟨mixed.1.1, mixed.1.2, by omega, not_not.mp here, rfl⟩)
  | _ => exact .inr (.inl ⟨_, rfl⟩)

theorem acceptBertIncoming_eq (bert : block.isBert = true) :
    t.acceptBertIncoming block payloadLen capacity =
      if block.more ∧ (payloadLen = 0 ∨ payloadLen % 1024 ≠ 0) then (.error .payloadLength, t)
      else if capacity < block.num * 1024 + payloadLen then (.error .overflow, t)
      else if 2 ^ 32 ≤ payloadLen / 1024 then (.error .overflow, t)
      else if 2 ^ 32 ≤ block.num + payloadLen / 1024 then
        (.error .overflow, { t with
          num := block.num, more := block.more, filled := block.num * 1024 + payloadLen })
      else (.ok (block.num * 1024), { t with
          num := block.num, more := block.more, filled := block.num * 1024 + payloadLen
          nextNum := block.num + payloadLen / 1024, complete := !block.more }) := by
  have offset : blockOffset block.num 1024 = .ok (block.num * 1024) :=
    blockOffset_of_bounds (by have := block.num_lt; omega) (Nat.le_refl _)
  simp only [acceptBertIncoming, bert, offset]
  rfl

/-- Everything one classic block can do to a transfer. -/
theorem acceptIncoming_cases : (∃ e, t.acceptIncoming block payloadLen capacity = (.error e, t)) ∨
    (ShrinkRefused t block payloadLen capacity ∧ ∃ e,
      t.acceptIncoming block payloadLen capacity =
        (.error e, { t with szx := block.szx, nextNum := block.num })) ∨
    (BertOverrun t block payloadLen capacity ∧
      t.acceptIncoming block payloadLen capacity = (.error .overflow, { t with
        num := block.num, more := block.more, filled := block.num * 1024 + payloadLen })) ∨
    ∃ offset next, offset + payloadLen ≤ capacity ∧
      t.acceptIncoming block payloadLen capacity = (.ok offset, { t with
        szx := block.szx, num := block.num, more := block.more, filled := offset + payloadLen
        nextNum := next, complete := !block.more }) := by
  unfold acceptIncoming
  split
  · exact .inl ⟨_, rfl⟩
  next role =>
  simp only [Bool.or_eq_true, Bool.not_eq_true', not_or, Bool.not_eq_false,
    Bool.not_eq_true] at role
  split
  · exact .inl ⟨_, rfl⟩
  next complete =>
  rw [Bool.not_eq_true] at complete
  rcases adoptIncomingSzx_cases t block with
    ⟨same, adopted⟩ | ⟨e, refused⟩ | ⟨notBert, blockNotBert, smaller, next, adopted⟩
  · -- the block has the transfer's own size
    rw [adopted]
    simp only
    split
    · exact .inl ⟨_, rfl⟩
    next overlap =>
    split
    · exact .inl ⟨_, rfl⟩
    next gap =>
    split
    next bert =>
      rw [acceptBertIncoming_eq t block payloadLen capacity bert]
      split
      · exact .inl ⟨_, rfl⟩
      next length =>
      split
      · exact .inl ⟨_, rfl⟩
      next full =>
      split
      · exact .inl ⟨_, rfl⟩
      next many =>
      split
      next past =>
        -- the transfer was written before the sum was checked
        have szx := (isBert_iff block).mp bert
        refine .inr (.inr (.inl ⟨⟨role.1, role.2, complete, ⟨same ▸ szx, szx⟩, by omega, ?_,
          Nat.not_lt.mp full, Nat.not_le.mp many, past⟩, rfl⟩))
        intro more
        by_contra wrong
        exact length ⟨more, by tauto⟩
      · exact .inr (.inr (.inr ⟨_, _, Nat.not_lt.mp full, by rw [same]⟩))
    · rw [acceptNextIncoming_eq]
      split
      · exact .inl ⟨_, rfl⟩
      split
      · exact .inl ⟨_, rfl⟩
      next full => exact .inr (.inr (.inr ⟨_, _, Nat.not_lt.mp full, by rw [same]⟩))
  · exact .inl ⟨e, by rw [refused]⟩
  · -- a smaller size was adopted: only length and room can still refuse the block
    rw [adopted]
    simp only [Nat.lt_irrefl, if_false, blockNotBert, Bool.false_eq_true, acceptNextIncoming_eq]
    have shrinks (refused : block.refusesLength payloadLen = true ∨ capacity < t.filled + payloadLen) :
        ShrinkRefused t block payloadLen capacity :=
      ⟨role.1, role.2, complete, notBert, blockNotBert, smaller, next, refused⟩
    split
    next length => exact .inr (.inl ⟨shrinks (.inl length), _, rfl⟩)
    next =>
    split
    next full => exact .inr (.inl ⟨shrinks (.inr (next ▸ full)), _, rfl⟩)
    next full => exact .inr (.inr (.inr ⟨_, _, Nat.not_lt.mp full, rfl⟩))

end

variable {t : BlockTransfer κ} {block : BlockValue} {capacity payloadLen : Nat}

theorem acceptIncoming_of_shrinkRefused (h : ShrinkRefused t block payloadLen capacity) :
    ∃ e, t.acceptIncoming block payloadLen capacity =
      (.error e, { t with szx := block.szx, nextNum := block.num }) := by
  have adopted : t.adoptIncomingSzx block =
      (.ok (), { t with szx := block.szx, nextNum := block.num }) := by
    have smaller := h.smaller
    simp only [adoptIncomingSzx, h.notBert, h.blockNotBert, blockOffset_block, h.next,
      if_neg (Nat.ne_of_lt smaller), decide_eq_false (Nat.lt_asymm smaller), Bool.or_self,
      Bool.false_eq_true, if_false, ne_eq, not_true_eq_false]
  unfold acceptIncoming
  simp only [h.incoming, h.classic, h.incomplete, adopted, h.blockNotBert, acceptNextIncoming_eq,
    Bool.not_true, Bool.or_self, Bool.false_eq_true, if_false, Nat.lt_irrefl, h.next]
  by_cases length : block.refusesLength payloadLen = true
  · exact ⟨_, by rw [if_pos length]⟩
  · have full := h.refused.resolve_left length
    exact ⟨_, by rw [if_neg length, if_pos full]⟩

theorem acceptIncoming_of_bertOverrun (h : BertOverrun t block payloadLen capacity) :
    t.acceptIncoming block payloadLen capacity = (.error .overflow, { t with
      num := block.num, more := block.more, filled := block.num * 1024 + payloadLen }) := by
  have bert := (isBert_iff block).mpr h.bert.2
  have adopted : t.adoptIncomingSzx block = (.ok (), t) := by
    rw [adoptIncomingSzx, if_pos (h.bert.2.trans h.bert.1.symm)]
  have multiple : ¬ (block.more = true ∧ (payloadLen = 0 ∨ payloadLen % 1024 ≠ 0)) := by
    rintro ⟨more, wrong⟩
    have := h.multiple more
    omega
  unfold acceptIncoming
  simp only [h.incoming, h.classic, h.incomplete, adopted, bert, ← h.next, Nat.lt_irrefl,
    Bool.not_true, Bool.or_self, Bool.false_eq_true, if_false, if_true,
    acceptBertIncoming_eq t block payloadLen capacity bert]
  rw [if_neg multiple, if_neg (Nat.not_lt.mpr h.room), if_neg (Nat.not_le.mpr h.count),
    if_pos h.overrun]

/-- The refusals that change the transfer: a smaller size adopted before the refusal, and a BERT
overrun that was not recorded before. -/
def LateRefusal (t : BlockTransfer κ) (block : BlockValue) (payloadLen capacity : Nat) : Prop :=
  ShrinkRefused t block payloadLen capacity ∨
    (BertOverrun t block payloadLen capacity ∧
      ¬ (t.num = block.num ∧ t.more = block.more ∧ t.filled = block.num * 1024 + payloadLen))

theorem acceptIncoming_unchanged_iff (t : BlockTransfer κ) (block : BlockValue)
    (payloadLen capacity : Nat) : (∀ e, (t.acceptIncoming block payloadLen capacity).1 = .error e →
      (t.acceptIncoming block payloadLen capacity).2 = t) ↔
      ¬ LateRefusal t block payloadLen capacity := by
  constructor
  · rintro unchanged (shrink | ⟨overrun, new⟩)
    · obtain ⟨e, refused⟩ := acceptIncoming_of_shrinkRefused shrink
      rw [refused] at unchanged
      have szx := congrArg BlockTransfer.szx (unchanged e rfl)
      exact absurd szx (Nat.ne_of_lt shrink.smaller)
    rw [acceptIncoming_of_bertOverrun overrun] at unchanged
    have same := unchanged _ rfl
    exact new ⟨(congrArg BlockTransfer.num same).symm, (congrArg BlockTransfer.more same).symm,
      (congrArg BlockTransfer.filled same).symm⟩
  intro early e refused
  rcases acceptIncoming_cases t block payloadLen capacity with
    ⟨e', same⟩ | ⟨shrink, -⟩ | ⟨overrun, changed⟩ | ⟨offset, next, -, accepted⟩
  · rw [same]
  · exact absurd (.inl shrink) early
  · rw [changed]
    by_contra new
    refine early (.inr ⟨overrun, ?_⟩)
    rintro ⟨num, more, filled⟩
    exact new (by rw [← filled, ← num, ← more])
  · rw [accepted] at refused
    cases refused

end BlockTransfer

open BlockTransfer

/-! ### Q-Blocks -/

section

variable (q : QWindow) (block : BlockValue) (payloadLen : Nat)

/-- The window after its block arrived, as long as its numbers fit `u32`. -/
def QWindow.received : QWindow :=
  let mask := q.mask ||| bit 16 (block.num - q.base)
  if block.more then
    if mask = windowFull ∧ q.finalNum = none then
      { q with base := q.base + maxPayloads, mask := 0#16, continueTrigger := some block.num
               continueAck := some (q.base + (maxPayloads - 1)) }
    else { q with mask }
  else { q with mask, finalNum := some block.num, finalPayloadLen := payloadLen }

theorem QWindow.receive_eq (bound : q.base + maxPayloads < 2 ^ 32) :
    q.receive block payloadLen = (.ok (), q.received block payloadLen) := by
  have small : ¬ 2 ^ 32 ≤ q.base + maxPayloads := by omega
  have small' : ¬ 2 ^ 32 ≤ q.base + (maxPayloads - 1) := by omega
  unfold receive received
  cases block.more with
  | false => simp
  | true =>
    simp only [if_true]
    split <;> rfl

/-- A window that a block was received into stays within the numbers of blocks. -/
theorem QWindow.received_bounds (above : q.base ≤ block.num)
    (final : ∀ f, q.finalNum = some f → f ≤ numMax) :
    (q.received block payloadLen).base ≤ numMax + maxPayloads ∧
      ∀ f, (q.received block payloadLen).finalNum = some f → f ≤ numMax := by
  have numLe := block.num_le
  unfold received
  cases block.more with
  | true =>
    simp only [if_true]
    split
    · exact ⟨by simp only; omega, final⟩
    · exact ⟨by simp only; omega, final⟩
  | false =>
  simp only [Bool.false_eq_true, if_false]
  refine ⟨by omega, ?_⟩
  rintro f ⟨⟩
  exact numLe

end

def QWindow.contig (q : QWindow) : Nat := q.base + trailingOnes q.mask

def QWindow.isComplete (q : QWindow) : Bool := q.finalNum.any (· < q.contig)

def QWindow.filledLen (q : QWindow) (size : Nat) : Nat :=
  if q.isComplete then q.finalNum.getD 0 * size + q.finalPayloadLen else q.contig * size

namespace BlockTransfer

section

variable (t : BlockTransfer κ)

def noted (q : QWindow) (size : Nat) : BlockTransfer κ :=
  { t with
    filled := q.filledLen size
    complete := q.isComplete
    nextNum := if q.isComplete then q.finalNum.getD 0 + 1 else q.contig }

theorem noteContiguous_eq (q : QWindow) (size : Nat) (sizeLe : size ≤ 1024)
    (base : q.base + 16 < 2 ^ 32) (final : ∀ f, q.finalNum = some f → f + 1 < 2 ^ 32) :
    t.noteContiguous q size = (.ok (), t.noted q size) := by
  have contigLt : q.base + trailingOnes q.mask < 2 ^ 32 := by
    have := trailingOnes_le q.mask
    omega
  unfold noteContiguous noted filledLen isComplete contig
  simp only [if_neg (Nat.not_le.mpr contigLt), blockOffset_of_bounds contigLt sizeLe]
  cases finalNum : q.finalNum with
  | none => rfl
  | some f =>
  have fLt := final f finalNum
  have offset : blockOffset f size = .ok (f * size) := blockOffset_of_bounds (by omega) sizeLe
  simp only [offset, if_neg (Nat.not_le.mpr fLt), any_some, decide_eq_true_eq,
    getD_some]
  by_cases covered : f < q.base + trailingOnes q.mask
  · simp only [if_pos covered, decide_eq_true covered]
  · simp only [if_neg covered, decide_eq_false covered]

/-- The window's numbers are far below the end of `u32`. -/
def WindowBounded : Prop :=
  ∀ q, t.q = some q → q.base ≤ numMax + maxPayloads ∧ ∀ f, q.finalNum = some f → f ≤ numMax

/-- Everything that must hold for a Q-Block to be accepted into the window `q`. -/
structure QAccepts (t : BlockTransfer κ) (q : QWindow) (block : BlockValue)
    (payloadLen capacity : Nat) : Prop where
  role : t.role.isQBlock = true
  notBert : block.isBert = false
  incomplete : t.complete = false
  szx : block.szx = t.szx
  window : t.q = some q
  above : q.base ≤ block.num
  below : block.num < q.base + maxPayloads
  missing : q.mask.getLsbD (block.num - q.base) = false
  final : ∀ f, q.finalNum = some f → block.num ≤ f
  last : block.more = false → ∀ j, block.num - q.base < j → j < 16 →
    block.num - q.base + 1 < maxPayloads → q.mask.getLsbD j = false
  length : block.refusesLength payloadLen = false
  room : block.num * block.size + payloadLen ≤ capacity
  expected : ∀ n, t.expectedLen = some n → block.num * block.size + payloadLen ≤ n ∧
    (block.more = false → block.num * block.size + payloadLen = n)

def qAccepted (q : QWindow) (block : BlockValue) (payloadLen : Nat) : BlockTransfer κ :=
  let q := q.received block payloadLen
  { ({ t with q := some q } : BlockTransfer κ).noted q block.size with
    num := block.num, more := block.more }

theorem qIncomingRange_eq_ok {block : BlockValue} {payloadLen capacity : Nat}
    {expectedLen : Option Nat} {range : Nat × Nat}
    (ok : qIncomingRange block payloadLen capacity expectedLen = .ok range) :
    range = (block.num * block.size, payloadLen) ∧ block.refusesLength payloadLen = false ∧
      block.num * block.size + payloadLen ≤ capacity ∧
      ∀ n, expectedLen = some n → block.num * block.size + payloadLen ≤ n ∧
        (block.more = false → block.num * block.size + payloadLen = n) := by
  revert ok
  fun_cases qIncomingRange block payloadLen capacity expectedLen with
  | case5 length _ _ placed room =>
    rw [blockOffset_block] at placed
    cases placed
    rintro ⟨⟩
    exact ⟨rfl, by simpa using length, Nat.not_lt.mp room, nofun⟩
  | case7 length _ _ placed room n right =>
    rw [blockOffset_block] at placed
    cases placed
    rintro ⟨⟩
    refine ⟨rfl, by simpa using length, Nat.not_lt.mp room, ?_⟩
    rintro m ⟨rfl⟩
    rw [Bool.not_eq_true] at right
    constructor
    · by_contra h
      exact right (.inl (by omega))
    intro lastBlock
    by_contra h
    exact right (.inr ⟨lastBlock, h⟩)
  | _ => exact nofun

variable {t} in
/-- What is checked before the window changes is checked in full: nothing fails after it. -/
theorem WindowBounded.receives (bounded : t.WindowBounded) {q : QWindow} {block : BlockValue}
    (window : t.q = some q) (above : q.base ≤ block.num) (payloadLen : Nat) :
    q.receive block payloadLen = (.ok (), q.received block payloadLen) ∧
      ∀ t : BlockTransfer κ, t.noteContiguous (q.received block payloadLen) block.size =
        (.ok (), t.noted (q.received block payloadLen) block.size) := by
  have limits : numMax = 1048575 ∧ maxPayloads = 10 := ⟨rfl, rfl⟩
  obtain ⟨baseLe, finalLe⟩ := bounded q window
  obtain ⟨receivedBase, receivedFinal⟩ := q.received_bounds block payloadLen above finalLe
  refine ⟨receive_eq q block payloadLen (by omega), fun t => ?_⟩
  exact noteContiguous_eq _ _ _ block.size_bounds.2 (by omega)
    (fun f final => by have := receivedFinal f final; omega)

/-- Everything one Q-Block can do to a transfer: it is accepted, or nothing changes. -/
theorem acceptQIncoming_cases (bounded : t.WindowBounded) (block : BlockValue)
    (payloadLen capacity : Nat) :
    (∃ e, t.acceptQIncoming block payloadLen capacity = (.error e, t)) ∨
    ∃ q, QAccepts t q block payloadLen capacity ∧
      t.acceptQIncoming block payloadLen capacity =
        (.ok (block.num * block.size), t.qAccepted q block payloadLen) := by
  fun_cases acceptQIncoming t block payloadLen capacity with
  | case12 _ _ _ _ q window old _ _ _ _ _ _ range _ _ failed =>
    obtain ⟨⟨⟩, -⟩ := qIncomingRange_eq_ok range
    rw [(bounded.receives window (Nat.not_lt.mp old) _).1] at failed
    cases failed
  | case13 _ _ _ _ q window old _ _ _ _ _ _ range _ updated _ _ failed =>
    obtain ⟨⟨⟩, -⟩ := qIncomingRange_eq_ok range
    obtain ⟨received, contiguous⟩ := bounded.receives window (Nat.not_lt.mp old) payloadLen
    cases received.symm.trans updated
    rw [contiguous] at failed
    cases failed
  | case14 role bert complete szx q window old outside duplicate pastFinal notLast _ _ range _ updated
      _ noted =>
    obtain ⟨⟨⟩, length, room, expected⟩ := qIncomingRange_eq_ok range
    obtain ⟨received, contiguous⟩ := bounded.receives window (Nat.not_lt.mp old) payloadLen
    cases received.symm.trans updated
    cases (contiguous _).symm.trans noted
    have ten : maxPayloads = 10 := rfl
    have idx : block.num - q.base < 16 := by omega
    refine .inr ⟨q, ?_, rfl⟩
    refine ⟨by simpa using role, by simpa using bert, by simpa using complete, not_not.mp szx,
      window, Nat.not_lt.mp old, by omega, ?_, ?_, ?_, length, room, expected⟩
    · rw [← Bool.not_eq_true, ← and_bit_ne_zero _ idx]
      exact duplicate
    · intro f final
      rw [final] at pastFinal
      simpa using pastFinal
    intro isLast j after inside room
    by_contra set
    refine notLast ⟨by rw [isLast]; rfl, room, ?_⟩
    rw [shiftRight_ne_zero]
    exact ⟨j, by omega, by simpa using set⟩
  | _ => exact .inl ⟨_, rfl⟩

end

variable {block : BlockValue} {capacity payloadLen : Nat} {t : BlockTransfer κ}

theorem refusesLength_le (h : block.refusesLength payloadLen = false) :
    payloadLen ≤ block.size := by
  unfold refusesLength at h
  split at h
  · simp only [bne_eq_false_iff_eq] at h
    exact h.le
  · simpa using h

theorem acceptQIncoming_of_accepts {q : QWindow} (h : QAccepts t q block payloadLen capacity)
    (bounded : t.WindowBounded) :
    ∃ offset, (t.acceptQIncoming block payloadLen capacity).1 = .ok offset := by
  have ten : maxPayloads = 10 := rfl
  have above := h.above
  have below := h.below
  have missing : ¬ q.mask &&& bit 16 (block.num - q.base) ≠ 0#16 := by
    rw [and_bit_ne_zero _ (by omega), h.missing]
    exact Bool.false_ne_true
  have beforeFinal : ¬ q.finalNum.any (· < block.num) = true := by
    rw [any_eq_true]
    rintro ⟨f, final, before⟩
    have := h.final f final
    rw [decide_eq_true_eq] at before
    omega
  have nothingAfter : ¬ ((!block.more) = true ∧ block.num - q.base + 1 < maxPayloads ∧
      q.mask >>> (block.num - q.base + 1) ≠ 0#16) := by
    rintro ⟨last, room, later⟩
    obtain ⟨j, after, set⟩ := (shiftRight_ne_zero _ _).mp later
    have inside : j < 16 := BitVec.lt_of_getLsbD set
    rw [h.last (by simpa using last) j (by omega) inside room] at set
    cases set
  have small : ¬ 2 ^ 16 ≤ payloadLen := by
    have := refusesLength_le h.length
    have := block.size_bounds.2
    omega
  have range : qIncomingRange block payloadLen capacity t.expectedLen =
      .ok (block.num * block.size, payloadLen) := by
    have room := h.room
    simp only [qIncomingRange, h.length, Bool.false_eq_true, if_false, small, blockOffset_block,
      if_neg (Nat.not_lt.mpr room)]
    cases expected : t.expectedLen with
    | none => rfl
    | some n =>
    obtain ⟨inside, exactly⟩ := h.expected n expected
    simp only
    rw [if_neg]
    rintro (past | ⟨last, wrong⟩)
    · omega
    · exact wrong (exactly (by simpa using last))
  obtain ⟨received, contiguous⟩ := bounded.receives h.window above payloadLen
  unfold acceptQIncoming
  simp only [h.role, h.notBert, h.incomplete, h.szx, h.window, Bool.not_true, Bool.false_eq_true,
    if_false, ne_eq, not_true_eq_false, if_neg (Nat.not_lt.mpr above)]
  rw [if_neg (by omega), if_neg missing, if_neg beforeFinal, if_neg nothingAfter, range]
  simp only [received, contiguous]
  exact ⟨_, rfl⟩

/-! ### Reachable transfers -/

/-- A call on an incoming transfer, whatever its outcome. `timer` stands for the receive timer
of a Q-Block body, which the engine arms and clears. -/
inductive Call
  | classic (block : BlockValue) (payloadLen capacity : Nat)
  | qBlock (block : BlockValue) (payloadLen capacity : Nat)
  | timer (retention : BodyRetention)

def call (t : BlockTransfer κ) : Call → BlockTransfer κ
  | .classic block payloadLen capacity => (t.acceptIncoming block payloadLen capacity).2
  | .qBlock block payloadLen capacity => (t.acceptQIncoming block payloadLen capacity).2
  | .timer retention => { t with qReceive := retention }

/-- Transfers that a first block started and any later calls led to. -/
def Reachable (t : BlockTransfer κ) : Prop :=
  ∃ key role block payloadLen capacity expectedLen start calls,
    startIncoming key role block payloadLen capacity expectedLen = .ok start ∧
      t = Run.run call start calls

theorem windowBounded_acceptIncoming (bounded : t.WindowBounded) (block : BlockValue)
    (payloadLen capacity : Nat) : (t.acceptIncoming block payloadLen capacity).2.WindowBounded := by
  rcases acceptIncoming_cases t block payloadLen capacity with
    ⟨e, same⟩ | ⟨-, e, shrunk⟩ | ⟨-, overrun⟩ | ⟨offset, next, -, accepted⟩
  · rw [same]
    exact bounded
  · rw [shrunk]
    exact bounded
  · rw [overrun]
    exact bounded
  · rw [accepted]
    exact bounded

theorem windowBounded_acceptQIncoming (bounded : t.WindowBounded) (block : BlockValue)
    (payloadLen capacity : Nat) :
    (t.acceptQIncoming block payloadLen capacity).2.WindowBounded := by
  rcases acceptQIncoming_cases t bounded block payloadLen capacity with
    ⟨e, same⟩ | ⟨q, accepts, accepted⟩
  · rw [same]
    exact bounded
  rw [accepted]
  rintro q' window
  simp only [qAccepted, noted, some.injEq] at window
  subst window
  exact q.received_bounds block payloadLen accepts.above (bounded q accepts.window).2

theorem windowBounded_startIncoming {key : κ} {role : BlockRole} {expectedLen : Option Nat}
    (started : startIncoming key role block payloadLen capacity expectedLen = .ok t) :
    t.WindowBounded := by
  revert started
  unfold startIncoming
  split
  · fun_cases incomingQ key role block payloadLen capacity expectedLen with
    | case4 _ _ t offset t' accepted =>
      rintro ⟨⟩
      have first := windowBounded_acceptQIncoming (t := t) (by
        rintro q ⟨⟩
        exact ⟨Nat.zero_le _, fun f h => nomatch h⟩) block payloadLen capacity
      rwa [accepted] at first
    | _ => exact nofun
  fun_cases incoming key role block payloadLen capacity expectedLen with
  | case4 _ _ t offset t' accepted =>
    rintro ⟨⟩
    have first := windowBounded_acceptIncoming (t := t) (by rintro q ⟨⟩) block payloadLen capacity
    rwa [accepted] at first
  | _ => exact nofun

theorem Reachable.windowBounded (reachable : t.Reachable) : t.WindowBounded := by
  obtain ⟨key, role, block, payloadLen, capacity, expectedLen, start, calls, started, rfl⟩ :=
    reachable
  refine Run.invariant_run ?_ (windowBounded_startIncoming started) calls
  intro t c bounded
  cases c with
  | classic block payloadLen capacity => exact windowBounded_acceptIncoming bounded block payloadLen capacity
  | qBlock block payloadLen capacity => exact windowBounded_acceptQIncoming bounded block payloadLen capacity
  | timer retention => exact bounded

end BlockTransfer

/-! ### Body slots -/

namespace BodyPool

variable {capacity : Nat}

variable {id : Nat} {slot : BodySlot κ capacity} {t : BlockTransfer κ}

theorem modifySlot_self (pool : BodyPool κ capacity) (found : pool.slots[id]? = some slot) :
    (pool.modifySlot id fun _ => slot) = pool := by
  obtain ⟨slots, occ, sized⟩ := pool
  simp only [modifySlot, BodyPool.mk.injEq, and_true]
  apply List.ext_getElem?
  intro i
  rw [List.getElem?_modify]
  by_cases same : id = i
  · subst same
    simp only [if_true] at found ⊢
    rw [found]
    rfl
  · simp [same]

/-- Once the transfer accepted a range, the slot has room for it. -/
theorem acceptIncomingRole_room {t' : BlockTransfer κ} (bounded : t.WindowBounded)
    {block : BlockValue} {payloadLen offset : Nat}
    (accepted : t.acceptIncomingRole block payloadLen capacity = (.ok offset, t')) :
    offset + payloadLen ≤ capacity := by
  unfold acceptIncomingRole at accepted
  split at accepted
  · rcases acceptQIncoming_cases t bounded block payloadLen capacity with
      ⟨e, refused⟩ | ⟨q, accepts, result⟩
    · rw [refused] at accepted
      cases accepted
    rw [result] at accepted
    cases accepted
    exact accepts.room
  rcases acceptIncoming_cases t block payloadLen capacity with
    ⟨e, result⟩ | ⟨-, e, result⟩ | ⟨-, result⟩ | ⟨offset', next, room, result⟩
  · rw [result] at accepted
    cases accepted
  · rw [result] at accepted
    cases accepted
  · rw [result] at accepted
    cases accepted
  rw [result] at accepted
  cases accepted
  exact room

theorem acceptIncomingRole_unchanged_iff (bounded : t.WindowBounded) (block : BlockValue)
    (payloadLen cap : Nat) : (∀ e, (t.acceptIncomingRole block payloadLen cap).1 = .error e →
      (t.acceptIncomingRole block payloadLen cap).2 = t) ↔ ¬ t.LateRefusal block payloadLen cap := by
  unfold acceptIncomingRole
  cases qBlock : t.role.isQBlock with
  | false => exact acceptIncoming_unchanged_iff t block payloadLen cap
  | true =>
  constructor
  · rintro - (shrink | ⟨overrun, -⟩)
    · rw [shrink.classic] at qBlock
      cases qBlock
    · rw [overrun.classic] at qBlock
      cases qBlock
  intro _ e refused
  rw [if_pos rfl] at refused ⊢
  rcases acceptQIncoming_cases t bounded block payloadLen cap with
    ⟨e', same⟩ | ⟨q, -, accepted⟩
  · rw [same]
  · rw [accepted] at refused
    cases refused

/-- A refused write leaves the pool as it was, unless the transfer itself was changed. -/
theorem writeIncoming_unchanged_iff (pool : BodyPool κ capacity)
    (occupied : pool.occ.isOccupied id = true) (found : pool.slots[id]? = some slot)
    (sidecar : slot.transfer = some t) (bounded : t.WindowBounded) (block : BlockValue)
    (payload : List UInt8) : (∀ e, (pool.writeIncoming id t.role block payload).1 = .error e →
      (pool.writeIncoming id t.role block payload).2 = pool) ↔
      ¬ t.LateRefusal block payload.length capacity := by
  rw [← acceptIncomingRole_unchanged_iff bounded]
  unfold writeIncoming
  simp only [occupied, found, sidecar, Bool.not_true, Bool.false_eq_true, if_false, ne_eq,
    not_true_eq_false]
  cases result : t.acceptIncomingRole block payload.length capacity with
  | mk outcome t' =>
  cases outcome with
  | error e =>
    simp only [Except.error.injEq, forall_eq']
    constructor
    · intro same
      -- reading the slot back shows the transfer that was stored in it
      have stored := congrArg (fun p : BodyPool κ capacity => p.slots[id]?) same
      simp only [modifySlot, List.getElem?_modify, if_true, found] at stored
      have := congrArg BodySlot.transfer (some.inj stored)
      exact some.inj (this.trans sidecar)
    rintro rfl
    rw [← sidecar]
    exact modifySlot_self pool found
  | ok offset =>
  have room := acceptIncomingRole_room bounded result
  have fits : offset + payload.length ≤ slot.bytes.length := by rwa [slot.length_bytes]
  simp only [storeIncoming, fits, dite_true, reduceCtorEq, false_implies, implies_true]

end BodyPool

/-! ### Refusals -/

/-- A refused block leaves the transfer, and a refused write the whole pool, exactly as they
were, unless the refusal is a late one: a smaller block size already adopted, or a BERT block
count past `u32`. -/
theorem refused_unchanged_iff {capacity : Nat} {t : BlockTransfer κ} (reachable : t.Reachable)
    (block : BlockValue) (payload : List UInt8) :
    ((∀ e, (t.acceptIncoming block payload.length capacity).1 = .error e →
        (t.acceptIncoming block payload.length capacity).2 = t) ↔
      ¬ t.LateRefusal block payload.length capacity) ∧
    (∀ e, (t.acceptQIncoming block payload.length capacity).1 = .error e →
      (t.acceptQIncoming block payload.length capacity).2 = t) ∧
    ∀ (pool : BodyPool κ capacity) (id : Nat) (slot : BodySlot κ capacity) (role : BlockRole),
      pool.occ.isOccupied id = true → pool.slots[id]? = some slot → slot.transfer = some t →
        ((∀ e, (pool.writeIncoming id role block payload).1 = .error e →
            (pool.writeIncoming id role block payload).2 = pool) ↔
          ¬ (role = t.role ∧ t.LateRefusal block payload.length capacity)) := by
  have bounded := reachable.windowBounded
  refine ⟨BlockTransfer.acceptIncoming_unchanged_iff t block payload.length capacity, ?_, ?_⟩
  · intro e refused
    rcases BlockTransfer.acceptQIncoming_cases t bounded block payload.length capacity with
      ⟨e', same⟩ | ⟨q, -, accepted⟩
    · rw [same]
    · rw [accepted] at refused
      cases refused
  intro pool id slot role occupied found sidecar
  by_cases own : role = t.role
  · subst own
    rw [pool.writeIncoming_unchanged_iff occupied found sidecar bounded, eq_self, true_and]
  · refine iff_of_true (fun e _ => ?_) fun late => own late.1
    simp [BodyPool.writeIncoming, occupied, found, sidecar, Ne.symm own]

def upload : BlockTransfer Unit :=
  { key := (), role := .incomingBlock1, num := 0, szx := 1, more := true, nextNum := 1
    filled := 32, complete := false, expectedLen := none, q := none, qReceive := .none }

theorem upload_reachable : upload.Reachable :=
  ⟨(), .incomingBlock1, ⟨0, true, 1, by decide, by decide⟩, 32, 64, none, upload, [], rfl, rfl⟩

/-- A block with a gap is refused early and changes nothing. -/
theorem refused_unchanged_iff_gap :
    (upload.acceptIncoming ⟨5, true, 1, by decide, by decide⟩ 32 64).1 = .error .gap ∧
      (upload.acceptIncoming ⟨5, true, 1, by decide, by decide⟩ 32 64).2 = upload := by
  have early : ¬ upload.LateRefusal ⟨5, true, 1, by decide, by decide⟩
      (List.replicate 32 (0 : UInt8)).length 64 := by
    rintro (shrink | ⟨overrun, -⟩)
    · exact absurd shrink.smaller (by decide)
    · exact absurd overrun.bert.1 (by decide)
  exact ⟨rfl, ((refused_unchanged_iff upload_reachable _ _).1.mpr early) .gap rfl⟩

/-- One refused 16-byte block with an overlong payload wedges the upload: its size is adopted
all the same, and the 32-byte block that was next is refused from then on. -/
theorem refused_block_adopts_size : upload.Reachable ∧
    (upload.acceptIncoming ⟨2, true, 0, by decide, by decide⟩ 17 64).1 = .error .payloadLength ∧
    (upload.acceptIncoming ⟨2, true, 0, by decide, by decide⟩ 17 64).2 ≠ upload ∧
    (upload.acceptIncoming ⟨1, true, 1, by decide, by decide⟩ 32 64).1 = .ok 32 ∧
    ((upload.acceptIncoming ⟨2, true, 0, by decide, by decide⟩ 17 64).2.acceptIncoming
      ⟨1, true, 1, by decide, by decide⟩ 32 64).1 = .error .szxMismatch :=
  ⟨upload_reachable, rfl, by decide, rfl, rfl⟩

end Coaptic.Block
