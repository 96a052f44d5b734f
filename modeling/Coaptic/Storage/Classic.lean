import Coaptic.Lib.Result
import Coaptic.Storage.QNetwork

/-!
# Classic block-wise transfer

The sender issues a body block by block and may continue at a smaller size at any time; the
receiver takes the blocks in order. Both sides rescale the block number, and the proof is about
what they agree on: the byte offset.
-/
namespace Coaptic.Block

open Bytes BlockTransfer List

variable {κ κ' : Type} {capacity : Nat}

/-! ### Runs of consecutive blocks -/

/-- `Issues bodyLen blocks szx offset`: the blocks follow one another from the start of the body
up to `offset`, sizes never grow, the last size is `szx`, and only the end of the body ends the
list. -/
inductive Issues (bodyLen : Nat) : List Issued → Nat → Nat → Prop
  | start (szx : Nat) : Issues bodyLen [] szx 0
  | next {blocks : List Issued} {szx offset : Nat} {b : Issued} :
      Issues bodyLen blocks szx offset → b.1.szx ≤ szx → IsBlockOf bodyLen b.1.szx b →
      b.2.1 = offset → (offset < bodyLen ∨ blocks = []) →
      Issues bodyLen (blocks ++ [b]) b.1.szx (offset + b.2.2)

/-- The ranges of the blocks follow one another from `first` up to `last`. -/
def Consecutive : Nat → List Issued → Nat → Prop
  | first, [], last => first = last
  | first, b :: rest, last => b.2.1 = first ∧ Consecutive (first + b.2.2) rest last

variable {blocks : List Issued} {b : Issued} {bodyLen szx : Nat}

theorem Consecutive.append {first middle : Nat} (h : Consecutive first blocks middle)
    (next : b.2.1 = middle) : Consecutive first (blocks ++ [b]) (middle + b.2.2) := by
  induction blocks generalizing first with
  | nil =>
    obtain rfl : first = middle := h
    exact ⟨next, rfl⟩
  | cons a rest ih => exact ⟨h.1, ih h.2⟩

/-- A block is the last one exactly when it reaches the end of the body. -/
theorem IsBlockOf.last_iff (h : IsBlockOf bodyLen szx b) :
    b.1.more = false ↔ b.2.1 + b.2.2 = bodyLen := by
  constructor
  · exact h.end_of_last
  intro ends
  by_contra more
  have := h.more_iff.mp (by simpa using more)
  have := h.len_eq
  have := b.1.size_bounds.1
  omega

namespace Issues

variable {bodyLen szx offset : Nat} {blocks : List Issued}

section

variable (h : Issues bodyLen blocks szx offset)
include h

theorem consecutive : Consecutive 0 blocks offset := by
  induction h with
  | start => rfl
  | next _ _ _ at_ _ ih => exact ih.append at_

theorem isBlock : ∀ b ∈ blocks, IsBlockOf bodyLen b.1.szx b := by
  induction h with
  | start => exact nofun
  | next _ _ block _ _ ih =>
  intro a member
  rcases mem_append.mp member with old | new
  · exact ih a old
  · rw [mem_singleton.mp new]
    exact block

theorem offset_le : offset ≤ bodyLen := by
  induction h with
  | start => exact Nat.zero_le _
  | next _ _ block at_ _ _ =>
    rw [← at_]
    exact block.end_le.1

/-- What was issued first is a run of its own, and it stops short of the end of the body. -/
theorem front (early late : List Issued) (split : blocks = early ++ late) :
    ∃ szx' offset', Issues bodyLen early szx' offset' ∧
      (late ≠ [] → offset' < bodyLen ∨ early = []) ∧ (late = [] → offset' = offset) := by
  induction h generalizing late with
  | start szx =>
    obtain ⟨rfl, rfl⟩ := append_eq_nil_iff.mp split.symm
    exact ⟨szx, 0, .start szx, fun _ => .inr rfl, fun _ => rfl⟩
  | @next blocks szx offset b earlier smaller block at_ before ih =>
  -- either the last block belongs to the late part, or there is no late part
  rcases eq_nil_or_concat late with rfl | ⟨rest, c, rfl⟩
  · rw [append_nil] at split
    subst split
    exact ⟨_, _, .next earlier smaller block at_ before, fun h => absurd rfl h, fun _ => rfl⟩
  rw [concat_eq_append, ← append_assoc] at split
  obtain ⟨rfl, -⟩ := append_inj' split rfl
  obtain ⟨szx', offset', run, short, same⟩ := ih rest rfl
  refine ⟨szx', offset', run, fun _ => ?_, by simp⟩
  by_cases none : rest = []
  · subst none
    rw [same rfl]
    simpa using before
  · exact short none

end

variable {early : List Issued} {b : Issued}

theorem end_eq (h : Issues bodyLen blocks szx offset) (split : blocks = early ++ [b]) :
    b.2.1 + b.2.2 = offset ∧ b.1.szx = szx := by
  cases h with
  | start => exact absurd split (by simp)
  | next _ _ _ at_ _ =>
  obtain ⟨-, same⟩ := append_inj' split rfl
  obtain rfl := singleton_inj.mp same
  exact ⟨by rw [at_], rfl⟩

/-- A block is the body's last exactly when it was issued last and the whole body is issued. -/
theorem last_iff (h : Issues bodyLen blocks szx offset) {late : List Issued}
    (split : blocks = early ++ b :: late) : b.1.more = false ↔ late = [] ∧ offset = bodyLen := by
  obtain ⟨szx', offset', run, short, same⟩ := h.front (early ++ [b]) late (by simp [split])
  rw [(h.isBlock b (by simp [split])).last_iff, (run.end_eq rfl).1]
  constructor
  · intro ends
    have none : late = [] := by
      by_contra more
      rcases short more with before | empty
      · omega
      · simp at empty
    exact ⟨none, (same none).symm.trans ends⟩
  · rintro ⟨none, ends⟩
    exact (same none).trans ends

end Issues

/-! ### The sender -/

/-- A call on the sender. -/
inductive SendOp
  | issue
  | adopt (szx : Nat)
deriving DecidableEq

/-- The sender and what it has issued so far. -/
structure Outbox (κ : Type) where
  sender : BlockTransfer κ
  issued : List Issued

/-- A refused issue changes nothing. -/
theorem issueRange_error {t t' : BlockTransfer κ} {num : Nat} {e : BlockTransferError}
    (notBert : t.szx ≠ szxBert) (h : t.issueRange num = (.error e, t')) : t' = t := by
  unfold issueRange at h
  split at h
  · cases h
    rfl
  split at h
  · cases h
    rfl
  next block offset len range =>
  -- the block exists, so its number is far from the end of `u32`
  have num := (outgoingRange_ok notBert range).2
  have := block.num_lt
  simp only at h num
  rw [if_neg (by omega)] at h
  cases h

theorem sizeFromSzx_of_le (le : szx ≤ 6) : sizeFromSzx szx = .ok (16 <<< szx) := by
  rw [sizeFromSzx, szxBert, if_neg (by omega), if_neg (by omega)]

/-- A sender takes a smaller size over at the same byte offset, or stays as it was. -/
theorem adoptSmallerSzx_cases (t : BlockTransfer κ) (szx : Nat) (le : t.szx ≤ 6)
    (small : t.nextNum * 16 <<< t.szx < 2 ^ 32) : (∃ e, t.adoptSmallerSzx szx = (.error e, t)) ∨
    (t.complete = false ∧ szx < t.szx ∧ ∃ next, next * 16 <<< szx = t.nextNum * 16 <<< t.szx ∧
      t.adoptSmallerSzx szx = (.ok (), { t with szx, nextNum := next })) := by
  unfold adoptSmallerSzx
  split
  · exact .inl ⟨_, rfl⟩
  split
  · exact .inl ⟨_, rfl⟩
  next incomplete =>
  split
  · exact .inl ⟨_, rfl⟩
  next smaller =>
  have offset : blockOffset t.nextNum (16 <<< t.szx) = .ok (t.nextNum * 16 <<< t.szx) := by
    rw [blockOffset, if_pos (by omega)]
  simp only [sizeFromSzx_of_le le, sizeFromSzx_of_le (by omega : szx ≤ 6), offset]
  split
  · exact .inl ⟨_, rfl⟩
  next multiple =>
  have := Nat.div_le_self (t.nextNum * 16 <<< t.szx) (16 <<< szx)
  rw [if_neg (by omega)]
  exact .inr ⟨by simpa using incomplete, by omega, _,
    Nat.div_mul_cancel (Nat.dvd_of_mod_eq_zero (not_not.mp multiple)), rfl⟩

namespace Outbox

def step (s : Outbox κ) : SendOp → Outbox κ
  | .issue =>
    match s.sender.issueOutgoing with
    | (.ok issued, sender) => ⟨sender, s.issued ++ [issued]⟩
    | (.error _, sender) => { s with sender }
  | .adopt szx => { s with sender := (s.sender.adoptSmallerSzx szx).2 }

/-- What was issued reaches up to the sender's next block. -/
structure Inv (bodyLen : Nat) (s : Outbox κ) : Prop where
  outgoing : s.sender.role.isOutgoing = true
  classic : s.sender.role.isQBlock = false
  noWindow : s.sender.q = none
  szx_le : s.sender.szx ≤ 6
  filled : s.sender.filled = bodyLen
  small : bodyLen < 2 ^ 32
  issues : ∃ szx offset, Issues bodyLen s.issued szx offset ∧ s.sender.szx ≤ szx ∧
    (s.sender.complete = false → s.sender.nextNum * 16 <<< s.sender.szx = offset ∧
      (offset < bodyLen ∨ s.issued = [])) ∧
    (s.sender.complete = true → offset = bodyLen ∧ s.issued ≠ [])

variable {bodyLen : Nat} {s : Outbox κ}

section

variable (inv : Inv bodyLen s)
include inv

theorem Inv.notBert : s.sender.szx ≠ szxBert := by
  have := inv.szx_le
  rw [szxBert]
  omega

theorem Inv.issueOutgoing_eq (incomplete : s.sender.complete = false) :
    s.sender.issueOutgoing = s.sender.issueRange s.sender.nextNum := by
  have notBert : s.sender.isBert = false := by
    rw [isBert, beq_eq_false_iff_ne]
    exact inv.notBert
  simp only [issueOutgoing, inv.outgoing, inv.classic, incomplete, notBert, Bool.not_true,
    Bool.or_self, Bool.false_eq_true, if_false]

/-- The sender never asks for a byte past the body. -/
theorem Inv.offset_le (incomplete : s.sender.complete = false) :
    s.sender.nextNum * 16 <<< s.sender.szx ≤ bodyLen := by
  obtain ⟨szx, offset, issues, -, next, -⟩ := inv.issues
  rw [(next incomplete).1]
  exact issues.offset_le

/-- A sender that is complete refuses everything. -/
theorem Inv.step_of_complete (complete : s.sender.complete = true) (op : SendOp) :
    s.step op = s := by
  cases op with
  | issue =>
    simp only [step, issueOutgoing, inv.outgoing, inv.classic, complete, Bool.not_true,
      Bool.or_self, Bool.false_eq_true, if_false, if_true]
  | adopt szx =>
  have refused : (s.sender.adoptSmallerSzx szx).2 = s.sender := by
    unfold adoptSmallerSzx
    split
    · rfl
    · rfl
  simp only [step, refused]

theorem Inv.issue : Inv bodyLen (s.step .issue) := by
  obtain ⟨szx, offset, issues, smaller, next, done⟩ := inv.issues
  cases complete : s.sender.complete with
  | true =>
    rw [inv.step_of_complete complete]
    exact inv
  | false =>
  simp only [step]
  rw [inv.issueOutgoing_eq complete]
  cases result : s.sender.issueRange s.sender.nextNum with
  | mk outcome sender =>
  cases outcome with
  | error e =>
    obtain rfl := issueRange_error inv.notBert result
    exact inv
  | ok b =>
  obtain ⟨range, -, -, rfl⟩ := issueRange_ok result
  obtain ⟨block, num⟩ := outgoingRange_ok inv.notBert range
  obtain ⟨offsetEq, before⟩ := next complete
  have same := block.szx_eq
  rw [inv.filled] at block
  have at_ : b.2.1 = offset := by rw [block.offset_eq, block.size_eq, num, offsetEq]
  have notRecovery : s.sender.qObserveRecovery = false := by
    have := inv.classic
    unfold qObserveRecovery
    split
    next role _ =>
      rw [role] at this
      cases this
    · rfl
  refine ⟨inv.outgoing, inv.classic, ?_, inv.szx_le, inv.filled, inv.small, b.1.szx,
    offset + b.2.2, ?_, same.ge, ?_, ?_⟩
  · simp [markIssued, inv.noWindow]
  · exact .next issues (same ▸ smaller) (same ▸ block) at_ before
  · intro incomplete
    have more : b.1.more = true := by simpa [notRecovery] using incomplete
    have room := block.more_iff.mp more
    have len := block.len_of_more more
    refine ⟨?_, .inl ?_⟩
    · simp only
      rw [Nat.add_mul, offsetEq, len, block.size_eq, Nat.one_mul]
    · omega
  intro finished
  have last : b.1.more = false := by simpa [notRecovery] using finished
  exact ⟨at_ ▸ block.end_of_last last, by simp⟩

theorem Inv.adopt (szx' : Nat) : Inv bodyLen (s.step (.adopt szx')) := by
  cases complete : s.sender.complete with
  | true =>
    rw [inv.step_of_complete complete]
    exact inv
  | false =>
  simp only [step]
  have small := Nat.lt_of_le_of_lt (inv.offset_le complete) inv.small
  rcases adoptSmallerSzx_cases s.sender szx' inv.szx_le small with
    ⟨e, refused⟩ | ⟨-, shrinks, num, offset, adopted⟩
  · rw [refused]
    exact inv
  rw [adopted]
  have le := inv.szx_le
  obtain ⟨szx, offset', issues, smaller, next, done⟩ := inv.issues
  refine ⟨inv.outgoing, inv.classic, inv.noWindow, by simp only; omega, inv.filled, inv.small,
    szx, offset', issues, by simp only; omega, ?_, done⟩
  intro incomplete
  exact ⟨offset.trans (next incomplete).1, (next incomplete).2⟩

theorem Inv.after (op : SendOp) : Inv bodyLen (s.step op) := by
  cases op with
  | issue => exact inv.issue
  | adopt szx => exact inv.adopt szx

/-- As long as its number fits the option, the next block is issued. -/
theorem Inv.issue_ok (incomplete : s.sender.complete = false)
    (inRange : s.sender.nextNum ≤ numMax) :
    ∃ b, s.sender.issueOutgoing.1 = .ok b ∧ (s.step .issue).issued = s.issued ++ [b] := by
  have le := inv.offset_le incomplete
  have small := inv.small
  have szxLe := inv.szx_le
  have admitted : s.sender.windowAdmits s.sender.nextNum = .ok () := by
    rw [windowAdmits, inv.noWindow]
  have offset : blockOffset s.sender.nextNum (16 <<< s.sender.szx) =
      .ok (s.sender.nextNum * 16 <<< s.sender.szx) := by
    rw [blockOffset, if_pos (by omega)]
  -- the next block starts inside the body, or the body is empty
  have inside : ¬ (s.sender.filled < s.sender.nextNum * 16 <<< s.sender.szx ∨
      (s.sender.nextNum * 16 <<< s.sender.szx = s.sender.filled ∧ 0 < s.sender.filled)) := by
    obtain ⟨szx, offset', issues, -, next, -⟩ := inv.issues
    obtain ⟨offsetEq, before⟩ := next incomplete
    rw [inv.filled]
    rcases before with before | none
    · omega
    rw [none] at issues
    have first : 0 = offset' := issues.consecutive
    omega
  have range : ∃ b, s.sender.outgoingRange s.sender.nextNum = .ok b := by
    simp only [outgoingRange, sizeFromSzx_of_le szxLe, offset, if_neg inside, BlockValue.new]
    rw [dif_pos (show s.sender.szx ≤ szxBert by rw [szxBert]; omega), dif_pos inRange]
    exact ⟨_, rfl⟩
  obtain ⟨b, range⟩ := range
  have numLt : ¬ 2 ^ 32 ≤ s.sender.nextNum + 1 := by
    rw [numMax] at inRange
    omega
  refine ⟨b, ?_, ?_⟩
  · simp only [inv.issueOutgoing_eq incomplete, issueRange, admitted, range, if_neg numLt]
  · simp only [step, inv.issueOutgoing_eq incomplete, issueRange, admitted, range, if_neg numLt]

end

theorem inv_run {key : κ} {role : BlockRole} {szx cap : Nat} {sender : BlockTransfer κ}
    (started : outgoing key role bodyLen szx cap = .ok sender) (szxLe : szx ≤ 6)
    (ops : List SendOp) : Inv bodyLen (Run.run step ⟨sender, []⟩ ops) := by
  refine Run.invariant_run (fun s op inv => inv.after op) ?_ ops
  obtain ⟨rfl, direction, classic, small⟩ := outgoing_ok started
  exact ⟨direction, classic, rfl, szxLe, rfl, small, szx, 0, .start szx, Nat.le_refl _,
    fun _ => ⟨Nat.zero_mul _, .inr rfl⟩, nofun⟩

/-- The next number of an incomplete sender fits the Block option whenever it is to issue. -/
def NumInRange (s : Outbox κ) (op : SendOp) : Prop :=
  op = .issue → s.sender.complete = false → s.sender.nextNum ≤ numMax

/-- A sender that is still incomplete issued a block at every `issue`. -/
theorem Inv.length_issued (inv : Inv bodyLen s) {ops : List SendOp}
    (inRange : Run.Meets step NumInRange s ops)
    (incomplete : (Run.run step s ops).sender.complete = false) :
    (Run.run step s ops).issued.length = s.issued.length + ops.count .issue := by
  induction ops generalizing s with
  | nil => rfl
  | cons op rest ih =>
  obtain ⟨first, later⟩ := inRange
  have going : s.sender.complete = false := by
    by_contra complete
    rw [Run.run_of_fixed (inv.step_of_complete (by simpa using complete))] at incomplete
    exact complete incomplete
  rw [Run.run_cons, ih (inv.after op) later incomplete]
  cases op with
  | issue =>
    obtain ⟨b, -, issued⟩ := inv.issue_ok going (first rfl going)
    rw [issued, length_append, length_singleton, count_cons_self]
    omega
  | adopt szx => simp [step]

end Outbox

theorem Issues.length_le {offset : Nat} (h : Issues bodyLen blocks szx offset)
    (before : offset < bodyLen ∨ blocks = []) : 16 * blocks.length ≤ offset := by
  induction h with
  | start => simp
  | @next blocks szx offset b earlier smaller block at_ short ih =>
  have room : offset + b.2.2 < bodyLen := by simpa using before
  have more : b.1.more = true := by
    by_contra last
    have := block.end_of_last (by simpa using last)
    omega
  have := block.len_of_more more
  have := b.1.size_bounds.1
  have := ih short
  rw [length_append, length_singleton]
  omega

/-! ### The receiver -/

namespace BlockTransfer

/-- The next block is accepted: the one after the last, or the block of a smaller size that
starts at the first missing byte. -/
theorem acceptIncoming_of_next {t : BlockTransfer κ} {block : BlockValue} {payloadLen : Nat}
    (incoming : t.role.isIncoming = true) (classic : t.role.isQBlock = false)
    (incomplete : t.complete = false) (notBert : t.isBert = false)
    (blockNotBert : block.isBert = false)
    (next : (block.szx = t.szx ∧ block.num = t.nextNum) ∨
      (block.szx < t.szx ∧ block.num * block.size = t.filled))
    (length : block.refusesLength payloadLen = false)
    (room : block.num * block.size + payloadLen ≤ capacity) :
    t.acceptIncoming block payloadLen capacity = (.ok (block.num * block.size), { t with
      szx := block.szx, num := block.num, more := block.more
      filled := block.num * block.size + payloadLen
      nextNum := block.num + 1, complete := !block.more }) := by
  have adopted : t.adoptIncomingSzx block =
      (.ok (), { t with szx := block.szx, nextNum := block.num }) := by
    rcases next with ⟨same, num⟩ | ⟨smaller, offset⟩
    · rw [adoptIncomingSzx, if_pos same, same, num]
    simp only [adoptIncomingSzx, if_neg (Nat.ne_of_lt smaller), notBert, blockNotBert,
      decide_eq_false (Nat.lt_asymm smaller), Bool.or_self, Bool.false_eq_true, if_false,
      blockOffset_block, offset, ne_eq, not_true_eq_false]
  unfold acceptIncoming
  simp only [incoming, classic, incomplete, adopted, blockNotBert, Bool.not_true, Bool.or_self,
    Bool.false_eq_true, if_false, Nat.lt_irrefl, acceptNextIncoming_eq, length,
    if_neg (Nat.not_lt.mpr room)]

end BlockTransfer

/-- The receiver takes one block: `incoming` starts the transfer, `accept_incoming` continues
it, and the bytes go where the transfer says. -/
def receive (body : List UInt8) (key : κ') (role : BlockRole) (expectedLen : Option Nat)
    (slot : BodySlot κ' capacity) (b : Issued) : Except BlockTransferError (BodySlot κ' capacity) :=
  match slot.transfer with
  | none =>
    match BlockTransfer.incoming key role b.1 (chunk body b).length capacity expectedLen with
    | .error e => .error e
    | .ok t => storeIncoming { slot with transfer := some t } 0 (chunk body b) none
  | some t =>
    match t.acceptIncoming b.1 (chunk body b).length capacity with
    | (.error e, _) => .error e
    | (.ok offset, t) => storeIncoming { slot with transfer := some t } offset (chunk body b) none

/-- The receiver stands at `offset` after the blocks, with the bytes before it. -/
structure Receives (body : List UInt8) (role : BlockRole) (blocks : List Issued)
    (szx offset : Nat) (slot : BodySlot κ' capacity) : Prop where
  bytes : slot.bytes.take offset = body.take offset
  first : blocks = [] → slot.transfer = none
  later : blocks ≠ [] → slot.len = offset ∧ ∃ t, slot.transfer = some t ∧ t.role = role ∧
    t.szx = szx ∧ szx ≤ 6 ∧ t.filled = offset ∧ (t.complete = true ↔ offset = body.length) ∧
    (t.complete = false → t.nextNum * 16 <<< szx = offset)

section Receiver

variable {body : List UInt8} {role : BlockRole} {blocks : List Issued} {szx offset : Nat}
  {slot : BodySlot κ' capacity} {b : Issued}

theorem IsBlockOf.refusesLength (block : IsBlockOf bodyLen szx b) :
    b.1.refusesLength b.2.2 = false := by
  cases more : b.1.more with
  | true => simp [BlockValue.refusesLength, more, block.len_of_more more]
  | false => simp [BlockValue.refusesLength, more, block.end_le.2]

/-- Storing the next chunk extends the prefix of the body in the slot. -/
theorem take_store {bytes : List UInt8} (room : body.length ≤ bytes.length)
    (block : IsBlockOf body.length szx b) (same : bytes.take b.2.1 = body.take b.2.1) :
    (writeAt bytes b.2.1 (chunk body b)).take (b.2.1 + b.2.2) = body.take (b.2.1 + b.2.2) := by
  have inside := block.offset_le
  have front : (bytes.take b.2.1).length = b.2.1 := by
    rw [length_take]
    omega
  have written : ((bytes.take b.2.1) ++ chunk body b).length = b.2.1 + b.2.2 := by
    rw [length_append, front, length_chunk block]
  rw [writeAt, take_left' written, same, chunk, take_add]

/-- The state that accepting a block leaves behind, whichever way it was accepted. -/
theorem Receives.store (blocks : List Issued) (block : IsBlockOf body.length b.1.szx b)
    (room : body.length ≤ capacity) (same : slot.bytes.take b.2.1 = body.take b.2.1)
    (t : BlockTransfer κ') (roleEq : t.role = role) :
    ∃ slot', storeIncoming { slot with transfer := some { t with
          szx := b.1.szx, num := b.1.num, more := b.1.more
          filled := b.1.num * b.1.size + b.2.2, nextNum := b.1.num + 1
          complete := !b.1.more } } b.2.1 (chunk body b) none = .ok slot' ∧
      Receives body role (blocks ++ [b]) b.1.szx (b.2.1 + b.2.2) slot' := by
  have ends := block.end_le.1
  obtain ⟨slot', stored, bytes, len, transfer⟩ := BodyPool.storeIncoming_ok
    { slot with transfer := some { t with
        szx := b.1.szx, num := b.1.num, more := b.1.more, filled := b.1.num * b.1.size + b.2.2
        nextNum := b.1.num + 1, complete := !b.1.more } } (chunk body b)
    (show b.2.1 + _ ≤ capacity by rw [length_chunk block]; omega) none
  refine ⟨slot', stored, ?_, by simp, fun _ => ⟨?_, _, transfer, roleEq, rfl, block.szx_le, ?_, ?_, ?_⟩⟩
  · rw [bytes]
    exact take_store (by rw [slot.length_bytes]; exact room) block same
  · rw [len, length_chunk block]
    rfl
  · simp only
    rw [block.offset_eq]
  · simp only [Bool.not_eq_true']
    exact block.last_iff
  simp only [Bool.not_eq_false']
  intro more
  rw [Nat.add_mul, Nat.one_mul, ← block.size_eq, ← block.offset_eq, block.len_of_more more]

/-- The receiver accepts the next block of the run. -/
theorem Receives.receive_next {key : κ'} {expectedLen : Option Nat}
    (h : Receives body role blocks szx offset slot) (incoming : role.isIncoming = true)
    (classic : role.isQBlock = false) (room : body.length ≤ capacity) (smaller : b.1.szx ≤ szx)
    (block : IsBlockOf body.length b.1.szx b) (next : b.2.1 = offset)
    (before : offset < body.length ∨ blocks = []) (start : blocks = [] → offset = 0) :
    ∃ slot', receive body key role expectedLen slot b = .ok slot' ∧
      Receives body role (blocks ++ [b]) b.1.szx (offset + b.2.2) slot' := by
  subst next
  have ends := block.end_le.1
  have offsetEq := block.offset_eq
  have fits : b.1.num * b.1.size + b.2.2 ≤ capacity := by omega
  have sizePos := b.1.size_bounds.1
  unfold receive
  rw [length_chunk block]
  by_cases empty : blocks = []
  · -- the first block has number zero
    have num : b.1.num = 0 := by
      rw [start empty] at offsetEq
      rcases Nat.mul_eq_zero.mp offsetEq.symm with num | size
      · exact num
      · omega
    have notBert : ¬ (!role.isIncoming || role.isQBlock) = true := by simp [incoming, classic]
    rw [h.first empty, BlockTransfer.incoming, if_neg notBert, if_neg (not_not.mpr num)]
    simp only
    rw [acceptIncoming_of_next incoming classic rfl
      (by rw [isBert]; exact block.notBert) block.notBert (.inl ⟨rfl, num⟩)
      block.refusesLength fits]
    simp only
    obtain ⟨slot', stored, holds⟩ := Receives.store blocks block room h.bytes
      ⟨key, role, 0, b.1.szx, b.1.more, 0, 0, false, expectedLen, none, .none⟩ rfl
    rw [start empty] at stored
    exact ⟨slot', stored, holds⟩
  · obtain ⟨-, t, sidecar, roleEq, szxEq, szxLe, filled, completeIff, nextNum⟩ := h.later empty
    have incomplete : t.complete = false := by
      rw [← Bool.not_eq_true, completeIff]
      have := before.resolve_right empty
      omega
    have notBert : t.isBert = false := by
      rw [isBert, beq_eq_false_iff_ne, szxBert]
      omega
    -- same size: the numbers agree because the offsets do
    have continues : (b.1.szx = t.szx ∧ b.1.num = t.nextNum) ∨
        (b.1.szx < t.szx ∧ b.1.num * b.1.size = t.filled) := by
      rcases Nat.lt_or_eq_of_le smaller with less | same
      · exact .inr ⟨by omega, by omega⟩
      have next := nextNum incomplete
      rw [← same, ← block.size_eq, offsetEq] at next
      exact .inl ⟨by omega, Nat.eq_of_mul_eq_mul_right (by omega) next.symm⟩
    rw [sidecar]
    simp only
    rw [acceptIncoming_of_next (roleEq ▸ incoming) (roleEq ▸ classic) incomplete
      notBert block.notBert continues block.refusesLength fits, ← offsetEq]
    obtain ⟨slot', stored, holds⟩ := Receives.store blocks block room h.bytes t roleEq
    rw [← offsetEq] at stored
    exact ⟨slot', stored, holds⟩

theorem Receives.complete_iff (h : Receives body role blocks szx offset slot) :
    slot.transfer.any (·.complete) = true ↔ blocks ≠ [] ∧ offset = body.length := by
  by_cases empty : blocks = []
  · simp [h.first empty, empty]
  obtain ⟨-, t, sidecar, -, -, -, -, completeIff, -⟩ := h.later empty
  rw [sidecar, Option.any_some, completeIff]
  simp [empty]

/-- The receiver accepts a whole run of issued blocks. -/
theorem receives_run (key : κ') (expectedLen : Option Nat) (incoming : role.isIncoming = true)
    (classic : role.isQBlock = false) (room : body.length ≤ capacity)
    (fresh : slot.transfer = none) (issues : Issues body.length blocks szx offset) :
    ∃ slot', blocks.foldlM (receive body key role expectedLen) slot = .ok slot' ∧
      Receives body role blocks szx offset slot' := by
  induction issues with
  | start szx =>
    exact ⟨slot, rfl, by simp, fun _ => fresh, fun h => absurd rfl h⟩
  | @next blocks szx offset b earlier smaller block at_ before ih =>
  obtain ⟨slot', accepted, holds⟩ := ih
  have start : blocks = [] → offset = 0 := by
    rintro rfl
    have : 0 = offset := earlier.consecutive
    exact this.symm
  obtain ⟨slot'', next, holds'⟩ :=
    holds.receive_next incoming classic room smaller block at_ before start
  refine ⟨slot'', ?_, holds'⟩
  rw [foldlM_append, accepted, Result.ok_bind, foldlM_cons, next]
  rfl

end Receiver

/-! ### Agreement -/

/-- Sender and receiver agree on every schedule of issues and smaller sizes. Every block starts
at its number times its size, right where the one before it ended; the last block, and no
other, has M = 0 and ends at the end of the body. The receiver accepts every block, is complete
after the last one and no earlier, and then holds the body. A sender whose numbers fit the
option finishes after at most one block for every sixteen bytes. -/
theorem classic_agreement {body : List UInt8} {szx senderCapacity : Nat} {role : BlockRole}
    {senderKey : κ} {sender : BlockTransfer κ}
    (started : outgoing senderKey role body.length szx senderCapacity = .ok sender)
    (szxLe : szx ≤ 6) (room : body.length ≤ capacity) (slot : BodySlot κ' capacity)
    (fresh : slot.transfer = none) (key : κ') (expectedLen : Option Nat) (ops : List SendOp)
    {s : Outbox κ} (reached : s = Run.run Outbox.step ⟨sender, []⟩ ops) :
    (∀ b ∈ s.issued, b.1.num * b.1.size = b.2.1) ∧
    (∃ offset ≤ body.length, Consecutive 0 s.issued offset) ∧
    (s.sender.complete = true → Consecutive 0 s.issued body.length) ∧
    (∀ early b late, s.issued = early ++ b :: late →
      (b.1.more = false ↔ late = [] ∧ s.sender.complete = true)) ∧
    (∀ early late, s.issued = early ++ late →
      ∃ slot', early.foldlM (receive body key role.peer expectedLen) slot = .ok slot' ∧
        (slot'.transfer.any (·.complete) = true ↔ late = [] ∧ s.sender.complete = true) ∧
        (slot'.transfer.any (·.complete) = true → slot'.bytes.take slot'.len = body)) ∧
    (Run.Meets Outbox.step Outbox.NumInRange ⟨sender, []⟩ ops → 0 < ops.count .issue →
      body.length ≤ 16 * ops.count .issue → s.sender.complete = true) := by
  have inv : s.Inv body.length := reached ▸ Outbox.inv_run started szxLe ops
  obtain ⟨-, direction, classic, -⟩ := outgoing_ok started
  obtain ⟨last, offset, issues, -, next, done⟩ := inv.issues
  have completeIff : s.sender.complete = true ↔ s.issued ≠ [] ∧ offset = body.length := by
    constructor
    · intro complete
      exact (done complete).symm
    rintro ⟨some, ends⟩
    by_contra incomplete
    have := (next (by simpa using incomplete)).2.resolve_right some
    omega
  refine ⟨?_, ⟨offset, issues.offset_le, issues.consecutive⟩, ?_, ?_, ?_, ?_⟩
  · intro b member
    exact (issues.isBlock b member).offset_eq.symm
  · intro complete
    exact (done complete).1 ▸ issues.consecutive
  · intro early b late split
    rw [issues.last_iff split, completeIff]
    simp [split]
  · intro early late split
    obtain ⟨szx', offset', front, short, same⟩ := issues.front early late split
    obtain ⟨slot', accepted, holds⟩ := receives_run key expectedLen
      (role.isIncoming_peer.trans direction) (role.isQBlock_peer.trans classic) room fresh front
    refine ⟨slot', accepted, ?_, ?_⟩
    · rw [holds.complete_iff, completeIff]
      constructor
      · rintro ⟨some, ends⟩
        have none : late = [] := by
          by_contra more
          have := (short more).resolve_right some
          omega
        exact ⟨none, by simp [split, some], by rw [← same none, ends]⟩
      rintro ⟨none, some, ends⟩
      rw [split, none, List.append_nil] at some
      exact ⟨some, (same none).trans ends⟩
    · intro complete
      obtain ⟨some, ends⟩ := holds.complete_iff.mp complete
      rw [(holds.later some).1, holds.bytes, ends, List.take_length]
  · intro inRange some enough
    by_contra incomplete
    rw [Bool.not_eq_true] at incomplete
    have before := (next incomplete).2
    have start : Outbox.Inv body.length ⟨sender, []⟩ := Outbox.inv_run started szxLe []
    have length := start.length_issued inRange (reached ▸ incomplete)
    rw [← reached, List.length_nil, Nat.zero_add] at length
    have le := issues.length_le before
    rcases before with before | none
    · omega
    · rw [none, List.length_nil] at length
      omega

def fortyBytes : List UInt8 := (List.range 40).map UInt8.ofNat

def fortySender : BlockTransfer Unit :=
  { key := (), role := .outgoingBlock2, num := 0, szx := 1, more := false, nextNum := 0
    filled := 40, complete := false, expectedLen := some 40, q := none, qReceive := .none }

/-- Thirty-two bytes, then the remaining eight at the smaller size. -/
theorem classic_agreement_shrink :
    (Run.run Outbox.step ⟨fortySender, []⟩ [.issue, .adopt 0, .issue]).issued.map (·.1.num)
        = [0, 2] ∧
      Consecutive 0 (Run.run Outbox.step ⟨fortySender, []⟩ [.issue, .adopt 0, .issue]).issued 40 := by
  have started : outgoing () .outgoingBlock2 fortyBytes.length 1 64 = .ok fortySender := rfl
  obtain ⟨-, -, whole, -⟩ := classic_agreement started (by decide) (by decide)
    (⟨List.replicate 64 0, List.length_replicate, 0, none⟩ : BodySlot Unit 64) rfl ()
    none [.issue, .adopt 0, .issue] rfl
  exact ⟨rfl, whole rfl⟩

end Coaptic.Block
