import Coaptic.Storage.Issue

/-!
# Q-Block transfer over a lossy network

A sender issues blocks of one body, the network delivers any of them any number of times in
any order, and a receiver assembles them. The receiver never shows a byte that is not the
body's, and shows exactly the prefix it received without a gap.
-/
namespace Coaptic.Block

open Bitmap Bytes BlockTransfer List Option

variable {κ κ' : Type} {capacity : Nat}

/-! ### The receive window -/

theorem getLsbD_windowFull (i : Nat) : windowFull.getLsbD i = decide (i < maxPayloads) := by
  by_cases inside : i < 16
  · have table : ∀ i : Fin 16, windowFull.getLsbD i = decide (i.val < maxPayloads) := by decide
    exact table ⟨i, inside⟩
  · rw [BitVec.getLsbD_of_ge _ _ (Nat.not_lt.mp inside), maxPayloads, decide_eq_false (by omega)]

namespace QWindow

/-- NUM `n` has arrived: it lies below the window, or its bit is set. -/
def Has (q : QWindow) (n : Nat) : Prop :=
  n < q.base ∨ (q.base ≤ n ∧ q.mask.getLsbD (n - q.base) = true)

variable {q : QWindow} {block : BlockValue} {payloadLen : Nat}

theorem has_of_lt_contig {n : Nat} (h : n < q.contig) : q.Has n := by
  by_cases old : n < q.base
  · exact .inl old
  refine .inr ⟨Nat.not_lt.mp old, getLsbD_of_lt_trailingOnes _ ?_⟩
  rw [contig] at h
  omega

theorem not_has_contig (q : QWindow) : ¬ q.Has q.contig := by
  rintro (old | ⟨-, set⟩)
  · rw [contig] at old
    omega
  · rw [contig, Nat.add_sub_cancel_left, getLsbD_trailingOnes] at set
    cases set

/-- The window only marks its ten numbers, starts at a multiple of ten, and moves on once it is
full unless it holds the final block. -/
structure Sound (q : QWindow) : Prop where
  inside : ∀ i, q.mask.getLsbD i = true → i < maxPayloads
  aligned : q.base % maxPayloads = 0
  moved : q.mask = windowFull → q.finalNum ≠ none
  final : ∀ f, q.finalNum = some f → f < q.base + maxPayloads

theorem received_has (above : q.base ≤ block.num) (below : block.num < q.base + maxPayloads)
    (n : Nat) : (q.received block payloadLen).Has n ↔ q.Has n ∨ n = block.num := by
  have ten : maxPayloads = 10 := rfl
  have idx : block.num - q.base < 16 := by omega
  -- the bit that was set is the arrived number's
  have marked : (n < q.base ∨ q.base ≤ n ∧
        (q.mask ||| bit 16 (block.num - q.base)).getLsbD (n - q.base) = true) ↔
      q.Has n ∨ n = block.num := by
    rw [getLsbD_insert _ idx, Has]
    constructor
    · rintro (old | ⟨fresh, set | same⟩)
      · exact .inl (.inl old)
      · exact .inl (.inr ⟨fresh, set⟩)
      · exact .inr (by omega)
    rintro ((old | ⟨fresh, set⟩) | rfl)
    · exact .inl old
    · exact .inr ⟨fresh, .inl set⟩
    · exact .inr ⟨above, .inr rfl⟩
  unfold received
  cases block.more with
  | false => exact marked
  | true =>
  simp only [if_true]
  split
  next full =>
    rw [full.1, getLsbD_windowFull, decide_eq_true_eq] at marked
    rw [← marked]
    simp only [Has, BitVec.getLsbD_zero, Bool.false_eq_true, and_false, or_false]
    omega
  · exact marked

theorem received_sound (sound : q.Sound) (below : block.num < q.base + maxPayloads) :
    (q.received block payloadLen).Sound := by
  have ten : maxPayloads = 10 := rfl
  have inside : ∀ i, (q.mask ||| bit 16 (block.num - q.base)).getLsbD i = true →
      i < maxPayloads := by
    intro i set
    rw [getLsbD_insert _ (by omega)] at set
    rcases set with set | rfl
    · exact sound.inside i set
    · omega
  unfold received
  cases block.more with
  | false =>
    refine ⟨inside, sound.aligned, fun _ => some_ne_none _, ?_⟩
    rintro f ⟨⟩
    exact below
  | true =>
  simp only [if_true]
  split
  next full =>
    refine ⟨?_, ?_, ?_, ?_⟩
    · intro i set
      rw [BitVec.getLsbD_zero] at set
      cases set
    · rw [Nat.add_mod_right, sound.aligned]
    · intro empty
      exact absurd empty (show 0#16 ≠ windowFull by decide)
    intro f final
    rw [full.2] at final
    cases final
  next notFull =>
    exact ⟨inside, sound.aligned, fun full none => notFull ⟨full, none⟩, sound.final⟩

theorem received_final (q : QWindow) (block : BlockValue) (payloadLen : Nat) :
    (q.received block payloadLen).finalNum = (if block.more then q.finalNum else some block.num) ∧
      (q.received block payloadLen).finalPayloadLen =
        (if block.more then q.finalPayloadLen else payloadLen) := by
  unfold received
  cases block.more with
  | false => exact ⟨rfl, rfl⟩
  | true =>
  simp only [if_true]
  split
  · exact ⟨rfl, rfl⟩
  · exact ⟨rfl, rfl⟩

/-- The first missing number of an incomplete window lies in it. -/
theorem contig_lt (sound : q.Sound) (incomplete : q.isComplete = false) :
    q.contig < q.base + maxPayloads := by
  by_contra beyond
  have ten : maxPayloads = 10 := rfl
  have ones : maxPayloads ≤ trailingOnes q.mask := by
    rw [contig] at beyond
    omega
  have full : q.mask = windowFull := by
    apply BitVec.eq_of_getLsbD_eq
    intro i bound
    rw [getLsbD_windowFull]
    by_cases low : i < maxPayloads
    · rw [decide_eq_true low, getLsbD_of_lt_trailingOnes _ (by omega)]
    · rw [decide_eq_false low, ← Bool.not_eq_true]
      exact fun set => low (sound.inside i set)
  cases finalNum : q.finalNum with
  | none => exact sound.moved full finalNum
  | some f =>
  have := sound.final f finalNum
  rw [isComplete, finalNum, any_some, decide_eq_false_iff_not] at incomplete
  omega

end QWindow

open QWindow

/-! ### The receiver -/

def chunk (body : List UInt8) (issued : Issued) : List UInt8 :=
  (body.drop issued.2.1).take issued.2.2

/-- Byte `i` of the body arrived in one of the blocks. -/
def Arrived (blocks : List Issued) (i : Nat) : Prop :=
  ∃ b ∈ blocks, b.2.1 ≤ i ∧ i < b.2.1 + b.2.2

theorem length_chunk {body : List UInt8} {szx : Nat} {issued : Issued}
    (block : IsBlockOf body.length szx issued) : (chunk body issued).length = issued.2.2 := by
  have := block.end_le.1
  rw [chunk, length_take, length_drop]
  omega

theorem arrived_append {blocks : List Issued} {b : Issued} {i : Nat} :
    Arrived (blocks ++ [b]) i ↔ Arrived blocks i ∨ (b.2.1 ≤ i ∧ i < b.2.1 + b.2.2) := by
  unfold Arrived
  simp only [mem_append, mem_singleton, or_and_right, exists_or, exists_eq_left]

/-- The receiver holds exactly the accepted blocks of the body: the window counts them, the
progress fields follow from the window, and the bytes that arrived are the body's. -/
structure Assembled (body : List UInt8) (szx : Nat) (accepted : List Issued) (q : QWindow)
    (t : BlockTransfer κ) (slot : BodySlot κ capacity) : Prop where
  blocks : ∀ b ∈ accepted, IsBlockOf body.length szx b
  role : t.role.isQBlock = true
  szx_eq : t.szx = szx
  window : t.q = some q
  bounded : t.WindowBounded
  sound : q.Sound
  has_iff : ∀ n, q.Has n ↔ ∃ b ∈ accepted, b.1.num = n
  final_iff : ∀ f, q.finalNum = some f ↔ ∃ b ∈ accepted, b.1.more = false ∧ b.1.num = f
  finalLen : ∀ b ∈ accepted, b.1.more = false → q.finalPayloadLen = b.2.2
  filled : t.filled = q.filledLen (16 <<< szx)
  complete : t.complete = q.isComplete
  stored : ∀ i, Arrived accepted i → slot.bytes[i]? = body[i]?
  visible : slot.len = t.filled
  retention : t.qReceive = .none

namespace Assembled

variable {body : List UInt8} {szx : Nat} {accepted : List Issued} {q : QWindow}
  {t : BlockTransfer κ} {slot : BodySlot κ capacity}

section

variable (h : Assembled body szx accepted q t slot)
include h

theorem arrived_iff (i : Nat) : Arrived accepted i ↔ i < body.length ∧ q.Has (i / 16 <<< szx) := by
  rw [h.has_iff]
  constructor
  · rintro ⟨b, member, range⟩
    have block := h.blocks b member
    obtain ⟨inside, num⟩ := (block.mem_range_iff i).mp range
    exact ⟨inside, b, member, by rw [← num, block.size_eq]⟩
  rintro ⟨inside, b, member, num⟩
  have block := h.blocks b member
  exact ⟨b, member, (block.mem_range_iff i).mpr ⟨inside, by rw [num, block.size_eq]⟩⟩

/-- Before completion the visible prefix ends with the last block before the first missing
one, which is not the body's last. -/
theorem filled_of_incomplete (incomplete : t.complete = false) :
    t.filled = q.contig * 16 <<< szx ∧ t.filled ≤ body.length := by
  rw [h.complete] at incomplete
  have filled : t.filled = q.contig * 16 <<< szx := by
    rw [h.filled, filledLen, incomplete]
    rfl
  refine ⟨filled, ?_⟩
  rw [filled]
  cases contig : q.contig with
  | zero => simp
  | succ n =>
  obtain ⟨b, member, num⟩ := (h.has_iff n).mp (has_of_lt_contig (by omega))
  have block := h.blocks b member
  cases more : b.1.more with
  | true =>
    have room := block.more_iff.mp more
    rw [block.offset_eq, block.size_eq, num] at room
    rw [Nat.add_mul]
    omega
  | false =>
  have final := (h.final_iff n).mpr ⟨b, member, more, num⟩
  rw [isComplete, final, any_some, decide_eq_false_iff_not] at incomplete
  omega

theorem filled_of_complete (complete : t.complete = true) :
    t.filled = body.length ∧ ∀ i < body.length, Arrived accepted i := by
  rw [h.complete] at complete
  have filled := h.filled
  rw [filledLen, complete, if_pos rfl] at filled
  rw [isComplete, Option.any_eq_true] at complete
  obtain ⟨f, final, covered⟩ := complete
  rw [decide_eq_true_eq] at covered
  obtain ⟨b, member, last, num⟩ := (h.final_iff f).mp final
  have block := h.blocks b member
  have ends := block.end_of_last last
  rw [block.offset_eq, block.size_eq, num] at ends
  refine ⟨by rw [filled, final, getD_some, h.finalLen b member last, ends], ?_⟩
  intro i inside
  refine (h.arrived_iff i).mpr ⟨inside, has_of_lt_contig ?_⟩
  have lenLe := block.end_le.2
  rw [block.size_eq] at lenLe
  have sizePos : 0 < 16 <<< szx := by
    rw [← block.size_eq]
    exact Nat.lt_of_lt_of_le (by decide) b.1.size_bounds.1
  have : i / 16 <<< szx ≤ f := by
    by_contra beyond
    have := Nat.mul_le_of_le_div _ _ _ (Nat.not_le.mp beyond)
    rw [Nat.succ_mul] at this
    have : i < f * 16 <<< szx + b.2.2 := ends ▸ inside
    omega
  omega

/-- The filled length is the longest prefix of the body that arrived without a gap. -/
theorem filled_isGreatest :
    IsGreatest {n | n ≤ body.length ∧ ∀ i < n, Arrived accepted i} t.filled := by
  have sizePos : 0 < 16 <<< szx := by
    rw [Nat.shiftLeft_eq]
    positivity
  have prefixArrived : t.filled ≤ body.length ∧ (∀ i < t.filled, Arrived accepted i) ∧
      ¬ Arrived accepted t.filled := by
    cases complete : t.complete with
    | true =>
      obtain ⟨filled, arrived⟩ := h.filled_of_complete complete
      refine ⟨filled.le, filled ▸ arrived, ?_⟩
      rw [h.arrived_iff, filled]
      exact fun inside => absurd inside.1 (Nat.lt_irrefl _)
    | false =>
    obtain ⟨filled, le⟩ := h.filled_of_incomplete complete
    refine ⟨le, ?_, ?_⟩
    · intro i before
      refine (h.arrived_iff i).mpr ⟨by omega, has_of_lt_contig ?_⟩
      rwa [Nat.div_lt_iff_lt_mul sizePos, ← filled]
    · rw [h.arrived_iff, filled, Nat.mul_div_cancel _ sizePos]
      exact fun arrived => q.not_has_contig arrived.2
  obtain ⟨le, arrived, missing⟩ := prefixArrived
  refine ⟨⟨le, arrived⟩, ?_⟩
  rintro n ⟨-, all⟩
  by_contra longer
  exact missing (all t.filled (Nat.not_le.mp longer))

/-- The visible bytes are the body's. -/
theorem visible_eq : slot.bytes.take slot.len = body.take t.filled := by
  have arrived := h.filled_isGreatest.1.2
  apply ext_getElem?
  intro i
  rw [h.visible, getElem?_take, getElem?_take]
  split
  next inside => exact h.stored i (arrived i inside)
  · rfl

/-- An accepted block of the body joins the blocks the receiver holds. -/
theorem accept {b : Issued} (block : IsBlockOf body.length szx b)
    (accepts : QAccepts t q b.1 b.2.2 capacity) {slot' : BodySlot κ capacity}
    (bytes : slot'.bytes = writeAt slot.bytes b.2.1 (chunk body b))
    (len : slot'.len = (t.qAccepted q b.1 b.2.2).filled) :
    Assembled body szx (accepted ++ [b]) (q.received b.1 b.2.2) (t.qAccepted q b.1 b.2.2) slot' := by
  obtain ⟨final, finalLen⟩ := q.received_final b.1 b.2.2
  have fits : b.2.1 + (chunk body b).length ≤ slot.bytes.length := by
    rw [length_chunk block, slot.length_bytes, block.offset_eq]
    exact accepts.room
  refine ⟨?_, h.role, h.szx_eq, rfl, ?_, received_sound h.sound accepts.below, ?_, ?_, ?_,
    ?_, rfl, ?_, len, h.retention⟩
  · intro a member
    rcases mem_append.mp member with old | new
    · exact h.blocks a old
    · rw [mem_singleton.mp new]
      exact block
  · rintro q' ⟨⟩
    exact q.received_bounds b.1 b.2.2 accepts.above (h.bounded q h.window).2
  · intro n
    rw [received_has accepts.above accepts.below, h.has_iff]
    simp only [mem_append, mem_singleton, or_and_right, exists_or, exists_eq_left,
      eq_comm (a := n)]
  · intro f
    rw [final]
    simp only [mem_append, mem_singleton, or_and_right, exists_or, exists_eq_left]
    cases more : b.1.more with
    | true =>
      rw [if_pos rfl, h.final_iff]
      simp
    | false =>
    -- an earlier final block has the same number
    rw [if_neg Bool.false_ne_true]
    constructor
    · rintro ⟨⟩
      exact .inr ⟨rfl, rfl⟩
    rintro (⟨a, member, last, rfl⟩ | ⟨-, rfl⟩)
    · have other := h.blocks a member
      rw [Nat.le_antisymm (block.num_le_of_last other last) (other.num_le_of_last block more)]
    · rfl
  · intro a member last
    rw [finalLen]
    rcases mem_append.mp member with old | new
    · cases more : b.1.more with
      | true => exact h.finalLen a old last
      | false =>
      have other := h.blocks a old
      have num := Nat.le_antisymm (block.num_le_of_last other last)
        (other.num_le_of_last block more)
      exact congrArg Prod.snd (IsBlockOf.range_eq block other num)
    rw [mem_singleton.mp new] at last ⊢
    rw [last]
    rfl
  · rw [← block.size_eq]
    rfl
  · intro i arrived
    rw [bytes, getElem?_writeAt _ _ _ fits, length_chunk block]
    split
    next inside =>
      rw [chunk, getElem?_take_of_lt (by omega), getElem?_drop,
        Nat.add_sub_cancel' inside.1]
    next outside => exact h.stored i ((arrived_append.mp arrived).resolve_right outside)

end

end Assembled

/-! ### The body pool -/

namespace BodyPool

theorem getElem?_modifySlot (pool : BodyPool κ capacity) {id : Nat}
    {f : BodySlot κ capacity → BodySlot κ capacity} {slot : BodySlot κ capacity}
    (found : pool.slots[id]? = some slot) : (pool.modifySlot id f).slots[id]? = some (f slot) := by
  simp only [modifySlot, getElem?_modify, if_true, found]
  rfl

/-- An acquired slot is occupied and empty. -/
theorem acquire_ok {pool pool' : BodyPool κ capacity} {id : Nat}
    (h : pool.acquire = some (id, pool')) : pool'.occ.isOccupied id = true ∧
      ∃ slot, pool'.slots[id]? = some slot ∧ slot.len = 0 ∧ slot.transfer = none := by
  unfold acquire at h
  split at h
  · cases h
  next id' occ acquired =>
  cases h
  obtain ⟨inside, -, occupied⟩ := Occupancy.acquire_some acquired
  have sized := pool.sized
  refine ⟨?_, ?_⟩
  · show (occ.occupied[id]?).getD false = true
    rw [occupied, getElem?_set_self inside]
    rfl
  · have found : pool.slots[id]? = some (pool.slots.get ⟨id, by omega⟩) := by simp
    exact ⟨_, getElem?_modifySlot _ found, rfl, rfl⟩

theorem storeIncoming_ok (slot : BodySlot κ capacity) {offset : Nat} (payload : List UInt8)
    (fits : offset + payload.length ≤ capacity) (contiguous : Option Nat) :
    ∃ slot', storeIncoming slot offset payload contiguous = .ok slot' ∧
      slot'.bytes = writeAt slot.bytes offset payload ∧
      slot'.len = contiguous.getD (offset + payload.length) ∧ slot'.transfer = slot.transfer := by
  unfold storeIncoming
  rw [dif_pos (by rwa [slot.length_bytes])]
  exact ⟨_, rfl, rfl, rfl, rfl⟩

/-- Slot `id` of the pool holds exactly the accepted blocks of the body. -/
def Holds (body : List UInt8) (szx : Nat) (role : BlockRole) (expectedLen : Option Nat)
    (accepted : List Issued) (pool : BodyPool κ capacity) (id : Nat) : Prop :=
  pool.occ.isOccupied id = true ∧ ∃ slot t q, pool.slots[id]? = some slot ∧
    slot.transfer = some t ∧ t.role = role ∧ t.expectedLen = expectedLen ∧
      Assembled body szx accepted q t slot

variable {body : List UInt8} {szx : Nat} {role : BlockRole} {expectedLen : Option Nat}
  {accepted : List Issued} {pool pool' : BodyPool κ capacity} {id : Nat} {b : Issued}

theorem writeIncoming_holds (holds : Holds body szx role expectedLen accepted pool id)
    (block : IsBlockOf body.length szx b) {progress : BlockProgress}
    (written : pool.writeIncoming id role b.1 (chunk body b) = (.ok progress, pool')) :
    Holds body szx role expectedLen (accepted ++ [b]) pool' id := by
  obtain ⟨occupied, slot, t, q, found, sidecar, rfl, expected, assembled⟩ := holds
  unfold writeIncoming acceptIncomingRole at written
  simp only [occupied, found, sidecar, assembled.role, Bool.not_true, Bool.false_eq_true, if_false,
    ne_eq, not_true_eq_false, if_true, length_chunk block] at written
  rcases acceptQIncoming_cases t assembled.bounded b.1 b.2.2 capacity with
    ⟨e, refused⟩ | ⟨q', accepts, accepted'⟩
  · rw [refused] at written
    cases written
  obtain rfl : q = q' := some.inj (assembled.window.symm.trans accepts.window)
  rw [accepted'] at written
  obtain ⟨slot', stored, bytes, len, transfer⟩ := storeIncoming_ok
    { slot with transfer := some (t.qAccepted q b.1 b.2.2) } (chunk body b) (by
      rw [length_chunk block]
      exact accepts.room) (some (t.qAccepted q b.1 b.2.2).filled)
  simp only [stored] at written
  cases written
  rw [← block.offset_eq] at bytes
  exact ⟨occupied, slot', _, _, getElem?_modifySlot _ found, transfer, rfl, expected,
    assembled.accept block accepts bytes len⟩

theorem writeIncoming_refused (holds : Holds body szx role expectedLen accepted pool id)
    {block : BlockValue} {payload : List UInt8} {e : BlockTransferError}
    (refused : pool.writeIncoming id role block payload = (.error e, pool')) : pool' = pool := by
  obtain ⟨occupied, slot, t, q, found, sidecar, rfl, -, assembled⟩ := holds
  have early : ¬ t.LateRefusal block payload.length capacity := by
    rintro (shrink | ⟨overrun, -⟩)
    · exact absurd (assembled.role.symm.trans shrink.classic) (by decide)
    · exact absurd (assembled.role.symm.trans overrun.classic) (by decide)
  have unchanged := (pool.writeIncoming_unchanged_iff occupied found sidecar assembled.bounded
    block payload).mpr early
  rw [refused] at unchanged
  exact unchanged e rfl

/-- A new incoming body holds no block before its first one is accepted. -/
theorem assembled_empty (body : List UInt8) (szx : Nat) (key : κ) (qBlock : role.isQBlock = true)
    (more : Bool) (expectedLen : Option Nat) (slot : BodySlot κ capacity) (empty : slot.len = 0) :
    Assembled body szx [] QWindow.empty
      { key, role, num := 0, szx, more, nextNum := 0, filled := 0, complete := false, expectedLen
        q := some QWindow.empty, qReceive := .none } slot := by
  refine ⟨nofun, qBlock, rfl, rfl, ?_, ⟨?_, rfl, ?_, nofun⟩, ?_, ?_, nofun, ?_, rfl, ?_, empty, rfl⟩
  · rintro q ⟨⟩
    exact ⟨Nat.zero_le _, nofun⟩
  · intro i set
    simp [QWindow.empty] at set
  · intro full
    exact absurd full (show 0#16 ≠ windowFull by decide)
  · intro n
    simp [QWindow.Has, QWindow.empty]
  · intro f
    simp [QWindow.empty]
  · have contig : QWindow.empty.contig = 0 := by decide
    rw [QWindow.filledLen, contig, Nat.zero_mul]
    rfl
  · rintro i ⟨b, member, -⟩
    cases member

theorem admitIncoming_holds {key : κ} (qBlock : role.isQBlock = true)
    (block : IsBlockOf body.length szx b)
    (admitted : pool.admitIncoming key role b.1 (chunk body b) expectedLen = (.ok id, pool')) :
    Holds body szx role expectedLen [b] pool' id := by
  unfold admitIncoming startIncoming incomingQ at admitted
  rw [if_pos qBlock, length_chunk block, block.notBert, block.szx_eq] at admitted
  split at admitted
  · cases admitted
  next t started =>
  split at admitted
  · cases admitted
  next id' acquired taken =>
  obtain ⟨occupied, slot, found, empty, -⟩ := acquire_ok taken
  simp only [qBlock, if_true, blockOffset_block, found] at admitted
  split at started
  · cases started
  simp only [Bool.false_eq_true, if_false] at started
  split at started
  · cases started
  next offset t' accepted' =>
  cases started
  have start := assembled_empty body szx key qBlock b.1.more expectedLen slot empty
  rcases acceptQIncoming_cases _ start.bounded b.1 b.2.2 capacity with
    ⟨e, refused⟩ | ⟨q, accepts, result⟩
  · rw [refused] at accepted'
    cases accepted'
  obtain rfl : QWindow.empty = q := some.inj accepts.window
  rw [result] at accepted'
  cases accepted'
  obtain ⟨slot', stored, bytes, len, transfer⟩ := storeIncoming_ok slot (chunk body b)
    (by
      rw [length_chunk block]
      exact accepts.room)
    (some (qAccepted ⟨key, role, 0, szx, b.1.more, 0, 0, false, expectedLen,
      some QWindow.empty, .none⟩ QWindow.empty b.1 b.2.2).filled)
  simp only [stored] at admitted
  cases admitted
  rw [← block.offset_eq] at bytes
  exact ⟨occupied, _, _, _, getElem?_modifySlot _ found, rfl, rfl, rfl,
    start.accept block accepts bytes len⟩

/-- A block of the current window that has not been accepted yet is accepted. -/
theorem writeIncoming_accepts (room : body.length ≤ capacity)
    (expected : expectedLen = none ∨ expectedLen = some body.length)
    (holds : Holds body szx role expectedLen accepted pool id) {t : BlockTransfer κ}
    (sidecar : pool.transfer id = some t) (incomplete : t.complete = false)
    (block : IsBlockOf body.length szx b) (new : b ∉ accepted)
    (current : b.1.num / maxPayloads = t.filled / b.1.size / maxPayloads) :
    ∃ progress, (pool.writeIncoming id role b.1 (chunk body b)).1 = .ok progress := by
  obtain ⟨occupied, slot, t', q, found, sidecar', rfl, expectedEq, assembled⟩ := holds
  obtain rfl : t' = t := by
    rw [transfer, if_pos occupied, found, bind_some, sidecar'] at sidecar
    exact some.inj sidecar
  have sizePos := b.1.size_bounds.1
  have ends := block.end_le
  have filled := (assembled.filled_of_incomplete incomplete).1
  rw [filled, block.size_eq, Nat.mul_div_cancel _ (by rw [← block.size_eq]; omega)] at current
  have contigLt := contig_lt assembled.sound (assembled.complete ▸ incomplete)
  have aligned := assembled.sound.aligned
  have contigGe : q.base ≤ q.contig := Nat.le_add_right _ _
  have ten : maxPayloads = 10 := rfl
  rw [ten] at current aligned
  have above : q.base ≤ b.1.num := by omega
  have below : b.1.num < q.base + maxPayloads := by omega
  have accepts : QAccepts t' q b.1 b.2.2 capacity := by
    refine ⟨assembled.role, block.notBert, incomplete, block.szx_eq.trans assembled.szx_eq.symm,
      assembled.window, above, below, ?_, ?_, ?_, ?_, ?_, ?_⟩
    · rw [← Bool.not_eq_true]
      intro set
      obtain ⟨a, member, num⟩ := (assembled.has_iff b.1.num).mp (.inr ⟨above, set⟩)
      exact new (IsBlockOf.eq_of_num (assembled.blocks a member) block num ▸ member)
    · intro f final
      obtain ⟨a, member, last, rfl⟩ := (assembled.final_iff f).mp final
      exact block.num_le_of_last (assembled.blocks a member) last
    · intro last j after _ _
      rw [← Bool.not_eq_true]
      intro set
      obtain ⟨a, member, num⟩ := (assembled.has_iff (q.base + j)).mp
        (.inr ⟨Nat.le_add_right _ _, by rwa [Nat.add_sub_cancel_left]⟩)
      have := (assembled.blocks a member).num_le_of_last block last
      omega
    · cases more : b.1.more with
      | true => simp [BlockValue.refusesLength, more, block.len_of_more more]
      | false => simp [BlockValue.refusesLength, more, ends.2]
    · rw [← block.offset_eq]
      omega
    intro n given
    rw [expectedEq] at given
    rw [← block.offset_eq]
    rcases expected with none | some
    · rw [none] at given
      cases given
    · obtain rfl : body.length = n := Option.some.inj (some.symm.trans given)
      exact ⟨ends.1, block.end_of_last⟩
  obtain ⟨offset, ok⟩ := acceptQIncoming_of_accepts accepts assembled.bounded
  cases result : t'.acceptQIncoming b.1 b.2.2 capacity with
  | mk outcome next =>
  rw [result] at ok
  simp only at ok
  subst ok
  have fits := acceptIncomingRole_room assembled.bounded (by
    rw [acceptIncomingRole, if_pos assembled.role]
    exact result)
  obtain ⟨slot', stored, -⟩ := storeIncoming_ok { slot with transfer := some next } (chunk body b)
    (by rwa [length_chunk block]) (some next.filled)
  unfold writeIncoming acceptIncomingRole
  simp only [occupied, found, sidecar', assembled.role, Bool.not_true, Bool.false_eq_true, if_false,
    ne_eq, not_true_eq_false, if_true, length_chunk block, result, stored]
  exact ⟨_, rfl⟩

end BodyPool

end Coaptic.Block
