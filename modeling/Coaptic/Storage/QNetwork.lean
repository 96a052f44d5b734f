import Coaptic.Storage.QBlock

/-!
# A Q-Block transfer, sender to receiver

The sender issues, paces, is acknowledged and reissues in any order. The network loses,
repeats and reorders what was issued: a delivery picks any block emitted so far. The receiver
admits the body with the first block it can use and writes the later ones into its slot.
-/
namespace Coaptic.Block

open BlockTransfer BodyPool

variable {κ κ' : Type} {capacity : Nat}

/-- The role at the other end of a transfer. -/
def BlockRole.peer : BlockRole → BlockRole
  | incomingBlock1 => outgoingBlock1
  | incomingBlock2 => outgoingBlock2
  | incomingQBlock1 => outgoingQBlock1
  | incomingQBlock2 => outgoingQBlock2
  | outgoingBlock1 => incomingBlock1
  | outgoingBlock2 => incomingBlock2
  | outgoingQBlock1 => incomingQBlock1
  | outgoingQBlock2 => incomingQBlock2

@[simp] theorem BlockRole.isQBlock_peer (role : BlockRole) :
    role.peer.isQBlock = role.isQBlock := by
  cases role <;> rfl

@[simp] theorem BlockRole.isIncoming_peer (role : BlockRole) :
    role.peer.isIncoming = role.isOutgoing := by
  cases role <;> rfl

/-- The sender, every block it put on the wire so far, and the receiver: its pool, the slot of
the body once it was admitted, and the blocks that were accepted. -/
structure Transmission (κ κ' : Type) (capacity : Nat) where
  sender : BlockTransfer κ
  emitted : List Issued
  pool : BodyPool κ' capacity
  id : Option Nat
  accepted : List Issued

/-- What can happen next. Every call may also be refused. -/
inductive Event
  | issue
  | pace
  | ack (num : Nat)
  | reissue (num : Nat)
  | deliver (issued : Issued)
deriving DecidableEq

namespace Transmission

def start (sender : BlockTransfer κ) (pool : BodyPool κ' capacity) : Transmission κ κ' capacity :=
  ⟨sender, [], pool, none, []⟩

variable (body : List UInt8) (key : κ') (expectedLen : Option Nat)

def deliver (s : Transmission κ κ' capacity) (issued : Issued) : Transmission κ κ' capacity :=
  match s.id with
  | none =>
    match s.pool.admitIncoming key s.sender.role.peer issued.1 (chunk body issued) expectedLen with
    | (.ok id, pool) => { s with pool, id := some id, accepted := s.accepted ++ [issued] }
    | (.error _, pool) => { s with pool }
  | some id =>
    match s.pool.writeIncoming id s.sender.role.peer issued.1 (chunk body issued) with
    | (.ok _, pool) => { s with pool, accepted := s.accepted ++ [issued] }
    | (.error _, pool) => { s with pool }

def step (s : Transmission κ κ' capacity) : Event → Transmission κ κ' capacity
  | .issue =>
    match s.sender.issueQOutgoing with
    | (.ok issued, sender) => { s with sender, emitted := s.emitted ++ [issued] }
    | (.error _, sender) => { s with sender }
  | .pace => { s with sender := s.sender.paceQBlock1.2 }
  | .ack num => { s with sender := (s.sender.ackQWindow num).2 }
  | .reissue num =>
    match s.sender.reissueQOutgoing num with
    | .ok issued => { s with emitted := s.emitted ++ [issued] }
    | .error _ => s
  | .deliver issued => if issued ∈ s.emitted then s.deliver body key expectedLen issued else s

/-! ### The invariant -/

/-- The sender still sends this body, everything emitted is a block of it, and the receiver
holds exactly what it accepted. -/
structure Inv (szx : Nat) (role : BlockRole) (s : Transmission κ κ' capacity) : Prop where
  szx_eq : s.sender.szx = szx
  filled : s.sender.filled = body.length
  role_eq : s.sender.role = role
  emitted : ∀ b ∈ s.emitted, IsBlockOf body.length szx b
  none : s.id = none → s.accepted = []
  some : ∀ id, s.id = some id → s.pool.Holds body szx role.peer expectedLen s.accepted id

variable {body key expectedLen} {szx : Nat} {role : BlockRole}
  {s : Transmission κ κ' capacity}

section

variable (inv : Inv body expectedLen szx role s)
include inv

/-- Sender steps keep the invariant as long as they send the same body and emit its blocks. -/
theorem Inv.send {sender : BlockTransfer κ} (same : SameBody s.sender sender)
    {emitted : List Issued} (blocks : ∀ b ∈ emitted, IsBlockOf body.length szx b) :
    Inv body expectedLen szx role { s with sender, emitted } :=
  ⟨same.1.trans inv.szx_eq, same.2.1.trans inv.filled, same.2.2.trans inv.role_eq, blocks,
    inv.none, inv.some⟩

theorem Inv.emit (notBert : szx ≠ szxBert) {num : Nat} {issued : Issued}
    (range : s.sender.outgoingRange num = .ok issued) :
    ∀ b ∈ s.emitted ++ [issued], IsBlockOf body.length szx b := by
  have block := (outgoingRange_ok (inv.szx_eq ▸ notBert) range).1
  rw [inv.filled, inv.szx_eq] at block
  intro b member
  rcases List.mem_append.mp member with old | new
  · exact inv.emitted b old
  · rw [List.mem_singleton.mp new]
    exact block

theorem Inv.deliver (qBlock : role.isQBlock = true) {issued : Issued}
    (block : IsBlockOf body.length szx issued) :
    Inv body expectedLen szx role (s.deliver body key expectedLen issued) := by
  unfold Transmission.deliver
  rw [inv.role_eq]
  split
  next unset =>
    split
    next id pool admitted =>
      refine ⟨inv.szx_eq, inv.filled, inv.role_eq, inv.emitted, nofun, ?_⟩
      rintro id ⟨⟩
      rw [inv.none unset]
      exact admitIncoming_holds (by rwa [BlockRole.isQBlock_peer]) block admitted
    · refine ⟨inv.szx_eq, inv.filled, inv.role_eq, inv.emitted, inv.none, ?_⟩
      intro id given
      exact absurd (unset.symm.trans given) nofun
  next id given =>
    have holds := inv.some id given
    split
    next progress pool written =>
      refine ⟨inv.szx_eq, inv.filled, inv.role_eq, inv.emitted, ?_, ?_⟩
      · intro unset
        exact absurd (unset.symm.trans given) nofun
      intro id' given'
      obtain rfl : id = id' := Option.some.inj (given.symm.trans given')
      exact writeIncoming_holds holds block written
    next e pool refused =>
      obtain rfl := writeIncoming_refused holds refused
      exact inv

theorem Inv.step (notBert : szx ≠ szxBert) (qBlock : role.isQBlock = true) (event : Event) :
    Inv body expectedLen szx role (s.step body key expectedLen event) := by
  cases event with
  | issue =>
    have same := sameBody_issueQOutgoing s.sender
    simp only [Transmission.step]
    cases issue : s.sender.issueQOutgoing with
    | mk outcome sender =>
    rw [issue] at same
    cases outcome with
    | ok issued =>
      obtain ⟨num, range⟩ := issueQOutgoing_ok issue
      exact inv.send same (inv.emit notBert range)
    | error e => exact inv.send same inv.emitted
  | pace => exact inv.send (sameBody_paceQBlock1 s.sender) inv.emitted
  | ack num => exact inv.send (sameBody_ackQWindow s.sender num) inv.emitted
  | reissue num =>
    simp only [Transmission.step]
    cases reissue : s.sender.reissueQOutgoing num with
    | ok issued => exact inv.send (.refl _) (inv.emit notBert (reissueQOutgoing_ok reissue))
    | error e => exact inv
  | deliver issued =>
  simp only [Transmission.step]
  split
  next member => exact inv.deliver qBlock (inv.emitted issued member)
  · exact inv

end

theorem inv_run {senderKey : κ} {senderCapacity : Nat} {sender : BlockTransfer κ}
    (started : outgoingQ senderKey role body.length szx senderCapacity = .ok sender)
    (pool : BodyPool κ' capacity) (events : List Event) : Inv body expectedLen szx role
      (Run.run (step body key expectedLen) (start sender pool) events) := by
  obtain ⟨szxEq, filled, roleEq, notBert, -, qBlock⟩ := outgoingQ_ok started
  refine Run.invariant_run (fun s event inv => inv.step notBert qBlock event) ?_ events
  exact ⟨szxEq, filled, roleEq, nofun, fun _ => rfl, nofun⟩

end Transmission

/-! ### Reassembly -/

/-- Whatever the sender does and the network loses, repeats or reorders, the receiver's filled
length is the longest prefix of the body that was received without a gap, its bytes there are
the body's, and a complete receiver holds the body. A block of the receiver's current window
that it does not have yet is always accepted. -/
theorem qBlock_reassembly {body : List UInt8} {szx senderCapacity : Nat} {role : BlockRole}
    {senderKey : κ} {sender : BlockTransfer κ}
    (started : outgoingQ senderKey role body.length szx senderCapacity = .ok sender)
    {expectedLen : Option Nat} (expected : expectedLen = none ∨ expectedLen = some body.length)
    (room : body.length ≤ capacity) (pool : BodyPool κ' capacity) (key : κ') (events : List Event)
    {s : Transmission κ κ' capacity}
    (reached : s = Run.run (Transmission.step body key expectedLen) (.start sender pool) events) :
    (s.id = none → s.accepted = []) ∧
    ∀ id, s.id = some id → ∃ t, s.pool.transfer id = some t ∧
      IsGreatest {n | n ≤ body.length ∧ ∀ i < n, Arrived s.accepted i} t.filled ∧
      s.pool.payload id = some (body.take t.filled) ∧
      (t.complete = true → t.filled = body.length ∧ s.pool.payload id = some body) ∧
      ∀ b ∈ s.emitted, b ∉ s.accepted → t.complete = false →
        b.1.num / maxPayloads = t.filled / b.1.size / maxPayloads →
          ∃ progress, (s.pool.writeIncoming id role.peer b.1 (chunk body b)).1 = .ok progress := by
  have inv : s.Inv body expectedLen szx role := by
    rw [reached]
    exact Transmission.inv_run started pool events
  refine ⟨inv.none, ?_⟩
  intro id given
  obtain ⟨occupied, slot, t, q, found, sidecar, roleEq, expectedEq, assembled⟩ := inv.some id given
  have transfer : s.pool.transfer id = some t := by
    rw [BodyPool.transfer, if_pos occupied, found, Option.bind_some, sidecar]
  have payload : s.pool.payload id = some (body.take t.filled) := by
    rw [← assembled.visible_eq, BodyPool.payload, if_pos occupied, found, Option.map_some, sidecar]
    have retention := assembled.retention
    split
    next given =>
      cases given
      cases retention
    · rfl
  refine ⟨t, transfer, assembled.filled_isGreatest, payload, ?_, ?_⟩
  · intro complete
    have all := (assembled.filled_of_complete complete).1
    exact ⟨all, by rw [payload, all, List.take_length]⟩
  intro b emitted new incomplete current
  exact BodyPool.writeIncoming_accepts room expected (inv.some id given) transfer incomplete
    (inv.emitted b emitted) new current

def onePool : BodyPool Unit 32 :=
  ⟨[⟨List.replicate 32 0, List.length_replicate, 0, none⟩], .new 1, rfl⟩

def twentyBytes : List UInt8 := (List.range 20).map UInt8.ofNat

def twentySender : BlockTransfer Unit :=
  { key := (), role := .outgoingQBlock1, num := 0, szx := 0, more := false, nextNum := 0
    filled := 20, complete := false, expectedLen := some 20, q := some .empty, qReceive := .none }

/-- Two blocks of sixteen and four bytes, delivered last one first. -/
def swapped : List Event :=
  [.issue, .issue, .deliver (⟨1, false, 0, by decide, by decide⟩, 16, 4),
    .deliver (⟨0, true, 0, by decide, by decide⟩, 0, 16)]

theorem qBlock_reassembly_swapped :
    outgoingQ () .outgoingQBlock1 twentyBytes.length 0 32 = .ok twentySender ∧
      (Run.run (Transmission.step twentyBytes () none) (.start twentySender onePool)
        swapped).pool.payload 0 = some twentyBytes := by
  have started : outgoingQ () .outgoingQBlock1 twentyBytes.length 0 32 = .ok twentySender := rfl
  obtain ⟨t, transfer, -, -, complete, -⟩ :=
    (qBlock_reassembly started (.inl rfl) (by decide) onePool () swapped rfl).2 0 (by decide)
  have finished : (Run.run (Transmission.step twentyBytes () none)
      (.start twentySender onePool) swapped).pool.transfer 0 |>.any (·.complete) := by decide
  rw [transfer] at finished
  exact ⟨started, (complete finished).2⟩

end Coaptic.Block
