import Coaptic.Storage.Bodies
import Coaptic.Storage.Observe

/-!
# Replacing a notification in flight

A Confirmable notification that is still being retransmitted can be replaced by a newer
representation: in its datagram slot, on its Observe row and, if it is sent block-wise, in its
retained body. The checks stand between the writes. What is shown here is that a refusal at any
of them leaves everything a caller can see as it was, and that a replacement that returns has
changed all of it and kept the timer.
-/
namespace Coaptic.Observe

open Codec Block Pending Option OutgoingPool ObserveTable TxMemory
open OutgoingPool (payload_seen release_of_seen release_ok transfer_seen)

/-- The two owned backends. Only the allocated one can be built without body pools and still
offers the block-wise replacement. -/
inductive Backend
  | fixed
  | alloc
deriving DecidableEq

/-- The areas of storage that a replacement reads or writes. `ι` is what a transfer retains with
its body, `ρ` what an Observe row retains of its registration. -/
structure Storage (maxLen : Nat) (ρ ι : Type) (rxBytes txBytes : Nat) where
  backend : Backend
  tx : TxMemory
  observe : ObserveTable maxLen ρ
  rxBody : Option (BodyPool (BlockKey maxLen ι) rxBytes)
  txBody : Option (OutgoingPool (BlockKey maxLen ι) txBytes)

namespace Storage

variable {maxLen : Nat} {ρ ι : Type} {rxBytes txBytes : Nat}

/-! ### The packet and the row -/

section

variable (s : Storage maxLen ρ ι rxBytes txBytes)

def txBodyPayload (id : Nat) : Option (List UInt8) :=
  s.txBody.bind (·.payload id)

def txBodyTransfer (id : Nat) : Option (BlockTransfer (BlockKey maxLen ι)) :=
  s.txBody.bind (·.transfer id)

def replacePendingCon (s : Storage maxLen ρ ι rxBytes txBytes) (expected : PendingCon)
    (bytes : List UInt8) : Except ReplaceError PendingCon × Storage maxLen ρ ι rxBytes txBytes :=
  match s.tx.replacePendingCon expected bytes with
  | (outcome, tx) => (outcome, { s with tx })

/-- The checks of the row: it is the one presented, it waits for the presented message, and the
replacement waits for the new one. Returns the row's place. -/
def validateObserveReplacement [DecidableEq ρ] (s : Storage maxLen ρ ι rxBytes txBytes)
    (pending : PendingCon) (original replacement : ObserveInterest maxLen ρ) (bytes : List UInt8) :
    Except ReplaceError Nat :=
  match s.observe.lookup original.key with
  | none => .error .stale
  | some id =>
  if s.observe.entry id ≠ some original ∨ original.key.endpoint ≠ pending.endpoint ∨
      original.holdMid ≠ some pending.messageId ∨ replacement.key ≠ original.key then
    .error .stale
  else
    match decodeWithToken maxLen bytes with
    | .error _ => .error .invalidMessage
    | .ok parsed =>
    if replacement.holdMid ≠ some parsed.header.id ∨ parsed.token ≠ original.key.token then
      .error .invalidMessage
    else .ok id

/-- The row is written. Its place has been found occupied. -/
def setObserveInterest (id : Nat) (row : ObserveInterest maxLen ρ) :
    Storage maxLen ρ ι rxBytes txBytes :=
  match s.observe.setEntry id row with
  | .error _ => s
  | .ok observe => { s with observe }

def replaceObserveCon [DecidableEq ρ] (s : Storage maxLen ρ ι rxBytes txBytes)
    (pending : PendingCon) (original replacement : ObserveInterest maxLen ρ) (bytes : List UInt8) :
    Except ReplaceError Unit × Storage maxLen ρ ι rxBytes txBytes :=
  match s.validateObserveReplacement pending original replacement bytes with
  | .error e => (.error e, s)
  | .ok id =>
  match s.replacePendingCon pending bytes with
  | (.error e, s) => (.error e, s)
  | (.ok _, s) => (.ok (), s.setObserveInterest id replacement)

/-! ### The body -/

/-- The body of a classic block-wise notification to this observer. -/
def isNotificationBody (key : ObserveKey maxLen) (t : BlockTransfer (BlockKey maxLen ι)) : Bool :=
  t.role = .outgoingBlock2 ∧ t.key.endpoint = key.endpoint ∧ t.key.token = key.token

def retained (key : ObserveKey maxLen) : Option Nat :=
  (List.range ((s.txBody.map (·.pool.slots.length)).getD 0)).find? fun id =>
    (s.txBodyTransfer id).any (isNotificationBody key)

/-- The slot for the new body: the previous one if it can be overwritten, otherwise a new one. -/
def prepareBody [Inhabited ι] (s : Storage maxLen ρ ι rxBytes txBytes) (key : ObserveKey maxLen)
    (previous : Option Nat) (transfer : BlockTransfer (BlockKey maxLen ι)) (payload : List UInt8) :
    Except ReplaceError Nat × Storage maxLen ρ ι rxBytes txBytes :=
  match previous, s.txBody with
  | some id, txBody =>
    if !(s.txBodyTransfer id).any (isNotificationBody key) then (.error .stale, s)
    else
      match txBody with
      | none => (.error (.slot .invalidSlot), s)
      | some bodies =>
        match bodies.accessMut id with
        | .error e => (.error (.slot e), s)
        | .ok bodies =>
          (if txBytes < payload.length then .error (.slot .lengthExceedsSlot) else .ok id,
            { s with txBody := some bodies })
  | none, none => (.error (.body .noBodyPools), s)
  | none, some bodies =>
    match bodies.startOutgoing { transfer.key with sidecar := default } .outgoingBlock2 payload
        transfer.szx with
    | (.error e, bodies) => (.error (.body e), { s with txBody := some bodies })
    | (.ok id, bodies) => (.ok id, { s with txBody := some bodies })

/-- One of the writes to a body that the checks have shown to succeed. -/
def updateBodies (f : OutgoingPool (BlockKey maxLen ι) txBytes →
    Except SlotError (OutgoingPool (BlockKey maxLen ι) txBytes)) :
    Storage maxLen ρ ι rxBytes txBytes :=
  match s.txBody with
  | none => s
  | some bodies =>
  match f bodies with
  | .error _ => s
  | .ok bodies => { s with txBody := some bodies }

/-- The writes that follow the packet's: bytes of a body that is used again, its transfer, the
row. A transfer that the packet has completed needs no body. -/
def commitBody (previous : Option Nat) (id row : Nat) (replacement : ObserveInterest maxLen ρ)
    (transfer : BlockTransfer (BlockKey maxLen ι)) (payload : List UInt8) :
    Storage maxLen ρ ι rxBytes txBytes :=
  let s := if previous.isSome then s.updateBodies (·.overwrite id payload) else s
  let s := s.updateBodies (·.setTransfer id transfer)
  let s := s.setObserveInterest row replacement
  if transfer.complete then s.updateBodies (·.release id) else s

end

/-- Replace a pending Confirmable, its Observe row and its body, on either owned backend. -/
def replaceOwnedObserveBody [DecidableEq ρ] [Inhabited ι] (s : Storage maxLen ρ ι rxBytes txBytes)
    (pending : PendingCon) (original replacement : ObserveInterest maxLen ρ) (bytes : List UInt8)
    (previous : Option Nat) (transfer : BlockTransfer (BlockKey maxLen ι)) (payload : List UInt8) :
    Except ReplaceError Unit × Storage maxLen ρ ι rxBytes txBytes :=
  match s.validateObserveReplacement pending original replacement bytes with
  | .error e => (.error e, s)
  | .ok row =>
  if !isNotificationBody original.key transfer ∨ transfer.filled ≠ payload.length then
    (.error .invalidMessage, s)
  else if s.retained original.key ≠ previous then (.error .stale, s)
  else
  match s.prepareBody original.key previous transfer payload with
  | (.error e, s) => (.error e, s)
  | (.ok id, s) =>
  match s.replacePendingCon pending bytes with
  -- a body that was acquired for the new representation is given back
  | (.error e, s) => (.error e, if previous.isNone then s.updateBodies (·.release id) else s)
  | (.ok _, s) => (.ok (), s.commitBody previous id row replacement transfer payload)

def replaceObserveBody [DecidableEq ρ] [Inhabited ι] (s : Storage maxLen ρ ι rxBytes txBytes)
    (pending : PendingCon) (original replacement : ObserveInterest maxLen ρ) (bytes : List UInt8)
    (previous : Option Nat) (transfer : BlockTransfer (BlockKey maxLen ι)) (payload : List UInt8) :
    Except ReplaceError Unit × Storage maxLen ρ ι rxBytes txBytes :=
  match s.backend, s.txBody with
  | .fixed, none => (.error .unsupported, s)
  | _, _ => s.replaceOwnedObserveBody pending original replacement bytes previous transfer payload

/-! ### What a caller sees afterwards -/

/-- Everything a caller can see of the two storages is the same. -/
structure Agrees (s s' : Storage maxLen ρ ι rxBytes txBytes) : Prop where
  tx : s'.tx = s.tx
  observe : s'.observe = s.observe
  rxBody : s'.rxBody = s.rxBody
  payload : ∀ id, s'.txBodyPayload id = s.txBodyPayload id
  transfer : ∀ id, s'.txBodyTransfer id = s.txBodyTransfer id

/-- The slot of `pending` holds `bytes`, a Confirmable with Message ID `mid`, on the timer that
`pending` had. -/
structure PacketReplaced (s s' : Storage maxLen ρ ι rxBytes txBytes) (pending : PendingCon)
    (bytes : List UInt8) (mid : MessageId) : Prop where
  before : s.tx.pendingCon pending.txSlot = some pending
  message : ∃ msg, extendedDecode bytes = .ok msg ∧ msg.header.ty = .confirmable ∧ msg.header.id = mid
  slot : s'.tx.slot pending.txSlot = some ⟨bytes, some pending.endpoint, some ⟨mid, pending.rto⟩⟩
  others : ∀ id, id ≠ pending.txSlot → s'.tx.slot id = s.tx.slot id

/-- The row is the replacement, which waits for `mid`. -/
structure RowReplaced (s s' : Storage maxLen ρ ι rxBytes txBytes)
    (original replacement : ObserveInterest maxLen ρ) (mid : MessageId) (id : Nat) : Prop where
  before : s.observe.entry id = some original
  row : s'.observe.entry id = some replacement
  hold : replacement.holdMid = some mid
  key : replacement.key = original.key
  others : ∀ j, j ≠ id → s'.observe.entry j = s.observe.entry j

/-- The body in slot `id` is the new one, or the slot is free because the packet has all of it. -/
structure BodyReplaced (s s' : Storage maxLen ρ ι rxBytes txBytes) (previous : Option Nat)
    (transfer : BlockTransfer (BlockKey maxLen ι)) (payload : List UInt8) (id : Nat) : Prop where
  slot : previous = some id ∨ previous = none ∧ s.txBodyPayload id = none
  payload : s'.txBodyPayload id = if transfer.complete then none else some payload
  transfer : s'.txBodyTransfer id =
    if transfer.complete then none else some transfer.withoutStaticBody
  others : ∀ j, j ≠ id → s'.txBodyPayload j = s.txBodyPayload j ∧
    s'.txBodyTransfer j = s.txBodyTransfer j

/-! ### The steps -/

variable {s s' s'' : Storage maxLen ρ ι rxBytes txBytes}

theorem Agrees.refl (s : Storage maxLen ρ ι rxBytes txBytes) : s.Agrees s :=
  ⟨rfl, rfl, rfl, fun _ => rfl, fun _ => rfl⟩

variable {original replacement : ObserveInterest maxLen ρ} {bytes : List UInt8}
  {pending : PendingCon}

/-- A replacement that is admitted is a Confirmable, and brings its Message ID. -/
theorem message_of_validate {current : Option PendingCon} {original : Option (List UInt8)}
    {capacity : Nat} {pinned : Bool} {expected next : PendingCon}
    (h : validateReplacement expected current original bytes capacity pinned = .ok next) :
    ∃ msg, extendedDecode bytes = .ok msg ∧ msg.header.ty = .confirmable ∧
      next = { expected with messageId := msg.header.id } := by
  revert h
  fun_cases validateReplacement expected current original bytes capacity pinned with
  | case8 _ _ _ _ _ msg decoded _ valid =>
    rintro ⟨⟩
    push Not at valid
    exact ⟨msg, decoded, valid.2.2.2.1, rfl⟩
  | _ => exact nofun

/-- The packet is refused as it was, or replaced. -/
theorem replacePendingCon_cases (s : Storage maxLen ρ ι rxBytes txBytes) (pending : PendingCon)
    (bytes : List UInt8) : (∃ e, s.replacePendingCon pending bytes = (.error e, s)) ∨
      ∃ next tx, s.replacePendingCon pending bytes = (.ok next, { s with tx }) ∧
        s.PacketReplaced { s with tx } pending bytes next.messageId := by
  simp only [replacePendingCon, TxMemory.replacePendingCon]
  split
  next e _ => exact .inl ⟨e, rfl⟩
  next next admitted =>
  right
  have current := validateReplacement_ok admitted
  obtain ⟨msg, decoded, con, rfl⟩ := message_of_validate admitted
  obtain ⟨slot, at_, -, peer, -⟩ := pendingCon_eq_some.mp current
  refine ⟨_, _, rfl, current, ⟨msg, decoded, con, rfl⟩, ?_, ?_⟩
  · simp only [slot_modifySlot, if_true, at_, map_some, peer]
  · intro id other
    simp only [slot_modifySlot, if_neg other]

/-- The row that the checks have found. -/
theorem validateObserveReplacement_ok [DecidableEq ρ] {id : Nat}
    (h : s.validateObserveReplacement pending original replacement bytes = .ok id) :
    s.observe.entry id = some original ∧ replacement.key = original.key ∧
      ∃ msg, extendedDecode bytes = .ok msg ∧ replacement.holdMid = some msg.header.id := by
  revert h
  fun_cases validateObserveReplacement s pending original replacement bytes with
  | case5 _ _ found parsed decoded same =>
    rintro ⟨⟩
    push Not at found same
    -- both decoders read the same header
    revert decoded
    fun_cases decodeWithToken maxLen bytes with
    | case3 parts split_ =>
      rintro ⟨⟩
      have read : extendedDecode bytes =
          .ok ⟨parts.header, parts.token, parts.options, parts.payload⟩ := by
        rw [extendedDecode, split_]
        rfl
      exact ⟨found.1, found.2.2.2, _, read, same.1⟩
    | _ => exact nofun
  | _ => exact nofun

theorem setObserveInterest_eq {id : Nat} {row : ObserveInterest maxLen ρ}
    (h : s.observe.entry id = some row) (replacement : ObserveInterest maxLen ρ) :
    s.setObserveInterest id replacement =
      { s with observe := s.observe.write id (some replacement) } := by
  rw [setObserveInterest, setEntry_of_entry h]

/-- Writing the row that the checks have found. -/
theorem RowReplaced.of_validate [DecidableEq ρ] {id : Nat}
    (h : s.validateObserveReplacement pending original replacement bytes = .ok id) {mid : MessageId}
    (message : ∃ msg, extendedDecode bytes = .ok msg ∧ msg.header.ty = .confirmable ∧
      msg.header.id = mid)
    (written : s'.observe = s.observe.write id (some replacement)) :
    s.RowReplaced s' original replacement mid id := by
  obtain ⟨before, key, msg, decoded, hold⟩ := validateObserveReplacement_ok h
  obtain ⟨same, decoded', -, rfl⟩ := message
  rw [decoded] at decoded'
  cases decoded'
  have rows := entry_write (isOccupied_of_entry before) replacement
  refine ⟨before, ?_, hold, key, ?_⟩
  · rw [written, rows, if_pos rfl]
  · intro j other
    rw [written, rows, if_neg other]

/-- The slot prepared for the new body: the previous one, as it was, or a new one that already
has the bytes. -/
structure Ready (bodies bodies' : OutgoingPool (BlockKey maxLen ι) txBytes) (previous : Option Nat)
    (payload : List UInt8) (id : Nat) : Prop where
  others : ∀ j, j ≠ id → bodies'.seen j = bodies.seen j
  slot : (previous = some id ∧ bodies'.seen id = bodies.seen id ∧ payload.length ≤ txBytes ∧
      bodies'.pool.occ.occupied[id]? = some true ∧ bodies'.pool.occ.pinned[id]? = some false) ∨
    (previous = none ∧ bodies.seen id = none ∧ bodies'.payload id = some payload ∧
      bodies'.pool.occ.pinned[id]?.getD false = false)

/-- Bodies that are all seen as they were. -/
theorem Agrees.of_seen {bodies bodies' : OutgoingPool (BlockKey maxLen ι) txBytes}
    (isBodies : s.txBody = some bodies) (same : ∀ id, bodies'.seen id = bodies.seen id) :
    s.Agrees { s with txBody := some bodies' } := by
  refine ⟨rfl, rfl, rfl, fun id => ?_, fun id => ?_⟩
  · simp only [txBodyPayload, isBodies, bind_some, payload_seen, same]
  · simp only [txBodyTransfer, isBodies, bind_some, transfer_seen, same]

/-- A refusal to prepare the body changes nothing that is seen; otherwise a slot is ready. -/
theorem prepareBody_cases [Inhabited ι] (s : Storage maxLen ρ ι rxBytes txBytes)
    (key : ObserveKey maxLen) (previous : Option Nat)
    (transfer : BlockTransfer (BlockKey maxLen ι)) (payload : List UInt8)
    {outcome : Except ReplaceError Nat}
    (h : s.prepareBody key previous transfer payload = (outcome, s')) :
    (∃ e, outcome = .error e ∧ s.Agrees s') ∨
      ∃ id bodies bodies', outcome = .ok id ∧ s.txBody = some bodies ∧
        s' = { s with txBody := some bodies' } ∧ Ready bodies bodies' previous payload id := by
  simp only [prepareBody] at h
  split at h
  · split at h
    · cases h
      exact .inl ⟨_, rfl, .refl _⟩
    split at h
    · cases h
      exact .inl ⟨_, rfl, .refl _⟩
    next bodies isBodies =>
    split at h
    · cases h
      exact .inl ⟨_, rfl, .refl _⟩
    next bodies' access =>
    obtain ⟨same, flags, taken, unpinned⟩ := accessMut_ok access
    split at h
    · cases h
      exact .inl ⟨_, rfl, .of_seen isBodies same⟩
    next fits =>
    cases h
    refine .inr ⟨_, bodies, bodies', rfl, isBodies, rfl, fun j _ => same j, .inl ?_⟩
    exact ⟨rfl, same _, Nat.not_lt.mp fits, by rw [flags, taken], by rw [flags, unpinned]⟩
  · cases h
    exact .inl ⟨_, rfl, .refl _⟩
  next bodies isBodies =>
    generalize started : bodies.startOutgoing _ _ _ _ = result at h
    obtain ⟨begun, bodies'⟩ := result
    obtain ⟨e, rfl, rfl⟩ | ⟨id, rfl, free, body, others, unpinned⟩ :=
      startOutgoing_cases _ _ _ _ _ started
    · cases h
      exact .inl ⟨_, rfl, .of_seen isBodies fun _ => rfl⟩
    · cases h
      exact .inr ⟨id, bodies, bodies', rfl, isBodies, rfl, others, .inr ⟨rfl, free, body, unpinned⟩⟩

theorem updateBodies_eq {bodies bodies' : OutgoingPool (BlockKey maxLen ι) txBytes}
    {f : OutgoingPool (BlockKey maxLen ι) txBytes →
      Except SlotError (OutgoingPool (BlockKey maxLen ι) txBytes)}
    (isBodies : s.txBody = some bodies) (h : f bodies = .ok bodies') :
    s.updateBodies f = { s with txBody := some bodies' } := by
  simp only [updateBodies, isBodies, h]

variable {bodies bodies' : OutgoingPool (BlockKey maxLen ι) txBytes} {previous : Option Nat}
  {payload : List UInt8} {id : Nat}

theorem seen_of_payload (h : bodies.payload id = some payload) : bodies.seen id ≠ none := by
  intro none
  rw [payload_seen, none] at h
  cases h

section

variable (ready : Ready bodies bodies' previous payload id)
include ready

/-- The way back from a prepared body: what is seen is what was seen before. -/
theorem Ready.rollback (isBodies : s.txBody = some bodies)
    (isReady : s' = { s with txBody := some bodies' }) :
    s.Agrees (if previous.isNone then s'.updateBodies (·.release id) else s') := by
  subst isReady
  rcases ready.slot with ⟨rfl, same, -⟩ | ⟨rfl, free, body, unpinned⟩
  · refine .of_seen isBodies fun j => ?_
    by_cases here : j = id
    · rw [here, same]
    · exact ready.others j here
  obtain ⟨after, released⟩ := release_of_seen (seen_of_payload body) unpinned
  obtain ⟨gone, others⟩ := release_ok released
  simp only [isNone_none, if_true]
  rw [updateBodies_eq rfl released]
  refine .of_seen isBodies fun j => ?_
  by_cases here : j = id
  · rw [here, gone, free]
  · rw [others j here, ready.others j here]

/-- A prepared slot takes the new bytes. -/
theorem Ready.write (isReady : s.txBody = some bodies') :
    ∃ written, (if previous.isSome then s.updateBodies (·.overwrite id payload) else s) =
        { s with txBody := some written } ∧
      written.payload id = some payload ∧ (∀ j, j ≠ id → written.seen j = bodies.seen j) ∧
      written.pool.occ.pinned[id]?.getD false = false := by
  rcases ready.slot with ⟨rfl, -, fits, taken, unpinned⟩ | ⟨rfl, -, body, unpinned⟩
  · obtain ⟨written, eq, body, others, flags⟩ := overwrite_ok fits taken unpinned
    refine ⟨written, updateBodies_eq isReady eq, body, ?_, by rw [flags, unpinned]; rfl⟩
    intro j other
    rw [others j other, ready.others j other]
  refine ⟨bodies', ?_, body, ready.others, unpinned⟩
  rw [← isReady]
  rfl

/-- Once the packet has been replaced, all the other writes are made. -/
theorem Ready.commit (isReady : s.txBody = some bodies') {row : Nat}
    (found : s.observe.entry row = some original) (replacement : ObserveInterest maxLen ρ)
    (transfer : BlockTransfer (BlockKey maxLen ι)) :
    ∃ after, s.commitBody previous id row replacement transfer payload =
        { s with txBody := some after, observe := s.observe.write row (some replacement) } ∧
      after.payload id = (if transfer.complete then none else some payload) ∧
      after.transfer id = (if transfer.complete then none else some transfer.withoutStaticBody) ∧
      ∀ j, j ≠ id → after.seen j = bodies.seen j := by
  obtain ⟨written, write, body, others, unpinned⟩ := ready.write isReady
  obtain ⟨retained, set, kept, described, shown, others', flags⟩ :=
    setTransfer_ok (seen_of_payload body) transfer
  have others : ∀ j, j ≠ id → retained.seen j = bodies.seen j := by
    intro j other
    rw [others' j other, others j other]
  have described_ : ({ s with txBody := some written } :
      Storage maxLen ρ ι rxBytes txBytes).updateBodies
      (·.setTransfer id transfer) = { s with txBody := some retained } := updateBodies_eq rfl set
  have row_ : ({ s with txBody := some retained } :
      Storage maxLen ρ ι rxBytes txBytes).setObserveInterest
      row replacement = { s with txBody := some retained
                                 observe := s.observe.write row (some replacement) } :=
    setObserveInterest_eq (s := { s with txBody := some retained }) found replacement
  simp only [commitBody, write, described_, row_]
  by_cases complete : transfer.complete
  · obtain ⟨after, released⟩ := release_of_seen shown (by rw [flags, unpinned])
    obtain ⟨gone, others'⟩ := release_ok released
    simp only [complete, if_true]
    rw [updateBodies_eq rfl released]
    refine ⟨after, rfl, ?_, ?_, ?_⟩
    · rw [payload_seen, gone]
      rfl
    · rw [transfer_seen, gone]
      rfl
    · intro j other
      rw [others' j other, others j other]
  · simp only [complete, Bool.false_eq_true, if_false]
    exact ⟨retained, rfl, kept.trans body, described, others⟩

/-- The body in the slot that was prepared for it. -/
theorem Ready.replaced (isBodies : s.txBody = some bodies)
    {after : OutgoingPool (BlockKey maxLen ι) txBytes} (isAfter : s'.txBody = some after)
    {transfer : BlockTransfer (BlockKey maxLen ι)}
    (body : after.payload id = if transfer.complete then none else some payload)
    (described : after.transfer id = if transfer.complete then none else some transfer.withoutStaticBody)
    (others : ∀ j, j ≠ id → after.seen j = bodies.seen j) :
    s.BodyReplaced s' previous transfer payload id := by
  refine ⟨?_, ?_, ?_, ?_⟩
  · rcases ready.slot with ⟨same, -⟩ | ⟨fresh, free, -⟩
    · exact .inl same
    refine .inr ⟨fresh, ?_⟩
    rw [txBodyPayload, isBodies, bind_some, payload_seen, free]
    rfl
  · rw [txBodyPayload, isAfter, bind_some, body]
  · rw [txBodyTransfer, isAfter, bind_some, described]
  intro j other
  simp only [txBodyPayload, txBodyTransfer, isBodies, isAfter, bind_some,
    payload_seen, transfer_seen, others j other, and_self]

end

section

variable (s : Storage maxLen ρ ι rxBytes txBytes)

/-- Packet and row, or neither. -/
theorem replaceObserveCon_cases [DecidableEq ρ] (pending : PendingCon)
    (original replacement : ObserveInterest maxLen ρ) (bytes : List UInt8) :
    (∃ e, s.replaceObserveCon pending original replacement bytes = (.error e, s)) ∨
      ∃ tx observe mid row, s.replaceObserveCon pending original replacement bytes =
          (.ok (), { s with tx, observe }) ∧
        s.PacketReplaced { s with tx, observe } pending bytes mid ∧
        s.RowReplaced { s with tx, observe } original replacement mid row := by
  simp only [replaceObserveCon]
  split
  · exact .inl ⟨_, rfl⟩
  next row valid =>
  rcases s.replacePendingCon_cases pending bytes with ⟨e, refused⟩ | ⟨next, tx, replaced, packet⟩
  · simp only [refused]
    exact .inl ⟨e, rfl⟩
  simp only [replaced]
  have found := (validateObserveReplacement_ok valid).1
  have written : ({ s with tx } : Storage maxLen ρ ι rxBytes txBytes).setObserveInterest row
      replacement = { s with tx, observe := s.observe.write row (some replacement) } :=
    setObserveInterest_eq (s := { s with tx }) found replacement
  rw [written]
  exact .inr ⟨tx, s.observe.write row (some replacement), _, row, rfl,
    { packet with },
    .of_validate valid packet.message rfl⟩

/-- Packet, row and body, or none of them. -/
theorem replaceOwnedObserveBody_cases [DecidableEq ρ] [Inhabited ι] (pending : PendingCon)
    (original replacement : ObserveInterest maxLen ρ) (bytes : List UInt8) (previous : Option Nat)
    (transfer : BlockTransfer (BlockKey maxLen ι)) (payload : List UInt8) :
    (∃ e s', s.replaceOwnedObserveBody pending original replacement bytes previous transfer payload =
        (.error e, s') ∧ s.Agrees s') ∨
      ∃ s' mid row id, s.replaceOwnedObserveBody pending original replacement bytes previous transfer
          payload = (.ok (), s') ∧
        s.PacketReplaced s' pending bytes mid ∧ s.RowReplaced s' original replacement mid row ∧
        s.BodyReplaced s' previous transfer payload id ∧ s'.rxBody = s.rxBody := by
  simp only [replaceOwnedObserveBody]
  split
  · exact .inl ⟨_, s, rfl, .refl s⟩
  next row valid =>
  have found := (validateObserveReplacement_ok valid).1
  split
  · exact .inl ⟨_, s, rfl, .refl s⟩
  split
  · exact .inl ⟨_, s, rfl, .refl s⟩
  generalize prepared : s.prepareBody _ _ _ _ = result
  obtain ⟨outcome, s'⟩ := result
  obtain ⟨e, rfl, agrees⟩ | ⟨id, bodies, bodies', rfl, isBodies, isReady, ready⟩ :=
    prepareBody_cases s _ _ _ _ prepared
  · exact .inl ⟨_, s', rfl, agrees⟩
  rcases s'.replacePendingCon_cases pending bytes with ⟨e, refused⟩ | ⟨next, tx, replaced, packet⟩
  · simp only [refused]
    exact .inl ⟨e, _, rfl, ready.rollback isBodies isReady⟩
  simp only [replaced]
  subst isReady
  obtain ⟨after, committed, body, described, others⟩ :=
    ready.commit (s := { s with txBody := some bodies', tx }) rfl found replacement transfer
  rw [committed]
  exact .inr ⟨_, _, row, id, rfl, { packet with },
    .of_validate valid packet.message rfl, ready.replaced isBodies rfl body described others, rfl⟩

end

/-- A replacement of a notification in flight is made in full or not at all: a refusal leaves the
packets, the rows and the bodies as they are seen, and an acceptance leaves the new packet with
its Message ID on the old timer, the row that waits for it, and the new body. -/
theorem replacement_atomic [DecidableEq ρ] [Inhabited ι] (s : Storage maxLen ρ ι rxBytes txBytes)
    (pending : PendingCon) (original replacement : ObserveInterest maxLen ρ) (bytes : List UInt8)
    (previous : Option Nat) (transfer : BlockTransfer (BlockKey maxLen ι)) (payload : List UInt8) :
    (match s.replacePendingCon pending bytes with
      | (.error _, s') => s.Agrees s'
      | (.ok next, s') => s.PacketReplaced s' pending bytes next.messageId ∧
          s'.observe = s.observe ∧ s'.rxBody = s.rxBody ∧ s'.txBody = s.txBody) ∧
    (match s.replaceObserveCon pending original replacement bytes with
      | (.error _, s') => s.Agrees s'
      | (.ok (), s') => ∃ mid row, s.PacketReplaced s' pending bytes mid ∧
          s.RowReplaced s' original replacement mid row ∧
          s'.rxBody = s.rxBody ∧ s'.txBody = s.txBody) ∧
    (match s.replaceObserveBody pending original replacement bytes previous transfer payload with
      | (.error _, s') => s.Agrees s'
      | (.ok (), s') => ∃ mid row id, s.PacketReplaced s' pending bytes mid ∧
          s.RowReplaced s' original replacement mid row ∧
          s.BodyReplaced s' previous transfer payload id ∧ s'.rxBody = s.rxBody) := by
  refine ⟨?_, ?_, ?_⟩
  · rcases s.replacePendingCon_cases pending bytes with ⟨e, refused⟩ | ⟨next, tx, replaced, packet⟩
    · rw [refused]
      exact .refl s
    · rw [replaced]
      exact ⟨packet, rfl, rfl, rfl⟩
  · rcases s.replaceObserveCon_cases pending original replacement bytes with
      ⟨e, refused⟩ | ⟨tx, observe, mid, row, replaced, packet, isRow⟩
    · rw [refused]
      exact .refl s
    · rw [replaced]
      exact ⟨mid, row, packet, isRow, rfl, rfl⟩
  -- without body pools the fixed backend refuses; the rest is the shared procedure
  cases called : s.replaceObserveBody pending original replacement bytes previous transfer payload
  rw [replaceObserveBody] at called
  split at called
  · cases called
    exact .refl s
  rcases s.replaceOwnedObserveBody_cases pending original replacement bytes previous transfer payload
    with ⟨e, s', refused, agrees⟩ | ⟨s', mid, row, id, replaced, done⟩
  · cases called.symm.trans refused
    exact agrees
  · cases called.symm.trans replaced
    exact ⟨mid, row, id, done⟩

end Storage

end Coaptic.Observe
