import Coaptic.Storage.Pool
import Coaptic.Storage.Pending
import Coaptic.Storage.QBlock

/-!
# Bodies on static bytes

An outgoing body may stand on static bytes of the application. They are then read in place of the
slot's buffer and are copied into it before the first write to the slot. What callers see of a
body is its visible bytes and its transfer without the static bytes, and the copy changes neither.
-/
namespace Coaptic.Block

open Codec Bytes Pending Option Occupancy BodySlot
open Occupancy (isOccupied)

variable {κ : Type} {capacity : Nat}

/-- Token, peer and Request-Tag or ETag of a body. `ι` is what else the sidecar retains with the
body, which storage copies as it is. -/
structure BlockKey (maxLen : Nat) (ι : Type) where
  token : OwnedToken maxLen
  endpoint : Endpoint
  identity : Option (List UInt8)
  sidecar : ι
deriving DecidableEq

namespace BlockTransfer

section

variable (t : BlockTransfer κ)

def staticBody : Option (List UInt8) :=
  match t.qReceive with
  | .static body => some body
  | _ => none

/-- The static bytes belong to the pool, not to a transfer that has been copied out of it. -/
def withoutStaticBody : BlockTransfer κ :=
  match t.qReceive with
  | .static _ => { t with qReceive := .none }
  | _ => t

@[simp] theorem staticBody_withoutStaticBody : t.withoutStaticBody.staticBody = none := by
  obtain ⟨key, role, num, szx, more, nextNum, filled, complete, expectedLen, q, retained⟩ := t
  cases retained <;> rfl

end

theorem withoutStaticBody_eq {t : BlockTransfer κ} (h : t.staticBody = none) :
    t.withoutStaticBody = t := by
  simp only [withoutStaticBody]
  split
  next body here => simp [staticBody, here] at h
  · rfl

end BlockTransfer

/-! ### Slots -/

namespace BodySlot

def staticBody (slot : BodySlot κ capacity) : Option (List UInt8) :=
  slot.transfer.bind (·.staticBody)

section

variable (slot : BodySlot κ capacity)

/-- Static bytes are the whole body, and fit the slot. -/
def Backed : Prop :=
  ∀ body, slot.staticBody = some body → slot.len = body.length ∧ body.length ≤ capacity

def view : List UInt8 :=
  match slot.staticBody with
  | some body => body.take slot.len
  | none => slot.bytes.take slot.len

/-- Write the front of the buffer. A payload that does not fit is refused before. -/
def store (payload : List UInt8) : BodySlot κ capacity :=
  if fits : 0 + payload.length ≤ slot.bytes.length then
    { slot with bytes := writeAt slot.bytes 0 payload
                length_bytes := (length_writeAt _ _ _ fits).trans slot.length_bytes }
  else slot

def materialize : BodySlot κ capacity :=
  match slot.staticBody with
  | none => slot
  | some body =>
    { slot.store body with transfer := slot.transfer.map (·.withoutStaticBody) }

end

variable {slot : BodySlot κ capacity}

theorem staticBody_map_without (t : Option (BlockTransfer κ)) :
    (t.map (·.withoutStaticBody)).bind (·.staticBody) = none := by
  cases t <;> simp

@[simp] theorem staticBody_materialize : slot.materialize.staticBody = none := by
  simp only [materialize]
  split
  next none => exact none
  · exact staticBody_map_without slot.transfer

theorem view_of_none (h : slot.staticBody = none) : slot.view = slot.bytes.take slot.len := by
  rw [view, h]

theorem backed_of_none (h : slot.staticBody = none) : slot.Backed := by
  intro body here
  rw [h] at here
  cases here

section

variable (payload : List UInt8)

@[simp] theorem len_store : (slot.store payload).len = slot.len := by
  simp only [store]
  split <;> rfl

@[simp] theorem transfer_store : (slot.store payload).transfer = slot.transfer := by
  simp only [store]
  split <;> rfl

theorem take_store (fits : payload.length ≤ capacity) :
    (slot.store payload).bytes.take payload.length = payload := by
  have fits : 0 + payload.length ≤ slot.bytes.length := by
    rw [slot.length_bytes, Nat.zero_add]
    exact fits
  simp only [store, dif_pos fits]
  simp [writeAt]

end

/-- The copy shows the same bytes. -/
theorem view_materialize (backed : slot.Backed) : slot.materialize.view = slot.view := by
  rw [view_of_none staticBody_materialize]
  cases here : slot.staticBody with
  | none => rw [view_of_none here, materialize, here]
  | some body =>
    obtain ⟨whole, fits⟩ := backed body here
    simp only [materialize, view, here, len_store, whole, take_store body fits, List.take_length]

theorem transfer_materialize :
    slot.materialize.transfer.map (·.withoutStaticBody) = slot.transfer.map (·.withoutStaticBody) := by
  simp only [materialize]
  split
  · rfl
  cases slot.transfer with
  | none => rfl
  | some t =>
    exact congrArg some (BlockTransfer.withoutStaticBody_eq
      (BlockTransfer.staticBody_withoutStaticBody t))

/-- Another transfer leaves the bytes that are shown. -/
theorem view_withTransfer (backed : slot.Backed) (t : BlockTransfer κ) :
    view { slot.materialize with transfer := some t.withoutStaticBody } = slot.view := by
  have noStatic : staticBody
      { slot.materialize with transfer := some t.withoutStaticBody } = none :=
    t.staticBody_withoutStaticBody
  rw [view_of_none noStatic, ← view_materialize backed, view_of_none staticBody_materialize]

end BodySlot

open BodySlot

/-! ### Pools -/

namespace BodyPool

def held (pool : BodyPool κ capacity) (id : Nat) : Option (BodySlot κ capacity) :=
  if pool.occ.isOccupied id then pool.slots[id]? else none

variable {pool pool' : BodyPool κ capacity} {id : Nat}

theorem payload_eq (pool : BodyPool κ capacity) (id : Nat) :
    pool.payload id = (pool.held id).map (·.view) := by
  simp only [payload, held]
  split
  · congr 1
    funext slot
    cases transfer : slot.transfer with
    | none => simp [view, staticBody, transfer]
    | some t =>
    obtain ⟨key, role, num, szx, more, nextNum, filled, complete, expectedLen, q, retained⟩ := t
    cases retained <;>
      simp [view, staticBody, BlockTransfer.staticBody, transfer]
  · rfl

theorem transfer_eq (pool : BodyPool κ capacity) (id : Nat) :
    pool.transfer id = (pool.held id).bind (·.transfer) := by
  simp only [transfer, held]
  split <;> rfl

theorem held_modifySlot (f : BodySlot κ capacity → BodySlot κ capacity) (j : Nat) :
    (pool.modifySlot id f).held j = if j = id then (pool.held j).map f else pool.held j := by
  simp only [held, modifySlot, List.getElem?_modify]
  by_cases here : j = id
  · subst here
    by_cases taken : pool.occ.isOccupied j <;> simp [taken]
  · by_cases taken : pool.occ.isOccupied j <;> simp [taken, here, Ne.symm here]

/-- Flags that differ at `id` alone leave the other slots as they were. -/
theorem held_flag {occ : Occupancy} {flag : Bool} {f : BodySlot κ capacity → BodySlot κ capacity}
    (flags : occ.occupied = pool.occ.occupied.set id flag) (occIs : pool'.occ = occ)
    (slotsAre : pool'.slots = pool.slots.modify id f) {j : Nat} (other : j ≠ id) :
    pool'.held j = pool.held j := by
  have taken : pool'.occ.isOccupied j = pool.occ.isOccupied j := by
    rw [isOccupied, occIs, flags, List.getElem?_set_ne (Ne.symm other), isOccupied]
  simp only [held, taken, slotsAre, List.getElem?_modify, if_neg (Ne.symm other), id_map']

theorem getD_set_false (flags : List Bool) (id : Nat) :
    (flags.set id false)[id]?.getD false = false := by
  by_cases inside : id < flags.length <;> simp [inside]

theorem held_acquire (h : pool.acquire = some (id, pool')) :
    pool.held id = none ∧ (∀ j, j ≠ id → pool'.held j = pool.held j) ∧
      pool'.occ.pinned[id]?.getD false = false := by
  simp only [acquire] at h
  split at h
  · cases h
  next acquired =>
  cases h
  obtain ⟨-, free, flags⟩ := acquire_some acquired
  refine ⟨?_, fun j other => held_flag flags rfl rfl other, ?_⟩
  · rw [held, isOccupied, free]
    rfl
  obtain ⟨-, rfl⟩ := acquire_eq acquired
  exact getD_set_false pool.occ.pinned id

theorem held_release (h : pool.release id = .ok pool') :
    pool'.held id = none ∧ ∀ j, j ≠ id → pool'.held j = pool.held j := by
  simp only [release] at h
  split at h
  · cases h
  next occ released =>
  cases h
  obtain ⟨taken, occIs⟩ := release_ok released
  have flags : occ.occupied = pool.occ.occupied.set id false := by rw [occIs]
  refine ⟨?_, fun j other => held_flag flags rfl rfl other⟩
  have free : occ.isOccupied id = false := by
    rw [isOccupied, flags, getD_set_false]
  simp only [held, reset, modifySlot, free]
  rfl

/-- An occupied slot that is not pinned can be released. -/
theorem release_of_held {slot : BodySlot κ capacity} (h : pool.held id = some slot)
    (unpinned : pool.occ.pinned[id]?.getD false = false) : ∃ pool', pool.release id = .ok pool' := by
  have taken : pool.occ.occupied[id]? = some true := by
    simp only [held] at h
    split at h
    next here =>
      simpa [isOccupied, getD_eq_iff] using here
    · cases h
  simp only [release]
  split
  next refused =>
    simp [Occupancy.release, taken, unpinned] at refused
  · exact ⟨_, rfl⟩

/-- A transfer of a new outgoing body has no static bytes, and its body fits. -/
theorem started_ok {key : κ} {role : BlockRole} {bodyLen szx : Nat} {t : BlockTransfer κ}
    (h : (if role.isQBlock then BlockTransfer.outgoingQ key role bodyLen szx capacity
      else BlockTransfer.outgoing key role bodyLen szx capacity) = .ok t) :
    t.staticBody = none ∧ bodyLen ≤ capacity := by
  have common : ∃ q, BlockTransfer.outgoingCommon key role bodyLen szx capacity q = .ok t := by
    simp only [BlockTransfer.outgoingQ, BlockTransfer.outgoing] at h
    split at h <;> split at h
    · cases h
    · split at h
      · cases h
      · exact ⟨_, h⟩
    · cases h
    · exact ⟨_, h⟩
  obtain ⟨q, started⟩ := common
  obtain ⟨rfl, -, fits, -⟩ := outgoingCommon_ok started
  exact ⟨rfl, fits⟩

/-- A new body is refused with the pool as it was, or it stands alone in a slot that was free. -/
theorem startOutgoing_cases (pool : BodyPool κ capacity) (key : κ) (role : BlockRole)
    (body : List UInt8) (szx : Nat) :
    (∃ e, pool.startOutgoing key role body szx = (.error e, pool)) ∨
      ∃ id before slot, pool.acquire = some (id, before) ∧
        pool.startOutgoing key role body szx = (.ok id, before.modifySlot id fun _ => slot) ∧
        slot.staticBody = none ∧ slot.view = body ∧ before.held id ≠ none := by
  simp only [startOutgoing]
  split
  · exact .inl ⟨_, rfl⟩
  next t started =>
  obtain ⟨noStatic, fits⟩ := started_ok started
  split
  · exact .inl ⟨_, rfl⟩
  next id before acquired =>
  right
  obtain ⟨taken, slot, found, -⟩ := acquire_ok acquired
  have room : 0 + body.length ≤ capacity := by rwa [Nat.zero_add]
  obtain ⟨stored, eq, bytes, len, -⟩ := storeIncoming_ok slot body room none
  refine ⟨id, before, { stored with transfer := some t }, acquired, ?_, ?_, ?_, ?_⟩
  · simp only [found, eq]
  · exact noStatic
  · have shown : (BodySlot.mk stored.bytes stored.length_bytes stored.len (some t)).view =
        stored.bytes.take stored.len := BodySlot.view_of_none noStatic
    rw [shown, bytes, len]
    simp [writeAt]
  · simp [held, taken, found]

end BodyPool

open BodyPool

/-- A pool of outgoing bodies, whose static bytes fit their slots. -/
structure OutgoingPool (κ : Type) (capacity : Nat) where
  pool : BodyPool κ capacity
  backed : ∀ slot ∈ pool.slots, slot.Backed

namespace OutgoingPool

variable {bodies bodies' : OutgoingPool κ capacity} {id : Nat}

def payload (bodies : OutgoingPool κ capacity) (id : Nat) : Option (List UInt8) :=
  bodies.pool.payload id

def transfer (bodies : OutgoingPool κ capacity) (id : Nat) : Option (BlockTransfer κ) :=
  (bodies.pool.transfer id).map (·.withoutStaticBody)

/-- A slot may be changed to one that has its static bytes. -/
theorem backed_modify {slots : List (BodySlot κ capacity)} (backed : ∀ slot ∈ slots, slot.Backed)
    (id : Nat)
    {f : BodySlot κ capacity → BodySlot κ capacity} (keeps : ∀ slot, slot.Backed → (f slot).Backed) :
    ∀ slot ∈ slots.modify id f, slot.Backed := by
  intro slot member
  obtain ⟨j, at_⟩ := List.mem_iff_getElem?.mp member
  simp only [List.getElem?_modify, map_eq_map, map_eq_some_iff] at at_
  obtain ⟨before, here, rfl⟩ := at_
  have old := backed before (List.mem_of_getElem? here)
  split
  · exact keeps before old
  · exact old

def modifySlot (bodies : OutgoingPool κ capacity) (id : Nat)
    (f : BodySlot κ capacity → BodySlot κ capacity) (keeps : ∀ slot, slot.Backed → (f slot).Backed) :
    OutgoingPool κ capacity :=
  ⟨bodies.pool.modifySlot id f, backed_modify bodies.backed id keeps⟩

def release (bodies : OutgoingPool κ capacity) (id : Nat) :
    Except SlotError (OutgoingPool κ capacity) :=
  match released : bodies.pool.release id with
  | .error e => .error e
  | .ok pool =>
    .ok ⟨pool, by
      simp only [BodyPool.release] at released
      split at released
      · cases released
      · cases released
        exact backed_modify bodies.backed id fun _ _ => backed_of_none rfl⟩

def startOutgoing (bodies : OutgoingPool κ capacity) (key : κ) (role : BlockRole)
    (body : List UInt8) (szx : Nat) : Except BlockTransferError Nat × OutgoingPool κ capacity :=
  ((bodies.pool.startOutgoing key role body szx).1,
    ⟨(bodies.pool.startOutgoing key role body szx).2, by
      rcases bodies.pool.startOutgoing_cases key role body szx with
        ⟨e, refused⟩ | ⟨id, before, slot, acquired, started, noStatic, -⟩
      · rw [refused]
        exact bodies.backed
      rw [started]
      simp only [BodyPool.acquire] at acquired
      split at acquired
      · cases acquired
      cases acquired
      exact backed_modify (backed_modify bodies.backed id fun _ _ => backed_of_none rfl) id
        fun _ _ => backed_of_none noStatic⟩)

section

variable (bodies : OutgoingPool κ capacity) (id : Nat)

/-- A guard on the whole buffer of a slot, from its acquisition to its end: the slot is pinned
in between, and its static bytes have been copied. -/
def accessMut : Except SlotError (OutgoingPool κ capacity) :=
  match bodies.pool.occ.occupied[id]?, bodies.pool.occ.pinned[id]? with
  | none, _ => .error .invalidSlot
  | some false, _ => .error .notOccupied
  | some true, none => .error .invalidSlot
  | some true, some true => .error .pinned
  | some true, some false =>
    .ok (bodies.modifySlot id (·.materialize) fun _ _ =>
      backed_of_none staticBody_materialize)

/-- Through a guard: write the front of the buffer and set the length. -/
def overwrite (payload : List UInt8) : Except SlotError (OutgoingPool κ capacity) :=
  match bodies.accessMut id with
  | .error e => .error e
  | .ok bodies =>
    if capacity < payload.length then .error .lengthExceedsSlot
    else
      .ok (bodies.modifySlot id
        (fun slot => { slot.materialize.store payload with len := payload.length })
        fun slot _ => backed_of_none (by
          simp only [staticBody, transfer_store]
          exact staticBody_materialize))

/-- Replace the transfer of an occupied slot. The bytes it shows stay. -/
def setTransfer (t : BlockTransfer κ) : Except SlotError (OutgoingPool κ capacity) :=
  if bodies.pool.occ.isOccupied id then
    .ok (bodies.modifySlot id
      (fun slot => { slot.materialize with transfer := some t.withoutStaticBody })
      fun _ _ => backed_of_none t.staticBody_withoutStaticBody)
  else .error (if id < bodies.pool.slots.length then .notOccupied else .invalidSlot)

/-! ### What callers see -/

def seen : Option (List UInt8 × Option (BlockTransfer κ)) :=
  (bodies.pool.held id).map fun slot => (slot.view, slot.transfer.map (·.withoutStaticBody))

theorem payload_seen : bodies.payload id = (bodies.seen id).map (·.1) := by
  rw [payload, payload_eq, seen, map_map]
  rfl

theorem transfer_seen : bodies.transfer id = (bodies.seen id).bind (·.2) := by
  rw [transfer, transfer_eq, seen]
  cases bodies.pool.held id <;> rfl

end

theorem seen_congr (h : bodies'.pool.held id = bodies.pool.held id) :
    bodies'.seen id = bodies.seen id := by
  rw [seen, seen, h]

theorem seen_ne_none_iff : bodies.seen id ≠ none ↔ ∃ slot, bodies.pool.held id = some slot := by
  cases held : bodies.pool.held id <;> simp [seen, held]

theorem backed_of_held {slot : BodySlot κ capacity} (h : bodies.pool.held id = some slot) :
    slot.Backed := by
  simp only [held] at h
  split at h
  · exact bodies.backed slot (List.mem_of_getElem? h)
  · cases h

theorem seen_modifySlot {f : BodySlot κ capacity → BodySlot κ capacity}
    {keeps : ∀ slot, slot.Backed → (f slot).Backed} {j : Nat} (other : j ≠ id) :
    (bodies.modifySlot id f keeps).seen j = bodies.seen j := by
  apply seen_congr
  rw [modifySlot, held_modifySlot, if_neg other]

/-- A guard that writes nothing shows every body as it was. -/
theorem accessMut_ok (h : bodies.accessMut id = .ok bodies') :
    (∀ j, bodies'.seen j = bodies.seen j) ∧ bodies'.pool.occ = bodies.pool.occ ∧
      bodies.pool.occ.occupied[id]? = some true ∧ bodies.pool.occ.pinned[id]? = some false := by
  simp only [accessMut] at h
  split at h
  case h_5 taken unpinned =>
    cases h
    refine ⟨fun j => ?_, rfl, taken, unpinned⟩
    by_cases here : j = id
    · subst here
      rw [seen, modifySlot, held_modifySlot, if_pos rfl, map_map, seen]
      apply Option.map_congr
      intro slot held
      simp only [Function.comp_apply, view_materialize (backed_of_held held),
        transfer_materialize]
    · exact seen_modifySlot here
  all_goals cases h

/-- A guard is refused or not by the flags alone. -/
theorem accessMut_of_occ (taken : bodies.pool.occ.occupied[id]? = some true)
    (unpinned : bodies.pool.occ.pinned[id]? = some false) :
    ∃ bodies', bodies.accessMut id = .ok bodies' := by
  simp only [accessMut, taken, unpinned]
  exact ⟨_, rfl⟩

theorem release_ok (h : bodies.release id = .ok bodies') :
    bodies'.seen id = none ∧ ∀ j, j ≠ id → bodies'.seen j = bodies.seen j := by
  simp only [release] at h
  split at h
  · cases h
  next pool released =>
  cases h
  obtain ⟨gone, others⟩ := held_release released
  refine ⟨?_, fun j other => seen_congr (others j other)⟩
  rw [seen, gone]
  rfl

/-- A body that is shown and not pinned can be released. -/
theorem release_of_seen (shown : bodies.seen id ≠ none)
    (unpinned : bodies.pool.occ.pinned[id]?.getD false = false) :
    ∃ bodies', bodies.release id = .ok bodies' := by
  obtain ⟨slot, held⟩ := seen_ne_none_iff.mp shown
  obtain ⟨pool, released⟩ := release_of_held held unpinned
  simp only [release]
  split
  next refused =>
    rw [released] at refused
    cases refused
  · exact ⟨_, rfl⟩

/-- Once a guard has been had, the body can be overwritten. -/
theorem overwrite_ok {payload : List UInt8} (fits : payload.length ≤ capacity)
    (taken : bodies.pool.occ.occupied[id]? = some true)
    (unpinned : bodies.pool.occ.pinned[id]? = some false) :
    ∃ bodies', bodies.overwrite id payload = .ok bodies' ∧ bodies'.payload id = some payload ∧
      (∀ j, j ≠ id → bodies'.seen j = bodies.seen j) ∧ bodies'.pool.occ = bodies.pool.occ := by
  obtain ⟨guarded, access⟩ := accessMut_of_occ taken unpinned
  obtain ⟨same, flags, -⟩ := accessMut_ok access
  simp only [overwrite, access, if_neg (Nat.not_lt.mpr fits)]
  refine ⟨_, rfl, ?_, fun j other => (seen_modifySlot other).trans (same j), flags⟩
  have inside : id < guarded.pool.slots.length := by
    rw [guarded.pool.sized, flags]
    exact (List.getElem?_eq_some_iff.mp taken).1
  have held : guarded.pool.held id = some (guarded.pool.slots.get ⟨id, inside⟩) := by
    have occupied : guarded.pool.occ.isOccupied id = true := by
      rw [flags, isOccupied, taken]
      rfl
    simp [held, occupied, inside]
  rw [OutgoingPool.payload, payload_eq, modifySlot, held_modifySlot, if_pos rfl,
    held, map_some, map_some, view_of_none]
  · exact congrArg some (take_store payload fits)
  · simp only [staticBody, transfer_store]
    exact staticBody_materialize

/-- A body that is shown can be given another transfer. -/
theorem setTransfer_ok (shown : bodies.seen id ≠ none) (t : BlockTransfer κ) :
    ∃ bodies', bodies.setTransfer id t = .ok bodies' ∧ bodies'.payload id = bodies.payload id ∧
      bodies'.transfer id = some t.withoutStaticBody ∧ bodies'.seen id ≠ none ∧
      (∀ j, j ≠ id → bodies'.seen j = bodies.seen j) ∧ bodies'.pool.occ = bodies.pool.occ := by
  obtain ⟨slot, held⟩ := seen_ne_none_iff.mp shown
  have taken : bodies.pool.occ.isOccupied id = true := by
    by_contra free
    simp [BodyPool.held, free] at held
  simp only [setTransfer, if_pos taken]
  refine ⟨_, rfl, ?_, ?_, ?_, fun j other => seen_modifySlot other, rfl⟩
  · simp only [OutgoingPool.payload, payload_eq, modifySlot, held_modifySlot,
      if_true, held, map_some]
    exact congrArg some (view_withTransfer (backed_of_held held) t)
  · simp only [transfer, transfer_eq, modifySlot, held_modifySlot, if_true, held,
      map_some, bind_some]
    rw [BlockTransfer.withoutStaticBody_eq t.staticBody_withoutStaticBody]
  apply seen_ne_none_iff.mpr
  simp only [modifySlot, held_modifySlot, if_true, held, map_some]
  exact ⟨_, rfl⟩

/-- Starting a body shows it in a slot that showed none, or changes nothing. -/
theorem startOutgoing_cases (bodies : OutgoingPool κ capacity) (key : κ) (role : BlockRole)
    (body : List UInt8) (szx : Nat) {outcome : Except BlockTransferError Nat}
    (h : bodies.startOutgoing key role body szx = (outcome, bodies')) :
    (∃ e, outcome = .error e ∧ bodies' = bodies) ∨
      ∃ id, outcome = .ok id ∧ bodies.seen id = none ∧ bodies'.payload id = some body ∧
        (∀ j, j ≠ id → bodies'.seen j = bodies.seen j) ∧
        bodies'.pool.occ.pinned[id]?.getD false = false := by
  cases h
  rcases bodies.pool.startOutgoing_cases key role body szx with
    ⟨e, refused⟩ | ⟨id, before, slot, acquired, started, -, view, occupied⟩
  · exact .inl ⟨e, by simp [refused]⟩
  obtain ⟨free, others, unpinned⟩ := held_acquire acquired
  refine .inr ⟨id, ?_, ?_, ?_, fun j other => ?_, ?_⟩
  · rw [started]
  · rw [seen, free]
    rfl
  · obtain ⟨old, held⟩ := ne_none_iff_exists'.mp occupied
    rw [payload, payload_eq]
    simp only [started, held_modifySlot, if_true, held, map_some, view]
  · apply seen_congr
    simp only [started, held_modifySlot, if_neg other]
    exact others j other
  · simp only [started]
    exact unpinned

end OutgoingPool

end Coaptic.Block
