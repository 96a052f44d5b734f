import Coaptic.App.Replay
import Coaptic.Lib.Run
import Coaptic.Message.RoundTrip

/-!
# Replies that rows hold

A row of the dedup table keeps a long reply in the datagram slot it was sent from. Slots are
numbers, and a slot may be released by whoever has its number; that no reply is lost or exchanged
rests on who holds which slot. A caller holds the slots it has acquired. Keeping a reply hands its
slot over to the row, and the row gives it up when it lapses, is replaced or is evicted.

`Pins` says that this works: what a row holds no caller holds, no other row holds, and it is still
the reply that was last remembered for the row's key.
-/
namespace Coaptic.App

open Codec Block Program DedupTable DedupEntry Finset Function
open DatagramPool (slot_acquire_of_ne slot_modifySlot_of_ne slot_of_acquire slot_release_of_ne)
open DedupEntry (hasUsableReplay replayMax withReplay)

variable {η : Type} {cfg : Config}

/-- A reply as it was remembered: its datagram and the peer of its slot. -/
structure Reply (η : Type) where
  packet : Packet Sealing
  endpoint : Option η
deriving DecidableEq

def ackWire (cfg : Config) (mid : MessageId) : List UInt8 :=
  wire (Message.emptyAck mid : Message cfg.maxLen).view

/-- Which slots the callers and the rows hold, and what rows reply. -/
structure Pins (cfg : Config) (owned : Finset Nat) (last : DedupKey η → Option (Reply η))
    (tx : DatagramPool η Sealing) (rows : DedupEntry η Sealing → Prop) : Prop where
  held : ∀ id ∈ owned, ∃ slot, tx.slot id = .ok slot
  pinned : ∀ row id, rows row → row.txPin = some id →
    id ∉ owned ∧ ∃ slot, tx.slot id = .ok slot ∧ last row.key = some ⟨slot.packet, slot.endpoint⟩
  single : ∀ row row' id, rows row → rows row' → row.txPin = some id → row'.txPin = some id →
    row = row'
  inline : ∀ row packet, rows row → row.replay = some packet →
    packet.bytes = ackWire cfg row.key.messageId ∨
      ∃ reply, last row.key = some reply ∧ reply.packet = packet

namespace Pins

variable {owned : Finset Nat} {last last' : DedupKey η → Option (Reply η)}
  {tx tx' : DatagramPool η Sealing} {rows rows' : DedupEntry η Sealing → Prop}
  {entry : DedupEntry η Sealing} {id : Nat}

section

variable (h : Pins cfg owned last tx rows)
include h

/-- Fewer rows and fewer callers, who find what they hold as it was. -/
theorem keep {owned' : Finset Nat} (fewer : ∀ row, rows' row → rows row) (less : owned' ⊆ owned)
    (slots : ∀ id slot, (id ∈ owned' ∨ ∃ row, rows' row ∧ row.txPin = some id) →
      tx.slot id = .ok slot → tx'.slot id = .ok slot)
    (same : ∀ row, rows' row → last' row.key = last row.key) : Pins cfg owned' last' tx' rows' where
  held id mem := by
    obtain ⟨slot, at_⟩ := h.held id (less mem)
    exact ⟨slot, slots id slot (.inl mem) at_⟩
  pinned row id isRow isPin := by
    obtain ⟨notOwned, slot, at_, isLast⟩ := h.pinned row id (fewer row isRow) isPin
    exact ⟨fun mem => notOwned (less mem), slot, slots id slot (.inr ⟨row, isRow, isPin⟩) at_,
      (same row isRow).trans isLast⟩
  single row row' id isRow isRow' := h.single row row' id (fewer row isRow) (fewer row' isRow')
  inline row packet isRow := by
    rw [same row isRow]
    exact h.inline row packet (fewer row isRow)

theorem sub (fewer : ∀ row, rows' row → rows row) : Pins cfg owned last tx rows' :=
  h.keep fewer (Finset.Subset.refl _) (fun _ _ _ at_ => at_) fun _ _ => rfl

/-- A slot that nobody holds may change. -/
theorem change (free : id ∉ owned) (unpinned : ∀ row, rows row → row.txPin ≠ some id)
    (others : ∀ other slot, other ≠ id → tx.slot other = .ok slot → tx'.slot other = .ok slot) :
    Pins cfg owned last tx' rows := by
  refine h.keep (fun _ isRow => isRow) (Finset.Subset.refl _) ?_ fun _ _ => rfl
  rintro other slot (mem | ⟨row, isRow, isPin⟩)
  · exact others other slot fun eq => free (eq ▸ mem)
  · exact others other slot fun eq => unpinned row isRow (eq ▸ isPin)

/-- A row with an inline reply holds no slot. -/
theorem insert_inline (noPin : entry.txPin = none)
    (reply : ∀ packet, entry.replay = some packet → packet.bytes = ackWire cfg entry.key.messageId ∨
      ∃ reply, last entry.key = some reply ∧ reply.packet = packet)
    (grown : ∀ row, rows' row → row = entry ∨ rows row) : Pins cfg owned last tx rows' where
  held := h.held
  pinned row id isRow isPin := by
    rcases grown row isRow with rfl | old
    · rw [noPin] at isPin
      cases isPin
    · exact h.pinned row id old isPin
  single row row' id isRow isRow' isPin isPin' := by
    rcases grown row isRow with rfl | old
    · rw [noPin] at isPin
      cases isPin
    rcases grown row' isRow' with rfl | old'
    · rw [noPin] at isPin'
      cases isPin'
    · exact h.single row row' id old old' isPin isPin'
  inline row packet isRow isReply := by
    rcases grown row isRow with rfl | old
    · exact reply packet isReply
    · exact h.inline row packet old isReply

/-- A caller hands its slot over to a new row. -/
theorem insert_pin {slot : DatagramSlot η Sealing} (isPin : entry.txPin = some id)
    (noReply : entry.replay = none) (mine : id ∈ owned) (at_ : tx.slot id = .ok slot)
    (isLast : last entry.key = some ⟨slot.packet, slot.endpoint⟩)
    (grown : ∀ row, rows' row → row = entry ∨ rows row) :
    Pins cfg (owned.erase id) last tx rows' where
  held other mem := h.held other (mem_of_mem_erase mem)
  pinned row other isRow pins := by
    rcases grown row isRow with rfl | old
    · rw [isPin] at pins
      cases pins
      exact ⟨notMem_erase _ _, slot, at_, isLast⟩
    · obtain ⟨notOwned, rest⟩ := h.pinned row other old pins
      exact ⟨fun mem => notOwned (mem_of_mem_erase mem), rest⟩
  single row row' other isRow isRow' pins pins' := by
    -- An old row pins a slot that no caller holds, so not the one handed over.
    have apart : ∀ old, rows old → old.txPin ≠ some id := by
      intro old isOld same
      exact (h.pinned old id isOld same).1 mine
    rcases grown row isRow with rfl | old <;> rcases grown row' isRow' with rfl | old'
    · rfl
    · rw [isPin] at pins
      cases pins
      exact absurd pins' (apart row' old')
    · rw [isPin] at pins'
      cases pins'
      exact absurd pins (apart row old)
    · exact h.single row row' other old old' pins pins'
  inline row packet isRow isReply := by
    rcases grown row isRow with rfl | old
    · rw [noReply] at isReply
      cases isReply
    · exact h.inline row packet old isReply

/-- A slot that has just been handed out goes to the caller. -/
theorem acquire (acquired : tx.acquire = some (id, tx')) :
    id ∉ owned ∧ Pins cfg (insert id owned) last tx' rows := by
  have notHeld : id ∉ owned := by
    intro mem
    obtain ⟨slot, at_⟩ := h.held id mem
    exact slot_of_acquire acquired slot at_
  have unpinned : ∀ row, rows row → row.txPin ≠ some id := by
    intro row isRow isPin
    obtain ⟨-, slot, at_, -⟩ := h.pinned row id isRow isPin
    exact slot_of_acquire acquired slot at_
  have kept := h.change notHeld unpinned fun other slot ne at_ => by
    rw [slot_acquire_of_ne acquired ne, at_]
  refine ⟨notHeld, ?_, ?_, kept.single, kept.inline⟩
  · intro other mem
    rcases mem_insert.mp mem with rfl | mem
    · exact ⟨_, DatagramPool.slot_acquire acquired⟩
    · exact kept.held other mem
  intro row other isRow isPin
  obtain ⟨notOwned, rest⟩ := kept.pinned row other isRow isPin
  refine ⟨fun mem => ?_, rest⟩
  rcases mem_insert.mp mem with rfl | mem
  · exact unpinned row isRow isPin
  · exact notOwned mem

/-- A caller does what it likes with a slot it gives up. -/
theorem release (mine : id ∈ owned)
    (others : ∀ other slot, other ≠ id → tx.slot other = .ok slot → tx'.slot other = .ok slot) :
    Pins cfg (owned.erase id) last tx' rows := by
  refine h.keep (fun _ isRow => isRow) (erase_subset id owned) ?_ fun _ _ => rfl
  rintro other slot (mem | ⟨row, isRow, isPin⟩)
  · exact others other slot (ne_of_mem_erase mem)
  · exact others other slot fun eq => (h.pinned row other isRow isPin).1 (eq ▸ mine)

/-- A caller may write to a slot it holds. -/
theorem write (mine : id ∈ owned) (f : DatagramSlot η Sealing → DatagramSlot η Sealing) :
    Pins cfg owned last (tx.modifySlot id f) rows where
  held other mem := by
    obtain ⟨slot, at_⟩ := h.held other mem
    by_cases eq : other = id
    · subst eq
      exact ⟨f slot, DatagramPool.slot_modifySlot at_⟩
    · exact ⟨slot, (slot_modifySlot_of_ne eq).trans at_⟩
  pinned row other isRow isPin := by
    obtain ⟨notOwned, slot, at_, same⟩ := h.pinned row other isRow isPin
    have ne : other ≠ id := fun eq => notOwned (eq ▸ mine)
    exact ⟨notOwned, slot, (slot_modifySlot_of_ne ne).trans at_, same⟩
  single := h.single
  inline := h.inline

/-- The slot of a row that is gone may be released. -/
theorem unpin {gone : DedupEntry η Sealing} (isRow : rows gone) (isPin : gone.txPin = some id)
    (fewer : ∀ row, rows' row → rows row ∧ row ≠ gone)
    (others : ∀ other slot, other ≠ id → tx.slot other = .ok slot → tx'.slot other = .ok slot) :
    Pins cfg owned last tx' rows' := by
  apply (h.sub fun row stays => (fewer row stays).1).change (h.pinned gone id isRow isPin).1 _ others
  intro row stays same
  obtain ⟨old, ne⟩ := fewer row stays
  exact ne (h.single row gone id old isRow same isPin)

end

end Pins

/-! ### Programs that use slots of their own -/

/-- Outside `touched` every occupied slot stays as it is, and so do the rows. -/
structure Frame (touched : Set Nat) (s t : State η cfg) : Prop where
  slots : ∀ id slot, id ∉ touched → s.tx.slot id = .ok slot → t.tx.slot id = .ok slot
  dedup : t.dedup = s.dedup

instance frameLedger (touched : Set Nat) : Ledger (fun _ : Nat => @Frame η cfg touched) where
  refl _ := ⟨fun _ _ _ at_ => at_, rfl⟩
  trans h h' := ⟨fun id slot out at_ => h'.slots id slot out (h.slots id slot out at_),
    h'.dedup.trans h.dedup⟩
  mono _ h := h

abbrev Framed (touched : Set Nat) {α : Type} (p : Act η cfg α) : Prop :=
  Costs (fun _ => Frame touched) p fun _ => 0

theorem framed_answer (touched : Set Nat) : Framed touched (answer : Act η cfg Bool) := fun _ =>
  ⟨fun _ _ _ at_ => at_, rfl⟩

theorem framed_releaseTx (tx : Nat) : Framed {tx} (releaseTx tx : Act η cfg Unit) := by
  intro s
  simp only [releaseTx, exec_modify]
  cases released : s.tx.release tx with
  | error e => exact (frameLedger {tx}).refl s
  | ok pool =>
    exact ⟨fun id slot out at_ => (slot_release_of_ne released out).trans at_, rfl⟩

theorem framed_modifyTx (tx : Nat) (f : DatagramSlot η Sealing → DatagramSlot η Sealing) :
    Framed {tx} (modifyTx tx f : Act η cfg Unit) := by
  refine .get_bind fun s => ?_
  split
  · exact .throw _
  · exact fun t => ⟨fun id slot out at_ => (slot_modifySlot_of_ne out).trans at_, rfl⟩

theorem framed_encodeTx (tx : Nat) (msg : Message cfg.maxLen) :
    Framed {tx} (encodeTx tx msg : Act η cfg Unit) := by
  refine .get_bind fun s => ?_
  split
  · exact .throw _
  refine .bind ?_ fun packet t =>
    ⟨fun id slot out at_ => (slot_modifySlot_of_ne out).trans at_, rfl⟩
  simp only [plainPacket]
  split
  · exact .throw _
  · exact .pure _

theorem framed_sendTx (touched : Set Nat) (tx : Nat) :
    Framed touched (sendTx tx : Act η cfg Unit) := by
  refine .get_bind fun s => ?_
  split
  · exact .throw _
  split
  · exact .throw _
  refine .bind (fun t => ⟨fun _ _ _ at_ => at_, rfl⟩) fun _ => ?_
  refine (framed_answer touched).bind fun accepted => ?_
  split
  · exact .pure _
  · exact .throw _

theorem framed_sendAndRelease (tx : Nat) : Framed {tx} (sendAndRelease tx : Act η cfg Unit) :=
  (framed_sendTx _ tx).attempt.bind fun outcome => (framed_releaseTx tx).bind fun _ =>
    costs_ofExcept outcome

variable {α : Type} {p : Act η cfg α}

theorem Framed.orRelease {tx : Nat} (h : Framed {tx} p) : Framed {tx} (App.orRelease tx p) := by
  refine h.attempt.bind fun outcome => ?_
  cases outcome with
  | ok a => exact .pure a
  | error e => exact (framed_releaseTx tx).bind fun _ => .throw e

/-- A program that works within the slot it acquires touches nothing that was there before. -/
theorem framed_acquired {f : Nat → Act η cfg α} (none : Framed ∅ p)
    (some : ∀ tx, Framed {tx} (f tx)) : Framed ∅ (acquireTx >>= fun acquired => match acquired with
      | .none => p
      | .some tx => f tx : Act η cfg α) := by
  intro s
  rw [exec_bind]
  simp only [acquireTx, exec_modifyGet]
  cases acquired : s.tx.acquire with
  | none => exact none s
  | some result =>
  obtain ⟨tx, pool⟩ := result
  have inner := some tx { s with tx := pool }
  refine ⟨fun id slot _ at_ => ?_, inner.dedup⟩
  have ne : id ≠ tx := by
    rintro rfl
    exact slot_of_acquire acquired slot at_
  apply inner.slots id slot ne
  exact (slot_acquire_of_ne acquired ne).trans at_

theorem framed_sendEmpty (dest : η) (msg : Message cfg.maxLen) :
    Framed ∅ (sendEmpty dest msg : Act η cfg Unit) :=
  framed_acquired (.throw _) fun tx =>
    (framed_encodeTx tx msg).orRelease.bind fun _ =>
      (framed_modifyTx tx _).orRelease.bind fun _ => framed_sendAndRelease tx

theorem framed_sendReplayBytes (dest : η) (packet : Packet Sealing) :
    Framed ∅ (sendReplayBytes dest packet : Act η cfg Unit) := by
  refine framed_acquired (.throw _) fun tx => ?_
  split
  · exact (framed_releaseTx tx).bind fun _ => .throw _
  · exact (framed_modifyTx tx _).bind fun _ => (framed_modifyTx tx _).bind fun _ =>
      framed_sendAndRelease tx

/-! ### Programs keep what rows hold -/

abbrev Pinned (owned : Finset Nat) (last : DedupKey η → Option (Reply η)) (s : State η cfg) : Prop :=
  Pins cfg owned last s.tx s.dedup.Holds

section Keeping

variable {owned : Finset Nat} {last last' : DedupKey η → Option (Reply η)} {s t : State η cfg}

theorem Pinned.of_frame (h : Pinned owned last s) (frame : Frame ∅ s t) : Pinned owned last t := by
  rw [Pinned, frame.dedup]
  exact h.keep (fun _ isRow => isRow) (Finset.Subset.refl _)
    (fun id slot _ => frame.slots id slot (Set.notMem_empty id)) fun _ _ => rfl

/-- Releasing the slot of a row, if it has one, leaves all other slots. -/
theorem exec_releasePin (pin : Option Nat) (s : State η cfg) :
    ∃ tx, exec (releasePin pin) s = (.ok (), { s with tx }) ∧
      (pin = none → tx = s.tx) ∧
      ∀ id, pin = some id → ∀ other slot, other ≠ id → s.tx.slot other = .ok slot →
        tx.slot other = .ok slot := by
  cases pin with
  | none => exact ⟨s.tx, rfl, fun _ => rfl, nofun⟩
  | some id =>
  cases released : s.tx.release id with
  | error e =>
    refine ⟨s.tx, ?_, nofun, fun _ _ _ _ _ at_ => at_⟩
    simp only [releasePin, releaseTx, exec_modify, released]
  | ok pool =>
  refine ⟨pool, ?_, nofun, ?_⟩
  · simp only [releasePin, releaseTx, exec_modify, released]
  · rintro _ ⟨⟩ other slot ne at_
    exact (slot_release_of_ne released ne).trans at_

variable {entry : DedupEntry η Sealing} {stored : Bool} {slot : DatagramSlot η Sealing} {tx : Nat}

/-- The rows a store keeps are in order whatever is remembered for its key. -/
theorem Pinned.others (h : Pinned owned last s)
    (elsewhere : ∀ k, k ≠ entry.key → last' k = last k) :
    Pins cfg owned last' s.tx fun row => s.dedup.Holds row ∧ row.key ≠ entry.key :=
  h.keep (fun _ isRow => isRow.1) (Finset.Subset.refl _) (fun _ _ _ at_ => at_)
    fun row isRow => elsewhere row.key isRow.2

theorem encode_ackWire (cfg : Config) (mid : MessageId) :
    ∃ out, Codec.encode (.emptyAck mid : Message cfg.maxLen) (List.replicate 16 0) = (.ok 4, out) ∧
      out.take 4 = ackWire cfg mid ∧ (ackWire cfg mid).length = 4 := by
  obtain ⟨out, encoded, -⟩ := encode_emptyAck cfg.maxLen mid
  obtain ⟨-, -, length, rfl⟩ := encode_ok encoded
  refine ⟨_, encoded, ?_, length.symm⟩
  rw [length, List.take_left]
  rfl

def ackRow (cfg : Config) (mid : MessageId) (dest : η) (due : Nat) : DedupEntry η Sealing :=
  ((DedupEntry.new mid dest).withDueMs due).withReplay ⟨ackWire cfg mid, none⟩

theorem ackRow_eq (cfg : Config) (mid : MessageId) (dest : η) (due : Nat) :
    ackRow cfg mid dest due = ⟨⟨mid, dest⟩, due, some ⟨ackWire cfg mid, none⟩, none⟩ := by
  obtain ⟨-, -, -, length⟩ := encode_ackWire cfg mid
  have nonempty : (ackWire cfg mid).isEmpty = false := by
    rw [List.isEmpty_eq_false_iff, ← List.length_pos_iff]
    omega
  have short : ¬replayMax < (ackWire cfg mid).length := by
    rw [length, replayMax]
    omega
  simp only [ackRow, withReplay, if_neg short, nonempty]
  rfl

theorem state_discard (p : Act η cfg α) (s : State η cfg) :
    (exec (do let _ ← p) s).2 = (exec p s).2 := by
  rw [exec_bind]
  generalize exec p s = reached
  obtain ⟨outcome | a, t⟩ := reached <;> rfl

theorem pinned_acquireTx (h : Pinned owned last s) : (∃ id, (exec acquireTx s).1 = .ok (some id) ∧
      Pinned (insert id owned) last (exec acquireTx s).2) ∨
    (exec acquireTx s).1 = .ok none ∧ Pinned owned last (exec acquireTx s).2 := by
  simp only [acquireTx, exec_modifyGet]
  cases acquired : s.tx.acquire with
  | none => exact .inr ⟨rfl, h⟩
  | some result => exact .inl ⟨result.1, rfl, (h.acquire acquired).2⟩

variable [DecidableEq η]

/-- A row is released with its slot. -/
theorem pinned_releaseDedupRow (h : Pinned owned last s) (held : s.dedup.Holds entry) :
    Pinned owned last (exec (releaseDedupRow entry) s).2 := by
  obtain ⟨tx, released, same, others⟩ := exec_releasePin entry.txPin s
  rw [releaseDedupRow, exec_bind_ok released, exec_modify]
  have fewer : ∀ row, (s.dedup.remove entry.key).Holds row → s.dedup.Holds row ∧ row ≠ entry := by
    intro row stays
    obtain ⟨ne, stays⟩ := (holds_remove _ _ _).mp stays
    exact ⟨stays, fun eq => ne (congrArg key eq)⟩
  cases pin : entry.txPin with
  | none =>
    rw [Pinned, same pin]
    exact h.sub fun row stays => (fewer row stays).1
  | some id => exact h.unpin held pin fewer (others id pin)

/-- A store, once the table without the row that goes is known to be in order. -/
theorem pinned_tryStoreAppDedup {pin : Option Nat} {table : DedupTable η Sealing}
    {owned' : Finset Nat} (h : Pinned owned last s)
    (result : s.dedup.tryStoreApp entry = (stored, pin, table))
    (mine : ∀ id, entry.txPin = some id → id ∈ owned) (fewer : owned' ⊆ owned)
    (kept : Pins cfg owned' last' s.tx table.Holds) :
    (exec (tryStoreAppDedup entry) s).1 = .ok stored ∧
      Pinned owned' last' (exec (tryStoreAppDedup entry) s).2 := by
  obtain ⟨old, isPin, held, rows⟩ := tryStoreApp_rows result
  obtain ⟨tx, released, same, others⟩ := exec_releasePin pin ({ s with
    dedup := table
    stored := if stored then s.stored ++ [(entry.key, entry.dueMs)] else s.stored } : State η cfg)
  have whole : exec (tryStoreAppDedup entry) s = (.ok stored, { s with
      tx, dedup := table
      stored := if stored then s.stored ++ [(entry.key, entry.dueMs)] else s.stored }) := by
    simp only [tryStoreAppDedup, exec_bind, exec_modifyGet, result, released, exec_pure]
  rw [whole]
  refine ⟨rfl, ?_⟩
  cases isSome : pin with
  | none =>
    rw [Pinned, same isSome]
    exact kept
  | some id =>
  -- The slot belonged to a row that is gone; neither a caller nor another row has it.
  obtain ⟨gone, rfl, pins⟩ := Option.bind_eq_some_iff.mp (isPin ▸ isSome)
  have notMine := (h.pinned gone id (held gone rfl) pins).1
  refine kept.change (fun mem => notMine (fewer mem)) (fun row stays shared => ?_) (others id isSome)
  rcases rows row stays with ⟨rfl, -⟩ | ⟨isOld, ne, -⟩
  · exact notMine (mine id shared)
  · exact ne (congrArg some (h.single gone row id (held gone rfl) isOld pins shared))

/-- What is stored besides the row does not touch slots or rows. -/
theorem exec_noteDedupStore (usable : entry.hasUsableReplay = true) (request : Code)
    (result : (exec (tryStoreAppDedup entry) s).1 = .ok stored) :
    (exec (noteDedupStore entry request) s).1 = .ok stored ∧
      (exec (noteDedupStore entry request) s).2.tx = (exec (tryStoreAppDedup entry) s).2.tx ∧
      (exec (noteDedupStore entry request) s).2.dedup = (exec (tryStoreAppDedup entry) s).2.dedup := by
  simp only [noteDedupStore, storeRequestDedup, usable, if_true, exec_bind]
  generalize exec (tryStoreAppDedup entry) s = reached at result
  obtain ⟨outcome, t⟩ := reached
  subst result
  cases stored <;> exact ⟨rfl, rfl, rfl⟩

theorem exec_noteDedupStore_unusable (unusable : entry.hasUsableReplay = false) (request : Code) :
    (exec (noteDedupStore entry request) s).1 = .ok false ∧
      (exec (noteDedupStore entry request) s).2.tx = s.tx ∧
      (exec (noteDedupStore entry request) s).2.dedup = s.dedup := by
  simp only [noteDedupStore, storeRequestDedup, unusable]
  exact ⟨rfl, rfl, rfl⟩

/-- Storing never fails with an error. -/
theorem noteDedupStore_returns (entry : DedupEntry η Sealing) (request : Code) (s : State η cfg) :
    ∃ stored, (exec (noteDedupStore entry request) s).1 = .ok stored := by
  cases usable : entry.hasUsableReplay with
  | false => exact ⟨false, (exec_noteDedupStore_unusable usable request).1⟩
  | true =>
  have returns : ∃ stored, (exec (tryStoreAppDedup entry) s).1 = .ok stored := by
    simp only [tryStoreAppDedup, exec_bind, exec_modifyGet]
    rw [(exec_releasePin ..).choose_spec.1]
    exact ⟨_, rfl⟩
  obtain ⟨stored, outcome⟩ := returns
  exact ⟨stored, (exec_noteDedupStore usable request outcome).1⟩

/-- Keep an inline reply. -/
theorem pinned_store_inline (h : Pinned owned last s) (noPin : entry.txPin = none)
    (elsewhere : ∀ k, k ≠ entry.key → last' k = last k)
    (unusable : entry.replay = none → last' = last)
    (reply : ∀ packet, entry.replay = some packet → packet.bytes = ackWire cfg entry.key.messageId ∨
      ∃ reply, last' entry.key = some reply ∧ reply.packet = packet)
    (request : Code) : Pinned owned last' (exec (noteDedupStore entry request) s).2 := by
  cases isReply : entry.replay with
  | none =>
    have usable : entry.hasUsableReplay = false := by simp [hasUsableReplay, isReply, noPin]
    obtain ⟨-, tx, dedup⟩ := exec_noteDedupStore_unusable (s := s) usable request
    rw [Pinned, tx, dedup, unusable isReply]
    exact h
  | some packet =>
  have usable : entry.hasUsableReplay = true := by simp [hasUsableReplay, isReply]
  obtain ⟨⟨stored, pin, table⟩, result⟩ : ∃ r, s.dedup.tryStoreApp entry = r := ⟨_, rfl⟩
  obtain ⟨_, -, -, rows⟩ := tryStoreApp_rows result
  have kept : Pins cfg owned last' s.tx table.Holds := by
    apply (h.others elsewhere).insert_inline noPin reply
    intro row stays
    exact (rows row stays).imp And.left fun old => ⟨old.1, old.2.2⟩
  have mine : ∀ id, entry.txPin = some id → id ∈ owned := by simp [noPin]
  obtain ⟨outcome, pinned⟩ := pinned_tryStoreAppDedup h result mine (Finset.Subset.refl _) kept
  obtain ⟨-, tx, dedup⟩ := exec_noteDedupStore usable request outcome
  rw [Pinned, tx, dedup]
  exact pinned

/-- Keep the slot of a reply. The slot is the row's if this succeeds, and else stays with the
caller. -/
theorem pinned_store_pin {id : Nat} (h : Pinned owned last s) (isPin : entry.txPin = some id)
    (noReply : entry.replay = none) (mine : id ∈ owned) (at_ : s.tx.slot id = .ok slot)
    (elsewhere : ∀ k, k ≠ entry.key → last' k = last k)
    (isLast : last' entry.key = some ⟨slot.packet, slot.endpoint⟩) (request : Code) :
    ∃ stored, (exec (noteDedupStore entry request) s).1 = .ok stored ∧
      Pinned (if stored then owned.erase id else owned) last'
        (exec (noteDedupStore entry request) s).2 := by
  have usable : entry.hasUsableReplay = true := by simp [hasUsableReplay, isPin]
  obtain ⟨⟨stored, pin, table⟩, result⟩ : ∃ r, s.dedup.tryStoreApp entry = r := ⟨_, rfl⟩
  obtain ⟨_, -, -, rows⟩ := tryStoreApp_rows result
  have others := h.others elsewhere
  have kept : Pins cfg (if stored then owned.erase id else owned) last' s.tx table.Holds := by
    cases stored with
    | true =>
      apply others.insert_pin isPin noReply mine at_ isLast
      intro row stays
      exact (rows row stays).imp And.left fun old => ⟨old.1, old.2.2⟩
    | false =>
    apply others.sub
    intro row stays
    rcases rows row stays with ⟨-, no⟩ | old
    · cases no
    · exact ⟨old.1, old.2.2⟩
  have fewer : (if stored then owned.erase id else owned) ⊆ owned := by
    cases stored with
    | true => exact erase_subset id owned
    | false => exact Finset.Subset.refl _
  have isMine : ∀ other, entry.txPin = some other → other ∈ owned := by
    intro other pins
    rw [isPin] at pins
    cases pins
    exact mine
  obtain ⟨outcome, pinned⟩ := pinned_tryStoreAppDedup h result isMine fewer kept
  obtain ⟨returned, tx, dedup⟩ := exec_noteDedupStore usable request outcome
  refine ⟨stored, returned, ?_⟩
  rw [Pinned, tx, dedup]
  exact pinned

/-! ### Acknowledgements as replies -/

theorem exec_rememberEmptyAck (dest : η) (mid : MessageId) (request : Code) (s : State η cfg) :
    exec (rememberEmptyAck dest mid request) s =
      exec (do let _ ← noteDedupStore (ackRow cfg mid dest (dedupDueMs s.now)) request) s := by
  obtain ⟨out, encoded, taken, -⟩ := encode_ackWire cfg mid
  rw [rememberEmptyAck, exec_get_bind]
  generalize dedupDueMs s.now = due
  simp only [encoded, taken, ackRow]

/-- Keep an empty acknowledgement, whatever is then taken to be remembered for its key. -/
theorem pinned_rememberEmptyAck (h : Pinned owned last s) (dest : η) (mid : MessageId)
    (elsewhere : ∀ k, k ≠ ⟨mid, dest⟩ → last' k = last k) (request : Code) :
    Pinned owned last' (exec (rememberEmptyAck dest mid request) s).2 := by
  rw [exec_rememberEmptyAck, state_discard]
  have row := ackRow_eq cfg mid dest (dedupDueMs s.now)
  apply pinned_store_inline h
  · rw [row]
  · rw [row]
    exact elsewhere
  · rw [row]
    exact nofun
  rw [row]
  rintro _ ⟨⟩
  exact .inl rfl

/-- A row that gives up its slot keeps an empty acknowledgement. -/
theorem pinned_evictOneDedupPin : Costs (fun _ s t => Pinned owned last s → Pinned owned last t)
    (evictOneDedupPin : Act η cfg Bool) fun _ => 0 := by
  intro s h
  simp only [evictOneDedupPin, exec_get_bind]
  cases oldest : oldestPinned s.dedup with
  | none => exact h
  | some entry =>
  have held := holds_oldestPinned oldest
  obtain ⟨tx, released, same, others⟩ := exec_releasePin entry.txPin s
  obtain ⟨out, encoded, taken, -⟩ := encode_ackWire cfg entry.key.messageId
  simp only
  rw [exec_bind_ok released]
  simp only [exec_bind, exec_modify, encoded, taken]
  obtain ⟨id, table, inserted, rows⟩ := insert_remove
    (ackRow cfg entry.key.messageId entry.key.endpoint entry.dueMs) held
    fun other ne rest isKey => ne (eq_of_key held rest (isKey.trans (by rw [ackRow_eq])))
  simp only [ackRow] at inserted
  rw [inserted]
  -- Without the row its slot is nobody's; the new row holds none.
  have without : Pins cfg owned last tx fun row => s.dedup.Holds row ∧ row ≠ entry := by
    cases pin : entry.txPin with
    | none =>
      rw [same pin]
      exact h.sub fun _ isRow => isRow.1
    | some id => exact h.unpin held pin (fun _ isRow => isRow) (others id pin)
  have row := ackRow_eq cfg entry.key.messageId entry.key.endpoint entry.dueMs
  refine without.insert_inline (by rw [row]) ?_ fun other isRow =>
    ((rows other).mp isRow).imp_right And.symm
  rw [row]
  rintro _ ⟨⟩
  exact .inl rfl

theorem pinned_expireRequestDedup : Costs (fun _ s t => Pinned owned last s → Pinned owned last t)
    (expireRequestDedup : Act η cfg Unit) fun _ => 0 := by
  refine .bind (fun _ => id) fun _ => ?_
  refine .get_bind fun s => .forM fun i => ?_
  intro s h
  simp only [expireDedupSlot, exec_get_bind]
  cases found : s.dedup.entry i with
  | none => exact h
  | some entry =>
  simp only
  split
  · exact pinned_releaseDedupRow h (holds_of_entry found)
  · exact h

theorem pinned_acquireTxOrEvict (h : Pinned owned last s) :
    (∃ id, (exec acquireTxOrEvict s).1 = .ok (some id) ∧
      Pinned (insert id owned) last (exec acquireTxOrEvict s).2) ∨
    (∀ id, (exec acquireTxOrEvict s).1 ≠ .ok (some id)) ∧
      Pinned owned last (exec acquireTxOrEvict s).2 := by
  have kept := costs_evictPins pinned_evictOneDedupPin s h
  rw [acquireTxOrEvict, exec_bind]
  generalize exec evictPins s = reached at kept
  obtain ⟨outcome | _, t⟩ := reached
  · exact .inr ⟨nofun, kept⟩
  simp only [ordinaryTx, exec_get_bind]
  split
  · exact .inr ⟨nofun, kept⟩
  refine (pinned_acquireTx kept).imp_right fun ⟨full, pinned⟩ => ⟨?_, pinned⟩
  rw [full]
  exact nofun

/-! ### Keeping and replaying a reply -/

/-- What is remembered after the reply in slot `tx` is kept. An empty slot holds no reply, and
only replies to Confirmable requests are kept. -/
def remembered (last : DedupKey η → Option (Reply η)) (s : State η cfg) (tx : Nat) (dest : η)
    (mid : MessageId) (requestTy : MsgType) : DedupKey η → Option (Reply η) :=
  match s.tx.slot tx with
  | .error _ => last
  | .ok slot =>
  if requestTy = .confirmable ∧ slot.packet.bytes ≠ [] then
    update last ⟨mid, dest⟩ (some ⟨slot.packet, slot.endpoint⟩)
  else last

theorem exec_rememberTxReply (at_ : s.tx.slot tx = .ok slot) (dest : η) (mid : MessageId)
    (request : Code) : ∃ due, exec (rememberTxReply tx dest mid .confirmable request) s =
      if slot.packet.bytes.length ≤ replayMax then
        exec (do
          let _ ← noteDedupStore (((new mid dest).withDueMs due).withReplay slot.packet) request
          return false) s
      else exec (noteDedupStore (((new mid dest).withDueMs due).withTxPin tx) request) s := by
  refine ⟨dedupDueMs s.now, ?_⟩
  rw [rememberTxReply, if_neg (by decide), exec_get_bind, at_]
  generalize dedupDueMs s.now = due
  simp only
  split <;> rfl

/-- Keep a short reply inline: the caller keeps its slot. -/
theorem pinned_keep_copy (h : Pinned owned last s)
    (short : slot.packet.bytes.length ≤ replayMax) (dest : η) (mid : MessageId)
    (due : Nat) (request : Code) : Pinned owned
      (if slot.packet.bytes ≠ [] then
        update last ⟨mid, dest⟩ (some ⟨slot.packet, slot.endpoint⟩)
      else last)
      (exec (noteDedupStore (((new mid dest).withDueMs due).withReplay slot.packet)
        request) s).2 := by
  have fits := Nat.not_lt.mpr short
  have row : ((new mid dest : DedupEntry η Sealing).withDueMs due).withReplay slot.packet =
      ⟨⟨mid, dest⟩, due, if slot.packet.bytes.isEmpty then none else some slot.packet, none⟩ := by
    simp only [withReplay, if_neg fits]
    rfl
  rw [row]
  apply pinned_store_inline h rfl
  · intro k ne
    split
    · exact update_of_ne ne _ _
    · rfl
  · intro unusable
    by_cases empty : slot.packet.bytes = [] <;> simp_all
  intro packet isReply
  by_cases empty : slot.packet.bytes = []
  · simp [empty] at isReply
  simp only [List.isEmpty_iff, empty, if_false, Option.some.injEq] at isReply
  subst isReply
  exact .inr ⟨⟨slot.packet, slot.endpoint⟩, by simp [empty], rfl⟩

theorem pinned_rememberTxReply (h : Pinned owned last s) (mine : tx ∈ owned) (dest : η)
    (mid : MessageId) (requestTy : MsgType) (request : Code) :
    ∃ kept, (exec (rememberTxReply tx dest mid requestTy request) s).1 = .ok kept ∧
      Pinned (if kept then owned.erase tx else owned) (remembered last s tx dest mid requestTy)
        (exec (rememberTxReply tx dest mid requestTy request) s).2 := by
  obtain ⟨slot, at_⟩ := h.held tx mine
  by_cases con : requestTy = .confirmable
  case neg =>
    have same : remembered last s tx dest mid requestTy = last := by simp [remembered, at_, con]
    rw [rememberTxReply, if_pos con, same]
    exact ⟨false, rfl, h⟩
  subst con
  obtain ⟨due, whole⟩ := exec_rememberTxReply at_ dest mid request
  rw [whole]
  by_cases short : slot.packet.bytes.length ≤ replayMax
  · have kept := pinned_keep_copy h short dest mid due request
    obtain ⟨stored, returns⟩ := noteDedupStore_returns
      (((new mid dest).withDueMs due).withReplay slot.packet) request s
    rw [if_pos short, exec_bind_ok (Prod.ext returns rfl)]
    refine ⟨false, rfl, ?_⟩
    simp only [remembered, at_, true_and]
    exact kept
  have nonempty : slot.packet.bytes ≠ [] := by
    intro empty
    rw [empty] at short
    exact short (Nat.zero_le _)
  simp only [if_neg short, remembered, at_, nonempty, ne_eq, not_false_eq_true, and_self, if_true]
  apply pinned_store_pin h rfl rfl mine at_
  · exact fun k ne => update_of_ne ne _ _
  · exact update_self _ _ _

section

variable (dest : η) (mid : MessageId) (code : Code)

theorem pinned_ackAgain : Costs (fun _ s t => Pinned owned last s → Pinned owned last t) (do
      rememberEmptyAck dest mid code
      sendEmptyAck dest mid
      return true : Act η cfg Bool) fun _ => 0 := by
  refine .bind (fun s h => pinned_rememberEmptyAck h dest mid (fun _ _ => rfl) code) fun _ => ?_
  refine .bind (fun s h => ?_) fun _ => .pure _
  exact h.of_frame (framed_sendEmpty dest _ s)

theorem pinned_replayClosed : Costs (fun _ s t => Pinned owned last s → Pinned owned last t)
      (replayClosed dest mid code : Act η cfg Bool) fun _ => 0 := by
  refine .get_bind fun s => ?_
  split
  · exact .pure _
  split
  · exact .pure _
  split
  · exact .bind (fun _ => id) fun _ => .pure _
  · exact pinned_ackAgain dest mid code

/-- Answering a duplicate keeps what rows and callers hold. -/
theorem pinned_replayConRequest : Costs (fun _ s t => Pinned owned last s → Pinned owned last t)
      (replayConRequest dest mid code : Act η cfg Bool) fun _ => 0 := by
  intro s h
  simp only [replayConRequest, exec_get_bind]
  cases found : s.dedup.find ⟨mid, dest⟩ with
  | none => exact pinned_replayClosed dest mid code s h
  | some entry =>
  have held := (find_eq_some.mp found).1
  simp only
  split
  · exact (Ledger.ofInvariant (Pinned owned last)).step
      (fun h => pinned_releaseDedupRow h held) (fun _ t _ => pinned_replayClosed dest mid code t) h
  split
  next packet _ =>
    exact h.of_frame ((framed_sendReplayBytes dest packet).bind (fun _ => .pure _) s)
  next tx _ _ => exact h.of_frame ((framed_sendTx ∅ tx).bind (fun _ => .pure _) s)
  · split
    · exact h
    · exact pinned_ackAgain dest mid code s h

end

end Keeping

end Coaptic.App
