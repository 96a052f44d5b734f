import Coaptic.App.Effect

/-!
# Answering a request again

History of answered Confirmable requests: which reply is kept for which request, what a duplicate
gets, and which requests are turned away when datagram slots run short. A program of this module
keeps the table as `Keeps` says.
-/
namespace Coaptic.App

open Codec Block Program DedupTable Quiet Option DedupEntry

variable {η : Type} {cfg : Config}

/-! ### Empty messages -/

def orRelease {α : Type} (tx : Nat) (p : Act η cfg α) : Act η cfg α := do
  match ← attempt p with
  | .ok a => return a
  | .error e =>
    releaseTx tx
    throw e

theorem Calm.orRelease {α : Type} {tx : Nat} {p : Act η cfg α} (h : Calm p) :
    Calm (App.orRelease tx p) := by
  refine h.attempt.bind fun outcome => ?_
  cases outcome with
  | ok a => exact .pure a
  | error e => exact (calm_releaseTx tx).bind fun _ => .throw e

section

variable (dest : η)

def sendEmpty (msg : Message cfg.maxLen) : Act η cfg Unit := do
  match ← acquireTx with
  | none => throw .saturated
  | some tx =>
    orRelease tx (encodeTx tx msg)
    orRelease tx (setTxEndpoint tx dest)
    sendAndRelease tx

def sendEmptyAck (mid : MessageId) : Act η cfg Unit := sendEmpty dest (.emptyAck mid)

theorem calm_sendEmpty (msg : Message cfg.maxLen) : Calm (sendEmpty dest msg : Act η cfg Unit) := by
  refine calm_acquireTx.bind fun acquired => ?_
  cases acquired with
  | none => exact .throw _
  | some tx =>
    refine (calm_encodeTx tx msg).orRelease.bind fun _ => ?_
    exact (calm_setTxEndpoint tx dest).orRelease.bind fun _ => calm_sendAndRelease tx

theorem calm_sendEmptyAck (mid : MessageId) :
    Calm (sendEmptyAck dest mid : Act η cfg Unit) := calm_sendEmpty dest _

end

/-! ### Rows -/

/-- GET, PUT, DELETE and iPATCH may run again for a duplicate whose reply is gone. -/
def requestMayRerunOnDuplicate (code : Code) : Bool :=
  code == .get || code == .put || code == .delete || code == .iPatch

def releasePin : Option Nat → Act η cfg Unit
  | none => pure ()
  | some tx => releaseTx tx

theorem calm_releasePin (pin : Option Nat) : Calm (releasePin pin : Act η cfg Unit) := by
  cases pin with
  | none => exact .pure _
  | some tx => exact calm_releaseTx tx

/-- Whatever is done to the closed key costs nothing. -/
theorem calm_dedupClosed (f : State η cfg → Option (DedupClosed η)) :
    Calm (modify fun s => { s with dedupClosed := f s } : Act η cfg Unit) := fun _ =>
  ⟨rfl, rfl, rfl⟩

variable [DecidableEq η]

section

variable (entry : DedupEntry η Sealing)

/-- Store a row, and give back the slot that the row it replaces held. -/
def tryStoreAppDedup : Act η cfg Bool := do
  let (stored, pin) ← modifyGet fun s =>
    let (stored, pin, dedup) := s.dedup.tryStoreApp entry
    ((stored, pin), { s with
      dedup
      stored := if stored then s.stored ++ [(entry.key, entry.dueMs)] else s.stored })
  releasePin pin
  return stored

/-- A row without a reply is not stored. -/
def storeRequestDedup : Act η cfg Bool :=
  if entry.hasUsableReplay then tryStoreAppDedup entry else pure false

/-- Remember a request whose row is not stored, unless it may run again. -/
def noteClosed (key : DedupKey η) (due : Nat) (request : Code) : Act η cfg Unit := modify fun s =>
  { s with dedupClosed :=
      if requestMayRerunOnDuplicate request || s.dedupClosed.any (·.key == key) then s.dedupClosed
      else some ⟨key, due⟩ }

/-- Store a row. A POST, PATCH or FETCH whose row is not stored is remembered on its own, one at a
time. -/
def noteDedupStore (request : Code) : Act η cfg Bool := do
  if ← storeRequestDedup entry then
    modify fun s => { s with dedupClosed := s.dedupClosed.filter (·.key != entry.key) }
    return true
  else
    noteClosed entry.key entry.dueMs request
    return false

end

section

variable (dest : η) (mid : MessageId)

/-- Keep an empty acknowledgement as the reply. -/
def rememberEmptyAck (request : Code) : Act η cfg Unit := do
  let due := dedupDueMs (← get).now
  match Codec.encode (.emptyAck mid : Message cfg.maxLen) (List.replicate 16 0) with
  | (.error _, _) =>
    noteClosed ⟨mid, dest⟩ due request
  | (.ok n, out) =>
    let entry := ((DedupEntry.new mid dest).withDueMs due).withReplay ⟨out.take n, none⟩
    let _ ← noteDedupStore entry request

/-- Keep the staged reply to a Confirmable request: a copy if it is short, else its slot. Returns
whether the slot is kept. -/
def rememberTxReply (tx : Nat) (dest : η) (mid : MessageId) (requestTy : MsgType)
    (request : Code) : Act η cfg Bool := do
  if requestTy ≠ .confirmable then return false
  else
    let s ← get
    match s.tx.slot tx with
    | .error _ =>
      rememberEmptyAck dest mid request
      return false
    | .ok slot =>
      let entry := (DedupEntry.new mid dest).withDueMs (dedupDueMs s.now)
      if slot.packet.bytes.length ≤ DedupEntry.replayMax then
        let _ ← noteDedupStore (entry.withReplay slot.packet) request
        return false
      else noteDedupStore (entry.withTxPin tx) request

def releaseDedupRow (entry : DedupEntry η Sealing) : Act η cfg Unit := do
  releasePin entry.txPin
  modify fun s => { s with dedup := s.dedup.remove entry.key }

def expireDedupSlot (i : Nat) : Act η cfg Unit := do
  let s ← get
  match s.dedup.entry i with
  | none => pure ()
  | some entry => if entry.dueMs ≠ 0 ∧ entry.dueMs ≤ s.now then releaseDedupRow entry

def expireRequestDedup : Act η cfg Unit := do
  modify fun s => { s with
    dedupClosed := s.dedupClosed.filter fun closed => !(closed.dueMs != 0 && closed.dueMs ≤ s.now) }
  (List.range (← get).dedup.entries.length).forM expireDedupSlot

def oldestPinned (table : DedupTable η Sealing) : Option (DedupEntry η Sealing) :=
  (table.entries.map (·.filter (·.txPin.isSome))).foldl DedupTable.older none

/-- Free the slot that the oldest such row holds. The row then keeps an empty acknowledgement. -/
def evictOneDedupPin : Act η cfg Bool := do
  match oldestPinned (← get).dedup with
  | none => return false
  | some entry =>
    releasePin entry.txPin
    modify fun s =>
      let rest := s.dedup.remove entry.key
      match Codec.encode (.emptyAck entry.key.messageId : Message cfg.maxLen)
          (List.replicate 16 0) with
      | (.error _, _) => { s with dedup := rest }
      | (.ok n, out) =>
        let row := ((DedupEntry.new entry.key.messageId entry.key.endpoint).withDueMs
          entry.dueMs).withReplay ⟨out.take n, none⟩
        match rest.insert row with
        | none => { s with dedup := rest }
        | some (_, dedup) => { s with dedup }
    return true

/-! ### Admission -/

def txHeadroom : Nat := 1

def evictPins : Act η cfg Unit := do
  if (← get).tx.free ≤ txHeadroom then
    if ← evictOneDedupPin then
      if (← get).tx.free ≤ txHeadroom then
        let _ ← evictOneDedupPin

def ordinaryTx : Act η cfg (Option Nat) := do
  if (← get).tx.free ≤ txHeadroom then return none else acquireTx

def acquireTxOrEvict : Act η cfg (Option Nat) := do
  evictPins
  ordinaryTx

/-! ### Duplicates -/

/-- A duplicate without a row: the one request whose row was not stored is acknowledged. -/
def replayClosed (code : Code) : Act η cfg Bool := do
  let s ← get
  match s.dedupClosed with
  | none => return false
  | some closed =>
    if requestMayRerunOnDuplicate code || closed.key != ⟨mid, dest⟩ then return false
    else if closed.dueMs != 0 && closed.dueMs ≤ s.now then
      modify fun s => { s with dedupClosed := none }
      return false
    else
      rememberEmptyAck dest mid code
      sendEmptyAck dest mid
      return true

def sendReplayBytes (packet : Packet Sealing) : Act η cfg Unit := do
  match ← acquireTx with
  | none => throw .saturated
  | some tx =>
    if cfg.txBytes < packet.bytes.length then
      releaseTx tx
      throw (.slot .lengthExceedsSlot)
    else
      fillTx tx packet
      setTxEndpoint tx dest
      sendAndRelease tx

/-- Answer a Confirmable message from history. Returns whether it was answered. -/
def replayConRequest (code : Code) : Act η cfg Bool := do
  let s ← get
  match s.dedup.find ⟨mid, dest⟩ with
  | none => replayClosed dest mid code
  | some entry =>
    if entry.dueMs ≠ 0 ∧ entry.dueMs ≤ s.now then
      releaseDedupRow entry
      replayClosed dest mid code
    else
      match entry.replay, entry.txPin with
      | some packet, _ =>
        sendReplayBytes dest packet
        return true
      | none, some tx =>
        sendTx tx
        return true
      | none, none =>
        if requestMayRerunOnDuplicate code then return false
        else
          rememberEmptyAck dest mid code
          sendEmptyAck dest mid
          return true

end

/-! ### What the programs do -/

variable {key : DedupKey η}

variable {table : DedupTable η Sealing} {entry row : DedupEntry η Sealing} {s t : State η cfg}

theorem lapses_of_find (h : table.find row.key = some row) :
    lapses table row.key = some row.dueMs := by
  rw [lapses, h, map_some]

theorem dedupDueMs_pos (now : Nat) : 0 < dedupDueMs now := by
  unfold dedupDueMs exchangeLifetimeMs
  omega

/-- With a row stored now, every row still lapses. -/
theorem lapse_of_store (lapse : ∀ k, lapses s.dedup k ≠ some 0)
    (due : entry.dueMs = dedupDueMs s.now)
    (rows : ∀ other, table.Holds other → other = entry ∨ s.dedup.Holds other) (k : DedupKey η) :
    lapses table k ≠ some 0 := by
  intro zero
  obtain ⟨row, found, isZero⟩ := map_eq_some_iff.mp zero
  obtain ⟨held, rfl⟩ := find_eq_some.mp found
  rcases rows row held with rfl | old
  · have := dedupDueMs_pos s.now
    omega
  · exact lapse row.key (isZero ▸ lapses_of_find (find_eq_some.mpr ⟨old, rfl⟩))

/-- When every row lapses and there is a slot at all, a store succeeds. -/
theorem tryStoreApp_of_lapse (lapse : ∀ k, lapses s.dedup k ≠ some 0)
    (slots : 0 < s.dedup.entries.length) (entry : DedupEntry η Sealing) :
    ∃ pin table, s.dedup.tryStoreApp entry = (true, pin, table) ∧
      (s.dedup.Replaces table entry ∨ ∃ old, s.dedup.Evicts table entry old) := by
  obtain ⟨pin, table, stores, kind⟩ :=
    tryStoreApp_spec s.dedup entry (fun other held zero =>
      lapse other.key (zero ▸ lapses_of_find (find_eq_some.mpr ⟨held, rfl⟩))) slots
  exact ⟨pin, table, stores, kind⟩

/-- A table without slots retains nothing, and need not. -/
theorem Covered.of_empty (empty : s.dedup.entries.length = 0)
    (newest : ∀ entry ∈ s.stored, entry.2 ≤ dedupDueMs s.now) : Covered s := by
  have none : ∀ k, lapses s.dedup k = none := by
    intro k
    rw [lapses, find_eq_none.mpr fun row held => absurd held (not_holds_of_empty empty row),
      map_none]
  refine ⟨⟨fun k due row => ?_, fun k due _ _ => .inr (by omega)⟩, newest, fun k => by simp [none k]⟩
  rw [none k] at row
  cases row

/-- A store leaves the rows of other keys, or takes the oldest one of a full table. -/
theorem Covered.store (h : Covered s) (due : entry.dueMs = dedupDueMs s.now)
    (capacity : table.entries.length = s.dedup.entries.length)
    (rows : ∀ other, table.Holds other → other = entry ∨ s.dedup.Holds other)
    (kind : s.dedup.Replaces table entry ∨ ∃ old, s.dedup.Evicts table entry old) :
    Covered ({ s with dedup := table, stored := s.stored ++ [(entry.key, entry.dueMs)] } :
      State η cfg) where
  covers := by
    have newest := due ▸ h.newest
    simp only [capacity]
    rcases kind with replaces | ⟨old, evicts⟩
    · exact h.covers.store newest (lapses_of_find replaces.stored) fun k ne =>
        .inl (by rw [lapses, replaces.others k ne, lapses])
    obtain ⟨keys, card, held⟩ := keys_of_full evicts.full
    apply h.covers.store newest (lapses_of_find evicts.stored)
    intro k ne
    by_cases isOld : k = old.key
    · subst isOld
      refine .inr ⟨by rw [lapses, evicts.gone, map_none], fun least isLeast => ?_⟩
      rw [lapses_of_find evicts.held] at isLeast
      cases isLeast
      apply h.covers.outlived newest card
      · intro k mem
        rw [lapses, isSome_map]
        exact held k mem
      · exact lapses_of_find evicts.held
      · rw [lapses, evicts.new, map_none]
      intro k due isRow
      obtain ⟨row, found, rfl⟩ := map_eq_some_iff.mp isRow
      exact evicts.least row (find_eq_some.mp found).1
    · exact .inl (by rw [lapses, evicts.others k ne isOld, lapses])
  newest old mem := by
    rcases List.mem_append.mp mem with before | last
    · exact h.newest old before
    · rw [List.mem_singleton.mp last, due]
  lapse := lapse_of_store h.lapse due rows

/-- Storing a row that lapses one exchange lifetime from now. -/
theorem Keeps.of_tryStoreApp {stored : Bool} {pin : Option Nat}
    (result : s.dedup.tryStoreApp entry = (stored, pin, table))
    (due : entry.dueMs = dedupDueMs s.now) : Keeps s { s with
      dedup := table
      stored := if stored then s.stored ++ [(entry.key, entry.dueMs)] else s.stored } := by
  have capacity := length_tryStoreApp s.dedup entry
  rw [result] at capacity
  have rows : ∀ other, table.Holds other → other = entry ∨ s.dedup.Holds other := by
    intro other held
    exact holds_of_tryStoreApp (by rwa [result])
  refine ⟨capacity, fun h => ?_⟩
  rcases Nat.eq_zero_or_pos s.dedup.entries.length with empty | slots
  · apply Covered.of_empty (capacity.trans empty)
    intro old mem
    cases stored with
    | false => exact h.newest old mem
    | true =>
    rcases List.mem_append.mp mem with before | last
    · exact h.newest old before
    · rw [List.mem_singleton.mp last]
      exact due.le
  obtain ⟨pin', table', stores, kind⟩ := tryStoreApp_of_lapse h.lapse slots entry
  rw [result] at stores
  cases stores
  exact h.store due capacity rows kind

theorem keeps_tryStoreAppDedup (due : entry.dueMs = dedupDueMs s.now) :
    Keeps s (exec (tryStoreAppDedup entry) s).2 := by
  refine keepsLedger.step ?_ fun (_, pin) t _ => ?_
  · rw [exec_modifyGet]
    generalize result : s.dedup.tryStoreApp entry = r
    obtain ⟨stored, pin, table⟩ := r
    exact Keeps.of_tryStoreApp result due
  · exact keeps (((calm_releasePin pin).bind fun _ => .pure _) t)

theorem keeps_storeRequestDedup (due : entry.dueMs = dedupDueMs s.now) :
    Keeps s (exec (storeRequestDedup entry) s).2 := by
  unfold storeRequestDedup
  split
  · exact keeps_tryStoreAppDedup due
  · exact (refl s).keeps

theorem keeps_noteDedupStore (due : entry.dueMs = dedupDueMs s.now) (request : Code) :
    Keeps s (exec (noteDedupStore entry request) s).2 := by
  refine keepsLedger.step (keeps_storeRequestDedup due) fun stored t _ => ?_
  cases stored with
  | true => exact keeps (((calm_dedupClosed _).bind fun _ => .pure _) t)
  | false => exact keeps (((calm_dedupClosed _).bind fun _ => .pure _) t)

theorem keeps_rememberEmptyAck (dest : η) (mid : MessageId) (request : Code) :
    Costs (fun _ => @Keeps η cfg _) (rememberEmptyAck dest mid request) fun _ => 0 := by
  intro s
  unfold rememberEmptyAck
  rw [exec_get_bind]
  split
  · exact keeps (calm_dedupClosed _ s)
  · refine keepsLedger.step ?_ fun _ t _ => (refl t).keeps
    exact keeps_noteDedupStore (by rw [dueMs_withReplay]; rfl) _

theorem keeps_rememberTxReply (tx : Nat) (dest : η) (mid : MessageId) (requestTy : MsgType)
    (request : Code) :
    Costs (fun _ => @Keeps η cfg _) (rememberTxReply tx dest mid requestTy request)
      fun _ => 0 := by
  intro s
  unfold rememberTxReply
  split
  · exact (refl s).keeps
  rw [exec_get_bind]
  cases held : s.tx.slot tx with
  | error e =>
    exact keepsLedger.step (keeps_rememberEmptyAck dest mid request s)
      fun _ t _ => (refl t).keeps
  | ok slot =>
  simp only
  split
  · refine keepsLedger.step ?_ fun _ t _ => (refl t).keeps
    exact keeps_noteDedupStore (by rw [dueMs_withReplay]; rfl) _
  · exact keeps_noteDedupStore (by rfl) _

/-- Removing the row of a key whose time has come, or that has none. -/
theorem keeps_remove (k : DedupKey η) (lapsed : ∀ due, lapses s.dedup k = some due → due ≤ s.now) :
    Keeps s { s with dedup := s.dedup.remove k } := by
  refine Keeps.of_lapse rfl (length_remove _ _) fun other => ?_
  by_cases eq : other = k
  · subst eq
    refine .inr ⟨?_, lapsed⟩
    have gone : (s.dedup.remove other).find other = none :=
      find_eq_none.mpr fun row held => ((holds_remove _ _ _).mp held).1
    rw [lapses, gone, map_none]
  refine .inl ?_
  have same : (s.dedup.remove k).find other = s.dedup.find other :=
    find_congr fun row isKey => by
      rw [holds_remove, isKey]
      exact and_iff_right eq
  rw [lapses, same, lapses]

/-- A row that has lapsed may be released, whoever asks. -/
theorem keeps_releaseDedupRow (held : s.dedup.Holds entry) (lapsed : entry.dueMs ≤ s.now) :
    Keeps s (exec (releaseDedupRow entry) s).2 := by
  have calm := calm_releasePin entry.txPin s
  refine keepsLedger.step calm.keeps fun _ t reached => ?_
  rw [reached] at calm
  refine keeps_remove entry.key fun due isDue => ?_
  rw [calm.dedup, lapses_of_find (find_eq_some.mpr ⟨held, rfl⟩)] at isDue
  cases isDue
  rw [calm.now]
  exact lapsed

theorem keeps_expireDedupSlot (i : Nat) :
    Costs (fun _ => @Keeps η cfg _) (expireDedupSlot i) fun _ => 0 := by
  intro s
  unfold expireDedupSlot
  rw [exec_get_bind]
  cases found : s.dedup.entry i with
  | none => exact (refl s).keeps
  | some entry =>
  simp only
  split
  next due => exact keeps_releaseDedupRow (holds_of_entry found) due.2
  · exact (refl s).keeps

theorem keeps_expireRequestDedup :
    Costs (fun _ => @Keeps η cfg _) expireRequestDedup fun _ => 0 := by
  refine (calm_dedupClosed _).keeps.bind fun _ => ?_
  refine .get_bind fun s => ?_
  exact .forM keeps_expireDedupSlot

omit [DecidableEq η] in
theorem holds_oldestPinned (h : oldestPinned table = some entry) : table.Holds entry := by
  have met := (foldl_older _ none).1 entry h
  obtain ⟨slot, mem, kept⟩ := List.mem_map.mp (met.resolve_left (by simp))
  have isRow := (filter_eq_some_iff.mp kept).1
  exact List.mem_iff_getElem?.mp (isRow ▸ mem)

/-- The row that replaces `entry` keeps its key and its time. -/
theorem lapses_insert_remove {table' : DedupTable η Sealing} (held : table.Holds entry)
    (isKey : row.key = entry.key) (due : row.dueMs = entry.dueMs)
    (holds : ∀ other, table'.Holds other ↔ other = row ∨ (other ≠ entry ∧ table.Holds other))
    (k : DedupKey η) : lapses table' k = lapses table k := by
  by_cases eq : k = entry.key
  · subst eq
    rw [lapses_of_find (find_eq_some.mpr ⟨held, rfl⟩), ← isKey, ← due]
    exact lapses_of_find (find_eq_some.mpr ⟨(holds row).mpr (.inl rfl), rfl⟩)
  · rw [lapses, find_insert_remove holds (isKey ▸ eq) eq, lapses]

theorem keeps_evictOneDedupPin : Costs (fun _ => @Keeps η cfg _) evictOneDedupPin fun _ => 0 := by
  intro s
  unfold evictOneDedupPin
  rw [exec_get_bind]
  cases oldest : oldestPinned s.dedup with
  | none => exact (refl s).keeps
  | some entry =>
  have calm := calm_releasePin entry.txPin s
  refine keepsLedger.step calm.keeps fun _ t reached => ?_
  rw [reached] at calm
  have held := calm.dedup ▸ holds_oldestPinned oldest
  refine keepsLedger.step ?_ fun _ u _ => (refl u).keeps
  obtain ⟨out, encoded, -⟩ := encode_emptyAck cfg.maxLen entry.key.messageId
  rw [exec_modify, encoded]
  simp only
  generalize isRow : ((new entry.key.messageId entry.key.endpoint).withDueMs
    entry.dueMs).withReplay (⟨out.take 4, none⟩ : Packet Sealing) = row
  have isKey : row.key = entry.key := by
    rw [← isRow, key_withReplay]
    rfl
  have due : row.dueMs = entry.dueMs := by
    rw [← isRow, dueMs_withReplay]
    rfl
  obtain ⟨id, table, inserted, holds⟩ := insert_remove row held
    fun other ne rest same => ne (eq_of_key held rest (same.trans isKey))
  rw [inserted]
  have length := (length_insert inserted).trans (length_remove ..)
  exact Keeps.of_lapse rfl length fun k => .inl (lapses_insert_remove held isKey due holds k)

theorem costs_evictPins {R : Nat → State η cfg → State η cfg → Prop} [Ledger R]
    (evicts : Costs R evictOneDedupPin fun _ => 0) : Costs R evictPins fun _ => 0 := by
  refine .get_bind fun s => ?_
  split
  · refine evicts.bind fun evicted => ?_
    split
    · refine .get_bind fun s => ?_
      split
      · exact evicts.bind fun _ => .pure _
      · exact .pure _
    · exact .pure _
  · exact .pure _

omit [DecidableEq η] in
theorem calm_ordinaryTx : Calm (ordinaryTx : Act η cfg (Option Nat)) := by
  refine .get_bind fun s => ?_
  split
  · exact .pure _
  · exact calm_acquireTx

theorem keeps_acquireTxOrEvict : Costs (fun _ => @Keeps η cfg _) acquireTxOrEvict fun _ => 0 :=
  (costs_evictPins keeps_evictOneDedupPin).bind fun _ => calm_ordinaryTx.keeps

theorem keeps_ackAgain (dest : η) (mid : MessageId) (code : Code) :
    Costs (fun _ => @Keeps η cfg _) (do
      rememberEmptyAck dest mid code
      sendEmptyAck dest mid
      return true) fun _ => 0 := by
  refine (keeps_rememberEmptyAck dest mid code).bind fun _ => ?_
  exact Calm.keeps ((calm_sendEmptyAck dest mid).bind fun _ => .pure _)

theorem keeps_replayClosed (dest : η) (mid : MessageId) (code : Code) :
    Costs (fun _ => @Keeps η cfg _) (replayClosed dest mid code) fun _ => 0 := by
  refine .get_bind fun s => ?_
  split
  · exact .pure _
  split
  · exact .pure _
  split
  · exact Calm.keeps ((calm_dedupClosed _).bind fun _ => .pure _)
  · exact keeps_ackAgain dest mid code

omit [DecidableEq η] in
theorem calm_sendReplayBytes (dest : η) (packet : Packet Sealing) :
    Calm (sendReplayBytes dest packet : Act η cfg Unit) := by
  refine calm_acquireTx.bind fun acquired => ?_
  cases acquired with
  | none => exact .throw _
  | some tx =>
  simp only
  split
  · exact (calm_releaseTx tx).bind fun _ => .throw _
  · exact (calm_modifyTx tx _).bind fun _ => (calm_setTxEndpoint tx dest).bind fun _ =>
      calm_sendAndRelease tx

theorem keeps_replayConRequest (dest : η) (mid : MessageId) (code : Code) :
    Costs (fun _ => @Keeps η cfg _) (replayConRequest dest mid code) fun _ => 0 := by
  intro s
  unfold replayConRequest
  rw [exec_get_bind]
  cases found : s.dedup.find ⟨mid, dest⟩ with
  | none => exact keeps_replayClosed dest mid code s
  | some entry =>
  have held := (find_eq_some.mp found).1
  simp only
  split
  next lapsed =>
    exact keepsLedger.step (keeps_releaseDedupRow held lapsed.2)
      fun _ t _ => keeps_replayClosed dest mid code t
  · split
    next isReply =>
      exact keepsLedger.step (calm_sendReplayBytes dest _ s).keeps
        fun _ t _ => (refl t).keeps
    next tx _ _ => exact keeps (((calm_sendTx tx).bind fun _ => .pure _) s)
    · split
      · exact (refl s).keeps
      · exact keeps_ackAgain dest mid code s

/-! ### What is sure to be stored, and what a miss means -/

omit [DecidableEq η] in
/-- A program that never returns `false`. -/
theorem ne_false_of_bind {p : Act η cfg Unit} :
    exec (p >>= fun _ => pure true) s ≠ (.ok false, t) := by
  rw [exec_bind]
  generalize exec p s = reached
  obtain ⟨outcome | a, u⟩ := reached <;> exact nofun

/-- A POST, PATCH or FETCH that misses has no row, or one that has lapsed. -/
theorem replayConRequest_miss {dest : η} {mid : MessageId} {code : Code}
    (h : exec (replayConRequest dest mid code) s = (.ok false, t))
    (strict : requestMayRerunOnDuplicate code = false) :
    ∀ due, lapses s.dedup ⟨mid, dest⟩ = some due → due ≤ s.now := by
  intro due isDue
  obtain ⟨entry, found, rfl⟩ := map_eq_some_iff.mp isDue
  unfold replayConRequest at h
  rw [exec_get_bind, found] at h
  simp only at h
  split at h
  next lapsed => exact lapsed.2
  · -- A live row answers, in whichever of the three ways.
    split at h
    · exact absurd h ne_false_of_bind
    · exact absurd h ne_false_of_bind
    rw [strict, if_neg (by decide), exec_bind] at h
    generalize exec (rememberEmptyAck dest mid code) s = reached at h
    obtain ⟨outcome | a, u⟩ := reached
    · cases h
    · exact absurd h ne_false_of_bind

end Coaptic.App
