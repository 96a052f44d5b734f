import Coaptic.App.Pins

/-!
# What a duplicate is answered

Runs of callers that acquire, write, send and release datagram slots, keep replies, and answer
duplicates. Whatever their order, a duplicate gets the reply last remembered for its Message ID
and peer, or an empty acknowledgement of its Message ID.
-/
namespace Coaptic.App

open Codec Block Program DedupTable Run

variable {η : Type} {cfg : Config}

/-! ### What is sent -/

abbrev Silent {α : Type} (p : Act η cfg α) : Prop :=
  Costs (fun _ (s t : State η cfg) => t.sent = s.sent) p fun _ => 0

instance silentLedger : Ledger (fun _ (s t : State η cfg) => t.sent = s.sent) where
  refl _ := rfl
  trans h h' := h'.trans h
  mono _ h := h

theorem silent_releaseTx (tx : Nat) : Silent (releaseTx tx : Act η cfg Unit) := by
  intro s
  simp only [releaseTx, exec_modify]
  split <;> rfl

variable {s : State η cfg} {tx : Nat} {slot : DatagramSlot η Sealing}

section

variable (at_ : s.tx.slot tx = .ok slot)
include at_

theorem exec_modifyTx (f : DatagramSlot η Sealing → DatagramSlot η Sealing) :
    exec (modifyTx tx f) s = (.ok (), { s with tx := s.tx.modifySlot tx f }) := by
  simp only [modifyTx, exec_get_bind, at_]
  rfl

/-- A staged datagram is sent as it is. -/
theorem sent_sendTx : (exec (sendTx tx) s).2.sent = s.sent ∨ ∃ dest, slot.endpoint = some dest ∧
      (exec (sendTx tx) s).2.sent = s.sent ++ [(dest, slot.packet)] := by
  simp only [sendTx, exec_get_bind, at_]
  cases peer : slot.endpoint with
  | none => exact .inl rfl
  | some dest =>
  refine .inr ⟨dest, rfl, ?_⟩
  simp only [answer, exec_bind, exec_modify, exec_modifyGet]
  split <;> rfl

theorem sent_sendAndRelease :
    (exec (sendAndRelease tx) s).2.sent = s.sent ∨ ∃ dest, slot.endpoint = some dest ∧
      (exec (sendAndRelease tx) s).2.sent = s.sent ++ [(dest, slot.packet)] := by
  have sent := sent_sendTx at_
  have quiet := silent_releaseTx tx (exec (sendTx tx) s).2
  have whole : (exec (sendAndRelease tx) s).2.sent = (exec (sendTx tx) s).2.sent := by
    rw [← quiet]
    simp only [sendAndRelease, exec_bind, exec_attempt]
    simp only [releaseTx, exec_modify]
    cases (exec (sendTx tx) s).1 <;> rfl
  rw [whole]
  exact sent

omit at_ in
theorem exec_orRelease {α : Type} (tx : Nat) (p : Act η cfg α) (s : State η cfg) :
    exec (orRelease tx p) s =
      match exec p s with
      | (.ok a, t) => (.ok a, t)
      | (.error e, t) => (.error e, (exec (releaseTx tx) t).2) := by
  simp only [orRelease, exec_bind, exec_attempt]
  generalize exec p s = reached
  obtain ⟨outcome | a, t⟩ := reached <;> rfl

theorem exec_encodeTx (msg : Message cfg.maxLen) : (∃ e, exec (encodeTx tx msg) s = (.error e, s)) ∨
      exec (encodeTx tx msg) s = (.ok (), { s with
        tx := s.tx.modifySlot tx fun slot => { slot with packet := ⟨wire msg.view, none⟩ } }) := by
  simp only [encodeTx, intoTx, exec_get_bind, at_, plainPacket]
  cases encoded : Codec.encode msg (List.replicate cfg.txBytes 0) with
  | mk outcome out =>
    cases outcome with
    | error e => exact .inl ⟨_, rfl⟩
    | ok n =>
    obtain ⟨-, -, rfl, rfl⟩ := encode_ok encoded
    refine .inr ?_
    simp only [exec_bind, exec_pure, exec_modify, List.take_left]

/-- A datagram in a slot is addressed and sent. -/
theorem sent_addressed (dest : η) :
    (exec (setTxEndpoint tx dest >>= fun _ => sendAndRelease tx) s).2.sent = s.sent ∨
      (exec (setTxEndpoint tx dest >>= fun _ => sendAndRelease tx) s).2.sent =
        s.sent ++ [(dest, slot.packet)] := by
  rw [setTxEndpoint, exec_bind_ok (exec_modifyTx at_ _)]
  have addressed : ({ s with tx := s.tx.modifySlot tx fun slot =>
      { slot with endpoint := some dest } } : State η cfg).tx.slot tx =
        .ok { slot with endpoint := some dest } := DatagramPool.slot_modifySlot at_
  rcases sent_sendAndRelease addressed with same | ⟨peer, isPeer, sent⟩
  · exact .inl same
  · cases isPeer
    exact .inr sent

theorem sent_encoded (dest : η) (msg : Message cfg.maxLen) : (exec (do
      orRelease tx (encodeTx tx msg)
      orRelease tx (setTxEndpoint tx dest)
      sendAndRelease tx) s).2.sent = s.sent ∨
    (exec (do
      orRelease tx (encodeTx tx msg)
      orRelease tx (setTxEndpoint tx dest)
      sendAndRelease tx) s).2.sent = s.sent ++ [(dest, ⟨wire msg.view, none⟩)] := by
  rcases exec_encodeTx at_ msg with ⟨e, failed⟩ | staged
  · have whole : exec (orRelease tx (encodeTx tx msg)) s = (.error e, (exec (releaseTx tx) s).2) := by
      rw [exec_orRelease, failed]
    rw [exec_bind_error whole]
    exact .inl (silent_releaseTx tx s)
  generalize reached : ({ s with tx := s.tx.modifySlot tx fun slot =>
    { slot with packet := ⟨wire msg.view, none⟩ } } : State η cfg) = t at staged
  have whole : exec (orRelease tx (encodeTx tx msg)) s = (.ok (), t) := by
    rw [exec_orRelease, staged]
  have holds : t.tx.slot tx = .ok { slot with packet := ⟨wire msg.view, none⟩ } :=
    reached ▸ DatagramPool.slot_modifySlot at_
  have same : t.sent = s.sent := reached ▸ rfl
  have rest : exec (orRelease tx (setTxEndpoint tx dest) >>= fun _ => sendAndRelease tx) t =
      exec (setTxEndpoint tx dest >>= fun _ => sendAndRelease tx) t := by
    rw [setTxEndpoint, exec_bind_ok (exec_modifyTx holds _), exec_bind_ok]
    rw [exec_orRelease, exec_modifyTx holds]
  rw [exec_bind_ok whole, rest, ← same]
  exact sent_addressed holds dest

end

/-- An empty message is sent to its peer, or not at all. -/
theorem sent_sendEmpty (dest : η) (msg : Message cfg.maxLen) (s : State η cfg) :
    (exec (sendEmpty dest msg) s).2.sent = s.sent ∨
      (exec (sendEmpty dest msg) s).2.sent = s.sent ++ [(dest, ⟨wire msg.view, none⟩)] := by
  simp only [sendEmpty, exec_bind, acquireTx, exec_modifyGet]
  cases acquired : s.tx.acquire with
  | none => exact .inl rfl
  | some result =>
  have blank : ({ s with tx := result.2 } : State η cfg).tx.slot result.1 = .ok .blank :=
    DatagramPool.slot_acquire acquired
  exact sent_encoded blank dest msg

/-- A reply kept inline is sent to the peer that asks, or not at all. -/
theorem sent_sendReplayBytes (dest : η) (packet : Packet Sealing) (s : State η cfg) :
    (exec (sendReplayBytes dest packet) s).2.sent = s.sent ∨
      (exec (sendReplayBytes dest packet) s).2.sent = s.sent ++ [(dest, packet)] := by
  simp only [sendReplayBytes, exec_bind, acquireTx, exec_modifyGet]
  cases acquired : s.tx.acquire with
  | none => exact .inl rfl
  | some result =>
  have blank : ({ s with tx := result.2 } : State η cfg).tx.slot result.1 = .ok .blank :=
    DatagramPool.slot_acquire acquired
  simp only
  split
  · exact .inl ((silent_releaseTx result.1).bind (fun _ => .throw _) _)
  have filled : ({ s with tx := result.2.modifySlot result.1 fun slot => { slot with packet } } :
      State η cfg).tx.slot result.1 = .ok { DatagramSlot.blank with packet } :=
    DatagramPool.slot_modifySlot blank
  rw [fillTx, exec_bind_ok (exec_modifyTx blank _)]
  exact sent_addressed filled dest

/-! ### The answer -/

/-- At most one datagram was sent: the reply last remembered for the request, or an empty
acknowledgement of it. -/
def Answered (last : DedupKey η → Option (Reply η)) (dest : η) (mid : MessageId)
    (s t : State η cfg) : Prop :=
  t.sent = s.sent ∨ ∃ peer packet, t.sent = s.sent ++ [(peer, packet)] ∧
    ((peer = dest ∧ packet.bytes = ackWire cfg mid) ∨
      ∃ reply, last ⟨mid, dest⟩ = some reply ∧ packet = reply.packet ∧
        (peer = dest ∨ reply.endpoint = some peer))

section Answering

variable {last : DedupKey η → Option (Reply η)} {owned : Finset Nat} {s : State η cfg}
  {α β : Type} {dest : η} {mid : MessageId} {p : Act η cfg α}

/-- What is silent may come before an answer. -/
theorem Answered.after {f : α → Act η cfg β} (silent : (exec p s).2.sent = s.sent)
    (rest : ∀ a t, exec p s = (.ok a, t) → Answered last dest mid t (exec (f a) t).2) :
    Answered last dest mid s (exec (p >>= f) s).2 := by
  rw [exec_bind]
  generalize reached : exec p s = r at silent
  obtain ⟨outcome | a, t⟩ := r
  · exact .inl silent
  have after := rest a t reached
  simp only at silent
  rw [Answered, silent] at after
  exact after

theorem Answered.discard {b : β} (h : Answered last dest mid s (exec p s).2) :
    Answered last dest mid s (exec (p >>= fun _ => pure b) s).2 := by
  rw [exec_bind]
  generalize exec p s = r at h
  obtain ⟨outcome | a, t⟩ := r <;> exact h

variable [DecidableEq η]

theorem silent_noteDedupStore (entry : DedupEntry η Sealing) (request : Code) :
    Silent (noteDedupStore entry request : Act η cfg Bool) := by
  have silentPin : ∀ pin, Silent (releasePin pin : Act η cfg Unit) := by
    rintro (_ | tx)
    · exact .pure _
    · exact silent_releaseTx tx
  have store : Silent (storeRequestDedup entry : Act η cfg Bool) := by
    rw [storeRequestDedup]
    split
    · refine .bind (fun _ => rfl) fun pin => ?_
      exact (silentPin pin.2).bind fun _ => .pure _
    · exact .pure _
  refine store.bind fun stored => ?_
  split
  · exact .bind (fun _ => rfl) fun _ => .pure _
  · exact .bind (fun _ => rfl) fun _ => .pure _

theorem silent_rememberEmptyAck (dest : η) (mid : MessageId) (request : Code) :
    Silent (rememberEmptyAck dest mid request : Act η cfg Unit) := by
  intro s
  rw [exec_rememberEmptyAck, state_discard]
  exact silent_noteDedupStore _ request s

theorem answered_ackAgain (dest : η) (mid : MessageId) (code : Code) (s : State η cfg) :
    Answered last dest mid s (exec (do
      rememberEmptyAck dest mid code
      sendEmptyAck dest mid
      return true : Act η cfg Bool) s).2 := by
  apply Answered.after (silent_rememberEmptyAck dest mid code s)
  intro _ t _
  apply Answered.discard
  rcases sent_sendEmpty dest (.emptyAck mid) t with same | sent
  · exact .inl same
  · exact .inr ⟨dest, _, sent, .inl ⟨rfl, rfl⟩⟩

theorem answered_replayClosed (dest : η) (mid : MessageId) (code : Code) (s : State η cfg) :
    Answered last dest mid s (exec (replayClosed dest mid code) s).2 := by
  simp only [replayClosed, exec_get_bind]
  split
  · exact .inl rfl
  split
  · exact .inl rfl
  split
  · exact .inl rfl
  · exact answered_ackAgain dest mid code s

/-- A duplicate gets the reply that was last remembered for it, or an empty acknowledgement. -/
theorem answered_replayConRequest (h : Pinned owned last s) (dest : η) (mid : MessageId)
    (code : Code) : Answered last dest mid s (exec (replayConRequest dest mid code) s).2 := by
  simp only [replayConRequest, exec_get_bind]
  cases found : s.dedup.find ⟨mid, dest⟩ with
  | none => exact answered_replayClosed dest mid code s
  | some entry =>
  obtain ⟨held, isKey⟩ := find_eq_some.mp found
  simp only
  split
  · refine Answered.after ?_ fun _ t _ => answered_replayClosed dest mid code t
    obtain ⟨tx, released, -⟩ := exec_releasePin entry.txPin s
    rw [releaseDedupRow, exec_bind_ok released, exec_modify]
  split
  next packet isReply =>
    apply Answered.discard
    rcases sent_sendReplayBytes dest packet s with same | sent
    · exact .inl same
    refine .inr ⟨dest, packet, sent, ?_⟩
    rcases h.inline entry packet held isReply with ack | ⟨reply, isLast, rfl⟩
    · exact .inl ⟨rfl, by rw [ack, isKey]⟩
    · exact .inr ⟨reply, isKey ▸ isLast, rfl, .inl rfl⟩
  next tx _ isPin =>
    obtain ⟨-, slot, at_, isLast⟩ := h.pinned entry tx held isPin
    apply Answered.discard
    rcases sent_sendTx at_ with same | ⟨peer, isPeer, sent⟩
    · exact .inl same
    · exact .inr ⟨peer, slot.packet, sent, .inr ⟨_, isKey ▸ isLast, rfl, .inr isPeer⟩⟩
  · split
    · exact .inl rfl
    · exact answered_ackAgain dest mid code s

end Answering

/-! ### Runs -/

/-- The App with its callers: the slots they hold, and what was last remembered for each key. -/
structure Host (η : Type) (cfg : Config) where
  app : State η cfg
  owned : Finset Nat
  last : DedupKey η → Option (Reply η)

namespace Host

def start (app : State η cfg) (slots entries : Nat) : Host η cfg where
  app := { app with tx := .new slots, dedup := .new entries, dedupClosed := none, stored := [] }
  owned := ∅
  last _ := none

/-- What callers do. A caller writes to, sends from, keeps and releases only slots it holds. -/
inductive Event (η : Type)
  | clock (now : Nat)
  | acquireTx
  | acquireTxOrEvict
  | write (tx : Nat) (packet : Packet Sealing) (endpoint : Option η) (pending : Option MessageId)
  | releaseTx (tx : Nat)
  | rememberTxReply (tx : Nat) (dest : η) (mid : MessageId) (requestTy : MsgType) (request : Code)
  | rememberEmptyAck (dest : η) (mid : MessageId) (request : Code)
  | replayConRequest (dest : η) (mid : MessageId) (code : Code)
  | expireRequestDedup

def acquired (host : Host η cfg) (result : Except Error (Option Nat) × State η cfg) : Host η cfg :=
  match result with
  | (.ok (some id), app) => { host with app, owned := insert id host.owned }
  | (_, app) => { host with app }

def release (host : Host η cfg) (tx : Nat) : Host η cfg :=
  { host with app := (exec (App.releaseTx tx) host.app).2, owned := host.owned.erase tx }

/-- Rows and callers hold what they should. -/
def Sound (host : Host η cfg) : Prop := Pinned host.owned host.last host.app

theorem Sound.start (app : State η cfg) (slots entries : Nat) :
    (start app slots entries).Sound := by
  have none : ∀ row, ¬(new entries : DedupTable η Sealing).Holds row := by
    rintro row ⟨i, at_⟩
    simp [new, List.getElem?_replicate] at at_
  refine ⟨by simp [Host.start], ?_, ?_, ?_⟩
  · exact fun row _ isRow => absurd isRow (none row)
  · exact fun row _ _ isRow => absurd isRow (none row)
  · exact fun row _ isRow => absurd isRow (none row)

variable {host : Host η cfg} {entries tx : Nat}

theorem Sound.release (sound : host.Sound) (mine : tx ∈ host.owned) : (host.release tx).Sound := by
  have frame := framed_releaseTx tx host.app
  rw [Sound, Pinned, Host.release]
  simp only
  rw [frame.dedup]
  exact Pins.release sound mine fun other slot ne => frame.slots other slot ne

theorem Sound.acquired {result : Except Error (Option Nat) × State η cfg}
    (h : (∃ id, result.1 = .ok (some id) ∧ Pinned (insert id host.owned) host.last result.2) ∨
      (∀ id, result.1 ≠ .ok (some id)) ∧ Pinned host.owned host.last result.2) :
    (host.acquired result).Sound := by
  obtain ⟨outcome, t⟩ := result
  rcases h with ⟨id, rfl, pinned⟩ | ⟨not, pinned⟩
  · exact pinned
  cases outcome with
  | error e => exact pinned
  | ok result =>
  cases result with
  | none => exact pinned
  | some id => exact absurd rfl (not id)

variable [DecidableEq η]

section

variable (host : Host η cfg)

/-- The slot goes to the row, or is released by the caller. -/
def remember (tx : Nat) (dest : η) (mid : MessageId) (requestTy : MsgType) (request : Code) :
    Host η cfg :=
  let last := remembered host.last host.app tx dest mid requestTy
  match exec (App.rememberTxReply tx dest mid requestTy request) host.app with
  | (.ok true, app) => { app, owned := host.owned.erase tx, last }
  | (_, app) => release { host with app, last } tx

def step : Event η → Host η cfg
  | .clock now => { host with app := { host.app with now } }
  | .acquireTx => host.acquired (exec App.acquireTx host.app)
  | .acquireTxOrEvict => host.acquired (exec App.acquireTxOrEvict host.app)
  | .write tx packet endpoint pending =>
    if tx ∈ host.owned then
      { host with app := { host.app with
          tx := host.app.tx.modifySlot tx fun _ => ⟨packet, endpoint, pending⟩ } }
    else host
  | .releaseTx tx => if tx ∈ host.owned then host.release tx else host
  | .rememberTxReply tx dest mid requestTy request =>
    if tx ∈ host.owned then host.remember tx dest mid requestTy request else host
  | .rememberEmptyAck dest mid request =>
    { host with
      app := (exec (App.rememberEmptyAck dest mid request) host.app).2
      last := Function.update host.last ⟨mid, dest⟩ (some ⟨⟨ackWire cfg mid, none⟩, some dest⟩) }
  | .replayConRequest dest mid code =>
    { host with app := (exec (App.replayConRequest dest mid code) host.app).2 }
  | .expireRequestDedup => { host with app := (exec App.expireRequestDedup host.app).2 }

def Forward : Event η → Prop
  | .clock now => host.app.now ≤ now
  | _ => True

end

theorem Sound.remember (sound : host.Sound) (mine : tx ∈ host.owned) (dest : η) (mid : MessageId)
    (requestTy : MsgType) (request : Code) :
    (host.remember tx dest mid requestTy request).Sound := by
  obtain ⟨kept, outcome, pinned⟩ := pinned_rememberTxReply sound mine dest mid requestTy request
  simp only [Host.remember]
  generalize exec (App.rememberTxReply tx dest mid requestTy request) host.app = reached
    at outcome pinned
  obtain ⟨_, t⟩ := reached
  subst outcome
  cases kept with
  | true => exact pinned
  | false =>
    have given : Sound ⟨t, host.owned, remembered host.last host.app tx dest mid requestTy⟩ := pinned
    exact given.release mine

theorem Sound.step (sound : host.Sound) (event : Event η) : (host.step event).Sound := by
  cases event with
  | clock now => exact sound
  | acquireTx =>
    apply Sound.acquired
    refine (pinned_acquireTx sound).imp_right fun ⟨full, pinned⟩ => ⟨?_, pinned⟩
    rw [full]
    exact nofun
  | acquireTxOrEvict => exact Sound.acquired (pinned_acquireTxOrEvict sound)
  | write tx packet endpoint pending =>
    simp only [Host.step]
    split
    next mine => exact Pins.write sound mine _
    · exact sound
  | releaseTx tx =>
    simp only [Host.step]
    split
    next mine => exact sound.release mine
    · exact sound
  | rememberTxReply tx dest mid requestTy request =>
    simp only [Host.step]
    split
    next mine => exact sound.remember mine dest mid requestTy request
    · exact sound
  | rememberEmptyAck dest mid request =>
    exact pinned_rememberEmptyAck sound dest mid (fun _ ne => Function.update_of_ne ne _ _) request
  | replayConRequest dest mid code => exact pinned_replayConRequest dest mid code host.app sound
  | expireRequestDedup => exact pinned_expireRequestDedup host.app sound

theorem Sound.run (app : State η cfg) (slots entries : Nat) (events : List (Event η)) :
    (run Host.step (Host.start app slots entries) events).Sound :=
  invariant_run (fun _ event sound => sound.step event) (Sound.start app slots entries) events

/-! ### What is retained -/

/-- The table has `entries` rows and retains what it should. -/
structure Retaining (entries : Nat) (app : State η cfg) : Prop where
  covered : Covered app
  capacity : app.dedup.entries.length = entries

theorem Retaining.start (app : State η cfg) (slots entries : Nat) :
    Retaining entries (Host.start app slots entries).app := by
  have none : ∀ k, lapses (new entries : DedupTable η Sealing) k = none := by
    intro k
    rw [lapses, find_eq_none.mpr, Option.map_none]
    rintro row ⟨i, at_⟩
    simp [new, List.getElem?_replicate] at at_
  refine ⟨⟨⟨fun k due row => ?_, by simp [Host.start]⟩, by simp [Host.start], fun k => ?_⟩, ?_⟩
  · simp only [Host.start, none] at row
    cases row
  · simp [Host.start, none]
  · simp [Host.start, new]

theorem Retaining.keeps {s t : State η cfg} (h : Retaining entries s) (keeps : Keeps s t) :
    Retaining entries t :=
  ⟨keeps.covered h.covered, keeps.capacity.trans h.capacity⟩

theorem Retaining.clock {app : State η cfg} (h : Retaining entries app) {now : Nat}
    (later : app.now ≤ now) : Retaining entries ({ app with now } : State η cfg) := by
  refine ⟨⟨h.covered.covers.later later, fun entry mem => ?_, h.covered.lapse⟩, h.capacity⟩
  have := h.covered.newest entry mem
  simp only [dedupDueMs] at this ⊢
  omega

theorem Retaining.step (h : Retaining entries host.app) (event : Event η)
    (forward : host.Forward event) : Retaining entries (host.step event).app := by
  have acquired : ∀ result, (host.acquired result).app = result.2 := by
    rintro ⟨_ | _ | _, t⟩ <;> rfl
  have calm : ∀ {α : Type} {p : Act η cfg α} {app : State η cfg}, Calm p → Retaining entries app →
      Retaining entries (exec p app).2 := fun quiet h => h.keeps (quiet _).keeps
  have keeps : ∀ {α : Type} {p : Act η cfg α}, Costs (fun _ => @Keeps η cfg _) p (fun _ => 0) →
      Retaining entries (exec p host.app).2 := fun costs => h.keeps (costs host.app)
  cases event with
  | clock now => exact h.clock forward
  | acquireTx =>
    rw [Host.step, acquired]
    exact calm calm_acquireTx h
  | acquireTxOrEvict =>
    rw [Host.step, acquired]
    exact keeps keeps_acquireTxOrEvict
  | write tx packet endpoint pending =>
    rw [Host.step]
    split
    · exact ⟨⟨h.covered.covers, h.covered.newest, h.covered.lapse⟩, h.capacity⟩
    · exact h
  | releaseTx tx =>
    rw [Host.step]
    split
    · exact calm (calm_releaseTx tx) h
    · exact h
  | rememberTxReply tx dest mid requestTy request =>
    have kept := keeps (keeps_rememberTxReply tx dest mid requestTy request)
    rw [Host.step]
    split
    · rw [remember]
      generalize exec (App.rememberTxReply tx dest mid requestTy request) host.app = reached at kept
      split
      · exact kept
      · exact calm (calm_releaseTx tx) kept
    · exact h
  | rememberEmptyAck dest mid request => exact keeps (keeps_rememberEmptyAck dest mid request)
  | replayConRequest dest mid code => exact keeps (keeps_replayConRequest dest mid code)
  | expireRequestDedup => exact keeps keeps_expireRequestDedup

/-- A row's slot is the row's alone, and still holds the reply last remembered for its key. -/
def Unaliased (host : Host η cfg) : Prop :=
  ∀ row tx, host.app.dedup.Holds row → row.txPin = some tx → tx ∉ host.owned ∧
    (∃ slot, host.app.tx.slot tx = .ok slot ∧
      host.last row.key = some ⟨slot.packet, slot.endpoint⟩) ∧
    ∀ other, host.app.dedup.Holds other → other.txPin = some tx → other = row

/-- In every run rows' slots are not aliased and duplicates get the reply last remembered for
them or an empty acknowledgement. If the clock does not go back, a POST, PATCH or FETCH that was
stored is not a miss while its row has not lapsed and fewer keys than the table has rows were
stored to lapse no earlier. -/
theorem duplicate_answered (app : State η cfg) (slots entries : Nat) (events : List (Event η)) :
    (run step (start app slots entries) events).Unaliased ∧
      (∀ dest mid code, Answered (run step (start app slots entries) events).last dest mid
        (run step (start app slots entries) events).app
        (exec (App.replayConRequest dest mid code)
          (run step (start app slots entries) events).app).2) ∧
      (Run.Meets step Forward (start app slots entries) events →
        ∀ dest mid code due, requestMayRerunOnDuplicate code = false →
          (⟨mid, dest⟩, due) ∈ (run step (start app slots entries) events).app.stored →
          (run step (start app slots entries) events).app.now < due →
          (Cache.rivals ⟨mid, dest⟩ due
            (run step (start app slots entries) events).app.stored).card < entries →
          (exec (App.replayConRequest dest mid code)
            (run step (start app slots entries) events).app).1 ≠ .ok false) := by
  have sound := Sound.run app slots entries events
  refine ⟨?_, fun dest mid code => answered_replayConRequest sound dest mid code, ?_⟩
  · intro row tx held isPin
    obtain ⟨notOwned, slot, at_, isLast⟩ := sound.pinned row tx held isPin
    exact ⟨notOwned, ⟨slot, at_, isLast⟩, fun other isRow pins =>
      sound.single other row tx isRow held pins isPin⟩
  intro meets dest mid code due strict stored live few miss
  have retaining := invariant_of_meets (P := fun host => Retaining entries host.app)
    (fun _ event h forward => h.step event forward) (Retaining.start app slots entries) meets
  have missing := replayConRequest_miss (Prod.ext miss rfl) strict
  have late := retaining.covered.covers.of_missing stored missing
  rw [retaining.capacity] at late
  omega

/-! ### Two runs -/

def smallConfig : Config := ⟨8, 512⟩

def idle : State Nat smallConfig where
  tx := .new 0
  dedup := .new 0
  dedupClosed := none
  now := 0
  answers := []
  sent := []
  stored := []

/-- Four POST requests to a table of two rows. The second and the third come at the same time; the
third takes the slot in front of the second. -/
def tie : List (Event Nat) :=
  [.rememberEmptyAck 9 1 .post, .clock 5, .rememberEmptyAck 9 2 .post,
    .rememberEmptyAck 9 3 .post, .clock 6, .rememberEmptyAck 9 4 .post]

/-- The fourth request evicts the third although only one other key was stored since. -/
theorem tie_evicts_later : let host := run step (start idle 4 2) tie
    Run.Meets step Forward (start idle 4 2) tie ∧
      Cache.StoredAt host.app.stored ⟨3, 9⟩ 247005 [(⟨4, 9⟩, 247006)] ∧
      (Cache.others (⟨3, 9⟩ : DedupKey Nat) [(⟨4, 9⟩, 247006)]).card < 2 ∧
      host.app.now < 247005 ∧
      (exec (App.replayConRequest 9 3 .post) host.app).1 = .ok false := by
  refine ⟨?_, ⟨[(⟨1, 9⟩, 247000), (⟨2, 9⟩, 247005)], ?_⟩, by decide, ?_, ?_⟩
  · refine ⟨trivial, ?_, trivial, trivial, ?_, trivial, trivial⟩
    · change _ ≤ 5
      decide +kernel
    · change _ ≤ 6
      decide +kernel
  · decide +kernel
  · decide +kernel
  · decide +kernel

/-- A long reply to a POST is kept in its slot, and another caller comes and goes. -/
def longReply : List (Event Nat) :=
  [.acquireTx, .write 0 ⟨List.replicate 300 65, none⟩ (some 9) none,
    .rememberTxReply 0 9 7 .confirmable .post, .clock 20, .acquireTx,
    .write 1 ⟨[1, 2, 3], none⟩ (some 8) none, .releaseTx 1]

/-- The row still holds its slot, and the duplicate gets what is in it. -/
theorem duplicate_answered_long : let host := run step (start idle 4 2) longReply
    host.app.dedup.find ⟨7, 9⟩ = some ⟨⟨7, 9⟩, 247000, none, some 0⟩ ∧
      host.last ⟨7, 9⟩ = some ⟨⟨List.replicate 300 65, none⟩, some 9⟩ ∧ host.Unaliased ∧
      Answered host.last 9 7 host.app (exec (App.replayConRequest 9 7 .post) host.app).2 ∧
      (exec (App.replayConRequest 9 7 .post) host.app).1 ≠ .ok false := by
  obtain ⟨unaliased, answered, kept⟩ := duplicate_answered idle 4 2 longReply
  refine ⟨?_, ?_, unaliased, answered 9 7 .post, kept ?_ 9 7 .post 247000 rfl ?_ ?_ ?_⟩
  · decide +kernel
  · decide +kernel
  · refine ⟨trivial, trivial, trivial, ?_, trivial, trivial, trivial, trivial⟩
    change _ ≤ 20
    decide +kernel
  · decide +kernel
  · decide +kernel
  · decide +kernel

end Host

end Coaptic.App
