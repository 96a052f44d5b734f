import Coaptic.Client.Completion

/-!
# A datagram ends the Call of its own request

A Call is ended because a datagram was given up, reset or not sent. The exchange is looked up by
the slot of the datagram, and a slot may be used again while the exchange of an earlier request
still names it. Wherever every exchange that names the slot records the datagram, the Call that
is ended is the one of the datagram, and every other Call stays as it is.
-/
namespace Coaptic.Client

open Codec Block Pending Program Slots Run ExchangeTable

variable {maxLen : Nat} {call other : Call maxLen} {s t u : State maxLen}

/-- Message ID and endpoint that the Call's own exchange records. -/
def State.recorded (s : State maxLen) (call : Call maxLen) : Option (MessageId × Endpoint) :=
  (s.exchanges.find call.key).map fun entry => (entry.messageId, entry.key.endpoint)

/-- The exchange that is looked up by the slot, if there is one, records this datagram. -/
def State.Names (s : State maxLen) (tx : Nat) (mid : MessageId) (peer : Endpoint) : Prop :=
  ∀ entry ∈ s.exchanges.forTx tx, entry.messageId = mid ∧ entry.key.endpoint = peer

instance (s : State maxLen) (tx : Nat) (mid : MessageId) (peer : Endpoint) :
    Decidable (s.Names tx mid peer) :=
  inferInstanceAs (Decidable (∀ entry ∈ s.exchanges.forTx tx, _ ∧ _))

/-- The Call has the exchange and the result it had. -/
@[mk_iff]
structure Untouched (call : Call maxLen) (s t : State maxLen) : Prop where
  exchange : t.exchanges.find call.key = s.exchanges.find call.key
  row : t.inbox.row call = s.inbox.row call

/-- Only the Call whose own exchange records the datagram may be ended, or lose its exchange. -/
def State.Spares (s : State maxLen) (mid : MessageId) (peer : Endpoint) (t : State maxLen) : Prop :=
  ∀ call, s.recorded call ≠ some (mid, peer) → Untouched call s t

/-! ### Rows of the inbox -/

namespace ClientInbox

variable {rows : ClientInbox maxLen} {k : Call maxLen}

theorem row_insert_of_ne (ne : call ≠ k) (result : Except CallFailure ReplyMeta)
    (body : Option Nat) : row (rows.insert call result body).2 k = rows.row k := by
  simp only [insert]
  split
  next i found =>
    obtain ⟨a, held, isCall, -⟩ := findIdx_any found
    apply find_set_of_ne
    · rintro _ here rfl
      rw [held] at here
      cases here
      exact ne (by simpa using isCall : a.call = call).symm
    · rintro _ ⟨⟩
      exact ne
  split
  next i free =>
    apply find_set_of_ne
    · intro a here
      rw [(findIdx_free free).1] at here
      cases here
    · rintro _ ⟨⟩
      exact ne
  · rfl

theorem row_update_of_ne (ne : call ≠ k) {f : InboxRow maxLen → InboxRow maxLen}
    (same : ∀ row, (f row).call = row.call) : row (rows.update call f) k = rows.row k := by
  simp only [update]
  split
  · rfl
  next i found =>
  obtain ⟨a, held, isCall, -⟩ := findIdx_any found
  have isCall : a.call = call := by simpa using isCall
  have written : rows.modify i (Option.map f) = rows.set i (some (f a)) := by
    rw [List.modify_eq_set, held]
    rfl
  rw [written]
  apply find_set_of_ne
  · intro b here
    rw [held] at here
    cases here
    exact isCall ▸ ne
  · rintro _ ⟨⟩
    rw [same, isCall]
    exact ne

end ClientInbox

/-! ### Calls that stay as they are -/

namespace Untouched

theorem refl (s : State maxLen) : Untouched call s s := ⟨rfl, rfl⟩

theorem trans (first : Untouched call s t) (second : Untouched call t u) : Untouched call s u :=
  ⟨second.exchange.trans first.exchange, second.row.trans first.row⟩

theorem takeExchange (ne : other ≠ call) : Untouched call s (s.takeExchange other).2 where
  exchange := by
    rw [State.takeExchange, (s.exchanges.take_spec other.key).2, if_neg]
    exact fun same => ne (Call.key_inj.mp same)
  row := rfl

theorem releaseDatagram (ne : other ≠ call) : Untouched call s (s.releaseDatagram other) := by
  have taken : (s.inbox.takeDatagram other).2.row call = s.inbox.row call :=
    ClientInbox.row_update_of_ne ne fun _ => rfl
  obtain ⟨rx, isState⟩ := releaseDatagram_eq s other
  rw [isState]
  exact ⟨rfl, taken⟩

theorem complete (ne : other ≠ call) (result : Except CallFailure ReplyMeta) (body : Option Nat) :
    Untouched call s (s.complete other result body) := by
  obtain ⟨downloads, isState⟩ := complete_eq s other result body
  rw [isState]
  exact ⟨rfl, ClientInbox.row_insert_of_ne ne result body⟩

/-- Ending a Call touches no other. -/
theorem failCall (ne : other ≠ call) (failure : CallFailure) (releasePending : Bool) :
    Untouched call s (s.failCall other failure releasePending) := by
  obtain ⟨tx, isState⟩ := failCall_eq s other failure releasePending
  have taken : Untouched call s (s.takeExchange other).2 := takeExchange ne
  have detached : Untouched call s (s.detached other tx) := ⟨taken.exchange, rfl⟩
  have stored := (detached.trans (releaseDatagram ne)).trans (complete ne (.error failure) none)
  rw [isState, releaseUpload_eq]
  exact ⟨stored.exchange, stored.row⟩

theorem abandonSend (ne : other ≠ call) : Untouched call s (s.abandonSend other) := by
  obtain ⟨tx, abandons⟩ := abandonSend_eq other s
  have taken : Untouched call s (s.takeExchange other).2 := takeExchange ne
  rw [abandons]
  exact ⟨taken.exchange, rfl⟩

end Untouched

/-! ### Looked up by the slot -/

theorem recorded_of_find {entry : ExchangeEntry maxLen}
    (found : s.exchanges.find entry.key = some entry) :
    s.recorded (ofEntry entry) = some (entry.messageId, entry.key.endpoint) := by
  rw [State.recorded, key_ofEntry, found, Option.map_some]

variable {tx : Nat} {mid : MessageId} {peer : Endpoint}

/-- Ending the Call of an exchange takes the exchange. -/
theorem touched_of_failCall {entry : ExchangeEntry maxLen}
    (found : s.exchanges.find entry.key = some entry) (failure : CallFailure)
    (releasePending : Bool) :
    ¬ Untouched (ofEntry entry) s (s.failCall (ofEntry entry) failure releasePending) := by
  intro untouched
  have same := untouched.exchange
  obtain ⟨tx, rx, inbox, downloads, uploads, isState⟩ :=
    failCall_frame s (ofEntry entry) failure releasePending
  have gone := detached_find s (ofEntry entry) tx
  rw [isState] at same
  cases gone.symm.trans (same.trans found)

/-- Only exchanges and results are asked about. -/
theorem spares_congr {s' t' : State maxLen} (exchanges : s'.exchanges = s.exchanges)
    (inbox : s'.inbox = s.inbox) (exchanges' : t'.exchanges = t.exchanges)
    (inbox' : t'.inbox = t.inbox) : s'.Spares mid peer t' ↔ s.Spares mid peer t := by
  simp only [State.Spares, State.recorded, untouched_iff, exchanges, inbox, exchanges', inbox']

/-- The Calls other than that of the datagram stay as they are exactly when the exchange that is
looked up by the slot is the one of the datagram. -/
theorem spares_failPendingClient (failure : CallFailure) :
    s.Spares mid peer (s.failPendingClient tx failure) ↔ s.Names tx mid peer := by
  simp only [State.failPendingClient, State.Names]
  split
  next absent => simp [absent, State.Spares, Untouched.refl]
  next entry isFirst =>
  obtain ⟨found, -⟩ := find_of_forTx isFirst
  constructor
  · intro spares _ same
    rw [isFirst] at same
    cases same
    by_contra differs
    refine touched_of_failCall found failure false (spares _ ?_)
    rw [recorded_of_find found]
    simpa [Prod.ext_iff] using differs
  · intro names call unrecorded
    apply Untouched.failCall
    rintro rfl
    obtain ⟨rfl, rfl⟩ := names entry isFirst
    exact unrecorded (recorded_of_find found)

/-- A Reset is looked up by the slot of what is pending, and only then by its Message ID. -/
theorem spares_completeClientRst : s.Spares mid peer (s.completeClientRst mid peer) ↔
      ∀ tx ∈ s.tx.lookupPendingCon mid peer, s.Names tx mid peer := by
  simp only [State.completeClientRst]
  constructor
  · intro spares tx isPending entry isFirst
    by_contra differs
    obtain ⟨found, -⟩ := find_of_forTx isFirst
    have bySlot : (s.tx.lookupPendingCon mid peer).bind s.exchanges.forTx = some entry := by
      rw [isPending, Option.bind_some, isFirst]
    simp only [bySlot, Option.some_or] at spares
    refine touched_of_failCall found .reset false (spares _ ?_)
    rw [recorded_of_find found]
    simpa [Prod.ext_iff] using differs
  intro names call unrecorded
  split
  · exact .refl s
  next entry isEntry =>
  apply Untouched.failCall
  rintro rfl
  rcases Option.or_eq_some_iff.mp isEntry with bySlot | ⟨-, byMid⟩
  · obtain ⟨tx, isPending, isFirst⟩ := Option.bind_eq_some_iff.mp bySlot
    obtain ⟨rfl, rfl⟩ := names tx isPending entry isFirst
    exact unrecorded (recorded_of_find (find_of_forTx isFirst).1)
  · obtain ⟨found, rfl, rfl⟩ :=
      find_of_forMid (Option.filter_eq_some_iff.mp byMid).1
    exact unrecorded (recorded_of_find found)

/-! ### Datagrams of another Call -/

variable {entry : ExchangeEntry maxLen} {α : Type} {p : Act maxLen α}

/-- The Call stays as it is, if this is its exchange. -/
def Spared (call : Call maxLen) (entry : ExchangeEntry maxLen) (s t : State maxLen) : Prop :=
  s.exchanges.find call.key = some entry → Untouched call s t

instance Spared.allows : Allows fun _ => Spared call entry where
  refl s _ := .refl s
  trans first second found := (first found).trans (second ((first found).exchange.trans found))
  mono _ h := h
  waits waits _ := ⟨by rw [waits.exchanges], by rw [waits.inbox]⟩

theorem Spared.dropExchangeForTx (elsewhere : entry.txSlot ≠ tx) :
    Spared call entry s (s.dropExchangeForTx tx) := by
  intro found
  simp only [State.dropExchangeForTx]
  split
  · exact .refl s
  next first isFirst =>
  obtain ⟨isEntry, names⟩ := find_of_forTx isFirst
  apply Untouched.takeExchange
  rintro rfl
  rw [key_ofEntry, isEntry] at found
  cases found
  exact elsewhere names

/-- A program that leaves the Call its exchange and its result. -/
abbrev Leaves (call : Call maxLen) (entry : ExchangeEntry maxLen) {α : Type} (p : Act maxLen α) : Prop :=
  Costs (fun _ => Spared call entry) p fun _ => 0

namespace Leaves

/-- A key that has a row keeps it. -/
theorem admitRequest (tx : Nat) (dest : Endpoint) :
    Leaves call entry (admitRequest tx dest : Act maxLen Unit) := by
  intro s isEntry
  simp only [Client.admitRequest, recordRequest, bind_assoc, exec_get_bind]
  split
  · exact .refl s
  · exact .refl s
  next parsed _ =>
  split
  · exact .refl s
  have kept : Untouched call s { s with
      tx := (s.tx.setEndpoint tx dest).2
      exchanges := (s.exchanges.insert ⟨⟨parsed.token, dest⟩, parsed.header.id, tx⟩).2 } := by
    refine ⟨?_, rfl⟩
    rcases s.exchanges.insert_cases ⟨⟨parsed.token, dest⟩, parsed.header.id, tx⟩ with
      ⟨-, -, same⟩ | ⟨-, refused⟩ | ⟨absent, -, found⟩
    · rw [same]
    · rw [refused]
    rw [found, if_neg]
    intro here
    rw [here, isEntry] at absent
    cases absent
  simp only [exec_bind, exec_set, exec_pure]
  split
  · exact kept
  · exact kept

/-- A datagram that is not sent drops the exchange that names its slot. -/
theorem finishClientSend (elsewhere : entry.txSlot ≠ tx) (ty : MsgType) (nowMs : Nat)
    (mid : MessageId) (jitterMs : Nat) (accepted : Bool) :
    Leaves call entry (finishClientSend other tx ty nowMs mid jitterMs accepted) := by
  refine Costs.bind (costs_holding tx (admitRequest tx other.peer)) fun _ => ?_
  refine Costs.bind (.attempt (Waiting.costs (.finishSend tx other.peer _ accepted))) fun outcome => ?_
  cases outcome with
  | ok _ => exact .pure _
  | error e => exact Costs.bind (fun _ => .dropExchangeForTx elsewhere) fun _ => .throw e

theorem finishFollowup (tx : Nat) (ty : MsgType) (nowMs : Nat) (mid : MessageId) (jitterMs : Nat)
    (accepted : Bool) :
    Leaves call entry (finishFollowup other tx ty nowMs mid jitterMs accepted) :=
  Costs.bind (costs_holding tx (admitRequest tx other.peer)) fun _ =>
    Waiting.costs (.finishSend tx other.peer _ accepted)

theorem sendPrepared (ty : MsgType) (nowMs : Nat) (staged : Staged maxLen) :
    Leaves call entry (sendPrepared other ty nowMs staged) := by
  have admitted : Leaves call entry (admitStaged other ty staged) := by
    apply (admitRequest staged.tx other.peer).bind
    intro _
    refine .ite (Costs.bind (fun _ => Spared.allows.waits (.tx _)) fun pending => ?_) (.pure _)
    cases pending with
    | none => exact .throw _
    | some pending => exact .pure _
  refine Costs.bind (costs_holding staged.tx admitted) fun pending => ?_
  exact Waiting.costs (.finishPrepared staged pending nowMs)

end Leaves

/-- A datagram of a Call that waits on no exchange is recorded before it is sent. -/
theorem recorded_admitRequest (loaded : Loaded call mid tx s)
    (absent : s.exchanges.find call.key = none)
    (admitted : exec (admitRequest tx call.peer) s = (.ok (), t)) :
    t.recorded call = some (mid, call.peer) := by
  rcases exec_admitRequest loaded with ⟨error, refused⟩ | entered
  · rw [refused] at admitted
    cases admitted
  rw [entered] at admitted
  obtain ⟨outcome, rfl⟩ := Prod.mk.injEq .. ▸ admitted
  rcases s.exchanges.insert_cases ⟨call.key, mid, tx⟩ with
    ⟨present, -, -⟩ | ⟨-, refused⟩ | ⟨-, -, found⟩
  · rw [absent] at present
    cases present
  · rw [refused] at outcome
    cases outcome
  simp only [State.recorded, State.enter, found, if_true, Option.map_some]
  rfl

/-! ### What becomes of a datagram -/

def sampleTimeouts : List (Input 8) :=
  [2000, 6000, 14000, 30000].map fun nowMs => ⟨.retransmit nowMs, [], []⟩

/-- A Confirmable that was sent four times again, and is due. -/
def samplePending (mid : MessageId) (port : UInt16) : PendingCon :=
  ⟨mid, samplePeer port, 0, ⟨4, true, 62000, 32000⟩⟩

end Coaptic.Client
