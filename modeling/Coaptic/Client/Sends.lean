import Coaptic.Client.Backoff
import Coaptic.Client.Machine

/-!
# What sending does to a client

Relations between the states before and after a part of a send, from the parts that only use an
outgoing slot to whole requests of one Call. They say which rows of the client's tables may change.
-/
namespace Coaptic.Client

open Codec Block Pending Program

variable {maxLen : Nat} {call : Call maxLen} {tag : Option (List UInt8)} {s t : State maxLen}

/-! ### The relations -/

/-- Only the outgoing slots and the environment's queues change. -/
structure Waits (s t : State maxLen) : Prop where
  lives : t.lives = s.lives
  inbox : t.inbox = s.inbox
  observes : t.observes = s.observes
  downloads : t.downloads = s.downloads
  owed : t.owed = s.owed
  exchanges : t.exchanges = s.exchanges
  uploads : t.uploads = s.uploads

/-- Rows of exchanges may go, and only the Call itself gets one. -/
structure Steps (call : Call maxLen) (s t : State maxLen) : Prop where
  lives : s.lives.Steady t.lives
  inbox : t.inbox = s.inbox
  observes : t.observes = s.observes
  downloads : t.downloads = s.downloads
  owed : t.owed = s.owed
  exchanges : ∀ other : Call maxLen, other ≠ call →
    (t.exchanges.find other.key).isSome → (s.exchanges.find other.key).isSome

/-- What sending datagrams of a Call may do, when the uploads stay as they are. -/
structure Issues (call : Call maxLen) (s t : State maxLen) : Prop extends Steps call s t where
  uploads : t.uploads = s.uploads

/-- What sending for a Call may do: uploads go, and the Call gets at most `n`, under `tag`. -/
structure Sends (call : Call maxLen) (tag : Option (List UInt8)) (n : Nat) (s t : State maxLen) :
    Prop extends Steps call s t where
  uploads : ∃ started : List (Upload maxLen), started.length ≤ n ∧
    (∀ upload ∈ started, upload.call = call ∧ upload.tag = tag) ∧
    t.uploads.Sublist (started ++ s.uploads)

theorem Waits.refl (s : State maxLen) : Waits s s := ⟨rfl, rfl, rfl, rfl, rfl, rfl, rfl⟩

theorem Waits.issues (waits : Waits s t) : Issues call s t where
  lives := waits.lives ▸ .refl _
  inbox := waits.inbox
  observes := waits.observes
  downloads := waits.downloads
  owed := waits.owed
  exchanges _ _ found := waits.exchanges ▸ found
  uploads := waits.uploads

theorem Issues.sends (issues : Issues call s t) : Sends call tag 0 s t :=
  { issues with uploads := ⟨[], le_rfl, nofun, issues.uploads ▸ List.Sublist.refl _⟩ }

instance Waits.ledger : Ledger fun _ (s t : State maxLen) => Waits s t where
  refl := refl
  trans first second := {
    lives := second.lives.trans first.lives
    inbox := second.inbox.trans first.inbox
    observes := second.observes.trans first.observes
    downloads := second.downloads.trans first.downloads
    owed := second.owed.trans first.owed
    exchanges := second.exchanges.trans first.exchanges
    uploads := second.uploads.trans first.uploads }
  mono _ h := h

theorem Steps.trans {u : State maxLen} (first : Steps call s t) (second : Steps call t u) :
    Steps call s u where
  lives := first.lives.trans second.lives
  inbox := second.inbox.trans first.inbox
  observes := second.observes.trans first.observes
  downloads := second.downloads.trans first.downloads
  owed := second.owed.trans first.owed
  exchanges other ne found := first.exchanges other ne (second.exchanges other ne found)

/-- Relations that allow every use of an outgoing slot. -/
class Allows (R : Nat → State maxLen → State maxLen → Prop) : Prop extends Ledger R where
  waits : ∀ {s t}, Waits s t → R 0 s t

theorem Allows.ofInvariant {Inv : State maxLen → Prop}
    (waits : ∀ {s t}, Waits s t → Inv s → Inv t) : Allows fun _ s t => Inv s → Inv t :=
  { Ledger.ofInvariant Inv with waits }

instance Issues.allows : Allows fun _ (s t : State maxLen) => Issues call s t where
  refl s := (Waits.refl s).issues
  trans first second := { first.toSteps.trans second.toSteps with
    uploads := second.uploads.trans first.uploads }
  mono _ h := h
  waits := Waits.issues

instance Sends.allows (call : Call maxLen) (tag : Option (List UInt8)) :
    Allows (Sends call tag) where
  refl s := (Waits.refl s).issues.sends
  trans := by
    rintro m n s t u first second
    obtain ⟨started, atMost, own, before⟩ := first.uploads
    obtain ⟨started', atMost', own', after⟩ := second.uploads
    refine { first.toSteps.trans second.toSteps with uploads := ⟨started' ++ started, ?_, ?_, ?_⟩ }
    · rw [List.length_append]
      omega
    · intro upload member
      rcases List.mem_append.mp member with new | old
      · exact own' upload new
      · exact own upload old
    · rw [List.append_assoc]
      exact after.trans (before.append_left started')
  mono := by
    rintro m n s t le first
    obtain ⟨started, atMost, rest⟩ := first.uploads
    exact { first with uploads := ⟨started, atMost.trans le, rest⟩ }
  waits waits := waits.issues.sends

/-- Taking what is pending under a Message ID is a step of the outgoing slots. -/
theorem takePending_eq (s : State maxLen) (messageId : MessageId) (peer : Endpoint) :
    ∃ tx, s.takePending messageId peer = { s with tx } := by
  simp only [State.takePending]
  split
  · exact ⟨_, rfl⟩
  · exact ⟨_, rfl⟩

theorem find_of_takeExchange (other : Call maxLen) (key : ExchangeKey maxLen)
    (entry : ExchangeEntry maxLen)
    (found : (s.takeExchange other).2.exchanges.find key = some entry) :
    s.exchanges.find key = some entry := by
  simp only [State.takeExchange, (s.exchanges.take_spec other.key).2] at found
  split at found
  · cases found
  · exact found

/-- Slots, the exchange and the upload are all that is given up. -/
theorem abandonSend_eq (call : Call maxLen) (s : State maxLen) :
    ∃ tx, s.abandonSend call = { s with
      tx, exchanges := (s.exchanges.take call.key).2
      uploads := s.uploads.filter (·.call ≠ call) } := by
  have packets (items : List Nat) (s : State maxLen) :
      ∃ tx, items.foldl (State.abandonPacket call) s = { s with tx } := by
    refine List.foldlRecOn (motive := fun t => ∃ tx, t = { s with tx }) _ _ ⟨s.tx, rfl⟩ ?_
    rintro _ ⟨tx, rfl⟩ id -
    rw [State.abandonPacket]
    split
    · exact ⟨tx, rfl⟩
    split
    · exact ⟨_, rfl⟩
    · exact ⟨tx, rfl⟩
  obtain ⟨tx, fold⟩ := packets (List.range (s.takeExchange call).2.tx.slots.length) _
  exact ⟨tx, by rw [State.abandonSend, fold]; rfl⟩

theorem Waits.tx (after : TxMemory) : Waits s { s with tx := after } := { refl s with }

theorem Waits.takePending (messageId : MessageId) (peer : Endpoint) :
    Waits s (s.takePending messageId peer) := by
  obtain ⟨tx, isState⟩ := takePending_eq s messageId peer
  rw [isState]
  exact .tx tx

theorem Waits.stopRequest (entry : Option (ExchangeEntry maxLen)) (peer : Endpoint) :
    Waits s (s.stopRequest entry peer) := by
  simp only [State.stopRequest]
  split
  · exact .refl s
  · exact .takePending _ _

theorem Waits.stopOnAck (parsed : ParsedMessage maxLen) (entry : Option (ExchangeEntry maxLen))
    (peer : Endpoint) : Waits s (s.stopOnAck parsed entry peer) := by
  simp only [State.stopOnAck]
  split
  · exact .stopRequest entry peer
  · exact .refl s

theorem Issues.refl (s : State maxLen) : Issues call s s := (Waits.refl s).issues

theorem Issues.takeExchange (other : Call maxLen) : Issues call s (s.takeExchange other).2 :=
  { (refl s : Issues call s s) with
    exchanges := by
      intro third _ found
      obtain ⟨entry, found⟩ := Option.isSome_iff_exists.mp found
      exact Option.isSome_iff_exists.mpr ⟨entry, find_of_takeExchange other _ _ found⟩ }

namespace Sends

variable {n : Nat}

theorem outline (sends : Sends call tag n s t) : t.lives.outline = s.lives.outline :=
  sends.lives.outline

theorem calls (sends : Sends call tag n s t) : t.lives.calls ⊆ s.lives.calls :=
  sends.lives.calls.subset

theorem refl (s : State maxLen) : Sends call tag 0 s s := (allows call tag).refl s

theorem trans {u : State maxLen} (first : Sends call tag 0 s t) (second : Sends call tag n t u) :
    Sends call tag n s u := by
  have whole := (allows call tag).trans first second
  rwa [Nat.zero_add] at whole

theorem takeExchange (other : Call maxLen) : Sends call tag 0 s (s.takeExchange other).2 :=
  (Issues.takeExchange other).sends

theorem uploads_sublist {after : List (Upload maxLen)} (fewer : after.Sublist s.uploads) :
    Sends call tag 0 s { s with uploads := after } :=
  { (refl s : Sends call tag 0 s s) with uploads := ⟨[], Nat.le_refl _, nofun, fewer⟩ }

theorem releaseTxBody (upload : Upload maxLen) : Sends call tag 0 s (s.releaseTxBody upload) :=
  uploads_sublist List.erase_sublist

theorem abandonSend (other : Call maxLen) : Sends call tag 0 s (s.abandonSend other) := by
  obtain ⟨tx, abandons⟩ := abandonSend_eq other s
  rw [abandons]
  apply (takeExchange other).trans
  exact (Waits.tx tx).issues.sends.trans (uploads_sublist List.filter_sublist)

end Sends

/-! ### Programs that use an outgoing slot -/

/-- A program that only uses outgoing slots and asks the environment. -/
abbrev Waiting {α : Type} (p : Act maxLen α) : Prop :=
  Costs (fun _ (s t : State maxLen) => Waits s t) p fun _ => 0

abbrev Issuing (call : Call maxLen) {α : Type} (p : Act maxLen α) : Prop :=
  Costs (fun _ => Issues call) p fun _ => 0

abbrev Sending (call : Call maxLen) (tag : Option (List UInt8)) {α : Type} (p : Act maxLen α) : Prop :=
  Costs (Sends call tag) p fun _ => 0

theorem Sending.modify {f : State maxLen → State maxLen} (h : ∀ s, Sends call tag 0 s (f s)) :
    Sending call tag (modifyGet fun s => (PUnit.unit, f s) : Act maxLen PUnit) := h

section

variable {R : Nat → State maxLen → State maxLen → Prop} [allows : Allows R] {α : Type}
  {p : Act maxLen α}

theorem Waiting.costs (h : Waiting p) : Costs R p fun _ => 0 := fun s => allows.waits (h s)

/-- The slot of a step that fails is freed. -/
theorem costs_holding (tx : Nat) (h : Costs R p fun _ => 0) : Costs R (holding tx p) fun _ => 0 := by
  apply h.attempt.bind
  intro outcome
  cases outcome with
  | ok a => exact .pure a
  | error e => exact Costs.bind (fun _ => allows.waits (.tx _)) fun _ => .throw e

end

namespace Waiting

theorem answer : Waiting (answer : Act maxLen Bool) := by
  intro s
  simp only [Client.answer, exec_modifyGet]
  split
  · exact .refl s
  · exact { Waits.refl s with }

theorem nextPlan : Waiting (nextPlan : Act maxLen Staging) := by
  intro s
  simp only [Client.nextPlan, exec_modifyGet]
  split
  · exact .refl s
  · exact { Waits.refl s with }

theorem demand (e : Error) : Waiting (demand e : Act maxLen Unit) :=
  answer.bind fun _ => .ite (.pure _) (.throw e)

theorem midOf (plan : Staging) : Waiting (midOf plan : Act maxLen MessageId) := by
  simp only [Client.midOf]
  split
  · exact .throw _
  · exact .pure _

theorem acquired {g : State maxLen → Option Nat × State maxLen} {f : Option Nat → Act maxLen Nat}
    (gives : ∀ s, g s = (none, s) ∨ g s = s.acquireTx)
    (refuses : f none = MonadExceptOf.throw Error.saturated)
    (returns : ∀ tx, f (some tx) = Pure.pure tx) : Waiting (modifyGet g >>= f) := by
  refine Costs.bind (fun s => ?_) fun found => ?_
  · rw [exec_modifyGet]
    rcases gives s with none | some
    · rw [none]
      exact .refl s
    · rw [some]
      exact .tx _
  cases found with
  | none =>
    rw [refuses]
    exact .throw _
  | some tx =>
    rw [returns]
    exact .pure tx

theorem ordinaryTx : Waiting (ordinaryTx : Act maxLen Nat) := by
  apply acquired
  · intro s
    split
    · exact .inl rfl
    · exact .inr rfl
  · rfl
  · intro tx
    rfl

theorem controlTx : Waiting (controlTx : Act maxLen Nat) :=
  acquired (fun _ => .inr rfl) rfl fun _ => rfl

theorem encodeRequest (tx : Nat) (ty : MsgType) (mid : MessageId) (draft : Except Error Draft) :
    Waiting (encodeRequest call tx ty mid draft) := by
  intro s
  simp only [Client.encodeRequest]
  split
  · exact .refl s
  rw [exec_get_bind]
  split
  · exact .refl s
  · exact .tx _

theorem finishSend (tx : Nat) (dest : Endpoint) (pending : Option (Nat × MessageId × Nat))
    (accepted : Bool) : Waiting (finishSend tx dest pending accepted : Act maxLen Unit) :=
  Costs.bind (fun _ => .tx _) fun _ => .ite (.pure _) (.throw _)

theorem finishPrepared (staged : Staged maxLen) (pending : Option PendingCon) (nowMs : Nat) :
    Waiting (finishPrepared call staged pending nowMs) :=
  Costs.bind (fun _ => .tx _) fun _ => .ite (.pure _) (.throw _)

theorem sendEmpty (dest : Endpoint) (message : Message maxLen) : Waiting (sendEmpty dest message) := by
  apply controlTx.bind
  intro tx s
  have freed : Waiting (modifyGet fun s => (PUnit.unit, s.releaseTx tx) : Act maxLen PUnit) :=
    fun _ => .tx _
  rw [exec_get_bind]
  split
  · exact freed.bind (fun _ => .throw _) s
  next n out written =>
  have rest : Waiting (do
      let accepted ← Client.answer
      modify (·.releaseTx tx)
      if accepted then pure () else throw .io : Act maxLen Unit) :=
    answer.bind fun _ => freed.bind fun _ => .ite (.pure _) (.throw _)
  have first : Waits s { s with tx := ((s.tx.fill tx (out.take n)).setEndpoint tx dest).2 } := .tx _
  exact Waits.ledger.trans (m := 0) (n := 0) first (rest _)

theorem reject (parsed : ParsedMessage maxLen) (peer : Endpoint) : Waiting (reject parsed peer) :=
  .ite (sendEmpty _ _) (.pure _)

theorem acknowledge (parsed : ParsedMessage maxLen) (peer : Endpoint) :
    Waiting (acknowledge parsed peer) :=
  .ite (sendEmpty _ _) (.pure _)

theorem cache (bytes : List UInt8) : Waiting (cache bytes : Act maxLen Unit) :=
  ordinaryTx.bind fun _ _ => .tx _

theorem serve (bytes : List UInt8) (dest : Endpoint) (pending : Option (Nat × MessageId × Nat))
    (accepted : Bool) : Waiting (serve bytes dest pending accepted : Act maxLen Unit) :=
  ordinaryTx.bind fun tx => Costs.bind (fun _ => .tx _) fun _ => finishSend tx dest pending accepted

end Waiting

/-! ### One datagram -/

def onReturn {α : Type} (post : α → State maxLen → Prop) : Except Error α → State maxLen → Prop
  | .ok a => post a
  | .error _ => fun _ => True

/-- A program that sends datagrams, with what it assumes, the number of uploads it starts at most,
and what it provides if it returns. -/
abbrev Does (R : Nat → State maxLen → State maxLen → Prop) {α : Type} (pre : State maxLen → Prop)
    (p : Act maxLen α) (n : Nat) (post : α → State maxLen → Prop) : Prop :=
  Runs R pre p n (onReturn post)

namespace Does

variable {R : Nat → State maxLen → State maxLen → Prop} {α β : Type} {pre : State maxLen → Prop}
  {p : Act maxLen α} {n : Nat}

variable {post : α → State maxLen → Prop} {f : α → Act maxLen β} {last : β → State maxLen → Prop}

theorem of_costs (h : Costs R p fun _ => n) : Does R pre p n fun _ _ => True := by
  intro s _
  refine ⟨h s, ?_⟩
  cases (exec p s).1 with
  | ok a => trivial
  | error e => trivial

theorem sends (h : Does (fun _ => Issues call) pre p n post) : Does (Sends call tag) pre p 0 post :=
  fun s holds => ⟨(h s holds).1.sends, (h s holds).2⟩

variable [allows : Allows R]

theorem bind (hp : Does R pre p 0 post) (hf : ∀ a, Does R (post a) (f a) n last) :
    Does R pre (p >>= f) n last := by
  have whole := Runs.bind hp hf fun _ _ _ => trivial
  rwa [Nat.zero_add] at whole

/-- The uploads may be started first. -/
theorem bind_last (hp : Does R pre p n post) (hf : ∀ a, Does R (post a) (f a) 0 last) :
    Does R pre (p >>= f) n last :=
  Runs.bind (n := 0) hp hf fun _ _ _ => trivial

theorem pure (a : α) (holds : ∀ s, pre s → post a s) : Does R pre (Pure.pure a) 0 post :=
  Runs.pure a holds

theorem throw (e : Error) : Does R pre (MonadExceptOf.throw e) 0 post :=
  Runs.throw e fun _ _ => trivial

theorem waiting (h : Waiting p) : Does R pre p 0 fun _ _ => True :=
  of_costs h.costs

theorem free {tx : Nat} {e : Error} :
    Does R pre (modifyGet (fun s => (PUnit.unit, s.releaseTx tx)) >>= fun _ =>
      MonadExceptOf.throw e : Act maxLen α) 0 post :=
  (waiting fun _ => .tx _).bind fun _ => throw e

/-- The slot of a step that fails is freed. -/
theorem holding (tx : Nat) (h : Does R pre p n post) : Does R pre (holding tx p) n post := by
  apply Runs.attempt_bind (n := 0) h
  intro outcome
  cases outcome with
  | ok a => exact pure a fun _ holds => holds
  | error e => exact free

end Does

/-- What is encoded in the slot is a message with the Call's token and this Message ID. -/
def Loaded (call : Call maxLen) (mid : MessageId) (tx : Nat) (s : State maxLen) : Prop :=
  ∀ slot parsed, s.tx.slot tx = some slot → decodeWithToken maxLen slot.bytes = .ok parsed →
    parsed.token = call.token ∧ parsed.header.id = mid

variable {mid : MessageId} {R : Nat → State maxLen → State maxLen → Prop} [allows : Allows R]

theorem does_answer {tx : Nat} :
    Does R (Loaded call mid tx) (answer : Act maxLen Bool) 0 fun _ => Loaded call mid tx := by
  intro s loaded
  refine ⟨allows.waits (Waiting.answer s), ?_⟩
  simp only [answer, exec_modifyGet]
  split
  · exact loaded
  · exact loaded

theorem does_demand {tx : Nat} (e : Error) :
    Does R (Loaded call mid tx) (demand e : Act maxLen Unit) 0 fun _ => Loaded call mid tx := by
  apply does_answer.bind
  intro agreed
  split
  · exact .pure _ fun _ loaded => loaded
  · exact .throw e

omit allows in
theorem token_eq {a b : OwnedToken maxLen} (h : a.bytes = b.bytes) : a = b := by
  cases a
  cases b
  cases h
  rfl

omit allows in
/-- What is read back from a slot is what was encoded into it. -/
theorem loaded_fill {tx n : Nat} {out : List UInt8} {message : Message maxLen}
    (written : encode message (List.replicate s.tx.slotBytes 0) = (.ok n, out))
    (token : message.token = call.token) :
    Loaded call message.id tx { s with tx := s.tx.fill tx (out.take n) } := by
  intro slot parsed at_ read
  obtain ⟨wf, fits, rfl, rfl⟩ := encode_ok written
  have bytes : slot.bytes = wire message.view := by
    have occupied : s.tx.occ.isOccupied tx := by
      by_contra free
      simp [TxMemory.fill, free, TxMemory.slot] at at_
    have short : (wire message.view).length ≤ s.tx.slotBytes := by simpa using fits
    simp only [List.take_left, TxMemory.fill, occupied, short, and_self, if_true,
      TxMemory.slot_modifySlot] at at_
    obtain ⟨before, -, rfl⟩ := Option.map_eq_some_iff.mp at_
    rfl
  obtain ⟨decoded, isDecoded, view⟩ := decodeWithToken_wire wf message.token.length_le
  rw [bytes, isDecoded] at read
  cases read
  refine ⟨?_, congrArg ExtendedMessage.id view⟩
  rw [← token]
  exact token_eq (congrArg ExtendedMessage.token view)

theorem does_encodeRequest {pre : State maxLen → Prop} (tx : Nat) (ty : MsgType) (mid : MessageId)
    (draft : Except Error Draft) :
    Does R pre (encodeRequest call tx ty mid draft) 0 fun _ => Loaded call mid tx := by
  intro s _
  refine ⟨allows.waits (Waiting.encodeRequest tx ty mid draft s), ?_⟩
  simp only [encodeRequest]
  split
  · trivial
  rw [exec_get_bind]
  split
  · trivial
  next written => exact loaded_fill written rfl

def State.enter (s : State maxLen) (call : Call maxLen) (mid : MessageId) (tx : Nat) : State maxLen :=
  { s with
    tx := (s.tx.setEndpoint tx call.peer).2
    exchanges := (s.exchanges.insert ⟨call.key, mid, tx⟩).2 }

theorem issues_enter {tx : Nat} : Issues call s (s.enter call mid tx) := by
  rcases s.exchanges.insert_cases ⟨call.key, mid, tx⟩ with
    ⟨-, -, same⟩ | ⟨-, refused⟩ | ⟨-, -, found⟩
  · simp only [State.enter, same]
    exact (Waits.tx _).issues
  · simp only [State.enter, refused]
    exact (Waits.tx _).issues
  exact { (.refl s : Issues call s s) with
    exchanges := by
      intro other ne isSome
      simp only [State.enter, found] at isSome
      rwa [if_neg fun same => ne (Call.key_inj.mp same).symm] at isSome }

/-- A loaded datagram is entered under its Call, unless it is refused. -/
theorem exec_admitRequest {tx : Nat} (loaded : Loaded call mid tx s) :
    (∃ error, exec (admitRequest tx call.peer) s = (.error error, s)) ∨
      exec (admitRequest tx call.peer) s =
        (if (s.exchanges.insert ⟨call.key, mid, tx⟩).1.isSome then .ok () else .error .saturated,
          s.enter call mid tx) := by
  simp only [admitRequest, recordRequest, bind_assoc, exec_get_bind]
  split
  · exact .inl ⟨_, rfl⟩
  · exact .inl ⟨_, rfl⟩
  next parsed read =>
  obtain ⟨slot, at_, read⟩ := Option.map_eq_some_iff.mp read
  obtain ⟨token, id⟩ := loaded slot parsed at_ read
  split
  · exact .inl ⟨_, rfl⟩
  rw [token, id]
  simp only [exec_bind, exec_set, exec_pure]
  right
  split
  next room =>
    rw [Call.key, if_pos room]
    rfl
  next full =>
    rw [Call.key, if_neg full]
    rfl

theorem does_admitRequest (tx : Nat) :
    Does (fun _ => Issues call) (Loaded call mid tx) (admitRequest tx call.peer) 0 fun _ _ => True := by
  intro s loaded
  rcases exec_admitRequest loaded with ⟨error, refused⟩ | entered
  · rw [refused]
    exact ⟨.refl s, trivial⟩
  · rw [entered]
    refine ⟨issues_enter, ?_⟩
    split <;> trivial

theorem Issues.dropExchangeForTx (tx : Nat) : Issues call s (s.dropExchangeForTx tx) := by
  simp only [State.dropExchangeForTx]
  split
  · exact .refl s
  · exact .takeExchange _

theorem does_finishClientSend (ty : MsgType) (nowMs : Nat) (mid : MessageId) (jitterMs : Nat)
    (accepted : Bool) (tx : Nat) : Does (fun _ => Issues call) (Loaded call mid tx)
      (finishClientSend call tx ty nowMs mid jitterMs accepted) 0 fun _ _ => True := by
  apply ((does_admitRequest tx).holding tx).bind
  intro _
  apply Does.of_costs
  refine Costs.bind (.attempt (Waiting.costs (.finishSend tx call.peer _ accepted))) fun outcome => ?_
  cases outcome with
  | ok a => exact .pure _
  | error e => exact Costs.bind (fun _ => .dropExchangeForTx tx) fun _ => .throw e

end Coaptic.Client
