import Coaptic.Client.Completion

/-!
# What outlasts every event

A peer that asks for time keeps its delay until the time has come: whatever happens to a client,
no delay that is still running gets shorter. And a Call that is owed a result stays so until the
result is collected. Requests and removed associations are the two events that make or drop rows
of Calls at will.
-/
namespace Coaptic.Client

open Codec Block Pending Program Run

variable {maxLen nowMs : Nat} {call : Call maxLen} {c : Option (Call maxLen)} {s t : State maxLen}

/-! ### Results that are owed -/

/-- A result of the Call waits for the application. -/
def Owed (call : Call maxLen) (s : State maxLen) : Prop := ∃ result, (call, result) ∈ s.owed

theorem Owed.owe (owed : Owed call s) (other : Call maxLen) (result : Except CallFailure ReplyMeta) :
    Owed call (s.owe other result) := by
  by_cases same : call = other
  · exact ⟨result, by rw [same]; exact List.mem_cons_self⟩
  · obtain ⟨old, member⟩ := owed
    exact ⟨old, List.mem_cons_of_mem _ (List.mem_filter.mpr ⟨member, by simpa using same⟩)⟩

theorem Owed.failCall (owed : Owed call s) (other : Call maxLen) (failure : CallFailure)
    (releasePending : Bool) : Owed call (s.failCall other failure releasePending) := by
  obtain ⟨tx, rx, inbox, downloads, uploads, isState⟩ := failCall_frame s other failure releasePending
  rw [isState]
  exact Owed.owe (s := (s.detached other tx).disarm other) owed other (.error failure)

/-! ### Steps that keep the delays and the results -/

/-- No delay of a peer that is still running at `nowMs` gets shorter, and only the Call `c` may
have its result collected. -/
structure Tame (nowMs : Nat) (c : Option (Call maxLen)) (s t : State maxLen) : Prop where
  lives : s.lives.Cools nowMs t.lives
  owed : ∀ call, some call ≠ c → Owed call s → Owed call t

variable {u : State maxLen} {tx : Nat} {mid : MessageId} {peer : Endpoint}

namespace Tame

theorem refl (s : State maxLen) : Tame nowMs c s s := ⟨.refl nowMs s.lives, fun _ _ owed => owed⟩

theorem trans (first : Tame nowMs c s t) (second : Tame nowMs c t u) : Tame nowMs c s u :=
  ⟨first.lives.trans second.lives,
    fun call other owed => second.owed call other (first.owed call other owed)⟩

theorem of_steps (steps : Steps call s t) : Tame nowMs c s t :=
  ⟨steps.lives.cools, fun _ _ owed => by rwa [Owed, steps.owed]⟩

theorem of_waits (waits : Waits s t) : Tame nowMs c s t :=
  ⟨waits.lives ▸ .refl .., fun _ _ owed => by rwa [Owed, waits.owed]⟩

instance allows : Allows fun _ (s t : State maxLen) => Tame nowMs c s t where
  refl := refl
  trans := trans
  mono _ h := h
  waits := of_waits

variable {after : ClientLives maxLen}

theorem cools (h : s.lives.Cools nowMs after) : Tame nowMs c s { s with lives := after } :=
  ⟨h, fun _ _ owed => owed⟩

theorem steady (h : s.lives.Steady after) : Tame nowMs c s { s with lives := after } :=
  cools h.cools

theorem takeExchange (call : Call maxLen) : Tame nowMs c s (s.takeExchange call).2 := { refl s with }

theorem takePending (messageId : MessageId) (peer : Endpoint) :
    Tame nowMs c s (s.takePending messageId peer) :=
  of_waits (.takePending messageId peer)

theorem releaseTx (tx : Nat) : Tame nowMs c s (s.releaseTx tx) := { refl s with }

theorem releaseRx (rx : Nat) : Tame nowMs c s (s.releaseRx rx) := by
  simp only [State.releaseRx]
  split
  · exact refl s
  · exact { refl s with }

section

variable (call : Call maxLen)

theorem releaseDatagram : Tame nowMs c s (s.releaseDatagram call) := by
  obtain ⟨rx, isState⟩ := releaseDatagram_eq s call
  rw [isState]
  exact { refl s with }

theorem complete (result : Except CallFailure ReplyMeta) (body : Option Nat) :
    Tame nowMs c s (s.complete call result body) := by
  obtain ⟨downloads, isState⟩ := complete_eq s call result body
  rw [isState]
  exact { refl s with }

theorem failCall (failure : CallFailure) (releasePending : Bool) :
    Tame nowMs c s (s.failCall call failure releasePending) := by
  refine ⟨?_, fun _ _ owed => owed.failCall call failure releasePending⟩
  rw [failCall_lives]
  exact (steady_disarm s call).cools

theorem storeReply (reply : ReplyMeta) (body : Option Nat) :
    Tame nowMs c s (s.storeReply call reply body) := by
  have released : Tame nowMs c s (s.releaseDatagram call) := releaseDatagram call
  have stored := released.trans (complete call (.ok reply) body)
  simp only [State.storeReply]
  split
  · exact stored
  · exact stored.trans ⟨.refl .., fun _ _ owed => owed.owe call _⟩

theorem keepDatagram (rx : Nat) : Tame nowMs c s (s.keepDatagram call rx) := by
  simp only [State.keepDatagram]
  split
  · exact { refl s with }
  · exact .releaseRx rx

theorem applyCallBlock2 (etag : Option (List UInt8)) (q : Bool) (outcome : BlockOutcome) :
    Tame nowMs c s (s.applyCallBlock2 call etag q outcome).2 := by
  rcases applyCallBlock2_cases s call etag q outcome with
    ⟨error, refused⟩ | ⟨id, complete, download, written, -⟩
  · rw [refused]
    exact refl s
  · rw [written]
    exact { refl s with }

end

end Tame

/-! ### Programs -/

/-- A program that keeps packets and exchanges together. -/
abbrev Tames {α : Type} (nowMs : Nat) (c : Option (Call maxLen)) (p : Act maxLen α) : Prop :=
  Costs (fun _ => Tame nowMs c) p fun _ => 0

namespace Tames

variable {α : Type} {p : Act maxLen α} {last : State maxLen → State maxLen}

theorem modify {f : State maxLen → State maxLen} (h : ∀ s, Tame nowMs c s (f s)) :
    Tames nowMs c (modifyGet fun s => (PUnit.unit, f s) : Act maxLen PUnit) :=
  h

theorem modify_bind {f : State maxLen → State maxLen} {g : PUnit → Act maxLen α}
    (h : ∀ s, Tame nowMs c s (f s)) (hg : Tames nowMs c (g ⟨⟩)) :
    Tames nowMs c (modifyGet (fun s => (PUnit.unit, f s)) >>= g) :=
  (modify h).bind fun _ => hg

theorem issuing (h : Issuing call p) : Tames nowMs c p := fun s => .of_steps (h s).toSteps

theorem answer : Tames nowMs c (Client.answer : Act maxLen Bool) := Waiting.costs .answer

theorem always (hp : Tames nowMs c p) (h : ∀ s, Tame nowMs c s (last s)) :
    Tames nowMs c (always p last) := by
  apply hp.attempt.bind
  intro outcome
  cases outcome with
  | ok a => exact (modify h).bind fun _ => .pure a
  | error e => exact (modify h).bind fun _ => .throw e

theorem onError (hp : Tames nowMs c p) (h : ∀ s, Tame nowMs c s (last s)) :
    Tames nowMs c (onError p last) := by
  apply hp.attempt.bind
  intro outcome
  cases outcome with
  | ok a => exact .pure a
  | error e => exact (modify h).bind fun _ => .throw e

theorem orFail {p : Act maxLen Unit} (hp : Tames nowMs c p) : Tames nowMs c (orFail call p) := by
  apply hp.attempt.bind
  intro outcome
  cases outcome with
  | ok a => exact .pure _
  | error e =>
  refine Costs.bind (fun s => ?_) fun _ => .throw e
  have abandoned : Sends call none 0 s (s.abandonSend call) := .abandonSend call
  exact (Tame.of_steps abandoned.toSteps).trans (.failCall ..)

/-- Whatever the tag of its Call, a follow-up keeps to its own. -/
theorem sendFollowup (q : Bool) (recoveryTy : Option MsgType) (nowMs : Nat) :
    Tames nowMs c (sendFollowup call q recoveryTy nowMs) := by
  intro s
  have tagged : Tagged call ((s.lives.get call).bind (·.requestTag)) s := by
    intro live isLive
    rw [isLive]
    rfl
  exact .of_steps (does_sendFollowup q recoveryTy nowMs s tagged).1.toSteps

theorem continueBlock2 (parsed : ParsedMessage maxLen) (q : Bool) (nowMs : Nat) :
    Tames nowMs c (continueBlock2 call parsed q nowMs) := by
  have follow (q : Bool) : Tames nowMs c (do
      modifyGet fun s => (PUnit.unit, (s.takeExchange call).2)
      if ← Client.answer then Client.sendFollowup call q none nowMs else Pure.pure ()) := by
    apply modify_bind fun s => .takeExchange call
    apply answer.bind
    intro wanted
    exact .ite (sendFollowup q none nowMs) (.pure _)
  refine .ite (follow false) (.ite (.pure _) ?_)
  apply answer.bind
  intro wanted
  exact .ite (follow true) (.pure _)

theorem observed (s : State maxLen) (observes : List (Call maxLen)) :
    Tame nowMs c s { s with observes } := { Tame.refl s with }

theorem finishAssembled (rx id : Nat) (reply : ReplyMeta) (viaExchange : Bool) :
    Tames nowMs c (finishAssembled call rx id reply viaExchange) := by
  apply Costs.get_bind
  intro s
  refine .ite (modify fun s => (Tame.failCall ..).trans (.releaseRx rx)) ?_
  refine Costs.bind (costs_acceptOriginal (fun s => observed s _) (fun s => observed s _)
    viaExchange _) fun _ => ?_
  exact modify fun s => ((Tame.takeExchange call).trans (.storeReply ..)).trans (.releaseRx rx)

theorem retainPartial (reply : ReplyMeta) (rx id : Nat) :
    Tames nowMs c (retainPartial call reply rx id) := by
  apply modify_bind fun s => .releaseDatagram call
  refine Costs.bind (fun s => ?_) fun outcome => ?_
  · have same : Tame nowMs c s { s with inbox := (s.inbox.retainPartial call reply id).2 } :=
      { Tame.refl s with }
    exact same
  split
  · apply modify
    intro s
    split
    · exact .refl s
    · exact { Tame.refl s with }
  · exact .pure _
  refine Costs.bind (modify fun s => ?_) fun _ => .throw _
  have freed : Tame nowMs c s (s.releaseRxBody id) := { Tame.refl s with }
  exact freed.trans (.releaseRx rx)

section

variable (parsed : ParsedMessage maxLen)

theorem acceptBlock (reply : ReplyMeta) (rx nowMs : Nat) (viaExchange q : Bool)
    (outcome : BlockOutcome) :
    Tames nowMs c (acceptBlock call parsed reply rx nowMs viaExchange q outcome) := by
  refine Costs.bind (fun s => (Tame.applyCallBlock2 call _ q outcome)) fun result => ?_
  split
  · exact modify_bind (fun s => .steady (.recordObservation ..))
      (finishAssembled _ _ reply viaExchange)
  · apply modify_bind fun s => .steady (.recordObservation ..)
    apply (retainPartial reply rx _).bind
    intro _
    exact (continueBlock2 parsed q nowMs).orFail.always fun s => .releaseRx rx
  apply modify
  intro s
  split
  · exact .releaseRx rx
  · exact (Tame.failCall ..).trans (.releaseRx rx)

theorem acceptDatagram (reply : ReplyMeta) (rx nowMs : Nat) (viaExchange : Bool) :
    Tames nowMs c (acceptDatagram call parsed reply rx nowMs viaExchange) := by
  apply Costs.get_bind
  intro s
  refine .ite (modify fun s => (Tame.failCall ..).trans (.releaseRx rx)) ?_
  apply modify_bind fun s => .steady (.recordObservation ..)
  refine Costs.bind (costs_acceptClientObserve (fun s => observed s _) (fun s => observed s _)
    viaExchange _) fun _ => ?_
  apply modify
  intro s
  have stored : Tame nowMs c s ((s.takeExchange call).2.storeReply call reply none) :=
    (Tame.takeExchange call).trans (.storeReply ..)
  dsimp only
  split
  · exact stored.trans (.keepDatagram call rx)
  · exact stored.trans (.releaseRx rx)

theorem acceptReply (rx nowMs : Nat) (viaExchange : Bool) (outcome : BlockOutcome) :
    Tames nowMs c (acceptReply call parsed rx nowMs viaExchange outcome) := by
  simp only [Client.acceptReply]
  split
  · exact modify fun s => (Tame.failCall ..).trans (.releaseRx rx)
  next reply _ =>
  apply modify_bind fun s => .cools (.recordBackoff ..)
  exact .ite (acceptBlock parsed reply rx nowMs viaExchange false outcome)
    (.ite (acceptBlock parsed reply rx nowMs viaExchange true outcome)
      (acceptDatagram parsed reply rx nowMs viaExchange))

theorem acceptResponse (rx nowMs : Nat) (viaExchange : Option (ExchangeEntry maxLen))
    (outcome : BlockOutcome) :
    Tames nowMs c (acceptResponse call parsed rx nowMs viaExchange outcome) := by
  apply modify_bind fun s => (Tame.of_waits (.stopRequest ..)).trans (.takePending ..)
  apply Costs.get_bind
  intro s
  have reply : Tames nowMs c (Client.acceptReply call parsed rx nowMs viaExchange.isSome outcome) :=
    acceptReply parsed rx nowMs viaExchange.isSome outcome
  split
  · exact reply
  next upload _ =>
  refine .ite ((issuing (.reissueQBlock1Missing nowMs)).orFail.always fun s => .releaseRx rx)
    (.ite ((issuing (.continueBlock1Tx nowMs upload)).orFail.always fun s => .releaseRx rx) ?_)
  exact modify_bind (fun s => { Tame.refl s with }) reply

end

theorem completeClient (peer : Endpoint) (parsed : ParsedMessage maxLen) (rx nowMs : Nat)
    (outcome : BlockOutcome) : Tames nowMs c (completeClient peer parsed rx nowMs outcome) := by
  apply Costs.get_bind
  intro s
  have refused : Tames nowMs c (reject parsed peer) := Waiting.costs (.reject parsed peer)
  have acknowledged : Tames nowMs c (acknowledge parsed peer) := Waiting.costs (.acknowledge parsed peer)
  refine .ite (refused.always fun s => .releaseRx rx) (.ite ?_ (.ite ?_ ?_))
  · exact modify_bind (fun t => .of_waits (.stopOnAck ..)) (refused.always fun s => .releaseRx rx)
  · exact refused.always fun s => (Tame.failCall ..).trans (.releaseRx rx)
  apply (acknowledged.onError fun s => .releaseRx rx).bind
  intro _
  apply (Tames.onError (Waiting.costs (.demand .oscore)) fun s => .releaseRx rx).bind
  intro _
  apply modify_bind fun t => .of_waits (.stopOnAck ..)
  exact .ite (acceptResponse parsed rx nowMs _ outcome) (modify fun s => .releaseRx rx)

theorem receive (peer : Endpoint) (parsed : ParsedMessage maxLen) (nowMs : Nat)
    (outcome : BlockOutcome) : Tames nowMs c (receive peer parsed nowMs outcome) := by
  intro s
  simp only [Client.receive, exec_get_bind]
  split
  · exact (Tame.refl s)
  next rx occ _ =>
  have acquired : Tame nowMs c s { s with rx := occ } := { Tame.refl s with }
  rw [exec_bind, exec_set]
  exact acquired.trans (completeClient peer parsed rx nowMs outcome _)

theorem recoverQBlock2 (id nowMs : Nat) :
    Tames nowMs c (recoverQBlock2 id nowMs : Act maxLen Unit) := by
  apply Costs.get_bind
  intro s
  split
  · exact .pure _
  · exact .ite (sendFollowup true _ nowMs).orFail (.pure _)

theorem paceQBlock1 (nowMs : Nat) : Tames nowMs c (paceQBlock1 nowMs : Act maxLen Unit) := by
  intro s
  simp only [Client.paceQBlock1, exec_get_bind]
  split
  · exact (Tame.refl s)
  next live _ =>
  have disarmed : Tame nowMs c s { s with lives := s.lives.update (·.call = live.call) fun row =>
      { row with qPaceMs := 0 } } := .steady (.update _ fun _ => rfl)
  rw [exec_bind, exec_set]
  dsimp only
  split
  · exact disarmed
  next upload _ =>
  have next : Tames nowMs c (Client.orFail live.call do
      Client.demand (.block .outsideWindow)
      continueBlock1Tx live.call upload nowMs) := (issuing (.next nowMs upload)).orFail
  exact disarmed.trans (next _)

theorem continueQBlock1Ack (mid : MessageId) (peer : Endpoint) (nowMs : Nat) :
    Tames nowMs c (continueQBlock1Ack mid peer nowMs : Act maxLen Unit) := by
  apply Costs.get_bind
  intro s
  split
  · exact .pure _
  dsimp only
  split
  next upload _ _ =>
    refine .ite (.pure _) ?_
    apply answer.bind
    intro more
    exact .ite (issuing (.next nowMs upload)).orFail (.pure _)
  · exact .pure _

end Tames

/-! ### Datagrams that end a Call -/

theorem Tame.failPendingClient (tx : Nat) (failure : CallFailure) :
    Tame nowMs c s (s.failPendingClient tx failure) := by
  simp only [State.failPendingClient]
  split
  · exact .refl s
  · exact .failCall ..

section

variable (s : State maxLen)

theorem Tame.retransmit (nowMs : Nat) : Tame nowMs c s (s.retransmit nowMs) := by
  simp only [State.retransmit]
  split
  next tx _ =>
    have moved : Tame nowMs c s { s with tx } := { Tame.refl s with }
    exact (moved.trans (.failPendingClient _ _)).trans (.releaseTx _)
  · exact { Tame.refl s with }

theorem Tame.retransmitFailed (tx : Nat) : Tame nowMs c s (s.retransmitFailed tx) := by
  simp only [State.retransmitFailed]
  split
  · exact .refl s
  · exact (Tame.failPendingClient tx _).trans (.releaseTx tx)

theorem Tame.completeClientRst (mid : MessageId) (peer : Endpoint) :
    Tame nowMs c s (s.completeClientRst mid peer) := by
  simp only [State.completeClientRst]
  split
  · exact .refl s
  · exact .failCall ..

theorem Tame.control (isReset : Bool) (mid : MessageId) (peer : Endpoint) (nowMs : Nat) :
    Tame nowMs c s (exec (control isReset mid peer nowMs) s).2 := by
  simp only [Client.control]
  split
  · simp only [exec_bind, exec_modify]
    exact (Tame.completeClientRst s mid peer).trans (Tame.takePending mid peer)
  rw [exec_get_bind, exec_bind, exec_modify]
  have stopped : Tame nowMs c s (s.takePending mid peer) := .takePending mid peer
  dsimp only
  split
  · exact stopped.trans (Tames.continueQBlock1Ack mid peer nowMs _)
  · exact stopped

theorem Tame.supersede (expected : PendingCon) (bytes : List UInt8) :
    Tame nowMs c s (s.supersede expected bytes) := by
  simp only [State.supersede]
  split
  · exact .refl s
  · exact { Tame.refl s with }

end

/-! ### The other events -/

namespace Tame

theorem foldl {ι : Type} {f : State maxLen → ι → State maxLen} (items : List ι)
    (h : ∀ s i, Tame nowMs c s (f s i)) : Tame nowMs c s (items.foldl f s) :=
  List.foldlRecOn (motive := Tame nowMs c s) items f (refl s) fun t quiet i _ => quiet.trans (h t i)

theorem expireClientExchanges (nowMs : Nat) : Tame nowMs c s (s.expireClientExchanges nowMs) := by
  have expired : Tame nowMs c s { s with lives := s.lives.expireBackoffs nowMs } :=
    cools (.expireBackoffs ..)
  exact expired.trans (foldl _ fun s ended => .failCall ..)

theorem qblockGiveUp (id : Nat) : Tame nowMs c s (s.qblockGiveUp id) := by
  simp only [State.qblockGiveUp]
  split
  · exact refl s
  split
  · have freed : Tame nowMs c s (s.releaseRxBody id) := { refl s with }
    split
    · exact freed.trans (.failCall ..)
    · exact freed
  · exact refl s

/-- The Call's row goes, or stays for the delay only. -/
theorem collect (call : Call maxLen) (quiet : Tame nowMs (some call) s t) : Tame nowMs (some call) s
    ((if t.clientObserveLive call then t else
      { t with lives := t.lives.remove call }).settle call) := by
  apply quiet.trans
  have settled (owed : State maxLen) (other : Call maxLen) (differs : some other ≠ some call)
      (owes : Owed other owed) : Owed other (owed.settle call) := by
    obtain ⟨result, member⟩ := owes
    exact ⟨result, List.mem_filter.mpr ⟨member, by simpa using differs⟩⟩
  split
  · exact ⟨.refl .., settled t⟩
  · exact ⟨.remove t.lives call, settled { t with lives := t.lives.remove call }⟩

theorem takeResponse (call : Call maxLen) : Tame nowMs (some call) s (s.takeResponse call).2 := by
  have released : Tame nowMs (some call) s (s.releaseDatagram call) := .releaseDatagram call
  simp only [State.takeResponse]
  generalize s.releaseDatagram call = r at released ⊢
  split
  · exact released
  next row rows _ =>
  have taken : Tame nowMs (some call) r { r with inbox := rows } := { refl r with }
  have collected := (released.trans taken).collect call
  dsimp only at collected
  generalize State.settle _ call = settled at collected ⊢
  split
  · exact collected
  split
  · exact collected.trans { refl settled with }
  · exact collected.trans { refl settled with }

theorem takeResponseInto (call : Call maxLen) (available : Nat) (packet : Option (List UInt8)) :
    Tame nowMs (some call) s (s.takeResponseInto call available packet).2 := by
  have released : Tame nowMs (some call) s (s.releaseDatagram call) := .releaseDatagram call
  simp only [State.takeResponseInto]
  split
  · exact refl s
  split
  · exact refl s
  apply collect
  split
  · exact released.trans { refl (s.releaseDatagram call) with }
  · exact released.trans { refl (s.releaseDatagram call) with }

theorem cancel (call : Call maxLen) : Tame nowMs c s (s.cancel call).2 := by
  simp only [State.cancel]
  split
  · exact refl s
  · exact .failCall ..

theorem sweepTx (peer : Endpoint) (id : Nat) : Tame nowMs c s (s.sweepTx peer id) := by
  unfold State.sweepTx
  extract_lets u v
  have taken : Tame nowMs c s u := by
    simp only [u]
    split
    · exact .refl s
    · exact .takeExchange _
  have stopped : Tame nowMs c u v := by
    simp only [v]
    split
    · exact .refl u
    · exact { refl u with }
  split
  · exact (taken.trans stopped).trans (.releaseTx id)
  · exact taken.trans stopped

theorem evictPins (pins : List Nat) : Tame nowMs c s (s.evictPins pins) := by
  apply foldl
  intro s tx
  split
  · exact .releaseTx tx
  · exact .refl s

end Tame

/-- All of an association but the rows of its Calls. -/
theorem Tame.sweep (s : State maxLen) (peer : Endpoint) :
    Tame nowMs c (s.revokeAssociation peer) (s.removeAssociation peer) := by
  simp only [State.removeAssociation]
  generalize s.revokeAssociation peer = u
  have unobserved : Tame nowMs c u { u with observes := u.observes.filter (·.peer ≠ peer) } :=
    { Tame.refl u with }
  have swept := unobserved.trans
    (foldl (List.range u.tx.slots.length) fun s id => .sweepTx peer id)
  generalize (List.range u.tx.slots.length).foldl (State.sweepTx peer) _ = v at swept ⊢
  exact swept.trans { Tame.refl v with }

theorem length_removeAssociation (s : State maxLen) (peer : Endpoint) :
    (s.removeAssociation peer).lives.length = s.lives.length := by
  have revoked : (s.revokeAssociation peer).lives.length = s.lives.length := by
    refine List.foldlRecOn (motive := fun t :
      State maxLen => t.lives.length = s.lives.length) _ _ rfl ?_
    intro t length i _
    rw [← length, State.revokeRow]
    split
    · rfl
    next live _ =>
    have failed : Tame 0 none t (t.failCall live.call .associationRevoked true) := .failCall ..
    exact List.length_set.trans failed.lives.length
  have swept : Tame 0 none (s.revokeAssociation peer) (s.removeAssociation peer) := .sweep s peer
  exact swept.lives.length.trans revoked

/-! ### Requests -/

theorem length_commitCall (live : LiveCall maxLen) (replacing : Bool) :
    (s.commitCall live replacing).lives.length = s.lives.length := by
  cases replacing with
  | false => exact ClientLives.length_insert s.lives live
  | true =>
  have released : Tame 0 none s (s.releaseDatagram live.call) := .releaseDatagram live.call
  exact (ClientLives.length_insert ..).trans released.lives.length

section

variable (spec : RequestSpec maxLen) (draws : List (OwnedToken maxLen)) (pins : List Nat) (nowMs : Nat)

/-- What a request came to: either no Call was installed, or it was admitted in a state `u` from
which only its own datagrams led to the state in which its Call is installed. -/
theorem request_cases (s : State maxLen) :
    Tame nowMs none s (exec (request spec draws pins nowMs) s).2 ∨
      ∃ call prior u v, Admitted spec call u ∧ Tame nowMs none s u ∧ Tame nowMs none u v ∧
        u.lives.Steady v.lives ∧
        Tame nowMs none (v.commitCall (liveCall call spec prior nowMs) spec.replacing)
          (exec (request spec draws pins nowMs) s).2 := by
  obtain ⟨u, isState, ends⟩ := exec_request spec draws pins nowMs s
  have admission : Tame nowMs none s u := by
    rcases isState with rfl | rfl
    · exact .refl u
    · exact .cools (.expireBackoffs ..)
  rcases ends with ended | ⟨call, prior, admitted, isRequest⟩
  · rw [ended]
    exact .inl admission
  rw [isRequest]
  have prepared : Tame nowMs none u (u.replaced spec call) ∧
      u.lives.Steady (u.replaced spec call).lives := by
    rw [State.replaced]
    split
    · have abandoned : Sends call none 0 u (u.abandonSend call) := .abandonSend call
      refine ⟨(Tame.of_steps abandoned.toSteps).trans (.failCall ..), ?_⟩
      rw [failCall_lives]
      exact abandoned.lives.trans (steady_disarm _ call)
    · exact ⟨.refl u, .refl _⟩
  generalize u.replaced spec call = w at prepared ⊢
  have evicted : Tame nowMs none u (w.evictPins pins) ∧ u.lives.Steady (w.evictPins pins).lives :=
    ⟨prepared.1.trans (.evictPins pins), by rw [lives_evictPins]; exact prepared.2⟩
  rw [exec_bind]
  have sends : Sends call spec.requestTag 1 (w.evictPins pins)
      (exec (sendCall call spec nowMs) (w.evictPins pins)).2 :=
    (runs_sendCall spec nowMs _ trivial).1
  generalize exec (sendCall call spec nowMs) (w.evictPins pins) = sent at sends
  obtain ⟨outcome, v⟩ := sent
  have sent : Tame nowMs none u v := evicted.1.trans (.of_steps sends.toSteps)
  cases outcome with
  | error e => exact .inl (admission.trans sent)
  | ok _ =>
  refine .inr ⟨call, prior, u, v, admitted, admission, sent, evicted.2.trans sends.lives, ?_⟩
  dsimp only
  rw [exec_bind, exec_modify]
  dsimp only
  have finished : Tames nowMs none (do
      armQPacing call nowMs
      Pure.pure call : Act maxLen (Call maxLen)) :=
    (Tames.issuing (.armQPacing nowMs)).bind fun _ => .pure call
  exact finished _

theorem length_request (s : State maxLen) :
    (exec (request spec draws pins nowMs) s).2.lives.length = s.lives.length := by
  rcases request_cases spec draws pins nowMs s with refused | ⟨call, prior, u, v, -, before, sent, -, last⟩
  · exact refused.lives.length
  · exact last.lives.length.trans
      ((length_commitCall ..).trans (before.trans sent).lives.length)

end

/-! ### Runs -/

def Event.time : Event maxLen → Option Nat
  | .request _ _ _ nowMs | .receive _ _ nowMs _ | .control _ _ _ nowMs | .expire nowMs
  | .retransmit nowMs | .recover _ nowMs | .pace nowMs => some nowMs
  | _ => none

/-- The Call whose result the application asks for. -/
def Event.collects : Event maxLen → Option (Call maxLen)
  | .take call | .takeInto call _ _ => some call
  | _ => none

/-- What an event does, other than the two that make or drop rows of Calls at will. -/
theorem Tame.handle (s : State maxLen) (event : Event maxLen) :
    Tame (event.time.getD 0) event.collects s (s.handle event) ∨
      (∃ spec draws pins nowMs, event = .request spec draws pins nowMs) ∨
      ∃ peer, event = .removeAssociation peer := by
  cases event with
  | request spec draws pins nowMs => exact .inr (.inl ⟨spec, draws, pins, nowMs, rfl⟩)
  | receive peer parsed nowMs outcome => exact .inl (Tames.receive peer parsed nowMs outcome s)
  | control isReset mid peer nowMs => exact .inl (.control s isReset mid peer nowMs)
  | expire nowMs => exact .inl (Tame.expireClientExchanges nowMs)
  | retransmit nowMs => exact .inl (.retransmit s nowMs)
  | retransmitFailed tx => exact .inl (.retransmitFailed s tx)
  | recover id nowMs => exact .inl (Tames.recoverQBlock2 id nowMs s)
  | qExpire id => exact .inl (Tame.qblockGiveUp id)
  | pace nowMs => exact .inl (Tames.paceQBlock1 nowMs s)
  | take call => exact .inl (Tame.takeResponse call)
  | takeInto call available packet => exact .inl (Tame.takeResponseInto call available packet)
  | cancel call => exact .inl (Tame.cancel call)
  | removeAssociation peer => exact .inr (.inr ⟨peer, rfl⟩)
  | serve bytes dest pending accepted =>
    exact .inl (.of_waits (Waiting.serve bytes dest pending accepted s))
  | cache bytes => exact .inl (.of_waits (Waiting.cache bytes s))
  | supersede expected bytes => exact .inl (.supersede s expected bytes)
  | release tx => exact .inl (Tame.releaseTx tx)

theorem length_step (s : State maxLen) (input : Input maxLen) :
    (s.step input).lives.length = s.lives.length := by
  obtain ⟨event, plans, answers⟩ := input
  simp only [State.step]
  rcases Tame.handle { s with plans, answers } event with
    tame | ⟨spec, draws, pins, nowMs, rfl⟩ | ⟨peer, rfl⟩
  · exact tame.lives.length
  · exact length_request spec draws pins nowMs _
  · exact length_removeAssociation _ peer

end Coaptic.Client
