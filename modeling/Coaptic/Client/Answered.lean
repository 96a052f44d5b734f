import Coaptic.Client.Keeping

/-!
# A response settles its Call

A response to a Call that waits on an exchange leaves the Call waiting on something, on an
exchange, an upload, missing blocks or further notifications, or it leaves a result that the
application is owed.
-/
namespace Coaptic.Client

open Codec Block Pending Program Slots

variable {maxLen : Nat} {call : Call maxLen} {s t : State maxLen} {α : Type} {p : Act maxLen α}

/-- The Call waits on an exchange. -/
abbrev Pends (call : Call maxLen) (s : State maxLen) : Prop := (s.exchanges.find call.key).isSome

/-- The body is a representation of the Call of which blocks are missing. -/
def Opened (call : Call maxLen) (id : Nat) (s : State maxLen) : Prop :=
  ∃ download, s.downloads[id]? = some (some download) ∧ download.call = call ∧
    download.complete = false

/-- There is something that the Call waits on. -/
def Continues (call : Call maxLen) (s : State maxLen) : Prop :=
  Pends call s ∨ (∃ upload ∈ s.uploads, upload.call = call) ∨ (∃ id, Opened call id s) ∨
    call ∈ s.observes

def Settled (call : Call maxLen) (s : State maxLen) : Prop :=
  Continues call s ∨ ∃ result, (call, result) ∈ s.owed

namespace Settled

theorem of_pends (pends : Pends call s) : Settled call s := .inl (.inl pends)

theorem of_opened {id : Nat} (opened : Opened call id s) : Settled call s :=
  .inl (.inr (.inr (.inl ⟨id, opened⟩)))

theorem releaseRx (settled : Settled call s) (rx : Nat) : Settled call (s.releaseRx rx) := by
  simp only [State.releaseRx]
  split
  · exact settled
  · exact settled

theorem failCall (failure : CallFailure) (releasePending : Bool) :
    Settled call (s.failCall call failure releasePending) :=
  .inr ⟨_, failCall_owed ..⟩

/-- A reply is the last one, or the Call observes. -/
theorem storeReply (reply : ReplyMeta) (body : Option Nat) :
    Settled call (s.storeReply call reply body) := by
  simp only [State.storeReply]
  split
  next observing =>
    rw [State.clientObserveLive, List.contains_iff_mem] at observing
    exact .inl (.inr (.inr (.inr observing)))
  · exact .inr ⟨_, List.mem_cons_self⟩

theorem keepDatagram (settled : Settled call s) (rx : Nat) : Settled call (s.keepDatagram call rx) := by
  simp only [State.keepDatagram]
  split
  · exact settled
  · exact settled.releaseRx rx

end Settled

/-! ### Observations -/

section

variable {R : Nat → State maxLen → State maxLen → Prop} [allows : Allows R]
  (subscribe : ∀ s, R 0 s { s with observes := call :: s.observes })
  (cancel : ∀ s, R 0 s (s.takeObserve call)) (viaExchange : Bool)

include subscribe cancel

/-- A response starts, goes on or ends an observation. -/
theorem costs_acceptClientObserve (parsed : ParsedMessage maxLen) :
    Costs R (acceptClientObserve call parsed viaExchange) fun _ => 0 := by
  apply Costs.get_bind
  intro s
  refine .ite cancel (.ite ?_ (.ite cancel (.pure _)))
  refine Costs.bind (Waiting.costs .answer) fun room s => ?_
  rw [exec_modify]
  split
  · exact allows.refl s
  · exact subscribe s

theorem costs_acceptOriginal (reply : ReplyMeta) :
    Costs R (acceptOriginal call reply viaExchange) fun _ => 0 := by
  simp only [acceptOriginal]
  split
  · exact costs_acceptClientObserve subscribe cancel viaExchange _
  · exact .pure _

end

/-! ### The ways of a response -/

theorem mem_of_uploadBody {upload : Upload maxLen} (found : s.uploadBody call = some upload) :
    upload ∈ s.uploads ∧ upload.call = call := by
  have isCall {tag : Option (List UInt8)} {q : Bool}
      (h : s.uploads.find? (· = ⟨call, tag, q⟩) = some upload) :
      upload ∈ s.uploads ∧ upload.call = call := by
    have same : upload = ⟨call, tag, q⟩ := by simpa using List.find?_some h
    exact ⟨List.mem_of_find?_eq_some h, by rw [same]⟩
  exact (Option.or_eq_some_iff.mp found).elim isCall fun h => isCall h.2

/-- Whether it returns or fails, the program leaves the Call settled; `post` if it returns. -/
abbrev Settles (call : Call maxLen) {α : Type} (pre : State maxLen → Prop) (p : Act maxLen α)
    (post : α → State maxLen → Prop) : Prop :=
  Ensures (Settled call) pre p post

instance Pends.allows : Allows fun _ s t => Pends call s → Pends call t :=
  .ofInvariant fun waits pends => by rwa [Pends, waits.exchanges]

/-- A program that leaves the exchange where it is. -/
theorem settles_awaiting (h : Costs (fun _ s t => Pends call s → Pends call t) p fun _ => 0) :
    Settles call (Pends call) p fun _ => Pends call :=
  .keeping h fun _ => .of_pends

/-- A continuation that fails ends its Call. -/
theorem settles_orFail {pre : State maxLen → Prop} {p : Act maxLen Unit}
    (goesOn : ∀ s, pre s → Settled call (exec p s).2) :
    Settles call pre (orFail call p) fun _ => Settled call := by
  have tried : Runs (fun _ _ _ => True) pre p 0 fun _ => Settled call :=
    fun s h => ⟨trivial, goesOn s h⟩
  apply Runs.attempt_bind (n := 0) tried
  intro outcome
  cases outcome with
  | ok a => exact fun s settled => ⟨trivial, settled⟩
  | error e => exact fun s _ => ⟨trivial, .failCall _ _⟩

section

variable (parsed : ParsedMessage maxLen) (reply : ReplyMeta)

theorem settles_finishAssembled (rx id : Nat) (viaExchange : Bool) :
    Settles call (Pends call) (finishAssembled call rx id reply viaExchange) fun _ => Settled call := by
  apply Ensures.get_bind
  intro s pends
  apply Ensures.ite
  · intro _
    exact Ensures.modify fun _ _ => (Settled.failCall _ _).releaseRx rx
  intro _
  refine ((settles_awaiting (costs_acceptOriginal (fun _ h => h) (fun _ h => h) viaExchange _)).start
    pends).bind ?_
  intro _
  exact Ensures.modify fun _ _ => (Settled.storeReply _ _).releaseRx rx

theorem settles_retainPartial (rx id : Nat) :
    Settles call (fun s => Pends call s ∧ Opened call id s) (retainPartial call reply rx id) fun _ =>
      Opened call id := by
  apply Ensures.modify_bind (q := fun s => Pends call s ∧ Opened call id s)
  · intro s both
    obtain ⟨rx, isState⟩ := releaseDatagram_eq s call
    rw [isState]
    exact both
  intro s both
  rw [exec_bind, exec_modifyGet]
  dsimp only
  split
  next previous _ =>
    rw [exec_modify]
    refine ⟨trivial, ?_⟩
    split
    · exact both.2
    next differs =>
    obtain ⟨download, at_, rest⟩ := both.2
    refine ⟨download, ?_, rest⟩
    rw [State.releaseRxBody, List.getElem?_set_ne differs]
    exact at_
  · exact ⟨trivial, both.2⟩
  · simp only [exec_bind, exec_modify, exec_throw]
    generalize isFreed : State.releaseRxBody _ id = freed
    have settled : Settled call freed := .of_pends (isFreed ▸ both.1)
    exact ⟨trivial, settled.releaseRx rx⟩

/-- Asking for more blocks leaves those there are. -/
theorem opened_continueBlock2 {id : Nat} (opened : Opened call id s) (q : Bool) (nowMs : Nat) :
    Opened call id (exec (continueBlock2 call parsed q nowMs) s).2 := by
  have asked : Costs (fun _ s t => Opened call id s → Opened call id t)
      (answer : Act maxLen Bool) fun _ => 0 := by
    intro s opened
    rw [Opened, (Waiting.answer s).downloads]
    exact opened
  have followed (q : Bool) : Costs (fun _ s t => Opened call id s → Opened call id t)
      (do
        modifyGet fun s => (PUnit.unit, (s.takeExchange call).2)
        if ← answer then sendFollowup call q none nowMs else pure () : Act maxLen Unit) fun _ => 0 := by
    refine Costs.bind (fun _ opened => opened) fun _ => asked.bind fun wanted => .ite ?_ (.pure _)
    intro s opened
    have tagged : Tagged call ((s.lives.get call).bind (·.requestTag)) s := by
      intro live isLive
      rw [isLive]
      rfl
    rw [Opened, (does_sendFollowup q none nowMs s tagged).1.downloads]
    exact opened
  have whole : Costs (fun _ s t => Opened call id s → Opened call id t)
      (continueBlock2 call parsed q nowMs) fun _ => 0 :=
    .ite (followed false) (.ite (.pure _) (asked.bind fun _ => .ite (followed true) (.pure _)))
  exact whole s opened

theorem settles_acceptBlock (rx nowMs : Nat) (viaExchange q : Bool) (outcome : BlockOutcome) :
    Settles call (Pends call) (acceptBlock call parsed reply rx nowMs viaExchange q outcome) fun _ =>
      Settled call := by
  intro s pends
  simp only [acceptBlock]
  rw [exec_bind, exec_modifyGet]
  rcases applyCallBlock2_cases s call ((parsed.getOption .etag).map (·.value)) q outcome with
    ⟨error, refused⟩ | ⟨id, complete, download, written, isCall, isComplete, inside⟩
  · rw [refused]
    simp only [exec_modify]
    refine ⟨trivial, ?_⟩
    split
    · exact (Settled.of_pends pends).releaseRx rx
    · exact (Settled.failCall _ _).releaseRx rx
  rw [written]
  cases complete with
  | true =>
    exact Ensures.modify_bind (q := Pends call) (fun _ pends => pends)
      (settles_finishAssembled reply rx id viaExchange) _ pends
  | false =>
  have opened : Opened call id { s with downloads := s.downloads.set id (some download) } :=
    ⟨download, by simp [inside], isCall, isComplete⟩
  refine Ensures.modify_bind (q := fun s => Pends call s ∧ Opened call id s) (fun _ both => both) ?_ _
    ⟨pends, opened⟩
  apply (settles_retainPartial reply rx id).bind
  intro _
  apply ensures_always
  · exact settles_orFail fun s opened => .of_opened (opened_continueBlock2 parsed opened q nowMs)
  · exact fun s settled => settled.releaseRx rx

theorem settles_acceptDatagram (rx nowMs : Nat) (viaExchange : Bool) :
    Settles call (Pends call) (acceptDatagram call parsed reply rx nowMs viaExchange) fun _ =>
      Settled call := by
  apply Ensures.get_bind
  intro s pends
  apply Ensures.ite
  · intro _
    exact Ensures.modify fun _ _ => (Settled.failCall _ _).releaseRx rx
  intro _
  apply Ensures.modify_bind (q := Pends call)
  · rintro _ rfl
    exact pends
  refine (settles_awaiting (costs_acceptClientObserve (fun _ h => h) (fun _ h => h) viaExchange _)).bind ?_
  intro _
  apply Ensures.modify
  intro s _
  dsimp only
  split
  · exact (Settled.storeReply _ _).keepDatagram rx
  · exact (Settled.storeReply _ _).releaseRx rx

theorem settles_acceptReply (rx nowMs : Nat) (viaExchange : Bool) (outcome : BlockOutcome) :
    Settles call (Pends call) (acceptReply call parsed rx nowMs viaExchange outcome) fun _ =>
      Settled call := by
  simp only [acceptReply]
  split
  · exact Ensures.modify fun _ _ => (Settled.failCall _ _).releaseRx rx
  next reply _ =>
  refine Ensures.modify_bind (q := Pends call) (fun _ pends => pends) ?_
  apply Ensures.ite
  · intro _
    exact settles_acceptBlock parsed reply rx nowMs viaExchange false outcome
  intro _
  apply Ensures.ite
  · intro _
    exact settles_acceptBlock parsed reply rx nowMs viaExchange true outcome
  · intro _
    exact settles_acceptDatagram parsed reply rx nowMs viaExchange

theorem settles_acceptResponse (rx nowMs : Nat) (viaExchange : Option (ExchangeEntry maxLen))
    (outcome : BlockOutcome) :
    Settles call (Pends call) (acceptResponse call parsed rx nowMs viaExchange outcome) fun _ =>
      Settled call := by
  apply Ensures.modify_bind (q := Pends call)
  · intro s pends
    rw [Pends, (Waits.takePending ..).exchanges, (Waits.stopRequest ..).exchanges]
    exact pends
  apply Ensures.get_bind
  intro s pends
  split
  · exact (settles_acceptReply parsed rx nowMs _ outcome).start pends
  next upload found =>
  -- The upload stays open unless the response ends it.
  have member := mem_of_uploadBody found
  have goesOn {p : Act maxLen Unit} (leaves : Issuing call p) :
      Settles call (fun t => t = s) (always (orFail call p) (·.releaseRx rx)) fun _ =>
        Settled call := by
    apply ensures_always
    · apply settles_orFail
      rintro t rfl
      refine .inl (.inr (.inl ⟨upload, ?_, member.2⟩))
      rw [(leaves t).uploads]
      exact member.1
    · exact fun s settled => settled.releaseRx rx
  apply Ensures.ite
  · intro _
    exact goesOn (.reissueQBlock1Missing nowMs)
  intro _
  apply Ensures.ite
  · intro _
    exact goesOn (.continueBlock1Tx nowMs upload)
  intro _
  apply Ensures.modify_bind (q := Pends call)
  · rintro _ rfl
    exact pends
  exact settles_acceptReply parsed rx nowMs _ outcome

end

theorem settles_completeClient (peer : Endpoint) (parsed : ParsedMessage maxLen) (rx nowMs : Nat)
    (outcome : BlockOutcome) :
    Settles ⟨parsed.token, peer⟩ (Pends ⟨parsed.token, peer⟩)
      (completeClient peer parsed rx nowMs outcome) fun _ => Settled ⟨parsed.token, peer⟩ := by
  have released (s : State maxLen) (settled : Settled ⟨parsed.token, peer⟩ s) :
      Settled ⟨parsed.token, peer⟩ (s.releaseRx rx) := settled.releaseRx rx
  have refused : Settles ⟨parsed.token, peer⟩ (Pends ⟨parsed.token, peer⟩) (reject parsed peer) fun _ =>
      Settled ⟨parsed.token, peer⟩ := by
    intro s pends
    have after : Pends ⟨parsed.token, peer⟩ (exec (reject parsed peer) s).2 := by
      rwa [Pends, (Waiting.reject parsed peer s).exchanges]
    refine ⟨trivial, ?_⟩
    cases (exec (reject parsed peer) s).1 with
    | ok a => exact .of_pends after
    | error e => exact .of_pends after
  apply Ensures.get_bind
  intro s pends
  apply Ensures.ite
  · intro _
    exact (ensures_always refused released).start pends
  intro _
  apply Ensures.ite
  · intro _
    apply Ensures.modify_bind (q := Pends ⟨parsed.token, peer⟩)
    · rintro _ rfl
      rw [Pends, (Waits.stopOnAck ..).exchanges]
      exact pends
    · exact ensures_always refused released
  intro _
  apply Ensures.ite
  · intro _
    exact (ensures_always refused fun s _ => (Settled.failCall _ _).releaseRx rx).start pends
  intro _
  apply ((ensures_onError (settles_awaiting (Waiting.costs (.acknowledge parsed peer)))
    released).start pends).bind
  intro _
  apply (ensures_onError (settles_awaiting (Waiting.costs (.demand .oscore))) released).bind
  intro _
  apply Ensures.modify_bind (q := Pends ⟨parsed.token, peer⟩)
  · intro t pends
    rw [Pends, (Waits.stopOnAck ..).exchanges]
    exact pends
  apply Ensures.ite
  · intro _
    exact settles_acceptResponse parsed rx nowMs _ outcome
  · intro _
    exact Ensures.modify fun t pends => (Settled.of_pends pends).releaseRx rx

/-- A message from the peer of a Call that waits on an exchange, under the Call's token, leaves the
Call settled. -/
theorem settled_receive (peer : Endpoint) (parsed : ParsedMessage maxLen) (nowMs : Nat)
    (outcome : BlockOutcome) (pends : Pends ⟨parsed.token, peer⟩ s) :
    Settled ⟨parsed.token, peer⟩ (exec (receive peer parsed nowMs outcome) s).2 := by
  simp only [receive, exec_get_bind]
  split
  · exact .of_pends pends
  · exact (settles_completeClient peer parsed _ nowMs outcome).either pends

end Coaptic.Client
