import Coaptic.Client.Sends

/-!
# The sending programs keep to their Call

Each program that sends datagrams of a Call stays within `Sends`: from one block of an upload to
a whole new request. Those that go on with an upload stay within `Issues`.
-/
namespace Coaptic.Client

open Codec Block Pending Program

variable {maxLen : Nat} {call : Call maxLen} {tag : Option (List UInt8)} {s t : State maxLen}

variable {α : Type} {pre : State maxLen → Prop} {p : Act maxLen α}
  {post : α → State maxLen → Prop}

/-- What comes after an attempt does not ask how it ended. -/
theorem Does.attempt_bind {β : Type} {m : Nat} {f : Except Error α → Act maxLen β}
    {last : Except Error β → State maxLen → Prop}
    (hp : Does (Sends call tag) pre p m fun _ _ => True)
    (hf : ∀ outcome, Runs (Sends call tag) (fun _ => True) (f outcome) 0 last) :
    Runs (Sends call tag) pre (attempt p >>= f) m last :=
  Runs.attempt_bind (n := 0) hp fun outcome s _ => hf outcome s trivial

theorem Does.mono {m n : Nat} (h : Does (Sends call tag) pre p m post) (le : m ≤ n) :
    Does (Sends call tag) pre p n post :=
  fun s holds => ⟨(Sends.allows call tag).mono le (h s holds).1, (h s holds).2⟩

/-! ### Uploads that go on -/

section

variable (ty : MsgType) (nowMs : Nat)

theorem does_stageBlock1Issued :
    Does (fun _ => Issues call) (fun _ => True) (stageBlock1Issued call ty) 0 fun staged =>
      Loaded call staged.mid staged.tx := by
  apply (Does.waiting (.demand _)).bind
  intro _
  apply (Does.waiting .ordinaryTx).bind
  intro tx
  apply (Does.waiting .nextPlan).bind
  intro plan
  apply ((Does.waiting (.midOf plan)).holding tx).bind
  intro mid
  apply ((does_encodeRequest tx ty mid plan.draft).holding tx).bind
  intro _
  exact .pure _ fun _ loaded => loaded

/-- With nothing assumed and nothing provided. -/
theorem Does.issuing {p : Act maxLen α}
    (h : Does (fun _ => Issues call) (fun _ => True) p 0 fun _ _ => True) : Issuing call p :=
  fun s => (h s trivial).1

namespace Issuing

theorem answer : Issuing call (answer : Act maxLen Bool) := Waiting.answer.costs

theorem demand (e : Error) : Issuing call (demand e : Act maxLen Unit) := (Waiting.demand e).costs

theorem sendBlock1Issued : Issuing call (sendBlock1Issued call ty nowMs) := by
  apply Does.issuing
  apply (does_stageBlock1Issued ty).bind
  intro staged
  exact does_finishClientSend ty nowMs staged.mid staged.jitterMs staged.accepted staged.tx

theorem issueQBlock1Window (takeFirst sent : Bool) (fuel : Nat) :
    Issuing call (issueQBlock1Window call ty nowMs takeFirst sent fuel) := by
  induction fuel generalizing sent with
  | zero => exact .pure _
  | succ fuel ih =>
  apply answer.bind
  intro issued
  split
  · refine Costs.bind (fun s => ?_) fun _ => ?_
    · rw [exec_modify]
      split
      · exact .takeExchange call
      · exact .refl s
    apply (sendBlock1Issued ty nowMs).bind
    intro _
    apply answer.bind
    intro complete
    exact .ite (.pure _) (ih true)
  · exact (demand _).bind fun _ => .pure _

theorem armQPacing : Issuing call (armQPacing call nowMs) := by
  apply answer.bind
  intro ready s
  exact { (.refl s : Issues call s s) with lives := .update _ fun _ => rfl }

theorem continueBlock1Tx (upload : Upload maxLen) :
    Issuing call (continueBlock1Tx call upload nowMs) := by
  apply (demand _).bind
  intro _
  apply answer.bind
  intro complete
  refine .ite (.pure _) (.get_bind fun s => .ite ?_ ?_)
  · refine Costs.bind (fun _ => .takeExchange call) fun _ => ?_
    exact (demand _).bind fun _ => sendBlock1Issued _ nowMs
  apply answer.bind
  intro may
  refine .ite ?_ (.pure _)
  apply (demand _).bind
  intro _
  apply (issueQBlock1Window _ nowMs true false maxPayloads).bind
  intro _
  exact armQPacing nowMs

/-- What a timer or an acknowledgement sends of an upload. -/
theorem next (upload : Upload maxLen) : Issuing call (do
    Client.demand (.block .outsideWindow)
    Client.continueBlock1Tx call upload nowMs) :=
  (demand _).bind fun _ => continueBlock1Tx nowMs upload

theorem resendMissing (sent : Bool) (fuel : Nat) :
    Issuing call (resendMissing call nowMs sent fuel) := by
  induction fuel generalizing sent with
  | zero => exact .pure _
  | succ fuel ih =>
  apply answer.bind
  intro missing
  refine .ite ?_ (.pure _)
  apply (demand _).bind
  intro _
  exact (sendBlock1Issued _ nowMs).bind fun _ => ih true

theorem reissueQBlock1Missing : Issuing call (reissueQBlock1Missing call nowMs) := by
  apply answer.bind
  intro wellFormed
  refine .ite (.get_bind fun s => .ite (.pure _) ?_) (.pure _)
  apply (resendMissing nowMs false maxPayloads).bind
  intro sent
  exact .ite (armQPacing nowMs) (.pure _)

end Issuing

/-! ### Follow-up requests -/

theorem does_finishFollowup (mid : MessageId) (jitterMs : Nat) (accepted : Bool) (tx : Nat) :
    Does (fun _ => Issues call) (Loaded call mid tx)
      (finishFollowup call tx ty nowMs mid jitterMs accepted) 0 fun _ _ => True := by
  apply ((does_admitRequest tx).holding tx).bind
  intro _
  exact .waiting (.finishSend tx call.peer _ accepted)

theorem sends_start (q : Bool) :
    Sends call tag 1 s { s with uploads := ⟨call, tag, q⟩ :: s.uploads } :=
  { (Issues.refl s : Issues call s s) with
    uploads := by
      refine ⟨[⟨call, tag, q⟩], Nat.le_refl _, ?_, List.Sublist.refl _⟩
      intro upload member
      cases List.mem_singleton.mp member
      exact ⟨rfl, rfl⟩ }

theorem does_stageClientBlock1 {pre : State maxLen → Prop} (q : Bool) (ty : MsgType) (tx : Nat)
    (mid : MessageId) (jitterMs : Nat) :
    Does (Sends call tag) pre (stageClientBlock1 call tag q ty tx mid jitterMs) 1 fun staged =>
      Loaded call staged.mid staged.tx := by
  apply Does.holding
  apply (Does.waiting .nextPlan).bind
  intro plan
  apply (does_encodeRequest tx ty mid plan.draft).bind
  intro _
  apply (does_demand _).bind
  intro _
  -- The body is admitted; from here on it is released again if the datagram is not staged.
  have started : Does (Sends call tag) (Loaded call mid tx)
      (modifyGet fun s => (PUnit.unit, { s with uploads := ⟨call, tag, q⟩ :: s.uploads })) 1
      (fun _ => Loaded call mid tx) :=
    fun s loaded => ⟨sends_start q, loaded⟩
  apply started.bind_last
  intro _
  apply does_answer.bind
  intro first
  split
  · apply does_answer.bind
    intro complete
    exact .pure _ fun _ loaded => loaded
  apply (Does.of_costs (Sending.modify fun _ => .releaseTxBody _)).bind
  intro _
  exact Does.throw _

theorem does_sendStagedClient (staged : Staged maxLen) :
    Does (Sends call tag) (Loaded call staged.mid staged.tx) (sendStagedClient call ty nowMs staged) 0
      fun _ _ => True := by
  apply Does.attempt_bind
  · apply Does.sends
    apply (does_finishClientSend ty nowMs staged.mid staged.jitterMs staged.accepted staged.tx).bind
    intro _
    apply Does.of_costs
    refine .ite ?_ (.pure _)
    exact (Issuing.issueQBlock1Window ty nowMs false false maxPayloads).bind fun _ => .pure _
  intro outcome
  split
  · exact Does.pure _ fun _ _ => trivial
  apply Does.of_costs
  refine Costs.bind (Sending.modify fun s => ?_) fun _ => .throw _
  cases staged.body with
  | none => exact .refl s
  | some upload => exact .releaseTxBody upload

theorem does_sendFetchByBlocks {pre : State maxLen → Prop} {live : LiveCall maxLen}
    (isTag : live.requestTag = tag) (q : Bool) (ty : MsgType) (nowMs tx : Nat) (mid : MessageId)
    (jitterMs : Nat) : Does (Sends call tag) pre
      (sendFetchByBlocks call live q ty nowMs tx mid jitterMs) 1 fun _ _ => True := by
  simp only [sendFetchByBlocks]
  split
  · exact Does.free.mono (Nat.zero_le 1)
  rw [isTag]
  apply (does_stageClientBlock1 q ty tx mid jitterMs).bind_last
  intro staged
  exact does_sendStagedClient ty nowMs staged

theorem does_followup {live : Option (LiveCall maxLen)}
    (tagged : ∀ row, live = some row → row.requestTag = tag) (q : Bool) (ty : MsgType)
    (nowMs : Nat) :
    Does (Sends call tag) (fun _ => True) (followup call live q ty nowMs) 1 fun _ _ => True := by
  apply (Does.waiting (.demand _)).bind
  intro _
  apply (Does.waiting .nextPlan).bind
  intro plan
  apply (Does.waiting (.midOf plan)).bind
  intro mid
  apply (Does.waiting .ordinaryTx).bind
  intro tx
  apply Runs.attempt_bind (n := 1) (does_encodeRequest tx ty mid plan.draft)
  intro outcome
  cases outcome with
  | ok _ =>
    apply Does.mono (m := 0) ?_ (Nat.zero_le 1)
    exact .sends (does_finishFollowup ty nowMs mid plan.jitterMs plan.accepted tx)
  | error e =>
  dsimp only
  split
  next row found =>
    have isTag := tagged row (Option.filter_eq_some_iff.mp found).1
    exact does_sendFetchByBlocks isTag q ty nowMs tx mid plan.jitterMs
  · exact Does.free.mono (Nat.zero_le 1)

def Tagged (call : Call maxLen) (tag : Option (List UInt8)) (s : State maxLen) : Prop :=
  ∀ live, s.lives.get call = some live → live.requestTag = tag

theorem does_sendFollowup (q : Bool) (recoveryTy : Option MsgType) (nowMs : Nat) :
    Does (Sends call tag) (Tagged call tag) (sendFollowup call q recoveryTy nowMs) 1 fun _ _ => True := by
  intro s tagged
  rw [sendFollowup, exec_get_bind]
  exact does_followup tagged q _ nowMs s trivial

/-! ### New requests -/

theorem does_stageClient (spec : RequestSpec maxLen) :
    Does (Sends call spec.requestTag) (fun _ => True) (stageClient call spec) 1 fun staged =>
      Loaded call staged.mid staged.tx := by
  apply (Does.waiting .nextPlan).bind
  intro plan
  apply (Does.waiting (.midOf plan)).bind
  intro mid
  apply (Does.waiting .ordinaryTx).bind
  intro tx
  apply Runs.attempt_bind (n := 1) (does_encodeRequest tx spec.ty mid plan.draft)
  intro outcome
  cases outcome with
  | ok _ => exact Does.mono (Does.pure _ fun _ loaded => loaded) (Nat.zero_le 1)
  | error e =>
  -- Every other way out frees the slot and fails.
  dsimp only
  split
  · exact Does.free.mono (Nat.zero_le 1)
  split
  · exact Does.free.mono (Nat.zero_le 1)
  split
  · exact Does.free.mono (Nat.zero_le 1)
  · exact does_stageClientBlock1 spec.qBlock1 spec.ty tx mid plan.jitterMs

theorem does_admitStaged (staged : Staged maxLen) :
    Does (fun _ => Issues call) (Loaded call staged.mid staged.tx) (admitStaged call ty staged) 0
      fun _ _ => True := by
  apply (does_admitRequest staged.tx).bind
  intro _
  apply Does.waiting
  refine .ite (Costs.bind (fun s => .tx _) fun pending => ?_) (.pure _)
  cases pending with
  | none => exact .throw _
  | some pending => exact .pure _

theorem does_sendPrepared (staged : Staged maxLen) :
    Does (fun _ => Issues call) (Loaded call staged.mid staged.tx)
      (sendPrepared call ty nowMs staged) 0 fun _ _ => True := by
  apply ((does_admitStaged ty staged).holding staged.tx).bind
  intro pending
  exact .waiting (.finishPrepared staged pending nowMs)

theorem Issuing.sendFirstSet (fuel : Nat) : Issuing call (sendFirstSet call ty nowMs fuel) := by
  induction fuel with
  | zero => exact .pure _
  | succ fuel ih =>
  apply answer.bind
  intro issued
  refine .ite ?_ (demand _)
  apply answer.bind
  intro complete
  apply Does.issuing
  apply (does_stageBlock1Issued ty).bind
  intro staged
  apply (does_sendPrepared ty nowMs staged).bind
  intro _
  exact .of_costs (.ite (.pure _) ih)

end

def Absent (call : Call maxLen) (s : State maxLen) : Prop :=
  s.exchanges.find call.key = none ∧ ∀ upload ∈ s.uploads, upload.call ≠ call

theorem absent_abandonSend : Absent call (s.abandonSend call) := by
  obtain ⟨tx, abandons⟩ := abandonSend_eq call s
  rw [abandons]
  refine ⟨by simp [(s.exchanges.take_spec call.key).2], fun upload member => ?_⟩
  simpa using (List.mem_filter.mp member).2

/-- Sending a new request starts at most one upload. If it fails, nothing is left of it. -/
theorem runs_sendCall (spec : RequestSpec maxLen) (nowMs : Nat) :
    Runs (Sends call spec.requestTag) (fun _ => True) (sendCall call spec nowMs) 1 fun
      | .ok _ => fun _ => True
      | .error _ => Absent call := by
  apply Does.attempt_bind
  · apply (does_stageClient spec).bind_last
    intro staged
    apply Does.sends
    apply (does_sendPrepared spec.ty nowMs staged).bind
    intro _
    exact .of_costs (.ite (Issuing.sendFirstSet spec.ty nowMs maxPayloads) (.pure _))
  intro outcome
  cases outcome with
  | ok a => exact Runs.pure a fun _ _ => trivial
  | error e =>
    intro s _
    exact ⟨.abandonSend call, absent_abandonSend⟩

end Coaptic.Client
