import Coaptic.Client.Cooling

/-!
# A peer that is overloaded is left alone

An accepted 4.29 or 5.03 delays every later request with the same peer, method, path and queries.
The delay stands in some row of the client's table until it is over: every event keeps it, and a
new request can only take the place of a row whose delay is over, because a refresh or a
cancellation has the target of the registration it replaces.
-/
namespace Coaptic.Client

open Codec Block Pending Program Run Slots
open ClientLives (Overload isLive)

variable {maxLen nowMs : Nat} {call : Call maxLen} {s t : State maxLen}

/-! ### New requests -/

theorem lives_commitCall (s : State maxLen) (live : LiveCall maxLen) (replacing : Bool) :
    (s.commitCall live replacing).lives = s.lives.insert live := by
  cases replacing with
  | false => rfl
  | true =>
  obtain ⟨rx, isState⟩ := releaseDatagram_eq s live.call
  simp only [State.commitCall, if_true, isState]
  rfl

theorem sound_liveCall (call : Call maxLen) (spec : RequestSpec maxLen)
    (prior : Option (LiveCall maxLen)) (nowMs : Nat) : (liveCall call spec prior nowMs).Sound where
  idle := nofun
  identified _ isIdentity := spec.identifies isIdentity

variable {spec : RequestSpec maxLen} {row : LiveCall maxLen} {target : Target}
  {seconds untilMs : Nat} {parsed : ParsedMessage maxLen} {peer : Endpoint}
  {outcome : BlockOutcome}

theorem RequestSpec.identity_of_replacing (replacing : spec.replacing = true)
    {made : Option ObserveRequest} (identified : spec.requestIdentity = .ok made) :
    ∃ identity, spec.identity = some identity := by
  have observes : spec.observe ≠ .off := by
    intro off
    simp [RequestSpec.replacing, refreshing, off] at replacing
  rw [identity, identified]
  simp only [requestIdentity, observes, false_and, if_false] at identified
  split at identified
  · cases identified
  split at identified
  · cases identified
    exact ⟨_, rfl⟩
  · cases identified
  · cases identified

theorem ClientLives.Single.eq_of_live {rows : ClientLives maxLen} (single : rows.Single)
    {a b : LiveCall maxLen} (inA : some a ∈ rows) (inB : some b ∈ rows)
    (liveA : isLive call a = true) (liveB : isLive call b = true) : a = b := by
  obtain ⟨i, atI⟩ := List.mem_iff_getElem?.mp inA
  obtain ⟨j, atJ⟩ := List.mem_iff_getElem?.mp inB
  have outlined {k : Nat} {row : LiveCall maxLen} (at_ : rows[k]? = some (some row))
      (live : isLive call row = true) :
      rows.outline[k]? = some (some (call, row.requestTag)) := by
    rw [ClientLives.outline, List.getElem?_map, at_, Option.map_some,
      ClientLives.sketch_eq_some.mpr ⟨row, rfl, live, rfl⟩]
  have same : i = j := single i j _ _ (outlined atI liveA) (outlined atJ liveB) rfl
  rw [same, atJ] at atI
  cases atI
  rfl

/-- The row that a request replaces has no delay: it is a row of the request's own target. -/
theorem Admitted.undelayed_row (admitted : Admitted spec call s) (lawful : s.lives.Lawful)
    (member : some row ∈ s.lives) (live : isLive call row = true) : row.backoffUntilMs = 0 := by
  have isCall : row.call = call := by
    simp only [isLive, Bool.and_eq_true, decide_eq_true_eq] at live
    exact live.2
  cases replacing : spec.replacing with
  | false =>
    exact absurd (ClientLives.mem_calls.mpr ⟨row, member, isCall⟩) (admitted.fresh replacing)
  | true =>
  obtain ⟨found, inRows, foundCall, observing, sameIdentity⟩ := admitted.registered replacing
  obtain ⟨made, identified⟩ := admitted.identified
  obtain ⟨identity, isIdentity⟩ := spec.identity_of_replacing replacing identified
  -- A row that observes is not retired, so it is the Call's one live row.
  have active : found.retired = false := by
    by_contra retired
    have off := (lawful.sound found inRows).idle (by simpa using retired)
    rw [observing] at off
    cases off
  have foundLive : isLive call found = true := by
    simp [isLive, active, foundCall]
  have same : row = found := lawful.single.eq_of_live member inRows live foundLive
  subst same
  have shown := (lawful.sound row member).identified identity (sameIdentity.trans isIdentity)
  obtain ⟨sameCode, samePath, sameQueries⟩ := shown.unique (spec.identifies isIdentity)
  have isTarget : row.target = ⟨spec.dest, spec.code, spec.path, spec.queries⟩ := by
    rw [LiveCall.target, isCall, admitted.atPeer, sameCode, samePath, sameQueries]
  exact ClientLives.undelayed_of_backoffUntil admitted.undelayed member isTarget

/-- A request shortens no delay, whatever it came to. -/
theorem cools_request (lawful : s.lives.Lawful) (spec : RequestSpec maxLen)
    (draws : List (OwnedToken maxLen)) (pins : List Nat) (nowMs : Nat) :
    s.lives.Cools nowMs (exec (request spec draws pins nowMs) s).2.lives := by
  rcases request_cases spec draws pins nowMs s with
    refused | ⟨call, prior, u, v, admitted, before, sent, steady, last⟩
  · exact refused.lives
  have lawfulU := before.lives.lawful lawful
  have installed : v.lives.Cools nowMs
      (v.commitCall (liveCall call spec prior nowMs) spec.replacing).lives := by
    rw [lives_commitCall]
    refine ⟨ClientLives.length_insert .., fun lawful => ?_, fun target untilMs running delays => ?_⟩
    · refine lawful.insert (sound_liveCall ..) rfl ?_
      rw [steady.canAdmit]
      exact admitted.admits
    refine delays.insert (by omega) ?_
    intro row member live
    obtain ⟨old, inRows, same⟩ := steady.mem member
    have oldLive : isLive call old = true := by
      have sameCall := congrArg LiveCall.call same
      have sameRetired := congrArg LiveCall.retired same
      simp only [isLive] at live ⊢
      rw [show old.call = row.call from sameCall, show old.retired = row.retired from sameRetired]
      exact live
    rw [← LiveCall.backoff_of_fixed same]
    exact admitted.undelayed_row lawfulU inRows oldLive
  exact ((before.trans sent).lives.trans installed).trans last.lives

/-! ### Associations that are removed -/

theorem steady_failCall (s : State maxLen) (call : Call maxLen) (failure : CallFailure)
    (releasePending : Bool) : s.lives.Steady (s.failCall call failure releasePending).lives := by
  rw [failCall_lives]
  exact steady_disarm s call

/-- Rows of other peers keep their delays. -/
theorem cools_revokeRow (peer : Endpoint) (i : Nat) :
    (s.lives.Lawful → (s.revokeRow peer i).lives.Lawful) ∧
      ∀ target untilMs, target.peer ≠ peer → s.lives.Delays target untilMs →
        (s.revokeRow peer i).lives.Delays target untilMs := by
  simp only [State.revokeRow]
  split
  · exact ⟨id, fun _ _ _ h => h⟩
  next live revoked =>
  obtain ⟨isRow, isPeer⟩ := Option.filter_eq_some_iff.mp revoked
  have held : s.lives[i]? = some (some live) := Option.join_eq_some_iff.mp isRow
  have steady := steady_failCall s live.call .associationRevoked true
  obtain ⟨row, atI, same⟩ := steady.getElem held
  refine ⟨fun lawful => ?_, fun target untilMs ne delays => ?_⟩
  · have kept := steady.lawful lawful
    refine ⟨(kept.single.clear atI).1, ClientLives.sound_set kept.sound ?_⟩
    intro row isRow
    cases isRow
  obtain ⟨other, member, rfl, atLeast⟩ := steady.delays delays
  obtain ⟨j, atJ⟩ := List.mem_iff_getElem?.mp member
  refine ⟨other, ClientLives.mem_set none atJ ?_, rfl, atLeast⟩
  rintro rfl
  -- The row that is cleared is one of the association.
  rw [atI] at atJ
  cases atJ
  have samePeer : row.call.peer = live.call.peer :=
    congrArg Target.peer (LiveCall.target_of_fixed same)
  exact ne (samePeer.trans (by simpa using isPeer))

theorem cools_removeAssociation (s : State maxLen) (peer : Endpoint) :
    (s.lives.Lawful → (s.removeAssociation peer).lives.Lawful) ∧
      ∀ target untilMs, target.peer ≠ peer → 0 < untilMs → s.lives.Delays target untilMs →
        (s.removeAssociation peer).lives.Delays target untilMs := by
  have revoked (items : List Nat) (s : State maxLen) :
      (s.lives.Lawful → (items.foldl (State.revokeRow peer) s).lives.Lawful) ∧
        ∀ target untilMs, target.peer ≠ peer → s.lives.Delays target untilMs →
          (items.foldl (State.revokeRow peer) s).lives.Delays target untilMs := by
    induction items generalizing s with
    | nil => exact ⟨id, fun _ _ _ h => h⟩
    | cons i rest ih =>
    obtain ⟨lawful, delays⟩ := cools_revokeRow (s := s) peer i
    obtain ⟨lawful', delays'⟩ := ih (s.revokeRow peer i)
    exact ⟨lawful' ∘ lawful, fun target untilMs ne =>
      delays' target untilMs ne ∘ delays target untilMs ne⟩
  have swept : Tame 0 none (s.revokeAssociation peer) (s.removeAssociation peer) := .sweep s peer
  obtain ⟨lawful, delays⟩ := revoked (List.range s.lives.length) s
  exact ⟨swept.lives.lawful ∘ lawful, fun target untilMs ne running =>
    swept.lives.delays target untilMs running ∘ delays target untilMs ne⟩

/-! ### Runs -/

theorem Lawful.step (lawful : s.lives.Lawful) (input : Input maxLen) :
    (s.step input).lives.Lawful := by
  obtain ⟨event, plans, answers⟩ := input
  simp only [State.step]
  have fed : ({ s with plans, answers } : State maxLen).lives.Lawful := lawful
  generalize ({ s with plans, answers } : State maxLen) = u at fed
  rcases Tame.handle u event with tame | ⟨spec, draws, pins, nowMs, rfl⟩ | ⟨peer, rfl⟩
  · exact tame.lives.lawful fed
  · exact (cools_request fed spec draws pins nowMs).lawful fed
  · exact (cools_removeAssociation u peer).1 fed

theorem lawful_new (cfg : Config) : (State.new cfg : State maxLen).lives.Lawful where
  single := (kept_new cfg).lives
  sound row member := by simp [State.new] at member

theorem lawful_reached (cfg : Config) (inputs : List (Input maxLen)) :
    (reached cfg inputs).lives.Lawful :=
  invariant_run (P := fun s : State maxLen => s.lives.Lawful)
    (fun _ input lawful => Lawful.step lawful input) (lawful_new cfg) inputs

/-- The event neither comes after the time nor removes the association of the peer. -/
structure Before (untilMs : Nat) (peer : Endpoint) (input : Input maxLen) : Prop where
  early : ∀ time ∈ input.event.time, time < untilMs
  kept : input.event ≠ .removeAssociation peer

theorem Delays.step (lawful : s.lives.Lawful) (running : 0 < untilMs)
    (delays : s.lives.Delays target untilMs) {input : Input maxLen}
    (before : Before untilMs target.peer input) : (s.step input).lives.Delays target untilMs := by
  obtain ⟨event, plans, answers⟩ := input
  obtain ⟨early, kept⟩ := before
  simp only [State.step]
  have lawfulFed : ({ s with plans, answers } : State maxLen).lives.Lawful := lawful
  have delaysFed : ({ s with plans, answers } : State maxLen).lives.Delays target untilMs := delays
  generalize ({ s with plans, answers } : State maxLen) = u at lawfulFed delaysFed
  rcases Tame.handle u event with tame | ⟨spec, draws, pins, nowMs, rfl⟩ | ⟨peer, rfl⟩
  · refine tame.lives.delays target untilMs ?_ delaysFed
    cases time : event.time with
    | none => exact running
    | some time' => exact early time' time
  · exact (cools_request lawfulFed spec draws pins nowMs).delays target untilMs
      (early nowMs rfl) delaysFed
  · exact (cools_removeAssociation u peer).2 target untilMs (fun same => kept (by rw [same])) running
      delaysFed

/-- A delay lasts through every run that ends before it does. -/
theorem Delays.run (lawful : s.lives.Lawful) (running : 0 < untilMs)
    (delays : s.lives.Delays target untilMs) {inputs : List (Input maxLen)}
    (before : ∀ input ∈ inputs, Before untilMs target.peer input) :
    (run State.step s inputs).lives.Delays target untilMs := by
  have both := invariant_of_meets (P := fun s => s.lives.Lawful ∧ s.lives.Delays target untilMs)
    (fun _ input h before => ⟨Lawful.step h.1 input, Delays.step h.1 running h.2 before⟩)
    ⟨lawful, delays⟩ (meets_of_forall before s)
  exact both.2

/-- A request to a target that is delayed is not sent: it fails with the delay, unless one of the
checks before that fails. -/
theorem request_of_delays (delays : s.lives.Delays ⟨spec.dest, spec.code, spec.path, spec.queries⟩ untilMs)
    (early : nowMs < untilMs) (draws : List (OwnedToken maxLen)) (pins : List Nat) :
    ∃ error, (exec (request spec draws pins nowMs) s).1 = .error error ∧
      (spec.deadlineMs.all (nowMs < ·) → spec.checks = .ok () →
        ∃ reported, error = .backoff reported ∧ untilMs ≤ reported) := by
  have expired := (ClientLives.Cools.expireBackoffs s.lives nowMs).delays _ _ early delays
  obtain ⟨reported, isReported, atLeast⟩ := ClientLives.Delays.backoffUntil expired (by omega)
  have refused : ∃ error, (exec (admitCall spec draws nowMs) s).1 = .error error ∧
      (spec.deadlineMs.all (nowMs < ·) → spec.checks = .ok () →
        ∃ reported, error = .backoff reported ∧ untilMs ≤ reported) := by
    simp only [admitCall]
    split
    next elapsed =>
      refine ⟨.deadlineElapsed, rfl, fun future => ?_⟩
      cases deadline : spec.deadlineMs with
      | none => rw [deadline] at elapsed; cases elapsed
      | some deadlineMs =>
      rw [deadline] at elapsed future
      simp only [Option.any_some, Option.all_some, decide_eq_true_eq] at elapsed future
      omega
    · split
      next error failed =>
        refine ⟨error, rfl, fun _ passed => ?_⟩
        rw [failed] at passed
        cases passed
      · rw [exec_bind, exec_modify]
        dsimp only
        rw [exec_get_bind, isReported]
        exact ⟨.backoff reported, rfl, fun _ _ => ⟨reported, rfl, atLeast⟩⟩
  obtain ⟨error, isError, rest⟩ := refused
  refine ⟨error, ?_, rest⟩
  rw [Client.request, exec_bind]
  generalize exec (admitCall spec draws nowMs) s = reached at isError
  obtain ⟨outcome, u⟩ := reached
  cases isError
  rfl

/-! ### Overload responses -/

theorem observationStart_of_overload (overload : Overload parsed seconds) :
    observationStart parsed = none := by
  have failure : parsed.header.code.isSuccess = false := by
    rcases overload.code with isCode | isCode <;> rw [isCode] <;> rfl
  rw [observationStart, failure]
  rfl

section

variable (live : s.lives.get call = some row) (overload : Overload parsed seconds)
  (kept : (ReplyMeta.fromParsed parsed call.peer nowMs).toOption.isSome)
  (early : nowMs < min (nowMs + seconds * 1000) u64Max)
include live overload kept early

/-- A reply that asks for a delay gets it, whatever becomes of the reply. -/
theorem delays_acceptReply (rx : Nat) (viaExchange : Bool) (outcome : BlockOutcome) :
    (exec (acceptReply call parsed rx nowMs viaExchange outcome) s).2.lives.Delays row.target
      (min (nowMs + seconds * 1000) u64Max) := by
  have delayed := ClientLives.delays_recordBackoff live overload nowMs (by omega)
  generalize min (nowMs + seconds * 1000) u64Max = untilMs at early delayed
  simp only [acceptReply]
  split
  next failed =>
    rw [failed] at kept
    cases kept
  next reply _ =>
  have isOverload : (decide (parsed.header.code = .tooManyRequests) ||
      decide (parsed.header.code = .serviceUnavailable)) = true := by
    simpa using overload.code
  rw [exec_bind, exec_modify]
  simp only [isOverload, Bool.not_true, Bool.false_and, if_false, Bool.false_eq_true]
  exact (Tames.acceptDatagram (c := none) parsed reply rx nowMs viaExchange _).lives.delays _ _ early delayed

theorem delays_acceptResponse (rx : Nat) (viaExchange : Option (ExchangeEntry maxLen))
    (outcome : BlockOutcome) :
    (exec (acceptResponse call parsed rx nowMs viaExchange outcome) s).2.lives.Delays row.target
      (min (nowMs + seconds * 1000) u64Max) := by
  have stopped : ((s.stopRequest viaExchange call.peer).takePending parsed.header.id call.peer).lives =
      s.lives := by
    rw [(Waits.takePending ..).lives, (Waits.stopRequest ..).lives]
  simp only [acceptResponse]
  rw [exec_bind, exec_modify]
  dsimp only
  rw [exec_get_bind]
  generalize (s.stopRequest viaExchange call.peer).takePending parsed.header.id call.peer = u at stopped
  have live : u.lives.get call = some row := by rw [stopped]; exact live
  split
  · exact delays_acceptReply live overload kept early rx _ outcome
  next upload _ =>
  -- Neither code is one that continues an upload.
  have notMissing : (parsed.header.code = .requestEntityIncomplete) = False := by
    rcases overload.code with isCode | isCode <;> rw [isCode] <;> simp <;> decide
  have notContinue : (parsed.header.code = .continue231) = False := by
    rcases overload.code with isCode | isCode <;> rw [isCode] <;> simp <;> decide
  simp only [notMissing, notContinue, decide_false, Bool.and_false, Bool.false_and, if_false,
    Bool.false_eq_true]
  rw [exec_bind, exec_modify]
  exact delays_acceptReply (s := u.releaseTxBody upload) live overload kept early rx _ outcome

end

/-- The response is accepted: it answers a request or an observation that is outstanding, all of
its critical options are known, its metadata can be kept, and it was handled without a failure, so
that it was acknowledged where that is due. -/
structure Accepts (s : State maxLen) (peer : Endpoint) (parsed : ParsedMessage maxLen) (nowMs : Nat)
    (outcome : BlockOutcome) : Prop where
  answers : (s.matchingExchange parsed peer).isSome ∨ s.matchingObserve parsed peer
  known : parsed.unknownCritical = false
  kept : (ReplyMeta.fromParsed parsed peer nowMs).toOption.isSome
  handled : (exec (receive peer parsed nowMs outcome) s).1 = .ok ()

theorem exec_onError_ok {α : Type} {p : Act maxLen α} {last : State maxLen → State maxLen}
    {β : Type} {f : α → Act maxLen β} {b : β}
    (returns : (exec (onError p last >>= f) s).1 = .ok b) :
    ∃ a u, exec p s = (.ok a, u) ∧ exec (onError p last >>= f) s = exec (f a) u := by
  rw [exec_bind, onError, exec_bind, exec_attempt] at returns ⊢
  generalize exec p s = reached at returns
  obtain ⟨outcome, u⟩ := reached
  cases outcome with
  | ok a => exact ⟨a, u, rfl, rfl⟩
  | error e => cases returns

theorem delays_completeClient (answers : (s.matchingExchange parsed peer).isSome ∨
    s.matchingObserve parsed peer)
    (known : parsed.unknownCritical = false)
    (kept : (ReplyMeta.fromParsed parsed peer nowMs).toOption.isSome)
    (live : s.lives.get ⟨parsed.token, peer⟩ = some row) (overload : Overload parsed seconds)
    (early : nowMs < min (nowMs + seconds * 1000) u64Max) {rx : Nat}
    (handled : (exec (completeClient peer parsed rx nowMs outcome) s).1 = .ok ()) :
    (exec (completeClient peer parsed rx nowMs outcome) s).2.lives.Delays row.target
      (min (nowMs + seconds * 1000) u64Max) := by
  have matched : ¬((s.matchingExchange parsed peer).isNone && !s.matchingObserve parsed peer) = true := by
    rcases answers with viaExchange | viaObserve
    · simp [Option.isNone_eq_false_iff.mpr viaExchange]
    · simp [viaObserve]
  -- Only a success starts a representation, so neither its order nor its format is asked.
  have unordered := observationStart_of_overload overload
  have admissible : s.lives.observeFormatAdmissible ⟨parsed.token, peer⟩ parsed nowMs
      s.oscoreActive = true := by
    simp [ClientLives.observeFormatAdmissible, ClientLives.observeFormatMatches, unordered]
  have fresh : s.lives.observeFresh ⟨parsed.token, peer⟩ parsed nowMs = true := by
    simp [ClientLives.observeFresh, unordered]
  simp only [completeClient, exec_get_bind, if_neg matched, known, Bool.false_eq_true, if_false,
    admissible, Bool.not_true, fresh, Bool.or_true, if_true] at handled ⊢
  obtain ⟨_, u, acknowledged, isRest⟩ := exec_onError_ok handled
  rw [isRest] at handled ⊢
  obtain ⟨_, v, committed, isRest⟩ := exec_onError_ok handled
  rw [isRest, exec_bind, exec_modify]
  have acked := Waiting.acknowledge parsed peer s
  rw [acknowledged] at acked
  have answered := Waiting.demand .oscore u
  rw [committed] at answered
  refine delays_acceptResponse ?_ overload kept early rx _ outcome
  rw [(Waits.stopOnAck ..).lives, answered.lives, acked.lives]
  exact live

theorem delays_receive (accepts : Accepts s peer parsed nowMs outcome)
    (live : s.lives.get ⟨parsed.token, peer⟩ = some row) (overload : Overload parsed seconds)
    (early : nowMs < min (nowMs + seconds * 1000) u64Max) :
    (exec (receive peer parsed nowMs outcome) s).2.lives.Delays row.target
      (min (nowMs + seconds * 1000) u64Max) := by
  obtain ⟨answers, known, kept, handled⟩ := accepts
  simp only [receive, exec_get_bind] at handled ⊢
  split at handled
  · cases handled
  next rx occ _ =>
  rw [exec_bind, exec_set] at handled ⊢
  exact delays_completeClient (s := { s with rx := occ }) answers known kept live overload early handled

/-! ### Every run -/

/-- What sending a request comes to, with what the environment decides on the way. -/
def State.requestOutcome (s : State maxLen) (spec : RequestSpec maxLen)
    (draws : List (OwnedToken maxLen)) (pins : List Nat) (nowMs : Nat) (plans : List Staging)
    (answers : List Bool) : Except Error (Call maxLen) :=
  (exec (request spec draws pins nowMs) { s with plans, answers }).1

/-- The table never has more rows than the App has Calls. After an overload response is accepted
for a live Call, a request with the Call's peer, method, path and queries is refused until the
delay is over, whatever happens in between but the removal of the peer's association: with the
delay, unless one of the checks before that fails. The end of a delay is at most the last instant
of the clock. -/
theorem request_refused_while_delayed (cfg : Config) (inputs : List (Input maxLen)) :
    (reached cfg inputs).lives.reduceOption.length ≤ cfg.calls ∧
      ∀ (plans : List Staging) (answers : List Bool) (peer : Endpoint) (parsed : ParsedMessage maxLen)
        (acceptedMs : Nat) (outcome : BlockOutcome) (row : LiveCall maxLen) (seconds : Nat),
        Accepts { reached cfg inputs with plans, answers } peer parsed acceptedMs outcome →
        (reached cfg inputs).lives.get ⟨parsed.token, peer⟩ = some row →
        ClientLives.Overload parsed seconds →
        ∀ (later : List (Input maxLen)) (spec : RequestSpec maxLen) (draws : List (OwnedToken maxLen))
          (pins : List Nat) (nowMs : Nat) (plans' : List Staging) (answers' : List Bool),
          (∀ input ∈ later, input.event ≠ .removeAssociation peer) →
          (acceptedMs :: later.filterMap (·.event.time) ++ [nowMs]).Pairwise (· ≤ ·) →
          row.target = ⟨spec.dest, spec.code, spec.path, spec.queries⟩ →
          nowMs < min (acceptedMs + seconds * 1000) u64Max →
          ∃ error, (run State.step (reached cfg inputs)
              (⟨.receive peer parsed acceptedMs outcome, plans, answers⟩ :: later)).requestOutcome
                spec draws pins nowMs plans' answers' = .error error ∧
            (spec.deadlineMs.all (nowMs < ·) → spec.checks = .ok () →
              ∃ reported, error = .backoff reported ∧
                min (acceptedMs + seconds * 1000) u64Max ≤ reported) := by
  constructor
  · have length : (reached cfg inputs).lives.length = cfg.calls :=
      invariant_run (P := fun s : State maxLen => s.lives.length = cfg.calls)
        (fun s input length => (length_step s input).trans length) List.length_replicate inputs
    rw [← length]
    exact List.reduceOption_length_le _
  intro plans answers peer parsed acceptedMs outcome row seconds accepts live overload later spec draws
    pins nowMs plans' answers' associated ordered isTarget early
  have ordered := List.pairwise_append.mp ordered
  have notBefore : acceptedMs ≤ nowMs := ordered.2.2 _ List.mem_cons_self _ (List.mem_singleton_self _)
  have delays := delays_receive accepts live overload (by omega)
  have atPeer : row.target.peer = peer := by
    obtain ⟨i, found, held⟩ := ClientLives.get_eq_some live
    obtain ⟨_, held', own, -⟩ := Slots.findIdx_any found
    rw [held] at held'
    cases held'
    simp only [ClientLives.isLive, Bool.and_eq_true, decide_eq_true_eq] at own
    rw [LiveCall.target, own.2]
  rw [run_cons]
  have lawful : ((reached cfg inputs).step
      ⟨.receive peer parsed acceptedMs outcome, plans, answers⟩).lives.Lawful :=
    Lawful.step (lawful_reached cfg inputs) _
  have before : ∀ input ∈ later,
      Before (min (acceptedMs + seconds * 1000) u64Max) row.target.peer input := by
    intro input member
    refine ⟨fun time isTime => ?_, by rw [atPeer]; exact associated input member⟩
    have inTimes : time ∈ acceptedMs :: later.filterMap (·.event.time) :=
      List.mem_cons_of_mem _ (List.mem_filterMap.mpr ⟨input, member, isTime⟩)
    exact (ordered.2.2 time inTimes nowMs (List.mem_singleton_self _)).trans_lt early
  have lasting := Delays.run lawful (by omega) delays before
  rw [isTarget] at lasting
  generalize run State.step _ later = last at lasting
  exact request_of_delays (s := { last with plans := plans', answers := answers' }) lasting early draws
    pins

/-- A Non-confirmable 4.29 without Max-Age, to the first request of the sample client. -/
def sampleOverload : ParsedMessage 8 :=
  ⟨⟨1, .nonConfirmable, 1, .tooManyRequests, 9⟩, sampleToken 1, [], []⟩

def sampleCall : Call 8 := ⟨sampleToken 1, samplePeer 1⟩

theorem overload_sampleOverload : Overload sampleOverload 60 :=
  ⟨.inl rfl, by decide, .inl ⟨by decide, rfl⟩⟩

/-- The Call is collected, and its target stays delayed for the default minute. -/
theorem request_refused_while_delayed_sample :
    ∃ error, (run State.step (reached .single [sampleRequest .nonConfirmable 1 1])
        [⟨.receive (samplePeer 1) sampleOverload 5 (.refused .noBodyPools), [], [true]⟩,
          ⟨.take sampleCall, [], []⟩]).requestOutcome (sampleSpec .nonConfirmable 1) [sampleToken 2] []
          60004 [] [] = .error error ∧
      ∃ reported, error = .backoff reported ∧ 60005 ≤ reported := by
  have known : ((reached .single [sampleRequest .nonConfirmable 1 1]).lives.get sampleCall).map
      (·.target) = some ⟨samplePeer 1, .get, [], []⟩ := by decide +kernel
  obtain ⟨row, live, isTarget⟩ := Option.map_eq_some_iff.mp known
  obtain ⟨error, refused, reported⟩ :=
    (request_refused_while_delayed .single [sampleRequest .nonConfirmable 1 1]).2 [] [true]
      (samplePeer 1)
      sampleOverload 5 (.refused .noBodyPools) row 60
      ⟨by decide +kernel, by decide +kernel, by decide +kernel, by decide +kernel⟩ live
      overload_sampleOverload [⟨.take sampleCall, [], []⟩] (sampleSpec .nonConfirmable 1)
      [sampleToken 2] [] 60004 [] [] (by simp) (by decide) isTarget (by decide)
  obtain ⟨reported, isBackoff, atLeast⟩ := reported rfl rfl
  exact ⟨error, refused, reported, isBackoff, by simpa [u64Max] using atLeast⟩

/-- The request of the sample client, two seconds before the last instant of the clock. -/
def lateRequest : Input 8 where
  event := .request (sampleSpec .nonConfirmable 1) [sampleToken 1] [] (u64Max - 2000)
  plans := [sampleStaging 1]
  answers := []

/-- The end of a delay saturates at the last instant of the clock, in which a request is sent again.
Before that, a request whose deadline has elapsed is told so, and not that it is delayed. -/
theorem request_sent_in_last_instant : let s := reached .single [lateRequest]
    let later := run State.step s
      [⟨.receive (samplePeer 1) sampleOverload (u64Max - 1000) (.refused .noBodyPools), [], [true]⟩,
        ⟨.take sampleCall, [], []⟩]
    Accepts { s with plans := [], answers := [true] } (samplePeer 1) sampleOverload (u64Max - 1000)
        (.refused .noBodyPools) ∧
      (s.lives.get sampleCall).map (·.target) = some ⟨samplePeer 1, .get, [], []⟩ ∧
      ClientLives.Overload sampleOverload 60 ∧
      u64Max < (u64Max - 1000) + 60 * 1000 ∧
      later.requestOutcome (sampleSpec .nonConfirmable 1) [sampleToken 2] [] u64Max [sampleStaging 7]
        [] = .ok ⟨sampleToken 2, samplePeer 1⟩ ∧
      later.requestOutcome { sampleSpec .nonConfirmable 1 with deadlineMs := some (u64Max - 600) }
        [sampleToken 2] [] (u64Max - 500) [sampleStaging 7] [] = .error .deadlineElapsed :=
  ⟨⟨by decide +kernel, by decide +kernel, by decide +kernel, by decide +kernel⟩, by decide +kernel,
    overload_sampleOverload, by decide, by decide +kernel, by decide +kernel⟩

end Coaptic.Client
