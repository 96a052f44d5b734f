import Coaptic.Client.Kept

/-!
# Responses keep the tables

Every event keeps the invariant of the client's tables, as long as a request is sent only when no
result of a Call that is gone waits to be collected, and missing blocks are asked for only when
the Call is not uploading.
-/
namespace Coaptic.Client

open Codec Block Pending Program Slots Run

variable {maxLen : Nat} {n : Nat} {y : Option Nat} {call : Call maxLen}
  {tag : Option (List UInt8)} {s t : State maxLen}

/-! ### Programs that keep the invariant -/

section

variable {α : Type} {fails pre : State maxLen → Prop} {p : Act maxLen α}
  {post : α → State maxLen → Prop} {last : State maxLen → State maxLen}

theorem ensures_always (hp : Ensures fails pre p fun _ => fails)
    (keeps : ∀ s, fails s → fails (last s)) :
    Ensures fails pre (always p last) fun _ => fails := by
  have tried : Runs (fun _ _ _ => True) pre p 0 fun _ => fails :=
    fun s h => ⟨trivial, hp.either h⟩
  apply Runs.attempt_bind (n := 0) tried
  intro outcome
  cases outcome with
  | ok a => exact fun s holds => ⟨trivial, keeps s holds⟩
  | error e => exact fun s holds => ⟨trivial, keeps s holds⟩

theorem ensures_onError (hp : Ensures fails pre p post) (keeps : ∀ s, fails s → fails (last s)) :
    Ensures fails pre (onError p last) post := by
  apply Runs.attempt_bind (n := 0) hp
  intro outcome
  cases outcome with
  | ok a => exact fun s holds => ⟨trivial, holds⟩
  | error e => exact fun s failed => ⟨trivial, keeps s failed⟩

end

/-- Whatever the outcome of the program, its state keeps the invariant; `post` if it returns. -/
abbrev Keeps (n : Nat) {α : Type} (pre : State maxLen → Prop) (p : Act maxLen α)
    (post : α → State maxLen → Prop) : Prop :=
  Ensures (Kept n none none) pre p post

namespace Keeps

variable {α : Type} {pre : State maxLen → Prop} {p : Act maxLen α} {post : α → State maxLen → Prop}

variable {last : State maxLen → State maxLen}

/-- What comes last in any case restores the invariant. -/
theorem restoring {inv : State maxLen → Prop} (hp : ∀ s, pre s → inv (exec p s).2)
    (restores : ∀ s, inv s → Kept n none none (last s)) :
    Keeps n pre (always p last) fun _ => Kept n none none := by
  have tried : Runs (fun _ _ _ => True) pre p 0 fun _ => inv := fun s h => ⟨trivial, hp s h⟩
  apply Runs.attempt_bind (n := 0) tried
  intro outcome
  cases outcome with
  | ok a => exact fun s holds => ⟨trivial, restores s holds⟩
  | error e => exact fun s holds => ⟨trivial, restores s holds⟩

/-- What comes last in any case gives something up. -/
theorem always (hp : Keeps n pre p fun _ => Kept n none none) (less : ∀ s, Less s (last s)) :
    Keeps n pre (always p last) fun _ => Kept n none none :=
  ensures_always hp fun s kept => kept.less (less s)

theorem onError (hp : Keeps n pre p post) (less : ∀ s, Less s (last s)) :
    Keeps n pre (onError p last) post :=
  ensures_onError hp fun s kept => kept.less (less s)

end Keeps

/-! ### Continuations -/

abbrev Waited (n : Nat) (call : Call maxLen) (s : State maxLen) : Prop :=
  Kept n none none s ∧ Awaits s call

abbrev NoUpload (call : Call maxLen) (s : State maxLen) : Prop :=
  ∀ upload ∈ s.uploads, upload.call ≠ call

theorem Waited.sends {m : Nat} (waited : Waited n call s) (sends : Sends call tag m s t)
    (starts : m = 0 ∨ m = 1 ∧ NoUpload call s ∧ s.lives.tag call = some tag) : Waited n call t :=
  ⟨waited.1.sends sends (fun _ => waited.2) (starts.imp_right fun ⟨one, idle, tagged⟩ =>
    ⟨one, idle, fun _ => tagged⟩), waited.2.congr sends.outline sends.inbox⟩

theorem Waited.issues (waited : Waited n call s) (issues : Issues call s t) : Waited n call t := by
  have sends : Sends call none 0 s t := issues.sends
  exact waited.sends sends (.inl rfl)

variable {p : Act maxLen Unit} {α : Type}

/-- A continuation that fails ends its Call. -/
theorem keeps_orFail {pre : State maxLen → Prop} (waits : ∀ s, pre s → Waited n call (exec p s).2) :
    Keeps n pre (orFail call p) fun _ => Kept n none none := by
  have tried : Runs (fun _ _ _ => True) pre p 0 fun _ => Waited n call :=
    fun s h => ⟨trivial, waits s h⟩
  apply Runs.attempt_bind (n := 0) tried
  intro outcome
  cases outcome with
  | ok a => exact fun s waited => ⟨trivial, waited.1⟩
  | error e =>
  intro s waited
  have less : Less s (s.abandonSend call) := .abandonSend call
  have live := (waited.2.congr less.outline less.inbox).1
  exact ⟨trivial, (waited.1.less less).failCall (Kept.held_of_tag live) nofun _ _⟩

/-- A continuation that starts no upload. -/
theorem keeps_orFail_issuing (h : Issuing call p) :
    Keeps n (Waited n call) (orFail call p) fun _ => Kept n none none :=
  keeps_orFail fun s waited => waited.issues (h s)

/-- A request for more blocks may become an upload of its own. -/
theorem waited_sendFollowup (waited : Waited n call s) (idle : NoUpload call s) (q : Bool)
    (recoveryTy : Option MsgType) (nowMs : Nat) :
    Waited n call (exec (sendFollowup call q recoveryTy nowMs) s).2 := by
  obtain ⟨tag, tagged⟩ := Option.isSome_iff_exists.mp waited.2.1
  have isTagged : Tagged call tag s := by
    intro live isLive
    rw [ClientLives.tag_eq, isLive] at tagged
    exact Option.some.inj tagged
  exact waited.sends (does_sendFollowup q recoveryTy nowMs s isTagged).1 (.inr ⟨rfl, idle, tagged⟩)

/-- The environment's answers leave the tables alone. -/
theorem waited_answer {q : Act maxLen Unit} (waited : Waited n call s) (idle : NoUpload call s)
    (hp : ∀ s, Waited n call s → NoUpload call s → Waited n call (exec p s).2)
    (hq : ∀ s, Waited n call s → NoUpload call s → Waited n call (exec q s).2) :
    Waited n call (exec (do if ← answer then p else q) s).2 := by
  have waits := Waiting.answer s
  have waited' := waited.issues waits.issues
  have idle' : NoUpload call (exec answer s).2 := by rwa [NoUpload, waits.uploads]
  obtain ⟨a, returns⟩ : ∃ a, exec answer s = (.ok a, (exec answer s).2) := ⟨_, rfl⟩
  rw [exec_bind, returns]
  cases a with
  | true => exact hp _ waited' idle'
  | false => exact hq _ waited' idle'

/-- Asking for the rest of a representation. -/
theorem waited_continueBlock2 (waited : Waited n call s) (idle : NoUpload call s)
    (parsed : ParsedMessage maxLen) (q : Bool) (nowMs : Nat) :
    Waited n call (exec (continueBlock2 call parsed q nowMs) s).2 := by
  have follow (s : State maxLen) (waited : Waited n call s) (idle : NoUpload call s) (q : Bool) :
      Waited n call (exec (do
        modify fun s => (s.takeExchange call).2
        if ← answer then sendFollowup call q none nowMs else pure ()) s).2 := by
    rw [exec_bind, exec_modify]
    exact waited_answer (waited.issues (.takeExchange call)) idle
      (fun s waited idle => waited_sendFollowup waited idle q _ nowMs) fun s waited _ => waited
  simp only [continueBlock2]
  split
  · exact follow s waited idle false
  split
  · exact waited
  · exact waited_answer waited idle (fun s waited idle => follow s waited idle true)
      fun s waited _ => waited

/-! ### Accepting a response -/

/-- A response of the Call is being accepted: the Call is live, has no final result and is not
uploading. `z` is the body that was written with the response, and whether it is complete. -/
structure Accepting (n : Nat) (call : Call maxLen) (z : Option (Nat × Bool)) (s : State maxLen) :
    Prop where
  kept : Kept n none (z.map Prod.fst) s
  live : (s.lives.tag call).isSome
  unowed : Unowed s call
  idle : NoUpload call s
  written : ∀ (id : Nat) complete download, z = some (id, complete) →
    s.downloads[id]? = some (some download) → download.call = call ∧ download.complete = complete

variable {z : Option (Nat × Bool)}

namespace Accepting

section

variable (accepting : Accepting n call z s)
include accepting

theorem less (less : Less s t) : Accepting n call z t where
  kept := accepting.kept.less less
  live := by rw [tag_congr less.outline]; exact accepting.live
  unowed := by rw [Unowed, less.owed]; exact accepting.unowed
  idle upload member := accepting.idle upload (less.uploads.subset member)
  written id complete download isWritten at_ :=
    accepting.written id complete download isWritten (less.downloads id download at_)

theorem held : call ∈ s.held := Kept.held_of_tag accepting.live

theorem subscribe : Accepting n call z { s with observes := call :: s.observes } :=
  { accepting with kept := accepting.kept.subscribe accepting.live accepting.unowed }

theorem releaseDatagram : Accepting n call z (s.releaseDatagram call) := by
  have kept := accepting.kept.releaseDatagram call
  obtain ⟨rx, isState⟩ := releaseDatagram_eq s call
  rw [isState] at kept ⊢
  exact { accepting with kept }

/-- The Call is ended instead. -/
theorem failCall (failure : CallFailure) (releasePending : Bool) :
    Kept n none none (s.failCall call failure releasePending) := by
  apply accepting.kept.failCall accepting.held
  intro id download isBody at_
  obtain ⟨⟨_, complete⟩, isWritten, rfl⟩ := Option.map_eq_some_iff.mp isBody
  exact (accepting.written _ complete download isWritten at_).1

/-- The last step of a reply: the exchange goes and the reply is stored. -/
theorem store (complete : ∀ id, z ≠ some (id, false)) (reply : ReplyMeta) :
    Kept n none none ((s.takeExchange call).2.storeReply call reply (z.map Prod.fst)) := by
  have taken := accepting.less (.takeExchange call)
  refine taken.kept.storeReply taken.live ⟨?_, taken.idle⟩ taken.unowed ?_ reply
  · rw [State.takeExchange, (s.exchanges.take_spec call.key).2, if_pos rfl]
  intro id download isBody at_
  obtain ⟨⟨_, whole⟩, isWritten, rfl⟩ := Option.map_eq_some_iff.mp isBody
  rw [(taken.written _ whole download isWritten at_).2]
  cases whole with
  | true => rfl
  | false => exact absurd isWritten (complete _)

end

end Accepting

theorem Less.recordBackoff (call : Call maxLen) (parsed : ParsedMessage maxLen) (nowMs : Nat) :
    Less s { s with lives := s.lives.recordBackoff call parsed nowMs } :=
  .lives (ClientLives.outline_recordBackoff ..) (ClientLives.calls_recordBackoff ..)

theorem keeps_answer : Keeps n (Accepting n call z) answer fun _ => Accepting n call z :=
  fun s accepting => ⟨trivial, accepting.less (.waiting .answer s)⟩

section

variable (parsed : ParsedMessage maxLen)

/-- A response starts, goes on or ends an observation. -/
theorem keeps_acceptClientObserve (viaExchange : Bool) :
    Keeps n (Accepting n call z) (acceptClientObserve call parsed viaExchange) fun _ =>
      Accepting n call z := by
  intro s accepting
  simp only [acceptClientObserve, exec_get_bind]
  split
  · exact ⟨trivial, accepting.less (.takeObserve call)⟩
  split
  · have subscribed : Keeps n (Accepting n call z) (do
        let room ← answer
        modify fun s => if s.clientObserveLive call || !room then s
          else { s with observes := call :: s.observes }) fun _ => Accepting n call z := by
      apply keeps_answer.bind
      intro room
      apply Ensures.modify
      intro s accepting
      split
      · exact accepting
      · exact accepting.subscribe
    exact subscribed s accepting
  · split
    · exact ⟨trivial, accepting.less (.takeObserve call)⟩
    · exact ⟨trivial, accepting⟩

section

variable (reply : ReplyMeta)

theorem keeps_acceptOriginal (viaExchange : Bool) :
    Keeps n (Accepting n call z) (acceptOriginal call reply viaExchange) fun _ =>
      Accepting n call z := by
  simp only [acceptOriginal]
  split
  · exact keeps_acceptClientObserve _ viaExchange
  · exact Ensures.pure _ fun _ accepting => accepting

/-- A representation is complete: it is stored, or the Call is ended because it is too long. -/
theorem keeps_finishAssembled (rx id : Nat) (reply : ReplyMeta) (viaExchange : Bool) :
    Keeps n (Accepting n call (some (id, true))) (finishAssembled call rx id reply viaExchange) fun _ =>
      Kept n none none := by
  apply Ensures.get_bind
  intro s accepting
  apply Ensures.ite
  · intro _
    apply Ensures.modify
    rintro _ rfl
    exact (accepting.failCall _ _).less (.releaseRx rx)
  intro _
  apply ((keeps_acceptOriginal _ viaExchange).start accepting).bind
  intro _
  apply Ensures.modify
  intro t accepting
  exact (accepting.store (by simp) _).less (.releaseRx rx)

/-! ### A block of a representation -/

theorem applyCallBlock2_cases (s : State maxLen) (call : Call maxLen) (etag : Option (List UInt8))
    (q : Bool) (outcome : BlockOutcome) :
    (∃ error, s.applyCallBlock2 call etag q outcome = (.error error, s)) ∨
      ∃ id complete download, s.applyCallBlock2 call etag q outcome =
          (.ok (id, complete), { s with downloads := s.downloads.set id (some download) }) ∧
        download.call = call ∧ download.complete = complete ∧ id < s.downloads.length := by
  simp only [State.applyCallBlock2]
  split
  · exact .inl ⟨_, rfl⟩
  split
  next known =>
    split
    · exact .inl ⟨_, rfl⟩
    · obtain ⟨-, -, -, inside⟩ := findIdx_any known
      exact .inr ⟨_, _, _, rfl, rfl, rfl, inside⟩
  split
  · exact .inl ⟨_, rfl⟩
  next free => exact .inr ⟨_, _, _, rfl, rfl, rfl, (findIdx_free free).2⟩

/-- The body that is written is exempt until its row is. -/
theorem Accepting.write (accepting : Accepting n call none s) (id : Nat) {complete : Bool}
    {download : Download maxLen} (isCall : download.call = call)
    (isComplete : download.complete = complete) : Accepting n call (some (id, complete))
      { s with downloads := s.downloads.set id (some download) } :=
  { accepting with
    kept := { accepting.kept with
      download := by
        intro j other at_ ne incomplete
        obtain ⟨rfl, -⟩ | ⟨-, old⟩ := of_set at_
        · exact absurd rfl ne
        · exact accepting.kept.download j other old nofun incomplete }
    written := by
      rintro _ _ other ⟨⟩ at_
      obtain ⟨-, ⟨⟩⟩ | ⟨there, -⟩ := of_set at_
      · exact ⟨isCall, isComplete⟩
      · exact absurd rfl there }

/-- The Call's row waits for the rest of the body; the body it waited for before is released. -/
theorem Accepting.retain {id : Nat} (accepting : Accepting n call (some (id, false)) s)
    {rows : ClientInbox maxLen} {downloads : List (Option (Download maxLen))}
    (single : rows.Single) (length : rows.length = s.inbox.length) {row : InboxRow maxLen}
    (isRow : rows.row call = some row) (partly : row.complete = false)
    (isBody : row.body = some id) (other : ∀ k, call ≠ k → rows.row k = s.inbox.row k)
    (fewer : ∀ (j : Nat) download, downloads[j]? = some (some download) →
      s.downloads[j]? = some (some download) ∧ ((s.inbox.row call).bind (·.body) = some j → j = id)) :
    Waited n call { s with inbox := rows, downloads } ∧
      NoUpload call { s with inbox := rows, downloads } := by
  have kept := accepting.kept
  have unfinished (k : Call maxLen) (h : Unfinished s k) :
      ∀ row, rows.row k = some row → row.complete = false := by
    by_cases same : call = k
    · subst same
      intro _ isRow'
      rw [isRow] at isRow'
      cases isRow'
      exact partly
    · rw [other k same]
      exact h
  have own : Unfinished { s with inbox := rows, downloads } call := by
    intro _ isRow'
    simp only [isRow] at isRow'
    cases isRow'
    exact partly
  refine ⟨⟨?_, accepting.live, own⟩, accepting.idle⟩
  exact { kept with
    inboxLength := length.trans kept.inboxLength
    inbox := single
    room := kept.room_of_inbox accepting.held (Finset.Subset.refl _) fun k ne => other k ne.symm
    exchange := fun k ne found => ⟨(kept.exchange k ne found).1, unfinished k
      (kept.exchange k ne found).2⟩
    download := by
      intro j download at_ _ incomplete
      obtain ⟨at_, replaced⟩ := fewer j download at_
      by_cases here : j = id
      · subst here
        rw [(accepting.written j false download rfl at_).1]
        exact ⟨accepting.live, row, isRow, partly, isBody⟩
      obtain ⟨live, old, isOld, rest⟩ := kept.download j download at_
        (fun same => here (Option.some.inj same)) incomplete
      have ne : call ≠ download.call := by
        intro same
        rw [← same] at isOld
        exact here (replaced (by rw [isOld, Option.bind_some, rest.2]))
      exact ⟨live, old, (other _ ne).trans isOld, rest⟩
    upload := fun upload member ne =>
      ⟨(kept.upload upload member ne).1, unfinished _ (kept.upload upload member ne).2⟩
    owed := by
      intro k result member
      have ne : call ≠ k := by
        rintro rfl
        exact accepting.unowed result member
      obtain ⟨unobserved, old, isOld, rest⟩ := kept.owed k result member
      exact ⟨unobserved, old, (other k ne).trans isOld, rest⟩ }

/-- The header of a first block finds its row. -/
theorem keeps_retainPartial (rx id : Nat) :
    Keeps n (Accepting n call (some (id, false))) (retainPartial call reply rx id) fun _ s =>
      Waited n call s ∧ NoUpload call s := by
  apply Ensures.modify_bind fun s accepting => accepting.releaseDatagram
  intro s accepting
  rw [exec_bind, exec_modifyGet]
  rcases accepting.kept.inbox.retainPartial call reply id with
    ⟨previous, rows, outcome, single, length, ⟨row, isRow, partly, isBody⟩, other, before⟩ |
      ⟨-, absent, full⟩
  · rw [outcome]
    cases previous with
    | none =>
      refine ⟨trivial, accepting.retain single length isRow partly isBody other ?_⟩
      intro j download at_
      refine ⟨at_, fun isOld => ?_⟩
      rcases before j isOld with none | same
      · cases none
      · exact same
    | some old =>
    simp only [exec_modify]
    split
    next same =>
      refine ⟨trivial, accepting.retain single length isRow partly isBody other ?_⟩
      intro j download at_
      refine ⟨at_, fun isOld => ?_⟩
      rcases before j isOld with isPrevious | isId
      · exact (Option.some.inj isPrevious).symm.trans same
      · exact isId
    next differs =>
      refine ⟨trivial, accepting.retain single length isRow partly isBody other ?_⟩
      intro j download at_
      obtain ⟨-, ⟨⟩⟩ | ⟨there, old⟩ := of_set at_
      refine ⟨old, fun isOld => ?_⟩
      rcases before j isOld with isPrevious | isId
      · exact absurd (Option.some.inj isPrevious) there
      · exact isId
  · obtain ⟨i, free⟩ := accepting.kept.free accepting.held absent
    rw [free] at full
    cases full

theorem keeps_acceptBlock (rx nowMs : Nat) (viaExchange q : Bool) (outcome : BlockOutcome) :
    Keeps n (Accepting n call none)
      (acceptBlock call parsed reply rx nowMs viaExchange q outcome) fun _ => Kept n none none := by
  intro s accepting
  simp only [acceptBlock]
  rw [exec_bind, exec_modifyGet]
  rcases applyCallBlock2_cases s call ((parsed.getOption .etag).map (·.value)) q outcome with
    ⟨error, refused⟩ | ⟨id, complete, download, written, isCall, isComplete, -⟩
  · rw [refused]
    simp only [exec_modify]
    refine ⟨trivial, ?_⟩
    split
    · exact accepting.kept.less (.releaseRx rx)
    · exact (accepting.failCall _ _).less (.releaseRx rx)
  rw [written]
  have observed (s : State maxLen) : Less s (s.recordObservation call parsed nowMs) :=
    .recordObservation call parsed nowMs
  cases complete with
  | true =>
    exact Ensures.modify_bind (fun s accepting => accepting.less (observed s))
      (keeps_finishAssembled rx id reply viaExchange) _ (accepting.write id isCall isComplete)
  | false =>
  refine Ensures.modify_bind (fun s accepting => accepting.less (observed s)) ?_ _
    (accepting.write id isCall isComplete)
  apply (keeps_retainPartial reply rx id).bind
  intro _
  apply Keeps.always
  · exact keeps_orFail fun s ⟨waited, idle⟩ => waited_continueBlock2 waited idle parsed q nowMs
  · exact fun s => .releaseRx rx

/-! ### A whole response -/

theorem Kept.keepDatagram (kept : Kept n none none s) (call : Call maxLen) (rx : Nat) :
    Kept n none none (s.keepDatagram call rx) := by
  simp only [State.keepDatagram]
  split
  · obtain ⟨single, length, isRow⟩ :=
      kept.inbox.update call (f := fun row => { row with datagram := some rx }) fun _ => rfl
    refine kept.datagrams single length fun k => ?_
    rw [isRow k]
    split
    · exact ⟨fun _ => some rx, rfl⟩
    · exact ⟨InboxRow.datagram, by simp⟩
  · exact kept.less (.releaseRx rx)

theorem keeps_acceptDatagram (rx nowMs : Nat) (viaExchange : Bool) :
    Keeps n (Accepting n call none) (acceptDatagram call parsed reply rx nowMs viaExchange) fun _ =>
      Kept n none none := by
  apply Ensures.get_bind
  intro s accepting
  apply Ensures.ite
  · intro _
    apply Ensures.modify
    rintro _ rfl
    exact (accepting.failCall _ _).less (.releaseRx rx)
  intro _
  have observed := accepting.less (.recordObservation call parsed nowMs)
  apply Ensures.modify_bind fun t same => same ▸ observed
  apply (keeps_acceptClientObserve parsed viaExchange).bind
  intro _
  apply Ensures.modify
  intro t accepting
  have stored := accepting.store (by simp) reply
  dsimp only
  split
  · exact stored.keepDatagram call rx
  · exact stored.less (.releaseRx rx)

end

theorem keeps_acceptReply (rx nowMs : Nat) (viaExchange : Bool) (outcome : BlockOutcome) :
    Keeps n (Accepting n call none) (acceptReply call parsed rx nowMs viaExchange outcome) fun _ =>
      Kept n none none := by
  simp only [acceptReply]
  split
  · apply Ensures.modify
    intro s accepting
    exact (accepting.failCall _ _).less (.releaseRx rx)
  next reply _ =>
  apply Ensures.modify_bind fun s accepting => accepting.less (.recordBackoff call parsed nowMs)
  apply Ensures.ite
  · intro _
    exact keeps_acceptBlock parsed reply rx nowMs viaExchange false outcome
  intro _
  apply Ensures.ite
  · intro _
    exact keeps_acceptBlock parsed reply rx nowMs viaExchange true outcome
  · intro _
    exact keeps_acceptDatagram parsed reply rx nowMs viaExchange

/-- A response was matched to the Call. -/
structure Matched (n : Nat) (call : Call maxLen) (s : State maxLen) : Prop where
  kept : Kept n none none s
  live : (s.lives.tag call).isSome
  unowed : Unowed s call

theorem Matched.less (matched : Matched n call s) (less : Less s t) : Matched n call t where
  kept := matched.kept.less less
  live := by rw [tag_congr less.outline]; exact matched.live
  unowed := by rw [Unowed, less.owed]; exact matched.unowed

theorem Matched.accepting (matched : Matched n call s) (idle : NoUpload call s) :
    Accepting n call none s where
  kept := matched.kept
  live := matched.live
  unowed := matched.unowed
  idle
  written _ _ _ none := nomatch none

theorem keeps_acceptResponse (rx nowMs : Nat) (viaExchange : Option (ExchangeEntry maxLen))
    (outcome : BlockOutcome) :
    Keeps n (Matched n call) (acceptResponse call parsed rx nowMs viaExchange outcome) fun _ =>
      Kept n none none := by
  apply Ensures.modify_bind fun s matched =>
    matched.less ((Less.of_waits (.stopRequest viaExchange call.peer)).trans (.takePending _ _))
  apply Ensures.get_bind
  intro s matched
  rcases matched.kept.uploadBody call with ⟨absent, idle⟩ | ⟨upload, found, member, isCall, rest⟩
  · rw [absent]
    exact (keeps_acceptReply parsed rx nowMs _ outcome).start (matched.accepting idle)
  rw [found]
  -- An upload is open, so the Call awaits its result.
  have waited : Waited n call s := by
    obtain ⟨tagged, awaits⟩ := matched.kept.upload upload member nofun
    rw [isCall] at awaits
    exact ⟨matched.kept, matched.live, awaits⟩
  have goesOn {p : Act maxLen Unit} (h : Issuing call p) :
      Keeps n (fun t => t = s) (always (orFail call p) (·.releaseRx rx)) fun _ =>
        Kept n none none := by
    have continued := (keeps_orFail_issuing (n := n) h).always fun s => .releaseRx rx
    exact continued.start waited
  apply Ensures.ite
  · intro _
    exact goesOn (.reissueQBlock1Missing nowMs)
  intro _
  apply Ensures.ite
  · intro _
    exact goesOn (.continueBlock1Tx nowMs upload)
  intro _
  -- The response ends the upload.
  have released := (matched.less (.releaseTxBody upload)).accepting rest
  apply Ensures.modify_bind fun t same => same ▸ released
  exact keeps_acceptReply parsed rx nowMs viaExchange.isSome outcome

end

theorem keeps_waiting {p : Act maxLen α} (h : Waiting p) :
    Keeps n (Matched n call) p fun _ => Matched n call :=
  .keeping (fun s matched => matched.less (.waiting h s)) fun _ => (·.kept)

/-- A response is matched through an exchange or an observation; either is an outstanding Call's. -/
theorem Kept.matched (kept : Kept n none none s) {parsed : ParsedMessage maxLen} {peer : Endpoint}
    (isMatched : ¬ ((s.matchingExchange parsed peer).isNone && !s.matchingObserve parsed peer) = true) :
    Matched n ⟨parsed.token, peer⟩ s := by
  have byObserve (observing : s.matchingObserve parsed peer = true) :
      Matched n ⟨parsed.token, peer⟩ s := by
    simp only [State.matchingObserve, Bool.and_eq_true, State.clientObserveLive,
      List.contains_iff_mem] at observing
    exact ⟨kept, kept.observe _ observing.2, kept.unowed_of_observe observing.2⟩
  cases via : s.matchingExchange parsed peer with
  | none =>
    rw [via] at isMatched
    exact byObserve (by simpa using isMatched)
  | some entry =>
  have found := (Option.filter_eq_some_iff.mp via).1
  have awaits := kept.exchange ⟨parsed.token, peer⟩ (by simp)
      (Option.isSome_iff_exists.mpr ⟨entry, found⟩)
  exact ⟨kept, awaits.1, kept.unowed_of_awaits awaits⟩

theorem keeps_completeClient (peer : Endpoint) (parsed : ParsedMessage maxLen) (rx nowMs : Nat)
    (outcome : BlockOutcome) :
    Keeps n (Kept n none none) (completeClient peer parsed rx nowMs outcome) fun _ =>
      Kept n none none := by
  have refused := Less.waiting (.reject parsed peer)
  apply Ensures.get_bind
  intro s kept
  apply Ensures.ite
  · intro _
    apply Keeps.restoring
    · rintro _ rfl
      exact kept.less (refused _)
    · exact fun s kept => kept.less (.releaseRx rx)
  intro isMatched
  have matched := kept.matched isMatched
  apply Ensures.ite
  · intro _
    apply Ensures.modify_bind (q := Kept n none none)
    · rintro _ rfl
      exact kept.less (.of_waits (.stopOnAck _ _ _))
    apply Keeps.restoring
    · exact fun s kept => kept.less (refused s)
    · exact fun s kept => kept.less (.releaseRx rx)
  · intro _
    apply Ensures.ite
    · intro _
      apply Keeps.restoring
      · rintro _ rfl
        exact matched.less (refused _)
      · intro t matched
        exact (matched.kept.failCall (Kept.held_of_tag matched.live) nofun _ _).less (.releaseRx rx)
    intro _
    have acknowledged : Keeps n (Matched n ⟨parsed.token, peer⟩) (acknowledge parsed peer) fun _ =>
        Matched n ⟨parsed.token, peer⟩ :=
      keeps_waiting (.acknowledge parsed peer)
    apply ((acknowledged.onError fun s => .releaseRx rx).start matched).bind
    intro _
    have committed : Keeps n (Matched n ⟨parsed.token, peer⟩) (demand .oscore) fun _ =>
        Matched n ⟨parsed.token, peer⟩ :=
      keeps_waiting (.demand _)
    apply (committed.onError fun s => .releaseRx rx).bind
    intro _
    apply Ensures.modify_bind fun t matched =>
      matched.less (.of_waits (.stopOnAck parsed (s.matchingExchange parsed peer) peer))
    apply Ensures.ite
    · intro _
      exact keeps_acceptResponse parsed rx nowMs _ outcome
    · intro _
      exact Ensures.modify fun t matched => matched.kept.less (.releaseRx rx)

theorem keeps_receive (peer : Endpoint) (parsed : ParsedMessage maxLen) (nowMs : Nat)
    (outcome : BlockOutcome) :
    Keeps n (Kept n none none) (receive peer parsed nowMs outcome) fun _ => Kept n none none := by
  apply Ensures.get_bind
  intro s kept
  split
  · apply Ensures.throw
    rintro _ rfl
    exact kept
  next rx occ _ =>
  have acquired : Keeps n (fun t => t = s) (set { s with rx := occ } : Act maxLen PUnit) fun _ =>
      Kept n none none := by
    rintro _ rfl
    exact ⟨trivial, { kept with }⟩
  exact acquired.bind fun _ => keeps_completeClient peer parsed rx nowMs outcome

end Coaptic.Client
