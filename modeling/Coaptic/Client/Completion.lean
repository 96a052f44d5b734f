import Coaptic.Client.Answered

/-!
# Results over whole runs

Every event keeps the invariant of the client's tables. In every state of a run a result finds its
row, and a result that is owed is handed over.
-/
namespace Coaptic.Client

open Codec Block Pending Program Slots Run ExchangeTable Finset
open ClientLives (calls_expireBackoffs mem_calls mem_calls_of_tag outline outline_expireBackoffs
  sketch tag_eq)

variable {maxLen : Nat} {n : Nat} {call : Call maxLen} {s t : State maxLen}

/-! ### Timers -/

section

variable (kept : Kept n none none s)
include kept

/-- A block that is missing belongs to a Call that is outstanding. -/
theorem Kept.waited_of_download {id : Nat} {download : Download maxLen}
    (at_ : s.downloads[id]?.join = some download) (incomplete : download.complete = false) :
    Waited n download.call s := by
  obtain ⟨live, row, isRow, partly, -⟩ :=
    kept.download id download (Option.join_eq_some_iff.mp at_) nofun incomplete
  refine ⟨kept, live, fun row' isRow' => ?_⟩
  rw [isRow] at isRow'
  cases isRow'
  exact partly

theorem Kept.waited_of_upload {upload : Upload maxLen} (found : s.uploadBody call = some upload) :
    Waited n call s := by
  rcases kept.uploadBody call with ⟨absent, -⟩ | ⟨own, isOwn, member, isCall, -⟩
  · rw [absent] at found
    cases found
  obtain ⟨tagged, unfinished⟩ := kept.upload own member nofun
  rw [isCall] at tagged unfinished
  exact ⟨kept, Option.isSome_iff_exists.mpr ⟨_, tagged⟩, unfinished⟩

/-- Missing blocks are asked for when the Call is not uploading. -/
theorem Kept.recoverQBlock2 (id nowMs : Nat)
    (idle : ∀ download, s.downloads[id]?.join = some download → NoUpload download.call s) :
    Kept n none none (exec (recoverQBlock2 id nowMs) s).2 := by
  simp only [Client.recoverQBlock2, exec_get_bind]
  split
  · exact kept
  next download at_ =>
  split
  next due =>
    have incomplete : download.complete = false := by
      simp only [Bool.and_eq_true, Bool.not_eq_true'] at due
      exact due.1.2
    have waited := kept.waited_of_download at_ incomplete
    have asked : Keeps n (fun t => t = s) (orFail download.call
        (sendFollowup download.call true (some .nonConfirmable) nowMs)) fun _ =>
          Kept n none none := by
      apply keeps_orFail
      rintro _ rfl
      exact waited_sendFollowup waited (idle download at_) true _ nowMs
    exact asked.either rfl
  · exact kept

theorem Kept.paceQBlock1 (nowMs : Nat) : Kept n none none (exec (paceQBlock1 nowMs) s).2 := by
  simp only [Client.paceQBlock1, exec_get_bind]
  split
  · exact kept
  next live _ =>
  have less : Less s { s with lives := s.lives.update (·.call = live.call) fun row =>
      { row with qPaceMs := 0 } } := .steady (.update _ fun _ => rfl)
  rw [exec_bind, exec_set]
  dsimp only
  split
  · exact kept.less less
  next upload found =>
  have waited := kept.waited_of_upload found
  exact (keeps_orFail_issuing (n := n) (.next nowMs upload)).either
    ⟨kept.less less, waited.2.congr less.outline less.inbox⟩

theorem Kept.continueQBlock1Ack (mid : MessageId) (peer : Endpoint) (nowMs : Nat) :
    Kept n none none (exec (continueQBlock1Ack mid peer nowMs) s).2 := by
  simp only [Client.continueQBlock1Ack, exec_get_bind]
  split
  · exact kept
  next entry _ =>
  split
  next upload _ found =>
    have waited := kept.waited_of_upload found
    split
    · exact kept
    have less : Less s (exec answer s).2 := .waiting .answer s
    have waited' : Waited n (ofEntry entry) (exec answer s).2 :=
      ⟨kept.less less, waited.2.congr less.outline less.inbox⟩
    obtain ⟨a, returns⟩ : ∃ a, exec answer s = (.ok a, (exec answer s).2) := ⟨_, rfl⟩
    rw [exec_bind, returns]
    cases a with
    | true => exact (keeps_orFail_issuing (n := n) (.next nowMs upload)).either waited'
    | false => exact waited'.1
  · exact kept

end

/-! ### Datagrams that end a Call -/

section

variable (kept : Kept n none none s)
include kept

/-- The Call of an exchange is ended. -/
theorem Kept.failExchange {entry : ExchangeEntry maxLen}
    (found : s.exchanges.find entry.key = some entry) (failure : CallFailure)
    (releasePending : Bool) :
    Kept n none none (s.failCall (ofEntry entry) failure releasePending) := by
  have awaits := kept.exchange (ofEntry entry) nofun (Option.isSome_iff_exists.mpr ⟨entry, found⟩)
  exact kept.failCall (held_of_tag awaits.1) nofun failure releasePending

theorem Kept.completeClientRst (mid : MessageId) (peer : Endpoint) :
    Kept n none none (s.completeClientRst mid peer) := by
  simp only [State.completeClientRst]
  split
  · exact kept
  next entry isEntry =>
  apply kept.failExchange
  rcases Option.or_eq_some_iff.mp isEntry with bySlot | ⟨-, byMid⟩
  · obtain ⟨tx, -, isFirst⟩ := Option.bind_eq_some_iff.mp bySlot
    exact (find_of_forTx isFirst).1
  · exact (find_of_forMid (Option.filter_eq_some_iff.mp byMid).1).1

theorem Kept.control (isReset : Bool) (mid : MessageId) (peer : Endpoint) (nowMs : Nat) :
    Kept n none none (exec (control isReset mid peer nowMs) s).2 := by
  simp only [Client.control]
  split
  · simp only [exec_bind, exec_modify]
    exact (kept.completeClientRst mid peer).less (.takePending mid peer)
  rw [exec_get_bind, exec_bind, exec_modify]
  have stopped := kept.less (.takePending mid peer)
  dsimp only
  split
  · exact stopped.continueQBlock1Ack mid peer nowMs
  · exact stopped

theorem Kept.failPendingClient (tx : Nat) (failure : CallFailure) :
    Kept n none none (s.failPendingClient tx failure) := by
  simp only [State.failPendingClient]
  split
  · exact kept
  next isFirst => exact kept.failExchange (find_of_forTx isFirst).1 _ _

theorem Kept.retransmit (nowMs : Nat) : Kept n none none (s.retransmit nowMs) := by
  simp only [State.retransmit]
  split
  · exact ((kept.less (.tx _)).failPendingClient _ _).less (.releaseTx _)
  · exact kept.less (.tx _)

theorem Kept.retransmitFailed (tx : Nat) : Kept n none none (s.retransmitFailed tx) := by
  simp only [State.retransmitFailed]
  split
  · exact kept
  · exact (kept.failPendingClient _ _).less (.releaseTx _)

theorem Kept.supersede (expected : PendingCon) (bytes : List UInt8) :
    Kept n none none (s.supersede expected bytes) := by
  simp only [State.supersede]
  split
  · exact kept
  · exact kept.less { Less.refl s with }

end

theorem live_of_get (h : (s.lives.get call).isSome) : (s.lives.tag call).isSome := by
  rw [tag_eq, Option.isSome_map]
  exact h

theorem Kept.qblockGiveUp (kept : Kept n none none s) (id : Nat) :
    Kept n none none (s.qblockGiveUp id) := by
  simp only [State.qblockGiveUp]
  split
  · exact kept
  next download _ =>
  split
  · have released := kept.less (.releaseRxBody id)
    split
    next live => exact released.failCall (held_of_tag (live_of_get live)) nofun _ _
    · exact released
  · exact kept

/-- Ending Calls one after the other. -/
theorem Kept.failCalls (kept : Kept n none none s) {ends : List (Call maxLen × CallFailure)}
    (live : ∀ call failure, (call, failure) ∈ ends → call ∈ s.lives.calls) :
    Kept n none none (ends.foldl (fun s (call, failure) => s.failCall call failure true) s) := by
  induction ends generalizing s with
  | nil => exact kept
  | cons first rest ih =>
  obtain ⟨call, failure⟩ := first
  have held : call ∈ s.held := mem_union_left _ (live call failure List.mem_cons_self)
  apply ih (kept.failCall held nofun failure true)
  intro other failure' member
  rw [failCall_lives, (steady_disarm s call).calls]
  exact live other failure' (List.mem_cons_of_mem _ member)

theorem Kept.expireClientExchanges (kept : Kept n none none s) (nowMs : Nat) :
    Kept n none none (s.expireClientExchanges nowMs) := by
  simp only [State.expireClientExchanges]
  apply Kept.failCalls
  · exact kept.less (.lives (outline_expireBackoffs ..) (calls_expireBackoffs ..))
  intro call failure member
  obtain ⟨row, inRows, isEnd⟩ := List.mem_filterMap.mp member
  have isCall : row.call = call := by
    simp only [State.expiry] at isEnd
    split at isEnd
    · cases isEnd
    split at isEnd
    · cases isEnd
      rfl
    split at isEnd
    · cases isEnd
      rfl
    · cases isEnd
  rw [mem_calls]
  exact ⟨row, List.reduceOption_mem_iff.mp inRows, isCall⟩

/-! ### The application -/

theorem Kept.cancel (kept : Kept n none none s) (call : Call maxLen) :
    Kept n none none (s.cancel call).2 := by
  simp only [State.cancel]
  split
  · exact kept
  next waits =>
  have live : (s.lives.get call).isSome := by
    simp only [Bool.or_eq_true, not_or, Option.isNone_iff_eq_none] at waits
    exact Option.isSome_iff_ne_none.mpr waits.1
  exact kept.failCall (held_of_tag (live_of_get live)) nofun _ _

variable {i : Nat} {row : LiveCall maxLen} {spec : RequestSpec maxLen}

/-- Clearing a row, of a Call that is live or retired, leaves the tags of all other Calls. -/
theorem ClientLives.Single.clear {rows : ClientLives maxLen} (single : rows.Single)
    (at_ : rows[i]? = some (some row)) : ClientLives.Single (rows.set i none) ∧
      ∀ k, k ≠ row.call → ClientLives.tag (rows.set i none) k = rows.tag k := by
  have written : outline (rows.set i none) = rows.outline.set i none := List.map_set
  refine ⟨?_, fun k ne => ?_⟩
  · rw [ClientLives.Single, written]
    exact Distinct.clear single i
  rw [ClientLives.tag, ClientLives.tag, written]
  have here : rows.outline[i]? = some (sketch (some row)) := by
    rw [List.getElem?_map, at_, Option.map_some]
  cases retired : row.retired with
  | false =>
    have sketched : sketch (some row) = some (row.call, row.requestTag) := by
      simp [sketch, retired]
    rw [sketched] at here
    rw [single.find_clear here, if_neg ne.symm]
  | true =>
  -- A retired row is not in the outline.
  have sketched : sketch (some row) = none := by
    simp [sketch, retired]
  rw [sketched] at here
  obtain ⟨inside, isNone⟩ := List.getElem?_eq_some_iff.mp here
  have same : rows.outline.set i none = rows.outline := by
    rw [← isNone]
    exact List.set_getElem_self inside
  rw [same]

theorem getElem_disarm (at_ : s.lives[i]? = some (some row)) (call : Call maxLen) :
    ∃ row', (s.disarm call).lives[i]? = some (some row') ∧ row'.call = row.call := by
  simp only [State.disarm, List.getElem?_map, at_, Option.map_some]
  refine ⟨_, rfl, ?_⟩
  split <;> rfl

/-- The Call of a row fails, and the row goes; its failure stays in the inbox. -/
theorem Kept.revokeRow (kept : Kept n none none s) (peer : Endpoint) (i : Nat) :
    Kept n none none (s.revokeRow peer i) := by
  simp only [State.revokeRow]
  split
  · exact kept
  next live isLive =>
  have at_ : s.lives[i]? = some (some live) :=
    Option.join_eq_some_iff.mp (Option.filter_eq_some_iff.mp isLive).1
  have held : live.call ∈ s.held :=
    mem_union_left _ (ClientLives.mem_calls.mpr ⟨live, List.mem_of_getElem? at_, rfl⟩)
  have failed := kept.failCall held nofun .associationRevoked true
  obtain ⟨unobserved, row, stored, complete, -⟩ :=
    failed.owed _ _ (failCall_owed s live.call .associationRevoked true)
  obtain ⟨row', at_', isCall⟩ := getElem_disarm at_ live.call
  rw [← failCall_lives s live.call .associationRevoked true] at at_'
  obtain ⟨single, tags⟩ := failed.lives.clear at_'
  refine failed.drop stored complete unobserved single List.length_set
    (ClientLives.calls_clear _ i) ?_
  intro k ne
  exact tags k (fun same => ne (same.trans isCall))

theorem Less.sweepTx (peer : Endpoint) (id : Nat) : Less s (s.sweepTx peer id) := by
  unfold State.sweepTx
  extract_lets u v
  have taken : Less s u := by
    simp only [u]
    split
    · exact .refl s
    · exact .takeExchange _
  have stopped : Less u v := by
    simp only [v]
    split
    · exact .refl u
    · exact .tx _
  split
  · exact (taken.trans stopped).trans (.releaseTx id)
  · exact taken.trans stopped

theorem Kept.removeAssociation (kept : Kept n none none s) (peer : Endpoint) :
    Kept n none none (s.removeAssociation peer) := by
  have revoked : Kept n none none (s.revokeAssociation peer) :=
    List.foldlRecOn _ _ kept fun _ kept i _ => kept.revokeRow peer i
  simp only [State.removeAssociation]
  generalize s.revokeAssociation peer = u at revoked ⊢
  have unobserved : Less u { u with observes := u.observes.filter (·.peer ≠ peer) } :=
    { Less.refl u with observes := fun _ member => (List.mem_filter.mp member).1 }
  have swept := unobserved.trans (Less.foldl (List.range u.tx.slots.length) fun s id =>
      .sweepTx peer id)
  generalize (List.range u.tx.slots.length).foldl (State.sweepTx peer) _ = v at swept ⊢
  refine revoked.less (swept.trans { Less.refl v with
    downloads := ?_
    uploads := List.filter_sublist })
  intro id download at_
  simp only [List.getElem?_map, Option.map_eq_some_iff] at at_
  obtain ⟨slot, at_, filtered⟩ := at_
  rw [at_, (Option.filter_eq_some_iff.mp filtered).1]

/-! ### Requests -/

/-- A Call that is being sent may be exempt. -/
theorem Kept.exempt (kept : Kept n none none s) (call : Call maxLen) : Kept n (some call) none s :=
  { kept with
    exchange := fun k _ found => kept.exchange k nofun found
    upload := fun upload member _ => kept.upload upload member nofun }

/-- Nothing of the request is left: the Call is not exempt any more. -/
theorem Kept.unexempt (kept : Kept n (some call) none s) (absent : Absent call s) :
    Kept n none none s :=
  { kept with
    exchange := by
      intro k _ found
      apply kept.exchange k _ found
      rintro ⟨⟩
      rw [absent.1] at found
      cases found
    upload := by
      intro upload member _
      apply kept.upload upload member
      intro same
      exact absent.2 upload member (Option.some.inj same) }

/-- What is installed with a request: the row of its Call. A result of the registration it
replaces is dropped. -/
theorem Kept.commitCall (kept : Kept n (some call) none s) {live : LiveCall maxLen}
    (isCall : live.call = call) (active : live.retired = false) (admitted : s.lives.canAdmit call)
    (tagged : ∀ upload ∈ s.uploads, upload.call = call → upload.tag = live.requestTag)
    (finished : ∀ row, s.inbox.row call = some row → row.complete = true) {replacing : Bool}
    (fresh : replacing = false → s.inbox.row call = none)
    (room : (Insert.insert call s.held).card ≤ n) :
    Waited n call (s.commitCall live replacing) := by
  subst isCall
  obtain ⟨rx, inbox, owed, isState, single, length, gone, other, fewer⟩ :
      ∃ rx inbox owed, s.commitCall live replacing =
          { s with rx, inbox, owed, lives := s.lives.insert live } ∧
        ClientInbox.Single inbox ∧ inbox.length = s.inbox.length ∧
        ClientInbox.row inbox live.call = none ∧
        (∀ k, k ≠ live.call → ClientInbox.row inbox k = s.inbox.row k) ∧
        ∀ k result, (k, result) ∈ owed → k ≠ live.call ∧ (k, result) ∈ s.owed := by
    cases replacing with
    | false =>
      refine ⟨s.rx, s.inbox, s.owed, rfl, kept.inbox, rfl, fresh rfl, fun _ _ => rfl, ?_⟩
      intro k result member
      refine ⟨?_, member⟩
      rintro rfl
      obtain ⟨-, row, isRow, -⟩ := kept.owed _ result member
      rw [fresh rfl] at isRow
      cases isRow
    | true =>
    obtain ⟨rx, isState⟩ := releaseDatagram_eq s live.call
    obtain ⟨taken, takenLength, takenRows⟩ := kept.inbox.takeDatagram live.call
    obtain ⟨single, length, rows⟩ := taken.discard live.call
    refine ⟨rx, _, s.owed.filter (·.1 ≠ live.call), ?_, single, length.trans takenLength, ?_, ?_, ?_⟩
    · simp only [State.commitCall, if_true, isState]
      rfl
    · rw [rows, if_pos rfl]
    · intro k ne
      rw [rows, if_neg ne.symm, takenRows, if_neg ne.symm]
    intro k result member
    obtain ⟨member, ne⟩ := List.mem_filter.mp member
    exact ⟨by simpa using ne, member⟩
  obtain ⟨livesSingle, livesLength, calls, tags⟩ := kept.lives.insert active admitted
  have isLive (k : Call maxLen) (h : (s.lives.tag k).isSome) :
      ((s.lives.insert live).tag k).isSome := by
    rw [tags k]
    split
    · rfl
    · exact h
  have unfinished (k : Call maxLen) (h : k ≠ live.call → Unfinished s k) :
      ∀ row, ClientInbox.row inbox k = some row → row.complete = false := by
    by_cases same : k = live.call
    · rw [same, gone]
      nofun
    · rw [other k same]
      exact h same
  rw [isState]
  refine ⟨?_, by rw [tags, if_pos rfl]; rfl, unfinished _ fun ne => absurd rfl ne⟩
  exact {
    livesLength := livesLength.trans kept.livesLength
    inboxLength := length.trans kept.inboxLength
    lives := livesSingle
    inbox := single
    room := card_held_le room calls other
    exchange := by
      intro k _ found
      by_cases same : k = live.call
      · subst same
        exact ⟨by rw [tags, if_pos rfl]; rfl, unfinished _ fun ne => absurd rfl ne⟩
      · have awaits := kept.exchange k (fun eq => same (Option.some.inj eq)) found
        exact ⟨isLive k awaits.1, unfinished k fun _ => awaits.2⟩
    observe := fun k member => isLive k (kept.observe k member)
    download := by
      intro id download at_ ne incomplete
      obtain ⟨tag, row, isRow, rest⟩ := kept.download id download at_ ne incomplete
      have ne : download.call ≠ live.call := by
        intro same
        rw [same] at isRow
        rw [finished row isRow] at rest
        cases rest.1
      exact ⟨isLive _ tag, row, (other _ ne).trans isRow, rest⟩
    upload := by
      intro upload member _
      by_cases same : upload.call = live.call
      · rw [same]
        exact ⟨by rw [tags, if_pos rfl, tagged upload member same],
          unfinished _ fun ne => absurd rfl ne⟩
      · obtain ⟨tag, awaits⟩ := kept.upload upload member fun eq => same (Option.some.inj eq)
        exact ⟨by rw [tags, if_neg fun eq => same eq.symm, tag], unfinished _ fun _ => awaits⟩
    uploads := kept.uploads
    owed := by
      intro k result member
      obtain ⟨ne, old⟩ := fewer k result member
      obtain ⟨unobserved, row, isRow, rest⟩ := kept.owed k result old
      exact ⟨unobserved, row, (other k ne).trans isRow, rest⟩ }

/-- What is known of a Call that a request was admitted for. -/
structure Admitted (spec : RequestSpec maxLen) (call : Call maxLen) (s : State maxLen) : Prop where
  identified : ∃ made, spec.requestIdentity = .ok made
  undelayed : s.lives.backoffUntil spec.dest spec.code spec.path spec.queries = none
  atPeer : call.peer = spec.dest
  admits : s.lives.canAdmit call
  registered : spec.replacing = true → ∃ live, some live ∈ s.lives ∧ live.call = call ∧
    live.observe = .register ∧ live.requestIdentity = spec.identity
  fresh : spec.replacing = false → call ∉ s.lives.calls
  room : spec.replacing = false → s.lives.reduceOption.length < s.lives.length

theorem Admitted.replaces (admitted : Admitted spec call s) (replacing : spec.replacing = true) :
    call ∈ s.lives.calls := by
  obtain ⟨live, member, isCall, -⟩ := admitted.registered replacing
  exact ClientLives.mem_calls.mpr ⟨live, member, isCall⟩

/-- Admission only forgets delays that are over. -/
theorem admitCall_spec (spec : RequestSpec maxLen) (draws : List (OwnedToken maxLen))
    (nowMs : Nat) (s : State maxLen) : ((exec (admitCall spec draws nowMs) s).2 = s ∨
      (exec (admitCall spec draws nowMs) s).2 = { s with lives := s.lives.expireBackoffs nowMs }) ∧
      ∀ call, (exec (admitCall spec draws nowMs) s).1 = .ok (.inr call) →
        Admitted spec call (exec (admitCall spec draws nowMs) s).2 := by
  simp only [admitCall]
  split
  · exact ⟨.inl rfl, nofun⟩
  split
  · exact ⟨.inl rfl, nofun⟩
  rw [exec_bind, exec_modify]
  dsimp only
  rw [exec_get_bind]
  generalize s.lives.expireBackoffs nowMs = lives
  split
  · exact ⟨.inr rfl, nofun⟩
  next undelayed =>
  split
  · exact ⟨.inr rfl, nofun⟩
  next made identified =>
  split
  · exact ⟨.inr rfl, nofun⟩
  split
  · exact ⟨.inr rfl, nofun⟩
  split
  · exact ⟨.inr rfl, nofun⟩
  next saturated =>
  split
  · exact ⟨.inr rfl, nofun⟩
  next token chosen =>
  split
  · exact ⟨.inr rfl, nofun⟩
  next refused =>
  split
  · exact ⟨.inr rfl, nofun⟩
  split
  · exact ⟨.inr rfl, nofun⟩
  refine ⟨.inr rfl, ?_⟩
  rintro call ⟨⟩
  refine ⟨⟨made, identified⟩, undelayed, rfl, by simpa using refused, ?_, ?_, ?_⟩
  · intro replacing
    rw [if_pos replacing] at chosen
    split at chosen
    next other found =>
      cases chosen
      -- The registration that is meant is one of the rows, at the request's peer.
      simp only [ClientLives.observeCall] at found
      split at found
      · cases found
      next live isOnly =>
        cases found
        have member : live ∈ [live] := List.mem_singleton_self live
        rw [← isOnly] at member
        obtain ⟨inRows, passes⟩ := List.mem_filter.mp member
        simp only [decide_eq_true_eq] at passes
        refine ⟨live, List.reduceOption_mem_iff.mp inRows, ?_, passes.2.1, passes.2.2.2.2.1⟩
        rw [← passes.1]
      · cases found
    · cases chosen
  · intro fresh inCalls
    rw [if_neg (by rw [fresh]; exact Bool.false_ne_true)] at chosen
    split at chosen
    next other found =>
      cases chosen
      obtain ⟨row, member, isCall⟩ := ClientLives.mem_calls.mp inCalls
      have unused := List.find?_some found
      simp only [Bool.not_eq_true', List.any_eq_false, decide_eq_true_eq] at unused
      apply unused row (List.reduceOption_mem_iff.mpr member)
      rw [isCall]
    · cases chosen
  · intro fresh
    simpa [fresh] using saturated

/-- Every row of the inbox belongs to a Call that is live. -/
def State.Backed (s : State maxLen) : Prop :=
  ∀ row ∈ s.inbox.reduceOption, (s.lives.get row.call).isSome

instance (s : State maxLen) : Decidable s.Backed :=
  inferInstanceAs (Decidable (∀ row ∈ s.inbox.reduceOption, (s.lives.get row.call).isSome))

/-- The client is ready to send the first datagram of a request. -/
structure Prepared (n : Nat) (spec : RequestSpec maxLen) (call : Call maxLen) (s : State maxLen) :
    Prop where
  kept : Kept n none none s
  idle : NoUpload call s
  finished : ∀ row, s.inbox.row call = some row → row.complete = true
  fresh : spec.replacing = false → s.inbox.row call = none
  admits : s.lives.canAdmit call
  room : (Insert.insert call s.held).card ≤ n

/-- All of the registration that is replaced goes first: it fails until the request is sent. -/
theorem Kept.prepare_replacing (kept : Kept n none none s) (admitted : Admitted spec call s)
    (replacing : spec.replacing = true) (failure : CallFailure) :
    Prepared n spec call ((s.abandonSend call).failCall call failure true) := by
  have less : Less s (s.abandonSend call) := .abandonSend call
  have sends : Sends call none 0 s (s.abandonSend call) := .abandonSend call
  have abandoned := kept.less less
  have held : call ∈ (s.abandonSend call).held := by
    obtain ⟨tx, abandons⟩ := abandonSend_eq call s
    rw [State.held, abandons]
    exact mem_union_left _ (admitted.replaces replacing)
  have failed := abandoned.failCall held (by simp) failure true
  obtain ⟨-, row, isRow, complete, -⟩ :=
    failed.owed _ _ (failCall_owed (s.abandonSend call) call failure true)
  exact {
    kept := failed
    idle := by
      rintro upload member rfl
      have := (failed.upload upload member (by simp)).2 row isRow
      rw [complete] at this
      cases this
    finished := by
      intro row' isRow'
      rw [isRow] at isRow'
      cases isRow'
      exact complete
    fresh := fun fresh => by
      rw [replacing] at fresh
      cases fresh
    admits := by
      rw [failCall_lives, (steady_disarm _ call).canAdmit, sends.lives.canAdmit]
      exact admitted.admits
    room := by
      have inside : call ∈ ((s.abandonSend call).failCall call failure true).held :=
        mem_union_right _ (ClientInbox.mem_calls_iff.mpr
          (Option.isSome_iff_exists.mpr ⟨row, isRow⟩))
      rw [insert_eq_self.mpr inside]
      exact failed.room }

/-- A new Call has no row of either kind, and there is room for it. -/
theorem Kept.prepare_fresh (kept : Kept n none none s) (admitted : Admitted spec call s)
    (fresh : spec.replacing = false) (backed : s.Backed) : Prepared n spec call s := by
  have within : s.inbox.calls ⊆ s.lives.calls := by
    intro k member
    obtain ⟨row, inRows, rfl⟩ := ClientInbox.mem_calls.mp member
    exact mem_calls_of_tag (live_of_get (backed row (List.reduceOption_mem_iff.mpr inRows)))
  have absent : s.inbox.row call = none := by
    cases isRow : s.inbox.row call with
    | none => rfl
    | some row =>
    have : call ∈ s.inbox.calls :=
      ClientInbox.mem_calls_iff.mpr (Option.isSome_iff_exists.mpr ⟨row, isRow⟩)
    exact absurd (within this) (admitted.fresh fresh)
  exact {
    kept
    idle := by
      rintro upload member rfl
      have tagged := (kept.upload upload member nofun).1
      exact admitted.fresh fresh
        (mem_calls_of_tag (Option.isSome_iff_exists.mpr ⟨_, tagged⟩))
    finished := fun row isRow => by
      rw [absent] at isRow
      cases isRow
    fresh := fun _ => absent
    admits := admitted.admits
    room := by
      -- The Calls with a row are those in the table of outstanding Calls, which has a free place.
      have few : s.lives.calls.card ≤ s.lives.reduceOption.length := by
        have := List.toFinset_card_le (s.lives.reduceOption.map (·.call))
        simpa [ClientLives.calls] using this
      have all : s.held = s.lives.calls := union_eq_left.mpr within
      have less := admitted.room fresh
      rw [kept.livesLength] at less
      rw [all]
      exact (card_insert_le _ _).trans (by omega) }

theorem Prepared.less (prepared : Prepared n spec call s) (less : Less s t)
    (same : t.lives = s.lives) : Prepared n spec call t where
  kept := prepared.kept.less less
  idle upload member := prepared.idle upload (less.uploads.subset member)
  finished := by rw [less.inbox]; exact prepared.finished
  fresh := by rw [less.inbox]; exact prepared.fresh
  admits := by rw [same]; exact prepared.admits
  room := by rw [State.held, less.inbox, same]; exact prepared.room

theorem lives_evictPins (s : State maxLen) (pins : List Nat) :
    (s.evictPins pins).lives = s.lives := by
  refine List.foldlRecOn (motive := fun t : State maxLen => t.lives = s.lives) _ _ rfl ?_
  intro t same tx _
  rw [← same]
  split <;> rfl

theorem Less.evictPins (s : State maxLen) (pins : List Nat) : Less s (s.evictPins pins) := by
  apply Less.foldl
  intro s tx
  split
  · exact .releaseTx tx
  · exact .refl s

/-- Sending a request and installing its Call. -/
theorem Prepared.send (prepared : Prepared n spec call s) (prior : Option (LiveCall maxLen))
    (nowMs : Nat) : Kept n none none (exec (do
      sendCall call spec nowMs
      modify (·.commitCall (liveCall call spec prior nowMs) spec.replacing)
      armQPacing call nowMs
      pure call) s).2 := by
  have sent : Sends call spec.requestTag 1 s (exec (sendCall call spec nowMs) s).2 ∧ _ :=
    runs_sendCall spec nowMs s trivial
  rw [exec_bind]
  generalize exec (sendCall call spec nowMs) s = reached at sent
  obtain ⟨outcome, t⟩ := reached
  obtain ⟨sends, after⟩ := sent
  have kept : Kept n (some call) none t :=
    (prepared.kept.exempt call).sends sends (fun ne => absurd rfl ne)
      (.inr ⟨rfl, prepared.idle, fun ne => absurd rfl ne⟩)
  cases outcome with
  | error e => exact kept.unexempt after
  | ok _ =>
  obtain ⟨started, -, isOwn, fewer⟩ := sends.uploads
  have within : t.held ⊆ s.held := by
    rw [State.held, State.held, sends.inbox]
    exact union_subset_union_left sends.calls
  have waited : Waited n call (t.commitCall (liveCall call spec prior nowMs) spec.replacing) := by
    apply kept.commitCall rfl rfl
    · rw [sends.lives.canAdmit]
      exact prepared.admits
    · intro upload member isCall
      rcases List.mem_append.mp (fewer.subset member) with new | old
      · exact (isOwn upload new).2
      · exact absurd isCall (prepared.idle upload old)
    · rw [sends.inbox]
      exact prepared.finished
    · rw [sends.inbox]
      exact prepared.fresh
    · exact (card_le_card (insert_subset_insert _ within)).trans prepared.room
  dsimp only
  rw [exec_bind, exec_modify]
  dsimp only
  generalize t.commitCall (liveCall call spec prior nowMs) spec.replacing = u at waited
  have issues : Issues call u (exec (armQPacing call nowMs) u).2 := Issuing.armQPacing nowMs u
  have armed := waited.issues issues
  rw [exec_bind]
  generalize exec (armQPacing call nowMs) u = last at armed
  obtain ⟨outcome, v⟩ := last
  cases outcome with
  | ok _ => exact armed.1
  | error e => exact armed.1

/-- Nothing of a request that is replaced stays. -/
def State.replaced (s : State maxLen) (spec : RequestSpec maxLen) (call : Call maxLen) :
    State maxLen :=
  if spec.replacing then
    (s.abandonSend call).failCall call
      (if spec.refreshing then .reregistrationFailed else .cancellationFailed) true
  else s

/-- A request ends with its admission, or is sent and installed. -/
theorem exec_request (spec : RequestSpec maxLen) (draws : List (OwnedToken maxLen)) (pins : List Nat)
    (nowMs : Nat) (s : State maxLen) :
    ∃ u, (u = s ∨ u = { s with lives := s.lives.expireBackoffs nowMs }) ∧
      ((exec (request spec draws pins nowMs) s).2 = u ∨ ∃ call prior, Admitted spec call u ∧
        exec (request spec draws pins nowMs) s = exec (do
          sendCall call spec nowMs
          modify (·.commitCall (liveCall call spec prior nowMs) spec.replacing)
          armQPacing call nowMs
          pure call) ((u.replaced spec call).evictPins pins)) := by
  obtain ⟨isState, isAdmitted⟩ := admitCall_spec spec draws nowMs s
  refine ⟨_, isState, ?_⟩
  rw [Client.request, exec_bind]
  generalize exec (admitCall spec draws nowMs) s = reached at isAdmitted
  obtain ⟨_ | _ | call, u⟩ := reached
  · exact .inl rfl
  · exact .inl rfl
  dsimp only
  rw [exec_get_bind]
  generalize (if spec.refreshing = true then u.lives.get call else none) = prior
  split
  · exact .inl rfl
  · exact .inr ⟨call, prior, isAdmitted call rfl, rfl⟩

theorem Kept.request (kept : Kept n none none s) (backed : s.Backed) (spec : RequestSpec maxLen)
    (draws : List (OwnedToken maxLen)) (pins : List Nat) (nowMs : Nat) :
    Kept n none none (exec (request spec draws pins nowMs) s).2 := by
  obtain ⟨u, isState, ends⟩ := exec_request spec draws pins nowMs s
  have less : Less s u := by
    rcases isState with rfl | rfl
    · exact .refl u
    · exact .lives (outline_expireBackoffs ..) (calls_expireBackoffs ..)
  have kept := kept.less less
  have backed : u.Backed := by
    intro row member
    rw [less.inbox] at member
    have live := live_of_get (backed row member)
    rwa [← tag_congr less.outline, tag_eq, Option.isSome_map] at live
  rcases ends with ended | ⟨call, prior, admitted, sends⟩
  · rw [ended]
    exact kept
  have prepared : Prepared n spec call (u.replaced spec call) := by
    rw [State.replaced]
    split
    next replacing => exact kept.prepare_replacing admitted replacing _
    next fresh => exact kept.prepare_fresh admitted (by simpa using fresh) backed
  rw [sends]
  exact (prepared.less (.evictPins _ pins) (lives_evictPins _ pins)).send prior nowMs

/-! ### Runs -/

/-- A request is sent when every stored result belongs to a live Call, and missing blocks are asked
for when the Call is not uploading. -/
def Orderly (s : State maxLen) (input : Input maxLen) : Prop :=
  match input.event with
  | .request _ _ _ _ => s.Backed
  | .recover id _ => ∀ download, s.downloads[id]?.join = some download → NoUpload download.call s
  | _ => True

theorem Kept.step (kept : Kept n none none s) {input : Input maxLen} (orderly : Orderly s input) :
    Kept n none none (s.step input) := by
  obtain ⟨event, plans, answers⟩ := input
  have kept : Kept n none none { s with plans, answers } := kept.less { Less.refl s with }
  simp only [State.step]
  cases event with
  | request spec draws pins nowMs => exact kept.request orderly spec draws pins nowMs
  | receive peer parsed nowMs outcome => exact (keeps_receive peer parsed nowMs outcome).either kept
  | control isReset mid peer nowMs => exact kept.control isReset mid peer nowMs
  | expire nowMs => exact kept.expireClientExchanges nowMs
  | retransmit nowMs => exact kept.retransmit nowMs
  | retransmitFailed tx => exact kept.retransmitFailed tx
  | recover id nowMs => exact kept.recoverQBlock2 id nowMs orderly
  | qExpire id => exact kept.qblockGiveUp id
  | pace nowMs => exact kept.paceQBlock1 nowMs
  | take call => exact kept.takeResponse call
  | takeInto call available packet => exact kept.takeResponseInto call available packet
  | cancel call => exact kept.cancel call
  | removeAssociation peer => exact kept.removeAssociation peer
  | serve bytes dest pending accepted =>
    exact kept.less (.waiting (.serve bytes dest pending accepted) _)
  | cache bytes => exact kept.less (.waiting (.cache bytes) _)
  | supersede expected bytes => exact kept.supersede expected bytes
  | release tx => exact kept.less (.releaseTx tx)

theorem kept_new (cfg : Config) : Kept cfg.calls none none (State.new cfg : State maxLen) where
  livesLength := List.length_replicate
  inboxLength := List.length_replicate
  lives := by
    simp only [ClientLives.Single, State.new, outline, List.map_replicate]
    exact distinct_replicate_none _
  inbox := distinct_replicate_none _
  room := by
    simp [State.held, State.new, ClientLives.calls, ClientInbox.calls, List.reduceOption_replicate_none]
  exchange := by
    intro call _ found
    have absent : (ExchangeTable.new cfg.txSlots).find call.key = none := by
      rw [ExchangeTable.find, find_eq_none_iff]
      intro entry member
      simp [new] at member
    simp only [State.new, absent] at found
    cases found
  observe := by
    intro call member
    cases member
  download := by
    intro id download at_
    have member := List.mem_of_getElem? at_
    simp [State.new] at member
  upload := by
    intro upload member
    cases member
  uploads := List.nodup_nil
  owed := by
    intro call result member
    cases member

def Config.single : Config where
  calls := 1
  txSlots := 2
  slotBytes := 64
  rxSlots := 2
  rxBodies := 0
  fullResponses := false
  oscoreActive := false

def sampleToken (n : UInt8) : OwnedToken 8 := ⟨[n], by simp⟩

def samplePeer (port : UInt16) : Endpoint := ⟨List.replicate 16 0, 0, 0, port, false⟩

def sampleSpec (ty : MsgType) (port : UInt16) : RequestSpec 8 where
  dest := samplePeer port
  ty
  code := .get
  path := []
  queries := []
  payload := []
  contentFormat := none
  accept := none
  ifMatch := none
  ifNoneMatch := false
  block2 := none
  qBlock2 := false
  echo := none
  noResponse := none
  requestTag := none
  hasEtag := false
  qBlock1 := false
  observe := .off
  observeTarget := none
  deadlineMs := none
  checks := .ok ()

def sampleStaging (mid : MessageId) : Staging := ⟨some mid, 0, .ok ⟨.get, [], []⟩, true⟩

def sampleRequest (ty : MsgType) (n : UInt8) (port : UInt16) : Input 8 where
  event := .request (sampleSpec ty port) [sampleToken n] [] 0
  plans := [sampleStaging port]
  answers := []

def sampleResponse (n : UInt8) (port : UInt16) : Input 8 where
  event := .receive (samplePeer port)
    ⟨⟨1, .nonConfirmable, 1, .content, 9⟩, sampleToken n, [], [1]⟩ 5 (.refused .noBodyPools)
  plans := []
  answers := [true]

end Coaptic.Client
