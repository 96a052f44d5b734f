import Coaptic.Client.Sending

/-!
# Results that wait for their Calls

Outstanding Calls, the retired rows among them, and the inbox are tables of one capacity. The
invariant says which row backs which: an exchange, an observation, a body that is being received
or uploaded belongs to an outstanding Call whose result is not stored yet, a result that is owed
is in the inbox, and all Calls with a row of either kind fit into one table. So a result always
finds a row.
-/
namespace Coaptic.Client

open Codec Block Pending Program Slots Finset ClientInbox ClientLives

variable {maxLen : Nat}

/-! ### Calls with a row -/

def ClientInbox.calls (rows : ClientInbox maxLen) : Finset (Call maxLen) :=
  (rows.reduceOption.map (·.call)).toFinset

theorem ClientInbox.mem_calls {rows : ClientInbox maxLen} {call : Call maxLen} :
    call ∈ rows.calls ↔ ∃ row, some row ∈ rows ∧ row.call = call := by
  simp [calls, List.reduceOption_mem_iff]

theorem ClientInbox.mem_calls_iff {rows : ClientInbox maxLen} {call : Call maxLen} :
    call ∈ rows.calls ↔ (rows.row call).isSome := by
  rw [mem_calls, ← not_iff_not, Option.not_isSome_iff_eq_none, find_eq_none_iff]
  push Not
  rfl

def State.held (s : State maxLen) : Finset (Call maxLen) := s.lives.calls ∪ s.inbox.calls

def Unfinished (s : State maxLen) (call : Call maxLen) : Prop :=
  ∀ row, s.inbox.row call = some row → row.complete = false

def Awaits (s : State maxLen) (call : Call maxLen) : Prop :=
  (s.lives.tag call).isSome ∧ Unfinished s call

/-- How the rows of the client's tables back each other. Exchanges and uploads of the Call `x`,
which is being sent, and the body `y`, which is being written, are left out. -/
structure Kept (n : Nat) (x : Option (Call maxLen)) (y : Option Nat) (s : State maxLen) : Prop where
  livesLength : s.lives.length = n
  inboxLength : s.inbox.length = n
  lives : s.lives.Single
  inbox : s.inbox.Single
  room : s.held.card ≤ n
  exchange : ∀ call : Call maxLen, some call ≠ x →
    (s.exchanges.find call.key).isSome → Awaits s call
  observe : ∀ call ∈ s.observes, (s.lives.tag call).isSome
  download : ∀ (id : Nat) download, s.downloads[id]? = some (some download) → some id ≠ y →
    download.complete = false →
    (s.lives.tag download.call).isSome ∧
      ∃ row, s.inbox.row download.call = some row ∧ row.complete = false ∧ row.body = some id
  upload : ∀ upload ∈ s.uploads, some upload.call ≠ x →
    s.lives.tag upload.call = some upload.tag ∧ Unfinished s upload.call
  uploads : (s.uploads.map (·.call)).Nodup
  owed : ∀ call result, (call, result) ∈ s.owed →
    call ∉ s.observes ∧
      ∃ row, s.inbox.row call = some row ∧ row.complete = true ∧ row.result = result

variable {n : Nat} {x : Option (Call maxLen)} {y : Option Nat} {call : Call maxLen}
  {tag : Option (List UInt8)} {s t : State maxLen}

/-! ### Steps that only give things up -/

/-- `t` has no more than `s`: rows of the Calls and results stay, everything else may go. -/
structure Less (s t : State maxLen) : Prop where
  length : t.lives.length = s.lives.length
  outline : t.lives.outline = s.lives.outline
  calls : t.lives.calls ⊆ s.lives.calls
  inbox : t.inbox = s.inbox
  observes : ∀ call ∈ t.observes, call ∈ s.observes
  downloads : ∀ (id : Nat) download, t.downloads[id]? = some (some download) →
    s.downloads[id]? = some (some download)
  owed : t.owed = s.owed
  exchanges : ∀ call : Call maxLen,
    (t.exchanges.find call.key).isSome → (s.exchanges.find call.key).isSome
  uploads : t.uploads.Sublist s.uploads

theorem tag_congr (outline : t.lives.outline = s.lives.outline) (call : Call maxLen) :
    t.lives.tag call = s.lives.tag call := by
  rw [tag, tag, outline]

theorem Awaits.congr (h : Awaits s call) (outline : t.lives.outline = s.lives.outline)
    (inbox : t.inbox = s.inbox) : Awaits t call := by
  rw [Awaits, tag_congr outline, Unfinished, inbox]
  exact h

namespace Less

theorem refl (s : State maxLen) : Less s s where
  length := rfl
  outline := rfl
  calls := Finset.Subset.refl _
  inbox := rfl
  observes _ h := h
  downloads _ _ h := h
  owed := rfl
  exchanges _ h := h
  uploads := List.Sublist.refl _

theorem trans {u : State maxLen} (first : Less s t) (second : Less t u) : Less s u where
  length := second.length.trans first.length
  outline := second.outline.trans first.outline
  calls := second.calls.trans first.calls
  inbox := second.inbox.trans first.inbox
  observes call h := first.observes call (second.observes call h)
  downloads id download h := first.downloads id download (second.downloads id download h)
  owed := second.owed.trans first.owed
  exchanges call h := first.exchanges call (second.exchanges call h)
  uploads := second.uploads.trans first.uploads

theorem foldl {ι : Type} {f : State maxLen → ι → State maxLen} (items : List ι)
    (h : ∀ s i, Less s (f s i)) : Less s (items.foldl f s) :=
  List.foldlRecOn (motive := Less s) items f (refl s) fun t less i _ => less.trans (h t i)

/-- But for its own exchange and uploads, what sends datagrams of a Call only gives things up. -/
theorem beside {m : Nat} (sends : Sends call tag m s t) :
    Less s { t with exchanges := s.exchanges, uploads := s.uploads } where
  length := by simpa using congrArg List.length sends.outline
  outline := sends.outline
  calls := sends.calls
  inbox := sends.inbox
  observes _ h := sends.observes ▸ h
  downloads _ _ h := sends.downloads ▸ h
  owed := sends.owed
  exchanges _ h := h
  uploads := List.Sublist.refl _

theorem of_waits (waits : Waits s t) : Less s t where
  length := congrArg List.length waits.lives
  outline := congrArg _ waits.lives
  calls := (congrArg _ waits.lives).le
  inbox := waits.inbox
  observes _ h := waits.observes ▸ h
  downloads _ _ h := waits.downloads ▸ h
  owed := waits.owed
  exchanges _ h := waits.exchanges ▸ h
  uploads := waits.uploads ▸ List.Sublist.refl _

theorem waiting {α : Type} {p : Act maxLen α} (h : Waiting p) (s : State maxLen) :
    Less s (exec p s).2 :=
  of_waits (h s)

theorem tx (after : TxMemory) : Less s { s with tx := after } := { refl s with }

section

variable (call : Call maxLen)

theorem takeExchange : Less s (s.takeExchange call).2 :=
  { refl s with
    exchanges := by
      intro other found
      obtain ⟨entry, found⟩ := Option.isSome_iff_exists.mp found
      exact Option.isSome_iff_exists.mpr ⟨entry, find_of_takeExchange call _ _ found⟩ }

theorem takePending (messageId : MessageId) (peer : Endpoint) : Less s (s.takePending messageId peer) :=
  of_waits (.takePending messageId peer)

theorem releaseTx (tx : Nat) : Less s (s.releaseTx tx) := { refl s with }

theorem releaseTxBody (upload : Upload maxLen) : Less s (s.releaseTxBody upload) :=
  { refl s with uploads := List.erase_sublist }

theorem abandonSend : Less s (s.abandonSend call) := by
  obtain ⟨tx, abandons⟩ := abandonSend_eq call s
  rw [abandons]
  exact { refl s with
    exchanges := (takeExchange call).exchanges
    uploads := List.filter_sublist }

theorem releaseRx (rx : Nat) : Less s (s.releaseRx rx) := by
  simp only [State.releaseRx]
  split
  · exact refl s
  · exact { refl s with }

theorem takeObserve : Less s (s.takeObserve call) :=
  { refl s with observes := fun _ h => (List.mem_filter.mp h).1 }

theorem releaseRxBody (id : Nat) : Less s (s.releaseRxBody id) :=
  { refl s with
    downloads := by
      intro j download held
      obtain ⟨-, ⟨⟩⟩ | ⟨-, old⟩ := of_set held
      exact old }

/-- Rows keep their Calls and tags; what else they have is not asked. -/
theorem lives {after : ClientLives maxLen} (outline : after.outline = s.lives.outline)
    (calls : after.calls ⊆ s.lives.calls) : Less s { s with lives := after } :=
  { refl s with
    length := by simpa using congrArg List.length outline
    outline
    calls }

theorem steady {after : ClientLives maxLen} (h : s.lives.Steady after) :
    Less s { s with lives := after } :=
  lives h.outline h.calls.subset

theorem recordObservation (parsed : ParsedMessage maxLen) (nowMs : Nat) :
    Less s (s.recordObservation call parsed nowMs) :=
  steady (.recordObservation ..)

end

end Less

theorem Kept.less (kept : Kept n x y s) (less : Less s t) : Kept n x y t := by
  have tags := tag_congr less.outline
  have within : t.held ⊆ s.held := by
    rw [State.held, State.held, less.inbox]
    exact union_subset_union_left less.calls
  exact {
    livesLength := less.length.trans kept.livesLength
    inboxLength := by rw [less.inbox, kept.inboxLength]
    lives := by rw [ClientLives.Single, less.outline]; exact kept.lives
    inbox := by rw [less.inbox]; exact kept.inbox
    room := (card_le_card within).trans kept.room
    exchange := fun call other found =>
      (kept.exchange call other (less.exchanges call found)).congr less.outline less.inbox
    observe := fun call h => by
      rw [tags]
      exact kept.observe call (less.observes call h)
    download := fun id download held other incomplete => by
      rw [tags, less.inbox]
      exact kept.download id download (less.downloads id download held) other incomplete
    upload := fun upload member other => by
      rw [tags, Unfinished, less.inbox]
      exact kept.upload upload (less.uploads.subset member) other
    uploads := kept.uploads.sublist (less.uploads.map _)
    owed := fun call result member => by
      rw [less.owed] at member
      obtain ⟨unobserved, stored⟩ := kept.owed call result member
      rw [less.inbox]
      exact ⟨fun h => unobserved (less.observes call h), stored⟩ }

/-! ### Sending -/

/-- Sending for a Call keeps to what the Call may have: it awaits its result, or is exempt. An
upload is started only if the Call has none. -/
theorem Kept.sends {m : Nat} (kept : Kept n x y s) (sends : Sends call tag m s t)
    (own : some call ≠ x → Awaits s call)
    (starts : m = 0 ∨ m = 1 ∧ (∀ upload ∈ s.uploads, upload.call ≠ call) ∧
      (some call ≠ x → s.lives.tag call = some tag)) : Kept n x y t := by
  have tags := tag_congr sends.outline
  obtain ⟨started, few, isOwn, fewer⟩ := sends.uploads
  have awaits (other : Call maxLen) (h : Awaits s other) : Awaits t other :=
    h.congr sends.outline sends.inbox
  exact { kept.less (.beside sends) with
    exchange := by
      intro other exempt found
      by_cases same : other = call
      · subst same
        exact awaits other (own exempt)
      · exact awaits other (kept.exchange other exempt (sends.exchanges other same found))
    upload := by
      intro upload member exempt
      rw [tags, Unfinished, sends.inbox]
      rcases List.mem_append.mp (fewer.subset member) with new | old
      · obtain ⟨isCall, isTag⟩ := isOwn upload new
        rcases starts with zero | ⟨-, -, tagged⟩
        · rw [zero, Nat.le_zero, List.length_eq_zero_iff] at few
          rw [few] at new
          cases new
        · rw [isCall] at exempt ⊢
          exact ⟨by rw [tagged exempt, isTag], (own exempt).2⟩
      · exact kept.upload upload old exempt
    uploads := by
      have all : ((started ++ s.uploads).map (·.call)).Nodup := by
        rcases starts with zero | ⟨one, none, -⟩
        · rw [zero, Nat.le_zero, List.length_eq_zero_iff] at few
          rw [few]
          exact kept.uploads
        rw [List.map_append]
        refine List.Nodup.append ?_ kept.uploads ?_
        · -- At most one upload is new.
          match started, few with
          | [], _ => exact List.nodup_nil
          | [upload], _ => exact List.nodup_singleton _
          | _ :: _ :: _, few => simp [one] at few
        intro other new old
        obtain ⟨upload, isNew, rfl⟩ := List.mem_map.mp new
        obtain ⟨previous, isOld, same⟩ := List.mem_map.mp old
        exact none previous isOld (same.trans (isOwn upload isNew).1)
      exact all.sublist (fewer.map _) }

/-! ### Storing a result -/

theorem card_held_le (room : (Insert.insert call s.held).card ≤ n)
    (lives : t.lives.calls ⊆ Insert.insert call s.lives.calls)
    (other : ∀ k, k ≠ call → t.inbox.row k = s.inbox.row k) : t.held.card ≤ n := by
  -- every other Call has the rows that it had
  refine (card_le_card ?_).trans room
  intro k member
  by_cases same : k = call
  · rw [same]
    exact mem_insert_self _ _
  refine mem_insert_of_mem ?_
  rcases mem_union.mp member with live | row
  · exact mem_union_left _ (mem_of_mem_insert_of_ne (lives live) same)
  refine mem_union_right _ ?_
  rw [mem_calls_iff] at row ⊢
  rwa [← other k same]

namespace Kept

section

variable (kept : Kept n x y s) (held : call ∈ s.held)
include kept held

/-- One Call's row of the inbox may change when the Call has a row of either kind. -/
theorem room_of_inbox (lives : t.lives.calls ⊆ s.lives.calls)
    (other : ∀ k, k ≠ call → t.inbox.row k = s.inbox.row k) : t.held.card ≤ n := by
  refine card_held_le (s := s) ?_ (lives.trans (subset_insert _ _)) other
  rw [insert_eq_of_mem held]
  exact kept.room

/-- There is a free row for any Call that has a row of either kind, and none in the inbox. -/
theorem free (absent : s.inbox.row call = none) : ∃ i, s.inbox.findIdx? (·.isNone) = some i := by
  have within : ∀ row, some row ∈ s.inbox → row.call ∈ s.held := fun row member =>
    mem_union_right _ (mem_calls.mpr ⟨row, member, rfl⟩)
  have few : s.held.card ≤ s.inbox.length := by rw [kept.inboxLength]; exact kept.room
  exact kept.inbox.findIdx_free within few held absent

/-- There is a row for the result of any Call that has one of either kind. -/
theorem insert (result : Except CallFailure ReplyMeta) (body : Option Nat) :
    ∃ rows, s.inbox.insert call result body = (.ok ((s.inbox.row call).bind (·.body)), rows) ∧
      rows.Single ∧ rows.length = s.inbox.length ∧
      ∀ k, rows.row k = if call = k then some ⟨true, call, result, body, none⟩ else s.inbox.row k := by
  rcases kept.inbox.insert call result body with stored | ⟨-, absent, full⟩
  · exact stored
  obtain ⟨i, free⟩ := kept.free held absent
  rw [free] at full
  cases full

end

theorem held_of_tag (h : (s.lives.tag call).isSome) : call ∈ s.held :=
  mem_union_left _ (mem_calls_of_tag h)

/-- The packets that rows keep are not asked about. -/
theorem datagrams (kept : Kept n x y s) {rows : ClientInbox maxLen} (single : rows.Single)
    (length : rows.length = s.inbox.length) (same : ∀ k, ∃ f : InboxRow maxLen → Option Nat,
      rows.row k = (s.inbox.row k).map fun row => { row with datagram := f row }) :
    Kept n x y { s with inbox := rows } := by
  have calls : rows.calls = s.inbox.calls := by
    ext k
    obtain ⟨f, isRow⟩ := same k
    rw [mem_calls_iff, mem_calls_iff, isRow, Option.isSome_map]
  have unfinished (k : Call maxLen) (h : Unfinished s k) : Unfinished { s with inbox := rows } k := by
    intro row isRow
    obtain ⟨f, mapped⟩ := same k
    rw [mapped, Option.map_eq_some_iff] at isRow
    obtain ⟨old, isOld, rfl⟩ := isRow
    exact h old isOld
  exact { kept with
    inboxLength := length.trans kept.inboxLength
    inbox := single
    room := by
      simp only [State.held, calls]
      exact kept.room
    exchange := fun k other found =>
      ⟨(kept.exchange k other found).1, unfinished k (kept.exchange k other found).2⟩
    download := by
      intro id download held other incomplete
      obtain ⟨live, row, isRow, partly, isBody⟩ := kept.download id download held other incomplete
      obtain ⟨f, mapped⟩ := same download.call
      exact ⟨live, { row with datagram := f row }, by rw [mapped, isRow, Option.map_some], partly,
        isBody⟩
    upload := fun upload member other =>
      ⟨(kept.upload upload member other).1, unfinished _ (kept.upload upload member other).2⟩
    owed := by
      intro k result member
      obtain ⟨unobserved, row, isRow, complete, isResult⟩ := kept.owed k result member
      obtain ⟨f, mapped⟩ := same k
      exact ⟨unobserved, { row with datagram := f row }, by rw [mapped, isRow, Option.map_some],
        complete, isResult⟩ }

end Kept

theorem releaseDatagram_eq (s : State maxLen) (call : Call maxLen) :
    ∃ rx, s.releaseDatagram call = { s with rx, inbox := (s.inbox.takeDatagram call).2 } := by
  simp only [State.releaseDatagram]
  split
  · exact ⟨s.rx, rfl⟩
  simp only [State.releaseRx]
  split
  · exact ⟨s.rx, rfl⟩
  · exact ⟨_, rfl⟩

/-- Releasing the packet of a row changes nothing else in the inbox. -/
theorem takeDatagram_rows (single : s.inbox.Single) (call k : Call maxLen) :
    ∃ f : InboxRow maxLen → Option Nat, (s.inbox.takeDatagram call).2.row k =
      (s.inbox.row k).map fun row => { row with datagram := f row } := by
  rw [(single.takeDatagram call).2.2 k]
  split
  · exact ⟨fun _ => none, rfl⟩
  · exact ⟨InboxRow.datagram, by simp⟩

namespace Kept

theorem releaseDatagram (kept : Kept n x y s) (call : Call maxLen) :
    Kept n x y (s.releaseDatagram call) := by
  obtain ⟨rx, isState⟩ := releaseDatagram_eq s call
  obtain ⟨single, length, -⟩ := kept.inbox.takeDatagram call
  rw [isState]
  exact { kept.datagrams single length (takeDatagram_rows kept.inbox call) with }

/-- Storing a result writes the Call's row, and releases the body that the row had before. -/
theorem complete_spec (kept : Kept n x y s) (held : call ∈ s.held)
    (result : Except CallFailure ReplyMeta) (body : Option Nat) : ∃ rx inbox downloads,
      (s.releaseDatagram call).complete call result body = { s with rx, inbox, downloads } ∧
      ClientInbox.Single inbox ∧ inbox.length = s.inbox.length ∧
      (∀ k, ClientInbox.row inbox k =
        if call = k then some ⟨true, call, result, body, none⟩ else s.inbox.row k) ∧
      ∀ (id : Nat) download, downloads[id]? = some (some download) →
        s.downloads[id]? = some (some download) ∧
          ((s.inbox.row call).bind (·.body) = some id → some id = body) := by
  have heldAfter : call ∈ (s.releaseDatagram call).held := by
    obtain ⟨rx, isState⟩ := releaseDatagram_eq s call
    obtain ⟨f, isRow⟩ := takeDatagram_rows kept.inbox call call
    rw [isState]
    simp only [State.held, mem_union, mem_calls_iff] at held ⊢
    rwa [isRow, Option.isSome_map]
  obtain ⟨rows, inserted, single, length, isRow⟩ :=
    (kept.releaseDatagram call).insert heldAfter result body
  obtain ⟨rx, isState⟩ := releaseDatagram_eq s call
  rw [isState] at inserted length isRow ⊢
  simp only at inserted length isRow
  have body_eq : ((s.inbox.takeDatagram call).2.row call).bind (·.body) =
      (s.inbox.row call).bind (·.body) := by
    obtain ⟨f, mapped⟩ := takeDatagram_rows kept.inbox call call
    rw [mapped, Option.bind_map]
    rfl
  have rows_eq (k : Call maxLen) : rows.row k =
      if call = k then some ⟨true, call, result, body, none⟩ else s.inbox.row k := by
    rw [isRow k]
    split
    · rfl
    next other => rw [(kept.inbox.takeDatagram call).2.2 k, if_neg other]
  have length_eq := length.trans (kept.inbox.takeDatagram call).2.1
  simp only [State.complete, inserted, body_eq]
  cases previous : (s.inbox.row call).bind (·.body) with
  | none =>
    exact ⟨rx, rows, s.downloads, rfl, single, length_eq, rows_eq, fun id download at_ => ⟨at_, nofun⟩⟩
  | some old =>
  dsimp only
  split
  next same =>
    refine ⟨rx, rows, s.downloads, rfl, single, length_eq, rows_eq, fun id download at_ => ⟨at_, ?_⟩⟩
    rintro ⟨⟩
    exact same
  next other =>
  refine ⟨rx, rows, _, rfl, single, length_eq, rows_eq, fun id download at_ => ?_⟩
  obtain ⟨-, ⟨⟩⟩ | ⟨there, old⟩ := of_set at_
  exact ⟨old, fun same => absurd (Option.some.inj same) there⟩

/-- The Call's upload is the one that is found for it. -/
theorem uploadBody (kept : Kept n none y s) (call : Call maxLen) :
    (s.uploadBody call = none ∧ ∀ upload ∈ s.uploads, upload.call ≠ call) ∨
      ∃ upload, s.uploadBody call = some upload ∧ upload ∈ s.uploads ∧ upload.call = call ∧
        ∀ other ∈ s.uploads.erase upload, other.call ≠ call := by
  cases found : s.uploadBody call with
  | none =>
    refine .inl ⟨rfl, ?_⟩
    rintro upload member rfl
    have tagged := (kept.upload upload member nofun).1
    rw [tag_eq, Option.map_eq_some_iff] at tagged
    obtain ⟨live, isLive, isTag⟩ := tagged
    simp only [State.uploadBody, isLive, Option.bind_some, isTag, Option.or_eq_none_iff,
      List.find?_eq_none, decide_eq_true_eq] at found
    obtain ⟨classic, quick⟩ := found
    cases kind : upload.q with
    | false => exact classic upload member (by rw [← kind])
    | true => exact quick upload member (by rw [← kind])
  | some upload =>
  have member : upload ∈ s.uploads ∧ upload.call = call := by
    simp only [State.uploadBody, Option.or_eq_some_iff] at found
    rcases found with found | ⟨-, found⟩
    all_goals
      have isUpload := List.find?_some found
      rw [decide_eq_true_eq] at isUpload
      exact ⟨List.mem_of_find?_eq_some found, by rw [isUpload]⟩
  refine .inr ⟨upload, rfl, member.1, member.2, ?_⟩
  intro other inRest same
  -- Two uploads of one Call would be two members with one key.
  have perm := (List.perm_cons_erase member.1).map (·.call)
  have nodup := perm.nodup_iff.mp kept.uploads
  rw [List.map_cons, List.nodup_cons] at nodup
  exact nodup.1 (List.mem_map.mpr ⟨other, inRest, same.trans member.2.symm⟩)

end Kept

/-! ### Ends of a Call -/

section

variable (s : State maxLen) (call : Call maxLen)

theorem steady_disarm : s.lives.Steady (s.disarm call).lives := by
  apply ClientLives.Steady.map
  intro row
  split <;> rfl

/-- The state in which a Call's failure is stored: it has no exchange and observes nothing. -/
def State.detached (tx : TxMemory) : State maxLen :=
  { s with
    tx
    exchanges := (s.exchanges.take call.key).2
    observes := s.observes.filter (· ≠ call) }

theorem releaseRequest_eq (entry : ExchangeEntry maxLen) :
    ∃ tx, s.releaseRequest entry = { s with tx } := by
  simp only [State.releaseRequest]
  split
  · split
    · exact ⟨_, rfl⟩
    · exact ⟨_, rfl⟩
  · exact takePending_eq s entry.messageId entry.key.endpoint

theorem failCall_eq (failure : CallFailure) (releasePending : Bool) :
    ∃ tx, s.failCall call failure releasePending =
      ((((((s.detached call tx).releaseDatagram call).complete call (.error failure) none).releaseDownloads
        call).releaseUpload call).disarm call).owe call (.error failure) := by
  simp only [State.failCall]
  split
  next entry _ =>
    split
    · obtain ⟨tx, isState⟩ := releaseRequest_eq (s.takeExchange call).2 entry
      refine ⟨tx, ?_⟩
      rw [isState]
      rfl
    · exact ⟨s.tx, rfl⟩
  · exact ⟨s.tx, rfl⟩

theorem Less.detached (tx : TxMemory) : Less s (s.detached call tx) :=
  (((Less.refl s).trans (.takeExchange call)).trans (.takeObserve call)).trans (.tx tx)

theorem detached_find (tx : TxMemory) : (s.detached call tx).exchanges.find call.key = none := by
  rw [State.detached, (s.exchanges.take_spec call.key).2, if_pos rfl]

/-- A result is stored in the row of the Call, and bodies may go. -/
theorem complete_eq (result : Except CallFailure ReplyMeta) (body : Option Nat) :
    ∃ downloads, s.complete call result body =
      { s with inbox := (s.inbox.insert call result body).2, downloads } := by
  simp only [State.complete]
  split
  next inserted =>
    rw [inserted]
    split
    · split
      · exact ⟨_, rfl⟩
      · exact ⟨_, rfl⟩
    · exact ⟨_, rfl⟩
  next inserted =>
  rw [inserted]
  split
  · exact ⟨_, rfl⟩
  · exact ⟨_, rfl⟩

theorem releaseUpload_eq : s.releaseUpload call = { s with
      uploads := (s.uploadBody call).elim s.uploads s.uploads.erase } := by
  simp only [State.releaseUpload]
  cases s.uploadBody call with
  | none => rfl
  | some upload => rfl

end

/-- A result of the Call is stored in `row`, and nothing of its request is left. -/
structure Stores (call : Call maxLen) (row : InboxRow maxLen) (y : Option Nat) (s t : State maxLen) :
    Prop where
  complete : row.complete = true
  lives : s.lives.Steady t.lives
  single : t.inbox.Single
  length : t.inbox.length = s.inbox.length
  rows : ∀ k, t.inbox.row k = if call = k then some row else s.inbox.row k
  absent : Absent call t
  exchanges : ∀ k : Call maxLen, (t.exchanges.find k.key).isSome → (s.exchanges.find k.key).isSome
  observes : ∀ k ∈ t.observes, k ∈ s.observes
  downloads : ∀ (id : Nat) download, t.downloads[id]? = some (some download) →
    download.complete = false →
      s.downloads[id]? = some (some download) ∧ some id ≠ y ∧ download.call ≠ call
  uploads : t.uploads.Sublist s.uploads
  owed : ∀ k result, (k, result) ∈ t.owed →
    k = call ∧ result = row.result ∧ call ∉ t.observes ∨ k ≠ call ∧ (k, result) ∈ s.owed

theorem Kept.stored {row : InboxRow maxLen} (kept : Kept n none y s) (held : call ∈ s.held)
    (stores : Stores call row y s t) : Kept n none none t := by
  have other (k : Call maxLen) (ne : k ≠ call) : t.inbox.row k = s.inbox.row k := by
    rw [stores.rows k, if_neg ne.symm]
  have unfinished (k : Call maxLen) (ne : k ≠ call) (h : Unfinished s k) : Unfinished t k := by
    rw [Unfinished, other k ne]
    exact h
  have tags (k : Call maxLen) := tag_congr stores.lives.outline k
  exact {
    livesLength := stores.lives.length.trans kept.livesLength
    inboxLength := stores.length.trans kept.inboxLength
    lives := by
      have := kept.lives
      rwa [ClientLives.Single, ← stores.lives.outline] at this
    inbox := stores.single
    room := kept.room_of_inbox held stores.lives.calls.subset other
    exchange := by
      intro k _ found
      have ne : k ≠ call := by
        rintro rfl
        rw [show t.exchanges.find k.key = none from stores.absent.1] at found
        cases found
      have awaits := kept.exchange k (by simp) (stores.exchanges k found)
      exact ⟨(tags k).symm ▸ awaits.1, unfinished k ne awaits.2⟩
    observe := fun k member => (tags k).symm ▸ kept.observe k (stores.observes k member)
    download := by
      intro id download at_ _ incomplete
      obtain ⟨at_, notWritten, ne⟩ := stores.downloads id download at_ incomplete
      obtain ⟨live, row, isRow, rest⟩ := kept.download id download at_ notWritten incomplete
      exact ⟨(tags _).symm ▸ live, row, (other _ ne).trans isRow, rest⟩
    upload := by
      intro upload member _
      obtain ⟨live, awaits⟩ := kept.upload upload (stores.uploads.subset member) (by simp)
      exact ⟨(tags _).symm ▸ live, unfinished _ (stores.absent.2 upload member) awaits⟩
    uploads := kept.uploads.sublist (stores.uploads.map _)
    owed := by
      intro k result member
      obtain ⟨rfl, rfl, unobserved⟩ | ⟨ne, old⟩ := stores.owed k result member
      · exact ⟨unobserved, row, (stores.rows k).trans (if_pos rfl), stores.complete, rfl⟩
      obtain ⟨unobserved, row, isRow, rest⟩ := kept.owed k result old
      exact ⟨fun observing => unobserved (stores.observes k observing), row,
        (other k ne).trans isRow, rest⟩ }

/-- Ending a Call stores its failure, whatever the Call was doing. -/
theorem Kept.failCall (kept : Kept n none y s) (held : call ∈ s.held)
    (writes : ∀ (id : Nat) download, y = some id → s.downloads[id]? = some (some download) →
      download.call = call) (failure : CallFailure) (releasePending : Bool) :
    Kept n none none (s.failCall call failure releasePending) := by
  obtain ⟨tx, isState⟩ := failCall_eq s call failure releasePending
  have less := Less.detached s call tx
  have before := kept.less less
  obtain ⟨rx, inbox, downloads, stored, single, length, isRow, fewer⟩ :=
    before.complete_spec held (.error failure) none
  have uploads : let uploads := ((s.detached call tx).uploadBody call).elim s.uploads s.uploads.erase
      uploads.Sublist s.uploads ∧ ∀ upload ∈ uploads, upload.call ≠ call := by
    rcases before.uploadBody call with ⟨none, other⟩ | ⟨own, found, -, -, other⟩
    · rw [none]
      exact ⟨.refl _, other⟩
    · rw [found]
      exact ⟨List.erase_sublist, other⟩
  rw [isState, stored, releaseUpload_eq]
  refine kept.stored held {
    complete := rfl
    lives := steady_disarm s call
    single
    length
    rows := isRow
    absent := ⟨detached_find s call tx, uploads.2⟩
    exchanges := less.exchanges
    observes := less.observes
    downloads := ?_
    uploads := uploads.1
    owed := ?_ }
  · intro id download at_ _
    simp only [State.releaseDownloads, State.owe, State.disarm, List.getElem?_map,
      Option.map_eq_some_iff] at at_
    obtain ⟨slot, at_, kept'⟩ := at_
    obtain ⟨rfl, ne⟩ := Option.filter_eq_some_iff.mp kept'
    have ne : download.call ≠ call := by simpa using ne
    have at_ := (fewer id download at_).1
    exact ⟨at_, fun same => ne (writes id download same.symm at_), ne⟩
  · intro k result member
    rcases List.mem_cons.mp member with new | old
    · cases new
      refine .inl ⟨rfl, rfl, fun observing => ?_⟩
      simpa using (List.mem_filter.mp observing).2
    obtain ⟨old, ne⟩ := List.mem_filter.mp old
    exact .inr ⟨by simpa using ne, old⟩

section

variable (s : State maxLen) (call : Call maxLen) (failure : CallFailure) (releasePending : Bool)

theorem failCall_frame : ∃ tx rx inbox downloads uploads, s.failCall call failure releasePending =
    { ((s.detached call tx).disarm call).owe call (.error failure) with
      rx, inbox, downloads, uploads } := by
  obtain ⟨tx, isState⟩ := failCall_eq s call failure releasePending
  obtain ⟨rx, released⟩ := releaseDatagram_eq (s.detached call tx) call
  obtain ⟨downloads, completed⟩ :=
    complete_eq ((s.detached call tx).releaseDatagram call) call (.error failure) none
  rw [isState, completed, released, releaseUpload_eq]
  exact ⟨tx, rx, _, _, _, rfl⟩

/-- Ending a Call leaves the rows of the Calls where they are. -/
theorem failCall_lives :
    (s.failCall call failure releasePending).lives = (s.disarm call).lives := by
  obtain ⟨tx, rx, inbox, downloads, uploads, isState⟩ := failCall_frame s call failure releasePending
  rw [isState]
  rfl

theorem failCall_owed : (call, .error failure) ∈ (s.failCall call failure releasePending).owed := by
  obtain ⟨tx, rx, inbox, downloads, uploads, isState⟩ := failCall_frame s call failure releasePending
  rw [isState]
  exact List.mem_cons_self

end

def Unowed (s : State maxLen) (call : Call maxLen) : Prop := ∀ result, (call, result) ∉ s.owed

namespace Kept

theorem unowed_of_awaits (kept : Kept n x y s) (awaits : Awaits s call) : Unowed s call := by
  intro result member
  obtain ⟨-, row, isRow, complete, -⟩ := kept.owed call result member
  rw [awaits.2 row isRow] at complete
  cases complete

theorem unowed_of_observe (kept : Kept n x y s) (observing : call ∈ s.observes) : Unowed s call :=
  fun result member => (kept.owed call result member).1 observing

/-- A Call that is outstanding may start to observe. -/
theorem subscribe (kept : Kept n x y s) (live : (s.lives.tag call).isSome) (unowed : Unowed s call) :
    Kept n x y { s with observes := call :: s.observes } :=
  { kept with
    observe := by
      intro k member
      rcases List.mem_cons.mp member with rfl | old
      · exact live
      · exact kept.observe k old
    owed := by
      intro k result member
      obtain ⟨unobserved, stored⟩ := kept.owed k result member
      refine ⟨?_, stored⟩
      intro observing
      rcases List.mem_cons.mp observing with rfl | old
      · exact unowed result member
      · exact unobserved old }

/-- A reply is stored when nothing else of its request is left. The body that was written with it
is complete. -/
theorem storeReply (kept : Kept n none y s) (live : (s.lives.tag call).isSome)
    (absent : Absent call s) (unowed : Unowed s call)
    (written : ∀ (id : Nat) download, y = some id → s.downloads[id]? = some (some download) →
      download.complete = true) (reply : ReplyMeta) :
    Kept n none none (s.storeReply call reply y) := by
  have held := held_of_tag live
  obtain ⟨rx, inbox, downloads, stored, single, length, isRow, fewer⟩ :=
    kept.complete_spec held (.ok reply) y
  have stores : Stores call ⟨true, call, .ok reply, y, none⟩ y s { s with rx, inbox, downloads } := {
    complete := rfl
    lives := .refl _
    single
    length
    rows := isRow
    absent
    exchanges := fun _ found => found
    observes := fun _ member => member
    downloads := by
      intro id download at_ incomplete
      obtain ⟨at_, replaced⟩ := fewer id download at_
      have notWritten : some id ≠ y := by
        intro same
        rw [written id download same.symm at_] at incomplete
        cases incomplete
      refine ⟨at_, notWritten, ?_⟩
      rintro rfl
      obtain ⟨-, row, isRow', -, isBody⟩ := kept.download id download at_ notWritten incomplete
      exact notWritten (replaced (by rw [isRow', Option.bind_some, isBody]))
    uploads := .refl _
    owed := by
      intro k result member
      refine .inr ⟨?_, member⟩
      rintro rfl
      exact unowed result member }
  simp only [State.storeReply, stored]
  split
  · exact kept.stored held stores
  next final =>
  -- The Call observes nothing: this was its last reply.
  have unobserved : call ∉ s.observes := by
    simpa [State.clientObserveLive] using final
  refine kept.stored held { stores with owed := ?_ }
  intro k result member
  rcases List.mem_cons.mp member with new | old
  · cases new
    exact .inl ⟨rfl, rfl, unobserved⟩
  · exact stores.owed k result (List.mem_filter.mp old).1

/-! ### Collecting a result -/

/-- The row of a Call whose result is stored is not needed any more, if the Call observes nothing. -/
theorem drop (kept : Kept n none y s) {row : InboxRow maxLen} (stored : s.inbox.row call = some row)
    (complete : row.complete = true) (unobserved : call ∉ s.observes) {lives : ClientLives maxLen}
    (single : lives.Single) (length : lives.length = s.lives.length)
    (calls : lives.calls ⊆ s.lives.calls)
    (tags : ∀ k, k ≠ call → lives.tag k = s.lives.tag k) : Kept n none y { s with lives } := by
  have unfinished (k : Call maxLen) (h : Unfinished s k) : k ≠ call := by
    rintro rfl
    rw [h row stored] at complete
    cases complete
  exact { kept with
    livesLength := length.trans kept.livesLength
    lives := single
    room := (card_le_card (union_subset_union_left calls)).trans kept.room
    exchange := by
      intro k _ found
      have awaits := kept.exchange k nofun found
      exact ⟨by rw [tags k (unfinished k awaits.2)]; exact awaits.1, awaits.2⟩
    observe := by
      intro k member
      have ne : k ≠ call := by
        rintro rfl
        exact unobserved member
      rw [tags k ne]
      exact kept.observe k member
    download := by
      intro id download at_ other incomplete
      obtain ⟨live, partly, isRow, rest⟩ := kept.download id download at_ other incomplete
      have ne : download.call ≠ call := by
        intro same
        rw [same, stored] at isRow
        cases isRow
        rw [rest.1] at complete
        cases complete
      exact ⟨by rw [tags _ ne]; exact live, partly, isRow, rest⟩
    upload := by
      intro upload member _
      obtain ⟨live, awaits⟩ := kept.upload upload member nofun
      exact ⟨by rw [tags _ (unfinished _ awaits)]; exact live, awaits⟩ }

/-- A result that is collected leaves the inbox. -/
theorem taken (kept : Kept n none y s) :
    Kept n none y (({ s with inbox := (s.inbox.take call).2 }).settle call) := by
  obtain ⟨-, single, length, isRow⟩ := kept.inbox.take call
  have rows (k : Call maxLen) (row : InboxRow maxLen) (h : (s.inbox.take call).2.row k = some row) :
      s.inbox.row k = some row := by
    rw [isRow k] at h
    split at h
    · exact (Option.filter_eq_some_iff.mp h).1
    · exact h
  have partly (k : Call maxLen) (row : InboxRow maxLen) (h : s.inbox.row k = some row)
      (incomplete : row.complete = false) : (s.inbox.take call).2.row k = some row := by
    rw [isRow k]
    split
    · rw [h]
      simp [Option.filter, incomplete]
    · exact h
  exact { kept with
    inboxLength := length.trans kept.inboxLength
    inbox := single
    room := by
      refine (card_le_card (union_subset_union_right ?_)).trans kept.room
      intro k member
      rw [mem_calls_iff] at member ⊢
      obtain ⟨row, isRow⟩ := Option.isSome_iff_exists.mp member
      exact Option.isSome_iff_exists.mpr ⟨row, rows k row isRow⟩
    exchange := fun k other found =>
      ⟨(kept.exchange k other found).1, fun row h => (kept.exchange k other found).2 row (rows k row h)⟩
    download := by
      intro id download at_ other incomplete
      obtain ⟨live, row, isRow, rest⟩ := kept.download id download at_ other incomplete
      exact ⟨live, row, partly _ row isRow rest.1, rest⟩
    upload := fun upload member other =>
      ⟨(kept.upload upload member other).1,
        fun row h => (kept.upload upload member other).2 row (rows _ row h)⟩
    owed := by
      intro k result member
      obtain ⟨member, ne⟩ := List.mem_filter.mp member
      have ne : call ≠ k := by
        rintro rfl
        simp at ne
      obtain ⟨unobserved, row, isRow', rest⟩ := kept.owed k result member
      exact ⟨unobserved, row, (isRow k).trans ((if_neg ne).trans isRow'), rest⟩ }

/-- Collecting the stored result of a Call, with the Call's row if the Call observes nothing. -/
theorem collect (kept : Kept n none y s) {row : InboxRow maxLen} (stored : s.inbox.row call = some row)
    (complete : row.complete = true) (result : State maxLen)
    (isResult : result = { s with inbox := (s.inbox.take call).2 }) : Kept n none y
      ((if result.clientObserveLive call then result else
        { result with lives := result.lives.remove call }).settle call) := by
  subst isResult
  split
  · exact kept.taken
  next final =>
  have unobserved : call ∉ s.observes := by
    simpa [State.clientObserveLive] using final
  obtain ⟨single, length, calls, tags⟩ := kept.lives.remove call
  have dropped := kept.drop stored complete unobserved single length calls
    fun k ne => by rw [tags k, if_neg ne.symm]
  exact dropped.taken

theorem takeResponse (kept : Kept n none none s) (call : Call maxLen) :
    Kept n none none (s.takeResponse call).2 := by
  have released := kept.releaseDatagram call
  simp only [State.takeResponse]
  generalize s.releaseDatagram call = r at released ⊢
  split
  · exact released
  next row rows found =>
  have isRow : (r.inbox.row call).filter (·.complete) = some row := by
    rw [← (released.inbox.take call).1, found]
  obtain ⟨stored, complete⟩ := Option.filter_eq_some_iff.mp isRow
  have collected := released.collect stored complete { r with inbox := rows } (by rw [found])
  dsimp only at collected
  generalize State.settle _ call = settled at collected ⊢
  split
  · exact collected
  next id _ =>
  split
  · exact collected.less (.releaseRxBody id)
  · exact collected.less (.releaseRxBody id)

theorem takeResponseInto (kept : Kept n none none s) (call : Call maxLen) (available : Nat)
    (packet : Option (List UInt8)) :
    Kept n none none (s.takeResponseInto call available packet).2 := by
  simp only [State.takeResponseInto]
  split
  · exact kept
  next row found =>
  rw [kept.inbox.completed call] at found
  obtain ⟨stored, complete⟩ := Option.filter_eq_some_iff.mp found
  split
  · exact kept
  have released := kept.releaseDatagram call
  obtain ⟨f, mapped⟩ := takeDatagram_rows kept.inbox call call
  have stored' : (s.releaseDatagram call).inbox.row call =
      some { row with datagram := f row } := by
    obtain ⟨rx, isState⟩ := releaseDatagram_eq s call
    rw [isState]
    rw [stored, Option.map_some] at mapped
    exact mapped
  cases row.body with
  | none => exact released.collect stored' complete _ rfl
  | some id => exact (released.less (.releaseRxBody id)).collect stored' complete _ rfl

end Kept

end Coaptic.Client
