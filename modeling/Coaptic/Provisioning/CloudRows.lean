import Coaptic.Provisioning.CloudRuns

/-!
# Rows of a shared listener

A property of single rows survives a call when every way in which a row changes keeps it. Of the
tables themselves, most calls only drop rows; one opens a handshake, and one moves it on.
-/
namespace Coaptic.Provisioning

open Codec Slots Option List

variable {prim : Primitives} {edhoc : Edhoc prim} {ε : Type}

namespace CloudAdmission

/-- A property of every provisional handshake, and one of every retained one. -/
structure Rows (P : Pending edhoc → Prop) (R : Retained → Prop) (s : CloudAdmission edhoc) : Prop where
  pending : ∀ i p, Slots.row s.pending i = some p → P p
  retained : ∀ i r, Slots.row s.retained i = some r → R r

namespace Rows

variable {P : Pending edhoc → Prop} {R : Retained → Prop} {s t : CloudAdmission edhoc}
  {bytes : List UInt8} {endpoint : UdpEndpoint} {now : Nat} {registry : AdmissionRegistry prim}

theorem of_eq (rows : Rows P R s) (pending : t.pending = s.pending)
    (retained : t.retained = s.retained) : Rows P R t := by
  constructor
  · rw [pending]
    exact rows.pending
  · rw [retained]
    exact rows.retained

variable {i : Nat}

theorem set_pending (rows : Rows P R s) {p : Pending edhoc} (kept : P p)
    (pending : t.pending = s.pending.set i (some p)) (retained : t.retained = s.retained) :
    Rows P R t := by
  constructor
  · intro j q held
    obtain ⟨-, ⟨⟩⟩ | old := of_row_set (pending ▸ held)
    · exact kept
    · exact rows.pending j q old
  · rw [retained]
    exact rows.retained

theorem set_retained (rows : Rows P R s) {r : Retained} (kept : R r)
    (pending : t.pending = s.pending) (retained : t.retained = s.retained.set i (some r)) :
    Rows P R t := by
  constructor
  · rw [pending]
    exact rows.pending
  intro j q held
  obtain ⟨-, ⟨⟩⟩ | old := of_row_set (retained ▸ held)
  · exact kept
  · exact rows.retained j q old

theorem halt (rows : Rows P R s) (hp : ∀ p, P p → P' p.halt) (hr : ∀ r, R r → R' r.halt) :
    Rows P' R' s.halt := by
  constructor
  · intro i p held
    simp only [CloudAdmission.halt, row_map_map, map_eq_some_iff] at held
    obtain ⟨q, before, rfl⟩ := held
    exact hp q (rows.pending i q before)
  intro i r held
  simp only [CloudAdmission.halt, row_map_map, map_eq_some_iff] at held
  obtain ⟨q, before, rfl⟩ := held
  exact hr q (rows.retained i q before)

theorem upkept (rows : Rows P R s) (hp : ∀ p p', P p → p.maintain now registry = some p' → P' p')
    (hr : ∀ r r', R r → r.maintain now registry = some r' → R' r') :
    Rows P' R' (s.upkept now registry) := by
  constructor
  · intro i p' held
    rw [upkept_pending, row_map_bind, bind_eq_some_iff] at held
    obtain ⟨p, before, kept⟩ := held
    exact hp p p' (rows.pending i p before) kept
  intro i r' held
  rw [upkept_retained, row_map_bind, bind_eq_some_iff] at held
  obtain ⟨r, before, kept⟩ := held
  exact hr r r' (rows.retained i r before) kept

theorem tended (rows : Rows P R s) (changed : Tended s t) (hp : ∀ p p', P p → p.Tended p' → P p')
    (hr : ∀ r r', R r → r.Tended r' → R r') : Rows P R t := by
  constructor
  · intro i p' held
    have related := changed.pending i
    rw [held] at related
    generalize before : row s.pending i = o at related
    cases related with
    | some one => exact hp _ p' (rows.pending i _ before) one
  intro i r' held
  have related := changed.retained i
  rw [held] at related
  generalize before : row s.retained i = o at related
  cases related with
  | some one => exact hr _ r' (rows.retained i _ before) one

/-- What a property of rows has to survive when a datagram comes in. -/
structure Ingests (s : CloudAdmission edhoc) (bytes : List UInt8) (endpoint : UdpEndpoint)
    (now : Nat) (registry : AdmissionRegistry prim) (P : Pending edhoc → Prop)
    (R : Retained → Prop) : Prop where
  replays : ∀ p ys final, P p → p.endpoint = endpoint →
    Replays p.exchanges p.finalError bytes ys final →
    P { p with exchanges := ys, finalError := final }
  errs : ∀ i p wire parsed code, Slots.row s.pending i = some p → P p → p.endpoint = endpoint →
    wire.bytes = bytes → Pending.handsOff p = true →
    lateError bytes p.localId = some (parsed, code) →
    P (p.late wire parsed code (now + exchangeLifetimeMs))
  opens : ∀ n peerId responder reply, s.nextId ≤ n → reply.response.isSome = true →
    reply.expires = now + exchangeLifetimeMs →
    P (opened (counterId n) peerId endpoint responder reply (now + exchangeLifetimeMs))
  refuses : ∀ i p x, Slots.row s.pending i = some p → P p → p.responder.isSome = true →
    x.request.bytes = bytes → x.response.isSome = true → x.notice.isSome = true →
    x.expires = now + exchangeLifetimeMs →
    P { p with
        responder := none
        exchanges := { p.exchanges with second := some x }
        expires := max p.expires (now + exchangeLifetimeMs) }
  completes : ∀ i p x session reference grant, Slots.row s.pending i = some p → P p →
    p.responder.isSome = true → x.request.bytes = bytes → x.response.isSome = true →
    x.notice = none → x.expires = now + exchangeLifetimeMs →
    authorize s.identity registry reference session.principal = some grant →
    P { p with
        responder := none
        ready := some ⟨session, ⟨p.localId, p.peerId, p.endpoint, reference, grant⟩⟩
        exchanges := { p.exchanges with second := some x }
        expires := now + exchangeLifetimeMs }
  retainedReplays : ∀ r ys final, R r → r.association.endpoint = endpoint →
    Replays r.exchanges r.finalError bytes ys final →
    R { r with exchanges := ys, finalError := final }
  retainedErrs : ∀ r wire parsed code, R r → r.association.endpoint = endpoint →
    wire.bytes = bytes → R (r.late wire parsed code (now + exchangeLifetimeMs))

theorem received {result : Ingested edhoc ε} (rows : Rows P R s)
    (received : Received s bytes endpoint now registry result)
    (keeps : Ingests s bytes endpoint now registry P R) : Rows P R result.state := by
  cases received with
  | ignored spent | challenged spent => exact rows.of_eq spent.pending spent.retained
  | exhausted spent allocation =>
    have same := (allocateId_cases allocation).1
    refine rows.of_eq ?_ ?_
    · rw [same]
      exact spent.pending
    · rw [same]
      exact spent.retained
  | @pending t wire parsed i p p' status spent copied read held from_ answered =>
    refine rows.set_pending ?_ rfl spent.retained
    have before := rows.pending i p held
    obtain ⟨-, rfl⟩ | ⟨-, ys, final, replays, rfl⟩ | ⟨-, finished, sent, -, parsed, code, late, rfl, -⟩ :=
      Pending.answer_cases answered
    · exact before
    · exact keeps.replays p ys final before from_ (copied ▸ replays)
    · refine keeps.errs i p wire parsed code held before from_ copied ?_ (copied ▸ late)
      simp [Pending.handsOff, finished, sent]
  | @retained t wire parsed i r r' status spent copied read held from_ answered =>
    refine rows.set_retained ?_ spent.pending rfl
    have before := rows.retained i r held
    obtain ⟨-, rfl⟩ | ⟨-, ys, final, replays, rfl⟩ | ⟨-, -, parsed, code, late, rfl, -⟩ :=
      Retained.answer_cases answered
    · exact before
    · exact keeps.retainedReplays r ys final before from_ (copied ▸ replays)
    · exact keeps.retainedErrs r wire parsed code before from_ copied
  | @opened t u n slot parsed value localId peerId responder reply spent read echoed unused valid free
      inside alone room allocation request under some_ expires computed =>
    obtain ⟨same, -, failed | ⟨m, from_, -, -, ok, -⟩⟩ := allocateId_cases allocation
    · cases failed.1
    cases ok
    have first : s.nextId ≤ m := by
      rw [spent.same] at from_
      exact from_
    refine rows.set_pending (keeps.opens m peerId responder reply first some_ expires) rfl ?_
    rw [same]
    exact spent.retained
  | @advanced t n slot wire parsed p p' responder events status spent copied read unused held from_
      waits advance computed once =>
    refine rows.set_pending ?_ rfl spent.retained
    have before := rows.pending slot p held
    have identity : t.identity = s.identity := by rw [spent.same]
    have waiting : p.responder.isSome = true := by rw [waits]; rfl
    cases advance with
    | refused request under reply noticed expires computed =>
      exact keeps.refuses slot p _ held before waiting (by rw [request, copied]) reply
        (by rw [noticed]; rfl) expires
    | complete request under reply silent expires allowed =>
      exact keeps.completes slot p _ _ _ _ held before waiting (by rw [request, copied]) reply silent
        expires (identity ▸ allowed)

theorem handed {result : Except (CloudError ε) (Option AdmittedSession) × CloudAdmission edhoc}
    (rows : Rows P R s) (handed : Handed s registry result)
    (silences : ∀ p, P p → P { p with ready := none, exchanges := p.exchanges.disable })
    (hands : ∀ p ready, P p → p.ready = some ready →
      R ⟨ready.association, p.exchanges, p.expires, p.finalError, true⟩) :
    Rows P R result.2 := by
  cases handed with
  | nothing => exact rows
  | refused held finished =>
    exact rows.set_pending (silences _ (rows.pending _ _ held)) rfl rfl
  | @taken slot activeSlot cacheSlot p ready trust held finished =>
  have cleared : Rows P R { s with pending := s.pending.set slot none } := by
    refine ⟨?_, rows.retained⟩
    intro j q held'
    obtain ⟨-, ⟨⟩⟩ | old := of_row_set held'
    exact rows.pending j q old
  exact cleared.set_retained (hands p ready (rows.pending _ _ held) finished) rfl rfl

end Rows

/-! ### What a call leaves alone -/

/-- After its upkeep a call changes neither clock nor configuration. -/
structure Frame (s t : CloudAdmission edhoc) : Prop where
  identity : t.identity = s.identity
  limits : t.limits = s.limits
  echoKey : t.echoKey = s.echoKey
  lastNow : t.lastNow = s.lastNow
  windowStart : t.windowStart = s.windowStart
  blocked : t.blocked = s.blocked
  activeLength : t.active.length = s.active.length
  owners : t.owners = s.owners

variable {s t : CloudAdmission edhoc} {endpoint : UdpEndpoint} {registry : AdmissionRegistry prim}

theorem Spent.frame {n : Nat} (spent : Spent s t endpoint n) :
    Frame s t ∧ t.sendCursor = s.sendCursor := by
  rw [spent.same]
  exact ⟨⟨rfl, rfl, rfl, rfl, rfl, rfl, rfl, rfl⟩, rfl⟩

theorem Tended.frame (tended : Tended s t) : Frame s t := by
  have owners := tended.owners
  rw [tended.same] at owners ⊢
  exact ⟨rfl, rfl, rfl, rfl, rfl, rfl, rfl, owners⟩

theorem Received.frame {bytes : List UInt8} {now : Nat} {result : Ingested edhoc ε}
    (received : Received s bytes endpoint now registry result) :
    Frame s result.state ∧ result.state.sendCursor = s.sendCursor := by
  cases received with
  | ignored spent => exact spent.frame
  | pending spent | retained spent | advanced spent =>
    obtain ⟨frame, cursor⟩ := spent.frame
    refine ⟨{ frame with owners := ?_ }, cursor⟩
    simp only [owners, length_set, spent.pending, spent.retained]
  | challenged spent =>
    obtain ⟨frame, cursor⟩ := spent.frame
    exact ⟨{ frame with }, cursor⟩
  | exhausted spent allocation =>
    obtain ⟨frame, cursor⟩ := spent.frame
    rw [(allocateId_cases allocation).1]
    exact ⟨{ frame with }, cursor⟩
  | opened spent _ _ _ _ _ _ _ _ allocation =>
    obtain ⟨frame, cursor⟩ := spent.frame
    rw [(allocateId_cases allocation).1]
    refine ⟨{ frame with owners := ?_ }, cursor⟩
    simp only [owners, length_set, spent.retained]

theorem Handed.frame {result : Except (CloudError ε) (Option AdmittedSession) × CloudAdmission edhoc}
    (handed : Handed s registry result) :
    Frame s result.2 ∧ result.2.sendCursor = s.sendCursor := by
  cases handed with
  | nothing => exact ⟨⟨rfl, rfl, rfl, rfl, rfl, rfl, rfl, rfl⟩, rfl⟩
  | refused => exact ⟨⟨rfl, rfl, rfl, rfl, rfl, rfl, rfl, by simp [owners]⟩, rfl⟩
  | taken => exact ⟨⟨rfl, rfl, rfl, rfl, rfl, rfl, by simp, by simp [owners]⟩, rfl⟩

end CloudAdmission

/-! ### Soundness of rows -/

/-- A queued reply is there to be sent, and no exchange outlives its row. -/
def Exchanges.Sound (xs : Exchanges) (expires : Nat) : Prop :=
  ∀ x ∈ xs.toList, (x.queued = true → x.response.isSome = true) ∧ x.expires ≤ expires

namespace Exchanges.Sound

variable {xs ys : Exchanges} {expires later : Nat}

theorem mono (sound : xs.Sound expires) (le : expires ≤ later) : xs.Sound later :=
  fun x mem => ⟨(sound x mem).1, (sound x mem).2.trans le⟩

theorem disable (sound : xs.Sound expires) : xs.disable.Sound expires := by
  intro x mem
  simp only [mem_toList, Exchanges.disable, map_eq_some_iff] at mem
  obtain ⟨y, held, rfl⟩ | ⟨y, held, rfl⟩ := mem
  · exact ⟨nofun, (sound y (mem_toList.mpr (.inl held))).2⟩
  · exact ⟨nofun, (sound y (mem_toList.mpr (.inr held))).2⟩

variable {final final' : Option ErrorReceipt}

theorem tended (sound : xs.Sound expires) (tended : RepliesTended xs final ys final') :
    ys.Sound expires := by
  -- a reply of the new pair stands where one of the old pair stood
  have kept {o o' : Option Exchange} (related : Option.Rel Exchange.Dequeued o o')
      (before : ∀ x, o = some x → (x.queued = true → x.response.isSome = true) ∧ x.expires ≤ expires)
      (y : Exchange) (held : o' = some y) :
      (y.queued = true → y.response.isSome = true) ∧ y.expires ≤ expires := by
    cases related with
    | none => cases held
    | some one =>
    cases held
    obtain ⟨queued, still, rfl⟩ := one
    exact ⟨fun waits => (before _ rfl).1 (still waits), (before _ rfl).2⟩
  intro y mem
  obtain held | held := mem_toList.mp mem
  · exact kept tended.first (fun x held => sound x (mem_toList.mpr (.inl held))) y held
  · exact kept tended.second (fun x held => sound x (mem_toList.mpr (.inr held))) y held

theorem replays {bytes : List UInt8} (sound : xs.Sound expires)
    (replays : Replays xs final bytes ys final') : ys.Sound expires := by
  cases replays with
  | receipt => exact sound
  | exchange queues equal some_ =>
  have queued := sound _ queues.mem
  intro y mem
  cases queues with
  | first held =>
    obtain here | there := mem_toList.mp mem
    · cases here
      exact ⟨fun _ => some_, queued.2⟩
    · exact sound y (mem_toList.mpr (.inr there))
  | second held =>
  obtain there | here := mem_toList.mp mem
  · exact sound y (mem_toList.mpr (.inl there))
  · cases here
    exact ⟨fun _ => some_, queued.2⟩

theorem second (sound : xs.Sound expires) {x : Exchange} (reply : x.response.isSome = true)
    (le : x.expires ≤ expires) : ({ xs with second := some x } : Exchanges).Sound expires := by
  intro y mem
  obtain held | held := mem_toList.mp mem
  · exact sound y (mem_toList.mpr (.inl held))
  · cases held
    exact ⟨fun _ => reply, le⟩

end Exchanges.Sound

/-- A provisional handshake as the listener keeps it: while message 3 is awaited there is no second
exchange, and a session is ready for the handshake's own identifiers. -/
structure Pending.Sound (now : Nat) (p : Pending edhoc) : Prop where
  replies : p.exchanges.Sound p.expires
  awaits : p.responder.isSome = true → p.exchanges.second = none ∧ p.ready = none
  reserves : ∀ ready, p.ready = some ready → ready.association.localId = p.localId ∧
    ready.association.peerId = p.peerId ∧ ready.association.endpoint = p.endpoint
  expires : p.expires ≤ now + exchangeLifetimeMs

def Retained.Sound (r : Retained) : Prop := r.exchanges.Sound r.expires

namespace Pending.Sound

variable {now : Nat} {p p' : Pending edhoc}

variable {later : Nat}

section

variable (sound : p.Sound now)
include sound

theorem mono (le : now ≤ later) : p.Sound later :=
  { sound with expires := by have := sound.expires; omega }

theorem silence :
    ({ p with ready := none, exchanges := p.exchanges.disable } : Pending edhoc).Sound now := by
  refine ⟨sound.replies.disable, ?_, nofun, sound.expires⟩
  intro waits
  simp only [Exchanges.disable, (sound.awaits waits).1, map_none, and_self]

theorem halt : p.halt.Sound now :=
  ⟨sound.replies.disable, nofun, nofun, sound.expires⟩

theorem tended (tended : p.Tended p') : p'.Sound now := by
  obtain ⟨replies, same⟩ := tended
  rw [same]
  refine ⟨sound.replies.tended replies, ?_, sound.reserves, sound.expires⟩
  intro waits
  obtain ⟨none_, unready⟩ := sound.awaits waits
  refine ⟨?_, unready⟩
  have related := replies.second
  rw [none_] at related
  generalize p'.exchanges.second = after at related
  cases related with
  | none => rfl

theorem replays {bytes : List UInt8} {ys : Exchanges} {final : Option ErrorReceipt}
    (replays : Replays p.exchanges p.finalError bytes ys final) :
    ({ p with exchanges := ys, finalError := final } : Pending edhoc).Sound now := by
  refine ⟨sound.replies.replays replays, ?_, sound.reserves, sound.expires⟩
  intro waits
  obtain ⟨none_, unready⟩ := sound.awaits waits
  refine ⟨?_, unready⟩
  cases replays with
  | receipt => exact none_
  | exchange queues =>
  cases queues with
  | first => exact none_
  | second held =>
    rw [none_] at held
    cases held

theorem maintain {registry : AdmissionRegistry prim} (le : now ≤ later)
    (kept : p.maintain later registry = some p') : p'.Sound later := by
  obtain ⟨-, ⟨rfl, -⟩ | rfl⟩ := Pending.maintain_cases kept
  · exact sound.mono le
  · exact (sound.mono le).silence

theorem late {wire : Wire} {parsed : ParsedMessage 8} {code : PeerErrorCode}
    (finished : p.ready.isSome = true) :
    (p.late wire parsed code (now + exchangeLifetimeMs)).Sound now := by
  refine ⟨sound.replies.mono (Nat.le_max_left _ _), ?_, nofun, ?_⟩
  · intro waits
    rw [(sound.awaits waits).2] at finished
    cases finished
  · exact Nat.max_le.mpr ⟨sound.expires, Nat.le_refl _⟩

end

end Pending.Sound

namespace CloudAdmission

abbrev Sound (s : CloudAdmission edhoc) : Prop := Rows (Pending.Sound s.lastNow) Retained.Sound s

theorem sound_ingests (s : CloudAdmission edhoc) (bytes : List UInt8) (endpoint : UdpEndpoint)
    (now : Nat) (registry : AdmissionRegistry prim) :
    Rows.Ingests s bytes endpoint now registry (Pending.Sound now) Retained.Sound where
  replays p ys final sound _ replays := sound.replays replays
  errs i p wire parsed code _ sound _ _ ready _ := by
    simp only [Pending.handsOff, Bool.and_eq_true] at ready
    exact sound.late ready.1
  opens n peerId responder reply _ some_ expires := by
    refine ⟨?_, fun _ => ⟨rfl, rfl⟩, by rintro _ ⟨⟩, Nat.le_refl _⟩
    intro x mem
    obtain here | there := Exchanges.mem_toList.mp mem
    · cases here
      exact ⟨fun _ => some_, Nat.le_of_eq expires⟩
    · cases there
  refuses i p x _ sound waits _ some_ _ expires := by
    refine ⟨?_, by simp, sound.reserves, Nat.max_le.mpr ⟨sound.expires, Nat.le_refl _⟩⟩
    refine (sound.replies.mono (Nat.le_max_left _ _)).second some_ ?_
    rw [expires]
    exact Nat.le_max_right _ _
  completes i p x session reference grant _ sound waits _ some_ _ expires _ := by
    refine ⟨?_, by simp, ?_, Nat.le_refl _⟩
    · exact (sound.replies.mono sound.expires).second some_ (Nat.le_of_eq expires)
    · rintro ready ⟨⟩
      exact ⟨rfl, rfl, rfl⟩
  retainedReplays r ys final sound _ replays := Exchanges.Sound.replays sound replays
  retainedErrs r wire parsed code sound _ _ := Exchanges.Sound.mono sound (Nat.le_max_left _ _)

variable {active nowMs pending retained sources : Nat} {identity : Identity prim}
  {limits : AdmissionLimits} {entropy : Option (Receipts.Fixed 32)} {s : CloudAdmission edhoc}

section

variable (created : (new edhoc (active, pending, retained, sources) identity nowMs limits entropy :
  Except (CloudError ε) (CloudAdmission edhoc)) = .ok s)
include created

/-- A new listener has empty tables. -/
theorem new_eq_ok : 0 < limits.windowMs ∧ ∃ key, s =
      { identity := identity
        active := replicate active none
        pending := replicate pending none
        retained := replicate retained none
        sources := replicate sources none
        challenge := none
        echoKey := key
        limits := limits
        lastNow := nowMs
        windowStart := nowMs
        datagrams := 0
        crypto := 0
        nextId := 1
        sendCursor := 0
        blocked := false } := by
  simp only [new] at created
  split at created
  · cases created
  next sensible =>
  split at created
  · cases created
  next =>
  split at created
  · cases created
  next key =>
  split at created
  · cases created
  next =>
  cases created
  simp only [not_or] at sensible
  exact ⟨Nat.pos_of_ne_zero sensible.2.2.2.2.1, key, rfl⟩

theorem rows_of_new (P : Pending edhoc → Prop) (R : Retained → Prop) : Rows P R s := by
  obtain ⟨-, key, rfl⟩ := new_eq_ok created
  constructor
  · intro i p held
    simp at held
  · intro i r held
    simp at held

end

theorem sound_halt (sound : s.Sound) : s.halt.Sound :=
  sound.halt (fun _ => Pending.Sound.halt) fun _ kept => Exchanges.Sound.disable kept

theorem sound_upkept {now : Nat} (sound : s.Sound) (accepts : s.Accepts now)
    (registry : AdmissionRegistry prim) : (s.upkept now registry).Sound := by
  rw [CloudAdmission.Sound, upkept_lastNow]
  refine sound.upkept (fun p p' before kept => before.maintain accepts.monotone kept) ?_
  intro r r' before kept
  obtain ⟨-, ⟨rfl, -⟩ | rfl⟩ := Retained.maintain_cases kept
  · exact before
  · exact Exchanges.Sound.disable before

theorem sound_step (sound : s.Sound) (call : CloudCall prim ε) : (s.step call).Sound := by
  have steps := step_cases s call
  generalize s.step call = t at steps ⊢
  cases steps with
  | halted => exact sound_halt sound
  | @ingest bytes endpoint now registry entropy result accepts received same =>
    have kept := sound_upkept sound accepts registry
    have frame := received.frame.1
    rw [CloudAdmission.Sound, frame.lastNow]
    rw [CloudAdmission.Sound, upkept_lastNow] at kept
    rw [upkept_lastNow]
    exact kept.received received (sound_ingests _ bytes endpoint now registry)
  | @flush io now registry f accepts flushes same =>
    have kept := sound_upkept sound accepts registry
    rw [CloudAdmission.Sound, flushes.tended.frame.lastNow]
    exact kept.tended flushes.tended (fun p p' before tended => before.tended tended)
      fun r r' before tended => by
        rw [tended.2]
        exact Exchanges.Sound.tended before tended.1
  | @takeSession now registry result accepts handed same =>
    have kept := sound_upkept sound accepts registry
    rw [CloudAdmission.Sound, handed.frame.1.lastNow]
    exact kept.handed handed (fun p before => before.silence) fun p ready before _ => before.replies
  | upkeep observes accepts => exact sound_upkept sound accepts _
  | release => exact sound.of_eq rfl rfl
  | unknown => exact sound

end CloudAdmission

end Coaptic.Provisioning
