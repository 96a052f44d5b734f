import Coaptic.Provisioning.CloudIngest

/-!
# What the other calls do to a shared listener

Upkeep drops what has expired and silences what is not let in any more. A flush changes only which
replies are queued, and a hand-off moves one finished handshake. Together with the ways in which a
datagram is taken, these are all the steps of a listener.
-/
namespace Coaptic.Provisioning

open Option List Slots

variable {prim : Primitives} {edhoc : Edhoc prim} {ε : Type}

namespace CloudAdmission

/-! ### Upkeep -/

section

variable (s : CloudAdmission edhoc) (now : Nat) (registry : AdmissionRegistry prim)

def upkept : CloudAdmission edhoc :=
  (({ s with lastNow := now }).renew now).expire now registry

/-- A clock that an upkeep accepts. -/
structure Accepts (s : CloudAdmission edhoc) (now : Nat) : Prop where
  unblocked : s.blocked = false
  monotone : s.lastNow ≤ now
  bounded : now + exchangeLifetimeMs ≤ u64Max

theorem maintain_cases : (¬s.Accepts now ∧
        s.maintain now registry = ((.error .clock : Except (CloudError ε) Unit), s.halt)) ∨
      (s.Accepts now ∧
        s.maintain now registry = ((.ok () : Except (CloudError ε) Unit), s.upkept now registry)) := by
  have expiry : (exchangeExpiry now).isNone = true ↔ ¬now + exchangeLifetimeMs ≤ u64Max := by
    cases sum : exchangeExpiry now with
    | none =>
      simp only [isNone_none, true_iff]
      intro fits
      rw [exchangeExpiry_eq_some.mpr ⟨fits, rfl⟩] at sum
      cases sum
    | some expires => simp [(exchangeExpiry_eq_some.mp sum).1]
  rw [maintain]
  split
  next refused =>
    refine .inl ⟨?_, rfl⟩
    rintro ⟨unblocked, monotone, bounded⟩
    rw [expiry] at refused
    obtain blocked | back | late := refused
    · simp [unblocked] at blocked
    · omega
    · exact late bounded
  next fine =>
    simp only [not_or, expiry, not_not, Nat.not_lt] at fine
    exact .inr ⟨⟨by simpa using fine.1, fine.2.1, fine.2.2⟩, rfl⟩

end

section Fields

variable (s : CloudAdmission edhoc) (now : Nat) (registry : AdmissionRegistry prim)

/-- Only the window and its budgets are renewed. -/
theorem renew_same : s.renew now = { s with
      windowStart := (s.renew now).windowStart
      datagrams := (s.renew now).datagrams
      crypto := (s.renew now).crypto
      sources := (s.renew now).sources } := by
  simp only [renew]
  split <;> rfl

@[simp] theorem upkept_pending : (s.upkept now registry).pending =
    s.pending.map (·.bind (Pending.maintain now registry)) := by
  rw [upkept, expire, renew_same]

@[simp] theorem upkept_retained : (s.upkept now registry).retained =
    s.retained.map (·.bind (Retained.maintain now registry)) := by
  rw [upkept, expire, renew_same]

@[simp] theorem upkept_active : (s.upkept now registry).active = s.active := by
  rw [upkept, expire, renew_same]

@[simp] theorem upkept_nextId : (s.upkept now registry).nextId = s.nextId := by
  rw [upkept, expire, renew_same]

@[simp] theorem upkept_limits : (s.upkept now registry).limits = s.limits := by
  rw [upkept, expire, renew_same]

@[simp] theorem upkept_echoKey : (s.upkept now registry).echoKey = s.echoKey := by
  rw [upkept, expire, renew_same]

@[simp] theorem upkept_sendCursor : (s.upkept now registry).sendCursor = s.sendCursor := by
  rw [upkept, expire, renew_same]

@[simp] theorem upkept_lastNow : (s.upkept now registry).lastNow = now := by
  rw [upkept, expire, renew_same]

end Fields

end CloudAdmission

variable {now : Nat} {registry : AdmissionRegistry prim}

theorem Pending.maintain_cases {p p' : Pending edhoc} (kept : p.maintain now registry = some p') :
    now < p.expires ∧
      ((p' = p ∧ ∀ ready, p.ready = some ready → current registry ready.association = true) ∨
        (p' = { p with ready := none, exchanges := p.exchanges.disable })) := by
  simp only [maintain] at kept
  split at kept
  · cases kept
  next live =>
  refine ⟨Nat.not_le.mp live, ?_⟩
  split at kept
  · cases kept; exact .inr rfl
  next permitted =>
  cases kept
  refine .inl ⟨rfl, ?_⟩
  intro ready finished
  simpa [finished] using permitted

theorem Retained.maintain_cases {r r' : Retained} (kept : r.maintain now registry = some r') :
    now < r.expires ∧ ((r' = r ∧ current registry r.association = true) ∨ r' = r.halt) := by
  simp only [maintain] at kept
  split at kept
  · cases kept
  next live =>
  refine ⟨Nat.not_le.mp live, ?_⟩
  split at kept
  · cases kept; exact .inr rfl
  next permitted =>
  cases kept
  exact .inl ⟨rfl, by simpa using permitted⟩

/-! ### Sending -/

/-- Nothing differs, but that it may not be queued any more. -/
def Exchange.Dequeued (x x' : Exchange) : Prop :=
  ∃ queued, (queued = true → x.queued = true) ∧ x' = { x with queued := queued }

/-- Only what is still to be sent or reported differs. -/
def ErrorReceipt.Retold (r r' : ErrorReceipt) : Prop :=
  ∃ pending reported, r' = { r with pending := pending, reported := reported }

/-- Saved replies of which only the flags differ. -/
structure RepliesTended (xs : Exchanges) (final : Option ErrorReceipt) (ys : Exchanges)
    (final' : Option ErrorReceipt) : Prop where
  first : Option.Rel Exchange.Dequeued xs.first ys.first
  second : Option.Rel Exchange.Dequeued xs.second ys.second
  receipt : Option.Rel ErrorReceipt.Retold final final'

namespace RepliesTended

variable {α : Type} {R : α → α → Prop}

theorem rel_refl (refl : ∀ a, R a a) (o : Option α) : Option.Rel R o o := by
  cases o with
  | none => exact .none
  | some a => exact .some (refl a)

theorem rel_trans (trans : ∀ a b c, R a b → R b c → R a c) {x y z : Option α}
    (first : Option.Rel R x y) (second : Option.Rel R y z) : Option.Rel R x z := by
  cases first with
  | none => exact second
  | some one =>
    cases second with
    | some two => exact .some (trans _ _ _ one two)

theorem bind_eq_of_rel {β : Type} {f : α → Option β} {x y : Option α}
    (same : ∀ {a b}, R a b → f b = f a) (related : Option.Rel R x y) : y.bind f = x.bind f := by
  cases related with
  | none => rfl
  | some one => exact same one

/-- One row is written over. -/
theorem rel_set {rows : List (Option α)} {i : Nat} {a a' : α} (refl : ∀ a, R a a)
    (held : row rows i = some a) (one : R a a') (j : Nat) :
    Option.Rel R (row rows j) (row (rows.set i (some a')) j) := by
  rw [row_set (lt_of_row held)]
  split
  next here =>
    rw [← here, held]
    exact .some one
  · exact rel_refl refl _

theorem dequeued_refl (x : Exchange) : x.Dequeued x := ⟨x.queued, id, rfl⟩

theorem retold_refl (r : ErrorReceipt) : r.Retold r := ⟨r.pending, r.reported, rfl⟩

theorem dequeued_trans (a b c : Exchange) (first : a.Dequeued b) (second : b.Dequeued c) :
    a.Dequeued c := by
  obtain ⟨_, before, rfl⟩ := first
  obtain ⟨queued, after, rfl⟩ := second
  exact ⟨queued, before ∘ after, rfl⟩

theorem retold_trans (a b c : ErrorReceipt) (first : a.Retold b) (second : b.Retold c) :
    a.Retold c := by
  obtain ⟨_, _, rfl⟩ := first
  obtain ⟨pending, reported, rfl⟩ := second
  exact ⟨pending, reported, rfl⟩

theorem refl (xs : Exchanges) (final : Option ErrorReceipt) : RepliesTended xs final xs final :=
  ⟨rel_refl dequeued_refl _, rel_refl dequeued_refl _, rel_refl retold_refl _⟩

theorem trans {xs ys zs : Exchanges} {a b c : Option ErrorReceipt}
    (first : RepliesTended xs a ys b) (second : RepliesTended ys b zs c) :
    RepliesTended xs a zs c :=
  ⟨rel_trans dequeued_trans first.first second.first,
    rel_trans dequeued_trans first.second second.second,
    rel_trans retold_trans first.receipt second.receipt⟩

end RepliesTended

open RepliesTended

section

variable (io : Transport ε) (endpoint : UdpEndpoint) (localId : ConnectionId)

theorem dequeued_sendExchange (now : Nat) (x : Exchange) :
    x.Dequeued (sendExchange io endpoint localId now x).after := by
  fun_cases sendExchange io endpoint localId now x with
  | case3 => exact dequeued_refl x
  | _ => exact ⟨false, nofun, rfl⟩

theorem retold_flushReceipt (now : Nat) (r : ErrorReceipt) :
    r.Retold (flushReceipt io endpoint localId now r).after := by
  simp only [flushReceipt]
  split
  · exact ⟨_, _, rfl⟩
  next =>
  split
  · split
    · exact ⟨_, _, rfl⟩
    · split <;> exact ⟨_, _, rfl⟩
  · split <;> exact ⟨_, _, rfl⟩

theorem rel_visit {α : Type} {R : α → α → Prop} {visit : α → Visit ε α}
    (keeps : ∀ a, R a (visit a).after) (o : Option α) :
    Option.Rel R o (Visit.ofOption visit o).after := by
  cases o with
  | none => exact .none
  | some a => exact .some (keeps a)

/-- The saved reply that a datagram to the transport is a copy of. -/
def savedReply (xs : Exchanges) (final : Option ErrorReceipt) : Reply → Option (List UInt8)
  | .first => xs.first.bind fun x => x.response.map (·.bytes)
  | .second => xs.second.bind fun x => x.response.map (·.bytes)
  | .receipt => final.map (·.acknowledgement)
  | .challenge => none

theorem savedReply_tended {xs ys : Exchanges} {final final' : Option ErrorReceipt}
    (tended : RepliesTended xs final ys final') (reply : Reply) :
    savedReply ys final' reply = savedReply xs final reply := by
  have kept {x x' : Exchange} (one : x.Dequeued x') :
      x'.response.map (·.bytes) = x.response.map (·.bytes) := by
    obtain ⟨_, -, rfl⟩ := one
    rfl
  cases reply with
  | first => exact bind_eq_of_rel kept tended.first
  | second => exact bind_eq_of_rel kept tended.second
  | receipt =>
    cases tended.receipt with
    | none => rfl
    | some one =>
      obtain ⟨_, _, rfl⟩ := one
      rfl
  | challenge => rfl

/-! ### Who waits for a turn -/

def Exchange.waits (x : Exchange) (now : Nat) : Bool :=
  x.queued && now < x.expires && x.response.isSome

def ErrorReceipt.waits (r : ErrorReceipt) (now : Nat) : Bool := r.pending && now < r.expires

def repliesWait (xs : Exchanges) (final : Option ErrorReceipt) (now : Nat) : Bool :=
  xs.first.any (·.waits now) || xs.second.any (·.waits now) || final.any (·.waits now)

/-- The call ends with a reply that is sent, which is the saved one; a reply that waits is sent. -/
structure Visit.Speaks {α : Type} (v : Visit ε α) (saved : Option (List UInt8)) (waits : Bool) :
    Prop where
  sent : ∀ bytes, v.sent = some bytes → v.outcome.isSome = true ∧ saved = some bytes
  waiting : waits = true → v.outcome.isSome = true ∧ v.sent.isSome = true

theorem Visit.Speaks.ofOption {α : Type} {visit : α → Visit ε α} {saved : α → Option (List UInt8)}
    {waits : α → Bool} (each : ∀ a, (visit a).Speaks (saved a) (waits a)) (o : Option α) :
    (Visit.ofOption visit o).Speaks (o.bind saved) (o.any waits) := by
  cases o with
  | none => exact ⟨nofun, nofun⟩
  | some a => exact ⟨(each a).sent, (each a).waiting⟩

theorem Visit.Speaks.of_sent {α : Type} {v : Visit ε α} {bytes : List UInt8} {waits : Bool}
    (ends : v.outcome.isSome = true) (sent : v.sent = some bytes) : v.Speaks (some bytes) waits :=
  ⟨fun _ known => ⟨ends, sent.symm.trans known⟩, fun _ => ⟨ends, by rw [sent]; rfl⟩⟩

/-- An exchange that does not wait is not sent, whatever the transport. -/
theorem sendExchange_idle {now : Nat} {x : Exchange} (idle : x.waits now = false) :
    sendExchange io endpoint localId now x = ⟨none, none, { x with queued := false }⟩ := by
  fun_cases sendExchange io endpoint localId now x with
  | case1 | case2 => rfl
  | case3 live _ saved | case4 live _ saved =>
    simp only [not_or, Bool.not_eq_false, Nat.not_le] at live
    simp [Exchange.waits, saved, live] at idle

theorem speaks_sendExchange (now : Nat) (x : Exchange) :
    (sendExchange io endpoint localId now x).Speaks (x.response.map (·.bytes)) (x.waits now) ∧
      (sendExchange io endpoint localId now x).outcome.isSome = x.waits now := by
  cases waits : x.waits now with
  | false =>
    rw [sendExchange_idle io endpoint localId waits]
    exact ⟨⟨nofun, nofun⟩, rfl⟩
  | true =>
  simp only [Exchange.waits, Bool.and_eq_true, decide_eq_true_eq] at waits
  obtain ⟨reply, saved⟩ := isSome_iff_exists.mp waits.2
  have live : ¬(x.queued = false ∨ x.expires ≤ now) := by simp [waits.1.1, waits.1.2]
  simp only [sendExchange, if_neg live, saved]
  split <;> exact ⟨.of_sent rfl rfl, rfl⟩

/-- A receipt may also end the call with a report alone. -/
theorem speaks_flushReceipt (now : Nat) (r : ErrorReceipt) :
    (flushReceipt io endpoint localId now r).Speaks (some r.acknowledgement) (r.waits now) := by
  simp only [flushReceipt, ErrorReceipt.waits]
  split
  next expired => exact ⟨nofun, by simp [Nat.not_lt.mpr expired]⟩
  next =>
  split
  · split
    · exact .of_sent rfl rfl
    · split <;> exact .of_sent rfl rfl
  next idle => split <;> exact ⟨nofun, by simp [idle]⟩

end

/-- One owner's replies: only flags change, what is sent is a saved reply, and an owner that waits
sends one. -/
theorem flushOwner_spec (io : Transport ε) (endpoint : UdpEndpoint) (localId : ConnectionId)
    (now : Nat) (xs : Exchanges) (final : Option ErrorReceipt) :
    let r := flushOwner io endpoint localId now xs final
    RepliesTended xs final r.2.2.1 r.2.2.2 ∧
      (∀ sent, r.2.1 = some sent → r.1.isSome = true ∧ savedReply xs final sent.1 = some sent.2) ∧
      (repliesWait xs final now = true → r.1.isSome = true ∧ r.2.1.isSome = true) := by
  have first := rel_visit (dequeued_sendExchange io endpoint localId now) xs.first
  have second := rel_visit (dequeued_sendExchange io endpoint localId now) xs.second
  have receipt := rel_visit (retold_flushReceipt io endpoint localId now) final
  have exchange (o : Option Exchange) := Visit.Speaks.ofOption
    (fun x => (speaks_sendExchange io endpoint localId now x).1) o
  have ends (o : Option Exchange) : (Visit.ofOption (sendExchange io endpoint localId now)
      o).outcome.isSome = o.any (·.waits now) := by
    cases o with
    | none => rfl
    | some x => exact (speaks_sendExchange io endpoint localId now x).2
  have acknowledges := Visit.Speaks.ofOption (speaks_flushReceipt io endpoint localId now) final
  rw [← Function.comp_def, ← map_eq_bind] at acknowledges
  have passes {α : Type} {v : Visit ε α} {waits : Bool} (reply : Reply)
      (speaks : v.Speaks (savedReply xs final reply) waits) (sent : Reply × List UInt8)
      (passed : v.sent.map (reply, ·) = some sent) :
      v.outcome.isSome = true ∧ savedReply xs final sent.1 = some sent.2 := by
    obtain ⟨bytes, known, rfl⟩ := map_eq_some_iff.mp passed
    exact speaks.sent bytes known
  simp only [flushOwner]
  split
  next ended =>
    refine ⟨⟨first, rel_refl dequeued_refl _, rel_refl retold_refl _⟩,
      passes .first (exchange xs.first), fun _ => ?_⟩
    rw [isSome_map]
    exact (exchange xs.first).waiting ((ends _).symm.trans ended)
  next silent =>
  split
  next ended =>
    refine ⟨⟨first, second, rel_refl retold_refl _⟩, passes .second (exchange xs.second), fun _ => ?_⟩
    rw [isSome_map]
    exact (exchange xs.second).waiting ((ends _).symm.trans ended)
  next quiet =>
    refine ⟨⟨first, second, receipt⟩, passes .receipt acknowledges, fun waiting => ?_⟩
    -- neither exchange waits, so the receipt does
    rw [ends] at silent quiet
    simp only [repliesWait, silent, quiet, Bool.false_or] at waiting
    rw [isSome_map]
    exact acknowledges.waiting waiting

/-- The transport does not matter to an owner that does not wait. -/
theorem flushOwner_idle {endpoint : UdpEndpoint} {localId : ConnectionId} {now : Nat}
    {xs : Exchanges} {final : Option ErrorReceipt} (idle : repliesWait xs final now = false)
    (io other : Transport ε) : flushOwner other endpoint localId now xs final =
      flushOwner io endpoint localId now xs final := by
  simp only [repliesWait, Bool.or_eq_false_iff] at idle
  have exchange {o : Option Exchange} (idle : o.any (·.waits now) = false) :
      Visit.ofOption (sendExchange other endpoint localId now) o =
        Visit.ofOption (sendExchange io endpoint localId now) o := by
    cases o with
    | none => rfl
    | some x => simp only [Visit.ofOption, sendExchange_idle _ endpoint localId idle]
  have receipt : Visit.ofOption (flushReceipt other endpoint localId now) final =
      Visit.ofOption (flushReceipt io endpoint localId now) final := by
    cases final with
    | none => rfl
    | some r =>
    simp only [Visit.ofOption, flushReceipt]
    split
    · rfl
    next live =>
    have unsent : r.pending = false := by
      simpa [ErrorReceipt.waits, Nat.not_le.mp live] using idle.2
    simp [unsent]
  simp only [flushOwner, exchange idle.1.1, exchange idle.1.2, receipt]

/-! ### A flush -/

/-- A handshake of which only the flags of its replies differ. -/
def Pending.Tended (p p' : Pending edhoc) : Prop :=
  RepliesTended p.exchanges p.finalError p'.exchanges p'.finalError ∧
    p' = { p with exchanges := p'.exchanges, finalError := p'.finalError }

def Retained.Tended (r r' : Retained) : Prop :=
  RepliesTended r.exchanges r.finalError r'.exchanges r'.finalError ∧
    r' = { r with exchanges := r'.exchanges, finalError := r'.finalError }

namespace CloudAdmission

/-- A listener of which only the flags of replies, the challenge and the cursor differ. -/
structure Tended (s t : CloudAdmission edhoc) : Prop where
  same : t = { s with
    pending := t.pending
    retained := t.retained
    challenge := t.challenge
    sendCursor := t.sendCursor }
  pendingLength : t.pending.length = s.pending.length
  retainedLength : t.retained.length = s.retained.length
  pending : ∀ i, Option.Rel Pending.Tended (row s.pending i) (row t.pending i)
  retained : ∀ i, Option.Rel Retained.Tended (row s.retained i) (row t.retained i)
  challenge : t.challenge = s.challenge ∨ t.challenge = none

namespace Tended

theorem pending_refl (p : Pending edhoc) : p.Tended p := ⟨.refl _ _, rfl⟩

theorem retained_refl (r : Retained) : r.Tended r := ⟨.refl _ _, rfl⟩

theorem pending_trans (a b c : Pending edhoc) (first : a.Tended b) (second : b.Tended c) :
    a.Tended c :=
  ⟨first.1.trans second.1, by rw [second.2, first.2]⟩

theorem retained_trans (a b c : Retained) (first : a.Tended b) (second : b.Tended c) : a.Tended c :=
  ⟨first.1.trans second.1, by rw [second.2, first.2]⟩

theorem refl (s : CloudAdmission edhoc) : Tended s s :=
  ⟨rfl, rfl, rfl, fun _ => rel_refl pending_refl _, fun _ => rel_refl retained_refl _, .inl rfl⟩

variable {s t : CloudAdmission edhoc} {cursor i : Nat}

theorem trans {u : CloudAdmission edhoc} (first : Tended s t) (second : Tended t u) :
    Tended s u := by
  refine ⟨?_, second.pendingLength.trans first.pendingLength,
    second.retainedLength.trans first.retainedLength,
    fun i => rel_trans pending_trans (first.pending i) (second.pending i),
    fun i => rel_trans retained_trans (first.retained i) (second.retained i), ?_⟩
  · rw [second.same, first.same]
  obtain same | none_ := second.challenge
  · rw [same]
    exact first.challenge
  · exact .inr none_

/-- One handshake is tended to. -/
theorem set_pending {p p' : Pending edhoc} (held : row s.pending i = some p)
    (tended : p.Tended p') :
    Tended s { s with pending := s.pending.set i (some p'), sendCursor := cursor } := by
  exact ⟨rfl, length_set, rfl, rel_set pending_refl held tended,
    fun _ => rel_refl retained_refl _, .inl rfl⟩

theorem set_retained {r r' : Retained} (held : row s.retained i = some r)
    (tended : r.Tended r') :
    Tended s { s with retained := s.retained.set i (some r'), sendCursor := cursor } := by
  exact ⟨rfl, rfl, length_set, fun _ => rel_refl pending_refl _,
    rel_set retained_refl held tended, .inl rfl⟩

theorem owners (tended : Tended s t) : t.owners = s.owners := by
  rw [CloudAdmission.owners, CloudAdmission.owners, tended.pendingLength, tended.retainedLength]

end Tended

def waits (s : CloudAdmission edhoc) (now index : Nat) : Bool :=
  if index < s.pending.length then
    (row s.pending index).any fun p => repliesWait p.exchanges p.finalError now
  else if index < s.pending.length + s.retained.length then
    (row s.retained (index - s.pending.length)).any fun r =>
      repliesWait r.exchanges r.finalError now
  else s.challenge.isSome

def replyOf (s : CloudAdmission edhoc) (index : Nat) (reply : Reply) : Option (List UInt8) :=
  if index < s.pending.length then
    (row s.pending index).bind fun p => savedReply p.exchanges p.finalError reply
  else if index < s.pending.length + s.retained.length then
    (row s.retained (index - s.pending.length)).bind fun r =>
      savedReply r.exchanges r.finalError reply
  else s.challenge.map (·.response.bytes)

/-- What one owner's turn does. -/
structure Turn (s : CloudAdmission edhoc) (now index : Nat)
    (result : Option (Except (CloudError ε) Status) × Option Attempt × CloudAdmission edhoc) :
    Prop where
  tended : Tended s result.2.2
  cursor : result.2.2.sendCursor = if result.1.isSome then (index + 1) % s.owners else s.sendCursor
  attempt : ∀ a, result.2.1 = some a → result.1.isSome = true ∧ a.owner = index ∧
    s.replyOf index a.reply = some a.bytes
  waiting : s.waits now index = true → result.1.isSome = true ∧ result.2.1.isSome = true
  others : result.1 = none → result.2.2.challenge = s.challenge ∧
    ∀ k, k ≠ index → result.2.2.waits now k = s.waits now k

variable {s : CloudAdmission edhoc} {index now : Nat}

theorem turn_none (idle : s.waits now index = false) :
    Turn s now index ((none, none, s) : Option (Except (CloudError ε) Status) × _) :=
  ⟨.refl s, rfl, nofun, by simp [idle], fun _ => ⟨rfl, fun _ _ => rfl⟩⟩

theorem flushAt_turn (s : CloudAdmission edhoc) (io : Transport ε) (now : Nat)
    (inside : index < s.owners) : Turn s now index (s.flushAt io now index) := by
  simp only [flushAt]
  split
  next here =>
    cases held : row s.pending index with
    | none => exact turn_none (by simp [waits, here, held])
    | some p =>
    obtain ⟨tended, saved, waiting⟩ :=
      flushOwner_spec io p.endpoint p.localId now p.exchanges p.finalError
    simp only
    refine ⟨Tended.set_pending held ⟨tended, rfl⟩, rfl, ?_, ?_, fun _ => ⟨rfl, ?_⟩⟩
    · intro a passed
      obtain ⟨sent, known, rfl⟩ := map_eq_some_iff.mp passed
      obtain ⟨ends, copy⟩ := saved sent known
      exact ⟨ends, rfl, by simp only [replyOf, if_pos here, held, bind_some, copy]⟩
    · intro waits
      simp only [CloudAdmission.waits, if_pos here, held, any_some] at waits
      rw [isSome_map]
      exact waiting waits
    intro k other
    simp only [CloudAdmission.waits, length_set, row_set here]
    rw [if_neg (Ne.symm other)]
  next there =>
    split
    next here =>
      cases held : row s.retained (index - s.pending.length) with
      | none => exact turn_none (by simp [waits, here, there, held])
      | some r =>
      obtain ⟨tended, saved, waiting⟩ := flushOwner_spec io r.association.endpoint
        r.association.localId now r.exchanges r.finalError
      simp only
      refine ⟨Tended.set_retained held ⟨tended, rfl⟩, rfl, ?_, ?_, fun _ => ⟨rfl, ?_⟩⟩
      · intro a passed
        obtain ⟨sent, known, rfl⟩ := map_eq_some_iff.mp passed
        obtain ⟨ends, copy⟩ := saved sent known
        exact ⟨ends, rfl,
          by simp only [replyOf, if_neg there, if_pos here, held, bind_some, copy]⟩
      · intro waits
        simp only [CloudAdmission.waits, if_neg there, if_pos here, held, any_some] at waits
        rw [isSome_map]
        exact waiting waits
      intro k other
      simp only [CloudAdmission.waits, length_set, row_set (lt_of_row held)]
      by_cases pending : k < s.pending.length
      · rw [if_pos pending, if_pos pending]
      · have elsewhere : ¬index - s.pending.length = k - s.pending.length := by omega
        simp only [if_neg pending, if_neg elsewhere]
    next past =>
      cases asked : s.challenge with
      | none => exact turn_none (by simp [waits, there, past, asked])
      | some challenge =>
      have last : index = s.pending.length + s.retained.length := by
        simp only [owners] at inside
        omega
      have reply (a : Attempt) (same : a.bytes = challenge.response.bytes) :
          s.replyOf index a.reply = some a.bytes := by
        simp only [replyOf, if_neg there, if_neg past, asked, map_some, same]
      have moved (challenge : Option Challenge) (kept : challenge = s.challenge ∨ challenge = none) :
          Tended s { s with sendCursor := (index + 1) % s.owners, challenge := challenge } :=
        ⟨rfl, rfl, rfl, fun _ => rel_refl Tended.pending_refl _,
          fun _ => rel_refl Tended.retained_refl _, kept⟩
      simp only
      split
      · refine ⟨moved _ (.inl asked.symm), rfl, ?_, fun _ => ⟨rfl, rfl⟩, nofun⟩
        rintro a ⟨⟩
        exact ⟨rfl, rfl, reply _ rfl⟩
      · refine ⟨moved none (.inr rfl), rfl, ?_, fun _ => ⟨rfl, rfl⟩, nofun⟩
        rintro a ⟨⟩
        exact ⟨rfl, rfl, reply _ rfl⟩

/-- A flush over a list of turns: only flags change, and the call ends at the first turn that ends
it, before which nobody waits. -/
structure Flushes (s : CloudAdmission edhoc) (now : Nat) (turns : List Nat) (f : Flushed edhoc ε) :
    Prop where
  tended : Tended s f.state
  attempt : ∀ a, f.attempt = some a → a.owner ∈ turns ∧ s.replyOf a.owner a.reply = some a.bytes
  ends : (f.state.sendCursor = s.sendCursor ∧ ∀ k ∈ turns, s.waits now k = false) ∨
    ∃ front index back, turns = front ++ index :: back ∧
      f.state.sendCursor = (index + 1) % s.owners ∧ (∀ k ∈ front, s.waits now k = false) ∧
      (s.waits now index = true → ∃ a, f.attempt = some a ∧ a.owner = index)
  silent : f.attempt = none → ∀ io : Transport ε, s.flushFrom io now turns = f

theorem replyOf_tended {t : CloudAdmission edhoc} (tended : Tended s t)
    (inside : index < s.pending.length + s.retained.length) (reply : Reply) :
    t.replyOf index reply = s.replyOf index reply := by
  simp only [replyOf, tended.pendingLength, tended.retainedLength]
  by_cases here : index < s.pending.length
  · rw [if_pos here, if_pos here]
    exact bind_eq_of_rel (savedReply_tended ·.1 reply) (tended.pending index)
  · rw [if_neg here, if_neg here, if_pos inside, if_pos inside]
    exact bind_eq_of_rel (savedReply_tended ·.1 reply) (tended.retained _)

/-- Nor does the transport matter to the turn of such an owner. -/
theorem flushAt_idle (idle : s.waits now index = false) (io other : Transport ε) :
    s.flushAt other now index = s.flushAt io now index := by
  simp only [waits] at idle
  simp only [flushAt]
  split
  next here =>
    rw [if_pos here] at idle
    cases held : row s.pending index with
    | none => rfl
    | some p =>
      rw [held] at idle
      simp only [flushOwner_idle idle io other]
  next there =>
  rw [if_neg there] at idle
  split
  next here =>
    rw [if_pos here] at idle
    cases held : row s.retained (index - s.pending.length) with
    | none => rfl
    | some r =>
      rw [held] at idle
      simp only [flushOwner_idle idle io other]
  next past =>
  rw [if_neg past, isSome_eq_false_iff, isNone_iff_eq_none] at idle
  simp only [idle]

theorem flushFrom_spec (s : CloudAdmission edhoc) (io : Transport ε) (now : Nat)
    (turns : List Nat) (inside : ∀ k ∈ turns, k < s.owners) (once : turns.Nodup) :
    Flushes s now turns (s.flushFrom io now turns) := by
  induction turns generalizing s with
  | nil => exact ⟨.refl s, nofun, .inl ⟨rfl, nofun⟩, fun _ _ => rfl⟩
  | cons index rest ih =>
  have turn := flushAt_turn s io now (inside index (mem_cons_self ..))
  rw [flushFrom]
  generalize reached : s.flushAt io now index = result at turn
  obtain ⟨outcome, attempt, t⟩ := result
  cases outcome with
  | some outcome =>
    refine ⟨turn.tended, ?_, .inr ⟨[], index, rest, rfl, turn.cursor, nofun, ?_⟩, ?_⟩
    · intro a passed
      obtain ⟨-, owner, saved⟩ := turn.attempt a passed
      rw [owner]
      exact ⟨mem_cons_self .., saved⟩
    · intro waiting
      obtain ⟨a, passed⟩ := isSome_iff_exists.mp (turn.waiting waiting).2
      exact ⟨a, passed, (turn.attempt a passed).2.1⟩
    · intro unsent other
      obtain rfl : attempt = none := unsent
      have idle : s.waits now index = false := by
        by_contra waiting
        cases (turn.waiting (by simpa using waiting)).2
      rw [flushFrom, flushAt_idle idle io other, reached]
  | none =>
  -- nothing here: the rest goes on from a listener with the same waiting owners
  have idle : s.waits now index = false := by
    by_contra waiting
    cases (turn.waiting (by simpa using waiting)).1
  have fresh : index ∉ rest := (nodup_cons.mp once).1
  have same (k : Nat) (mem : k ∈ rest) : t.waits now k = s.waits now k :=
    (turn.others rfl).2 k fun equal => fresh (equal ▸ mem)
  have later := ih t (fun k mem => by
    rw [turn.tended.owners]
    exact inside k (mem_cons_of_mem _ mem)) (nodup_cons.mp once).2
  have cursor : t.sendCursor = s.sendCursor := turn.cursor
  refine ⟨turn.tended.trans later.tended, ?_, ?_, ?_⟩
  · intro a passed
    obtain ⟨mem, saved⟩ := later.attempt a passed
    refine ⟨mem_cons_of_mem _ mem, ?_⟩
    by_cases reply : a.owner < s.pending.length + s.retained.length
    · rw [← replyOf_tended turn.tended reply]
      exact saved
    have asked : t.challenge = s.challenge := (turn.others rfl).1
    have beyond : ¬a.owner < s.pending.length := by omega
    simp only [replyOf, turn.tended.pendingLength, turn.tended.retainedLength, asked,
      if_neg beyond, if_neg reply] at saved
    simp only [replyOf, if_neg beyond, if_neg reply]
    exact saved
  · obtain ⟨unmoved, nobody⟩ | ⟨front, j, back, split, moved, nobody, sends⟩ := later.ends
    · refine .inl ⟨unmoved.trans cursor, ?_⟩
      intro k mem
      obtain rfl | mem := mem_cons.mp mem
      · exact idle
      · rw [← same k mem]
        exact nobody k mem
    have member : j ∈ rest := by simp [split]
    refine .inr ⟨index :: front, j, back, by rw [split]; rfl, ?_, ?_, ?_⟩
    · rw [moved, turn.tended.owners]
    · intro k mem
      obtain rfl | mem := mem_cons.mp mem
      · exact idle
      · rw [← same k (by rw [split]; exact mem_append_left _ mem)]
        exact nobody k mem
    · intro waiting
      exact sends (by rw [same j member]; exact waiting)
  · intro unsent other
    rw [flushFrom, flushAt_idle idle io other, reached]
    exact later.silent unsent other

end CloudAdmission

end Coaptic.Provisioning
