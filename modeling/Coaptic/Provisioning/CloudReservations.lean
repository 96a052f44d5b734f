import Coaptic.Provisioning.CloudRows

/-!
# Reservations on a shared listener

Provisional handshakes, associations and retained handshakes reserve room and identifiers for each
other. Every call either drops reservations, or opens a handshake under the next identifier, or
moves one on to the other two tables; what holds of the reservations is read off these cases.
-/
namespace Coaptic.Provisioning

open BigEndian Run Option Slots Function
open Slots (any_row count lt_of_row row row_map_bind row_map_map row_set)

variable {prim : Primitives} {edhoc : Edhoc prim} {ε : Type}

/-- For whom a row is kept. -/
structure Reservation where
  localId : ConnectionId
  peerId : ConnectionId
  endpoint : UdpEndpoint
  association : Option Association

def Pending.reservation (p : Pending edhoc) : Reservation := ⟨p.localId, p.peerId, p.endpoint, none⟩

def Association.reservation (a : Association) : Reservation := ⟨a.localId, a.peerId, a.endpoint, some a⟩

/-- A slot of one of the three tables. -/
inductive Place
  | pending (i : Nat)
  | active (i : Nat)
  | retained (i : Nat)
deriving DecidableEq

/-- One place is an association's, the other a retained handshake's. -/
def Place.Paired : Place → Place → Prop
  | .active _, .retained _ => True
  | .retained _, .active _ => True
  | _, _ => False

namespace CloudAdmission

def at_ (s : CloudAdmission edhoc) : Place → Option Reservation
  | .pending i => (Slots.row s.pending i).map (·.reservation)
  | .active i => (Slots.row s.active i).map (·.reservation)
  | .retained i => (Slots.row s.retained i).map (·.association.reservation)

variable {s : CloudAdmission edhoc} {i n next : Nat} {id : ConnectionId}

theorem at_pending {p : Pending edhoc} (held : row s.pending i = some p) :
    s.at_ (.pending i) = some p.reservation := by
  rw [at_, held, map_some]

theorem at_active {a : Association} (held : row s.active i = some a) :
    s.at_ (.active i) = some a.reservation := by
  rw [at_, held, map_some]

theorem at_retained {r : Retained} (held : row s.retained i = some r) :
    s.at_ (.retained i) = some r.association.reservation := by
  rw [at_, held, map_some]

/-! ### Identifiers -/

theorem bytes_counterId (n : Nat) : (counterId n).bytes = toBe 7 n := toBe_succ_drop 7 n

theorem rank_counterId (bounded : n ≤ maxCounter) : rank (counterId n) = n := by
  rw [rank, bytes_counterId]
  exact ofBe_toBe (by simp only [maxCounter] at bounded; omega)

def IdBelow (next : Nat) (id : ConnectionId) : Prop := ∃ n < next, n ≤ maxCounter ∧ id = counterId n

theorem IdBelow.mono {later : Nat} (below : IdBelow next id) (le : next ≤ later) :
    IdBelow later id := by
  obtain ⟨n, less, rest⟩ := below
  exact ⟨n, Nat.lt_of_lt_of_le less le, rest⟩

theorem IdBelow.ne (below : IdBelow next id) (above : next ≤ n) (bounded : n ≤ maxCounter) :
    id ≠ counterId n := by
  obtain ⟨k, less, bounded', rfl⟩ := below
  intro same
  have := congrArg rank same
  rw [rank_counterId bounded', rank_counterId bounded] at this
  omega

/-! ### What a call does to the reservations -/

def used (s : CloudAdmission edhoc) : Nat := Slots.count s.active + Slots.count s.pending

/-- Reservations may go, and the counter may go on. -/
structure Kept (s t : CloudAdmission edhoc) : Prop where
  at_ : ∀ place k, t.at_ place = some k → s.at_ place = some k
  used : t.used ≤ s.used
  length : t.active.length = s.active.length
  nextId : s.nextId ≤ t.nextId

namespace Kept

variable {s t u : CloudAdmission edhoc}

theorem refl (s : CloudAdmission edhoc) :
    Kept s s := ⟨fun _ _ => id, Nat.le_refl _, rfl, Nat.le_refl _⟩

theorem trans (first : Kept s t) (second : Kept t u) : Kept s u :=
  ⟨fun place k held => first.at_ place k (second.at_ place k held), second.used.trans first.used,
    second.length.trans first.length, first.nextId.trans second.nextId⟩

/-- Rows that stay are for whom they were. -/
theorem of_rows (pending : ∀ i p', row t.pending i = some p' → ∃ p, row s.pending i = some p ∧
    p.reservation = p'.reservation)
    (retained : ∀ i r', row t.retained i = some r' → ∃ r, row s.retained i = some r ∧
      r.association = r'.association)
    (active : t.active = s.active) (count : count t.pending ≤ count s.pending)
    (nextId : s.nextId ≤ t.nextId) : Kept s t := by
  refine ⟨?_, ?_, by rw [active], nextId⟩
  · intro place k held
    cases place with
    | pending i =>
      obtain ⟨p', there, rfl⟩ := map_eq_some_iff.mp held
      obtain ⟨p, here, same⟩ := pending i p' there
      rw [at_pending here, same]
    | active i => rwa [CloudAdmission.at_, active] at held
    | retained i =>
    obtain ⟨r', there, rfl⟩ := map_eq_some_iff.mp held
    obtain ⟨r, here, same⟩ := retained i r' there
    rw [at_retained here, same]
  · rw [CloudAdmission.used, CloudAdmission.used, active]
    omega

theorem of_eq (pending : t.pending = s.pending) (retained : t.retained = s.retained)
    (active : t.active = s.active) (nextId : s.nextId ≤ t.nextId) : Kept s t := by
  refine of_rows ?_ ?_ active (by rw [pending]) nextId
  · rw [pending]
    exact fun i p held => ⟨p, held, rfl⟩
  · rw [retained]
    exact fun i r held => ⟨r, held, rfl⟩

variable {i : Nat}

/-- One provisional handshake changes, but not for whom it is. -/
theorem set_pending {p p' : Pending edhoc} (held : row s.pending i = some p)
    (same : p.reservation = p'.reservation) (pending : t.pending = s.pending.set i (some p'))
    (retained : t.retained = s.retained) (active : t.active = s.active)
    (nextId : t.nextId = s.nextId) : Kept s t := by
  refine of_rows ?_ ?_ active (by rw [pending, count_replace held]) (Nat.le_of_eq nextId.symm)
  · intro j q there
    obtain ⟨rfl, ⟨⟩⟩ | old := of_row_set (pending ▸ there)
    · exact ⟨p, held, same⟩
    · exact ⟨q, old, rfl⟩
  · rw [retained]
    exact fun i r held => ⟨r, held, rfl⟩

theorem set_retained {r r' : Retained} (held : row s.retained i = some r)
    (same : r.association = r'.association) (pending : t.pending = s.pending)
    (retained : t.retained = s.retained.set i (some r')) (active : t.active = s.active)
    (nextId : t.nextId = s.nextId) : Kept s t := by
  refine of_rows ?_ ?_ active (by rw [pending]) (Nat.le_of_eq nextId.symm)
  · rw [pending]
    exact fun i p held => ⟨p, held, rfl⟩
  intro j q there
  obtain ⟨rfl, ⟨⟩⟩ | old := of_row_set (retained ▸ there)
  · exact ⟨r, held, same⟩
  · exact ⟨q, old, rfl⟩

theorem halt (s : CloudAdmission edhoc) : Kept s s.halt := by
  refine of_rows ?_ ?_ rfl (Nat.le_of_eq (count_map_map _ _)) (Nat.le_refl _)
  · intro i p' held
    simp only [CloudAdmission.halt, row_map_map, map_eq_some_iff] at held
    obtain ⟨p, before, rfl⟩ := held
    exact ⟨p, before, rfl⟩
  intro i r' held
  simp only [CloudAdmission.halt, row_map_map, map_eq_some_iff] at held
  obtain ⟨r, before, rfl⟩ := held
  exact ⟨r, before, rfl⟩

theorem upkept (s : CloudAdmission edhoc) (now : Nat) (registry : AdmissionRegistry prim) :
    Kept s (s.upkept now registry) := by
  refine of_rows ?_ ?_ (upkept_active ..) ?_ (by rw [upkept_nextId])
  · intro i p' held
    rw [upkept_pending, row_map_bind, bind_eq_some_iff] at held
    obtain ⟨p, before, kept⟩ := held
    obtain ⟨-, ⟨rfl, -⟩ | rfl⟩ := Pending.maintain_cases kept
    · exact ⟨p', before, rfl⟩
    · exact ⟨p, before, rfl⟩
  · intro i r' held
    rw [upkept_retained, row_map_bind, bind_eq_some_iff] at held
    obtain ⟨r, before, kept⟩ := held
    obtain ⟨-, ⟨rfl, -⟩ | rfl⟩ := Retained.maintain_cases kept
    · exact ⟨r', before, rfl⟩
    · exact ⟨r, before, rfl⟩
  · rw [upkept_pending]
    exact count_map_bind_le _ _

theorem spent {endpoint : UdpEndpoint} {n : Nat} (spent : Spent s t endpoint n) : Kept s t :=
  .of_eq spent.pending spent.retained spent.active (by rw [spent.same])

theorem tended (tended : Tended s t) : Kept s t := by
  refine of_rows ?_ ?_ (by rw [tended.same]) ?_ (by rw [tended.same])
  · intro i p' held
    have related := tended.pending i
    rw [held] at related
    generalize before : row s.pending i = o at related
    cases related with
    | some one =>
      rw [one.2]
      exact ⟨_, rfl, rfl⟩
  · intro i r' held
    have related := tended.retained i
    rw [held] at related
    generalize before : row s.retained i = o at related
    cases related with
    | some one =>
      rw [one.2]
      exact ⟨_, rfl, rfl⟩
  refine Nat.le_of_eq (count_congr tended.pendingLength fun i => ?_)
  have related := tended.pending i
  generalize row s.pending i = before, row t.pending i = after at related
  cases related with
  | none => rfl
  | some => rfl

end Kept

end CloudAdmission

def CloudEvent.allocation : CloudEvent → Option ConnectionId
  | .allocated id => some id
  | _ => none

namespace CloudAdmission

def allocated (s : CloudAdmission edhoc) (call : CloudCall prim ε) : List ConnectionId :=
  (s.events call).filterMap (·.allocation)

/-- What a call makes of the reservations, and which identifiers it gives out. -/
inductive Admits (s : CloudAdmission edhoc) : CloudAdmission edhoc → List ConnectionId → Prop
  | kept {t : CloudAdmission edhoc} (kept : Kept s t) : Admits s t []
  /-- A handshake begins, under an identifier that the counter had not passed. -/
  | opened {t u : CloudAdmission edhoc} {slot n : Nat} {k : Reservation} (kept : Kept s u)
      (alone : ∀ i other, u.at_ (.pending i) = some other → other.endpoint ≠ k.endpoint)
      (fresh : u.nextId ≤ n) (bounded : n ≤ maxCounter) (id : k.localId = counterId n)
      (other : k.localId ≠ k.peerId) (room : t.used ≤ t.active.length)
      (places : t.at_ = update u.at_ (.pending slot) (some k)) (next : t.nextId = n + 1) :
    Admits s t [k.localId]
  /-- A handshake becomes an association, and is retained. -/
  | handed {t u : CloudAdmission edhoc} {slot activeSlot cacheSlot : Nat} {k k' : Reservation}
      (kept : Kept s u) (held : u.at_ (.pending slot) = some k)
      (own : k'.localId = k.localId ∧ k'.peerId = k.peerId)
      (used : t.used = u.used) (length : t.active.length = u.active.length)
      (places : t.at_ = update (update (update u.at_
        (.pending slot) none) (.active activeSlot) (some k')) (.retained cacheSlot) (some k'))
      (next : t.nextId = u.nextId) : Admits s t []

variable {s t u : CloudAdmission edhoc} {bytes : List UInt8} {endpoint : UdpEndpoint}
  {i now : Nat} {registry : AdmissionRegistry prim}
  {result : Except (CloudError ε) (Option AdmittedSession) × CloudAdmission edhoc}

theorem at_set_pending {slot : Nat} {p : Option (Pending edhoc)}
    (inside : slot < s.pending.length) (pending : t.pending = s.pending.set slot p)
    (retained : t.retained = s.retained) (active : t.active = s.active) :
    t.at_ = update s.at_ (.pending slot) (p.map (·.reservation)) := by
  funext place
  rw [update_apply]
  cases place with
  | pending i =>
    rw [at_, pending, row_set inside]
    simp only [Place.pending.injEq, eq_comm (a := i)]
    split <;> rfl
  | active i => simp [at_, active]
  | retained i => simp [at_, retained]

theorem admits_received {result : Ingested edhoc ε} (before : Kept s u)
    (received : Received u bytes endpoint now registry result) :
    Admits s result.state (result.events.filterMap (·.allocation)) := by
  cases received with
  | ignored spent => exact .kept (before.trans (.spent spent))
  | @pending t wire parsed i p p' status spent copied read held from_ answered =>
    refine .kept (before.trans (.set_pending held ?_ rfl spent.retained spent.active
      (by rw [spent.same])))
    obtain ⟨-, rfl⟩ | ⟨-, ys, final, replays, rfl⟩ | ⟨-, -, -, -, parsed, code, late, rfl, -⟩ :=
      Pending.answer_cases answered
    · rfl
    · rfl
    · rfl
  | @retained t wire parsed i r r' status spent copied read held from_ answered =>
    refine .kept (before.trans (.set_retained held ?_ spent.pending rfl spent.active
      (by rw [spent.same])))
    obtain ⟨-, rfl⟩ | ⟨-, ys, final, replays, rfl⟩ | ⟨-, -, parsed, code, late, rfl, -⟩ :=
      Retained.answer_cases answered
    · rfl
    · rfl
    · rfl
  | challenged spent =>
    exact .kept (before.trans (.of_eq spent.pending spent.retained spent.active (by rw [spent.same])))
  | exhausted spent allocation =>
    obtain ⟨same, grown, -⟩ := allocateId_cases allocation
    refine .kept ((before.trans (.spent spent)).trans (.of_eq ?_ ?_ ?_ grown))
    · rw [same]
    · rw [same]
    · rw [same]
  | @opened t u' n slot parsed value localId peerId responder reply spent read echoed unused valid free
      inside alone room allocation request under some_ expires computed =>
    obtain ⟨same, -, failed | ⟨m, from_, bounded, next, ok, other, -⟩⟩ := allocateId_cases allocation
    · cases failed.1
    cases ok
    have active : u'.active = u.active := by
      rw [same]
      exact spent.active
    have retained : u'.retained = u.retained := by
      rw [same]
      exact spent.retained
    have events : (CloudEvent.allocated (counterId m) :: if n = 0 then []
        else [CloudEvent.message1 endpoint parsed.header.id now]).filterMap (·.allocation) =
        [counterId m] := by
      split <;> rfl
    dsimp only
    rw [events]
    have places := at_set_pending (t := { u' with pending := u.pending.set slot (some
      (opened (counterId m) peerId endpoint responder reply (now + exchangeLifetimeMs))) })
      inside rfl retained active
    refine .opened (k := ⟨counterId m, peerId, endpoint, none⟩) before ?_ ?_ bounded rfl other ?_
      places next
    · intro i k held
      obtain ⟨p, there, rfl⟩ := map_eq_some_iff.mp held
      exact alone i p there
    · rw [spent.same] at from_
      exact from_
    · simp only [used, count_fill free inside, active]
      omega
  | @advanced t n slot wire parsed p p' responder events status spent copied read unused held from_
      waits advance computed once =>
    have silent : events.filterMap (·.allocation) = [] := by
      rw [computed]
      split <;> rfl
    dsimp only
    rw [silent]
    refine .kept (before.trans (.set_pending held ?_ rfl spent.retained spent.active
      (by rw [spent.same])))
    cases advance with
    | refused => rfl
    | complete => rfl

theorem admits_handed (before : Kept s u) (sound : u.Sound) (handed : Handed u registry result) :
    Admits s result.2 [] := by
  cases handed with
  | nothing => exact .kept before
  | refused held finished =>
    refine .kept (before.trans (.set_pending held ?_ rfl rfl rfl rfl))
    rfl
  | @taken slot activeSlot cacheSlot p ready trust held finished sent first activeFree activeInside
      cacheFree cacheInside =>
    obtain ⟨localId, peerId, -⟩ := (sound.pending _ _ held).reserves _ finished
    refine .handed before (at_pending held)
      (⟨localId, peerId⟩ : ready.association.reservation.localId = _ ∧ _) ?_ List.length_set
      (?_ : _ = update (update (update u.at_ (.pending slot) none)
        (.active activeSlot) _) (.retained cacheSlot) _) rfl
    · have cleared := count_clear held
      simp only [used, count_fill activeFree activeInside]
      omega
    funext place
    simp only [update_apply]
    cases place with
    | pending i =>
      simp only [at_, row_set (lt_of_row held), reduceCtorEq, if_false,
        Place.pending.injEq, eq_comm (a := i)]
      split <;> rfl
    | active i =>
      simp only [at_, row_set activeInside, reduceCtorEq, if_false, Place.active.injEq,
        eq_comm (a := i)]
      split <;> rfl
    | retained i =>
    simp only [at_, row_set cacheInside, Place.retained.injEq, eq_comm (a := i)]
    split
    · rfl
    · simp only [reduceCtorEq, if_false]

theorem admits_step (sound : s.Sound) (call : CloudCall prim ε) :
    Admits s (s.step call) (s.allocated call) := by
  have steps := step_cases s call
  generalize state : s.step call = t at steps ⊢
  cases steps with
  | @halted _ now registry observes refused =>
    -- a refused clock is refused before anything is given out
    rw [allocated, events_of_refused observes refused, List.filterMap_nil]
    exact .kept (.halt s)
  | @ingest bytes endpoint now registry entropy result accepts received same =>
    have admits := admits_received (.upkept s now registry) received
    rw [← same] at admits ⊢
    exact admits
  | flush accepts flushes same => exact .kept ((Kept.upkept s _ _).trans (.tended flushes.tended))
  | takeSession accepts handed same =>
    exact admits_handed (.upkept s _ _) (sound_upkept sound accepts _) handed
  | upkeep observes accepts quiet =>
    have silent : s.allocated call = [] := by
      obtain ⟨bytes, endpoint, rfl⟩ | rfl := quiet
      · rfl
      · rfl
    rw [silent]
    exact .kept (.upkept s _ _)
  | @release association slot held =>
    refine .kept ⟨?_, ?_, List.length_set, Nat.le_refl _⟩
    · intro place k there
      cases place with
      | active i =>
        rw [at_, row_set (lt_of_row held)] at there
        split at there
        · cases there
        · exact there
      | _ => exact there
    have cleared := count_clear_le s.active slot
    simp only [used]
    omega
  | unknown => exact .kept (.refl s)

/-! ### The reservations of a run -/

/-- How the three tables reserve room and identifiers for each other. -/
structure Admitted (s : CloudAdmission edhoc) : Prop where
  /-- Every provisional handshake can become an association. -/
  capacity : Slots.count s.active + Slots.count s.pending ≤ s.active.length
  /-- An endpoint has one provisional handshake at most. -/
  endpoints : ∀ i j a b, s.at_ (.pending i) = some a → s.at_ (.pending j) = some b →
    a.endpoint = b.endpoint → i = j
  peers : ∀ place k, s.at_ place = some k → k.localId ≠ k.peerId
  /-- Two slots with one identifier are those of an association and its own retained handshake. -/
  ids : ∀ x y a b, s.at_ x = some a → s.at_ y = some b → a.localId = b.localId →
    x = y ∨ x.Paired y ∧ a.association = b.association

/-- What every state of a run has. -/
structure Reserved (s : CloudAdmission edhoc) : Prop where
  sound : s.Sound
  counted : ∀ place k, s.at_ place = some k → IdBelow s.nextId k.localId
  admitted : s.Admitted

theorem Kept.reserved (kept : Kept s t) (sound : t.Sound) (reserved : s.Reserved) : t.Reserved := by
  obtain ⟨-, counted, capacity, endpoints, peers, ids⟩ := reserved
  refine ⟨sound, fun place k held => (counted place k (kept.at_ _ _ held)).mono kept.nextId, ?_,
    fun i j a b hi hj => endpoints i j a b (kept.at_ _ _ hi) (kept.at_ _ _ hj),
    fun place k held => peers place k (kept.at_ _ _ held),
    fun x y a b hx hy => ids x y a b (kept.at_ _ _ hx) (kept.at_ _ _ hy)⟩
  rw [kept.length]
  exact kept.used.trans capacity

theorem Admits.reserved {ids : List ConnectionId} (admits : Admits s t ids) (sound : t.Sound)
    (reserved : s.Reserved) : t.Reserved := by
  cases admits with
  | kept kept => exact kept.reserved sound reserved
  | @opened u slot n k kept alone fresh bounded id other room places next =>
    have counted (place : Place) (k : Reservation) (held : u.at_ place = some k) :
        IdBelow u.nextId k.localId := (reserved.counted place k (kept.at_ _ _ held)).mono kept.nextId
    -- a slot holds the new reservation or what it held before
    have cases_ {place : Place} {k' : Reservation} (held : t.at_ place = some k') :
        place = .pending slot ∧ k' = k ∨ u.at_ place = some k' := by
      rw [places, update_apply] at held
      split at held
      next here => exact .inl ⟨here, (some.inj held).symm⟩
      · exact .inr held
    refine ⟨sound, ?_, room, ?_, ?_, ?_⟩
    · intro place k' held
      rw [next]
      obtain ⟨-, rfl⟩ | old := cases_ held
      · exact ⟨n, Nat.lt_succ_self n, bounded, id⟩
      · exact (counted place k' old).mono (by omega)
    · intro i j a b hi hj same
      obtain ⟨here, rfl⟩ | old := cases_ hi
      · obtain ⟨there, rfl⟩ | old' := cases_ hj
        · cases here
          cases there
          rfl
        · exact absurd same.symm (alone j b old')
      obtain ⟨there, rfl⟩ | old' := cases_ hj
      · exact absurd same (alone i a old)
      · exact reserved.admitted.endpoints i j a b (kept.at_ _ _ old) (kept.at_ _ _ old') same
    · intro place k' held
      obtain ⟨-, rfl⟩ | old := cases_ held
      · exact other
      · exact reserved.admitted.peers place k' (kept.at_ _ _ old)
    · intro x y a b hx hy same
      obtain ⟨rfl, rfl⟩ | old := cases_ hx
      · obtain ⟨rfl, rfl⟩ | old' := cases_ hy
        · exact .inl rfl
        · rw [id] at same
          exact absurd same.symm ((counted y b old').ne fresh bounded)
      obtain ⟨rfl, rfl⟩ | old' := cases_ hy
      · rw [id] at same
        exact absurd same ((counted x a old).ne fresh bounded)
      · exact reserved.admitted.ids x y a b (kept.at_ _ _ old) (kept.at_ _ _ old') same
  | @handed u slot activeSlot cacheSlot k k' kept held own used length places next =>
  have before := kept.at_ _ _ held
  -- a slot holds the association or what it held before, but not the handshake any more
  have cases_ {place : Place} {q : Reservation} (there : t.at_ place = some q) :
      (place = .active activeSlot ∨ place = .retained cacheSlot) ∧ q = k' ∨
        place ≠ .pending slot ∧ s.at_ place = some q := by
    rw [places] at there
    simp only [update_apply] at there
    split at there
    next here => exact .inl ⟨.inr here, (some.inj there).symm⟩
    next =>
    split at there
    next here => exact .inl ⟨.inl here, (some.inj there).symm⟩
    next =>
    split at there
    · cases there
    next moved => exact .inr ⟨moved, kept.at_ _ _ there⟩
  -- nobody else had the identifier of the handshake
  have alone {place : Place} {q : Reservation} (moved : place ≠ .pending slot)
      (there : s.at_ place = some q) : k'.localId ≠ q.localId := by
    intro same
    obtain here | ⟨paired, -⟩ := reserved.admitted.ids _ place k q before there (own.1.symm.trans same)
    · exact moved here.symm
    · cases place <;> exact paired
  refine ⟨sound, ?_, ?_, ?_, ?_, ?_⟩
  · intro place q there
    rw [next]
    obtain ⟨-, rfl⟩ | ⟨-, old⟩ := cases_ there
    · rw [own.1]
      exact (reserved.counted _ _ before).mono kept.nextId
    · exact (reserved.counted _ _ old).mono kept.nextId
  · rw [length, kept.length]
    exact (Nat.le_of_eq used).trans (kept.used.trans reserved.admitted.capacity)
  · intro i j a b hi hj same
    obtain ⟨(here | here), -⟩ | ⟨-, old⟩ := cases_ hi
    · cases here
    · cases here
    obtain ⟨(there | there), -⟩ | ⟨-, old'⟩ := cases_ hj
    · cases there
    · cases there
    · exact reserved.admitted.endpoints i j a b old old' same
  · intro place q there
    obtain ⟨-, rfl⟩ | ⟨-, old⟩ := cases_ there
    · rw [own.1, own.2]
      exact reserved.admitted.peers _ _ before
    · exact reserved.admitted.peers _ _ old
  intro x y a b hx hy same
  obtain ⟨here, rfl⟩ | ⟨moved, old⟩ := cases_ hx
  · obtain ⟨there, rfl⟩ | ⟨moved', old'⟩ := cases_ hy
    · obtain rfl | rfl := here <;> obtain rfl | rfl := there
      · exact .inl rfl
      · exact .inr ⟨trivial, rfl⟩
      · exact .inr ⟨trivial, rfl⟩
      · exact .inl rfl
    · exact absurd same (alone moved' old')
  obtain ⟨there, rfl⟩ | ⟨moved', old'⟩ := cases_ hy
  · exact absurd same.symm (alone moved old)
  · exact reserved.admitted.ids x y a b old old' same

theorem reserved_step (reserved : s.Reserved) (call : CloudCall prim ε) : (s.step call).Reserved :=
  (admits_step reserved.sound call).reserved (sound_step reserved.sound call) reserved

theorem reserved_of_new {active pending retained sources nowMs : Nat} {identity : Identity prim}
    {limits : AdmissionLimits} {entropy : Option (Receipts.Fixed 32)}
    (created : (new edhoc (active, pending, retained, sources) identity nowMs limits entropy :
      Except (CloudError ε) (CloudAdmission edhoc)) = .ok s) :
    s.Reserved ∧ ∀ place, s.at_ place = none := by
  have empty (place : Place) : s.at_ place = none := by
    obtain ⟨-, key, rfl⟩ := new_eq_ok created
    cases place <;> simp [at_]
  have none_ {P : Prop} {place : Place} {k : Reservation} (held : s.at_ place = some k) : P := by
    rw [empty] at held
    cases held
  refine ⟨⟨rows_of_new created _ _, fun _ _ => none_, ?_, fun _ _ _ _ => none_, fun _ _ => none_,
    fun _ _ _ _ => none_⟩, empty⟩
  obtain ⟨-, key, rfl⟩ := new_eq_ok created
  simp [count_replicate]

/-! ### Identifiers of a run -/

theorem Admits.ids {ids : List ConnectionId} (admits : Admits s t ids) :
    s.nextId ≤ t.nextId ∧ (ids = [] ∨ ∃ n, ids = [counterId n] ∧ s.nextId ≤ n ∧ n ≤ maxCounter ∧
      t.nextId = n + 1) := by
  cases admits with
  | kept kept => exact ⟨kept.nextId, .inl rfl⟩
  | opened kept alone fresh bounded id other room places next =>
    have above := kept.nextId
    exact ⟨by omega, .inr ⟨_, by rw [id], by omega, bounded, next⟩⟩
  | handed kept held own used length places next => exact ⟨by rw [next]; exact kept.nextId, .inl rfl⟩

def allocations (s : CloudAdmission edhoc) (calls : List (CloudCall prim ε)) : List ConnectionId :=
  (trace step s calls).flatMap fun entry => entry.1.allocated entry.2

theorem allocations_cons (s : CloudAdmission edhoc) (call : CloudCall prim ε)
    (calls : List (CloudCall prim ε)) :
    allocations s (call :: calls) = s.allocated call ++ allocations (s.step call) calls := rfl

theorem allocations_increase (sound : s.Sound) (calls : List (CloudCall prim ε)) :
    (∀ id ∈ allocations s calls, s.nextId ≤ rank id) ∧
      (allocations s calls).Pairwise fun a b => rank a < rank b := by
  induction calls generalizing s with
  | nil => exact ⟨nofun, .nil⟩
  | cons call calls ih =>
  obtain ⟨later, increasing⟩ := ih (sound_step sound call)
  rw [allocations_cons]
  obtain ⟨grown, none_ | ⟨n, one, above, bounded, next⟩⟩ := (admits_step sound call).ids
  · rw [none_]
    exact ⟨fun id mem => grown.trans (later id mem), increasing⟩
  rw [one]
  -- what comes later is above the identifier given out now
  have beyond (id : ConnectionId) (mem : id ∈ allocations (s.step call) calls) : n < rank id := by
    have := later id mem
    omega
  constructor
  · intro id mem
    obtain rfl | mem := List.mem_cons.mp mem
    · rw [rank_counterId bounded]
      exact above
    · exact above.trans (Nat.le_of_lt (beyond id mem))
  refine .cons ?_ increasing
  intro id mem
  rw [rank_counterId bounded]
  exact beyond id mem

/-- Whoever has a handshake has been given its identifier. -/
theorem mem_allocations (sound : s.Sound) {calls : List (CloudCall prim ε)} {k : Reservation}
    (held : (run step s calls).at_ (.pending i) = some k) :
    s.at_ (.pending i) = some k ∨ k.localId ∈ allocations s calls := by
  induction calls generalizing s with
  | nil => exact .inl held
  | cons call calls ih =>
  rw [allocations_cons]
  obtain there | later := ih (sound_step sound call) held
  · have admits := admits_step sound call
    generalize s.step call = t at there admits
    generalize s.allocated call = ids at admits
    cases admits with
    | kept kept => exact .inl (kept.at_ _ _ there)
    | opened kept alone fresh bounded id other room places next =>
      rw [places, update_apply] at there
      split at there
      · cases there
        exact .inr (List.mem_append_left _ (List.mem_singleton_self _))
      · exact .inl (kept.at_ _ _ there)
    | handed kept held' own used length places next =>
    simp only [places, update_apply, reduceCtorEq, if_false] at there
    split at there
    · cases there
    · exact .inl (kept.at_ _ _ there)
  · exact .inr (List.mem_append_right _ later)

def Exhausts (s : CloudAdmission edhoc) : CloudCall prim ε → Prop
  | .ingest bytes endpoint now registry entropy =>
    (s.ingest bytes endpoint now registry entropy : Ingested edhoc ε).status = .error .identifiers
  | _ => False

/-- Two attempts are enough: only the peer's own identifier is in the way. -/
theorem exhausted_counter {peerId : ConnectionId} {e : CloudError ε}
    (counted : ∀ place k, s.at_ place = some k → IdBelow s.nextId k.localId)
    (failed : s.allocateId peerId 2 = (.error e, t)) : maxCounter < t.nextId := by
  obtain ⟨-, -, ⟨-, used | ⟨last, taken⟩⟩ | ⟨n, -, -, -, ok, -⟩⟩ := allocateId_cases failed
  · exact used
  · by_contra left
    have inUse (n : Nat) (from_ : s.nextId ≤ n) (below : n < t.nextId) : counterId n = peerId := by
      refine (taken n from_ below).resolve_right ?_
      have unused {place : Place} {k : Reservation} (held : s.at_ place = some k) :
          k.localId ≠ counterId n := (counted place k held).ne from_ (by omega)
      rw [reservesConnectionId, Bool.or_eq_true, Bool.or_eq_true, any_row, any_row, any_row]
      simp only [decide_eq_true_eq]
      rintro ((⟨i, a, held, same⟩ | ⟨i, p, held, same⟩) | ⟨i, r, held, same⟩)
      · exact unused (at_active held) same
      · exact unused (at_pending held) same
      · exact unused (at_retained held) same
    have first := inUse s.nextId (by omega) (by omega)
    have second := inUse (s.nextId + 1) (by omega) (by omega)
    have same := congrArg rank (first.trans second.symm)
    rw [rank_counterId (by omega), rank_counterId (by omega)] at same
    omega
  · cases ok

theorem counter_of_exhausts (reserved : s.Reserved) {call : CloudCall prim ε}
    (exhausts : s.Exhausts call) : maxCounter < (s.step call).nextId := by
  cases call with
  | ingest bytes endpoint now registry entropy =>
    simp only [Exhausts] at exhausts
    simp only [step]
    obtain ⟨-, halted⟩ | ⟨accepts, received⟩ :=
      ingest_cases (ε := ε) s bytes endpoint now registry entropy
    · rw [halted] at exhausts
      cases exhausts
    generalize (s.ingest bytes endpoint now registry entropy : Ingested edhoc ε) = result
      at exhausts received
    cases received with
    | ignored spent ends => obtain ignored | clock := ends <;> simp_all
    | pending spent copied read held from_ answered =>
      obtain ⟨ignored | clock, -⟩ | ⟨progress, -⟩ | ⟨-, -, -, -, parsed, code, -, -, progress⟩ :=
        Pending.answer_cases answered
      all_goals simp_all
    | retained spent copied read held from_ answered =>
      obtain ⟨ignored | clock, -⟩ | ⟨progress, -⟩ | ⟨-, -, parsed, code, -, -, progress⟩ :=
        Retained.answer_cases answered
      all_goals simp_all
    | challenged => cases exhausts
    | exhausted spent allocation =>
      refine exhausted_counter ?_ allocation
      intro place k held
      have kept := (Kept.upkept s now registry).trans (.spent spent)
      exact (reserved.counted place k (kept.at_ _ _ held)).mono kept.nextId
    | opened => cases exhausts
    | advanced spent copied read unused held from_ waits advance =>
    cases advance with
    | refused => cases exhausts
    | complete => cases exhausts
  | _ => cases exhausts

/-! ### Retained handshakes -/

/-- A retained handshake stays where it is, for as long as it was to stay. -/
def Stays (s t : CloudAdmission edhoc) : Prop :=
  ∀ i r, Slots.row s.retained i = some r → ∃ r', Slots.row t.retained i = some r' ∧
    r'.association = r.association ∧ r.expires ≤ r'.expires

theorem stays_of_eq (same : t.retained = s.retained) : Stays s t :=
  fun i r held => ⟨r, by rw [same]; exact held, rfl, Nat.le_refl _⟩

theorem stays_received {result : Ingested edhoc ε}
    (received : Received s bytes endpoint now registry result) : Stays s result.state := by
  cases received with
  | ignored spent => exact stays_of_eq spent.retained
  | pending spent => exact stays_of_eq spent.retained
  | challenged spent => exact stays_of_eq spent.retained
  | advanced spent => exact stays_of_eq spent.retained
  | exhausted spent allocation
  | opened spent read echoed unused valid free inside alone room allocation =>
    refine stays_of_eq ?_
    rw [(allocateId_cases allocation).1]
    exact spent.retained
  | @retained t wire parsed i r r' status spent copied read held from_ answered =>
  -- the answer leaves the association, and never shortens the time
  have kept : r'.association = r.association ∧ r.expires ≤ r'.expires := by
    obtain ⟨-, rfl⟩ | ⟨-, ys, final, -, rfl⟩ | ⟨-, -, parsed, code, -, rfl, -⟩ :=
      Retained.answer_cases answered
    · exact ⟨rfl, Nat.le_refl _⟩
    · exact ⟨rfl, Nat.le_refl _⟩
    · exact ⟨rfl, Nat.le_max_left _ _⟩
  intro j x there
  simp only [row_set (lt_of_row held)]
  by_cases here : i = j
  · subst here
    rw [held] at there
    cases there
    exact ⟨r', by rw [if_pos rfl], kept⟩
  · exact ⟨x, by rw [if_neg here]; exact there, rfl, Nat.le_refl _⟩

theorem stays_handed (handed : Handed s registry result) : Stays s result.2 := by
  cases handed with
  | nothing => exact stays_of_eq rfl
  | refused => exact stays_of_eq rfl
  | @taken slot activeSlot cacheSlot p ready trust held finished sent first activeFree activeInside
      cacheFree cacheInside known accepted =>
    intro j r there
    refine ⟨r, ?_, rfl, Nat.le_refl _⟩
    simp only [row_set cacheInside]
    rw [if_neg]
    · exact there
    -- the new row takes a free slot
    rintro rfl
    rw [cacheFree] at there
    cases there

/-- A row leaves the table of retained handshakes only by its time. -/
theorem retained_step (s : CloudAdmission edhoc) (call : CloudCall prim ε) {r : Retained}
    (held : row s.retained i = some r) :
    (∃ r', row (s.step call).retained i = some r' ∧ r'.association = r.association ∧
        r.expires ≤ r'.expires) ∨
      ∃ now registry, call.observes = some (now, registry) ∧ s.Accepts now ∧ r.expires ≤ now := by
  -- upkeep drops the row if its time has come; nothing after it does
  have upkept {now : Nat} {registry : AdmissionRegistry prim} {t : CloudAdmission edhoc}
      (observes : call.observes = some (now, registry)) (accepts : s.Accepts now)
      (stays : Stays (s.upkept now registry) t) :
      (∃ r', row t.retained i = some r' ∧ r'.association = r.association ∧
          r.expires ≤ r'.expires) ∨
        ∃ now registry, call.observes = some (now, registry) ∧ s.Accepts now ∧ r.expires ≤ now := by
    by_cases expired : r.expires ≤ now
    · exact .inr ⟨now, registry, observes, accepts, expired⟩
    refine .inl ?_
    obtain ⟨r', kept, same, later⟩ : ∃ r', row (s.upkept now registry).retained i = some r' ∧
        r'.association = r.association ∧ r'.expires = r.expires := by
      rw [upkept_retained, row_map_bind, held, bind_some, Retained.maintain,
        if_neg expired]
      split
      · exact ⟨_, rfl, rfl, rfl⟩
      · exact ⟨_, rfl, rfl, rfl⟩
    obtain ⟨r'', there, same', later'⟩ := stays i r' kept
    exact ⟨r'', there, same'.trans same, by omega⟩
  have steps := step_cases s call
  generalize s.step call = t at steps ⊢
  cases steps with
  | halted =>
    refine .inl ⟨r.halt, ?_, rfl, Nat.le_refl _⟩
    simp only [halt, row_map_map, held, map_some]
  | ingest accepts received same => exact upkept rfl accepts (stays_received received)
  | flush accepts flushes same =>
    refine upkept rfl accepts ?_
    intro j x there
    have related := flushes.tended.retained j
    rw [there] at related
    generalize row _ j = after at related
    cases related with
    | some one => exact ⟨_, rfl, by rw [one.2], Nat.le_of_eq (by rw [one.2])⟩
  | takeSession accepts handed same => exact upkept rfl accepts (stays_handed handed)
  | upkeep observes accepts => exact upkept observes accepts (stays_of_eq rfl)
  | release => exact .inl ⟨r, held, rfl, Nat.le_refl _⟩
  | unknown => exact .inl ⟨r, held, rfl, Nat.le_refl _⟩

/-! ### Hand-off -/

/-- The handshake that was admitted first of those that are finished and have sent their replies. -/
structure Oldest (s : CloudAdmission edhoc) (i : Nat) (p : Pending edhoc) : Prop where
  held : Slots.row s.pending i = some p
  ready : Pending.handsOff p = true
  first : ∀ j q, Slots.row s.pending j = some q → Pending.handsOff q = true →
    rank p.localId ≤ rank q.localId

theorem oldest_of_candidates (reserved : s.Reserved) {p : Pending edhoc}
    (chosen : oldest s.candidates = some (i, p)) : Oldest s i p := by
  obtain ⟨held, ready⟩ := mem_candidates.mp (oldest_mem chosen)
  refine ⟨held, ready, ?_⟩
  intro j q there finished
  have sized (other : Nat × Pending edhoc) (mem : other ∈ s.candidates) :
      other.2.localId.bytes.length = 7 := by
    obtain ⟨n, -, -, id⟩ := reserved.counted _ _ (at_pending (mem_candidates.mp mem).1)
    rw [show other.2.localId = _ from id, bytes_counterId, length_toBe]
  exact oldest_le chosen sized (j, q) (mem_candidates.mpr ⟨there, finished⟩)

/-- What `take_session` does with the handshakes that are there after upkeep. -/
def HandsOldest (s : CloudAdmission edhoc) (registry : AdmissionRegistry prim) :
    Except (CloudError ε) (Option AdmittedSession) → Prop
  | .ok (some session) => ∃ i p ready, s.Oldest i p ∧ p.ready = some ready ∧
      session = ⟨ready.session, ready.association⟩
  | .ok none => (∀ i < s.retained.length, (Slots.row s.retained i).isSome = true) ∨
      ∀ i p, Slots.row s.pending i = some p → Pending.handsOff p = false
  | .error _ => ∃ i p ready, s.Oldest i p ∧ p.ready = some ready ∧
      ∀ trust, registry ready.association.reference = some trust →
        (trust.acceptSession ready.association.grant ready.session).isOk = false

theorem hands_oldest (reserved : s.Reserved) (handed : Handed s registry result) :
    s.HandsOldest registry result.1 := by
  cases handed with
  | refused held finished first objects =>
    exact ⟨_, _, _, oldest_of_candidates reserved first, finished, objects⟩
  | taken held finished sent first => exact ⟨_, _, _, oldest_of_candidates reserved first, finished, rfl⟩
  | nothing why =>
  have nobody (none_ : s.candidates = []) (i : Nat) (p : Pending edhoc)
      (held : row s.pending i = some p) : Pending.handsOff p = false := by
    rw [← Bool.not_eq_true]
    intro ready
    have mem := mem_candidates.mpr ⟨held, ready⟩
    rw [none_] at mem
    cases mem
  obtain full | full | none_ := why
  · refine .inl ?_
    intro i inside
    by_contra free
    have none_ : row s.retained i = none := by simpa using free
    have found := findIdx_free_isSome none_ inside
    rw [full] at found
    cases found
  · -- room is kept for every handshake, so there is none
    refine .inr ?_
    intro i p held
    have room : count s.active < s.active.length := by
      have capacity := reserved.admitted.capacity
      have one := count_clear held
      omega
    obtain ⟨slot, found⟩ := findIdx_of_count_lt room
    rw [full] at found
    cases found
  · exact .inr (nobody none_)

/-! ### The law -/

/-- **Capacity and identity.** In every run of a new listener the tables reserve room and
identifiers for each other; identifiers are given out in increasing order, to every handshake its
own; an identifier is missing only when the counter has run through; a retained handshake leaves
only when its time has come; and `take_session` hands off the oldest handshake that is finished. -/
theorem admission_law {active pending retained sources nowMs : Nat} {identity : Identity prim}
    {limits : AdmissionLimits} {entropy : Option (Receipts.Fixed 32)} {start : CloudAdmission edhoc}
    (created : (new edhoc (active, pending, retained, sources) identity nowMs limits entropy :
      Except (CloudError ε) (CloudAdmission edhoc)) = .ok start)
    (calls : List (CloudCall prim ε)) : (run step start calls).Admitted ∧
      (allocations start calls).Pairwise (fun a b => rank a < rank b) ∧
      (∀ i p, Slots.row (run step start calls).pending i = some p →
        p.localId ∈ allocations start calls) ∧
      ∀ entry ∈ trace step start calls,
        (entry.1.Exhausts entry.2 → maxCounter < (entry.1.step entry.2).nextId) ∧
        (∀ i r, Slots.row entry.1.retained i = some r →
          (∃ r', Slots.row (entry.1.step entry.2).retained i = some r' ∧
              r'.association = r.association ∧ r.expires ≤ r'.expires) ∨
            ∃ now registry, entry.2.observes = some (now, registry) ∧ entry.1.Accepts now ∧
              r.expires ≤ now) ∧
        ∀ now registry, entry.2 = .takeSession now registry → entry.1.Accepts now →
          (entry.1.upkept now registry).HandsOldest registry
            (entry.1.takeSession now registry :
              Except (CloudError ε) (Option AdmittedSession) × _).1 := by
  obtain ⟨begins, empty⟩ := reserved_of_new created
  have keeps (s : CloudAdmission edhoc) (call : CloudCall prim ε) :
      s.Reserved → (s.step call).Reserved := fun reserved => reserved_step reserved call
  have ends := invariant_run keeps begins calls
  refine ⟨ends.admitted, (allocations_increase begins.sound calls).2, ?_, ?_⟩
  · intro i p held
    obtain before | mem := mem_allocations begins.sound (at_pending held)
    · rw [empty] at before
      cases before
    · exact mem
  intro entry mem
  have reserved := invariant_trace keeps begins mem
  refine ⟨counter_of_exhausts reserved, fun i r held => retained_step _ _ held, ?_⟩
  intro now registry same accepts
  obtain ⟨refused, -⟩ | ⟨-, handed⟩ := takeSession_cases (ε := ε) entry.1 now registry
  · exact absurd accepts refused
  · have kept := Kept.upkept entry.1 now registry
    exact hands_oldest (kept.reserved (sound_upkept reserved.sound accepts registry) reserved) handed

def sampleRegistry : AdmissionRegistry Primitives.sample := fun _ =>
  (PeerTrust.install ⟨.sample 1⟩ (.sample 2) .sample (fun _ _ _ => .ok ()) :
    Except (TrustCommitError Unit) _).toOption

/-- A handshake from the first datagram to the session, which waits for the replies to be sent. -/
def handshake : List (CloudCall Primitives.sample Unit) :=
  [strangerCall, echoedCall,
    .ingest (sampleRequest 3 [] (0x47 :: (counterId 1).bytes ++ [0x41, 2])) sampleEndpoint 40
      sampleRegistry none] ++
    List.replicate 3 (.flush (sampleTransport true) 50 sampleRegistry) ++
    [.takeSession 60 sampleRegistry]

/-- A listener with one slot a table that hands a session over. -/
theorem admission_law_sample : (run step sample handshake).Admitted ∧
    allocations sample handshake = [counterId 1] ∧
    (run step sample handshake).active.map (·.map (·.localId)) = [some (counterId 1)] ∧
    (allocations sample handshake).Pairwise (fun a b => rank a < rank b) :=
  ⟨(admission_law new_sample handshake).1, by decide +kernel, by decide +kernel,
    (admission_law new_sample handshake).2.1⟩

end CloudAdmission
end Coaptic.Provisioning
