import Coaptic.Provisioning.CloudReplies

/-!
# What a datagram does to a shared listener

Each way in which a datagram of the EDHOC resource is taken, in terms of the tables: the rows that
change or appear, and what is charged to the budgets. The properties of the listener are read off
these cases.
-/
namespace Coaptic.Provisioning

open Codec Result Slots

variable {prim : Primitives} {edhoc : Edhoc prim} {ε : Type}

namespace CloudAdmission

/-! ### Budgets -/

def spentBy (s : CloudAdmission edhoc) (address : UdpEndpoint) : Nat :=
  (find Source.address s.sources address).elim 0 (·.crypto)

/-- Of two states in one window, the later is charged with `n` computations for a source, within the
limits. -/
structure Charged (s t : CloudAdmission edhoc) (endpoint : UdpEndpoint) (n : Nat) : Prop where
  window : t.windowStart = s.windowStart ∧ t.limits = s.limits
  crypto : t.crypto = s.crypto + n
  crypto_le : n ≠ 0 → t.crypto ≤ t.limits.globalCrypto
  distinct : Slots.Distinct Source.address s.sources → Slots.Distinct Source.address t.sources
  source : Slots.Distinct Source.address s.sources → ∀ a,
    t.spentBy a = s.spentBy a + if a = endpoint.address then n else 0
  source_le : n ≠ 0 → Slots.Distinct Source.address s.sources →
    t.spentBy endpoint.address ≤ t.limits.sourceCrypto

/-- The listener differs in its budgets only. -/
structure Spent (s t : CloudAdmission edhoc) (endpoint : UdpEndpoint) (n : Nat) : Prop
    extends Charged s t endpoint n where
  same : t = { s with sources := t.sources, datagrams := t.datagrams, crypto := t.crypto }

namespace Spent

variable {s t u : CloudAdmission edhoc} {endpoint : UdpEndpoint} {n : Nat}

theorem refl (s : CloudAdmission edhoc) (endpoint : UdpEndpoint) : Spent s s endpoint 0 :=
  ⟨⟨⟨rfl, rfl⟩, rfl, fun wrong => absurd rfl wrong, id, fun _ a => by simp,
    fun wrong => absurd rfl wrong⟩, rfl⟩

theorem trans (first : Spent s t endpoint 0) (second : Spent t u endpoint n) :
    Spent s u endpoint n := by
  refine ⟨⟨?_, ?_, second.crypto_le, second.distinct ∘ first.distinct, ?_, ?_⟩, ?_⟩
  · rw [second.same, first.same]
    exact ⟨rfl, rfl⟩
  · rw [second.crypto, first.crypto, Nat.add_zero]
  · intro distinct a
    have one := first.source distinct a
    have two := second.source (first.distinct distinct) a
    simp only [ite_self, Nat.add_zero] at one
    rw [two, one]
  · exact fun some_ distinct => second.source_le some_ (first.distinct distinct)
  · rw [second.same, first.same]

theorem pending (spent : Spent s t endpoint n) : t.pending = s.pending := by rw [spent.same]
theorem retained (spent : Spent s t endpoint n) : t.retained = s.retained := by rw [spent.same]
theorem active (spent : Spent s t endpoint n) : t.active = s.active := by rw [spent.same]

end Spent

/-- Writing a source's row where it belongs changes what is charged to it alone. -/
theorem spentBy_set {s : CloudAdmission edhoc} {slot : Nat} {source : Source}
    (distinct : Slots.Distinct Source.address s.sources) (inside : slot < s.sources.length)
    (accepts : Slots.Accepts Source.address s.sources slot source)
    (replaced : ∀ a, s.sources[slot]? = some (some a) → a.address = source.address)
    (datagrams crypto : Nat) (a : UdpEndpoint) : ({ s with
        sources := s.sources.set slot (some source)
        datagrams := datagrams
        crypto := crypto } : CloudAdmission edhoc).spentBy a =
      if source.address = a then source.crypto else s.spentBy a := by
  simp only [spentBy, distinct.find_set accepts inside replaced]
  split <;> rfl

/-- The slot that a source's row is in, or may be put in. -/
theorem accepts_source {sources : List (Option Source)} {slot : Nat} {address : UdpEndpoint}
    (found : (sources.findIdx? fun item => item.any fun row => row.address = address).or
      (sources.findIdx? (·.isNone)) = some slot) :
    slot < sources.length ∧
      ((∃ row, Slots.row sources slot = some row ∧ row.address = address) ∨
        (Slots.row sources slot = none ∧ ∀ i row, Slots.row sources i = some row →
          row.address ≠ address)) := by
  rw [Option.or_eq_some_iff] at found
  obtain known | ⟨unknown, free⟩ := found
  · obtain ⟨row, held, same⟩ := findIdx_row known
    exact ⟨lt_of_row held, .inl ⟨row, held, by simpa using same⟩⟩
  obtain ⟨here, inside⟩ := findIdx_row_free free
  refine ⟨inside, .inr ⟨here, ?_⟩⟩
  intro i row held same
  have absent := List.findIdx?_eq_none_iff.mp unknown (some row) (mem_iff_row.mpr ⟨i, held⟩)
  simp [same] at absent

/-- A row written over its own source's, or for a source that has none. -/
theorem spent_set {s t : CloudAdmission edhoc} {endpoint : UdpEndpoint} {slot n : Nat}
    {source : Source} (inside : slot < s.sources.length) (address : source.address = endpoint.address)
    (place : (∃ row, Slots.row s.sources slot = some row ∧ row.address = endpoint.address ∧
        source.crypto = row.crypto + n) ∨
      (Slots.row s.sources slot = none ∧ source.crypto = n ∧
        ∀ i row, Slots.row s.sources i = some row → row.address ≠ endpoint.address))
    (same : t = { s with
      sources := s.sources.set slot (some source)
      datagrams := t.datagrams
      crypto := s.crypto + n })
    (limit : n ≠ 0 → s.crypto + n ≤ s.limits.globalCrypto ∧ source.crypto ≤ s.limits.sourceCrypto) :
    Spent s t endpoint n := by
  have accepts (distinct : Slots.Distinct Source.address s.sources) :
      Slots.Accepts Source.address s.sources slot source := by
    intro j a held equal
    obtain ⟨row, here, known, -⟩ | ⟨-, -, unknown⟩ := place
    · exact distinct j slot a row held (row_eq_some.mp here) (by rw [equal, address, known])
    · exact absurd (equal.trans address) (unknown j a (row_eq_some.mpr held))
  have replaced : ∀ a, s.sources[slot]? = some (some a) → a.address = source.address := by
    intro a held
    have here := row_eq_some.mpr held
    obtain ⟨row, there, known, -⟩ | ⟨none_, -⟩ := place
    · rw [there, Option.some.injEq] at here
      rw [← here, known, address]
    · simp [none_] at here
  have before (distinct : Slots.Distinct Source.address s.sources) :
      source.crypto = s.spentBy endpoint.address + n := by
    simp only [spentBy]
    obtain ⟨row, here, known, charged⟩ | ⟨-, charged, unknown⟩ := place
    · have found := distinct.find_eq_some_iff.mpr ⟨mem_iff_row.mpr ⟨slot, here⟩, known⟩
      rw [found, charged]
      rfl
    have absent : find Source.address s.sources endpoint.address = none := by
      rw [find_eq_none_iff]
      intro a member
      obtain ⟨i, held⟩ := mem_iff_row.mp member
      exact unknown i a held
    rw [absent, charged]
    simp
  have after (distinct : Slots.Distinct Source.address s.sources) (a : UdpEndpoint) :
      t.spentBy a = s.spentBy a + if a = endpoint.address then n else 0 := by
    rw [same, spentBy_set distinct inside (accepts distinct) replaced]
    by_cases here : a = endpoint.address
    · rw [if_pos (by rw [address, here]), if_pos here, before distinct, here]
    · rw [if_neg (by rw [address]; exact fun equal => here equal.symm), if_neg here, Nat.add_zero]
  refine ⟨⟨by rw [same]; exact ⟨rfl, rfl⟩, by rw [same], ?_, ?_, after, ?_⟩, by rw [same]⟩
  · intro some_
    rw [same]
    exact (limit some_).1
  · intro distinct
    rw [same]
    exact distinct.set (accepts distinct)
  intro some_ distinct
  rw [after distinct, if_pos rfl, ← before distinct, same]
  exact (limit some_).2

theorem admitDatagram_spent (s : CloudAdmission edhoc) (endpoint : UdpEndpoint) :
    Spent s (s.admitDatagram endpoint).2 endpoint 0 ∧
      ∀ slot, (s.admitDatagram endpoint).1 = some slot →
        ∃ row, Slots.row (s.admitDatagram endpoint).2.sources slot = some row ∧
          row.address = endpoint.address := by
  simp only [admitDatagram]
  split
  · exact ⟨.refl s endpoint, nofun⟩
  next =>
  split
  · exact ⟨.refl s endpoint, nofun⟩
  next slot found =>
  obtain ⟨inside, place⟩ := accepts_source found
  generalize chosen : (row s.sources slot).getD ⟨endpoint.address, 0, 0⟩ = source
  have address : source.address = endpoint.address := by
    obtain ⟨row, here, known⟩ | ⟨none_, -⟩ := place
    · rw [← chosen, here]
      exact known
    · rw [← chosen, none_]
      rfl
  -- the row that is written has the computations of the row that was there
  have spent (datagrams : Nat) (t : CloudAdmission edhoc)
      (same : t = { s with
        sources := s.sources.set slot (some { source with datagrams := datagrams })
        datagrams := t.datagrams }) : Spent s t endpoint 0 := by
    refine spent_set inside (address : { source with datagrams := datagrams }.address = _) ?_ ?_
      (fun wrong => absurd rfl wrong)
    · obtain ⟨row, here, known⟩ | ⟨none_, unknown⟩ := place
      · exact .inl ⟨row, here, known, by rw [← chosen, here]; rfl⟩
      · exact .inr ⟨none_, by rw [← chosen, none_]; rfl, unknown⟩
    · rw [same]
      rfl
  split
  · exact ⟨spent source.datagrams _ rfl, nofun⟩
  next =>
  refine ⟨spent (source.datagrams + 1) _ rfl, ?_⟩
  rintro slot' ⟨⟩
  refine ⟨{ source with datagrams := source.datagrams + 1 }, ?_, address⟩
  rw [row_set inside, if_pos rfl]

theorem admitCrypto_spent {s t : CloudAdmission edhoc} {endpoint : UdpEndpoint} {slot : Nat}
    {row : Source} {admitted : Bool} (here : Slots.row s.sources slot = some row)
    (known : row.address = endpoint.address) (result : s.admitCrypto slot = (admitted, t)) :
    if admitted then Spent s t endpoint 1 else t = s := by
  simp only [admitCrypto, here] at result
  split at result
  · cases result; rfl
  next room =>
  cases result
  simp only [not_or, Nat.not_le] at room
  exact spent_set (lt_of_row here) (known : { row with crypto := row.crypto + 1 }.address = _)
    (.inl ⟨row, here, known, rfl⟩) rfl fun _ => ⟨room.1, room.2⟩

/-! ### Identifiers -/

/-- Identifiers are tried in the order of the counter, and a refused one is not tried again. -/
theorem allocateId_cases {s t : CloudAdmission edhoc} {peerId : ConnectionId} {tries : Nat}
    {result : Except (CloudError ε) ConnectionId} (ran : s.allocateId peerId tries = (result, t)) :
    t = { s with nextId := t.nextId } ∧ s.nextId ≤ t.nextId ∧
      ((result = .error .identifiers ∧ (maxCounter < t.nextId ∨ t.nextId = s.nextId + tries ∧
          ∀ n, s.nextId ≤ n → n < t.nextId →
            counterId n = peerId ∨ s.reservesConnectionId (counterId n) = true)) ∨
        ∃ n, s.nextId ≤ n ∧ n ≤ maxCounter ∧ t.nextId = n + 1 ∧ result = .ok (counterId n) ∧
          counterId n ≠ peerId ∧ s.reservesConnectionId (counterId n) = false) := by
  induction tries generalizing s with
  | zero =>
    cases ran
    refine ⟨rfl, Nat.le_refl _, .inl ⟨rfl, .inr ⟨rfl, ?_⟩⟩⟩
    omega
  | succ tries ih =>
  rw [allocateId] at ran
  split at ran
  next exhausted =>
    cases ran
    exact ⟨rfl, Nat.le_refl _, .inl ⟨rfl, .inl exhausted⟩⟩
  next left =>
  simp only at ran
  split at ran
  next fine =>
    cases ran
    exact ⟨rfl, Nat.le_succ _, .inr ⟨s.nextId, Nat.le_refl _, Nat.not_lt.mp left, rfl, rfl, fine⟩⟩
  next refused =>
  obtain ⟨same, grown, failed | ⟨n, from_, rest⟩⟩ := ih ran
  · refine ⟨by rw [same], Nat.le_of_succ_le grown, .inl ⟨failed.1, ?_⟩⟩
    obtain exhausted | ⟨last, taken⟩ := failed.2
    · exact .inl exhausted
    refine .inr ⟨by simp only [last]; omega, ?_⟩
    intro n above below
    obtain rfl | later := Nat.eq_or_lt_of_le above
    · -- the first one, refused just now
      by_cases peers : counterId s.nextId = peerId
      · exact .inl peers
      refine .inr ?_
      by_contra unreserved
      exact refused ⟨peers, (Bool.eq_false_iff.mpr unreserved : s.reservesConnectionId _ = _)⟩
    · exact taken n later below
  · exact ⟨by rw [same], Nat.le_of_succ_le grown, .inr ⟨n, Nat.le_of_succ_le from_, rest⟩⟩

/-! ### Message 3 -/

/-- What message 3, or an error in its place, makes of a provisional handshake. -/
inductive Advanced (identity : Identity prim) (registry : AdmissionRegistry prim)
    (p : Pending edhoc) (wire : Wire) (mid : MessageId) (now : Nat) :
    Except (CloudError ε) Status × Pending edhoc × List CloudEvent → Prop
  /-- The peer gave up, or is refused: the reply says so. -/
  | refused {x : Exchange} {notice : Notice} {events : List CloudEvent} (request : x.request = wire)
      (under : x.mid = mid) (reply : x.response.isSome = true) (noticed : x.notice = some notice)
      (expires : x.expires = now + exchangeLifetimeMs)
      (computed : events = [] ∨ events = [.message3 p.endpoint mid now]) :
    Advanced identity registry p wire mid now
      (.ok .progress,
        { p with
          responder := none
          exchanges := { p.exchanges with second := some x }
          expires := max p.expires (now + exchangeLifetimeMs) },
        events)
  /-- The peer is authenticated and let in: the reply is message 4. -/
  | complete {x : Exchange} {session : Session} {reference : CredentialReference}
      {grant : TrustGrant} (request : x.request = wire) (under : x.mid = mid)
      (reply : x.response.isSome = true) (silent : x.notice = none)
      (expires : x.expires = now + exchangeLifetimeMs)
      (allowed : authorize identity registry reference session.principal = some grant) :
    Advanced identity registry p wire mid now
      (.ok .complete,
        { p with
          responder := none
          ready := some ⟨session, ⟨p.localId, p.peerId, p.endpoint, reference, grant⟩⟩
          exchanges := { p.exchanges with second := some x }
          expires := now + exchangeLifetimeMs },
        [.message3 p.endpoint mid now])

theorem advance_cases (identity : Identity prim) (p : Pending edhoc)
    (responder : RegistryResponder edhoc) (wire : Wire) (parsed : ParsedMessage 8)
    (body : List UInt8) (now : Nat) (registry : AdmissionRegistry prim) :
    Advanced identity registry p wire parsed.header.id now
        (advance identity p responder wire parsed body now (now + exchangeLifetimeMs) registry :
          Except (CloudError ε) Status × _) ∧
      (advance identity p responder wire parsed body now (now + exchangeLifetimeMs) registry :
        Except (CloudError ε) Status × _).2.2 =
        if (PeerError.parse body).isNone && (EdhocMessage.fromSlice body).isOk then
          [.message3 p.endpoint parsed.header.id now]
        else [] := by
  simp only [advance]
  cases PeerError.parse body with
  | some code =>
    obtain ⟨reply, written⟩ :=
      abortExchange_eq_ok (ε := ε) parsed wire (now + exchangeLifetimeMs) code
    simp only [written]
    exact ⟨.refused rfl rfl rfl rfl rfl (.inl rfl), rfl⟩
  | none =>
  cases answered : authenticate identity registry responder body with
  | error failure =>
    obtain ⟨reply, written⟩ :=
      errorExchange_eq_ok (ε := ε) parsed wire (now + exchangeLifetimeMs) failure
    simp only [written]
    refine ⟨.refused rfl rfl rfl rfl rfl ?_, by simp⟩
    split
    · exact .inr rfl
    · exact .inl rfl
  | ok accepted =>
  obtain ⟨session, message, reference, grant⟩ := accepted
  obtain ⟨reply, written⟩ :=
    exchange_eq_ok (ε := ε) parsed wire message (now + exchangeLifetimeMs)
  rw [authenticate] at answered
  cases read : EdhocMessage.fromSlice body with
  | error e => simp [read] at answered
  | ok asked =>
  simp only [read] at answered
  have allowed := (RegistryResponder.receiveMessage3_eq_ok answered).1
  simp only [written, Except.isOk, Except.toBool, if_true]
  exact ⟨.complete rfl rfl rfl rfl rfl allowed, rfl⟩

/-! ### Datagrams -/

/-- No live exchange of an endpoint is under a message ID. -/
structure Unused (s : CloudAdmission edhoc) (mid : MessageId) (endpoint : UdpEndpoint) (now : Nat) :
    Prop where
  pending : ∀ i p, row s.pending i = some p → p.endpoint = endpoint →
    ∀ x ∈ p.exchanges.toList, x.expires ≤ now ∨ mid ≠ x.mid
  retained : ∀ i r, row s.retained i = some r → r.association.endpoint = endpoint →
    ∀ x ∈ r.exchanges.toList, x.expires ≤ now ∨ mid ≠ x.mid

theorem unused_of_answer {s : CloudAdmission edhoc} {wire : Wire} {mid : MessageId}
    {endpoint : UdpEndpoint} {now : Nat}
    (none_ : (s.answer wire mid endpoint now : Option (Except (CloudError ε) Status × _)) = none) :
    s.Unused mid endpoint now := by
  simp only [answer] at none_
  split at none_
  · cases none_
  next noPending =>
  split at none_
  · cases none_
  next noRetained =>
  constructor
  · intro i p held at_ x mem
    have silent := amend_none noPending held
    simp only [at_, ne_eq, not_true_eq_false, if_false] at silent
    refine Exchanges.classify_eq_none (?_ : p.exchanges.classify wire.bytes mid now = none) mem
    cases classified : p.exchanges.classify wire.bytes mid now with
    | none => rfl
    | some result => simp [Pending.answer, classified] at silent
  intro i r held at_ x mem
  have silent := amend_none noRetained held
  simp only [at_, ne_eq, not_true_eq_false, if_false] at silent
  refine Exchanges.classify_eq_none (?_ : r.exchanges.classify wire.bytes mid now = none) mem
  cases classified : r.exchanges.classify wire.bytes mid now with
  | none => rfl
  | some result => simp [Retained.answer, classified] at silent

def opened (localId peerId : ConnectionId) (endpoint : UdpEndpoint)
    (responder : Option (RegistryResponder edhoc)) (reply : Exchange) (expires : Nat) :
    Pending edhoc where
  localId := localId
  peerId := peerId
  endpoint := endpoint
  responder := responder
  ready := none
  exchanges := ⟨some reply, none⟩
  expires := expires
  finalError := none

/-- What a datagram does to a listener whose upkeep is done. -/
inductive Received (s : CloudAdmission edhoc) (bytes : List UInt8) (endpoint : UdpEndpoint)
    (now : Nat) (registry : AdmissionRegistry prim) : Ingested edhoc ε → Prop
  | ignored {t : CloudAdmission edhoc} {n : Nat} {status : Except (CloudError ε) Status}
      (spent : Spent s t endpoint n) (ends : status = .ok .ignored ∨ status = .error .clock) :
    Received s bytes endpoint now registry ⟨status, t, []⟩
  /-- Saved state of a provisional handshake answers. -/
  | pending {t : CloudAdmission edhoc} {wire : Wire} {parsed : ParsedMessage 8} {i : Nat}
      {p p' : Pending edhoc} {status : Except (CloudError ε) Status} (spent : Spent s t endpoint 0)
      (copied : wire.bytes = bytes) (read : decode bytes = .ok parsed)
      (held : row s.pending i = some p) (from_ : p.endpoint = endpoint)
      (answered : p.answer wire parsed.header.id now
        (s.reservesMessageId parsed.header.id endpoint now) = some (status, p')) :
    Received s bytes endpoint now registry
      ⟨status, { t with pending := s.pending.set i (some p') }, []⟩
  /-- Saved state of a retained handshake answers. -/
  | retained {t : CloudAdmission edhoc} {wire : Wire} {parsed : ParsedMessage 8} {i : Nat}
      {r r' : Retained} {status : Except (CloudError ε) Status} (spent : Spent s t endpoint 0)
      (copied : wire.bytes = bytes) (read : decode bytes = .ok parsed)
      (held : row s.retained i = some r) (from_ : r.association.endpoint = endpoint)
      (answered : r.answer wire parsed.header.id now
        (s.reservesMessageId parsed.header.id endpoint now) = some (status, r')) :
    Received s bytes endpoint now registry
      ⟨status, { t with retained := s.retained.set i (some r') }, []⟩
  /-- The sender has to echo a value first. -/
  | challenged {t : CloudAdmission edhoc} {parsed : ParsedMessage 8} {reply : Wire}
      (spent : Spent s t endpoint 0) (read : decode bytes = .ok parsed)
      (unused : s.Unused parsed.header.id endpoint now) :
    Received s bytes endpoint now registry
      ⟨.ok .progress,
        { t with challenge := some ⟨endpoint, reply, now + t.limits.echoLifetimeMs⟩ },
        [.issued endpoint now]⟩
  /-- There is no identifier left. -/
  | exhausted {t u : CloudAdmission edhoc} {n : Nat} {peerId : ConnectionId} {e : CloudError ε}
      {parsed : ParsedMessage 8} (spent : Spent s t endpoint n)
      (allocation : t.allocateId peerId 2 = (.error e, u)) (read : decode bytes = .ok parsed)
      (unused : s.Unused parsed.header.id endpoint now) :
    Received s bytes endpoint now registry ⟨.error e, u, []⟩
  /-- Message 1 opens a handshake; it is computed if it can be. -/
  | opened {t u : CloudAdmission edhoc} {n slot : Nat} {parsed : ParsedMessage 8}
      {value : Option (List UInt8)} {localId peerId : ConnectionId}
      {responder : Option (RegistryResponder edhoc)} {reply : Exchange} (spent : Spent s t endpoint n)
      (read : decode bytes = .ok parsed) (echoed : metadata parsed = some value)
      (unused : s.Unused parsed.header.id endpoint now)
      (valid : s.validEcho value endpoint now = true) (free : row s.pending slot = none)
      (inside : slot < s.pending.length)
      (alone : ∀ i p, row s.pending i = some p → p.endpoint ≠ endpoint)
      (room : count s.active + count s.pending < s.active.length)
      (allocation : (t.allocateId peerId 2 : Except (CloudError ε) ConnectionId × _) =
        (.ok localId, u))
      (request : reply.request.bytes = bytes) (under : reply.mid = parsed.header.id)
      (some_ : reply.response.isSome = true) (expires : reply.expires = now + exchangeLifetimeMs)
      (computed : n = 0 ∨ n = 1) :
    Received s bytes endpoint now registry
      ⟨.ok .progress,
        { u with
          pending := s.pending.set slot (some
            (CloudAdmission.opened localId peerId endpoint responder reply
              (now + exchangeLifetimeMs))) },
        .allocated localId :: if n = 0 then [] else [.message1 endpoint parsed.header.id now]⟩
  /-- Message 3 ends a handshake, one way or the other. -/
  | advanced {t : CloudAdmission edhoc} {n slot : Nat} {wire : Wire} {parsed : ParsedMessage 8}
      {p p' : Pending edhoc} {responder : RegistryResponder edhoc} {events : List CloudEvent}
      {status : Except (CloudError ε) Status} (spent : Spent s t endpoint n)
      (copied : wire.bytes = bytes) (read : decode bytes = .ok parsed)
      (unused : s.Unused parsed.header.id endpoint now) (held : row s.pending slot = some p)
      (from_ : p.endpoint = endpoint) (waits : p.responder = some responder)
      (advance : Advanced t.identity registry p wire parsed.header.id now (status, p', events))
      (computed : events = if n = 0 then [] else [.message3 endpoint parsed.header.id now])
      (once : n = 0 ∨ n = 1) :
    Received s bytes endpoint now registry
      ⟨status, { t with pending := s.pending.set slot (some p') }, events⟩

section

variable {s : CloudAdmission edhoc} {bytes : List UInt8} {endpoint : UdpEndpoint} {now : Nat}
  {registry : AdmissionRegistry prim} {wire : Wire} {parsed : ParsedMessage 8} {source : Nat}

theorem received_ignored {t : CloudAdmission edhoc} {n : Nat} (spent : Spent s t endpoint n) :
    Received s bytes endpoint now registry (t.ignored : Ingested edhoc ε) :=
  .ignored spent (.inl rfl)

/-- Saved state that answers, in terms of the listener before the datagram was charged. -/
theorem received_answer {t u : CloudAdmission edhoc} {status : Except (CloudError ε) Status}
    (spent : Spent s t endpoint 0) (copied : wire.bytes = bytes) (read : decode bytes = .ok parsed)
    (answered : t.answer wire parsed.header.id endpoint now = some (status, u)) :
    Received s bytes endpoint now registry ⟨status, u, []⟩ := by
  have reserved : t.reservesMessageId parsed.header.id endpoint now =
      s.reservesMessageId parsed.header.id endpoint now := by
    rw [spent.same]
    rfl
  simp only [answer, reserved] at answered
  split at answered
  next pending found =>
    cases answered
    obtain ⟨i, p, p', held, answer, rfl⟩ := amend_row found
    split at answer
    · cases answer
    next here =>
    rw [spent.pending] at held ⊢
    exact .pending spent copied read held (not_not.mp here) answer
  · split at answered
    next retained found =>
      cases answered
      obtain ⟨i, r, r', held, answer, rfl⟩ := amend_row found
      split at answer
      · cases answer
      next here =>
      rw [spent.retained] at held ⊢
      exact .retained spent copied read held (not_not.mp here) answer
    · cases answered

theorem unused_of_spent {t : CloudAdmission edhoc} {mid : MessageId} (spent : Spent s t endpoint 0)
    (unused : t.Unused mid endpoint now) : s.Unused mid endpoint now :=
  ⟨fun i p held => unused.pending i p (by rw [spent.pending]; exact held),
    fun i r held => unused.retained i r (by rw [spent.retained]; exact held)⟩

/-- The reply to message 1, computed or refused. -/
theorem open_cases {t : CloudAdmission edhoc} {slot : Nat} {message : EdhocMessage}
    {peerId : ConnectionId} {entropy : Option (List UInt8)} (expires : Nat) :
    (∃ e u, (t.allocateId peerId 2 : Except (CloudError ε) ConnectionId × _) = (.error e, u) ∧
        t.open_ slot wire parsed message peerId endpoint now expires entropy = ⟨.error e, u, []⟩) ∨
      ∃ localId u responder reply,
        (t.allocateId peerId 2 : Except (CloudError ε) ConnectionId × _) = (.ok localId, u) ∧
        reply.request = wire ∧ reply.mid = parsed.header.id ∧ reply.response.isSome = true ∧
        reply.expires = expires ∧
        (t.open_ slot wire parsed message peerId endpoint now expires entropy : Ingested edhoc ε) =
          ⟨.ok .progress,
            { u with
              pending := u.pending.set slot (some
                (CloudAdmission.opened localId peerId endpoint responder reply expires)) },
            .allocated localId ::
              if (refusal edhoc message).isSome then []
              else [.message1 endpoint parsed.header.id now]⟩ := by
  cases allocation : (t.allocateId peerId 2 : Except (CloudError ε) ConnectionId × _) with
  | mk result u =>
    cases result with
    | error e =>
      refine .inl ⟨e, u, rfl, ?_⟩
      simp only [open_, allocation, failed]
    | ok localId =>
    refine .inr ⟨localId, u, ?_⟩
    -- refused before any cryptography, or by it
    have written := errorExchange_eq_ok (ε := ε) parsed wire expires
    cases refused : refusal edhoc message with
    | some failure =>
      obtain ⟨reply, said⟩ := written failure
      refine ⟨none, ⟨wire, some reply, _, expires, true, some (.localFailure failure.error)⟩, rfl, rfl,
        rfl, rfl, rfl, ?_⟩
      simp only [open_, allocation, refused, said, Except.map, opened]
    | none =>
    cases computed : (RegistryResponder.receiveMessage1 u.identity localId message entropy :
        Except Error (RegistryResponder edhoc × EdhocMessage)) with
    | error e =>
      obtain ⟨reply, said⟩ := written (.ofError e)
      refine ⟨none, ⟨wire, some reply, _, expires, true,
        some (.localFailure (MessageFailure.ofError e).error)⟩, rfl, rfl, rfl, rfl, rfl, ?_⟩
      simp only [open_, allocation, refused, computed, said, Except.map, opened]
    | ok answered =>
      obtain ⟨responder, answer⟩ := answered
      obtain ⟨reply, said⟩ := exchange_eq_ok (ε := ε) parsed wire answer expires
      refine ⟨some responder, ⟨wire, some reply, _, expires, true, none⟩, rfl, rfl, rfl, rfl, rfl, ?_⟩
      simp only [open_, allocation, refused, computed, said, Except.map, opened]

theorem received_message1 {t : CloudAdmission edhoc} {row : Source} {value : Option (List UInt8)}
    {entropy : Option (List UInt8)} (spent : Spent s t endpoint 0)
    (charged : Slots.row t.sources source = some row) (known : row.address = endpoint.address)
    (copied : wire.bytes = bytes) (read : decode bytes = .ok parsed)
    (echoed : metadata parsed = some value) (unused : s.Unused parsed.header.id endpoint now) :
    Received s bytes endpoint now registry
      (t.receiveMessage1 wire parsed value endpoint source now entropy : Ingested edhoc ε) := by
  fun_cases receiveMessage1 t wire parsed value endpoint source now entropy with
  | case5 =>
    simp only [sendChallenge]
    split
    · exact received_ignored spent
    split
    · exact .ignored spent (.inr rfl)
    next expires sum =>
    obtain ⟨-, rfl⟩ := checkedAdd_eq_some.mp sum
    have short : ∀ value, some (t.echo endpoint now) = some value → value.length ≤ echoLen := by
      rintro value ⟨⟩
      simp [echo, echoLen]
    obtain ⟨reply, written⟩ :=
      response_isOk (ε := ε) parsed .unauthorized [] _ short (by decide) (by decide)
    simp only [written]
    exact .challenged spent read unused
  | case6 => exact .ignored spent (.inr rfl)
  | case7 _ _ _ _ _ _ _ _ _ _ w refused =>
    split at refused
    · cases refused
    have kept := admitCrypto_spent charged known refused
    simp only [Bool.false_eq_true, if_false] at kept
    rw [kept]
    exact received_ignored spent
  | case8 message _ peerId _ vacant slot found valid expires sum w admitted =>
    simp only [not_or, Nat.not_le] at vacant
    obtain ⟨free, inside⟩ := findIdx_row_free found
    rw [spent.pending] at free inside
    obtain ⟨-, rfl⟩ := exchangeExpiry_eq_some.mp sum
    have alone : ∀ i p, Slots.row s.pending i = some p → p.endpoint ≠ endpoint := by
      intro i p held here
      rw [spent.pending] at vacant
      exact vacant.1 (any_row.mpr ⟨i, p, held, by simpa using here⟩)
    have room : count s.active + count s.pending < s.active.length := by
      have below := vacant.2
      rwa [spent.pending, spent.active] at below
    have echoes : s.validEcho value endpoint now = true := by
      have same : t.validEcho value endpoint now = s.validEcho value endpoint now := by
        rw [spent.same]
        rfl
      rw [← same]
      simpa using valid
    -- what opening comes to, once the computation is charged
    have opens {u : CloudAdmission edhoc} {n : Nat} (charge : Spent s u endpoint n)
        (computed : n = if (refusal edhoc message).isSome then 0 else 1) :
        Received s bytes endpoint now registry (u.open_ slot wire parsed message peerId
          endpoint now (now + exchangeLifetimeMs) entropy : Ingested edhoc ε) := by
      obtain ⟨e, w, allocation, result⟩ | ⟨localId, w, responder, reply, allocation, request,
          under, some_, dies, result⟩ :=
        open_cases (now + exchangeLifetimeMs) (ε := ε) (t := u)
      · rw [result]
        exact .exhausted charge allocation read unused
      have tables : w.pending = s.pending := by
        rw [(allocateId_cases allocation).1, charge.pending]
      have events : (if (refusal edhoc message).isSome then []
          else [CloudEvent.message1 endpoint parsed.header.id now]) =
          if n = 0 then [] else [.message1 endpoint parsed.header.id now] := by
        rw [computed]
        split <;> rfl
      rw [result, tables, events]
      refine .opened charge read echoed unused echoes free inside alone room allocation
        (by rw [request]; exact copied) under some_ dies ?_
      rw [computed]
      split
      · exact .inl rfl
      · exact .inr rfl
    split at admitted
    next early =>
      cases admitted
      exact opens spent (by rw [if_pos early])
    next late =>
    have charge := admitCrypto_spent charged known admitted
    simp only [if_true] at charge
    exact opens (spent.trans charge) (by rw [if_neg late])
  | _ => exact received_ignored spent

theorem received_conclude {t : CloudAdmission edhoc} {slot n : Nat} {body : List UInt8}
    {p : Pending edhoc} (spent : Spent s t endpoint n) (copied : wire.bytes = bytes)
    (read : decode bytes = .ok parsed) (unused : s.Unused parsed.header.id endpoint now)
    (held : row s.pending slot = some p) (from_ : p.endpoint = endpoint)
    (once : n = if computesMessage3 body then 1 else 0) : Received s bytes endpoint now registry
      (t.conclude slot wire parsed body now registry : Ingested edhoc ε) := by
  simp only [conclude]
  split
  · exact .ignored spent (.inr rfl)
  next expires sum =>
  obtain ⟨-, rfl⟩ := exchangeExpiry_eq_some.mp sum
  simp only [spent.pending, held]
  split
  · exact received_ignored spent
  next responder waits =>
  obtain ⟨advanced, events⟩ := advance_cases (ε := ε) t.identity p responder wire parsed body now
    registry
  refine .advanced spent copied read unused held from_ waits advanced ?_ ?_
  · rw [events, once, from_, computesMessage3]
    split <;> rfl
  rw [once]
  split
  · exact .inr rfl
  · exact .inl rfl

theorem received_message3 {t : CloudAdmission edhoc} {row : Source} (spent : Spent s t endpoint 0)
    (charged : Slots.row t.sources source = some row) (known : row.address = endpoint.address)
    (copied : wire.bytes = bytes) (read : decode bytes = .ok parsed)
    (unused : s.Unused parsed.header.id endpoint now) : Received s bytes endpoint now registry
      (t.receiveMessage3 wire parsed endpoint source now registry : Ingested edhoc ε) := by
  simp only [receiveMessage3]
  split
  · exact received_ignored spent
  next localId len _ =>
  split
  · exact received_ignored spent
  next slot found =>
  obtain ⟨p, held, test⟩ := findIdx_row found
  simp only [Bool.and_eq_true, decide_eq_true_eq] at test
  rw [spent.pending] at held
  split
  · exact received_ignored spent
  next =>
  have concludes {u : CloudAdmission edhoc} {n : Nat} (charge : Spent s u endpoint n)
      (once : n = if computesMessage3 (parsed.payload.drop len) then 1 else 0) :
      Received s bytes endpoint now registry
        (u.conclude slot wire parsed (parsed.payload.drop len) now registry :
          Ingested edhoc ε) :=
    received_conclude charge copied read unused held test.1.2 once
  split
  next w refused =>
    split at refused
    · have kept := admitCrypto_spent charged known refused
      simp only [Bool.false_eq_true, if_false] at kept
      rw [kept]
      exact received_ignored spent
    · cases refused
  next w admitted =>
    split at admitted
    next computes =>
      have charge := admitCrypto_spent charged known admitted
      simp only [if_true] at charge
      exact concludes (spent.trans charge) (by rw [if_pos computes])
    next idle =>
    cases admitted
    exact concludes spent (by rw [if_neg idle])

/-- Every datagram is taken in one of these ways. -/
theorem receive_cases (s : CloudAdmission edhoc) (bytes : List UInt8) (endpoint : UdpEndpoint)
    (now : Nat) (registry : AdmissionRegistry prim) (entropy : Option (List UInt8)) :
    Received s bytes endpoint now registry
      (s.receive bytes endpoint now registry entropy : Ingested edhoc ε) := by
  have none_ : Received s bytes endpoint now registry (s.ignored : Ingested edhoc ε) :=
    received_ignored (.refl s endpoint)
  simp only [receive]
  split
  · exact none_
  next wire copied =>
  split
  · exact none_
  next parsed read =>
  split
  · exact none_
  next value echoed =>
  have admission := admitDatagram_spent s endpoint
  split
  next t refused =>
    rw [refused] at admission
    exact received_ignored admission.1
  next source t admitted =>
  rw [admitted] at admission
  obtain ⟨row, charged, known⟩ := admission.2 source rfl
  have same : wire.bytes = bytes := by
    simp only [Wire.copy] at copied
    split at copied
    · cases copied; rfl
    · cases copied
  split
  next status u answered => exact received_answer admission.1 same read answered
  next silent =>
  have unused := unused_of_spent admission.1 (unused_of_answer silent)
  split
  · exact received_message1 admission.1 charged known same read echoed unused
  · exact received_message3 admission.1 charged known same read unused

end

end CloudAdmission
end Coaptic.Provisioning
