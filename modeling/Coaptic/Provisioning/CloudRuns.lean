import Coaptic.Provisioning.CloudTurns
import Coaptic.Lib.Trace

/-!
# Steps of a shared listener

Every call is upkeep, and after it one of four things: a datagram, a flush, a hand-off or nothing;
or it releases an association; or the clock is refused, and the listener is silent from then on.
-/
namespace Coaptic.Provisioning

open BigEndian List Slots

variable {prim : Primitives} {edhoc : Edhoc prim} {ε : Type}

namespace CloudAdmission

/-! ### Calls after upkeep -/

theorem ingest_cases (s : CloudAdmission edhoc) (bytes : List UInt8) (endpoint : UdpEndpoint)
    (now : Nat) (registry : AdmissionRegistry prim) (entropy : Option (List UInt8)) :
    (¬s.Accepts now ∧ (s.ingest bytes endpoint now registry entropy : Ingested edhoc ε) =
        ⟨.error .clock, s.halt, []⟩) ∨
      (s.Accepts now ∧ Received (s.upkept now registry) bytes endpoint now registry
        (s.ingest bytes endpoint now registry entropy : Ingested edhoc ε)) := by
  obtain ⟨refused, halted⟩ | ⟨accepted, kept⟩ := maintain_cases (ε := ε) s now registry
  · exact .inl ⟨refused, by simp only [ingest, halted, failed]⟩
  refine .inr ⟨accepted, ?_⟩
  simp only [ingest, kept]
  exact receive_cases _ bytes endpoint now registry entropy

theorem nodup_turns (s : CloudAdmission edhoc) : s.turns.Nodup := by
  refine List.Nodup.map_on ?_ nodup_range
  intro a below b below' same
  rw [mem_range] at below below'
  have residue := Nat.ModEq.add_left_cancel' s.sendCursor same
  exact residue.eq_of_lt_of_lt below below'

variable {s : CloudAdmission edhoc} {items : List (Nat × Pending edhoc)}
  {item : Nat × Pending edhoc}

theorem mem_turns {k : Nat} (mem : k ∈ s.turns) : k < s.owners := by
  obtain ⟨offset, -, rfl⟩ := mem_map.mp mem
  exact Nat.mod_lt _ (Nat.succ_pos _)

theorem flush_cases (s : CloudAdmission edhoc) (io : Transport ε) (now : Nat)
    (registry : AdmissionRegistry prim) :
    (¬s.Accepts now ∧ s.flush io now registry = ⟨.error .clock, s.halt, none⟩) ∨
      (s.Accepts now ∧
        Flushes (s.upkept now registry) now (s.upkept now registry).turns
          (s.flush io now registry)) := by
  obtain ⟨refused, halted⟩ | ⟨accepted, kept⟩ := maintain_cases (ε := ε) s now registry
  · exact .inl ⟨refused, by simp only [flush, halted]⟩
  refine .inr ⟨accepted, ?_⟩
  simp only [flush, kept]
  exact flushFrom_spec _ io now _ (fun k => mem_turns) (nodup_turns _)

/-- An attempt is all that a flush asks of the transport: without one, any other does as well. -/
theorem flush_of_silent {io : Transport ε} {now : Nat} {registry : AdmissionRegistry prim}
    (silent : (s.flush io now registry).attempt = none) (other : Transport ε) :
    s.flush other now registry = s.flush io now registry := by
  obtain ⟨-, halted⟩ | ⟨-, kept⟩ := maintain_cases (ε := ε) s now registry
  · simp only [flush, halted]
  simp only [flush, kept] at silent ⊢
  exact (flushFrom_spec _ io now _ (fun k => mem_turns) (nodup_turns _)).silent silent other

/-! ### Hand-off -/

/-- The number that an identifier spells. -/
def rank (id : ConnectionId) : Nat := ofBe id.bytes

theorem oldest_mem (chosen : oldest items = some item) : item ∈ items := by
  induction items generalizing item with
  | nil => cases chosen
  | cons head rest ih =>
  rw [oldest] at chosen
  split at chosen
  · cases chosen; exact mem_cons_self ..
  next best found =>
  split at chosen
  · cases chosen; exact mem_cons_of_mem _ (ih found)
  · cases chosen; exact mem_cons_self ..

theorem oldest_eq_none (none_ : oldest items = none) : items = [] := by
  cases items with
  | nil => rfl
  | cons head rest =>
  rw [oldest] at none_
  split at none_
  · cases none_
  · split at none_ <;> cases none_

/-- Among identifiers of one length the chosen one is least. -/
theorem oldest_le {n : Nat} (chosen : oldest items = some item)
    (sized : ∀ other ∈ items, other.2.localId.bytes.length = n) :
    ∀ other ∈ items, rank item.2.localId ≤ rank other.2.localId := by
  induction items generalizing item with
  | nil => cases chosen
  | cons head rest ih =>
  have sizedRest : ∀ other ∈ rest, other.2.localId.bytes.length = n :=
    fun other mem => sized other (mem_cons_of_mem _ mem)
  rw [oldest] at chosen
  split at chosen
  next empty =>
    cases chosen
    rw [oldest_eq_none empty]
    intro other mem
    rw [mem_singleton.mp mem]
  next best found =>
  have least := ih found sizedRest
  have compare : best.2.localId.bytes < head.2.localId.bytes ↔
      rank best.2.localId < rank head.2.localId := by
    refine lt_iff_ofBe_lt ?_
    rw [sizedRest best (oldest_mem found), sized head (mem_cons_self ..)]
  split at chosen
  next less =>
    cases chosen
    intro other mem
    obtain rfl | mem := mem_cons.mp mem
    · exact Nat.le_of_lt (compare.mp less)
    · exact least other mem
  next notLess =>
  cases chosen
  intro other mem
  obtain rfl | mem := mem_cons.mp mem
  · exact Nat.le_refl _
  · exact (Nat.not_lt.mp (mt compare.mpr notLess)).trans (least other mem)

theorem mem_candidates {i : Nat} {p : Pending edhoc} :
    (i, p) ∈ s.candidates ↔ row s.pending i = some p ∧ Pending.handsOff p = true := by
  simp only [candidates, mem_filter, mem_filterMap, Prod.exists, Option.map_eq_some_iff,
    Prod.mk.injEq, mk_mem_zipIdx_iff_getElem?, row_eq_some]
  constructor
  · rintro ⟨⟨slot, j, held, q, rfl, rfl, rfl⟩, ready⟩
    exact ⟨held, ready⟩
  · rintro ⟨held, ready⟩
    exact ⟨⟨some p, i, held, p, rfl, rfl, rfl⟩, ready⟩

/-- What a hand-off does to a listener whose upkeep is done. -/
inductive Handed (s : CloudAdmission edhoc) (registry : AdmissionRegistry prim) :
    Except (CloudError ε) (Option AdmittedSession) × CloudAdmission edhoc → Prop
  /-- There is no room to hand off to, or nothing to hand off. -/
  | nothing (why : s.retained.findIdx? (·.isNone) = none ∨ s.active.findIdx? (·.isNone) = none ∨
      s.candidates = []) : Handed s registry (.ok none, s)
  /-- The registry objects: the handshake is silenced. -/
  | refused {slot : Nat} {p : Pending edhoc} {ready : Ready}
      (held : Slots.row s.pending slot = some p) (finished : p.ready = some ready)
      (first : oldest s.candidates = some (slot, p))
      (objects : ∀ trust, registry ready.association.reference = some trust →
        (trust.acceptSession ready.association.grant ready.session).isOk = false) :
    Handed s registry
      (.error (.provisioning .unauthorized),
        { s with
          pending := s.pending.set slot
            (some { p with ready := none, exchanges := p.exchanges.disable }) })
  /-- A finished handshake whose replies are sent becomes an association. -/
  | taken {slot activeSlot cacheSlot : Nat} {p : Pending edhoc} {ready : Ready}
      {trust : PeerTrust prim} (held : Slots.row s.pending slot = some p)
      (finished : p.ready = some ready) (sent : p.exchanges.anyQueued = false)
      (first : oldest s.candidates = some (slot, p))
      (activeFree : Slots.row s.active activeSlot = none) (activeInside : activeSlot < s.active.length)
      (cacheFree : Slots.row s.retained cacheSlot = none)
      (cacheInside : cacheSlot < s.retained.length)
      (known : registry ready.association.reference = some trust)
      (accepted : trust.permits ready.association.grant ready.session.principal = true) :
    Handed s registry
      (.ok (some ⟨ready.session, ready.association⟩),
        { s with
          pending := s.pending.set slot none
          active := s.active.set activeSlot (some ready.association)
          retained := s.retained.set cacheSlot
            (some ⟨ready.association, p.exchanges, p.expires, p.finalError, true⟩) })

theorem acceptSession_eq_ok {trust : PeerTrust prim} {grant : TrustGrant}
    {session accepted : Session} (ok : trust.acceptSession grant session = .ok accepted) :
    accepted = session ∧ trust.permits grant session.principal = true := by
  have permitted : (trust.acceptSession grant session).isOk = true := by rw [ok]; rfl
  refine ⟨?_, (PeerTrust.acceptSession_isOk.mp permitted).1⟩
  simp only [PeerTrust.acceptSession] at ok
  obtain ⟨_, -, rest⟩ := Result.bind_eq_ok.mp ok
  split at rest
  · cases rest
  · cases rest; rfl

section

variable (s : CloudAdmission edhoc)

theorem takeSession_cases (now : Nat) (registry : AdmissionRegistry prim) :
    (¬s.Accepts now ∧ s.takeSession now registry =
        ((.error .clock : Except (CloudError ε) (Option AdmittedSession)), s.halt)) ∨
      (s.Accepts now ∧ Handed (s.upkept now registry) registry
        (s.takeSession now registry : Except (CloudError ε) (Option AdmittedSession) × _)) := by
  obtain ⟨refused, halted⟩ | ⟨accepted, kept⟩ := maintain_cases (ε := ε) s now registry
  · exact .inl ⟨refused, by simp only [takeSession, halted]⟩
  refine .inr ⟨accepted, ?_⟩
  simp only [takeSession, kept]
  split
  next full => exact .nothing (.inl full)
  next cacheSlot cache =>
  split
  next full => exact .nothing (.inr (.inl full))
  next activeSlot active =>
  split
  next nobody => exact .nothing (.inr (.inr (oldest_eq_none nobody)))
  next slot p chosen =>
  obtain ⟨held, ready⟩ := mem_candidates.mp (oldest_mem chosen)
  simp only [Pending.handsOff, Bool.and_eq_true, Bool.not_eq_true'] at ready
  split
  next unready => simp [unready] at ready
  next found finished =>
  obtain ⟨cacheFree, cacheInside⟩ := findIdx_row_free cache
  obtain ⟨activeFree, activeInside⟩ := findIdx_row_free active
  simp only [handOff]
  split
  next unknown => exact .refused held finished chosen (by simp [unknown])
  next trust known =>
  split
  next e refused =>
    refine .refused held finished chosen ?_
    intro trust' known'
    rw [known] at known'
    cases known'
    rw [refused]
    rfl
  next session ok =>
    obtain ⟨rfl, permitted⟩ := acceptSession_eq_ok ok
    exact .taken held finished ready.2 chosen activeFree activeInside cacheFree
      cacheInside known permitted

/-! ### Steps -/

theorem routeOscore_state (bytes : List UInt8) (endpoint : UdpEndpoint) (now : Nat)
    (registry : AdmissionRegistry prim) :
    (s.routeOscore bytes endpoint now registry : Except (CloudError ε) (Option Association) × _).2 =
      (s.maintain now registry : Except (CloudError ε) Unit × _).2 := by
  fun_cases routeOscore s bytes endpoint now registry with
  | case1 e t failed => rw [failed]
  | _ t kept => rw [kept]

/-- What a call does to the listener. -/
inductive Steps (s : CloudAdmission edhoc) : CloudCall prim ε → CloudAdmission edhoc → Prop
  /-- The clock is refused. -/
  | halted {call : CloudCall prim ε} {now : Nat} {registry : AdmissionRegistry prim}
      (observes : call.observes = some (now, registry)) (refused : ¬s.Accepts now) :
    Steps s call s.halt
  | ingest {bytes : List UInt8} {endpoint : UdpEndpoint} {now : Nat}
      {registry : AdmissionRegistry prim} {entropy : Option (List UInt8)} {result : Ingested edhoc ε}
      (accepts : s.Accepts now)
      (received : Received (s.upkept now registry) bytes endpoint now registry result)
      (same : s.ingest bytes endpoint now registry entropy = result) :
    Steps s (.ingest bytes endpoint now registry entropy) result.state
  | flush {io : Transport ε} {now : Nat} {registry : AdmissionRegistry prim} {f : Flushed edhoc ε}
      (accepts : s.Accepts now)
      (flushes : Flushes (s.upkept now registry) now (s.upkept now registry).turns f)
      (same : s.flush io now registry = f) : Steps s (.flush io now registry) f.state
  | takeSession {now : Nat} {registry : AdmissionRegistry prim}
      {result : Except (CloudError ε) (Option AdmittedSession) × CloudAdmission edhoc}
      (accepts : s.Accepts now) (handed : Handed (s.upkept now registry) registry result)
      (same : s.takeSession now registry = result) : Steps s (.takeSession now registry) result.2
  /-- Routing, or upkeep alone. -/
  | upkeep {call : CloudCall prim ε} {now : Nat} {registry : AdmissionRegistry prim}
      (observes : call.observes = some (now, registry)) (accepts : s.Accepts now)
      (quiet : (∃ bytes endpoint, call = .routeOscore bytes endpoint now registry) ∨
        call = .maintain now registry) : Steps s call (s.upkept now registry)
  | release {association : Association} {slot : Nat}
      (held : Slots.row s.active slot = some association) :
    Steps s (.release association) { s with active := s.active.set slot none }
  | unknown {association : Association} : Steps s (.release association) s

theorem step_cases (call : CloudCall prim ε) : Steps s call (s.step call) := by
  cases call with
  | ingest bytes endpoint now registry entropy =>
    obtain ⟨refused, halted⟩ | ⟨accepts, received⟩ :=
      ingest_cases (ε := ε) s bytes endpoint now registry entropy
    · simp only [step, halted]
      exact .halted rfl refused
    · exact .ingest accepts received rfl
  | flush io now registry =>
    obtain ⟨refused, halted⟩ | ⟨accepts, flushes⟩ := flush_cases s io now registry
    · simp only [step, halted]
      exact .halted rfl refused
    · exact .flush accepts flushes rfl
  | takeSession now registry =>
    obtain ⟨refused, halted⟩ | ⟨accepts, handed⟩ := takeSession_cases (ε := ε) s now registry
    · simp only [step, halted]
      exact .halted rfl refused
    · exact .takeSession accepts handed rfl
  | routeOscore _ _ now registry | maintain now registry =>
    simp only [step, routeOscore_state]
    obtain ⟨refused, halted⟩ | ⟨accepts, kept⟩ := maintain_cases (ε := ε) s now registry
    · rw [halted]
      exact .halted rfl refused
    · rw [kept]
      exact .upkeep rfl accepts (by simp)
  | release association =>
  simp only [step, release]
  split
  · exact .unknown
  next slot found =>
  obtain ⟨inside, holds, -⟩ := findIdx?_eq_some_iff_getElem.mp found
  refine .release (row_eq_some.mpr ?_)
  rw [getElem?_eq_getElem inside]
  exact congrArg some (by simpa using holds)

end

theorem events_of_refused {call : CloudCall prim ε} {now : Nat}
    {registry : AdmissionRegistry prim} (observes : call.observes = some (now, registry))
    (refused : ¬s.Accepts now) : s.events call = [] := by
  cases call with
  | ingest bytes endpoint now' registry' entropy =>
    cases observes
    obtain ⟨-, halted⟩ | ⟨accepts, -⟩ := ingest_cases (ε := ε) s bytes endpoint now registry entropy
    · simp only [events, halted]
    · exact absurd accepts refused
  | _ => rfl

end CloudAdmission
end Coaptic.Provisioning
