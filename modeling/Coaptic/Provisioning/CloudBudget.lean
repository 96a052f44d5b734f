import Coaptic.Provisioning.CloudRows

/-!
# Handshake computations on a shared listener

What the listener computes is charged to budgets that last a window, is asked for by an Echo value
that it issued, and is not computed again for a datagram under a message ID that it has answered.
-/
namespace Coaptic.Provisioning

open BigEndian Codec Run List Slots Exchanges
open Slots (Distinct exists_row_set lt_of_row row row_set)

variable {prim : Primitives} {edhoc : Edhoc prim} {ε : Type}

/-- A handshake computation: for whom, under which message ID, and when. -/
structure Computation where
  endpoint : UdpEndpoint
  mid : MessageId
  at_ : Nat
deriving DecidableEq

def CloudEvent.computation : CloudEvent → Option Computation
  | .message1 endpoint mid at_ => some ⟨endpoint, mid, at_⟩
  | .message3 endpoint mid at_ => some ⟨endpoint, mid, at_⟩
  | _ => none

namespace CloudAdmission

def computations (s : CloudAdmission edhoc) (call : CloudCall prim ε) : List Computation :=
  (s.events call).filterMap (·.computation)

/-! ### Budgets -/

variable {s u : CloudAdmission edhoc} {endpoint : UdpEndpoint} {n now t : Nat}
  {l : AdmissionLimits} {call : CloudCall prim ε} {mid : MessageId}

/-- A datagram is charged for what it computes. -/
theorem received_charged {bytes : List UInt8} {registry : AdmissionRegistry prim}
    {result : Ingested edhoc ε} (received : Received s bytes endpoint now registry result) :
    ∃ t n, Spent s t endpoint n ∧ result.state.crypto = t.crypto ∧ result.state.sources = t.sources ∧
      (result.events.filterMap (·.computation) = [] ∨ n = 1 ∧ ∃ parsed, decode bytes = .ok parsed ∧
        result.events.filterMap (·.computation) = [⟨endpoint, parsed.header.id, now⟩]) := by
  cases received with
  | ignored spent => exact ⟨_, _, spent, rfl, rfl, .inl rfl⟩
  | pending spent => exact ⟨_, _, spent, rfl, rfl, .inl rfl⟩
  | retained spent => exact ⟨_, _, spent, rfl, rfl, .inl rfl⟩
  | challenged spent => exact ⟨_, _, spent, rfl, rfl, .inl rfl⟩
  | exhausted spent allocation =>
    refine ⟨_, _, spent, ?_, ?_, .inl rfl⟩
    · rw [(allocateId_cases allocation).1]
    · rw [(allocateId_cases allocation).1]
  | opened spent read echoed unused valid free inside alone room allocation request under some_ expires
      computed =>
    refine ⟨_, _, spent, ?_, ?_, ?_⟩
    · rw [(allocateId_cases allocation).1]
    · rw [(allocateId_cases allocation).1]
    obtain rfl | rfl := computed
    · exact .inl rfl
    · exact .inr ⟨rfl, _, read, rfl⟩
  | advanced spent copied read unused held from_ waits advance computed once =>
  refine ⟨_, _, spent, rfl, rfl, ?_⟩
  simp only [computed]
  obtain rfl | rfl := once
  · exact .inl rfl
  · exact .inr ⟨rfl, _, read, rfl⟩

theorem Spent.charged {t : CloudAdmission edhoc} (spent : Spent s t endpoint n)
    (window : u.windowStart = s.windowStart ∧ u.limits = s.limits) (crypto : u.crypto = t.crypto)
    (sources : u.sources = t.sources) : Charged s u endpoint n := by
  have limits : u.limits = t.limits := by rw [window.2, spent.same]
  have same (a : UdpEndpoint) : u.spentBy a = t.spentBy a := by rw [spentBy, spentBy, sources]
  refine ⟨window, by rw [crypto, spent.crypto], ?_, ?_, ?_, ?_⟩
  · rw [crypto, limits]
    exact spent.crypto_le
  · rw [sources]
    exact spent.distinct
  · simp only [same]
    exact spent.source
  · rw [same, limits]
    exact spent.source_le

/-- Whether a later window has begun, with nothing charged to it. -/
def Renewed (s u : CloudAdmission edhoc) : Prop :=
  u.limits = s.limits ∧ (u.windowStart = s.windowStart ∧ u.crypto = s.crypto ∧ u.sources = s.sources ∨
    s.windowStart + s.limits.windowMs ≤ u.windowStart ∧ u.crypto = 0 ∧
      u.sources = s.sources.map fun _ => none)

theorem renewed_upkept (registry : AdmissionRegistry prim) (windows : 0 < s.limits.windowMs) :
    Renewed s (s.upkept now registry) := by
  refine ⟨upkept_limits .., ?_⟩
  simp only [upkept, expire, renew]
  split
  next over_ => exact .inr ⟨by dsimp only at over_ ⊢; omega, rfl, rfl⟩
  · exact .inl ⟨rfl, rfl, rfl⟩

/-- What a call does to the budgets. -/
theorem charged_step (s : CloudAdmission edhoc) (call : CloudCall prim ε)
    (windows : 0 < s.limits.windowMs) :
    ∃ u endpoint n, Renewed s u ∧ Charged u (s.step call) endpoint n ∧ (s.computations call = [] ∨
      n = 1 ∧ ∃ mid at_, s.computations call = [⟨endpoint, mid, at_⟩]) := by
  have calm (s : CloudAdmission edhoc) : Spent s s (.v4 ⟨[0, 0, 0, 0], rfl⟩ 0) 0 := .refl s _
  have renewed {now : Nat} (registry : AdmissionRegistry prim) : Renewed s (s.upkept now registry) :=
    renewed_upkept registry windows
  have steps := step_cases s call
  generalize state : s.step call = t at steps ⊢
  cases steps with
  | @halted _ now registry observes refused =>
    refine ⟨s, _, _, ⟨rfl, .inl ⟨rfl, rfl, rfl⟩⟩, (calm s).charged ⟨rfl, rfl⟩ rfl rfl, .inl ?_⟩
    rw [computations, events_of_refused observes refused, filterMap_nil]
  | @ingest bytes endpoint now registry entropy result accepts received same =>
    obtain ⟨w, n, spent, crypto, sources, computed⟩ := received_charged received
    have frame := received.frame.1
    refine ⟨_, endpoint, n, renewed registry,
      spent.charged ⟨frame.windowStart, frame.limits⟩ crypto sources, ?_⟩
    simp only [computations, events, same]
    obtain none_ | ⟨once, parsed, -, one⟩ := computed
    · exact .inl none_
    · exact .inr ⟨once, _, _, one⟩
  | @flush io now registry f accepts flushes same =>
    have tended := flushes.tended
    refine ⟨_, _, _, renewed registry, (calm _).charged ⟨tended.frame.windowStart, tended.frame.limits⟩
      ?_ ?_, .inl rfl⟩
    · rw [tended.same]
    · rw [tended.same]
  | @takeSession now registry result accepts handed same =>
    have frame := handed.frame.1
    refine ⟨_, _, _, renewed registry, (calm _).charged ⟨frame.windowStart, frame.limits⟩ ?_ ?_,
      .inl rfl⟩
    · cases handed <;> rfl
    · cases handed <;> rfl
  | @upkeep _ now registry observes accepts quiet =>
    refine ⟨_, _, _, renewed registry, (calm _).charged ⟨rfl, rfl⟩ rfl rfl, .inl ?_⟩
    obtain ⟨bytes, endpoint, rfl⟩ | rfl := quiet
    · rfl
    · rfl
  | release | unknown => exact ⟨s, _, _, ⟨rfl, .inl ⟨rfl, rfl, rfl⟩⟩,
    (calm s).charged ⟨rfl, rfl⟩ rfl rfl, .inl rfl⟩

/-- The budgets as a listener keeps them. -/
structure Metered (l : AdmissionLimits) (s : CloudAdmission edhoc) : Prop where
  limits : s.limits = l
  windows : 0 < l.windowMs
  crypto : s.crypto ≤ l.globalCrypto
  distinct : Slots.Distinct Source.address s.sources
  source : ∀ a, s.spentBy a ≤ l.sourceCrypto

theorem Renewed.metered (renewed : Renewed s u) (metered : s.Metered l) : u.Metered l := by
  obtain ⟨limits, ⟨-, crypto, sources⟩ | ⟨-, crypto, sources⟩⟩ := renewed
  · refine ⟨limits.trans metered.limits, metered.windows, by rw [crypto]; exact metered.crypto, ?_, ?_⟩
    · rw [sources]
      exact metered.distinct
    intro a
    rw [spentBy, sources]
    exact metered.source a
  have none_ (i : Nat) : row u.sources i = none := by rw [sources, row_map_none]
  refine ⟨limits.trans metered.limits, metered.windows, by rw [crypto]; exact Nat.zero_le _, ?_, ?_⟩
  · exact distinct_of_none none_
  intro a
  rw [spentBy, find_of_none none_]
  exact Nat.zero_le _

theorem Charged.metered {t : CloudAdmission edhoc} (charged : Charged s t endpoint n)
    (metered : s.Metered l) : t.Metered l := by
  have limits : t.limits = l := charged.window.2.trans metered.limits
  refine ⟨limits, metered.windows, ?_, charged.distinct metered.distinct, ?_⟩
  · by_cases none_ : n = 0
    · rw [charged.crypto, none_]
      exact metered.crypto
    · rw [← limits]
      exact charged.crypto_le none_
  intro a
  by_cases none_ : n = 0
  · rw [charged.source metered.distinct, none_, ite_self]
    exact metered.source a
  by_cases here : a = endpoint.address
  · rw [here, ← limits]
    exact charged.source_le none_ metered.distinct
  · rw [charged.source metered.distinct, if_neg here]
    exact metered.source a

theorem metered_step (call : CloudCall prim ε) (metered : s.Metered l) :
    (s.step call).Metered l := by
  obtain ⟨u, endpoint, n, renewed, charged, -⟩ :=
    charged_step s call (by rw [metered.limits]; exact metered.windows)
  exact charged.metered (renewed.metered metered)

def cost (p : UdpEndpoint → Bool) (s : CloudAdmission edhoc) (call : CloudCall prim ε) : Nat :=
  (s.computations call).countP fun c => p c.endpoint.address

theorem cost_le (computed : s.computations call = [] ∨ n = 1 ∧
    ∃ mid at_, s.computations call = [⟨endpoint, mid, at_⟩])
    (p : UdpEndpoint → Bool) : s.cost p call ≤ if p endpoint.address then n else 0 := by
  obtain none_ | ⟨rfl, mid, at_, one⟩ := computed
  · rw [cost, none_]
    exact Nat.zero_le _
  · simp only [cost, one, countP_cons, countP_nil, Nat.zero_add, le_refl]

/-- A level that every charge raises, and that is nothing in a new window, meters the run. -/
theorem meters {level : CloudAdmission edhoc → Nat} {p : UdpEndpoint → Bool}
    (same : ∀ s u : CloudAdmission edhoc, u.crypto = s.crypto → u.sources = s.sources →
      level u = level s)
    (charges : ∀ (s t : CloudAdmission edhoc) endpoint n, s.Metered l → Charged s t endpoint n →
      level s + (if p endpoint.address then n else 0) ≤ level t)
    (s : CloudAdmission edhoc) (call : CloudCall prim ε) (metered : s.Metered l) :
    ((s.step call).windowStart = s.windowStart ∧ level s + s.cost p call ≤ level (s.step call)) ∨
      (s.windowStart < (s.step call).windowStart ∧ s.cost p call ≤ level (s.step call)) := by
  have windows : 0 < s.limits.windowMs := by
    rw [metered.limits]
    exact metered.windows
  obtain ⟨u, endpoint, n, renewed, charged, computed⟩ := charged_step s call windows
  have paid := charges u _ endpoint n (renewed.metered metered) charged
  have cost := cost_le computed p
  rw [charged.window.1]
  obtain ⟨-, ⟨window, crypto, sources⟩ | ⟨later, -⟩⟩ := renewed
  · rw [same s u crypto sources] at paid
    exact .inl ⟨window, by omega⟩
  · exact .inr ⟨by omega, by omega⟩

theorem spending_global (metered : s.Metered l) (calls : List (CloudCall prim ε)) (w : Nat) :
    spending step windowStart (cost fun _ => true) w s calls ≤ l.globalCrypto := by
  refine spending_le (fun _ call => metered_step call) (fun _ metered => metered.crypto)
    (meters (fun s u crypto _ => crypto) ?_) metered calls w
  intro s t endpoint n _ charged
  rw [charged.crypto, if_pos rfl]

theorem spending_source (metered : s.Metered l) (calls : List (CloudCall prim ε)) (w : Nat)
    (a : UdpEndpoint) :
    spending step windowStart (cost fun b => b = a) w s calls ≤ l.sourceCrypto := by
  have same (s u : CloudAdmission edhoc) (_ : u.crypto = s.crypto) (sources : u.sources = s.sources) :
      u.spentBy a = s.spentBy a := by
    rw [spentBy, spentBy, sources]
  refine spending_le (fun _ call => metered_step call) (fun _ metered => metered.source a)
    (meters same ?_) metered calls w
  intro s t endpoint n metered charged
  rw [charged.source metered.distinct]
  simp only [decide_eq_true_eq, eq_comm (a := a), le_refl]

theorem metered_of_new {active pending retained sources nowMs : Nat} {identity : Identity prim}
    {limits : AdmissionLimits} {entropy : Option (Receipts.Fixed 32)}
    (created : (new edhoc (active, pending, retained, sources) identity nowMs limits entropy :
      Except (CloudError ε) (CloudAdmission edhoc)) = .ok s) :
    s.Metered limits := by
  obtain ⟨windows, key, rfl⟩ := new_eq_ok created
  have none_ (i : Nat) : row (replicate sources (none : Option Source)) i = none := by simp
  refine ⟨rfl, windows, Nat.zero_le _, distinct_of_none none_, fun a => ?_⟩
  rw [spentBy, find_of_none none_]
  exact Nat.zero_le _

/-! ### Echo values -/

def log (s : CloudAdmission edhoc) (calls : List (CloudCall prim ε)) : List CloudEvent :=
  (trace step s calls).flatMap fun entry => entry.1.events entry.2

def echoTag (s : CloudAdmission edhoc) (input : List UInt8) : List UInt8 :=
  (prim.keyed s.echoKey input).bytes.take 16

/-- Nobody forges a tag: when a datagram presents one that is right for what it stands with, the
listener has given out a tag for that very input before. -/
def Unforged (start : CloudAdmission edhoc) (calls : List (CloudCall prim ε)) : Prop :=
  ∀ front back bytes endpoint now registry entropy parsed value,
    calls = front ++ .ingest bytes endpoint now registry entropy :: back →
    decode bytes = .ok parsed → metadata parsed = some (some value) → value.length = echoLen →
    value.drop 8 = (run step start front).echoTag (echoInput endpoint (ofBe (value.take 8))) →
    ∃ e t, .issued e t ∈ log start front ∧ echoInput e t = echoInput endpoint (ofBe (value.take 8))

/-- The input of a tag says for which endpoint it is, and since when. -/
theorem echoInput_inj {a b : UdpEndpoint} {t' : Nat} (bounded : t < 256 ^ 8)
    (bounded' : t' < 256 ^ 8) (same : echoInput a t = echoInput b t') : a = b ∧ t = t' := by
  have port (p q : UInt16) (equal : toBe 2 p.toNat = toBe 2 q.toNat) : p = q :=
    UInt16.toNat_inj.mp (toBe_inj p.toNat_lt q.toNat_lt equal)
  have scope (p q : UInt32) (equal : toBe 4 p.toNat = toBe 4 q.toNat) : p = q :=
    UInt32.toNat_inj.mp (toBe_inj p.toNat_lt q.toNat_lt equal)
  simp only [echoInput, append_assoc] at same
  have tail := append_cancel_left same
  cases a with
  | v4 x p =>
    cases b with
    | v4 y q =>
      simp only [cons_append, cons.injEq, true_and, append_assoc] at tail
      obtain ⟨address, rest⟩ := append_inj tail (by simp)
      obtain ⟨ports, times⟩ := append_inj rest (by simp)
      exact ⟨by rw [Receipts.Fixed.ext address, port p q ports], toBe_inj bounded bounded' times⟩
    | v6 y q sc => simp at tail
  | v6 x p sc =>
  cases b with
  | v4 y q => simp at tail
  | v6 y q sc' =>
  simp only [cons_append, cons.injEq, true_and, append_assoc] at tail
  obtain ⟨address, rest⟩ := append_inj tail (by simp)
  obtain ⟨ports, rest⟩ := append_inj rest (by simp)
  obtain ⟨scopes, times⟩ := append_inj rest (by simp)
  exact ⟨by rw [Receipts.Fixed.ext address, port p q ports, scope sc sc' scopes],
    toBe_inj bounded bounded' times⟩

/-- Only a datagram that is taken in does anything that is logged. -/
theorem received_of_event {event : CloudEvent} (logged : event ∈ s.events call) :
    ∃ bytes endpoint now registry entropy, ∃ result : Ingested edhoc ε,
      call = .ingest bytes endpoint now registry entropy ∧ s.Accepts now ∧
      Received (s.upkept now registry) bytes endpoint now registry result ∧
      s.events call = result.events ∧ s.step call = result.state := by
  cases call with
  | ingest bytes endpoint now registry entropy =>
    obtain ⟨-, halted⟩ | ⟨accepts, received⟩ :=
      ingest_cases (ε := ε) s bytes endpoint now registry entropy
    · -- a refused clock logs nothing
      simp [events, halted] at logged
    · exact ⟨bytes, endpoint, now, registry, entropy, _, rfl, accepts, received, rfl, rfl⟩
  | _ => cases logged

/-- What computes message 1 has a valid Echo value. -/
theorem valid_of_message1 (computed : .message1 endpoint mid now ∈ s.events call) :
    ∃ bytes registry entropy parsed value, call = .ingest bytes endpoint now registry entropy ∧
      decode bytes = .ok parsed ∧ parsed.header.id = mid ∧ metadata parsed = some value ∧
      s.validEcho value endpoint now = true := by
  obtain ⟨bytes, from_, at_, registry, entropy, result, rfl, -, received, logged, -⟩ :=
    received_of_event computed
  rw [logged] at computed
  cases received with
  | @opened _ _ _ _ _ value _ _ _ _ spent read echoed unused valid =>
    simp only [mem_cons, reduceCtorEq, false_or] at computed
    split at computed
    · cases computed
    cases mem_singleton.mp computed
    refine ⟨bytes, registry, entropy, _, value, rfl, read, rfl, echoed, ?_⟩
    cases value with
    | none => exact valid
    | some value =>
      simp only [validEcho, echo, upkept_limits, upkept_echoKey] at valid ⊢
      exact valid
  | advanced spent copied read unused held from_ waits advance events =>
    rw [events] at computed
    split at computed
    · cases computed
    · cases mem_singleton.mp computed
  | challenged => simp at computed
  | _ => cases computed

/-- Tags are given out for times that the clock has shown. -/
theorem issued_bounded {calls : List (CloudCall prim ε)} {e : UdpEndpoint}
    (issued : .issued e t ∈ log s calls) : t < 256 ^ 8 := by
  obtain ⟨⟨s, call⟩, -, mem⟩ := mem_flatMap.mp issued
  obtain ⟨bytes, endpoint, now, registry, entropy, result, rfl, accepts, received, logged, -⟩ :=
    received_of_event mem
  rw [logged] at mem
  cases received with
  | challenged =>
    cases mem_singleton.mp mem
    have := accepts.bounded
    simp only [u64Max] at this
    omega
  | opened =>
    simp only [mem_cons, reduceCtorEq, false_or] at mem
    split at mem <;> simp at mem
  | advanced spent copied read unused held from_ waits advance events =>
    rw [events] at mem
    split at mem <;> simp at mem
  | _ => cases mem

/-- A call that observes does its upkeep, if it is accepted; after that only the tables change. -/
theorem frame_step (s : CloudAdmission edhoc) (call : CloudCall prim ε) :
    ((∀ now registry, call.observes = some (now, registry) → ¬s.Accepts now) ∧
        (s.step call).echoKey = s.echoKey ∧ (s.step call).lastNow = s.lastNow) ∨
      ∃ now registry, call.observes = some (now, registry) ∧ s.Accepts now ∧
        Frame (s.upkept now registry) (s.step call) := by
  have steps := step_cases s call
  generalize s.step call = t at steps ⊢
  cases steps with
  | @halted _ now registry observes refused =>
    refine .inl ⟨?_, rfl, rfl⟩
    intro now' registry' observes'
    rw [observes] at observes'
    cases observes'
    exact refused
  | ingest accepts received same => exact .inr ⟨_, _, rfl, accepts, received.frame.1⟩
  | flush accepts flushes same => exact .inr ⟨_, _, rfl, accepts, flushes.tended.frame⟩
  | takeSession accepts handed same => exact .inr ⟨_, _, rfl, accepts, handed.frame.1⟩
  | upkeep observes accepts => exact .inr ⟨_, _, observes, accepts, ⟨rfl, rfl, rfl, rfl, rfl, rfl, rfl, rfl⟩⟩
  | release => exact .inl ⟨nofun, rfl, rfl⟩
  | unknown => exact .inl ⟨nofun, rfl, rfl⟩

/-- The key of the Echo values is never replaced. -/
theorem echo_step (s : CloudAdmission edhoc) (call : CloudCall prim ε) :
    (s.step call).echo = s.echo := by
  have key : (s.step call).echoKey = s.echoKey := by
    obtain ⟨-, key, -⟩ | ⟨now, registry, -, -, frame⟩ := frame_step s call
    · exact key
    · rw [frame.echoKey, upkept_echoKey]
  funext endpoint issued
  rw [echo, echo, key]

theorem echo_run (s : CloudAdmission edhoc) (calls : List (CloudCall prim ε)) :
    (run step s calls).echo = s.echo :=
  invariant_run (P := fun t : CloudAdmission edhoc => t.echo = s.echo)
    (fun t call same => (echo_step t call).trans same) rfl calls

/-- Message 1 is computed for an Echo value that was issued to the same endpoint not long ago. -/
theorem issued_of_message1 {start : CloudAdmission edhoc} {front back : List (CloudCall prim ε)}
    (unforged : Unforged start (front ++ call :: back))
    (computed : .message1 endpoint mid now ∈ (run step start front).events call) :
    ∃ bytes registry entropy parsed t, call = .ingest bytes endpoint now registry entropy ∧
      decode bytes = .ok parsed ∧ parsed.header.id = mid ∧
      metadata parsed = some (some (start.echo endpoint t)) ∧
      .issued endpoint t ∈ log start front ∧ t ≤ now ∧
      now - t < (run step start front).limits.echoLifetimeMs := by
  obtain ⟨bytes, registry, entropy, parsed, value, rfl, read, under, echoed, valid⟩ :=
    valid_of_message1 computed
  cases value with
  | none => cases valid
  | some value =>
  simp only [validEcho] at valid
  split at valid
  · cases valid
  next sized =>
  rw [not_not] at sized
  simp only [Bool.and_eq_true, decide_eq_true_eq] at valid
  obtain ⟨⟨past, recent⟩, tagged⟩ := valid
  have drop : value.drop 8 = (run step start front).echoTag
      (echoInput endpoint (ofBe (value.take 8))) := by
    conv_lhs => rw [tagged, echo, drop_left' (length_toBe ..)]
    rfl
  obtain ⟨e, t, issued, same⟩ :=
    unforged front back bytes endpoint now registry entropy parsed value rfl read echoed sized drop
  have bound : ofBe (value.take 8) < 256 ^ 8 := by
    have := ofBe_lt (value.take 8)
    rwa [length_take, sized] at this
  obtain ⟨rfl, rfl⟩ := echoInput_inj (issued_bounded issued) bound same
  rw [echo_run] at tagged
  exact ⟨bytes, registry, entropy, parsed, _, rfl, read, under, tagged ▸ echoed, issued, past, recent⟩

end CloudAdmission

/-! ### Saved exchanges -/

/-- The same exchange later: its reply may have been withdrawn. -/
structure Exchange.Ages (x x' : Exchange) : Prop where
  request : x'.request = x.request
  mid : x'.mid = x.mid
  expires : x'.expires = x.expires
  response : x'.response = x.response ∨ x'.response = none

def Exchanges.Saves (xs : Exchanges) (x : Exchange) : Prop := ∃ x' ∈ xs.toList, x.Ages x'

namespace Exchanges.Saves

variable {xs ys : Exchanges} {x : Exchange}

/-- Exchanges that stay in their place. -/
theorem of_places (saves : xs.Saves x)
    (first : ∀ x', xs.first = some x' → x.Ages x' → ∃ y, ys.first = some y ∧ x.Ages y)
    (second : ∀ x', xs.second = some x' → x.Ages x' → ∃ y, ys.second = some y ∧ x.Ages y) :
    ys.Saves x := by
  obtain ⟨x', mem, ages⟩ := saves
  obtain held | held := mem_toList.mp mem
  · obtain ⟨y, there, ages⟩ := first x' held ages
    exact ⟨y, mem_toList.mpr (.inl there), ages⟩
  · obtain ⟨y, there, ages⟩ := second x' held ages
    exact ⟨y, mem_toList.mpr (.inr there), ages⟩

theorem disable (saves : xs.Saves x) : xs.disable.Saves x := by
  have silent {x' : Exchange} (ages : x.Ages x') : x.Ages x'.disable :=
    ⟨ages.request, ages.mid, ages.expires, .inr rfl⟩
  refine saves.of_places ?_ ?_
  · intro x' held ages
    exact ⟨x'.disable, by simp [Exchanges.disable, held], silent ages⟩
  · intro x' held ages
    exact ⟨x'.disable, by simp [Exchanges.disable, held], silent ages⟩

variable {final final' : Option ErrorReceipt}

theorem tended (saves : xs.Saves x) (tended : RepliesTended xs final ys final') : ys.Saves x := by
  have kept {o o' : Option Exchange} (related : Option.Rel Exchange.Dequeued o o') (x' : Exchange)
      (held : o = some x') (ages : x.Ages x') : ∃ y, o' = some y ∧ x.Ages y := by
    cases related with
    | none => cases held
    | some one =>
    cases held
    obtain ⟨queued, -, rfl⟩ := one
    exact ⟨_, rfl, { ages with }⟩
  exact saves.of_places (kept tended.first) (kept tended.second)

theorem replays {bytes : List UInt8} (saves : xs.Saves x)
    (replays : Replays xs final bytes ys final') : ys.Saves x := by
  cases replays with
  | receipt => exact saves
  | exchange queues =>
  cases queues with
  | first here =>
    refine saves.of_places ?_ fun x' held ages => ⟨x', held, ages⟩
    intro x' held ages
    rw [here] at held
    cases held
    exact ⟨_, rfl, { ages with }⟩
  | second here =>
  refine saves.of_places (fun x' held ages => ⟨x', held, ages⟩) ?_
  intro x' held ages
  rw [here] at held
  cases held
  exact ⟨_, rfl, { ages with }⟩

/-- A second exchange is added where there was none. -/
theorem second (saves : xs.Saves x) (none_ : xs.second = none) (y : Exchange) :
    ({ xs with second := some y } : Exchanges).Saves x := by
  refine saves.of_places (fun x' held ages => ⟨x', held, ages⟩) ?_
  intro x' held
  rw [none_] at held
  cases held

end Exchanges.Saves

namespace CloudAdmission

/-- An exchange with an endpoint is saved, in a provisional handshake or a retained one. -/
def Saved (s : CloudAdmission edhoc) (endpoint : UdpEndpoint) (x : Exchange) : Prop :=
  (∃ i p, Slots.row s.pending i = some p ∧ p.endpoint = endpoint ∧ p.exchanges.Saves x) ∨
    ∃ i r, Slots.row s.retained i = some r ∧ r.association.endpoint = endpoint ∧ r.exchanges.Saves x

namespace Saved

variable {s t : CloudAdmission edhoc} {endpoint : UdpEndpoint} {x : Exchange} {now : Nat}
  {registry : AdmissionRegistry prim}

theorem of_eq (saved : s.Saved endpoint x) (pending : t.pending = s.pending)
    (retained : t.retained = s.retained) : t.Saved endpoint x := by
  rwa [Saved, pending, retained]

variable {j : Nat}

section

variable (saved : s.Saved endpoint x)
include saved

theorem set_pending {q : Pending edhoc} (inside : j < s.pending.length)
    (pending : t.pending = s.pending.set j (some q)) (retained : t.retained = s.retained)
    (kept : ∀ p, row s.pending j = some p → p.endpoint = endpoint ∧ p.exchanges.Saves x →
      q.endpoint = endpoint ∧ q.exchanges.Saves x) : t.Saved endpoint x := by
  rw [Saved, pending, retained]
  exact saved.imp_left fun held => exists_row_set inside held kept

theorem set_retained {q : Retained} (inside : j < s.retained.length)
    (pending : t.pending = s.pending) (retained : t.retained = s.retained.set j (some q))
    (kept : ∀ r, row s.retained j = some r → r.association.endpoint = endpoint ∧ r.exchanges.Saves x →
      q.association.endpoint = endpoint ∧ q.exchanges.Saves x) : t.Saved endpoint x := by
  rw [Saved, pending, retained]
  exact saved.imp_right fun held => exists_row_set inside held kept

theorem halt : s.halt.Saved endpoint x := by
  obtain ⟨i, p, held, from_, saves⟩ | ⟨i, r, held, from_, saves⟩ := saved
  · refine .inl ⟨i, p.halt, ?_, from_, saves.disable⟩
    simp only [CloudAdmission.halt, row_map_map, held, Option.map_some]
  · refine .inr ⟨i, r.halt, ?_, from_, saves.disable⟩
    simp only [CloudAdmission.halt, row_map_map, held, Option.map_some]

/-- An exchange does not outlive its row, so a row with a live one is not dropped. -/
theorem upkept (sound : s.Sound) (live : now < x.expires) :
    (s.upkept now registry).Saved endpoint x := by
  obtain ⟨i, p, held, from_, saves⟩ | ⟨i, r, held, from_, saves⟩ := saved
  · have alive : ¬p.expires ≤ now := by
      obtain ⟨x', mem, ages⟩ := saves
      have := ((sound.pending i p held).replies x' mem).2
      rw [ages.expires] at this
      omega
    simp only [Saved, upkept_pending, row_map_bind]
    refine .inl ⟨i, ?_⟩
    rw [held, Option.bind_some, Pending.maintain, if_neg alive]
    split
    · exact ⟨_, rfl, from_, saves.disable⟩
    · exact ⟨_, rfl, from_, saves⟩
  · have alive : ¬r.expires ≤ now := by
      obtain ⟨x', mem, ages⟩ := saves
      have := (sound.retained i r held x' mem).2
      rw [ages.expires] at this
      omega
    simp only [Saved, upkept_retained, row_map_bind]
    refine .inr ⟨i, ?_⟩
    rw [held, Option.bind_some, Retained.maintain, if_neg alive]
    split
    · exact ⟨_, rfl, from_, saves.disable⟩
    · exact ⟨_, rfl, from_, saves⟩

theorem tended (tended : Tended s t) : t.Saved endpoint x := by
  obtain ⟨i, p, held, from_, saves⟩ | ⟨i, r, held, from_, saves⟩ := saved
  · have related := tended.pending i
    rw [held] at related
    generalize after : row t.pending i = o at related
    cases related with
    | some one => exact .inl ⟨i, _, after, by rw [one.2]; exact from_, saves.tended one.1⟩
  have related := tended.retained i
  rw [held] at related
  generalize after : row t.retained i = o at related
  cases related with
  | some one => exact .inr ⟨i, _, after, by rw [one.2]; exact from_, saves.tended one.1⟩

omit saved in
theorem received {bytes : List UInt8} {from_ : UdpEndpoint} {result : Ingested edhoc ε}
    (saved : s.Saved endpoint x) (sound : s.Sound)
    (received : Received s bytes from_ now registry result) : result.state.Saved endpoint x := by
  cases received with
  | ignored spent | challenged spent => exact saved.of_eq spent.pending spent.retained
  | exhausted spent allocation =>
    rw [(allocateId_cases allocation).1]
    exact saved.of_eq spent.pending spent.retained
  | @pending t wire parsed i p p' status spent copied read held from_ answered =>
    refine saved.set_pending (lt_of_row held) rfl spent.retained ?_
    rintro q there ⟨here, saves⟩
    rw [held] at there
    cases there
    obtain ⟨-, rfl⟩ | ⟨-, ys, final, replays, rfl⟩ | ⟨-, -, -, -, parsed, code, late, rfl, -⟩ :=
      Pending.answer_cases answered
    · exact ⟨here, saves⟩
    · exact ⟨here, saves.replays replays⟩
    · exact ⟨here, saves⟩
  | @retained t wire parsed i r r' status spent copied read held from_ answered =>
    refine saved.set_retained (lt_of_row held) spent.pending rfl ?_
    rintro q there ⟨here, saves⟩
    rw [held] at there
    cases there
    obtain ⟨-, rfl⟩ | ⟨-, ys, final, replays, rfl⟩ | ⟨-, -, parsed, code, late, rfl, -⟩ :=
      Retained.answer_cases answered
    · exact ⟨here, saves⟩
    · exact ⟨here, saves.replays replays⟩
    · exact ⟨here, saves⟩
  | opened spent read echoed unused valid free inside alone room allocation =>
    have same := (allocateId_cases allocation).1
    refine saved.set_pending inside rfl ?_ ?_
    · rw [same]
      exact spent.retained
    intro p there
    rw [free] at there
    cases there
  | @advanced t n slot wire parsed p p' responder events status spent copied read unused held from_
      waits advance computed once =>
    refine saved.set_pending (lt_of_row held) rfl spent.retained ?_
    rintro q there ⟨here, saves⟩
    rw [held] at there
    cases there
    -- while message 3 is awaited there is no second exchange that it could replace
    have none_ := ((sound.pending slot p held).awaits (by rw [waits]; rfl)).1
    cases advance with
    | refused => exact ⟨here, saves.second none_ _⟩
    | complete => exact ⟨here, saves.second none_ _⟩

omit saved in
theorem handed {result : Except (CloudError ε) (Option AdmittedSession) × CloudAdmission edhoc}
    (saved : s.Saved endpoint x) (sound : s.Sound) (handed : Handed s registry result) :
    result.2.Saved endpoint x := by
  cases handed with
  | nothing => exact saved
  | refused held finished =>
    refine saved.set_pending (lt_of_row held) rfl rfl ?_
    rintro q there ⟨here, saves⟩
    rw [held] at there
    cases there
    exact ⟨here, saves.disable⟩
  | @taken slot activeSlot cacheSlot p ready trust held finished sent first activeFree activeInside
      cacheFree cacheInside =>
    obtain ⟨i, q, there, from_, saves⟩ | ⟨i, r, there, from_, saves⟩ := saved
    · by_cases here : slot = i
      · -- the handshake moves to the retained ones, with its exchanges
        subst here
        rw [held] at there
        cases there
        obtain ⟨-, -, endpoint⟩ := (sound.pending slot p held).reserves ready finished
        refine .inr ⟨cacheSlot, ⟨ready.association, p.exchanges, p.expires, p.finalError, true⟩, ?_,
          endpoint.trans from_, saves⟩
        rw [row_set cacheInside, if_pos rfl]
      refine .inl ⟨i, q, ?_, from_, saves⟩
      rw [row_set (lt_of_row held), if_neg here]
      exact there
    · refine .inr ⟨i, r, ?_, from_, saves⟩
      rw [row_set cacheInside, if_neg]
      · exact there
      rintro rfl
      rw [cacheFree] at there
      cases there

theorem step (sound : s.Sound) (call : CloudCall prim ε)
    (live : ∀ now registry, call.observes = some (now, registry) → s.Accepts now → now < x.expires) :
    (s.step call).Saved endpoint x := by
  have steps := step_cases s call
  generalize s.step call = t at steps ⊢
  cases steps with
  | halted => exact saved.halt
  | ingest accepts received same =>
    exact (saved.upkept sound (live _ _ rfl accepts)).received (sound_upkept sound accepts _) received
  | flush accepts flushes same =>
    exact (saved.upkept sound (live _ _ rfl accepts)).tended flushes.tended
  | takeSession accepts handed same =>
    exact (saved.upkept sound (live _ _ rfl accepts)).handed (sound_upkept sound accepts _) handed
  | upkeep observes accepts => exact saved.upkept sound (live _ _ observes accepts)
  | release => exact saved.of_eq rfl rfl
  | unknown => exact saved

end

end Saved

/-! ### Repeated datagrams -/

/-- A datagram is ignored, or a reply that was saved for it is queued again. -/
inductive Answers (s : CloudAdmission edhoc) (bytes : List UInt8) (endpoint : UdpEndpoint) :
    Ingested edhoc ε → Prop
  | ignored {t : CloudAdmission edhoc} {status : Except (CloudError ε) Status}
      (ends : status = .ok .ignored ∨ status = .error .clock) (pending : t.pending = s.pending)
      (retained : t.retained = s.retained) : Answers s bytes endpoint ⟨status, t, []⟩
  | pending {t : CloudAdmission edhoc} {status : Except (CloudError ε) Status} {i : Nat}
      {p : Pending edhoc} {ys : Exchanges} {final : Option ErrorReceipt}
      (held : Slots.row s.pending i = some p) (from_ : p.endpoint = endpoint)
      (replays : Replays p.exchanges p.finalError bytes ys final)
      (pending : t.pending = s.pending.set i (some { p with exchanges := ys, finalError := final }))
      (retained : t.retained = s.retained) : Answers s bytes endpoint ⟨status, t, []⟩
  | retained {t : CloudAdmission edhoc} {status : Except (CloudError ε) Status} {i : Nat}
      {r : Retained} {ys : Exchanges} {final : Option ErrorReceipt}
      (held : Slots.row s.retained i = some r) (from_ : r.association.endpoint = endpoint)
      (replays : Replays r.exchanges r.finalError bytes ys final) (pending : t.pending = s.pending)
      (retained : t.retained = s.retained.set i
        (some { r with exchanges := ys, finalError := final })) :
    Answers s bytes endpoint ⟨status, t, []⟩

section

variable {s : CloudAdmission edhoc} {bytes : List UInt8} {endpoint : UdpEndpoint} {now : Nat}
  {registry : AdmissionRegistry prim} {x : Exchange}

theorem Saved.not_unused (saved : s.Saved endpoint x) (live : now < x.expires) :
    ¬s.Unused x.mid endpoint now := by
  intro unused
  obtain ⟨i, p, held, from_, x', mem, ages⟩ | ⟨i, r, held, from_, x', mem, ages⟩ := saved
  · obtain over_ | other := unused.pending i p held from_ x' mem
    · rw [ages.expires] at over_
      omega
    · exact other ages.mid.symm
  obtain over_ | other := unused.retained i r held from_ x' mem
  · rw [ages.expires] at over_
    omega
  · exact other ages.mid.symm

theorem Exchanges.Saves.reserves {xs : Exchanges} (saves : xs.Saves x) (live : now < x.expires) :
    xs.reservesMessageId x.mid now = true := by
  obtain ⟨x', mem, ages⟩ := saves
  rw [Exchanges.reservesMessageId, any_eq_true]
  exact ⟨x', mem, by simp [ages.mid, ages.expires, live]⟩

theorem Saved.reserved (saved : s.Saved endpoint x) (live : now < x.expires) :
    s.reservesMessageId x.mid endpoint now = true := by
  simp only [reservesMessageId, Bool.or_eq_true, any_eq_true, Option.any_eq_true]
  obtain ⟨i, p, held, from_, saves⟩ | ⟨i, r, held, from_, saves⟩ := saved
  · refine .inl ⟨some p, mem_iff_row.mpr ⟨i, held⟩, p, rfl, ?_⟩
    simp [from_, Exchanges.Saves.reserves saves live]
  · refine .inr ⟨some r, mem_iff_row.mpr ⟨i, held⟩, r, rfl, ?_⟩
    simp [from_, Exchanges.Saves.reserves saves live]

/-- A datagram under the message ID of a saved exchange is not taken up again. -/
theorem Saved.answers {result : Ingested edhoc ε} {parsed : ParsedMessage 8}
    (saved : s.Saved endpoint x) (live : now < x.expires) (read : decode bytes = .ok parsed)
    (under : parsed.header.id = x.mid) (received : Received s bytes endpoint now registry result) :
    Answers s bytes endpoint result := by
  have taken {parsed' : ParsedMessage 8} (read' : decode bytes = .ok parsed') :
      parsed'.header.id = x.mid := by
    rw [read] at read'
    cases read'
    exact under
  have reserved := saved.reserved live
  have used := saved.not_unused live
  cases received with
  | ignored spent ends => exact .ignored ends spent.pending spent.retained
  | challenged spent read' unused => exact absurd unused (taken read' ▸ used)
  | exhausted spent allocation read' unused => exact absurd unused (taken read' ▸ used)
  | opened spent read' echoed unused => exact absurd unused (taken read' ▸ used)
  | advanced spent copied read' unused => exact absurd unused (taken read' ▸ used)
  | @pending t wire parsed' i p p' status spent copied read' held from_ answered =>
    rw [taken read'] at answered
    obtain ⟨status_, rfl⟩ | ⟨-, ys, final, replays, rfl⟩ | ⟨free, -⟩ := Pending.answer_cases answered
    · exact .ignored status_ (set_row held) spent.retained
    · exact .pending held from_ (copied ▸ replays) rfl spent.retained
    · rw [reserved] at free
      cases free
  | @retained t wire parsed' i r r' status spent copied read' held from_ answered =>
  rw [taken read'] at answered
  obtain ⟨status_, rfl⟩ | ⟨-, ys, final, replays, rfl⟩ | ⟨free, -⟩ := Retained.answer_cases answered
  · exact .ignored status_ spent.pending (set_row held)
  · exact .retained held from_ (copied ▸ replays) spent.pending rfl
  · rw [reserved] at free
    cases free

end

variable {s : CloudAdmission edhoc} {call : CloudCall prim ε} {c : Computation}

/-- What a computation leaves: the exchange of its reply, for a lifetime. -/
theorem saved_of_computation (computed : c ∈ s.computations call) :
    ∃ x, (s.step call).Saved c.endpoint x ∧ x.mid = c.mid ∧ x.expires = c.at_ + exchangeLifetimeMs := by
  obtain ⟨event, mem, -⟩ := mem_filterMap.mp computed
  obtain ⟨bytes, endpoint, now, registry, entropy, result, rfl, -, received, logged, state⟩ :=
    received_of_event mem
  -- what is computed is saved with the exchange it answers
  rw [computations, logged] at computed
  rw [state]
  cases received with
  | @opened _ _ n slot parsed _ localId peerId responder reply spent read echoed unused valid free
      inside alone room allocation request under some_ expires once =>
    obtain rfl | rfl := once
    · cases computed
    cases mem_singleton.mp computed
    refine ⟨reply, .inl ⟨slot, opened localId peerId endpoint responder reply
      (now + exchangeLifetimeMs), ?_, rfl, reply, ?_, ⟨rfl, rfl, rfl, .inl rfl⟩⟩, under, expires⟩
    · rw [row_set inside, if_pos rfl]
    · exact mem_toList.mpr (.inl rfl)
  | @advanced _ n slot wire parsed p p' responder events status spent copied read unused held from_
      waits advance none_ once =>
    rw [none_] at computed
    obtain rfl | rfl := once
    · cases computed
    cases mem_singleton.mp computed
    have here : row ((s.upkept now registry).pending.set slot (some p')) slot = some p' := by
      rw [row_set (lt_of_row held), if_pos rfl]
    -- the exchange of the reply is the second one, whichever reply it is
    cases advance with
    | @refused x _ _ request under reply noticed expires
    | @complete x _ _ _ request under reply silent expires =>
      exact ⟨x, .inl ⟨slot, _, here, from_, x, mem_toList.mpr (.inr rfl),
        ⟨rfl, rfl, rfl, .inl rfl⟩⟩, under, expires⟩
  | _ => cases computed

/-- A saved exchange stays until the clock has passed it. -/
theorem saved_run {endpoint : UdpEndpoint} {x : Exchange} (saved : s.Saved endpoint x)
    (sound : s.Sound) (calls : List (CloudCall prim ε)) : (run step s calls).Sound ∧
      ((run step s calls).Saved endpoint x ∨ x.expires ≤ (run step s calls).lastNow) := by
  refine invariant_run (P := fun s : CloudAdmission edhoc =>
    s.Sound ∧ (s.Saved endpoint x ∨ x.expires ≤ s.lastNow)) ?_ ⟨sound, .inl saved⟩ calls
  rintro s call ⟨sound, kept⟩
  refine ⟨sound_step sound call, ?_⟩
  obtain ⟨refused, -, lastNow⟩ | ⟨now, registry, observes, accepts, frame⟩ := frame_step s call
  · obtain saved | passed := kept
    · exact .inl (saved.step sound call fun now registry observes accepts =>
        absurd accepts (refused now registry observes))
    · exact .inr (by rw [lastNow]; exact passed)
  have lastNow := frame.lastNow.trans (upkept_lastNow ..)
  by_cases passed : x.expires ≤ now
  · exact .inr (by rw [lastNow]; exact passed)
  obtain saved | earlier := kept
  · refine .inl (saved.step sound call ?_)
    rintro now' registry' observes' -
    rw [observes] at observes'
    cases observes'
    omega
  · have := accepts.monotone
    omega

theorem computation_eq (computed : c ∈ s.computations call) :
    s.computations call = [c] ∧ ∃ bytes registry entropy parsed,
      call = .ingest bytes c.endpoint c.at_ registry entropy ∧ decode bytes = .ok parsed ∧
        parsed.header.id = c.mid := by
  obtain ⟨event, mem, -⟩ := mem_filterMap.mp computed
  obtain ⟨bytes, endpoint, now, registry, entropy, result, rfl, -, received, logged, -⟩ :=
    received_of_event mem
  rw [computations, logged] at computed ⊢
  obtain ⟨-, -, -, -, -, none_ | ⟨-, parsed, read, one⟩⟩ := received_charged received
  · rw [none_] at computed
    cases computed
  rw [one] at computed ⊢
  cases mem_singleton.mp computed
  exact ⟨rfl, bytes, registry, entropy, parsed, rfl, read, rfl⟩

/-- Crypto work is limited: by the two budgets of a window, by Echo values that were given out, and
to once a message ID of an endpoint. -/
theorem crypto_limited {active pending retained sources nowMs : Nat} {identity : Identity prim}
    {limits : AdmissionLimits} {entropy : Option (Receipts.Fixed 32)} {start : CloudAdmission edhoc}
    (created : (new edhoc (active, pending, retained, sources) identity nowMs limits entropy :
      Except (CloudError ε) (CloudAdmission edhoc)) = .ok start)
    {calls : List (CloudCall prim ε)} (unforged : Unforged start calls) :
    (∀ w, spending step windowStart (cost fun _ => true) w start calls ≤ limits.globalCrypto) ∧
      (∀ w a, spending step windowStart (cost fun b => b = a) w start calls ≤ limits.sourceCrypto) ∧
      (∀ front call back endpoint mid now, calls = front ++ call :: back →
        .message1 endpoint mid now ∈ (run step start front).events call →
        ∃ bytes registry entropy parsed t, call = .ingest bytes endpoint now registry entropy ∧
          decode bytes = .ok parsed ∧ parsed.header.id = mid ∧
          metadata parsed = some (some (start.echo endpoint t)) ∧
          .issued endpoint t ∈ log start front ∧ t ≤ now ∧ now < t + limits.echoLifetimeMs) ∧
      ∀ front call middle later back c, calls = front ++ call :: (middle ++ later :: back) →
        c ∈ (run step start front).computations call →
        let s := run step start (front ++ call :: middle)
        (run step start front).computations call = [c] ∧
        (∀ c' ∈ s.computations later, c'.endpoint = c.endpoint → c'.mid = c.mid →
          c.at_ + exchangeLifetimeMs ≤ c'.at_) ∧
        ∀ bytes now registry entropy parsed, later = .ingest bytes c.endpoint now registry entropy →
          decode bytes = .ok parsed → parsed.header.id = c.mid → now < c.at_ + exchangeLifetimeMs →
          s.ingest bytes c.endpoint now registry entropy =
              (⟨.error .clock, s.halt, []⟩ : Ingested edhoc ε) ∨
            Answers (s.upkept now registry) bytes c.endpoint
              (s.ingest bytes c.endpoint now registry entropy : Ingested edhoc ε) := by
  have begins := metered_of_new created
  have reached (calls : List (CloudCall prim ε)) : (run step start calls).Metered limits :=
    invariant_run (fun _ call => metered_step call) begins calls
  refine ⟨spending_global begins calls, spending_source begins calls, ?_, ?_⟩
  · rintro front call back endpoint mid now rfl computed
    obtain ⟨bytes, registry, entropy, parsed, t, isIngest, read, under, echoed, issued, past, recent⟩ :=
      issued_of_message1 unforged computed
    rw [(reached front).limits] at recent
    exact ⟨bytes, registry, entropy, parsed, t, isIngest, read, under, echoed, issued, past, by omega⟩
  rintro front call middle later back c rfl computed s
  obtain ⟨x, saved, under, expires⟩ := saved_of_computation computed
  have before := invariant_run (P := Sound) (fun _ call sound => sound_step sound call)
    (rows_of_new created _ _) front
  have sound := sound_step before call
  obtain ⟨sound, kept⟩ := saved_run saved sound middle
  rw [← run_cons, ← run_append] at sound kept
  change s.Saved c.endpoint x ∨ x.expires ≤ s.lastNow at kept
  -- a message that is answered from what is saved is not computed again
  refine ⟨(computation_eq computed).1, (and_iff_right_of_imp ?_).mpr ?_⟩
  · intro answered c' computed' endpoint mid
    by_contra early
    obtain ⟨-, bytes, registry, entropy, parsed, rfl, read, same⟩ := computation_eq computed'
    have answers := answered bytes c'.at_ registry entropy parsed (by rw [endpoint]) read
      (same.trans mid) (by omega)
    rw [← endpoint] at answers
    simp only [computations, events] at computed'
    obtain halted | answers := answers
    · simp [halted] at computed'
    generalize (s.ingest bytes c'.endpoint c'.at_ registry entropy : Ingested edhoc ε) = result
      at computed' answers
    cases answers <;> cases computed'
  · rintro bytes now registry entropy parsed rfl read same live
    obtain ⟨-, halted⟩ | ⟨accepts, received⟩ :=
      ingest_cases (ε := ε) s bytes c.endpoint now registry entropy
    · exact .inl halted
    have live : now < x.expires := by rw [expires]; exact live
    obtain saved | passed := kept
    · exact .inr ((saved.upkept sound live).answers live read (same.trans under.symm) received)
    · have := accepts.monotone
      omega

theorem unforged_sample : Unforged sample [strangerCall, echoedCall] := by
  intro front back bytes endpoint now registry entropy parsed value split read echoed
  match front with
  | [] =>
    cases split
    cases read
    cases echoed
  | [a] =>
    cases split
    cases read
    cases echoed
    exact fun _ _ => ⟨sampleEndpoint, 10, by decide +kernel, rfl⟩
  | [a, b] => cases split
  | a :: b :: c :: rest => cases split

/-- Message 1 of a stranger that echoes. -/
theorem crypto_limited_sample :
    .message1 sampleEndpoint 2 20 ∈ (run step sample [strangerCall]).events echoedCall ∧
      spending step windowStart (cost fun _ => true) 0 sample [strangerCall, echoedCall] ≤
        AdmissionLimits.default.globalCrypto :=
  ⟨by decide +kernel, (crypto_limited new_sample unforged_sample).1 0⟩

end CloudAdmission
end Coaptic.Provisioning
