import Coaptic.Provisioning.Identity
import Coaptic.Lib.Result
import Coaptic.Lib.Run

/-!
# The trust of one peer

A record pins one peer for one local identity. Every change of it is committed by the caller and
takes the next generation; a grant carries the anchor of the record it was issued under. Since
generations only grow, a grant does not survive a change of the record, and a change whose commit
failed leaves the policy blocked.
-/
namespace Coaptic.Provisioning

open Receipts (Fixed)
open BigEndian Result Run

def recordVersion : UInt8 := 1

def recordDomain : String :=
  "https://github.com/jeffglousher/coaptic trust record fingerprint v1"

inductive TrustError
  | storeIdentity
  | invalidRecord
  | initialized
  | anchorMismatch
  | identityMismatch
  | selfPeer
  | unauthorized
  | staleGrant
  | blocked
  | generationExhausted
  | localPolicy
deriving DecidableEq

inductive TrustCommitError (ε : Type)
  | state (error : TrustError)
  | persistence (error : ε)
deriving DecidableEq

/-- Identity of a committed record. Only the anchor of an uninitialized store has no digest. -/
structure TrustAnchor where
  storeId : Fixed 32
  generation : Nat
  digest : Fixed 32
  store_ne : storeId ≠ zeros 32
  generation_le : generation ≤ u64Max
  genesis_digest : generation = 0 → digest = zeros 32
deriving DecidableEq

def TrustAnchor.sample : TrustAnchor :=
  ⟨.fill 32 7, 0, zeros 32, by decide, by decide, fun _ => rfl⟩

variable (prim : Primitives)

/-- The pinned peer of a local identity, and whether it is let in. -/
structure TrustRecord where
  storeId : Fixed 32
  generation : Nat
  localPrincipal : Principal
  peer : PinnedPeer prim
  enabled : Bool
  store_ne : storeId ≠ zeros 32
  generation_pos : 0 < generation
  generation_le : generation ≤ u64Max

structure TrustRecordParts where
  version : UInt8
  storeId : Fixed 32
  generation : Nat
  localPrincipal : Principal
  peerPublicKey : Fixed 65
  peerKid : UInt8
  enabled : Bool
  generation_le : generation ≤ u64Max

variable {prim}

namespace TrustRecord

def fromParts (parts : TrustRecordParts) : Except TrustError (TrustRecord prim) :=
  if store : parts.storeId = zeros 32 then .error .storeIdentity
  else if wrong : parts.version ≠ recordVersion ∨ parts.generation = 0 then .error .invalidRecord
  else
  match PinnedPeer.fromPublicKey parts.peerPublicKey.bytes parts.peerKid with
  | none => .error .invalidRecord
  | some peer => .ok
      { storeId := parts.storeId
        generation := parts.generation
        localPrincipal := parts.localPrincipal
        peer := peer
        enabled := parts.enabled
        store_ne := store
        generation_pos := Nat.pos_of_ne_zero fun zero => wrong (.inr zero)
        generation_le := parts.generation_le }

section

variable (record : TrustRecord prim)

/-- What the digest of a record covers. -/
def hashed : List UInt8 :=
  [recordVersion] ++ record.storeId.bytes ++ toBe 8 record.generation ++
    record.localPrincipal.bytes ++ record.peer.publicKey.bytes ++
    [record.peer.kid, if record.enabled then 1 else 0]

def anchor : TrustAnchor where
  storeId := record.storeId
  generation := record.generation
  digest := prim.deriveKey recordDomain record.hashed
  store_ne := record.store_ne
  generation_le := record.generation_le
  genesis_digest zero := absurd zero (Nat.ne_of_gt record.generation_pos)

@[simp] theorem anchor_generation : record.anchor.generation = record.generation := rfl

@[simp] theorem anchor_storeId : record.anchor.storeId = record.storeId := rfl

end

end TrustRecord

/-- Permission captured under one anchor. -/
structure TrustGrant where
  anchor : TrustAnchor
  principal : Principal
deriving DecidableEq

def validatePeer (identity : Identity prim) (peer : PinnedPeer prim) : Except TrustError Unit :=
  if identity.isSelf peer then .error .selfPeer else .ok ()

def validateIdentity (identity : Identity prim) (record : TrustRecord prim) :
    Except TrustError Unit :=
  if identity.peer.principal ≠ record.localPrincipal then .error .identityMismatch
  else validatePeer identity record.peer

/-- How the caller makes a change durable: the anchor that it replaces, the record and its anchor.
An error may come after the change has become durable. -/
abbrev Persist (prim : Primitives) (ε : Type) : Type :=
  TrustAnchor → TrustRecord prim → TrustAnchor → Except ε Unit

variable (prim) in
/-- Trust as the caller holds it. -/
structure PeerTrust where
  record : TrustRecord prim
  anchor : TrustAnchor
  blocked : Bool
  anchored : anchor = record.anchor

namespace PeerTrust

variable {ε : Type}

def install (identity : Identity prim) (peer : PinnedPeer prim) (trustedGenesis : TrustAnchor)
    (persist : Persist prim ε) : Except (TrustCommitError ε) (PeerTrust prim) :=
  if trustedGenesis.generation ≠ 0 then .error (.state .initialized)
  else
    match validatePeer identity peer with
    | .error e => .error (.state e)
    | .ok () =>
      let record : TrustRecord prim :=
        { storeId := trustedGenesis.storeId
          generation := 1
          localPrincipal := identity.peer.principal
          peer := peer
          enabled := true
          store_ne := trustedGenesis.store_ne
          generation_pos := Nat.one_pos
          generation_le := one_le_u64Max }
      match persist trustedGenesis record record.anchor with
      | .error e => .error (.persistence e)
      | .ok () => .ok ⟨record, record.anchor, false, rfl⟩

def restore (identity : Identity prim) (record : TrustRecord prim) (trustedAnchor : TrustAnchor) :
    Except TrustError (PeerTrust prim) :=
  if same : record.anchor = trustedAnchor then
    match validateIdentity identity record with
    | .error e => .error e
    | .ok () => .ok ⟨record, trustedAnchor, false, same.symm⟩
  else .error .anchorMismatch

section

variable (t : PeerTrust prim)

def active : Except TrustError Unit :=
  if t.blocked then .error .blocked
  else if !t.record.enabled then .error .unauthorized
  else .ok ()

section

variable (identity : Identity prim)

def grant : Except TrustError TrustGrant := do
  t.active
  validateIdentity identity t.record
  return ⟨t.anchor, t.record.peer.principal⟩

def validateGrant (grant : TrustGrant) (principal : Principal) : Except TrustError Unit := do
  t.active
  if grant.anchor ≠ t.anchor then .error .staleGrant
  else if grant.principal ≠ t.record.peer.principal ∨ principal ≠ grant.principal then
    .error .unauthorized
  else .ok ()

def permits (grant : TrustGrant) (principal : Principal) : Bool :=
  (t.validateGrant grant principal).isOk

def acceptSession (grant : TrustGrant) (session : Session) : Except TrustError Session := do
  t.validateGrant grant session.principal
  if session.localPrincipal ≠ t.record.localPrincipal then .error .identityMismatch
  else .ok session

def nextGeneration : Except TrustError { g : Nat // 0 < g ∧ g ≤ u64Max } :=
  if bound : t.record.generation + 1 ≤ u64Max then .ok ⟨_, Nat.succ_pos _, bound⟩
  else .error .generationExhausted

/-- Once storage is tried, only its success unblocks. -/
def commit (record : TrustRecord prim) (persist : Persist prim ε) :
    Except (TrustCommitError ε) TrustAnchor × PeerTrust prim :=
  match persist t.anchor record record.anchor with
  | .error e => (.error (.persistence e), { t with blocked := true })
  | .ok () => (.ok record.anchor, ⟨record, record.anchor, false, rfl⟩)

def replacement (peer : PinnedPeer prim) (enabled : Bool) : Except TrustError (TrustRecord prim) :=
  if t.blocked then .error .blocked
  else do
    validatePeer identity peer
    let generation ← t.nextGeneration
    return { storeId := t.record.storeId
             generation := generation.1
             localPrincipal := identity.peer.principal
             peer := peer
             enabled := enabled
             store_ne := t.record.store_ne
             generation_pos := generation.2.1
             generation_le := generation.2.2 }

def replace (peer : PinnedPeer prim) (enabled : Bool) (persist : Persist prim ε) :
    Except (TrustCommitError ε) TrustAnchor × PeerTrust prim :=
  match t.replacement identity peer enabled with
  | .error e => (.error (.state e), t)
  | .ok record => t.commit record persist

end

def tombstone : Except TrustError (TrustRecord prim) :=
  if t.blocked then .error .blocked
  else do
    let generation ← t.nextGeneration
    return { t.record with
             generation := generation.1
             enabled := false
             generation_pos := generation.2.1
             generation_le := generation.2.2 }

def revoke (persist : Persist prim ε) : Except (TrustCommitError ε) TrustAnchor × PeerTrust prim :=
  match t.tombstone with
  | .error e => (.error (.state e), t)
  | .ok record => t.commit record persist

end

/-! ### What the checks say -/

variable {t : PeerTrust prim} {grant : TrustGrant} {identity : Identity prim}
  {record : TrustRecord prim}

theorem active_eq_ok : t.active = .ok () ↔ t.blocked = false ∧ t.record.enabled = true := by
  simp only [active]
  split
  next blocked => simp [blocked]
  next open_ =>
  split
  next disabled => simp_all
  next enabled => simp_all

theorem permits_iff {principal : Principal} : t.permits grant principal = true ↔
      t.blocked = false ∧ t.record.enabled = true ∧ grant.anchor = t.anchor ∧
        grant.principal = t.record.peer.principal ∧ principal = grant.principal := by
  simp only [permits, validateGrant]
  cases activity : t.active with
  | error e =>
    have inactive : ¬(t.blocked = false ∧ t.record.enabled = true) := by
      rw [← active_eq_ok, activity]
      simp
    constructor
    · intro impossible
      simp at impossible
    · rintro ⟨unblocked, enabled, -⟩
      exact absurd ⟨unblocked, enabled⟩ inactive
  | ok u =>
  obtain ⟨unblocked, enabled⟩ := active_eq_ok.mp activity
  simp only [ok_bind, unblocked, enabled, true_and]
  split
  next stale => simp [stale]
  next current =>
  split
  next stranger =>
    simp only [isOk_error, Bool.false_eq_true, false_iff]
    rintro ⟨-, same, as_granted⟩
    exact stranger.elim (· same) (· as_granted)
  next known =>
  simp only [not_or, not_not] at current known
  simp [current, known]

theorem acceptSession_isOk {session : Session} : (t.acceptSession grant session).isOk = true ↔
      t.permits grant session.principal = true ∧
        session.localPrincipal = t.record.localPrincipal := by
  simp only [acceptSession, permits]
  cases t.validateGrant grant session.principal with
  | error e => simp
  | ok u =>
    simp only [ok_bind]
    split <;> simp_all

theorem grant_eq_ok (issued : t.grant identity = .ok grant) :
    t.blocked = false ∧ t.record.enabled = true ∧ grant = ⟨t.anchor, t.record.peer.principal⟩ := by
  obtain ⟨u, activity, issued⟩ := bind_eq_ok.mp issued
  obtain ⟨v, -, issued⟩ := bind_eq_ok.mp issued
  obtain ⟨unblocked, enabled⟩ := active_eq_ok.mp activity
  cases issued
  exact ⟨unblocked, enabled, rfl⟩

/-- What an installation has stored gives the same trust after a restart. -/
theorem restore_of_install {peer : PinnedPeer prim} {genesis : TrustAnchor}
    {persist : Persist prim ε} (installed : install identity peer genesis persist = .ok t) :
    restore identity t.record t.anchor = .ok t := by
  simp only [install] at installed
  split at installed
  · cases installed
  split at installed
  · cases installed
  next valid =>
  split at installed
  · cases installed
  cases installed
  simp [restore, validateIdentity, valid]

theorem nextGeneration_eq_ok {g : { g : Nat // 0 < g ∧ g ≤ u64Max }}
    (next : t.nextGeneration = .ok g) : g.1 = t.record.generation + 1 := by
  simp only [nextGeneration] at next
  split at next
  · cases next
    rfl
  · cases next

/-- What is submitted takes the next generation of an unblocked policy. -/
theorem replacement_eq_ok {peer : PinnedPeer prim} {enabled : Bool}
    (submitted : t.replacement identity peer enabled = .ok record) :
    t.blocked = false ∧ record.generation = t.record.generation + 1 := by
  simp only [replacement] at submitted
  split at submitted
  · cases submitted
  next unblocked =>
  obtain ⟨u, -, submitted⟩ := bind_eq_ok.mp submitted
  obtain ⟨g, next, submitted⟩ := bind_eq_ok.mp submitted
  cases submitted
  exact ⟨by simpa using unblocked, nextGeneration_eq_ok next⟩

theorem tombstone_eq_ok (submitted : t.tombstone = .ok record) :
    t.blocked = false ∧ record.generation = t.record.generation + 1 := by
  simp only [tombstone] at submitted
  split at submitted
  · cases submitted
  next unblocked =>
  obtain ⟨g, next, submitted⟩ := bind_eq_ok.mp submitted
  cases submitted
  exact ⟨by simpa using unblocked, nextGeneration_eq_ok next⟩

end PeerTrust

open PeerTrust

/-! ### Runs

A run keeps the grants that were issued, each with the number of changes that were committed
before it. -/

variable (prim) in
/-- A call of the caller, with the storage callback it passes. -/
inductive TrustCall (ε : Type)
  | grant (identity : Identity prim)
  | acceptSession (grant : TrustGrant) (session : Session)
  | replace (identity : Identity prim) (peer : PinnedPeer prim) (enabled : Bool)
      (persist : Persist prim ε)
  | revoke (persist : Persist prim ε)

structure Issued where
  grant : TrustGrant
  changes : Nat
deriving DecidableEq

variable (prim) in
structure TrustRun where
  trust : PeerTrust prim
  issued : List Issued
  changes : Nat

namespace TrustRun

variable {ε : Type}

def start (trust : PeerTrust prim) : TrustRun prim := ⟨trust, [], 0⟩

def submits (t : PeerTrust prim) : TrustCall prim ε → Option (TrustRecord prim)
  | .grant _ => none
  | .acceptSession _ _ => none
  | .replace identity peer enabled _ => (t.replacement identity peer enabled).toOption
  | .revoke _ => t.tombstone.toOption

def changed {α : Type} (s : TrustRun prim) : Except (TrustCommitError ε) α × PeerTrust prim →
    TrustRun prim
  | (.error _, trust) => { s with trust := trust }
  | (.ok _, trust) => { s with trust := trust, changes := s.changes + 1 }

def step (s : TrustRun prim) : TrustCall prim ε → TrustRun prim
  | .grant identity =>
    match s.trust.grant identity with
    | .error _ => s
    | .ok grant => { s with issued := s.issued ++ [⟨grant, s.changes⟩] }
  | .acceptSession _ _ => s
  | .replace identity peer enabled persist =>
    s.changed (s.trust.replace identity peer enabled persist)
  | .revoke persist => s.changed (s.trust.revoke persist)

theorem changed_commit (s : TrustRun prim) (record : TrustRecord prim) (persist : Persist prim ε) :
    s.changed (s.trust.commit record persist) = { s with trust := { s.trust with blocked := true } } ∨
      s.changed (s.trust.commit record persist) = { s with
        trust := ⟨record, record.anchor, false, rfl⟩
        changes := s.changes + 1 } := by
  simp only [commit]
  cases persist s.trust.anchor record record.anchor with
  | error e => exact .inl rfl
  | ok u => exact .inr rfl

/-- What a call can do: issue the current grant, submit the next record and succeed or fail with
it, or nothing. -/
theorem step_cases (s : TrustRun prim) (call : TrustCall prim ε) :
    (submits s.trust call = none ∧ step s call = s) ∨
      (submits s.trust call = none ∧ s.trust.blocked = false ∧
        step s call = { s with
          issued := s.issued ++ [⟨⟨s.trust.anchor, s.trust.record.peer.principal⟩, s.changes⟩] }) ∨
      (∃ record, submits s.trust call = some record ∧ s.trust.blocked = false ∧
        record.generation = s.trust.record.generation + 1 ∧
        (step s call = { s with trust := { s.trust with blocked := true } } ∨
          step s call = { s with
            trust := ⟨record, record.anchor, false, rfl⟩
            changes := s.changes + 1 })) := by
  cases call with
  | grant identity =>
    simp only [step, submits, true_and]
    split
    · exact .inl rfl
    next grant issued =>
    obtain ⟨unblocked, -, rfl⟩ := grant_eq_ok issued
    exact .inr (.inl ⟨unblocked, rfl⟩)
  | acceptSession grant session => exact .inl ⟨rfl, rfl⟩
  | replace identity peer enabled persist =>
    simp only [step, submits, replace]
    cases candidate : s.trust.replacement identity peer enabled with
    | error e => exact .inl ⟨rfl, rfl⟩
    | ok record =>
      obtain ⟨unblocked, next⟩ := replacement_eq_ok candidate
      exact .inr (.inr ⟨record, rfl, unblocked, next, changed_commit s record persist⟩)
  | revoke persist =>
  simp only [step, submits, revoke]
  cases candidate : s.trust.tombstone with
  | error e => exact .inl ⟨rfl, rfl⟩
  | ok record =>
    obtain ⟨unblocked, next⟩ := tombstone_eq_ok candidate
    exact .inr (.inr ⟨record, rfl, unblocked, next, changed_commit s record persist⟩)

/-- Grants of the current change carry the current anchor and peer, earlier ones an older
generation. -/
structure Inv (s : TrustRun prim) : Prop where
  current : ∀ i ∈ s.issued, i.changes = s.changes →
    i.grant = ⟨s.trust.anchor, s.trust.record.peer.principal⟩
  older : ∀ i ∈ s.issued, i.changes ≠ s.changes →
    i.grant.anchor.generation < s.trust.record.generation
  stamp_le : ∀ i ∈ s.issued, i.changes ≤ s.changes

theorem inv_start (trust : PeerTrust prim) : Inv (start trust) :=
  ⟨fun _ none => absurd none List.not_mem_nil, fun _ none => absurd none List.not_mem_nil,
    fun _ none => absurd none List.not_mem_nil⟩

variable {s : TrustRun prim} {i : Issued}

/-- No grant of a run is of a later generation than the record. -/
theorem Inv.generation_le (inv : Inv s) (mem : i ∈ s.issued) :
    i.grant.anchor.generation ≤ s.trust.record.generation := by
  by_cases same : i.changes = s.changes
  · rw [inv.current i mem same, s.trust.anchored]
    exact Nat.le_refl _
  · exact Nat.le_of_lt (inv.older i mem same)

theorem inv_step (s : TrustRun prim) (call : TrustCall prim ε) (inv : Inv s) :
    Inv (step s call) := by
  obtain ⟨-, same⟩ | ⟨-, -, same⟩ | ⟨record, -, -, next, same | same⟩ := step_cases s call
  · rw [same]
    exact inv
  · rw [same]
    -- the new grant is stamped with the current change
    have new : ∀ i, i ∈ s.issued ++ [⟨⟨s.trust.anchor, s.trust.record.peer.principal⟩, s.changes⟩] →
        i ∈ s.issued ∨ i = ⟨⟨s.trust.anchor, s.trust.record.peer.principal⟩, s.changes⟩ := by
      intro i mem
      simpa using mem
    constructor
    · intro i mem stamp
      obtain earlier | rfl := new i mem
      · exact inv.current i earlier stamp
      · rfl
    · intro i mem stamp
      obtain earlier | rfl := new i mem
      · exact inv.older i earlier stamp
      · exact absurd rfl stamp
    intro i mem
    obtain earlier | rfl := new i mem
    · exact inv.stamp_le i earlier
    · exact Nat.le_refl _
  · rw [same]
    exact ⟨inv.current, inv.older, inv.stamp_le⟩
  · rw [same]
    constructor
    · intro i mem stamp
      have := inv.stamp_le i mem
      simp only at stamp
      omega
    · intro i mem _
      have := inv.generation_le mem
      simp only [next]
      omega
    · intro i mem
      exact Nat.le_succ_of_le (inv.stamp_le i mem)

theorem inv_run (inv : Inv s) (calls : List (TrustCall prim ε)) : Inv (run step s calls) :=
  invariant_run inv_step inv calls

/-- A blocked policy stays as it is. -/
theorem step_of_blocked (blocked : s.trust.blocked = true) (call : TrustCall prim ε) :
    step s call = s := by
  obtain ⟨-, same⟩ | ⟨-, unblocked, -⟩ | ⟨-, -, unblocked, -⟩ := step_cases s call
  · exact same
  · simp [blocked] at unblocked
  · simp [blocked] at unblocked

/-- The record's generation does not fall. -/
theorem generation_le_run (s : TrustRun prim) (calls : List (TrustCall prim ε)) :
    s.trust.record.generation ≤ (run step s calls).trust.record.generation := by
  refine invariant_run (P := fun later : TrustRun prim =>
    s.trust.record.generation ≤ later.trust.record.generation) ?_ (Nat.le_refl _) calls
  intro later call reached
  obtain ⟨-, same⟩ | ⟨-, -, same⟩ | ⟨record, -, -, next, same | same⟩ := step_cases later call
  · rw [same]
    exact reached
  · rw [same]
    exact reached
  · rw [same]
    exact reached
  rw [same]
  simp only [next]
  omega

theorem permits_issued_iff (inv : Inv s) (mem : i ∈ s.issued) (principal : Principal) :
    s.trust.permits i.grant principal = true ↔
      s.trust.blocked = false ∧ s.trust.record.enabled = true ∧ i.changes = s.changes ∧
        principal = s.trust.record.peer.principal := by
  rw [permits_iff]
  constructor
  · rintro ⟨unblocked, enabled, anchored, pinned, asked⟩
    refine ⟨unblocked, enabled, ?_, asked.trans pinned⟩
    by_contra stale
    have older := inv.older i mem stale
    rw [anchored, s.trust.anchored, TrustRecord.anchor_generation] at older
    exact Nat.lt_irrefl _ older
  rintro ⟨unblocked, enabled, stamp, asked⟩
  rw [inv.current i mem stamp]
  exact ⟨unblocked, enabled, rfl, rfl, asked⟩

/-- A grant that was issued before storage was tried is never permitted afterwards. -/
theorem not_permits_after (inv : Inv s) {call : TrustCall prim ε}
    (reached : (submits s.trust call).isSome) (later : List (TrustCall prim ε))
    (mem : i ∈ s.issued) (principal : Principal) :
    (run step (step s call) later).trust.permits i.grant principal = false := by
  obtain ⟨none, -⟩ | ⟨none, -, -⟩ | ⟨record, -, -, next, same | same⟩ := step_cases s call
  · simp [none] at reached
  · simp [none] at reached
  · -- storage failed: the policy is blocked for good
    have blocked : (step s call).trust.blocked = true := by rw [same]
    rw [run_of_fixed (step_of_blocked blocked)]
    simp [← Bool.not_eq_true, permits_iff, blocked]
  -- storage succeeded: every later anchor has a greater generation
  have grown := generation_le_run (step s call) later
  have old := inv.generation_le mem
  rw [← Bool.not_eq_true, permits_iff]
  rintro ⟨-, -, anchored, -⟩
  rw [anchored, (run step (step s call) later).trust.anchored,
    TrustRecord.anchor_generation] at old
  rw [same] at grown old
  simp only [next] at grown
  omega

/-- **Grants do not outlive a change of trust.** After any run, a grant of the run is permitted
exactly for the pinned peer of an enabled, unblocked policy that has not changed since; a session
is accepted exactly with a permitted grant and the recorded local principal; a call that reaches
its storage callback ends every grant issued before it, whatever storage answers; and a call that
does not reach it changes nothing. -/
theorem grant_permitted_until_change (trust : PeerTrust prim) (calls : List (TrustCall prim ε)) :
    let s := run step (start trust) calls
    (∀ i ∈ s.issued, ∀ principal,
      s.trust.permits i.grant principal = true ↔
        s.trust.blocked = false ∧ s.trust.record.enabled = true ∧ i.changes = s.changes ∧
          principal = s.trust.record.peer.principal) ∧
      (∀ i ∈ s.issued, ∀ session,
        (s.trust.acceptSession i.grant session).isOk = true ↔
          s.trust.permits i.grant session.principal = true ∧
            session.localPrincipal = s.trust.record.localPrincipal) ∧
      ∀ call : TrustCall prim ε,
        if (submits s.trust call).isSome then
          ∀ later : List (TrustCall prim ε), ∀ i ∈ s.issued, ∀ principal,
            (run step (step s call) later).trust.permits i.grant principal = false
        else (step s call).trust = s.trust := by
  intro s
  have inv : Inv s := inv_run (inv_start trust) calls
  refine ⟨fun i mem => permits_issued_iff inv mem, fun i _ session => PeerTrust.acceptSession_isOk,
    fun call => ?_⟩
  split
  next reached => exact fun later i mem => not_permits_after inv reached later mem
  next refused =>
  obtain ⟨-, same⟩ | ⟨-, -, same⟩ | ⟨record, submitted, -⟩ := step_cases s call
  · rw [same]
  · rw [same]
  · simp [submitted] at refused

end TrustRun

end Coaptic.Provisioning
