import Coaptic.Provisioning.Enrollment
import Coaptic.Lib.Result
import Coaptic.Lib.Trace

/-!
# The enrollment authority of one device

An operator approves and revokes a policy for a registered device, and the device enrolls under it
and refreshes it. Each change is a record with the next revision, which the store commits; the
policy that the device trusts has generations of its own, which advance with fewer of the changes.
The validator of records ties the two together. A store that fails, or that reports another current
record, leaves the authority blocked until the last committed record is restored.
-/
namespace Coaptic.Provisioning

open Option

open Receipts (Fixed)
open BigEndian Run Result

def authorityDomain : String :=
  "https://github.com/jeffglousher/coaptic enrollment authority record v1"

inductive ApprovalError
  | record
  | anchor
  | device
  | owner
  | approval
  | notEnrolled
  | policy
  | blocked
  | exhausted
deriving DecidableEq

inductive ApprovalCommitError (ε : Type)
  | state (error : ApprovalError)
  | store (error : ε)
deriving DecidableEq

/-- Anchor of a management record; the generation is the revision. -/
structure EnrollmentAnchor where
  anchor : TrustAnchor
  revision_pos : 0 < anchor.generation
deriving DecidableEq

variable (prim : Primitives)

structure EnrollmentRecordParts where
  version : UInt8
  device : PinnedPeer prim
  genesis : TrustAnchor
  revision : Nat
  policy : Option (EnrollmentPolicy prim)
  approved : Bool
  snapshot : Option (PolicySnapshot prim)
  revision_le : revision ≤ u64Max

variable {prim}

namespace EnrollmentRecordParts

def check (parts : EnrollmentRecordParts prim) : Except ApprovalError Unit :=
  if parts.version ≠ 1 ∨ parts.revision = 0 ∨ parts.genesis.generation ≠ 0 then .error .record
  else if parts.approved = true ∧ parts.policy.isNone = true then .error .record
  else if parts.policy.any fun policy =>
      parts.revision < 2 || policy.peer.publicX = parts.device.publicX then .error .record
  else
    match parts.snapshot with
    | none => .ok ()
    | some snapshot =>
    match parts.policy with
    | none => .error .record
    | some policy =>
    if snapshot.record.localPrincipal ≠ parts.device.principal ∨
        snapshot.record.anchor.storeId ≠ parts.genesis.storeId ∨
        snapshot.record.peer.principal ≠ policy.peer.principal ∨
        snapshot.record.enabled ≠ parts.approved ∨
        snapshot.owner ≠ policy.owner ∨
        snapshot.resourcePolicy ≠ policy.resourcePolicy ∨
        (checkedAdd snapshot.record.anchor.generation 2).all (parts.revision < ·) = true then
      .error .record
    else .ok ()

/-- What the validator asks of a snapshot. -/
structure Fits (parts : EnrollmentRecordParts prim) (policy : EnrollmentPolicy prim)
    (snapshot : PolicySnapshot prim) : Prop where
  device : snapshot.record.localPrincipal = parts.device.principal
  store : snapshot.record.storeId = parts.genesis.storeId
  peer : snapshot.record.peer.principal = policy.peer.principal
  enabled : snapshot.record.enabled = parts.approved
  owner : snapshot.owner = policy.owner
  resourcePolicy : snapshot.resourcePolicy = policy.resourcePolicy
  generation : snapshot.record.generation + 2 ≤ parts.revision

/-- What the validator asks of a record. -/
structure Sound (parts : EnrollmentRecordParts prim) : Prop where
  version : parts.version = 1
  revision : 0 < parts.revision
  genesis : parts.genesis.generation = 0
  approved : parts.approved = true → parts.policy.isSome = true
  policy : ∀ policy, parts.policy = some policy →
    2 ≤ parts.revision ∧ policy.peer.publicX ≠ parts.device.publicX
  snapshot : ∀ snapshot, parts.snapshot = some snapshot →
    ∃ policy, parts.policy = some policy ∧ parts.Fits policy snapshot

theorem all_checkedAdd {parts : EnrollmentRecordParts prim} {g : Nat} :
    (checkedAdd g 2).all (parts.revision < ·) = true ↔ ¬g + 2 ≤ parts.revision := by
  have := parts.revision_le
  simp only [checkedAdd]
  split
  · simp
  next overflow =>
  simp only [all_none, true_iff]
  omega

theorem check_eq_ok {parts : EnrollmentRecordParts prim} : parts.check = .ok () ↔ parts.Sound := by
  -- the header and the policy are in order: the rest is about the snapshot
  have front (header : ¬(parts.version ≠ 1 ∨ parts.revision = 0 ∨ parts.genesis.generation ≠ 0))
      (backed : ¬(parts.approved = true ∧ parts.policy.isNone = true))
      (pinned : ¬(parts.policy.any fun policy =>
        parts.revision < 2 || policy.peer.publicX = parts.device.publicX) = true)
      (rest : ∀ snapshot, parts.snapshot = some snapshot →
        ∃ policy, parts.policy = some policy ∧ parts.Fits policy snapshot) : parts.Sound := by
    simp only [not_or, not_not] at header
    refine ⟨header.1, Nat.pos_of_ne_zero header.2.1, header.2.2, ?_, ?_, rest⟩
    · intro approved
      rw [isSome_iff_ne_none]
      exact fun missing => backed ⟨approved, by simp [missing]⟩
    intro policy present
    simp only [present, any_some, Bool.or_eq_true, decide_eq_true_eq, not_or] at pinned
    exact ⟨by omega, pinned.2⟩
  fun_cases check parts with
  | case1 bad =>
    refine iff_of_false nofun fun sound => ?_
    obtain version | zero | genesis := bad
    · exact version sound.version
    · exact absurd zero (Nat.ne_of_gt sound.revision)
    · exact genesis sound.genesis
  | case2 _ bad =>
    refine iff_of_false nofun fun sound => ?_
    have known := sound.approved bad.1
    rw [isNone_iff_eq_none.mp bad.2] at known
    cases known
  | case3 _ _ bad =>
    refine iff_of_false nofun fun sound => ?_
    rw [any_eq_true] at bad
    obtain ⟨policy, present, wrong⟩ := bad
    obtain ⟨late, other⟩ := sound.policy policy present
    simp only [Bool.or_eq_true, decide_eq_true_eq] at wrong
    exact wrong.elim (fun early => by omega) other
  | case4 header backed pinned none_ =>
    exact iff_of_true rfl (front header backed pinned fun snapshot present =>
      by simp [none_] at present)
  | case5 _ _ _ snapshot taken missing =>
    refine iff_of_false nofun fun sound => ?_
    obtain ⟨policy, present, -⟩ := sound.snapshot snapshot taken
    simp [missing] at present
  | case6 _ _ _ snapshot taken policy installed bad =>
    refine iff_of_false nofun fun sound => ?_
    obtain ⟨other, present, fits⟩ := sound.snapshot snapshot taken
    obtain rfl : policy = other := by simpa [installed] using present
    obtain wrong | wrong | wrong | wrong | wrong | wrong | wrong := bad
    · exact wrong fits.device
    · exact wrong fits.store
    · exact wrong fits.peer
    · exact wrong fits.enabled
    · exact wrong fits.owner
    · exact wrong fits.resourcePolicy
    · exact all_checkedAdd.mp wrong fits.generation
  | case7 header backed pinned snapshot taken policy installed good =>
  simp only [not_or, not_not] at good
  obtain ⟨device, store, peer, enabled, owner, resourcePolicy, generation⟩ := good
  rw [all_checkedAdd, not_not] at generation
  refine iff_of_true rfl (front header backed pinned fun other present => ?_)
  obtain rfl : snapshot = other := by simpa [taken] using present
  exact ⟨policy, installed, device, store, peer, enabled, owner, resourcePolicy, generation⟩

end EnrollmentRecordParts

variable (prim) in
/-- A record that has passed the validator. -/
structure EnrollmentRecord where
  parts : EnrollmentRecordParts prim
  checked : parts.check = .ok ()

namespace EnrollmentRecord

def fromParts (parts : EnrollmentRecordParts prim) : Except ApprovalError (EnrollmentRecord prim) :=
  match checked : parts.check with
  | .error e => .error e
  | .ok () => .ok ⟨parts, checked⟩

section

variable (record : EnrollmentRecord prim)

theorem sound : record.parts.Sound :=
  EnrollmentRecordParts.check_eq_ok.mp record.checked

theorem fromParts_eq_ok {parts : EnrollmentRecordParts prim} {record : EnrollmentRecord prim}
    (accepted : fromParts parts = .ok record) : record.parts = parts := by
  simp only [fromParts] at accepted
  split at accepted
  · cases accepted
  · cases accepted; rfl

theorem fromParts_parts : fromParts record.parts = .ok record := by
  simp only [fromParts]
  split
  next e refused => simp [record.checked] at refused
  · rfl

def device (record : EnrollmentRecord prim) : Principal := record.parts.device.principal

def flag (b : Bool) : UInt8 := if b then 1 else 0

/-- What the digest of a management record covers. -/
def hashed : List UInt8 :=
  [record.parts.version] ++ record.device.bytes ++ record.parts.genesis.storeId.bytes ++
    toBe 8 record.parts.revision ++
    [flag record.parts.approved, flag record.parts.policy.isSome] ++
    (match record.parts.policy with
      | none => []
      | some policy =>
        policy.peer.principal.bytes ++ policy.owner.bytes ++ policy.resourcePolicy.bytes) ++
    [flag record.parts.snapshot.isSome] ++
    (match record.parts.snapshot with
      | none => []
      | some snapshot => snapshot.commitment.bytes)

end

def anchor (record : EnrollmentRecord prim) : EnrollmentAnchor where
  anchor :=
    { storeId := record.parts.genesis.storeId
      generation := record.parts.revision
      digest := prim.deriveKey authorityDomain record.hashed
      store_ne := record.parts.genesis.store_ne
      generation_le := record.parts.revision_le
      genesis_digest := fun zero => absurd zero (Nat.ne_of_gt record.sound.revision) }
  revision_pos := record.sound.revision

/-- Generation of the policy that the device trusts, zero before it has enrolled. -/
def generation (record : EnrollmentRecord prim) : Nat :=
  record.parts.snapshot.elim 0 (·.record.generation)

end EnrollmentRecord

variable (prim) in
/-- How the store answers: the record that is current, and the outcome of a commit. -/
structure EnrollmentStore (ε : Type) where
  current : Except ε EnrollmentAnchor
  commit : Option EnrollmentAnchor → EnrollmentRecord prim → EnrollmentAnchor → Except ε Unit

variable (prim) in
structure EnrollmentAuthority where
  record : EnrollmentRecord prim
  blocked : Bool

def snapshotFor (parts : EnrollmentRecordParts prim) (generation : Nat)
    (bound : generation ≤ u64Max) : Except ApprovalError (PolicySnapshot prim) :=
  match parts.policy with
  | none => .error .approval
  | some policy =>
  match TrustRecord.fromParts
    { version := 1
      storeId := parts.genesis.storeId
      generation := generation
      localPrincipal := parts.device.principal
      peerPublicKey := policy.peer.publicKey
      peerKid := policy.peer.kid
      enabled := parts.approved
      generation_le := bound } with
  | .error _ => .error .record
  | .ok record =>
  match PolicySnapshot.new record policy.owner policy.resourcePolicy with
  | .error _ => .error .record
  | .ok snapshot => .ok snapshot

/-- A live snapshot follows a change of the policy with the next generation. -/
def renewSnapshot (next : EnrollmentRecordParts prim) :
    Except ApprovalError (EnrollmentRecordParts prim) :=
  match next.snapshot with
  | none => .ok next
  | some snapshot =>
    if bound : snapshot.record.anchor.generation + 1 ≤ u64Max then do
      let renewed ← snapshotFor next (snapshot.record.anchor.generation + 1) bound
      return { next with snapshot := some renewed }
    else .error .exhausted

namespace EnrollmentAuthority

variable {ε : Type}

def register (device : PinnedPeer prim) (genesis : TrustAnchor) (store : EnrollmentStore prim ε) :
    Except (ApprovalCommitError ε) (EnrollmentAuthority prim) :=
  match EnrollmentRecord.fromParts
    { version := 1
      device := device
      genesis := genesis
      revision := 1
      policy := none
      approved := false
      snapshot := none
      revision_le := one_le_u64Max } with
  | .error e => .error (.state e)
  | .ok record =>
    match store.commit none record record.anchor with
    | .error e => .error (.store e)
    | .ok () => .ok ⟨record, false⟩

def restore (record : EnrollmentRecord prim) (current : EnrollmentAnchor) :
    Except ApprovalError (EnrollmentAuthority prim) :=
  if record.anchor ≠ current then .error .anchor else .ok ⟨record, false⟩

section

variable (a : EnrollmentAuthority prim)

section

variable (expected : EnrollmentAnchor)

def check : Except ApprovalError Unit :=
  if a.blocked then .error .blocked
  else if expected ≠ a.record.anchor then .error .anchor
  else .ok ()

def prepare (next : EnrollmentRecordParts prim) : Except ApprovalError (EnrollmentRecord prim) :=
  if bound : a.record.parts.revision + 1 ≤ u64Max then
    EnrollmentRecord.fromParts
      { next with revision := a.record.parts.revision + 1, revision_le := bound }
  else .error .exhausted

/-- The store decides, and only its success unblocks. -/
def commit (a : EnrollmentAuthority prim) (record : EnrollmentRecord prim)
    (store : EnrollmentStore prim ε) :
    Except (ApprovalCommitError ε) EnrollmentAnchor × EnrollmentAuthority prim :=
  match store.commit (some a.record.anchor) record record.anchor with
  | .error e => (.error (.store e), { a with blocked := true })
  | .ok () => (.ok record.anchor, ⟨record, false⟩)

def approval (policy : EnrollmentPolicy prim) : Except ApprovalError (EnrollmentRecord prim) := do
  a.check expected
  if a.record.parts.policy.any fun old => old.owner ≠ policy.owner then .error .owner
  else
    let next ← renewSnapshot { a.record.parts with approved := true, policy := some policy }
    a.prepare next

def approve (policy : EnrollmentPolicy prim) (store : EnrollmentStore prim ε) :
    Except (ApprovalCommitError ε) EnrollmentAnchor × EnrollmentAuthority prim :=
  match a.approval expected policy with
  | .error e => (.error (.state e), a)
  | .ok record => a.commit record store

def revocation : Except ApprovalError (EnrollmentRecord prim) := do
  a.check expected
  let next ← renewSnapshot { a.record.parts with approved := false }
  a.prepare next

def revoke (store : EnrollmentStore prim ε) :
    Except (ApprovalCommitError ε) EnrollmentAnchor × EnrollmentAuthority prim :=
  match a.revocation expected with
  | .error e => (.error (.state e), a)
  | .ok record => a.commit record store

end

def enrollment (expected : TrustAnchor) (policy : EnrollmentPolicy prim) :
    Except ApprovalError (PolicySnapshot prim × EnrollmentRecord prim) :=
  match a.record.parts.policy.filter fun _ =>
      a.record.parts.approved && a.record.parts.snapshot.isNone with
  | none => .error .approval
  | some approved =>
    if expected ≠ a.record.parts.genesis ∨
        policy.peer.principal ≠ approved.peer.principal ∨
        policy.owner ≠ approved.owner ∨
        policy.resourcePolicy ≠ approved.resourcePolicy then .error .approval
    else do
      let snapshot ← snapshotFor a.record.parts 1 one_le_u64Max
      let record ← a.prepare { a.record.parts with snapshot := some snapshot }
      return (snapshot, record)

def refresh (expected : TrustAnchor) (policyCommitment : Fixed 32) :
    Except ApprovalError (PolicySnapshot prim) :=
  match a.record.parts.snapshot with
  | none => .error .notEnrolled
  | some snapshot =>
  let actual := snapshot.record.anchor
  if expected.storeId ≠ actual.storeId ∨
      actual.generation < expected.generation ∨
      (expected.generation = 0 ∧ policyCommitment ≠ zeros 32) ∨
      (expected.generation = actual.generation ∧
        (expected ≠ actual ∨ policyCommitment ≠ snapshot.commitment)) then .error .policy
  else .ok snapshot

def answer (query : PolicyQuery prim) (store : EnrollmentStore prim ε) :
    Except (ApprovalCommitError ε) (PolicySnapshot prim) × EnrollmentAuthority prim :=
  match query with
  | .enroll expected policy =>
    match a.enrollment expected policy with
    | .error e => (.error (.state e), a)
    | .ok (snapshot, record) =>
      match a.commit record store with
      | (.error e, a) => (.error e, a)
      | (.ok _, a) => (.ok snapshot, a)
  | .refresh expected policyCommitment =>
    match a.refresh expected policyCommitment with
    | .error e => (.error (.state e), a)
    | .ok snapshot => (.ok snapshot, a)

def resolve (principal : Principal) (query : PolicyQuery prim) (store : EnrollmentStore prim ε) :
    Except (ApprovalCommitError ε) (PolicySnapshot prim) × EnrollmentAuthority prim :=
  match a.check a.record.anchor with
  | .error e => (.error (.state e), a)
  | .ok () =>
  if principal ≠ a.record.device then (.error (.state .device), a)
  else
  -- blocked from here on, until the store has named this record as the current one
  match store.current with
  | .error e => (.error (.store e), { a with blocked := true })
  | .ok current =>
    if current ≠ a.record.anchor then (.error (.state .anchor), { a with blocked := true })
    else answer { a with blocked := false } query store

end

end EnrollmentAuthority
end Coaptic.Provisioning
