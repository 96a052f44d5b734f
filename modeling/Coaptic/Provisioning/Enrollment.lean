import Coaptic.Provisioning.Trust

/-!
# Policies of an online authority

What a device asks its authority for, what the authority returns, and the check that the device
makes on the answer before it installs it.
-/
namespace Coaptic.Provisioning

open Receipts (Fixed)
open BigEndian

def policyDomain : String :=
  "https://github.com/jeffglousher/coaptic online policy snapshot v1"

/-- The refusals of the policy checks. -/
inductive EnrollmentError
  | binding
  | rollback
  | policy
  | trust (error : TrustError)
deriving DecidableEq

def validatePolicy (owner resourcePolicy : Fixed 32) : Except EnrollmentError Unit :=
  if owner = zeros 32 ∨ resourcePolicy = zeros 32 then .error .policy else .ok ()

variable (prim : Primitives)

/-- Owner, application peer and permissions that an operator approves. -/
structure EnrollmentPolicy where
  peer : PinnedPeer prim
  owner : Fixed 32
  resourcePolicy : Fixed 32
  validated : validatePolicy owner resourcePolicy = .ok ()

/-- A committed policy: the trust record, its owner and its permissions. -/
structure PolicySnapshot where
  record : TrustRecord prim
  owner : Fixed 32
  resourcePolicy : Fixed 32
  validated : validatePolicy owner resourcePolicy = .ok ()

inductive PolicyQuery
  | enroll (expected : TrustAnchor) (policy : EnrollmentPolicy prim)
  | refresh (expected : TrustAnchor) (policyCommitment : Fixed 32)

variable {prim}

def EnrollmentPolicy.new (peer : PinnedPeer prim) (owner resourcePolicy : Fixed 32) :
    Except EnrollmentError (EnrollmentPolicy prim) :=
  match checked : validatePolicy owner resourcePolicy with
  | .error e => .error e
  | .ok () => .ok ⟨peer, owner, resourcePolicy, checked⟩

namespace PolicySnapshot

def new (record : TrustRecord prim) (owner resourcePolicy : Fixed 32) :
    Except EnrollmentError (PolicySnapshot prim) :=
  match checked : validatePolicy owner resourcePolicy with
  | .error e => .error e
  | .ok () => .ok ⟨record, owner, resourcePolicy, checked⟩

theorem new_of_validated {record : TrustRecord prim} {owner resourcePolicy : Fixed 32}
    (checked : validatePolicy owner resourcePolicy = .ok ()) :
    new record owner resourcePolicy = .ok ⟨record, owner, resourcePolicy, checked⟩ := by
  simp only [new]
  split
  next e refused => simp [checked] at refused
  · rfl

def encodeAnchor (anchor : TrustAnchor) : List UInt8 :=
  anchor.storeId.bytes ++ toBe 8 anchor.generation ++ anchor.digest.bytes

def commitment (snapshot : PolicySnapshot prim) : Fixed 32 :=
  prim.deriveKey policyDomain
    (encodeAnchor snapshot.record.anchor ++ snapshot.owner.bytes ++ snapshot.resourcePolicy.bytes)

end PolicySnapshot

namespace PolicyQuery

def expected : PolicyQuery prim → TrustAnchor
  | .enroll expected _ => expected
  | .refresh expected _ => expected

def refreshOf (snapshot : PolicySnapshot prim) : PolicyQuery prim :=
  .refresh snapshot.record.anchor snapshot.commitment

end PolicyQuery

def validateQuery (snapshot : PolicySnapshot prim) : PolicyQuery prim → Except EnrollmentError Unit
  | .refresh expected policyCommitment =>
    if snapshot.record.anchor.generation = expected.generation ∧
        snapshot.commitment ≠ policyCommitment then .error .rollback
    else .ok ()
  | .enroll expected policy =>
    if expected.generation ≠ 0 ∨ snapshot.record.anchor.generation ≠ 1 ∨
        snapshot.record.enabled = false ∨
        snapshot.record.peer.principal ≠ policy.peer.principal ∨
        snapshot.owner ≠ policy.owner ∨ snapshot.resourcePolicy ≠ policy.resourcePolicy then
      .error .binding
    else .ok ()

def validateSnapshot (snapshot : PolicySnapshot prim) (query : PolicyQuery prim)
    (principal : Principal) : Except EnrollmentError Unit :=
  let actual := snapshot.record.anchor
  let expected := query.expected
  if snapshot.record.localPrincipal ≠ principal ∨ actual.storeId ≠ expected.storeId then
    .error .binding
  else if actual.generation < expected.generation ∨
      (actual.generation = expected.generation ∧ actual ≠ expected) then
    .error .rollback
  else validateQuery snapshot query

theorem validateSnapshot_eq_ok {snapshot : PolicySnapshot prim} {query : PolicyQuery prim}
    {principal : Principal} (bound : snapshot.record.localPrincipal = principal)
    (store : snapshot.record.storeId = query.expected.storeId)
    (fresh : query.expected.generation ≤ snapshot.record.generation)
    (exact_ : query.expected.generation = snapshot.record.generation →
      query.expected = snapshot.record.anchor)
    (asked : validateQuery snapshot query = .ok ()) :
    validateSnapshot snapshot query principal = .ok () := by
  simp only [validateSnapshot]
  rw [if_neg, if_neg]
  · exact asked
  · rintro (older | ⟨same, different⟩)
    · exact absurd older (Nat.not_lt.mpr fresh)
    · exact different (exact_ same.symm).symm
  rintro (other | other)
  · exact other bound
  · exact other store

end Coaptic.Provisioning
