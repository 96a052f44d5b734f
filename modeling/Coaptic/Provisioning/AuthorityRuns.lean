import Coaptic.Provisioning.Authority

/-!
# Runs of the enrollment authority

Whatever operators, the device and the store do, the records that the authority submits form one
line of revisions with policy generations that never fall, the first owner stays, and the device
enrolls at most once. The answers to the device pass its own check, so that a device that asks with
what it last accepted is never told that the policy went back.
-/
namespace Coaptic.Provisioning

open EnrollmentRecord Option

open Receipts (Fixed)
open Run Result

variable {prim : Primitives} {ε : Type}

variable (prim ε) in
/-- A call of an operator or of the device, with the store's answers. -/
inductive AuthorityCall
  | approve (expected : EnrollmentAnchor) (policy : EnrollmentPolicy prim)
      (store : EnrollmentStore prim ε)
  | revoke (expected : EnrollmentAnchor) (store : EnrollmentStore prim ε)
  | resolve (principal : Principal) (query : PolicyQuery prim) (store : EnrollmentStore prim ε)
  | restore (current : EnrollmentAnchor)

namespace AuthorityCall

def isRestore : AuthorityCall prim ε → Bool
  | .restore _ => true
  | _ => false

def isEnroll : AuthorityCall prim ε → Bool
  | .resolve _ (.enroll _ _) _ => true
  | _ => false

/-- The same call on another store. -/
def on (store : EnrollmentStore prim ε) : AuthorityCall prim ε → AuthorityCall prim ε
  | .approve expected policy _ => .approve expected policy store
  | .revoke expected _ => .revoke expected store
  | .resolve principal query _ => .resolve principal query store
  | .restore current => .restore current

end AuthorityCall

variable (prim) in
inductive AuthorityAnswer
  | anchor (anchor : EnrollmentAnchor)
  | snapshot (snapshot : PolicySnapshot prim)
  | restored

namespace EnrollmentAuthority

section

variable (a : EnrollmentAuthority prim)

/-- The answer to a call, and the authority after it. What is restored is the last record that was
committed for certain. -/
def respond : AuthorityCall prim ε →
      Except (ApprovalCommitError ε) (AuthorityAnswer prim) × EnrollmentAuthority prim
  | .approve expected policy store =>
    let (result, a) := a.approve expected policy store
    (result.map .anchor, a)
  | .revoke expected store =>
    let (result, a) := a.revoke expected store
    (result.map .anchor, a)
  | .resolve principal query store =>
    let (result, a) := a.resolve principal query store
    (result.map .snapshot, a)
  | .restore current =>
    match restore a.record current with
    | .error e => (.error (.state e), a)
    | .ok a => (.ok .restored, a)

def step (call : AuthorityCall prim ε) : EnrollmentAuthority prim :=
  (a.respond call).2

def submits : AuthorityCall prim ε → Option (EnrollmentRecord prim)
  | .approve expected policy _ => (a.approval expected policy).toOption
  | .revoke expected _ => (a.revocation expected).toOption
  | .resolve principal (.enroll expected policy) store =>
    if a.blocked = false ∧ principal = a.record.device ∧
        store.current.toOption = some a.record.anchor then
      (a.enrollment expected policy).toOption.map (·.2)
    else none
  | .resolve _ (.refresh _ _) _ => none
  | .restore _ => none

def returns (call : AuthorityCall prim ε) : Option (PolicySnapshot prim) :=
  match (a.respond call).1 with
  | .ok (.snapshot snapshot) => some snapshot
  | _ => none

/-- The call passes this to the store: what becomes of it hangs on the store's answer to just this. -/
def Passes (call : AuthorityCall prim ε) (expected : Option EnrollmentAnchor)
    (record : EnrollmentRecord prim) (anchor : EnrollmentAnchor) : Prop :=
  ∃ store store', call = call.on store ∧ store'.current = store.current ∧
    (∀ e r n, (e, r, n) ≠ (expected, record, anchor) → store'.commit e r n = store.commit e r n) ∧
    a.respond (call.on store') ≠ a.respond call

end

/-! ### What a call submits -/

variable {a b : EnrollmentAuthority prim} {expected : TrustAnchor}
  {next parts : EnrollmentRecordParts prim} {generation : Nat} {snapshot : PolicySnapshot prim}
  {record : EnrollmentRecord prim} {policy : EnrollmentPolicy prim} {e : ApprovalError}
  {call : AuthorityCall prim ε} {bound : generation ≤ u64Max}

theorem check_eq_ok {expected : EnrollmentAnchor} (passed : a.check expected = .ok ()) :
    a.blocked = false ∧ expected = a.record.anchor := by
  simp only [check] at passed
  split at passed
  · cases passed
  next unblocked =>
  split at passed
  · cases passed
  next same => exact ⟨by simpa using unblocked, not_not.mp same⟩

theorem check_of_blocked (blocked : a.blocked = true) (expected : EnrollmentAnchor) :
    a.check expected = .error .blocked := by
  simp [check, blocked]

theorem check_of_unblocked (unblocked : a.blocked = false) : a.check a.record.anchor = .ok () := by
  simp [check, unblocked]

theorem snapshotFor_eq_ok (made : snapshotFor parts generation bound = .ok snapshot) :
    snapshot.record.generation = generation := by
  revert made
  fun_cases snapshotFor parts generation bound with
  | case4 policy present record built whole wrapped =>
    rintro ⟨⟩
    have outer : snapshot.record = record := by
      rw [PolicySnapshot.new_of_validated policy.validated] at wrapped
      cases wrapped
      rfl
    rw [outer]
    revert built
    fun_cases TrustRecord.fromParts with
    | case4 =>
      rintro ⟨⟩
      rfl
    | _ => exact nofun
  | _ => exact nofun

/-- A record that may follow another: the next revision for the same device and store, a policy
generation that stands still before enrollment and advances by one after it, and the same owner. -/
structure Follows (old new : EnrollmentRecord prim) : Prop where
  revision : new.parts.revision = old.parts.revision + 1
  device : new.parts.device = old.parts.device
  genesis : new.parts.genesis = old.parts.genesis
  snapshot : (old.parts.snapshot = none ∧ new.parts.snapshot = none) ∨
    ∃ snapshot, new.parts.snapshot = some snapshot ∧ snapshot.record.generation = old.generation + 1
  owner : ∀ policy, old.parts.policy = some policy →
    ∃ kept, new.parts.policy = some kept ∧ kept.owner = policy.owner

theorem prepare_eq_ok (prepared : a.prepare next = .ok record) : ∃ bound, record.parts =
      { next with revision := a.record.parts.revision + 1, revision_le := bound } := by
  simp only [prepare] at prepared
  split at prepared
  next bound => exact ⟨bound, fromParts_eq_ok prepared⟩
  · cases prepared

theorem renewSnapshot_eq_ok {renewed : EnrollmentRecordParts prim}
    (renews : renewSnapshot next = .ok renewed) :
    ∃ snapshot, renewed = { next with snapshot := snapshot } ∧
      ((next.snapshot = none ∧ snapshot = none) ∨
        ∃ old new, next.snapshot = some old ∧ snapshot = some new ∧
          new.record.generation = old.record.generation + 1) := by
  simp only [renewSnapshot] at renews
  split at renews
  next absent =>
    cases renews
    exact ⟨none, by rw [← absent], .inl ⟨absent, rfl⟩⟩
  next old present =>
  split at renews
  next bound =>
    obtain ⟨new, made, same⟩ := bind_eq_ok.mp renews
    cases same
    exact ⟨some new, rfl, .inr ⟨old, new, present, rfl, snapshotFor_eq_ok made⟩⟩
  · cases renews

/-- Approval and revocation in one: they replace the approval, and the policy by one of the same
owner, and renew the snapshot. -/
theorem follows_of_renew {approved : Bool} {policy : Option (EnrollmentPolicy prim)}
    (owner : ∀ old, a.record.parts.policy = some old → ∃ kept, policy = some kept ∧
      kept.owner = old.owner)
    (renews : renewSnapshot { a.record.parts with approved := approved, policy := policy } = .ok next)
    (prepared : a.prepare next = .ok record) : Follows a.record record := by
  obtain ⟨snapshot, rfl, grows⟩ := renewSnapshot_eq_ok renews
  obtain ⟨bound, parts⟩ := prepare_eq_ok prepared
  refine ⟨by rw [parts], by rw [parts], by rw [parts], ?_, by rw [parts]; exact owner⟩
  rw [parts]
  obtain ⟨absent, rfl⟩ | ⟨old, new, present, rfl, next⟩ := grows
  · exact .inl ⟨absent, rfl⟩
  refine .inr ⟨new, rfl, ?_⟩
  simp only at present
  rw [next, generation, present]
  rfl

theorem approval_eq_ok {expected : EnrollmentAnchor}
    (submitted : a.approval expected policy = .ok record) :
    a.blocked = false ∧ Follows a.record record := by
  simp only [approval] at submitted
  obtain ⟨u, passed, rest⟩ := bind_eq_ok.mp submitted
  refine ⟨(check_eq_ok passed).1, ?_⟩
  split at rest
  · cases rest
  next same =>
  obtain ⟨next, renews, prepared⟩ := bind_eq_ok.mp rest
  refine follows_of_renew ?_ renews prepared
  intro old present
  refine ⟨policy, rfl, ?_⟩
  simp only [present, any_some, decide_eq_true_eq, ne_eq, not_not] at same
  exact same.symm

theorem revocation_eq_ok {expected : EnrollmentAnchor}
    (submitted : a.revocation expected = .ok record) :
    a.blocked = false ∧ Follows a.record record := by
  simp only [revocation] at submitted
  obtain ⟨u, passed, rest⟩ := bind_eq_ok.mp submitted
  obtain ⟨next, renews, prepared⟩ := bind_eq_ok.mp rest
  have owner : ∀ old, a.record.parts.policy = some old →
      ∃ kept, a.record.parts.policy = some kept ∧ kept.owner = old.owner :=
    fun old present => ⟨old, present, rfl⟩
  exact ⟨(check_eq_ok passed).1, follows_of_renew owner renews prepared⟩

/-- What an enrollment has found: approval for exactly this policy, and no snapshot yet. -/
theorem enrollment_eq_ok (submitted : a.enrollment expected policy = .ok (snapshot, record)) :
    Follows a.record record ∧ a.record.parts.snapshot = none ∧
      record.parts.snapshot = some snapshot ∧ record.parts.approved = true ∧
      expected = a.record.parts.genesis ∧
      ∃ approved, record.parts.policy = some approved ∧
        policy.peer.principal = approved.peer.principal ∧ policy.owner = approved.owner ∧
        policy.resourcePolicy = approved.resourcePolicy := by
  simp only [enrollment] at submitted
  split at submitted
  · cases submitted
  next approved found =>
  rw [filter_eq_some_iff] at found
  obtain ⟨present, ready⟩ := found
  simp only [Bool.and_eq_true, isNone_iff_eq_none] at ready
  split at submitted
  · cases submitted
  next asked =>
  simp only [not_or, not_not] at asked
  obtain ⟨made, forged, rest⟩ := bind_eq_ok.mp submitted
  obtain ⟨next, prepared, same⟩ := bind_eq_ok.mp rest
  cases same
  obtain ⟨bound, parts⟩ := prepare_eq_ok prepared
  have first : snapshot.record.generation = a.record.generation + 1 := by
    rw [snapshotFor_eq_ok forged, generation, ready.2]
    rfl
  refine ⟨⟨by rw [parts], by rw [parts], by rw [parts], .inr ⟨snapshot, by rw [parts], first⟩, ?_⟩,
    ready.2, by rw [parts], by rw [parts]; exact ready.1, asked.1,
    approved, by rw [parts]; exact present, asked.2.1, asked.2.2.1, asked.2.2.2⟩
  intro old known
  exact ⟨old, by rw [parts]; exact known, rfl⟩

theorem refresh_eq_ok {policyCommitment : Fixed 32}
    (returned : a.refresh expected policyCommitment = .ok snapshot) :
    a.record.parts.snapshot = some snapshot ∧ expected.storeId = snapshot.record.storeId ∧
      expected.generation ≤ snapshot.record.generation ∧
      (expected.generation = snapshot.record.generation →
        expected = snapshot.record.anchor ∧ policyCommitment = snapshot.commitment) := by
  simp only [refresh] at returned
  split at returned
  · cases returned
  next found present =>
  split at returned
  · cases returned
  next passed =>
  cases returned
  simp only [not_or, not_and, not_not, TrustRecord.anchor_storeId,
    TrustRecord.anchor_generation] at passed
  obtain ⟨store, fresh, -, exact_⟩ := passed
  exact ⟨present, store, by omega, exact_⟩

/-! ### What a call does -/

theorem parts_check_error (refused : parts.check = .error e) : e = .record := by
  simp only [EnrollmentRecordParts.check] at refused
  repeat' split at refused
  all_goals cases refused
  all_goals rfl

theorem prepare_error (refused : a.prepare next = .error e) : e = .exhausted ∨ e = .record := by
  simp only [prepare, fromParts] at refused
  split at refused
  · split at refused
    next e' invalid =>
      cases refused
      exact .inr (parts_check_error invalid)
    · cases refused
  next =>
  cases refused
  exact .inl rfl

theorem snapshotFor_error (refused : snapshotFor parts generation bound = .error e) :
    e = .approval ∨ e = .record := by
  simp only [snapshotFor] at refused
  repeat' split at refused
  all_goals cases refused
  all_goals simp

/-- A refused enrollment is not taken for a stale authority. -/
theorem enrollment_error (refused : a.enrollment expected policy = .error e) : e ≠ .anchor := by
  simp only [enrollment] at refused
  split at refused
  · cases refused; decide
  next =>
  split at refused
  · cases refused; decide
  next =>
  obtain refused | ⟨snapshot, -, refused⟩ := bind_eq_error.mp refused
  · obtain rfl | rfl := snapshotFor_error refused <;> decide
  obtain refused | ⟨record, -, refused⟩ := bind_eq_error.mp refused
  · obtain rfl | rfl := prepare_error refused <;> decide
  · cases refused

section

variable (a : EnrollmentAuthority prim)

section

variable (call : AuthorityCall prim ε)

/-- The calls after which the authority no longer knows which record is current. -/
def Fails : Prop :=
  (∃ e, (a.respond call).1 = .error (.store e)) ∨
    ∃ principal query store, call = .resolve principal query store ∧
      (a.respond call).1 = .error (.state .anchor)

def Submitted (record : EnrollmentRecord prim) : Prop :=
  a.blocked = false ∧ Follows a.record record ∧
    (a.step call = { a with blocked := true } ∨
      (a.step call = ⟨record, false⟩ ∧ (a.respond call).1.isOk = true))

theorem commit_cases (record : EnrollmentRecord prim) (store : EnrollmentStore prim ε) :
    (∃ e, a.commit record store = (.error (.store e), { a with blocked := true })) ∨
      a.commit record store = (.ok record.anchor, ⟨record, false⟩) := by
  simp only [commit]
  split
  next e failed => exact .inl ⟨e, rfl⟩
  · exact .inr rfl

/-- How the device's call ends: it is refused without effect, the store leaves the authority
blocked, a snapshot is returned as it stands, or an enrollment is submitted. -/
theorem resolve_cases (principal : Principal) (query : PolicyQuery prim)
    (store : EnrollmentStore prim ε) :
    (∃ e, a.resolve principal query store = (.error (.state e), a) ∧ e ≠ .anchor ∧
        a.submits (.resolve principal query store) = none) ∨
      (∃ e, a.resolve principal query store = (.error e, { a with blocked := true }) ∧
        a.blocked = false ∧ a.submits (.resolve principal query store) = none) ∨
      (∃ expected c snapshot, query = .refresh expected c ∧ principal = a.record.device ∧
        a.refresh expected c = .ok snapshot ∧
        a.resolve principal query store = (.ok snapshot, a)) ∨
      (∃ expected policy snapshot record, query = .enroll expected policy ∧
        principal = a.record.device ∧ a.blocked = false ∧
        a.enrollment expected policy = .ok (snapshot, record) ∧
        a.submits (.resolve principal query store) = some record ∧
        ((∃ e, a.resolve principal query store = (.error (.store e), { a with blocked := true })) ∨
          a.resolve principal query store = (.ok snapshot, ⟨record, false⟩))) := by
  cases blocked : a.blocked with
  | true =>
    refine .inl ⟨.blocked, ?_, by decide, ?_⟩
    · simp [resolve, check_of_blocked blocked]
    · cases query <;> simp [submits, blocked]
  | false =>
  simp only [resolve, check_of_unblocked blocked]
  by_cases device : principal = a.record.device
  case neg =>
    refine .inl ⟨.device, by simp [device], by decide, ?_⟩
    cases query <;> simp [submits, device]
  case pos =>
    rw [if_neg (not_not.mpr device)]
    cases current : store.current with
    | error e =>
      refine .inr (.inl ⟨.store e, rfl, trivial, ?_⟩)
      cases query <;> simp [submits, current, Except.toOption]
    | ok anchor =>
    simp only
    by_cases same : anchor = a.record.anchor
    case neg =>
      refine .inr (.inl ⟨.state .anchor, by rw [if_pos same], trivial, ?_⟩)
      cases query <;> simp [submits, current, Except.toOption, same]
    case pos =>
      have unchanged : ({ a with blocked := false } : EnrollmentAuthority prim) = a := by
        rw [← blocked]
      rw [if_neg (not_not.mpr same), unchanged]
      cases query with
      | refresh expected c =>
        simp only [answer]
        cases refreshed : a.refresh expected c with
        | error e =>
          refine .inl ⟨e, rfl, ?_, rfl⟩
          rintro rfl
          revert refreshed
          fun_cases refresh a expected c
          all_goals exact nofun
        | ok snapshot => exact .inr (.inr (.inl ⟨expected, c, snapshot, rfl, device, refreshed, rfl⟩))
      | enroll expected policy =>
      simp only [answer, submits]
      rw [if_pos ⟨blocked, device, by rw [current, same]; rfl⟩]
      cases enrolled : a.enrollment expected policy with
      | error e => exact .inl ⟨e, rfl, enrollment_error enrolled, rfl⟩
      | ok pair =>
      obtain ⟨snapshot, record⟩ := pair
      refine .inr (.inr (.inr ⟨expected, policy, snapshot, record, rfl, device, trivial, enrolled,
        rfl, ?_⟩))
      obtain ⟨e, failed⟩ | done := commit_cases a record store
      · exact .inl ⟨e, by simp only [failed]⟩
      · exact .inr (by simp only [done])

/-- What any call can do: nothing, restore, block, or submit the record that follows. -/
theorem respond_cases : (a.submits call = none ∧ a.step call = a ∧ ¬Fails a call) ∨
      (a.submits call = none ∧ call.isRestore = true ∧ a.step call = ⟨a.record, false⟩ ∧
        (a.respond call).1.isOk = true) ∨
      (a.submits call = none ∧ a.step call = { a with blocked := true }) ∨
      ∃ record, a.submits call = some record ∧ Submitted a call record := by
  cases call with
  | approve expected policy store =>
    simp only [Submitted, Fails, step, respond, submits, approve]
    cases submitted : a.approval expected policy with
    | error e => exact .inl ⟨rfl, rfl, by simp⟩
    | ok record =>
    obtain ⟨unblocked, follows⟩ := approval_eq_ok submitted
    refine .inr (.inr (.inr ⟨record, rfl, unblocked, follows, ?_⟩))
    obtain ⟨e, failed⟩ | done := commit_cases a record store
    · exact .inl (by simp only [failed])
    · exact .inr (by simp [done])
  | revoke expected store =>
    simp only [Submitted, Fails, step, respond, submits, revoke]
    cases submitted : a.revocation expected with
    | error e => exact .inl ⟨rfl, rfl, by simp⟩
    | ok record =>
    obtain ⟨unblocked, follows⟩ := revocation_eq_ok submitted
    refine .inr (.inr (.inr ⟨record, rfl, unblocked, follows, ?_⟩))
    obtain ⟨e, failed⟩ | done := commit_cases a record store
    · exact .inl (by simp only [failed])
    · exact .inr (by simp [done])
  | resolve principal query store =>
    obtain ⟨e, refused, other, none⟩ | ⟨e, down, -, none⟩ | ⟨expected, c, snapshot, rfl, -, -, done⟩ |
        ⟨expected, policy, snapshot, record, rfl, -, unblocked, enrolled, some_, outcome⟩ :=
      resolve_cases a principal query store
    · refine .inl ⟨none, by simp only [step, respond, refused], ?_⟩
      simp [Fails, respond, refused, other]
    · exact .inr (.inr (.inl ⟨none, by simp only [step, respond, down]⟩))
    · refine .inl ⟨rfl, by simp only [step, respond, done], ?_⟩
      simp [Fails, respond, done]
    refine .inr (.inr (.inr ⟨record, some_, unblocked, (enrollment_eq_ok enrolled).1, ?_⟩))
    obtain ⟨e, failed⟩ | done := outcome
    · exact .inl (by simp only [step, respond, failed])
    · exact .inr (by simp [step, respond, done])
  | restore current =>
  simp only [Fails, step, respond, submits, restore]
  by_cases same : a.record.anchor = current
  case neg => exact .inl ⟨trivial, by simp [same], by simp [same]⟩
  case pos =>
    refine .inr (.inl ⟨trivial, rfl, ?_, ?_⟩)
    · simp [same]
    · simp [same]

end

end

theorem blocked_of_fails (fails : Fails a call) : (a.step call).blocked = true := by
  -- a call that succeeded has not failed
  have notOk : ¬(a.respond call).1.isOk = true := by
    obtain ⟨e, failed⟩ | ⟨principal, query, store, -, failed⟩ := fails <;>
      simp [failed]
  obtain ⟨-, -, fine⟩ | ⟨-, -, -, ok⟩ | ⟨-, blocked⟩ | ⟨record, -, -, -, blocked | ⟨-, ok⟩⟩ :=
    respond_cases a call
  · exact absurd fails fine
  · exact absurd ok notOk
  · rw [blocked]
  · rw [blocked]
  · exact absurd ok notOk

theorem respond_of_blocked (blocked : a.blocked = true) (other : call.isRestore = false) :
    a.respond call = (.error (.state .blocked), a) ∧ a.submits call = none := by
  have refused := check_of_blocked blocked
  cases call with
  | approve expected policy store =>
    simp [respond, submits, approve, approval, refused, Except.toOption]
  | revoke expected store =>
    simp [respond, submits, revoke, revocation, refused, Except.toOption]
  | resolve principal query store =>
    refine ⟨by simp [respond, resolve, refused], ?_⟩
    cases query <;> simp [submits, blocked]
  | restore current => simp [AuthorityCall.isRestore] at other

/-- Blocked is blocked until a restore succeeds. -/
theorem blocked_run (blocked : a.blocked = true) {calls : List (AuthorityCall prim ε)}
    (meets : Meets step (fun a call => ¬(call.isRestore = true ∧ (a.respond call).1.isOk = true)) a calls) :
    (run step a calls).blocked = true := by
  refine invariant_of_meets (P := (·.blocked = true)) ?_ blocked meets
  intro a call blocked unrestored
  obtain ⟨-, same, -⟩ | ⟨-, restoring, -, ok⟩ | ⟨-, same⟩ | ⟨record, -, unblocked, -⟩ :=
    respond_cases a call
  · rw [same]
    exact blocked
  · exact absurd ⟨restoring, ok⟩ unrestored
  · rw [same]
  · simp [blocked] at unblocked

/-! ### What a call passes to the store -/

section

variable (a : EnrollmentAuthority prim) (call : AuthorityCall prim ε) (store : EnrollmentStore prim ε)

/-- A call that submits nothing does without the store's commit, and one that submits a record is
answered as the store decides on it. -/
theorem respond_on : (a.submits (call.on store) = none ∧ ∀ store', store'.current = store.current →
      a.respond (call.on store') = a.respond (call.on store)) ∨
    ∃ record answer, a.submits (call.on store) = some record ∧
      ∀ store', store'.current = store.current →
        a.respond (call.on store') =
          ((a.commit record store').1.map answer, (a.commit record store').2) := by
  cases call with
  | approve expected policy _ =>
    simp only [AuthorityCall.on, respond, submits, approve]
    cases a.approval expected policy with
    | error => exact .inl ⟨rfl, fun _ _ => rfl⟩
    | ok record => exact .inr ⟨record, .anchor, rfl, fun _ _ => rfl⟩
  | revoke expected _ =>
    simp only [AuthorityCall.on, respond, submits, revoke]
    cases a.revocation expected with
    | error => exact .inl ⟨rfl, fun _ _ => rfl⟩
    | ok record => exact .inr ⟨record, .anchor, rfl, fun _ _ => rfl⟩
  | restore => exact .inl ⟨rfl, fun _ _ => rfl⟩
  | resolve principal query _ =>
  cases query with
  | refresh expected c =>
    refine .inl ⟨rfl, fun store' current => ?_⟩
    simp only [AuthorityCall.on, respond, resolve, current]
    rfl
  | enroll expected policy =>
  simp only [AuthorityCall.on, respond, submits, resolve]
  split
  next asked =>
    obtain ⟨unblocked, device, named⟩ := asked
    have reads : store.current = .ok a.record.anchor := by
      cases known : store.current <;> simp_all [Except.toOption]
    have unchanged : ({ a with blocked := false } : EnrollmentAuthority prim) = a := by
      rw [← unblocked]
    simp only [check_of_unblocked unblocked, device, unchanged, answer]
    cases a.enrollment expected policy with
    | error => exact .inl ⟨rfl, fun store' current => by simp [current, reads]⟩
    | ok pair =>
    refine .inr ⟨pair.2, fun _ => .snapshot pair.1, rfl, fun store' current => ?_⟩
    obtain ⟨e, failed⟩ | done := commit_cases a pair.2 store'
    · simp [current, reads, failed, Except.map]
    · simp [current, reads, done, Except.map]
  next refused =>
  refine .inl ⟨rfl, fun store' current => ?_⟩
  simp only [current]
  split
  · rfl
  next passed =>
  have unblocked := (check_eq_ok passed).1
  split
  · rfl
  next device =>
  cases reads : store.current with
  | error => rfl
  | ok anchor =>
  have other : anchor ≠ a.record.anchor := by
    rintro rfl
    exact refused ⟨unblocked, not_not.mp device, by rw [reads]; rfl⟩
  simp only [if_pos other]

/-- What is passed is the record that is submitted, to follow the committed one. -/
theorem passes_iff {e : Option EnrollmentAnchor} {r : EnrollmentRecord prim}
    {n : EnrollmentAnchor} : Passes a call e r n ↔ Nonempty ε ∧
      a.submits call = some r ∧ e = some a.record.anchor ∧ n = r.anchor := by
  constructor
  · rintro ⟨store, store', own, current, others, differ⟩
    obtain ⟨-, same⟩ | ⟨record, answer, submitted, answers⟩ := respond_on a call store
    · exact absurd ((same store' current).trans (congrArg _ own.symm)) differ
    have changed : store'.commit (some a.record.anchor) record record.anchor ≠
        store.commit (some a.record.anchor) record record.anchor := by
      intro same
      apply differ
      have before := answers store rfl
      rw [← own] at before
      rw [before, answers store' current]
      simp only [commit, same]
    have given : (some a.record.anchor, record, record.anchor) = (e, r, n) := by
      by_contra other
      exact changed (others _ _ _ other)
    cases given
    refine ⟨?_, own ▸ submitted, rfl, rfl⟩
    -- two answers that differ are not both a success
    revert changed
    cases store'.commit (some a.record.anchor) r r.anchor with
    | error e => exact fun _ => ⟨e⟩
    | ok u =>
      cases store.commit (some a.record.anchor) r r.anchor with
      | error e => exact fun _ => ⟨e⟩
      | ok v => exact fun changed => absurd rfl changed
  · classical
    rintro ⟨⟨failure⟩, submitted, rfl, rfl⟩
    obtain ⟨store, own⟩ : ∃ store, call = call.on store := by
      cases call with
      | approve expected policy store => exact ⟨store, rfl⟩
      | revoke expected store => exact ⟨store, rfl⟩
      | resolve principal query store => exact ⟨store, rfl⟩
      | restore => cases submitted
    let flipped : EnrollmentStore prim ε :=
      { store with commit := fun e x n =>
          if (e, x, n) = (some a.record.anchor, r, r.anchor) then
            match store.commit e x n with
            | .ok () => .error failure
            | .error _ => .ok ()
          else store.commit e x n }
    refine ⟨store, flipped, own, rfl, fun e x n other => if_neg other, fun same => ?_⟩
    rw [own] at submitted
    obtain ⟨none, -⟩ | ⟨record, answer, submits, answers⟩ := respond_on a call store
    · cases submitted.symm.trans none
    cases submitted.symm.trans submits
    have before := answers store rfl
    rw [← own] at before
    rw [answers flipped rfl, before] at same
    have ok := congrArg (fun r : Except _ _ × _ => r.1.isOk) same
    simp only [commit, flipped, if_true] at ok
    cases decided : store.commit (some a.record.anchor) r r.anchor <;>
      simp [decided, Except.map, Except.isOk, Except.toBool] at ok

end

/-! ### Along a run -/

/-- What an authority and a later one have in common. -/
structure Evolves (a b : EnrollmentAuthority prim) : Prop where
  device : b.record.parts.device = a.record.parts.device
  genesis : b.record.parts.genesis = a.record.parts.genesis
  generation_le : a.record.generation ≤ b.record.generation
  same : a.record.generation = b.record.generation → b.record.parts.snapshot = a.record.parts.snapshot
  owner : ∀ policy, a.record.parts.policy = some policy →
    ∃ kept, b.record.parts.policy = some kept ∧ kept.owner = policy.owner

theorem Evolves.of_record (same : b.record = a.record) : Evolves a b :=
  ⟨by rw [same], by rw [same], by rw [same], fun _ => by rw [same],
    fun policy known => ⟨policy, by rw [same]; exact known, rfl⟩⟩

theorem Evolves.of_follows (follows : Follows a.record b.record) : Evolves a b := by
  refine ⟨follows.device, follows.genesis, ?_, ?_, follows.owner⟩
  · obtain ⟨before, after⟩ | ⟨snapshot, after, next⟩ := follows.snapshot
    · simp [generation, before]
    · simp only [generation, after, elim_some, next]
      omega
  intro still
  obtain ⟨before, after⟩ | ⟨snapshot, after, next⟩ := follows.snapshot
  · rw [before, after]
  have grown : b.record.generation = a.record.generation + 1 := by
    simp only [generation, after, elim_some, next]
  omega

section

variable (a : EnrollmentAuthority prim)

theorem Evolves.refl : Evolves a a := .of_record rfl

theorem Evolves.trans (a b c : EnrollmentAuthority prim) (first : Evolves a b)
    (second : Evolves b c) : Evolves a c := by
  refine ⟨second.device.trans first.device, second.genesis.trans first.genesis,
    first.generation_le.trans second.generation_le, ?_, ?_⟩
  · intro still
    have left := first.generation_le
    have right := second.generation_le
    exact (second.same (by omega)).trans (first.same (by omega))
  intro policy known
  obtain ⟨kept, present, owner⟩ := first.owner policy known
  obtain ⟨last, there, owner'⟩ := second.owner kept present
  exact ⟨last, there, owner'.trans owner⟩

theorem evolves_step (call : AuthorityCall prim ε) : Evolves a (a.step call) := by
  obtain ⟨-, same, -⟩ | ⟨-, -, same, -⟩ | ⟨-, same⟩ | ⟨record, -, -, follows, same | ⟨same, -⟩⟩ :=
    respond_cases a call
  · exact .of_record (by rw [same])
  · exact .of_record (by rw [same])
  · exact .of_record (by rw [same])
  · exact .of_record (by rw [same])
  · exact .of_follows (by rw [same]; exact follows)

theorem evolves_trace (calls : List (AuthorityCall prim ε)) :
    (trace step a calls).Pairwise fun e f => Evolves (e.1.step e.2) f.1 :=
  pairwise_trace Evolves.refl Evolves.trans evolves_step a calls

end

/-! ### Submissions -/

/-- A submitted record is valid and the next revision of the committed one. -/
theorem submits_sound (submitted : a.submits call = some record) : Follows a.record record := by
  obtain ⟨none, -⟩ | ⟨none, -⟩ | ⟨none, -⟩ | ⟨other, some_, -, follows, -⟩ := respond_cases a call
  · simp [none] at submitted
  · simp [none] at submitted
  · simp [none] at submitted
  rw [submitted, some.injEq] at some_
  rw [some_]
  exact follows

/-- The generation of a submitted snapshot is one above that of the committed record. -/
theorem submits_generation (submitted : (a.submits call).bind (·.parts.snapshot) = some snapshot) :
    snapshot.record.generation = a.record.generation + 1 := by
  rw [bind_eq_some_iff] at submitted
  obtain ⟨record, passed, present⟩ := submitted
  obtain ⟨-, absent⟩ | ⟨other, there, next⟩ := (submits_sound passed).snapshot
  · simp [absent] at present
  · rw [present, some.injEq] at there
    rw [there, next]

theorem enroll_isOk (enrolls : call.isEnroll = true) (ok : (a.respond call).1.isOk = true) :
    a.record.parts.snapshot = none ∧ (a.step call).record.parts.snapshot.isSome = true := by
  match call, enrolls with
  | .resolve principal (.enroll expected policy) store, _ =>
    obtain ⟨e, refused, -⟩ | ⟨e, down, -⟩ | ⟨x, c, s, wrong, -⟩ |
        ⟨x, p, snapshot, record, -, -, -, enrolled, -, outcome⟩ :=
      resolve_cases a principal (.enroll expected policy) store
    · simp [respond, refused] at ok
    · simp [respond, down] at ok
    · cases wrong
    obtain ⟨-, fresh, present, -⟩ := enrollment_eq_ok enrolled
    obtain ⟨e, failed⟩ | done := outcome
    · simp [respond, failed] at ok
    · exact ⟨fresh, by simp [step, respond, done, present]⟩

/-- An authority with a snapshot keeps one. -/
theorem Evolves.snapshot_isSome (evolves : Evolves a b)
    (present : a.record.parts.snapshot.isSome = true) : b.record.parts.snapshot.isSome = true := by
  obtain ⟨snapshot, taken⟩ := isSome_iff_exists.mp present
  by_contra absent
  rw [not_isSome_iff_eq_none] at absent
  have grown := evolves.generation_le
  have positive := snapshot.record.generation_pos
  simp only [generation, taken, absent, elim_some, elim_none] at grown
  omega

/-- At most one enrollment succeeds. -/
theorem enrolled_le_one (a : EnrollmentAuthority prim) (calls : List (AuthorityCall prim ε)) :
    ((trace step a calls).filter fun e => e.2.isEnroll && (e.1.respond e.2).1.isOk).length ≤ 1 := by
  refine length_filter_le_one ((evolves_trace a calls).imp ?_)
  intro e f evolves first second
  rw [Bool.and_eq_true] at first second
  -- the first one leaves a snapshot, the second one would have found none
  have taken := evolves.snapshot_isSome (enroll_isOk first.1 first.2).2
  rw [(enroll_isOk second.1 second.2).1] at taken
  cases taken

/-- **The line of records.** What is passed to a store that can fail is the record that is
submitted, with the anchor of the committed one and its own. Every record that is submitted is
valid, is the next revision of the committed one and carries a snapshot, if any, of a lower
generation that is enabled exactly with the approval; the generations of submitted snapshots never
fall. The first owner stays, at most one enrollment succeeds, and once the store has failed, or has
named another current record, every call but a restore is refused. A call with a stale anchor is
refused alone and changes nothing. -/
theorem submissions_in_line (a : EnrollmentAuthority prim) (calls : List (AuthorityCall prim ε)) :
    let entries := trace step a calls
    (∀ e ∈ entries, ∀ expected record anchor, Passes e.1 e.2 expected record anchor ↔
      Nonempty ε ∧ e.1.submits e.2 = some record ∧ expected = some e.1.record.anchor ∧
        anchor = record.anchor) ∧
    (∀ e ∈ entries, ∀ record, e.1.submits e.2 = some record →
      EnrollmentRecord.fromParts record.parts = .ok record ∧
      record.parts.revision = e.1.record.parts.revision + 1 ∧
      ∀ snapshot, record.parts.snapshot = some snapshot →
        snapshot.record.generation + 2 ≤ record.parts.revision ∧
          snapshot.record.enabled = record.parts.approved) ∧
    (entries.Pairwise fun e f => ∀ x y,
      (e.1.submits e.2).bind (·.parts.snapshot) = some x →
      (f.1.submits f.2).bind (·.parts.snapshot) = some y →
        x.record.generation ≤ y.record.generation) ∧
    (entries.Pairwise fun e f => ∀ policy, (e.1.step e.2).record.parts.policy = some policy →
      ∃ kept, f.1.record.parts.policy = some kept ∧ kept.owner = policy.owner) ∧
    (entries.filter fun e => e.2.isEnroll && (e.1.respond e.2).1.isOk).length ≤ 1 ∧
    (∀ e ∈ entries, Fails e.1 e.2 → ∀ later : List (AuthorityCall prim ε),
      Meets step (fun a call => ¬(call.isRestore = true ∧ (a.respond call).1.isOk = true))
        (e.1.step e.2) later →
      ∀ call : AuthorityCall prim ε, call.isRestore = false →
        ((run step (e.1.step e.2) later).respond call).1 = .error (.state .blocked) ∧
          (run step (e.1.step e.2) later).submits call = none ∧
          ∀ expected record anchor,
            ¬Passes (run step (e.1.step e.2) later) call expected record anchor) ∧
    ∀ e ∈ entries, ∀ expected, expected ≠ e.1.record.anchor → e.1.blocked = false →
      (∀ policy store, e.1.approve expected policy store =
        ((.error (.state .anchor) : Except (ApprovalCommitError ε) _), e.1)) ∧
      ∀ store, e.1.revoke expected store =
        ((.error (.state .anchor) : Except (ApprovalCommitError ε) _), e.1) := by
  intro entries
  refine ⟨fun e _ expected record anchor => passes_iff e.1 e.2, ?_, ?_, ?_, enrolled_le_one a calls,
    ?_, ?_⟩
  · intro e _ record submitted
    refine ⟨record.fromParts_parts, (submits_sound submitted).revision, ?_⟩
    intro snapshot present
    obtain ⟨policy, -, fits⟩ := record.sound.snapshot snapshot present
    exact ⟨fits.generation, fits.enabled⟩
  · refine (evolves_trace a calls).imp ?_
    intro e f evolves x y first second
    rw [submits_generation first, submits_generation second]
    exact Nat.succ_le_succ ((evolves_step e.1 e.2).trans _ _ _ evolves).generation_le
  · exact (evolves_trace a calls).imp fun evolves => evolves.owner
  · intro e _ fails later meets call other
    have blocked := blocked_run (blocked_of_fails fails) meets
    obtain ⟨refused, none⟩ := respond_of_blocked blocked other
    refine ⟨by rw [refused], none, fun expected record anchor passes => ?_⟩
    cases none.symm.trans ((passes_iff _ call).mp passes).2.1
  intro e _ expected stale unblocked
  have refused : e.1.check expected = .error .anchor := by simp [check, unblocked, stale]
  exact ⟨fun policy store => by simp [approve, approval, refused],
    fun store => by simp [revoke, revocation, refused]⟩

def willing : EnrollmentStore Primitives.sample Unit := ⟨.error (), fun _ _ _ => .ok ()⟩

/-- An approval under an anchor that is not the record's is refused, and the same approval under
the record's anchor is taken right after it, without a restore. -/
theorem approval_after_anchor_mismatch : let policy : EnrollmentPolicy Primitives.sample :=
      ⟨.sample 2, .fill 32 8, .fill 32 9, by decide⟩
    let stale : EnrollmentAnchor :=
      ⟨⟨.fill 32 7, 2, zeros 32, by decide, by decide,
        fun zero => absurd zero (by decide)⟩, by decide⟩
    ∃ registered, register (.sample 1) .sample willing = .ok registered ∧
      (registered.respond (.approve stale policy willing)).1 = .error (.state .anchor) ∧
      ((registered.step (.approve stale policy willing)).respond
        (.approve registered.record.anchor policy willing)).1.isOk = true := by
  refine ⟨_, rfl, rfl, ?_⟩
  decide

/-! ### Answers -/

/-- What is returned stands in the record, and the device accepts it. -/
theorem returns_eq_some (returned : a.returns call = some snapshot) :
    (a.step call).record.parts.snapshot = some snapshot ∧
      ∀ principal query store, call = .resolve principal query store →
        principal = a.record.device ∧ validateSnapshot snapshot query principal = .ok () := by
  cases call with
  | approve expected policy store =>
    cases result : a.approve expected policy store with
    | mk answer b => cases answer <;> simp [returns, respond, result] at returned
  | revoke expected store =>
    cases result : a.revoke expected store with
    | mk answer b => cases answer <;> simp [returns, respond, result] at returned
  | restore current =>
    cases result : restore a.record current <;> simp [returns, respond, result] at returned
  | resolve principal query store =>
  obtain ⟨e, refused, -⟩ | ⟨e, down, -⟩ | ⟨expected, c, found, rfl, device, refreshed, done⟩ |
      ⟨expected, policy, found, record, rfl, device, -, enrolled, -, outcome⟩ :=
    resolve_cases a principal query store
  · simp [returns, respond, refused] at returned
  · simp [returns, respond, down] at returned
  · obtain rfl : found = snapshot := by
      simpa [returns, respond, done] using returned
    obtain ⟨present, stored, fresh, exact_⟩ := refresh_eq_ok refreshed
    obtain ⟨policy, -, fits⟩ := a.record.sound.snapshot found present
    refine ⟨by simp only [step, respond, done]; exact present, ?_⟩
    rintro p q s ⟨⟩
    refine ⟨device, validateSnapshot_eq_ok (fits.device.trans device.symm) stored.symm fresh
      (fun still => (exact_ still).1) ?_⟩
    simp only [validateQuery]
    rw [if_neg]
    rintro ⟨still, other⟩
    exact other (exact_ still.symm).2.symm
  · obtain ⟨e, failed⟩ | done := outcome
    · simp [returns, respond, failed] at returned
    obtain rfl : found = snapshot := by
      simpa [returns, respond, done] using returned
    obtain ⟨follows, none, present, granted, asked, approved, installed, peer, owner, permissions⟩ :=
      enrollment_eq_ok enrolled
    obtain ⟨policy', there, fits⟩ := record.sound.snapshot found present
    obtain rfl : approved = policy' := by simpa [installed] using there
    have unborn : expected.generation = 0 := by
      rw [asked]
      exact a.record.sound.genesis
    have first : found.record.generation = 1 := by
      obtain ⟨-, absent⟩ | ⟨other, same, next⟩ := follows.snapshot
      · simp [absent] at present
      obtain rfl : found = other := by simpa [present] using same
      rw [next, generation, none]
      rfl
    refine ⟨by simp only [step, respond, done]; exact present, ?_⟩
    rintro p q s ⟨⟩
    refine ⟨device, validateSnapshot_eq_ok ?_ ?_ ?_ ?_ ?_⟩
    · rw [fits.device, follows.device, device]
      rfl
    · rw [fits.store, follows.genesis, ← asked]
      rfl
    · simp only [PolicyQuery.expected, unborn]
      omega
    · intro still
      simp only [PolicyQuery.expected, unborn, first] at still
      omega
    simp only [validateQuery]
    rw [if_neg]
    rintro (wrong | wrong | wrong | wrong | wrong | wrong)
    · exact wrong unborn
    · exact wrong first
    · rw [fits.enabled, granted] at wrong
      cases wrong
    · exact wrong (fits.peer.trans peer.symm)
    · exact wrong (fits.owner.trans owner.symm)
    · exact wrong (fits.resourcePolicy.trans permissions.symm)

/-- A device that refreshes with a snapshot of an earlier authority gets the present one, and
accepts it. -/
theorem refresh_of_evolves (evolves : Evolves a b) {x : PolicySnapshot prim}
    (had : a.record.parts.snapshot = some x) :
    ∃ y, b.record.parts.snapshot = some y ∧ x.record.generation ≤ y.record.generation ∧
      (x.record.generation = y.record.generation → x = y) ∧
      b.refresh x.record.anchor x.commitment = .ok y ∧
      validateSnapshot y (.refreshOf x) b.record.device = .ok () := by
  obtain ⟨y, has⟩ := isSome_iff_exists.mp (evolves.snapshot_isSome (by rw [had]; rfl))
  have grown := evolves.generation_le
  have same := evolves.same
  simp only [generation, had, has, elim_some, some.injEq] at grown same
  obtain ⟨p, -, before⟩ := a.record.sound.snapshot x had
  obtain ⟨q, -, after⟩ := b.record.sound.snapshot y has
  have store : x.record.storeId = y.record.storeId := by
    rw [before.store, after.store, evolves.genesis]
  have exact_ : x.record.generation = y.record.generation → x = y := fun still => (same still).symm
  refine ⟨y, has, grown, exact_, ?_, ?_⟩
  · simp only [refresh, has]
    rw [if_neg]
    rintro (wrong | wrong | ⟨zero, -⟩ | ⟨still, wrong⟩)
    · exact wrong store
    · exact absurd wrong (Nat.not_lt.mpr grown)
    · exact absurd zero (Nat.ne_of_gt x.record.generation_pos)
    · obtain rfl := exact_ still
      exact wrong.elim (fun other => other rfl) (fun other => other rfl)
  refine validateSnapshot_eq_ok after.device store.symm grown (fun still => ?_) ?_
  · obtain rfl := exact_ still
    rfl
  simp only [PolicyQuery.refreshOf, validateQuery]
  rw [if_neg]
  rintro ⟨still, other⟩
  obtain rfl := exact_ still.symm
  exact other rfl

/-- **Authority and device agree.** What the authority returns passes the device's check of it.
Later answers are of the same generation with the same commitment, or of a later one; and a device
that asks with the anchor and commitment of any earlier answer is not told by the authority that
they are wrong, nor finds the answer to be older. -/
theorem returned_snapshot_accepted (a : EnrollmentAuthority prim)
    (calls : List (AuthorityCall prim ε)) : let entries := trace step a calls
    (∀ e ∈ entries, ∀ principal query store snapshot, e.2 = .resolve principal query store →
      e.1.returns e.2 = some snapshot → validateSnapshot snapshot query principal = .ok ()) ∧
    (entries.Pairwise fun e f => ∀ x y, e.1.returns e.2 = some x → f.1.returns f.2 = some y →
      x.record.generation ≤ y.record.generation ∧
        (x.record.generation = y.record.generation → x.commitment = y.commitment)) ∧
    entries.Pairwise fun e f => ∀ x, e.1.returns e.2 = some x →
      (∀ store : EnrollmentStore prim ε,
        (f.1.resolve f.1.record.device (.refreshOf x) store).1 ≠ .error (.state .policy)) ∧
      ∀ y, f.1.returns f.2 = some y →
        validateSnapshot y (.refreshOf x) f.1.record.device = .ok () := by
  intro entries
  refine ⟨?_, ?_, ?_⟩
  · intro e _ principal query store snapshot called returned
    exact ((returns_eq_some returned).2 principal query store called).2
  · refine (evolves_trace a calls).imp ?_
    intro e f evolves x y first second
    obtain ⟨y', has, grown, exact_, -⟩ :=
      refresh_of_evolves (evolves.trans _ _ _ (evolves_step f.1 f.2)) (returns_eq_some first).1
    obtain rfl : y' = y := by simpa [has] using (returns_eq_some second).1
    exact ⟨grown, fun still => by rw [exact_ still]⟩
  refine (evolves_trace a calls).imp ?_
  intro e f evolves x first
  constructor
  · intro store
    obtain ⟨y, -, -, -, refreshed, -⟩ := refresh_of_evolves evolves (returns_eq_some first).1
    simp only [resolve]
    split
    next e refused =>
      -- the authority checks its own anchor: it can only be blocked
      cases blocked : f.1.blocked with
      | true =>
        rw [check_of_blocked blocked] at refused
        cases refused
        simp
      | false => simp [check_of_unblocked blocked] at refused
    · rw [if_neg (by simp)]
      split
      · simp
      next =>
      split
      · simp
      next =>
      have same : ({ f.1 with blocked := false } : EnrollmentAuthority prim).refresh
          x.record.anchor x.commitment = .ok y := refreshed
      simp [answer, PolicyQuery.refreshOf, same]
  · intro y second
    obtain ⟨y', has, -, -, -, accepted⟩ :=
      refresh_of_evolves (evolves.trans _ _ _ (evolves_step f.1 f.2)) (returns_eq_some first).1
    obtain rfl : y' = y := by simpa [has] using (returns_eq_some second).1
    rw [EnrollmentRecord.device, (evolves_step f.1 f.2).device] at accepted
    exact accepted

end EnrollmentAuthority
end Coaptic.Provisioning
