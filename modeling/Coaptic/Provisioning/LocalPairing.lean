import Coaptic.Provisioning.PairingRecord
import Coaptic.Lib.Trace

/-!
# Local pairing

A device under the custody of its operator keeps one pairing record. Each change answers a
challenge that the device has issued, which the answer uses up, and is committed by the caller.
The owner can give the device away and name who may recover it; nobody else becomes its owner.
-/
namespace Coaptic.Provisioning

open Option List PairingRecord

open Receipts (Fixed)
open Run Result

variable {prim : Primitives} {ε : Type}

inductive PairingCommitError (ε : Type)
  | state (error : PairingError)
  | store (error : ε)
deriving DecidableEq

variable (prim) in
/-- The question that a change answers: the record it is about, and a nonce. -/
structure PairingChallenge where
  device : PinnedPeer prim
  store : Fixed 32
  revision : Nat
  digest : Fixed 32
  nonce : Fixed 32

/-- Nonce, time of issue and deadline of the open challenge. -/
structure PendingChallenge where
  nonce : Fixed 32
  issuedMs : Nat
  deadlineMs : Nat
deriving DecidableEq

def challengeLifetimeMs : Nat := 60000

variable (prim) in
structure LocalPairing where
  record : PairingRecord prim
  pending : Option PendingChallenge
  blocked : Bool

abbrev PairingPersist (prim : Primitives) (ε : Type) : Type :=
  PairingRecord prim → PairingRecord prim → Except ε Unit

/-! ### The changes of a record -/

variable (prim) in
/-- The changes that an operator can ask for. -/
inductive PairingChange
  | pair (policy : EnrollmentPolicy prim)
  | revoke (owner : Fixed 32)
  | transfer (currentOwner : Fixed 32) (policy : EnrollmentPolicy prim)
  | setRecovery (policy : EnrollmentPolicy prim) (recoveryOwner : Option (Fixed 32))
  | recover (recoveryOwner : Fixed 32) (policy : EnrollmentPolicy prim)

namespace PairingRecord

def samePolicy (a b : EnrollmentPolicy prim) : Bool :=
  a.peer.principal = b.peer.principal && a.owner = b.owner && a.resourcePolicy = b.resourcePolicy

/-- The record after a change, but for its revision. -/
def change (record : PairingRecord prim) (challenge : PairingChallenge prim) :
    PairingChange prim → Except PairingError (PairingRecord prim)
  | .pair policy =>
    if challenge.device.publicX = policy.peer.publicX then .error .binding
    else if record.policy.any fun old => old.owner ≠ policy.owner then .error .owner
    else .ok { record with policy := some policy, enabled := true }
  | .revoke owner =>
    if record.policy.all fun old => old.owner ≠ owner then .error .owner
    else .ok { record with enabled := false }
  | .transfer currentOwner policy =>
    if (record.policy.all fun old => old.owner ≠ currentOwner) = true ∨
        policy.owner = currentOwner then .error .owner
    else if challenge.device.publicX = policy.peer.publicX then .error .binding
    else .ok { record with policy := some policy, enabled := true, recoveryOwner := none }
  | .setRecovery policy recoveryOwner =>
    if (record.policy.all fun old => !samePolicy old policy) = true ∨
        (recoveryOwner.any fun owner => owner = zeros 32 || owner = policy.owner) = true then
      .error .owner
    else .ok { record with recoveryOwner := recoveryOwner }
  | .recover recoveryOwner policy =>
    if record.recoveryOwner ≠ some recoveryOwner ∨ recoveryOwner = policy.owner ∨
        (record.policy.all fun old => old.owner = policy.owner) = true then .error .owner
    else if challenge.device.publicX = policy.peer.publicX then .error .binding
    else .ok { record with policy := some policy, enabled := true, recoveryOwner := none }

/-- A disabled record may follow the enabled one that it revokes. -/
def validateReconciliationPrior (record prior : PairingRecord prim) : Except PairingError Unit :=
  match record.policy, prior.policy with
  | some current, some previous =>
    if record.enabled = true ∨ prior.enabled = false ∨ record.revision ≤ prior.revision ∨
        prior.store ≠ record.store ∨ prior.localPrincipal ≠ record.localPrincipal ∨
        samePolicy current previous = false then .error .binding
    else .ok ()
  | _, _ => .error .binding

end PairingRecord

open PairingRecord

/-! ### The device -/

namespace LocalPairing

def restore (identity : Identity prim) (record : PairingRecord prim) :
    Except PairingError (LocalPairing prim) :=
  if record.localPrincipal ≠ identity.peer.principal ∨
      (record.policy.any fun policy => policy.peer.publicX = identity.publicX) = true then
    .error .binding
  else .ok ⟨record, none, false⟩

def peer (p : LocalPairing prim) : Except PairingError (PinnedPeer prim) :=
  if p.blocked = true ∨ p.record.enabled = false then .error .unauthorized
  else
  match p.record.policy with
  | none => .error .unauthorized
  | some policy => .ok policy.peer

section

variable (p : LocalPairing prim)

def permits (principal : Principal) : Bool :=
  match p.peer with
  | .error _ => false
  | .ok peer => peer.principal = principal

/-- The nonce is what the entropy source fills in, if it does. -/
def begin (identity : Identity prim) (nowMs : Nat) (entropy : Option (Fixed 32)) :
    Except PairingError (PairingChallenge prim) × LocalPairing prim :=
  let p := { p with pending := none }
  if p.blocked = true ∨ p.record.localPrincipal ≠ identity.peer.principal then (.error .binding, p)
  else
  match checkedAdd nowMs challengeLifetimeMs with
  | none => (.error .challenge, p)
  | some deadline =>
  match entropy with
  | none => (.error .challenge, p)
  | some nonce =>
  if nonce = zeros 32 then (.error .challenge, p)
  else
  (.ok { device := identity.peer
         store := p.record.store
         revision := p.record.revision
         digest := p.record.commitment
         nonce := nonce },
    { p with pending := some ⟨nonce, nowMs, deadline⟩ })

section

variable (challenge : PairingChallenge prim)

/-- Whether a challenge is the open one, and about the present record. The caller drops the open
challenge whatever the outcome. -/
def check (nowMs : Nat) : Except PairingError Unit :=
  match p.pending with
  | none => .error .challenge
  | some pending =>
  if p.blocked = true ∨ nowMs < pending.issuedMs ∨ pending.deadlineMs ≤ nowMs ∨
      pending.nonce ≠ challenge.nonce then .error .challenge
  else if challenge.store ≠ p.record.store ∨ challenge.revision ≠ p.record.revision ∨
      challenge.digest ≠ p.record.commitment ∨
      challenge.device.principal ≠ p.record.localPrincipal then .error .binding
  else .ok ()

def nextRevision (next : PairingRecord prim) : Except PairingError (PairingRecord prim) :=
  if bound : p.record.revision + 1 ≤ u64Max then
    .ok { next with revision := p.record.revision + 1, revision_le := bound }
  else .error .exhausted

def proposal (change : PairingChange prim) (nowMs : Nat) :
    Except PairingError (PairingRecord prim) := do
  p.check challenge nowMs
  let next ← p.record.change challenge change
  p.nextRevision next

/-- One change: the challenge is used up, and only a successful commit unblocks. -/
def manage (change : PairingChange prim) (nowMs : Nat) (commit : PairingPersist prim ε) :
    Except (PairingCommitError ε) Unit × LocalPairing prim :=
  match p.proposal challenge change nowMs with
  | .error e => (.error (.state e), { p with pending := none })
  | .ok next =>
  match commit p.record next with
  | .error e => (.error (.store e), { p with pending := none, blocked := true })
  | .ok () => (.ok (), { record := next, pending := none, blocked := false })

def pair (policy : EnrollmentPolicy prim) (nowMs : Nat) (commit : PairingPersist prim ε) :
    Except (PairingCommitError ε) Unit × LocalPairing prim :=
  p.manage challenge (.pair policy) nowMs commit

def revoke (owner : Fixed 32) (nowMs : Nat) (commit : PairingPersist prim ε) :
    Except (PairingCommitError ε) Unit × LocalPairing prim :=
  p.manage challenge (.revoke owner) nowMs commit

def transfer (currentOwner : Fixed 32) (policy : EnrollmentPolicy prim) (nowMs : Nat)
    (commit : PairingPersist prim ε) : Except (PairingCommitError ε) Unit × LocalPairing prim :=
  p.manage challenge (.transfer currentOwner policy) nowMs commit

def setRecovery (policy : EnrollmentPolicy prim) (recoveryOwner : Option (Fixed 32)) (nowMs : Nat)
    (commit : PairingPersist prim ε) : Except (PairingCommitError ε) Unit × LocalPairing prim :=
  p.manage challenge (.setRecovery policy recoveryOwner) nowMs commit

def recover (recoveryOwner : Fixed 32) (policy : EnrollmentPolicy prim) (nowMs : Nat)
    (commit : PairingPersist prim ε) : Except (PairingCommitError ε) Unit × LocalPairing prim :=
  p.manage challenge (.recover recoveryOwner policy) nowMs commit

def reconcilable (prior : PairingRecord prim) (nowMs : Nat) : Except PairingError Unit := do
  p.check challenge nowMs
  p.record.validateReconciliationPrior prior

/-- Ask the caller to finish a revocation whose effects are uncertain. The record stays. -/
def reconcile (prior : PairingRecord prim) (nowMs : Nat)
    (callback : PairingRecord prim → Except ε Unit) :
    Except (PairingCommitError ε) Unit × LocalPairing prim :=
  match p.reconcilable challenge prior nowMs with
  | .error e => (.error (.state e), { p with pending := none })
  | .ok () =>
  match callback p.record with
  | .error e => (.error (.store e), { p with pending := none, blocked := true })
  | .ok () => (.ok (), { p with pending := none, blocked := false })

end

end

end LocalPairing

variable (prim) in
/-- A change as an operator's application sends it. -/
structure PairingUpdate where
  challenge : PairingChallenge prim
  policy : EnrollmentPolicy prim
  revoke : Bool
  currentOwner : Option (Fixed 32)
  recoveryAction : UInt8

namespace PairingUpdate

section

variable (u : PairingUpdate prim) (p : LocalPairing prim) (nowMs : Nat) (commit : PairingPersist prim ε)

def apply : Except (PairingCommitError ε) Unit × LocalPairing prim :=
  if u.recoveryAction = 1 then p.setRecovery u.challenge u.policy u.currentOwner nowMs commit
  else if u.recoveryAction = 2 then
    match u.currentOwner with
    | none => (.error (.state .owner), p)
    | some owner => p.recover u.challenge owner u.policy nowMs commit
  else
    match u.currentOwner with
    | some owner => p.transfer u.challenge owner u.policy nowMs commit
    | none =>
    if u.revoke then
      if p.record.policy.all fun old => !samePolicy old u.policy then
        (.error (.state .binding), { p with pending := none })
      else p.revoke u.challenge u.policy.owner nowMs commit
    else p.pair u.challenge u.policy nowMs commit

def change (record : PairingRecord prim) : Option (PairingChange prim) :=
  if u.recoveryAction = 1 then some (.setRecovery u.policy u.currentOwner)
  else if u.recoveryAction = 2 then u.currentOwner.map (.recover · u.policy)
  else
  match u.currentOwner with
  | some owner => some (.transfer owner u.policy)
  | none =>
  if u.revoke then
    if record.policy.all fun old => !samePolicy old u.policy then none
    else some (.revoke u.policy.owner)
  else some (.pair u.policy)

/-- An update is the change that it stands for, or a refusal that keeps the record. -/
theorem apply_cases : (∃ change, u.change p.record = some change ∧
        ∀ commit : PairingPersist prim ε,
          u.apply p nowMs commit = p.manage u.challenge change nowMs commit) ∨
      (u.change p.record = none ∧ ∃ e pending, (pending = none ∨ pending = p.pending) ∧
        ∀ commit : PairingPersist prim ε,
          u.apply p nowMs commit = (.error (.state e), { p with pending := pending })) := by
  simp only [apply, change]
  split
  · exact .inl ⟨_, rfl, fun _ => rfl⟩
  split
  · cases u.currentOwner with
    | none => exact .inr ⟨rfl, .owner, p.pending, .inr rfl, fun _ => rfl⟩
    | some owner => exact .inl ⟨_, rfl, fun _ => rfl⟩
  next =>
  cases u.currentOwner with
  | some owner => exact .inl ⟨_, rfl, fun _ => rfl⟩
  | none =>
  simp only
  split
  · split
    · exact .inr ⟨rfl, .binding, none, .inl rfl, fun _ => rfl⟩
    · exact .inl ⟨_, rfl, fun _ => rfl⟩
  · exact .inl ⟨_, rfl, fun _ => rfl⟩

end

end PairingUpdate

/-! ### Calls -/

variable (prim ε) in
inductive PairingCall
  | begin (identity : Identity prim) (nowMs : Nat) (entropy : Option (Fixed 32))
  | manage (challenge : PairingChallenge prim) (change : PairingChange prim) (nowMs : Nat)
      (commit : PairingPersist prim ε)
  | apply (update : PairingUpdate prim) (nowMs : Nat) (commit : PairingPersist prim ε)
  | reconcile (challenge : PairingChallenge prim) (prior : PairingRecord prim) (nowMs : Nat)
      (callback : PairingRecord prim → Except ε Unit)

namespace PairingCall

def isBegin : PairingCall prim ε → Bool
  | .begin _ _ _ => true
  | _ => false

def change (record : PairingRecord prim) : PairingCall prim ε → Option (PairingChange prim)
  | .begin _ _ _ => none
  | .manage _ change _ _ => some change
  | .apply update _ _ => update.change record
  | .reconcile _ _ _ _ => none

/-- The same call, with other callbacks. -/
def on (commit : PairingPersist prim ε) (callback : PairingRecord prim → Except ε Unit) :
    PairingCall prim ε → PairingCall prim ε
  | .begin identity nowMs entropy => .begin identity nowMs entropy
  | .manage challenge change nowMs _ => .manage challenge change nowMs commit
  | .apply update nowMs _ => .apply update nowMs commit
  | .reconcile challenge prior nowMs _ => .reconcile challenge prior nowMs callback

end PairingCall

namespace LocalPairing

section

variable (p : LocalPairing prim)

def respond : PairingCall prim ε → Except (PairingCommitError ε) Unit × LocalPairing prim
  | .begin identity nowMs entropy =>
    match p.begin identity nowMs entropy with
    | (.error e, p) => (.error (.state e), p)
    | (.ok _, p) => (.ok (), p)
  | .manage challenge change nowMs commit => p.manage challenge change nowMs commit
  | .apply update nowMs commit => update.apply p nowMs commit
  | .reconcile challenge prior nowMs callback => p.reconcile challenge prior nowMs callback

def step (call : PairingCall prim ε) : LocalPairing prim :=
  (p.respond call).2

def submits : PairingCall prim ε → Option (PairingRecord prim)
  | .begin _ _ _ => none
  | .manage challenge change nowMs _ => (p.proposal challenge change nowMs).toOption
  | .apply update nowMs _ =>
    (update.change p.record).bind fun change => (p.proposal update.challenge change nowMs).toOption
  | .reconcile _ _ _ _ => none

def calls : PairingCall prim ε → Bool
  | .reconcile challenge prior nowMs _ => (p.reconcilable challenge prior nowMs).isOk
  | call => (p.submits call).isSome

end

/-! ### What a call does -/

variable {p : LocalPairing prim} {challenge : PairingChallenge prim} {nowMs : Nat}
  {next : PairingRecord prim} {change : PairingChange prim} {call : PairingCall prim ε}
  {calls : List (PairingCall prim ε)}

theorem check_eq_ok (passed : p.check challenge nowMs = .ok ()) :
    p.blocked = false ∧ p.pending.isSome = true := by
  simp only [check] at passed
  split at passed
  · cases passed
  next pending open_ =>
  split at passed
  · cases passed
  next fine =>
  simp only [not_or] at fine
  exact ⟨by simpa using fine.1, by rw [open_]; rfl⟩

/-- A record that may follow another: one revision later, of the same device and store, with the
owner of before unless it was given away or recovered, and a recovery owner who is somebody else. -/
structure Follows (old new : PairingRecord prim) (change : PairingChange prim) : Prop where
  revision : new.revision = old.revision + 1
  store : new.store = old.store
  localPrincipal : new.localPrincipal = old.localPrincipal
  sound : old.Sound → new.Sound
  owner : ∀ policy, old.policy = some policy → ∃ kept, new.policy = some kept ∧
    (kept.owner = policy.owner ∨
      ((∃ heir, change = .transfer policy.owner heir) ∨
        ∃ backup heir, change = .recover backup heir ∧ old.recoveryOwner = some backup) ∧
      new.recoveryOwner = none)
  cleared : ((∃ owner heir, change = .transfer owner heir) ∨
    ∃ backup heir, change = .recover backup heir) →
    new.recoveryOwner = none

theorem sound_of_same_owner {old new : PairingRecord prim} (sound : old.Sound)
    (recovery : new.recoveryOwner = old.recoveryOwner)
    (owner : ∀ policy, old.policy = some policy → ∃ kept, new.policy = some kept ∧
      kept.owner = policy.owner) :
    new.Sound := by
  intro backup present
  rw [recovery] at present
  obtain ⟨nonzero, policy, known, other⟩ := sound backup present
  obtain ⟨kept, there, same⟩ := owner policy known
  exact ⟨nonzero, kept, there, by rw [same]; exact other⟩

theorem change_follows {record : PairingRecord prim}
    (changed : record.change challenge change = .ok next) {bound : record.revision + 1 ≤ u64Max} :
    Follows record { next with revision := record.revision + 1, revision_le := bound } change := by
  revert changed
  fun_cases PairingRecord.change record challenge change with
  | case3 policy _ same =>
    rintro ⟨⟩
    have owner : ∀ old, record.policy = some old → policy.owner = old.owner := by
      intro old known
      simp only [known, any_some, decide_eq_true_eq, ne_eq, not_not] at same
      exact same.symm
    refine ⟨rfl, rfl, rfl, ?_, ?_, by rintro (⟨_, _, ⟨⟩⟩ | ⟨_, _, ⟨⟩⟩)⟩
    · intro sound
      exact sound_of_same_owner sound rfl fun old known => ⟨policy, rfl, owner old known⟩
    · intro old known
      exact ⟨policy, rfl, .inl (owner old known)⟩
  | case5 owner _ =>
    rintro ⟨⟩
    refine ⟨rfl, rfl, rfl, id, ?_, by rintro (⟨_, _, ⟨⟩⟩ | ⟨_, _, ⟨⟩⟩)⟩
    exact fun old known => ⟨old, known, .inl rfl⟩
  | case8 currentOwner policy named _ =>
    rintro ⟨⟩
    refine ⟨rfl, rfl, rfl, fun _ => sound_of_none rfl, ?_, fun _ => rfl⟩
    intro old known
    simp only [known, all_some, decide_eq_true_eq, ne_eq, not_or, not_not] at named
    exact ⟨policy, rfl, .inr ⟨.inl ⟨policy, by rw [named.1]⟩, rfl⟩⟩
  | case10 policy recoveryOwner fine =>
    rintro ⟨⟩
    refine ⟨rfl, rfl, rfl, ?_, fun old known => ⟨old, known, .inl rfl⟩,
      by rintro (⟨_, _, ⟨⟩⟩ | ⟨_, _, ⟨⟩⟩)⟩
    intro _ backup present
    obtain rfl : recoveryOwner = some backup := present
    simp only [not_or, any_some, Bool.or_eq_true, decide_eq_true_eq] at fine
    refine ⟨fine.2.1, ?_⟩
    cases known : record.policy with
    | none => simp [known] at fine
    | some old =>
    -- the policy names the owner in force, who is not the one to recover
    have same : samePolicy old policy = true := by
      simpa [known] using fine.1
    simp only [samePolicy, Bool.and_eq_true, decide_eq_true_eq] at same
    exact ⟨old, rfl, by rw [same.1.2]; exact fun wrong => fine.2.2 wrong.symm⟩
  | case13 recoveryOwner policy named _ =>
    rintro ⟨⟩
    refine ⟨rfl, rfl, rfl, fun _ => sound_of_none rfl, ?_, fun _ => rfl⟩
    intro old known
    simp only [not_or, not_not] at named
    exact ⟨policy, rfl, .inr ⟨.inr ⟨recoveryOwner, policy, rfl, named.1⟩, rfl⟩⟩
  | _ => exact nofun

theorem proposal_eq_ok (proposed : p.proposal challenge change nowMs = .ok next) :
    p.blocked = false ∧ p.pending.isSome = true ∧ Follows p.record next change := by
  simp only [proposal] at proposed
  obtain ⟨u, passed, rest⟩ := bind_eq_ok.mp proposed
  obtain ⟨changed, made, last⟩ := bind_eq_ok.mp rest
  obtain ⟨unblocked, open_⟩ := check_eq_ok passed
  refine ⟨unblocked, open_, ?_⟩
  simp only [nextRevision] at last
  split at last
  next bound =>
    cases last
    exact change_follows made
  · cases last

/-- A call that does not get to its callback keeps the record. -/
structure Kept (p : LocalPairing prim) (call : PairingCall prim ε) : Prop where
  calls : p.calls call = false
  submits : p.submits call = none
  record : (p.step call).record = p.record
  blocked : (p.step call).blocked = p.blocked
  refused : p.blocked = true → ∃ e, (p.respond call).1 = .error (.state e)
  pending : call.isBegin = false → p.pending = none → (p.step call).pending = none
  reached : ∀ e, (p.respond call).1 ≠ .error (.store e)

/-- A call that gets to its callback uses the open challenge up. -/
structure Called (p : LocalPairing prim) (call : PairingCall prim ε) : Prop where
  calls : p.calls call = true
  unblocked : p.blocked = false
  pending : p.pending.isSome = true
  used : (p.step call).pending = none

/-- The callback fails and blocks the device, or the device goes on as `after`. -/
def Ends (p : LocalPairing prim) (call : PairingCall prim ε) (after : LocalPairing prim) : Prop :=
  (∃ e, p.respond call = (.error (.store e), { p with pending := none, blocked := true })) ∨
    p.respond call = (.ok (), after)

/-- A change is submitted. -/
def Submits (p : LocalPairing prim) (call : PairingCall prim ε) : Prop :=
  Called p call ∧ ∃ change next, call.change p.record = some change ∧
    p.submits call = some next ∧ Follows p.record next change ∧ Ends p call ⟨next, none, false⟩

theorem Kept.of_refusal {e : PairingError} {pending : Option PendingChallenge}
    (calls : p.calls call = false) (submits : p.submits call = none)
    (kept : pending = none ∨ pending = p.pending)
    (refused : p.respond call = (.error (.state e), { p with pending := pending })) :
    Kept p call := by
  refine ⟨calls, submits, by rw [step, refused], by rw [step, refused],
    fun _ => ⟨e, by rw [refused]⟩, ?_, by simp [refused]⟩
  intro _ none
  rw [step, refused]
  obtain rfl | rfl := kept
  · rfl
  · exact none

theorem begin_cases {after : LocalPairing prim} {identity : Identity prim}
    {entropy : Option (Fixed 32)} {answer : Except PairingError (PairingChallenge prim)}
    (result : p.begin identity nowMs entropy = (answer, after)) :
    (∃ e, answer = .error e ∧ after = { p with pending := none }) ∨
      ∃ challenge pending, p.blocked = false ∧ answer = .ok challenge ∧
        after = { p with pending := some pending } := by
  simp only [begin] at result
  split at result
  · cases result; exact .inl ⟨_, rfl, rfl⟩
  next known =>
  split at result
  · cases result; exact .inl ⟨_, rfl, rfl⟩
  next =>
  split at result
  · cases result; exact .inl ⟨_, rfl, rfl⟩
  next =>
  split at result
  · cases result; exact .inl ⟨_, rfl, rfl⟩
  · cases result; exact .inr ⟨_, _, by simpa using (not_or.mp known).1, rfl, rfl⟩

section

variable (p : LocalPairing prim)

theorem kept_begin (identity : Identity prim) (nowMs : Nat) (entropy : Option (Fixed 32)) :
    Kept p (.begin identity nowMs entropy : PairingCall prim ε) := by
  cases result : p.begin identity nowMs entropy with
  | mk answer after =>
    obtain ⟨e, rfl, rfl⟩ | ⟨challenge, pending, unblocked, rfl, rfl⟩ := begin_cases result
    · refine .of_refusal (e := e) rfl rfl (.inl rfl) ?_
      simp only [respond, result]
    · exact ⟨rfl, rfl, by simp only [step, respond, result], by simp only [step, respond, result],
        fun blocked => by simp [unblocked] at blocked, nofun, by simp [respond, result]⟩

/-- A callback that is called decides how the call ends. -/
theorem ends_of_callback {done : LocalPairing prim} {result : Except ε Unit}
    (used : done.pending = none)
    (responds : p.respond call = match result with
      | .error e => (.error (.store e), { p with pending := none, blocked := true })
      | .ok () => (.ok (), done)) : Ends p call done ∧ (p.step call).pending = none := by
  rw [step, responds]
  cases result with
  | error e => exact ⟨.inl ⟨e, responds⟩, rfl⟩
  | ok => exact ⟨.inr responds, used⟩

/-- What a call can do: it is refused, or a challenge is issued; it submits a record, which is
committed or not; or it reconciles, which succeeds or not. -/
theorem respond_cases (call : PairingCall prim ε) : Kept p call ∨ Submits p call ∨
      (Called p call ∧ p.submits call = none ∧
        Ends p call { p with pending := none, blocked := false }) := by
  -- a change, whichever call asks for it
  have managed : ∀ challenge change nowMs (commit : PairingPersist prim ε),
      p.respond call = p.manage challenge change nowMs commit →
      call.change p.record = some change →
      p.submits call = (p.proposal challenge change nowMs).toOption →
      p.calls call = (p.submits call).isSome → Kept p call ∨ Submits p call := by
    intro challenge change nowMs commit responds asks submits calls
    rw [manage] at responds
    cases proposed : p.proposal challenge change nowMs with
    | error e =>
      rw [proposed] at submits responds
      exact .inl (.of_refusal (by rw [calls, submits]; rfl) submits (.inl rfl) responds)
    | ok next =>
    rw [proposed] at submits responds
    obtain ⟨unblocked, open_, follows⟩ := proposal_eq_ok proposed
    obtain ⟨outcome, used⟩ : Ends p call ⟨next, none, false⟩ ∧ _ :=
      ends_of_callback p rfl responds
    exact .inr ⟨⟨by rw [calls, submits]; rfl, unblocked, open_, used⟩, change, next, asks, submits,
      follows, outcome⟩
  cases call with
  | begin identity nowMs entropy => exact .inl (kept_begin p identity nowMs entropy)
  | manage challenge change nowMs commit =>
    exact (managed challenge change nowMs commit rfl rfl rfl rfl).imp_right .inl
  | apply update nowMs commit =>
    obtain ⟨change, asks, applied⟩ | ⟨none, e, pending, kept, refused⟩ :=
      update.apply_cases p nowMs
    · exact (managed update.challenge change nowMs commit (applied commit) asks
        (by simp only [submits, asks, bind_some]) rfl).imp_right .inl
    have nothing : p.submits (.apply update nowMs commit) = .none := by
      simp only [submits, none, bind_none]
    exact .inl (.of_refusal (by simp only [calls, nothing, isSome_none]) nothing kept (refused commit))
  | reconcile challenge prior nowMs callback =>
  cases checked : p.reconcilable challenge prior nowMs with
  | error e =>
    have refused : p.reconcile challenge prior nowMs callback =
        (.error (.state e), { p with pending := none }) := by simp only [reconcile, checked]
    have silent : p.calls (.reconcile challenge prior nowMs callback) = false := by
      simp only [calls, checked]
      rfl
    exact .inl (.of_refusal silent rfl (.inl rfl) refused)
  | ok _ =>
  obtain ⟨_, passed, -⟩ := bind_eq_ok.mp checked
  obtain ⟨unblocked, open_⟩ := check_eq_ok passed
  have reached : p.calls (.reconcile challenge prior nowMs callback) = true := by
    simp only [calls, checked]
    rfl
  obtain ⟨outcome, used⟩ : Ends p (.reconcile challenge prior nowMs callback)
      { p with pending := none, blocked := false } ∧ _ :=
    ends_of_callback p rfl (by rw [respond, reconcile, checked])
  exact .inr (.inr ⟨⟨reached, unblocked, open_, used⟩, rfl, outcome⟩)

/-- A call that reaches no callback is answered without regard to it. -/
theorem respond_of_silent (silent : p.calls call = false) (commit : PairingPersist prim ε)
    (callback : PairingRecord prim → Except ε Unit) :
    p.respond (call.on commit callback) = p.respond call := by
  have managed : ∀ {challenge change nowMs}, (p.proposal challenge change nowMs).toOption = none →
      ∀ other, p.manage challenge change nowMs commit = p.manage challenge change nowMs other := by
    intro challenge change nowMs refused other
    simp only [manage]
    cases proposed : p.proposal challenge change nowMs with
    | error e => rfl
    | ok next => simp [proposed, Except.toOption] at refused
  cases call with
  | begin => rfl
  | manage challenge change nowMs other => exact managed (by simpa [calls, submits] using silent) other
  | apply update nowMs other =>
    obtain ⟨change, asks, applied⟩ | ⟨-, e, pending, -, refused⟩ := update.apply_cases p nowMs
    · exact (applied commit).trans
        ((managed (by simpa [calls, submits, asks] using silent) other).trans (applied other).symm)
    · exact (refused commit).trans (refused other).symm
  | reconcile challenge prior nowMs other =>
    simp only [PairingCall.on, respond, reconcile]
    cases checked : p.reconcilable challenge prior nowMs with
    | error e => rfl
    | ok _ => simp [calls, checked, Except.isOk, Except.toBool] at silent

/-! ### One call -/

/-- A committed record is the submitted one; every other call keeps the record. -/
theorem step_record (call : PairingCall prim ε) :
    ((p.submits call).isSome = true ∧ (p.respond call).1 = .ok () ∧
        ∃ change, call.change p.record = some change ∧
          Follows p.record (p.step call).record change) ∨
      (¬((p.submits call).isSome = true ∧ (p.respond call).1 = .ok ()) ∧
        (p.step call).record = p.record) := by
  obtain kept | ⟨-, change, next, asks, submitted, follows, ⟨e, failed⟩ | done⟩ |
      ⟨-, none, outcome⟩ := respond_cases p call
  · exact .inr ⟨by simp [kept.submits], kept.record⟩
  · exact .inr ⟨by simp [failed], by rw [step, failed]⟩
  · refine .inl ⟨by simp [submitted], by rw [done], change, asks, ?_⟩
    rw [step, done]
    exact follows
  refine .inr ⟨by simp [none], ?_⟩
  obtain ⟨e, failed⟩ | done := outcome
  · rw [step, failed]
  · rw [step, done]

end

theorem sound_step (sound : p.record.Sound) (call : PairingCall prim ε) :
    (p.step call).record.Sound := by
  obtain ⟨-, -, change, -, follows⟩ | ⟨-, same⟩ := step_record p call
  · exact follows.sound sound
  · rw [same]
    exact sound

/-- A blocked device refuses every call, and stays blocked. -/
theorem respond_of_blocked (blocked : p.blocked = true) (call : PairingCall prim ε) :
    (∃ e, (p.respond call).1 = .error (.state e)) ∧ (p.step call).blocked = true := by
  obtain kept | ⟨called, -⟩ | ⟨called, -⟩ := respond_cases p call
  · exact ⟨kept.refused blocked, by rw [kept.blocked, blocked]⟩
  · simp [called.unblocked] at blocked
  · simp [called.unblocked] at blocked

theorem blocked_of_store {e : ε} (failed : (p.respond call).1 = .error (.store e)) :
    (p.step call).blocked = true := by
  obtain kept | ⟨-, change, next, -, -, -, ⟨e, result⟩ | done⟩ | ⟨-, -, ⟨e, result⟩ | done⟩ :=
    respond_cases p call
  · exact absurd failed (kept.reached e)
  · rw [step, result]
  · simp [done] at failed
  · rw [step, result]
  · simp [done] at failed

/-- Without an open challenge no callback is reached, and none opens before the next `begin`. -/
theorem calls_of_none (closed : p.pending = none) (call : PairingCall prim ε) :
    p.calls call = false := by
  obtain kept | ⟨called, -⟩ | ⟨called, -⟩ := respond_cases p call
  · exact kept.calls
  · simpa [closed] using called.pending
  · simpa [closed] using called.pending

theorem pending_step (other : call.isBegin = false) (closed : p.pending = none) :
    (p.step call).pending = none := by
  obtain kept | ⟨called, -⟩ | ⟨called, -⟩ := respond_cases p call
  · exact kept.pending other closed
  · exact called.used
  · exact called.used

theorem pending_of_calls (reached : p.calls call = true) : (p.step call).pending = none := by
  obtain kept | ⟨called, -⟩ | ⟨called, -⟩ := respond_cases p call
  · simp [kept.calls] at reached
  · exact called.used
  · exact called.used

/-! ### Along a run -/

/-- No callback is reached while no challenge opens. -/
theorem calls_of_closed (closed : p.pending = none)
    (others : ∀ call ∈ calls, call.isBegin = false) :
    ∀ e ∈ trace step p calls, e.1.calls e.2 = false := by
  induction calls generalizing p with
  | nil => simp
  | cons call rest ih =>
  have other := others call (mem_cons_self ..)
  have next := ih (pending_step other closed) fun c mem => others c (mem_cons_of_mem _ mem)
  rw [trace_cons, forall_mem_cons]
  exact ⟨calls_of_none closed call, next⟩

/-- One challenge allows one callback. -/
theorem calls_le_one (p : LocalPairing prim) (others : ∀ call ∈ calls, call.isBegin = false) :
    ((trace step p calls).filter fun e => e.1.calls e.2).length ≤ 1 := by
  induction calls generalizing p with
  | nil => simp
  | cons call rest ih =>
  have rest_others : ∀ c ∈ rest, c.isBegin = false :=
    fun c mem => others c (mem_cons_of_mem _ mem)
  rw [trace_cons, filter_cons]
  split
  next reached =>
    -- the challenge is used up, so nothing is left for the calls that follow
    have silent := calls_of_closed (pending_of_calls reached) rest_others
    have empty : (trace step (p.step call) rest).filter (fun e => e.1.calls e.2) = [] :=
      filter_eq_nil_iff.mpr fun e mem => by simp [silent e mem]
    simp only [empty, length_singleton, le_refl]
  · exact ih (p.step call) rest_others

/-- **The law of ownership.** From a record that was read from storage: only a successful commit
changes the record, and then to the next revision; a challenge allows one callback; the owner
changes only by a transfer that names them or a recovery by the recorded recovery owner, and both
of these clear the recovery owner, who is never zero and never the owner; store and device stay;
and once a callback has failed, nothing is permitted any more. -/
theorem ownership_law {input : List UInt8} {record : PairingRecord prim}
    {identity : Identity prim} {start : LocalPairing prim}
    (decoded : decode input = .ok record)
    (restored : restore identity record = .ok start) (calls : List (PairingCall prim ε)) :
    let entries := trace step start calls
    let reached := run step start calls
    (∀ e ∈ entries,
      ((e.1.submits e.2).isSome = true ∧ (e.1.respond e.2).1 = .ok () →
        (e.1.step e.2).record.revision = e.1.record.revision + 1) ∧
      (¬((e.1.submits e.2).isSome = true ∧ (e.1.respond e.2).1 = .ok ()) →
        (e.1.step e.2).record = e.1.record)) ∧
    ((∀ call ∈ calls, call.isBegin = false) → ∀ e ∈ entries, e.1.calls e.2 = false) ∧
    (∀ later : List (PairingCall prim ε), (∀ call ∈ later, call.isBegin = false) →
      ((trace step reached later).filter fun e => e.1.calls e.2).length ≤ 1) ∧
    (∀ e ∈ entries, ∀ policy, e.1.record.policy = some policy →
      ∃ kept, (e.1.step e.2).record.policy = some kept ∧
        (kept.owner = policy.owner ∨
          (∃ heir, e.2.change e.1.record = some (.transfer policy.owner heir)) ∨
          ∃ backup heir, e.2.change e.1.record = some (.recover backup heir) ∧
            e.1.record.recoveryOwner = some backup)) ∧
    (∀ e ∈ entries, (e.1.submits e.2).isSome = true → (e.1.respond e.2).1 = .ok () →
      ((∃ owner heir, e.2.change e.1.record = some (.transfer owner heir)) ∨
        ∃ backup heir, e.2.change e.1.record = some (.recover backup heir)) →
      (e.1.step e.2).record.recoveryOwner = none) ∧
    (∀ backup, reached.record.recoveryOwner = some backup → backup ≠ zeros 32 ∧
      ∃ policy, reached.record.policy = some policy ∧ policy.owner ≠ backup) ∧
    (reached.record.store = record.store ∧ reached.record.localPrincipal = record.localPrincipal) ∧
    ∀ e ∈ entries, ∀ error, (e.1.respond e.2).1 = .error (.store error) →
      ∀ later : List (PairingCall prim ε),
        let p := run step (e.1.step e.2) later
        p.peer = .error .unauthorized ∧ (∀ principal, p.permits principal = false) ∧
          ∀ call : PairingCall prim ε, ∃ refusal, (p.respond call).1 = .error (.state refusal) := by
  intro entries reached
  obtain ⟨closed, same⟩ : start.pending = none ∧ start.record = record := by
    simp only [restore] at restored
    split at restored
    · cases restored
    · cases restored; exact ⟨rfl, rfl⟩
  refine ⟨?_, ?_, fun later others => calls_le_one reached others, ?_, ?_, ?_, ?_, ?_⟩
  · intro e _
    obtain ⟨some_, ok, change, -, follows⟩ | ⟨other, kept⟩ := step_record e.1 e.2
    · exact ⟨fun _ => follows.revision, fun wrong => absurd ⟨some_, ok⟩ wrong⟩
    · exact ⟨fun wrong => absurd wrong other, fun _ => kept⟩
  · exact fun others => calls_of_closed closed others
  · intro e _ policy known
    obtain ⟨-, -, change, asks, follows⟩ | ⟨-, kept⟩ := step_record e.1 e.2
    · obtain ⟨kept, present, owner | ⟨⟨heir, rfl⟩ | ⟨backup, heir, rfl, named⟩, -⟩⟩ :=
        follows.owner policy known
      · exact ⟨kept, present, .inl owner⟩
      · exact ⟨kept, present, .inr (.inl ⟨heir, asks⟩)⟩
      · exact ⟨kept, present, .inr (.inr ⟨backup, heir, asks, named⟩)⟩
    · exact ⟨policy, by rw [kept]; exact known, .inl rfl⟩
  · intro e _ some_ ok moves
    obtain ⟨-, -, change, asks, follows⟩ | ⟨other, -⟩ := step_record e.1 e.2
    · refine follows.cleared ?_
      rw [asks] at moves
      obtain ⟨owner, heir, moved⟩ | ⟨backup, heir, moved⟩ := moves
      · exact .inl ⟨owner, heir, Option.some.inj moved⟩
      · exact .inr ⟨backup, heir, Option.some.inj moved⟩
    · exact absurd ⟨some_, ok⟩ other
  · have sound : start.record.Sound := by
      rw [same]
      exact sound_of_decode decoded
    exact invariant_run (P := fun p : LocalPairing prim => p.record.Sound)
      (fun _ call sound => sound_step sound call) sound calls
  · refine invariant_run (P := fun p : LocalPairing prim => p.record.store = record.store ∧
      p.record.localPrincipal = record.localPrincipal) ?_ (by rw [same]; exact ⟨rfl, rfl⟩) calls
    rintro p call ⟨store, device⟩
    obtain ⟨-, -, change, -, follows⟩ | ⟨-, kept⟩ := step_record p call
    · exact ⟨follows.store.trans store, follows.localPrincipal.trans device⟩
    · rw [kept]
      exact ⟨store, device⟩
  · intro e _ error failed later p
    have blocked : p.blocked = true := invariant_run
        (P := fun p : LocalPairing prim => p.blocked = true)
      (fun _ call blocked => (respond_of_blocked blocked call).2) (blocked_of_store failed) later
    have denied : p.peer = .error .unauthorized := by
      rw [peer, if_pos (.inl blocked)]
    exact ⟨denied, fun principal => by simp only [permits, denied],
      fun call => (respond_of_blocked blocked call).1⟩

def owned : PairingRecord Primitives.sample where
  store := ⟨List.replicate 32 7, rfl⟩
  revision := 3
  localPrincipal := (PinnedPeer.sample 1).principal
  policy := some
    ⟨.sample 2, .fill 32 8, .fill 32 9, by decide⟩
  enabled := true
  recoveryOwner := some (.fill 32 5)
  revision_le := by decide

theorem storable_owned : owned.Storable where
  store := by decide
  localPrincipal := by decide
  sound := by
    rintro backup ⟨⟩
    exact ⟨by decide, _, rfl, by decide⟩
  unpaired := nofun
  paired := fun _ _ => by decide

/-- Storage can hold such a record, and every run from it keeps its store. -/
theorem ownership_law_owned : ∃ start : LocalPairing Primitives.sample,
      decode owned.encode = .ok owned ∧ restore ⟨.sample 1⟩ owned = .ok start ∧
        ∀ calls : List (PairingCall Primitives.sample Unit),
          (run step start calls).record.store = owned.store := by
  have decoded := decode_encode storable_owned
  have restored : restore ⟨.sample 1⟩ owned = .ok ⟨owned, none, false⟩ := rfl
  refine ⟨⟨owned, none, false⟩, decoded, restored, ?_⟩
  intro calls
  obtain ⟨-, -, -, -, -, -, ⟨store, -⟩, -⟩ := ownership_law decoded restored calls
  exact store

end LocalPairing
end Coaptic.Provisioning
