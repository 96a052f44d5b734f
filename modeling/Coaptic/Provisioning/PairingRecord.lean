import Coaptic.Provisioning.Enrollment
import Coaptic.Lib.Result

/-!
# Records of local pairing

The record of a locally paired device and its canonical CBOR form: what is written can be read
back, and what is read is well formed.
-/
namespace Coaptic.Provisioning

open List

open Receipts (Fixed)
open BigEndian Result

inductive PairingError
  | record
  | binding
  | challenge
  | owner
  | unauthorized
  | exhausted
deriving DecidableEq

variable (prim : Primitives)

/-- Pairing state of one device: who owns it, with which peer, and who may recover it. -/
structure PairingRecord where
  store : Fixed 32
  revision : Nat
  localPrincipal : Principal
  policy : Option (EnrollmentPolicy prim)
  enabled : Bool
  recoveryOwner : Option (Fixed 32)
  revision_le : revision ≤ u64Max

variable {prim}

/-! ### Writing -/

namespace Cbor

def bytes (value : List UInt8) : List UInt8 := [0x58, UInt8.ofNat value.length] ++ value

def uint (value : Nat) : List UInt8 :=
  if value ≤ 23 then [UInt8.ofNat value]
  else if value ≤ 255 then 0x18 :: toBe 1 value
  else if value ≤ 65535 then 0x19 :: toBe 2 value
  else if value ≤ 4294967295 then 0x1a :: toBe 4 value
  else 0x1b :: toBe 8 value

/-! ### Reading -/

def take (n : Nat) (input : List UInt8) : Except PairingError (Fixed n × List UInt8) :=
  if enough : n ≤ input.length then
    .ok (⟨input.take n, List.length_take_of_le enough⟩, input.drop n)
  else .error .record

def exact (value : List UInt8) (input : List UInt8) : Except PairingError (List UInt8) := do
  let (found, rest) ← take value.length input
  if found.bytes ≠ value then .error .record else .ok rest

def readBytes (n : Nat) (input : List UInt8) : Except PairingError (Fixed n × List UInt8) := do
  let rest ← exact [0x58, UInt8.ofNat n] input
  take n rest

def boolean (input : List UInt8) : Except PairingError (Bool × List UInt8) := do
  let (byte, rest) ← take 1 input
  match byte.bytes with
  | [0xf4] => .ok (false, rest)
  | [0xf5] => .ok (true, rest)
  | _ => .error .record

/-- A number of `n` bytes, which shorter forms must not fit. -/
def wide (n minimum : Nat) (size : n ≤ 8) (input : List UInt8) :
    Except PairingError ({ value : Nat // value ≤ u64Max } × List UInt8) :=
  match take n input with
  | .error e => .error e
  | .ok (digits, rest) =>
    if ofBe digits.bytes < minimum then .error .record
    else
      .ok (⟨ofBe digits.bytes, by
        have bound := ofBe_lt digits.bytes
        have power : 256 ^ n ≤ 256 ^ 8 := Nat.pow_le_pow_right (by decide) size
        rw [digits.length_eq] at bound
        simp only [u64Max]
        omega⟩, rest)

theorem toNat_le_u64Max (byte : UInt8) : byte.toNat ≤ u64Max := by
  have := byte.toNat_lt
  simp only [u64Max]
  omega

def readUint : List UInt8 → Except PairingError ({ value : Nat // value ≤ u64Max } × List UInt8)
  | [] => .error .record
  | first :: rest =>
    if first.toNat ≤ 23 then
      .ok (⟨first.toNat, toNat_le_u64Max first⟩, rest)
    else if first = 0x18 then wide 1 24 (by decide) rest
    else if first = 0x19 then wide 2 256 (by decide) rest
    else if first = 0x1a then wide 4 65536 (by decide) rest
    else if first = 0x1b then wide 8 4294967296 (by decide) rest
    else .error .record

/-! ### What is written is read back -/

variable {n value : Nat}

theorem take_append (value : Fixed n) (rest : List UInt8) :
    take n (value.bytes ++ rest) = .ok (value, rest) := by
  have enough : n ≤ (value.bytes ++ rest).length := by simp
  have front : (value.bytes ++ rest).take n = value.bytes := take_left' value.length_eq
  have back : (value.bytes ++ rest).drop n = rest := drop_left' value.length_eq
  simp only [take, enough, ↓reduceDIte, back, front]

theorem exact_append (value rest : List UInt8) : exact value (value ++ rest) = .ok rest := by
  simp only [exact, take_append ⟨value, rfl⟩ rest, ok_bind]
  simp

theorem readBytes_append (value : Fixed n) (rest : List UInt8) :
    readBytes n (bytes value.bytes ++ rest) = .ok (value, rest) := by
  have header : bytes value.bytes ++ rest = [0x58, UInt8.ofNat n] ++ (value.bytes ++ rest) := by
    simp [bytes]
  rw [readBytes, header, exact_append, ok_bind, take_append]

theorem boolean_cons (value : Bool) (rest : List UInt8) :
    boolean ((if value then 0xf5 else 0xf4) :: rest) = .ok (value, rest) := by
  cases value with
  | false => simp [boolean, take]
  | true => simp [boolean, take]

theorem wide_append {minimum : Nat} (size : n ≤ 8) (fits : value < 256 ^ n)
    (long : minimum ≤ value) (bound : value ≤ u64Max) (rest : List UInt8) :
    wide n minimum size (toBe n value ++ rest) = .ok (⟨value, bound⟩, rest) := by
  have digits := take_append (⟨toBe n value, length_toBe n value⟩ : Fixed n) rest
  have read := ofBe_toBe fits
  simp only [wide, digits, read, Nat.not_lt.mpr long, ↓reduceIte]

theorem readUint_append (bound : value ≤ u64Max) (rest : List UInt8) :
    readUint (uint value ++ rest) = .ok (⟨value, bound⟩, rest) := by
  simp only [uint]
  have machine : value < 256 ^ 8 := by
    simp only [u64Max] at bound
    omega
  split
  next short =>
    have digit : (UInt8.ofNat value).toNat = value := by
      rw [UInt8.toNat_ofNat']
      omega
    simp [readUint, digit, short]
  split
  · rw [cons_append, readUint, if_neg (by decide), if_pos rfl]
    exact wide_append (by decide) (by omega) (by omega) bound rest
  split
  · rw [cons_append, readUint, if_neg (by decide), if_neg (by decide), if_pos rfl]
    exact wide_append (by decide) (by omega) (by omega) bound rest
  split
  · rw [cons_append, readUint, if_neg (by decide), if_neg (by decide), if_neg (by decide), if_pos rfl]
    exact wide_append (by decide) (by omega) (by omega) bound rest
  next =>
  rw [cons_append, readUint, if_neg (by decide), if_neg (by decide), if_neg (by decide), if_neg
    (by decide), if_pos rfl]
  exact wide_append (by decide) machine (by omega) bound rest

end Cbor

open Cbor

/-! ### The record -/

namespace PairingRecord

def maxEncodedLen : Nat := 251

def pairingDomain : String := "coaptic local pairing record v1"

/-- The array header counts the recovery owner only where there is one. -/
def encode (record : PairingRecord prim) : List UInt8 :=
  [if record.recoveryOwner.isSome then 0x8a else 0x89, 1] ++
    Cbor.bytes record.store.bytes ++ Cbor.uint record.revision ++
    Cbor.bytes record.localPrincipal.bytes ++
    (match record.policy with
      | some policy =>
        Cbor.bytes policy.peer.publicKey.bytes ++ Cbor.uint policy.peer.kid.toNat ++
          Cbor.bytes policy.owner.bytes ++ Cbor.bytes policy.resourcePolicy.bytes
      | none => [0xf6, 0] ++ Cbor.bytes (zeros 32).bytes ++ Cbor.bytes (zeros 32).bytes) ++
    [if record.enabled then 0xf5 else 0xf4] ++
    (match record.recoveryOwner with
      | some owner => Cbor.bytes owner.bytes
      | none => [])

def commitment (record : PairingRecord prim) : Fixed 32 :=
  prim.deriveKey pairingDomain record.encode

/-- The fields as they are read. -/
structure Fields where
  store : Fixed 32
  revision : { value : Nat // value ≤ u64Max }
  localPrincipal : Principal
  publicKey : Option (Fixed 65)
  kid : UInt8
  owner : Fixed 32
  permissions : Fixed 32
  enabled : Bool
  recoveryOwner : Option (Fixed 32)

section

variable (input : List UInt8)

def readPublicKey : Except PairingError (Option (Fixed 65) × List UInt8) :=
  if input.head? = some 0xf6 then do
    let rest ← Cbor.exact [0xf6] input
    return (none, rest)
  else do
    let (key, rest) ← Cbor.readBytes 65 input
    return (some key, rest)

def readKid : Except PairingError (UInt8 × List UInt8) := do
  let (value, rest) ← Cbor.readUint input
  if value.1 ≤ 255 then .ok (UInt8.ofNat value.1, rest) else .error .record

def readRecovery (recovery : Bool) (input : List UInt8) :
    Except PairingError (Option (Fixed 32) × List UInt8) :=
  if recovery then do
    let (owner, rest) ← Cbor.readBytes 32 input
    return (some owner, rest)
  else .ok (none, input)

def readHeader : Except PairingError (Bool × List UInt8) := do
  let (byte, rest) ← Cbor.take 1 input
  match byte.bytes with
  | [0x89] => .ok (false, rest)
  | [0x8a] => .ok (true, rest)
  | _ => .error .record

def readFields : Except PairingError Fields := do
  let (recovery, rest) ← readHeader input
  let rest ← Cbor.exact [1] rest
  let (store, rest) ← Cbor.readBytes 32 rest
  let (revision, rest) ← Cbor.readUint rest
  let (localPrincipal, rest) ← Cbor.readBytes 32 rest
  let (publicKey, rest) ← readPublicKey rest
  let (kid, rest) ← readKid rest
  let (owner, rest) ← Cbor.readBytes 32 rest
  let (permissions, rest) ← Cbor.readBytes 32 rest
  let (enabled, rest) ← Cbor.boolean rest
  let (recoveryOwner, rest) ← readRecovery recovery rest
  if rest ≠ [] then .error .record
  else return ⟨store, revision, localPrincipal, publicKey, kid, owner, permissions, enabled, recoveryOwner⟩

def readPolicy (fields : Fields) : Except PairingError (Option (EnrollmentPolicy prim)) :=
  match fields.publicKey with
  | some key =>
    if fields.revision.1 < 2 then .error .record
    else
      match PinnedPeer.fromPublicKey key.bytes fields.kid with
      | none => .error .record
      | some peer =>
        match EnrollmentPolicy.new peer fields.owner fields.permissions with
        | .error _ => .error .record
        | .ok policy => .ok (some policy)
  | none =>
    if fields.revision.1 ≠ 1 ∨ fields.enabled = true ∨ fields.kid ≠ 0 ∨ fields.owner ≠ zeros 32 ∨
        fields.permissions ≠ zeros 32 ∨ fields.recoveryOwner.isSome = true then .error .record
    else .ok none

def build (fields : Fields) : Except PairingError (PairingRecord prim) := do
  let policy ← readPolicy fields
  if fields.store = zeros 32 ∨ fields.localPrincipal = zeros 32 ∨ fields.revision.1 = 0 then
    .error .record
  else if fields.recoveryOwner.any fun backup =>
      backup = zeros 32 || policy.all fun policy => policy.owner = backup then .error .record
  else
    return { store := fields.store
             revision := fields.revision.1
             localPrincipal := fields.localPrincipal
             policy := policy
             enabled := fields.enabled
             recoveryOwner := fields.recoveryOwner
             revision_le := fields.revision.2 }

def decode : Except PairingError (PairingRecord prim) :=
  if input.length > maxEncodedLen then .error .record
  else do
    let fields ← readFields input
    build fields

end

/-- Only an owned device has a recovery owner, who is somebody else. -/
def Sound (record : PairingRecord prim) : Prop :=
  ∀ backup, record.recoveryOwner = some backup →
    backup ≠ zeros 32 ∧ ∃ policy, record.policy = some policy ∧ policy.owner ≠ backup

variable {record : PairingRecord prim}

theorem sound_of_none (none : record.recoveryOwner = none) : record.Sound := by
  intro backup present
  simp [none] at present

/-- What is accepted is well formed. -/
theorem sound_of_decode {input : List UInt8} (accepted : decode input = .ok record) :
    record.Sound := by
  revert accepted
  fun_cases decode input with
  | case1 => exact nofun
  | case2 =>
  intro accepted
  obtain ⟨fields, -, built⟩ := bind_eq_ok.mp accepted
  simp only [build] at built
  obtain ⟨policy, -, checked⟩ := bind_eq_ok.mp built
  split at checked
  · cases checked
  split at checked
  · cases checked
  next other =>
  cases checked
  intro backup present
  simp only [show fields.recoveryOwner = some backup from present, Option.any_some,
    Bool.or_eq_true, decide_eq_true_eq, not_or] at other
  refine ⟨other.1, ?_⟩
  cases policy with
  | none => simp at other
  | some policy => exact ⟨policy, rfl, by simpa using other.2⟩

/-- The state of a device that may be written: an unpaired one is as it was created, a paired one
has been changed since. -/
structure Storable (record : PairingRecord prim) : Prop where
  store : record.store ≠ zeros 32
  localPrincipal : record.localPrincipal ≠ zeros 32
  sound : record.Sound
  unpaired : record.policy = none → record.revision = 1 ∧ record.enabled = false
  paired : ∀ policy, record.policy = some policy → 2 ≤ record.revision

theorem readHeader_cons (recovery : Bool) (rest : List UInt8) :
    readHeader ((if recovery then 0x8a else 0x89) :: rest) = .ok (recovery, rest) := by
  cases recovery with
  | false => simp [readHeader, Cbor.take]
  | true => simp [readHeader, Cbor.take]

theorem readKid_append (kid : UInt8) (rest : List UInt8) :
    readKid (Cbor.uint kid.toNat ++ rest) = .ok (kid, rest) := by
  have small := kid.toNat_lt
  have bound : kid.toNat ≤ u64Max := by
    simp only [u64Max]
    omega
  have fits : kid.toNat ≤ 255 := by omega
  simp [readKid, readUint_append bound, fits]

theorem readRecovery_append (owner : Option (Fixed 32)) :
    readRecovery owner.isSome (match owner with
      | some owner => Cbor.bytes owner.bytes
      | none => []) = .ok (owner, []) := by
  cases owner with
  | none => rfl
  | some owner =>
  have read := readBytes_append owner []
  rw [append_nil] at read
  simp [readRecovery, read, pure, Except.pure]

def fields (record : PairingRecord prim) : Fields where
  store := record.store
  revision := ⟨record.revision, record.revision_le⟩
  localPrincipal := record.localPrincipal
  publicKey := record.policy.map (·.peer.publicKey)
  kid := record.policy.elim 0 (·.peer.kid)
  owner := record.policy.elim (zeros 32) (·.owner)
  permissions := record.policy.elim (zeros 32) (·.resourcePolicy)
  enabled := record.enabled
  recoveryOwner := record.recoveryOwner

theorem readFields_encode (record : PairingRecord prim) :
    readFields record.encode = .ok record.fields := by
  simp only [readFields, encode, append_assoc, cons_append, nil_append]
  rw [readHeader_cons, ok_bind]
  have one : ∀ rest, exact [1] (1 :: rest) = .ok rest := fun rest => exact_append [1] rest
  simp only [one, ok_bind, readBytes_append, readUint_append record.revision_le]
  cases paired : record.policy with
  | none =>
    have kid : ∀ rest, readKid (0 :: rest) = .ok (0, rest) := fun rest => readKid_append 0 rest
    have absent : ∀ rest, readPublicKey (0xf6 :: rest) = .ok (none, rest) := by
      intro rest
      have eaten := exact_append [0xf6] rest
      simp only [readPublicKey, head?_cons, ↓reduceIte]
      rw [show (0xf6 :: rest) = [0xf6] ++ rest from rfl, eaten, ok_bind]
      rfl
    simp only [append_assoc, cons_append, absent, kid, ok_bind,
      readBytes_append, boolean_cons, readRecovery_append]
    simp [fields, paired, pure, Except.pure]
  | some policy =>
  have present : ∀ (key : Fixed 65) (rest : List UInt8),
      readPublicKey (bytes key.bytes ++ rest) = .ok (some key, rest) := by
    intro key rest
    have read := readBytes_append key rest
    have header : (bytes key.bytes ++ rest).head? ≠ some 0xf6 := by simp [bytes]
    simp only [readPublicKey, if_neg header, read, ok_bind]
    rfl
  simp only [append_assoc, present, readKid_append, ok_bind,
    readBytes_append, boolean_cons, readRecovery_append]
  simp [fields, paired, pure, Except.pure]

theorem build_fields (storable : record.Storable) : build record.fields = .ok record := by
  have policy : readPolicy record.fields = .ok record.policy := by
    cases paired : record.policy with
    | none =>
      obtain ⟨first, disabled⟩ := storable.unpaired paired
      have alone : record.recoveryOwner = none := by
        by_contra some_
        obtain ⟨backup, present⟩ := Option.ne_none_iff_exists'.mp some_
        obtain ⟨-, policy, known, -⟩ := storable.sound backup present
        simp [paired] at known
      simp [readPolicy, fields, paired, first, disabled, alone]
    | some policy =>
    have late := storable.paired policy paired
    have valid : EnrollmentPolicy.new policy.peer policy.owner policy.resourcePolicy = .ok policy := by
      simp only [EnrollmentPolicy.new]
      split
      next e refused => simp [policy.validated] at refused
      · rfl
    simp [readPolicy, fields, paired, Nat.not_lt.mpr late, PinnedPeer.fromPublicKey_publicKey, valid]
  have positive : record.revision ≠ 0 := by
    cases paired : record.policy with
    | none => rw [(storable.unpaired paired).1]; decide
    | some policy =>
      have := storable.paired policy paired
      omega
  have other : ¬(record.fields.recoveryOwner.any fun backup =>
      backup = zeros 32 || record.policy.all fun policy => policy.owner = backup) = true := by
    rw [Option.any_eq_true]
    rintro ⟨backup, present, wrong⟩
    obtain ⟨nonzero, policy, known, different⟩ := storable.sound backup present
    simp [nonzero, known, different] at wrong
  simp only [build, policy, ok_bind]
  rw [if_neg, if_neg other]
  · rfl
  rintro (zero | zero | zero)
  · exact storable.store zero
  · exact storable.localPrincipal zero
  · exact positive zero

theorem length_uint_le (value : Nat) : (Cbor.uint value).length ≤ 9 := by
  simp only [uint]
  repeat' split
  all_goals simp

theorem length_encode_le (record : PairingRecord prim) : record.encode.length ≤ maxEncodedLen := by
  have revision := length_uint_le record.revision
  have kid : ∀ kid : UInt8, (uint kid.toNat).length ≤ 2 := by
    intro kid
    have := kid.toNat_lt
    simp only [uint]
    split
    · simp
    next =>
    rw [if_pos (by omega)]
    simp
  have owner : (match record.recoveryOwner with
      | some owner => bytes owner.bytes
      | none => []).length ≤ 34 := by
    cases record.recoveryOwner <;> simp [bytes]
  cases paired : record.policy with
  | none =>
    simp only [encode, paired, maxEncodedLen, length_append, length_cons, length_nil]
    simp only [bytes, length_append, length_cons, length_nil, Fixed.length_eq] at *
    omega
  | some policy =>
  have := kid policy.peer.kid
  simp only [encode, paired, maxEncodedLen, length_append, length_cons, length_nil]
  simp only [bytes, length_append, length_cons, length_nil, Fixed.length_eq] at *
  omega

/-- A record that may be written is read back as it was. -/
theorem decode_encode (storable : record.Storable) : decode record.encode = .ok record := by
  have small := length_encode_le record
  rw [decode, if_neg (Nat.not_lt.mpr small), readFields_encode, ok_bind, build_fields storable]

end PairingRecord
end Coaptic.Provisioning
