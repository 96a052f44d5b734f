import Coaptic.Lib.BigEndian

/-!
# Journal records

The telemetry rows of the receipt journal, byte for byte: how a row is laid out, what it is read
back as, and the checks that a row passes when the journal is opened.
-/
namespace Coaptic.Receipts

open BigEndian List

/-- Byte string of a fixed size. -/
@[ext]
structure Fixed (n : Nat) where
  bytes : List UInt8
  length_eq : bytes.length = n
deriving DecidableEq

def Fixed.fill (n : Nat) (byte : UInt8) : Fixed n := ⟨List.replicate n byte, List.length_replicate⟩

attribute [simp] Fixed.length_eq

/-- BLAKE3, plain and with the key of telemetry operations. -/
structure Blake3 where
  hash : List UInt8 → Fixed 32
  operation : List UInt8 → Fixed 32

abbrev Principal := Fixed 32
abbrev OperationId := Fixed 16

def maxPayload : Nat := 1024

/-- Telemetry content. -/
structure TelemetryOperation where
  id : OperationId
  resource : Fixed 32
  contentFormat : Option UInt16
  payload : List UInt8
  payload_le : payload.length ≤ maxPayload
deriving DecidableEq

namespace TelemetryOperation

def new (id : OperationId) (resource : Fixed 32) (contentFormat : Option UInt16)
    (payload : List UInt8) : Option TelemetryOperation :=
  if bound : payload.length ≤ maxPayload then
    some ⟨id, resource, contentFormat, payload, bound⟩
  else none

def digest (blake3 : Blake3) (op : TelemetryOperation) : Fixed 32 :=
  blake3.operation (op.resource.bytes ++
    (match op.contentFormat with
      | some value => 1 :: toBe 2 value.toNat
      | none => [0]) ++
    toBe 8 op.payload.length ++ op.payload)

end TelemetryOperation

/-- What a commit returns. -/
structure Receipt where
  id : OperationId
  digest : Fixed 32
  sequence : Nat
deriving DecidableEq

inductive Error
  | io
  | lock
  | corrupt
  | policy
  | needsRecovery
deriving DecidableEq

def headerLen : Nat := 44
def dataLen : Nat := 1149
def recordLen : Nat := dataLen + 32

def field (bytes : List UInt8) (i n : Nat) : List UInt8 := (bytes.drop i).take n

theorem length_field {bytes : List UInt8} {i n : Nat} (inside : i + n ≤ bytes.length) :
    (field bytes i n).length = n := by
  simp only [field, length_take, length_drop]
  omega

theorem field_here {b c : List UInt8} {n : Nat} (size : b.length = n) : field (b ++ c) 0 n = b := by
  subst size
  simp [field]

theorem field_skip {a rest : List UInt8} {k j n : Nat} (i : Nat) (size : a.length = k)
    (at_ : j = k + i) : field (a ++ rest) j n = field rest i n := by
  subst size at_
  rw [field, drop_length_add_append, field]

/-- A journal record. -/
structure Row where
  bytes : List UInt8
  length_eq : bytes.length = recordLen
deriving DecidableEq

namespace Row

def formatBytes : Option UInt16 → List UInt8
  | some format => 1 :: toBe 2 format.toNat
  | none => [0, 0, 0]

@[simp] theorem length_formatBytes (format : Option UInt16) : (formatBytes format).length = 3 := by
  cases format with
  | none => rfl
  | some format => simp [formatBytes]

def front (principal : Principal) (op : TelemetryOperation) (sequence : Nat) : List UInt8 :=
  toBe 8 sequence ++ principal.bytes ++ op.id.bytes ++ op.resource.bytes ++
    formatBytes op.contentFormat ++ toBe 2 op.payload.length

def body (op : TelemetryOperation) : List UInt8 :=
  op.payload ++ List.replicate (maxPayload - op.payload.length) 0

section

variable (blake3 : Blake3) (principal : Principal) (op : TelemetryOperation) (sequence : Nat)

def data : List UInt8 :=
  front principal op sequence ++ body op ++ (op.digest blake3).bytes

@[simp] theorem length_front : (front principal op sequence).length = 93 := by
  simp [front]

@[simp] theorem length_body : (body op).length = maxPayload := by
  have := op.payload_le
  simp only [body, length_append, length_replicate]
  omega

@[simp] theorem length_data : (data blake3 principal op sequence).length = dataLen := by
  simp [data, maxPayload, dataLen]

def new : Row where
  bytes := data blake3 principal op sequence ++ (blake3.hash (data blake3 principal op sequence)).bytes
  length_eq := by simp [recordLen]

end

section

variable (row : Row)

def part (i n : Nat) (inside : i + n ≤ recordLen) : Fixed n :=
  ⟨field row.bytes i n, length_field (row.length_eq ▸ inside)⟩

def sequence : Nat := ofBe (field row.bytes 0 8)
def principal : Principal := row.part 8 32 (by decide)
def id : OperationId := row.part 40 16 (by decide)
def resource : Fixed 32 := row.part 56 32 (by decide)
def digest : Fixed 32 := row.part 1117 32 (by decide)

def key : List UInt8 := field row.bytes 8 48

/-- `from_parts` refuses sequence zero, which no row has. -/
def receipt : Receipt := ⟨row.id, row.digest, row.sequence⟩

def format : Except Error (Option UInt16) :=
  match field row.bytes 88 3 with
  | [0, 0, 0] => .ok none
  | [1, high, low] => .ok (some (UInt16.ofNat (ofBe [high, low])))
  | _ => .error .corrupt

def validate (blake3 : Blake3) (row : Row) (sequence : Nat) : Except Error Unit :=
  if (blake3.hash (row.bytes.take dataLen)).bytes ≠ row.bytes.drop dataLen ∨
      row.sequence ≠ sequence then .error .corrupt
  else
    let len := ofBe (field row.bytes 91 2)
    if maxPayload < len ∨ (field row.bytes (93 + len) (1117 - (93 + len))).any (· != 0) then
      .error .corrupt
    else
    match row.format with
    | .error e => .error e
    | .ok format =>
    match TelemetryOperation.new row.id row.resource format (field row.bytes 93 len) with
    | none => .error .corrupt
    | some op => if op.digest blake3 ≠ row.digest then .error .corrupt else .ok ()

theorem key_eq : row.key = row.principal.bytes ++ row.id.bytes := by
  have split : field row.bytes 8 48 = field row.bytes 8 32 ++ field row.bytes 40 16 := by
    rw [field, field, field, show 48 = 32 + 16 from rfl, take_add, drop_drop]
  exact split

end

/-- A row is named by its principal and its operation. -/
theorem key_inj {row other : Row} :
    row.key = other.key ↔ row.principal = other.principal ∧ row.id = other.id := by
  rw [key_eq, key_eq]
  constructor
  · intro same
    have sizes : row.principal.bytes.length = other.principal.bytes.length := by simp
    obtain ⟨principals, ids⟩ := append_inj same sizes
    exact ⟨Fixed.ext principals, Fixed.ext ids⟩
  · rintro ⟨principals, ids⟩
    rw [principals, ids]

/-! ### Reading a row back -/

section New

variable (blake3 : Blake3) (p : Principal) (op : TelemetryOperation) (n : Nat)

theorem bytes_new : (new blake3 p op n).bytes =
    toBe 8 n ++ (p.bytes ++ (op.id.bytes ++ (op.resource.bytes ++ (formatBytes op.contentFormat ++
      (toBe 2 op.payload.length ++ (body op ++ ((op.digest blake3).bytes ++
        (blake3.hash (data blake3 p op n)).bytes))))))) := by
  simp only [new, data, front, append_assoc]

theorem sequence_new (bound : n < 2 ^ 64) : (new blake3 p op n).sequence = n := by
  rw [sequence, bytes_new, field_here (length_toBe 8 n), ofBe_toBe (by omega)]

/-- Everything up to the resource. -/
theorem field_new (i k : Nat) : field (new blake3 p op n).bytes (8 + i) k =
      field (p.bytes ++ (op.id.bytes ++ (op.resource.bytes ++ (formatBytes op.contentFormat ++
        (toBe 2 op.payload.length ++ (body op ++ ((op.digest blake3).bytes ++
          (blake3.hash (data blake3 p op n)).bytes))))))) i k := by
  rw [bytes_new, field_skip i (length_toBe 8 n) rfl]

theorem field_content (i k : Nat) : field (new blake3 p op n).bytes (56 + i) k =
      field (op.resource.bytes ++ (formatBytes op.contentFormat ++
        (toBe 2 op.payload.length ++ (body op ++ ((op.digest blake3).bytes ++
          (blake3.hash (data blake3 p op n)).bytes))))) i k := by
  rw [show 56 + i = 8 + (48 + i) by omega, field_new, field_skip (16 + i) p.length_eq (by omega),
    field_skip i op.id.length_eq rfl]

theorem principal_new : (new blake3 p op n).principal = p := by
  have read : field (new blake3 p op n).bytes 8 32 = p.bytes := by
    rw [field_new blake3 p op n 0 32, field_here p.length_eq]
  cases p
  simp only [principal, part, read]

theorem id_new : (new blake3 p op n).id = op.id := by
  have read : field (new blake3 p op n).bytes 40 16 = op.id.bytes := by
    rw [field_new blake3 p op n 32 16, field_skip 0 p.length_eq rfl, field_here op.id.length_eq]
  simp only [id, part, read]

theorem resource_new : (new blake3 p op n).resource = op.resource := by
  have read : field (new blake3 p op n).bytes 56 32 = op.resource.bytes := by
    rw [field_content blake3 p op n 0 32, field_here op.resource.length_eq]
  simp only [resource, part, read]

/-- The payload's field. -/
theorem field_body (i k : Nat) : field (new blake3 p op n).bytes (93 + i) k =
      field (body op ++ ((op.digest blake3).bytes ++
        (blake3.hash (data blake3 p op n)).bytes)) i k := by
  rw [show 93 + i = 56 + (37 + i) by omega, field_content,
    field_skip (5 + i) op.resource.length_eq (by omega),
    field_skip (2 + i) (length_formatBytes _) (by omega), field_skip i (length_toBe 2 _) rfl]

theorem digest_new : (new blake3 p op n).digest = op.digest blake3 := by
  have read : field (new blake3 p op n).bytes 1117 32 = (op.digest blake3).bytes := by
    rw [field_body blake3 p op n 1024 32, field_skip (j := 1024) 0 (length_body op) rfl,
      field_here (op.digest blake3).length_eq]
  simp only [digest, part, read]

theorem format_new : (new blake3 p op n).format = .ok op.contentFormat := by
  have read : field (new blake3 p op n).bytes 88 3 = formatBytes op.contentFormat := by
    rw [field_content blake3 p op n 32 3, field_skip 0 op.resource.length_eq rfl,
      field_here (length_formatBytes _)]
  rw [format, read]
  cases op.contentFormat with
  | none => rfl
  | some format =>
  have parts : toBe 2 format.toNat =
      [UInt8.ofNat (format.toNat / 256 % 256), UInt8.ofNat (format.toNat % 256)] := rfl
  have value : ofBe (toBe 2 format.toNat) = format.toNat :=
    ofBe_toBe (by have := format.toNat_lt; omega)
  rw [parts] at value
  simp only [formatBytes, parts, value, UInt16.ofNat_toNat]

/-- A row passes the checks of its place in the journal. -/
theorem validate_new (bound : n < 2 ^ 64) : (new blake3 p op n).validate blake3 n = .ok () := by
  have size : ofBe (field (new blake3 p op n).bytes 91 2) = op.payload.length := by
    rw [field_content blake3 p op n 35 2, field_skip 3 op.resource.length_eq rfl,
      field_skip 0 (length_formatBytes _) rfl, field_here (length_toBe 2 _), ofBe_toBe]
    have := op.payload_le
    simp only [maxPayload] at this
    omega
  have checksum : (blake3.hash ((new blake3 p op n).bytes.take dataLen)).bytes =
      (new blake3 p op n).bytes.drop dataLen := by
    simp [new]
  have payload : field (new blake3 p op n).bytes 93 op.payload.length = op.payload := by
    rw [field_body blake3 p op n 0, body, append_assoc, field_here rfl]
  have zeroes : (field (new blake3 p op n).bytes (93 + op.payload.length)
      (1117 - (93 + op.payload.length))).any (· != 0) = false := by
    rw [field_body, body, append_assoc, field_skip (j := op.payload.length) 0 rfl rfl, field_here]
    · simp
    · simp only [length_replicate, maxPayload]
      omega
  have built : TelemetryOperation.new op.id op.resource op.contentFormat op.payload = some op := by
    rw [TelemetryOperation.new, dif_pos op.payload_le]
  rw [validate, if_neg (by simp [checksum, sequence_new blake3 p op n bound])]
  simp only [size]
  rw [if_neg (by simp [zeroes, op.payload_le]), format_new]
  simp only [id_new, resource_new, payload, built, digest_new, ne_eq, not_true_eq_false, if_false]

end New

end Row

end Coaptic.Receipts
