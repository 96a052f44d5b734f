import Coaptic.Lib.Run
import Coaptic.Receipts.Record

/-!
# The receipt journal

An append-only file of telemetry rows, and the process that owns it. A row and its receipt are
one record, written and synced before the receipt is returned. A write that fails leaves any part
of the record behind; until the journal is opened again nothing is answered, and opening it
recovers complete records only.
-/
namespace Coaptic.Receipts

open BigEndian Run List

def maxRows : Nat := 16

/-- `COAPRC01`. -/
def magic : List UInt8 := [0x43, 0x4f, 0x41, 0x50, 0x52, 0x43, 0x30, 0x31]

inductive ReceiptError
  | capacity
  | unauthorized
  | conflict
  | persistence (error : Error)
deriving DecidableEq

structure TrustAnchor where
  store : Fixed 32
  generation : Nat
  digest : Fixed 32
deriving DecidableEq

/-- Authoritative permission. -/
structure Policy where
  anchor : TrustAnchor
  principal : Principal
  resource : Fixed 32
  enabled : Bool
deriving DecidableEq

/-- Same authority, strictly newer generation. -/
def Policy.replace (current next : Policy) : Except Error Policy :=
  if current.anchor.store ≠ next.anchor.store ∨ next.anchor.generation ≤ current.anchor.generation then
    .error .policy
  else .ok next

def Policy.authorizes (policy : Policy) (expected : TrustAnchor) (principal : Principal)
    (op : TelemetryOperation) : Bool :=
  policy.enabled && policy.anchor = expected && policy.principal = principal &&
    policy.resource = op.resource

/-- The file: what has been synced, and how much there is of the record that was being appended. -/
structure Disk where
  synced : List UInt8
  appended : List UInt8
  kept : Nat
deriving DecidableEq

def Disk.content (disk : Disk) : List UInt8 := disk.synced ++ disk.appended.take disk.kept

/-- What goes wrong in a commit: the policy lock is poisoned, the write is given up before it
starts, or it fails on the way and leaves some of the record in the file. -/
inductive Fault
  | poisoned
  | beforeWrite
  | failed (kept : Nat)
deriving DecidableEq

/-- The process that owns the file. -/
structure Journal where
  rows : List Row
  capacity : Nat
  uncertain : Bool
deriving DecidableEq

def header (blake3 : Blake3) (capacity : Nat) : List UInt8 :=
  magic ++ toBe 4 capacity ++ (blake3.hash (magic ++ toBe 4 capacity)).bytes

namespace Journal

def find (journal : Journal) (principal : Principal) (id : OperationId) : Option Row :=
  journal.rows.find? fun row => row.principal = principal && row.id = id

/-- Append a record and sync it. The file has to end where the journal does. -/
def append (journal : Journal) (disk : Disk) (row : Row) (fault : Option Fault) :
    Except ReceiptError Receipt × Journal × Disk :=
  if disk.content.length ≠ headerLen + journal.rows.length * recordLen then
    (.error (.persistence .io), { journal with uncertain := true }, disk)
  else
    match fault with
    | some (.failed kept) =>
      (.error (.persistence .io), { journal with uncertain := true },
        { disk with appended := row.bytes, kept })
    | _ =>
      (.ok row.receipt, { journal with rows := journal.rows ++ [row] },
        { synced := disk.content ++ row.bytes, appended := [], kept := 0 })

def commit (blake3 : Blake3) (journal : Journal) (disk : Disk) (policy : Policy)
    (expected : TrustAnchor) (principal : Principal) (op : TelemetryOperation)
    (fault : Option Fault) : Except ReceiptError Receipt × Journal × Disk :=
  if journal.uncertain then (.error (.persistence .needsRecovery), journal, disk)
  else if fault = some .poisoned then (.error (.persistence .policy), journal, disk)
  else if !policy.authorizes expected principal op then (.error .unauthorized, journal, disk)
  else
  match journal.find principal op.id with
  | some row =>
    if row.receipt.digest = op.digest blake3 then (.ok row.receipt, journal, disk)
    else (.error .conflict, journal, disk)
  | none =>
    if journal.rows.length = journal.capacity then (.error .capacity, journal, disk)
    else if fault = some .beforeWrite then (.error (.persistence .io), journal, disk)
    else
      journal.append disk (Row.new blake3 principal op (journal.rows.length + 1)) fault

def lookupReceipt (journal : Journal) (principal : Principal) (id : OperationId)
    (resource digest : Fixed 32) : Except ReceiptError (Option Receipt) :=
  if journal.uncertain then .error (.persistence .needsRecovery)
  else
  match journal.find principal id with
  | none => .ok none
  | some row =>
    if row.resource ≠ resource ∨ row.receipt.digest ≠ digest then .error .conflict
    else .ok (some row.receipt)

def effects (journal : Journal) : Except Error Nat :=
  if journal.uncertain then .error .needsRecovery else .ok journal.rows.length

def readRows (blake3 : Blake3) : (count : Nat) → (bytes : List UInt8) → (rows : List Row) →
    Except Error (List Row)
  | 0, _, rows => .ok rows
  | count + 1, bytes, rows =>
    if complete : (bytes.take recordLen).length = recordLen then
      let row : Row := ⟨bytes.take recordLen, complete⟩
      match row.validate blake3 (rows.length + 1) with
      | .error e => .error e
      | .ok () =>
        if rows.any (·.key = row.key) then .error .corrupt
        else readRows blake3 count (bytes.drop recordLen) (rows ++ [row])
    else .error .io

/-- Open an existing file. `syncs` is whether the final sync succeeds. -/
def openFile (blake3 : Blake3) (content : List UInt8) (syncs : Bool) : Except Error Journal :=
  if content.length < headerLen ∨ headerLen + maxRows * recordLen < content.length then
    .error .corrupt
  else if content.take 8 ≠ magic ∨
      (blake3.hash (content.take 12)).bytes ≠ (content.drop 12).take 32 then .error .corrupt
  else
    let capacity := ofBe ((content.drop 8).take 4)
    if ¬(1 ≤ capacity ∧ capacity ≤ maxRows) ∨ ¬recordLen ∣ content.length - headerLen then
      .error .corrupt
    else if capacity < (content.length - headerLen) / recordLen then .error .corrupt
    else
    match readRows blake3 ((content.length - headerLen) / recordLen) (content.drop headerLen) [] with
    | .error e => .error e
    | .ok rows => if syncs then .ok ⟨rows, capacity, false⟩ else .error .io

end Journal

/-! ### Runs -/

/-- The file, the current policy, and the process if there is one. `acknowledged` is a history:
the rows that a commit has returned a receipt for, or that an opened journal has recovered. -/
structure World where
  disk : Disk
  policy : Policy
  journal : Option Journal
  acknowledged : List Row

inductive Event
  | commit (expected : TrustAnchor) (principal : Principal) (op : TelemetryOperation)
      (fault : Option Fault)
  | replace (next : Policy)
  | crash (kept : Nat)
  | openFile (policy : Policy) (syncs : Bool)

namespace World

def create (blake3 : Blake3) (capacity : Nat) (policy : Policy) : Except Error World :=
  if 1 ≤ capacity ∧ capacity ≤ maxRows then
    .ok
      { disk := ⟨header blake3 capacity, [], 0⟩
        policy
        journal := some ⟨[], capacity, false⟩
        acknowledged := [] }
  else .error .corrupt

def commit (blake3 : Blake3) (w : World) (expected : TrustAnchor) (principal : Principal)
    (op : TelemetryOperation) (fault : Option Fault) :
    Option (Except ReceiptError Receipt) × World :=
  match w.journal with
  | none => (none, w)
  | some journal =>
  let (outcome, journal, disk) :=
    journal.commit blake3 w.disk w.policy expected principal op fault
  let acknowledged := if outcome.isOk then journal.rows else w.acknowledged
  (some outcome, { w with disk, journal := some journal, acknowledged })

/-- The file is locked while a process owns it. -/
def openFile (blake3 : Blake3) (w : World) (policy : Policy) (syncs : Bool) :
    Except Error Journal × World :=
  if w.journal.isSome then (.error .lock, w)
  else
  match Journal.openFile blake3 w.disk.content syncs with
  | .error e => (.error e, w)
  | .ok journal =>
  (.ok journal,
    { disk := ⟨w.disk.content, [], 0⟩, policy, journal := some journal
      acknowledged := journal.rows })

def step (blake3 : Blake3) (w : World) : Event → World
  | .commit expected principal op fault => (w.commit blake3 expected principal op fault).2
  | .replace next =>
    match w.policy.replace next with
    | .error _ => w
    | .ok policy => { w with policy }
  | .crash kept => { w with journal := none, disk := { w.disk with kept } }
  | .openFile policy syncs => (w.openFile blake3 policy syncs).2

end World

/-! ### Recorded rows -/

variable {blake3 : Blake3}

def recordBytes (rows : List Row) : List UInt8 := (rows.map (·.bytes)).flatten

@[simp] theorem length_recordBytes (rows : List Row) :
    (recordBytes rows).length = rows.length * recordLen := by
  induction rows with
  | nil => simp [recordBytes]
  | cons row rest ih =>
  rw [recordBytes, map_cons, flatten_cons, length_append, row.length_eq]
  rw [recordBytes] at ih
  rw [ih, length_cons]
  ring

theorem recordBytes_concat (rows : List Row) (row : Row) :
    recordBytes (rows ++ [row]) = recordBytes rows ++ row.bytes := by
  simp [recordBytes]

/-- Rows as commits of the operations in `ops` write them: numbered in order, with names of
their own. -/
structure Recorded (blake3 : Blake3) (ops : List TelemetryOperation) (rows : List Row) : Prop where
  written : ∀ i row, rows[i]? = some row → ∃ p, ∃ op ∈ ops, row = Row.new blake3 p op (i + 1)
  named : rows.Pairwise fun row other => row.key ≠ other.key
  few : rows.length ≤ maxRows

namespace Recorded

variable {ops : List TelemetryOperation} {rows : List Row}

theorem mono {ops' : List TelemetryOperation} (h : Recorded blake3 ops rows) (sub : ops ⊆ ops') :
    Recorded blake3 ops' rows where
  written i row here := by
    obtain ⟨p, op, known, rfl⟩ := h.written i row here
    exact ⟨p, op, sub known, rfl⟩
  named := h.named
  few := h.few

theorem unique (h : Recorded blake3 ops rows) {row other : Row} (member : row ∈ rows)
    (member' : other ∈ rows) (same : row.key = other.key) : row = other :=
  inj_on_of_nodup_map (pairwise_map.mpr h.named) member member' same

theorem concat (h : Recorded blake3 ops rows) {p : Principal} {op : TelemetryOperation}
    (known : op ∈ ops) (room : rows.length < maxRows)
    (fresh : ∀ row ∈ rows, ¬(row.principal = p ∧ row.id = op.id)) :
    Recorded blake3 ops (rows ++ [Row.new blake3 p op (rows.length + 1)]) where
  written i row here := by
    rcases Nat.lt_trichotomy i rows.length with early | last | late
    · rw [getElem?_append_left early] at here
      exact h.written i row here
    · subst last
      rw [getElem?_append_right le_rfl, Nat.sub_self] at here
      cases here
      exact ⟨p, op, known, rfl⟩
    · rw [getElem?_eq_none (by simp; omega)] at here
      cases here
  named := by
    rw [pairwise_append]
    refine ⟨h.named, pairwise_singleton _ _, fun row earlier other last => ?_⟩
    rw [mem_singleton] at last
    subst last
    rw [Ne, Row.key_inj, Row.principal_new, Row.id_new]
    exact fresh row earlier
  few := by
    rw [length_append, length_singleton]
    omega

end Recorded

/-! ### Opening -/

namespace Journal

variable {ops : List TelemetryOperation}

/-- Records that commits have written are read back. -/
theorem readRows_recorded (more rows : List Row) (h : Recorded blake3 ops (rows ++ more)) :
    readRows blake3 more.length (recordBytes more) rows = .ok (rows ++ more) := by
  induction more generalizing rows with
  | nil => simp [readRows]
  | cons row more ih =>
  have bytes : recordBytes (row :: more) = row.bytes ++ recordBytes more := by simp [recordBytes]
  have first : (recordBytes (row :: more)).take recordLen = row.bytes := by
    rw [bytes, ← row.length_eq, take_left]
  have rest : (recordBytes (row :: more)).drop recordLen = recordBytes more := by
    rw [bytes, ← row.length_eq, drop_left]
  obtain ⟨p, op, -, new⟩ := h.written rows.length row (by simp)
  have valid : row.validate blake3 (rows.length + 1) = .ok () := by
    rw [new]
    refine Row.validate_new blake3 p op _ ?_
    have := h.few
    simp only [length_append, length_cons, maxRows] at this
    omega
  have fresh : ¬rows.any (·.key = row.key) = true := by
    rw [any_eq_true]
    rintro ⟨old, earlier, same⟩
    have apart := (pairwise_append.mp h.named).2.2 old earlier row mem_cons_self
    exact apart (by simpa using same)
  have shift : rows ++ row :: more = (rows ++ [row]) ++ more := by simp
  rw [length_cons, readRows, dif_pos (by rw [first, row.length_eq])]
  simp only [first, valid, rest]
  rw [if_neg fresh, ih (rows ++ [row]) (shift ▸ h), shift]

/-- A file that starts with the header of a journal is refused or read by its length alone. -/
theorem openFile_header {capacity : Nat} (positive : 1 ≤ capacity) (most : capacity ≤ maxRows)
    (rest : List UInt8) (syncs : Bool) : openFile blake3 (header blake3 capacity ++ rest) syncs =
      if headerLen + maxRows * recordLen < headerLen + rest.length ∨ ¬recordLen ∣ rest.length ∨
          capacity < rest.length / recordLen then .error .corrupt
      else
        match readRows blake3 (rest.length / recordLen) rest [] with
        | .error e => .error e
        | .ok rows => if syncs then .ok ⟨rows, capacity, false⟩ else .error .io := by
  have front : (magic ++ toBe 4 capacity).length = 12 := by simp [magic]
  have size : (header blake3 capacity).length = headerLen := by simp [header, magic, headerLen]
  have take12 : (header blake3 capacity ++ rest).take 12 = magic ++ toBe 4 capacity := by
    rw [header, append_assoc, ← front, take_left]
  have sum : ((header blake3 capacity ++ rest).drop 12).take 32 =
      (blake3.hash (magic ++ toBe 4 capacity)).bytes := by
    rw [header, append_assoc, ← front, drop_left]
    exact take_left' (Fixed.length_eq _)
  have take8 : (header blake3 capacity ++ rest).take 8 = magic := by
    rw [header, append_assoc, append_assoc]
    exact take_left' rfl
  have stored : ofBe (((header blake3 capacity ++ rest).drop 8).take 4) = capacity := by
    have drop8 : (header blake3 capacity ++ rest).drop 8 =
        toBe 4 capacity ++ ((blake3.hash (magic ++ toBe 4 capacity)).bytes ++ rest) := by
      rw [header, append_assoc, append_assoc]
      exact drop_left' rfl
    rw [drop8, take_left' (length_toBe 4 capacity), ofBe_toBe]
    simp only [maxRows] at most
    omega
  have after : (header blake3 capacity ++ rest).drop headerLen = rest := drop_left' size
  have length : (header blake3 capacity ++ rest).length = headerLen + rest.length := by
    rw [length_append, size]
  rw [openFile]
  simp only [length, take8, take12, sum, stored, after, Nat.add_sub_cancel_left, ne_eq,
    not_true_eq_false, or_self, if_false]
  by_cases long : headerLen + maxRows * recordLen < headerLen + rest.length
  · rw [if_pos (.inr long), if_pos (.inl long)]
  rw [if_neg (by omega)]
  by_cases whole : recordLen ∣ rest.length
  · rw [if_neg (by simp [positive, most, whole])]
    by_cases excess : capacity < rest.length / recordLen
    · rw [if_pos excess, if_pos (.inr (.inr excess))]
    · rw [if_neg excess, if_neg (by simp [long, whole, excess])]
  · rw [if_pos (.inr whole), if_pos (.inr (.inl whole))]

theorem openFile_recorded {capacity : Nat} (positive : 1 ≤ capacity) (most : capacity ≤ maxRows)
    {rows : List Row} (recorded : Recorded blake3 ops rows) (fits : rows.length ≤ capacity)
    (syncs : Bool) : openFile blake3 (header blake3 capacity ++ recordBytes rows) syncs =
      if syncs then .ok ⟨rows, capacity, false⟩ else .error .io := by
  have count : (recordBytes rows).length / recordLen = rows.length := by
    rw [length_recordBytes, Nat.mul_div_cancel _ (by decide)]
  have short : ¬headerLen + maxRows * recordLen < headerLen + (recordBytes rows).length := by
    rw [length_recordBytes]
    have := Nat.mul_le_mul_right recordLen (fits.trans most)
    omega
  rw [openFile_header positive most, if_neg, count]
  · have read := readRows_recorded rows [] recorded
    rw [nil_append] at read
    rw [read]
  rw [count]
  rintro (long | part | excess)
  · exact short long
  · exact part (by simp)
  · omega

/-- Part of a record after the last one: the file is refused. -/
theorem openFile_torn {capacity : Nat} (positive : 1 ≤ capacity) (most : capacity ≤ maxRows)
    {rows : List Row} {part : List UInt8} (some : 0 < part.length) (short : part.length < recordLen)
    (syncs : Bool) : openFile blake3 (header blake3 capacity ++ (recordBytes rows ++ part)) syncs =
      .error .corrupt := by
  rw [openFile_header positive most, if_pos]
  refine .inr (.inl fun whole => ?_)
  rw [length_append, length_recordBytes] at whole
  have divides := (Nat.dvd_add_right (Dvd.intro_left rows.length rfl)).mp whole
  exact absurd (Nat.le_of_dvd some divides) (by omega)

/-! ### Committing -/

/-- A record is appended at the end of the file, or part of it is left there. -/
theorem append_cases (journal : Journal) {disk : Disk} (row : Row) (fault : Option Fault)
    (ends : disk.content.length = headerLen + journal.rows.length * recordLen) :
    (∃ kept, journal.append disk row fault =
        (.error (.persistence .io), { journal with uncertain := true },
          { disk with appended := row.bytes, kept })) ∨
      journal.append disk row fault =
        (.ok row.receipt, { journal with rows := journal.rows ++ [row] },
          { synced := disk.content ++ row.bytes, appended := [], kept := 0 }) := by
  unfold append
  rw [if_neg (not_not.mpr ends)]
  split
  · exact .inl ⟨_, rfl⟩
  · exact .inr rfl

/-- What a commit can come to: an answer that changes nothing, a write that fails, or a new row. -/
theorem commit_cases (blake3 : Blake3) (journal : Journal) (disk : Disk) (policy : Policy)
    (expected : TrustAnchor) (p : Principal) (op : TelemetryOperation) (fault : Option Fault) :
    (∃ e, journal.commit blake3 disk policy expected p op fault = (.error e, journal, disk)) ∨
      (∃ row, journal.find p op.id = some row ∧ row.digest = op.digest blake3 ∧
        journal.commit blake3 disk policy expected p op fault = (.ok row.receipt, journal, disk)) ∨
      journal.uncertain = false ∧ journal.find p op.id = none ∧
        journal.rows.length ≠ journal.capacity ∧
        journal.commit blake3 disk policy expected p op fault =
          journal.append disk (Row.new blake3 p op (journal.rows.length + 1)) fault := by
  fun_cases commit blake3 journal disk policy expected p op fault with
  | case4 _ _ _ row found same => exact .inr (.inl ⟨row, found, same, rfl⟩)
  | case8 certain _ _ absent room _ => exact .inr (.inr ⟨by simpa using certain, absent, room, rfl⟩)
  | _ => exact .inl ⟨_, rfl⟩

end Journal

end Coaptic.Receipts
