import Coaptic.Lib.Slots
import Coaptic.Storage.Pending

/-!
# Exchange table

Outstanding requests by token and peer. A row remembers the outgoing datagram slot its request
was recorded from, but does not own it: the slot may be released and used again while the row
waits for the response.
-/
namespace Coaptic.Pending

open Codec Block Slots Occupancy

variable {maxLen : Nat}

structure ExchangeKey (maxLen : Nat) where
  token : OwnedToken maxLen
  endpoint : Endpoint
deriving DecidableEq

/-- Occupied row: the request's Message ID and the slot that held it when it was recorded. -/
structure ExchangeEntry (maxLen : Nat) where
  key : ExchangeKey maxLen
  messageId : MessageId
  txSlot : Nat
deriving DecidableEq

def isConOrNonRequest (parsed : ParsedMessage maxLen) : Bool :=
  parsed.header.code.isRequest &&
    (parsed.header.ty == .confirmable || parsed.header.ty == .nonConfirmable)

/-- A response by type and Message ID, the token being known to match: a piggybacked one has the
request's Message ID. -/
def matchesResponse (parsed : ParsedMessage maxLen) (requestMid : MessageId) : Bool :=
  parsed.header.code.isResponse &&
    match parsed.header.ty with
    | .acknowledgement => parsed.header.id = requestMid
    | .confirmable | .nonConfirmable => true
    | .reset => false

/-- Rows, the flags that hand out their places, and that no two rows have one key. -/
structure ExchangeTable (maxLen : Nat) where
  entries : List (Option (ExchangeEntry maxLen))
  occ : Occupancy
  occupied_eq : occ.occupied = entries.map Option.isSome
  unpinned : occ.pinned = []
  distinct : Distinct ExchangeEntry.key entries

namespace ExchangeTable

def new (n : Nat) : ExchangeTable maxLen where
  entries := List.replicate n none
  occ := .unpinned n
  occupied_eq := by simp [Occupancy.unpinned]
  unpinned := Eq.refl []
  distinct := distinct_replicate_none n

def find (table : ExchangeTable maxLen) (key : ExchangeKey maxLen) : Option (ExchangeEntry maxLen) :=
  Slots.find ExchangeEntry.key table.entries key

section

variable (table : ExchangeTable maxLen)

def lookup (key : ExchangeKey maxLen) : Option Nat :=
  table.entries.findIdx? fun slot => slot.any fun entry => entry.key = key

def fill (entry : ExchangeEntry maxLen) (fresh : table.find entry.key = none) :
    Option (Nat × ExchangeTable maxLen) :=
  match acquired : table.occ.acquire with
  | none => none
  | some (id, occ) =>
    some (id, {
      entries := table.entries.set id (some entry)
      occ
      occupied_eq := by
        rw [(acquire_some acquired).2.2, table.occupied_eq, List.map_set]
        rfl
      unpinned := acquire_pinned table.unpinned acquired
      distinct := by
        apply table.distinct.set
        intro j old at_ same
        exact absurd same (find_eq_none_iff.mp fresh old (List.mem_of_getElem? at_)) })

/-- Insert a row, unless its key has one: then that row's place is the outcome. -/
def insert (entry : ExchangeEntry maxLen) : Option Nat × ExchangeTable maxLen :=
  match present : table.lookup entry.key with
  | some id => (some id, table)
  | none =>
  match table.fill entry (findIdx_none.mp present) with
  | none => (none, table)
  | some (id, table) => (some id, table)

def take (key : ExchangeKey maxLen) : Option (ExchangeEntry maxLen) × ExchangeTable maxLen :=
  match table.lookup key with
  | none => (none, table)
  | some id =>
    match released : table.occ.release id with
    | .error _ => (table.find key, table)
    | .ok occ =>
      (table.find key, {
        entries := table.entries.set id none
        occ
        occupied_eq := by
          rw [(release_ok released).2, List.map_set]
          simp only [table.occupied_eq]
          rfl
        unpinned := by
          rw [(release_ok released).2]
          exact table.unpinned
        distinct := table.distinct.clear id })

def forTx (tx : Nat) : Option (ExchangeEntry maxLen) :=
  (table.entries.find? fun slot => slot.any fun entry => entry.txSlot = tx).join

def forMid (messageId : MessageId) (peer : Endpoint) : Option (ExchangeEntry maxLen) :=
  (table.entries.find? fun slot => slot.any fun entry =>
    entry.messageId = messageId ∧ entry.key.endpoint = peer).join

end

/-! ### The table as a map from keys to rows -/

variable {table : ExchangeTable maxLen} {key : ExchangeKey maxLen} {entry : ExchangeEntry maxLen}

theorem find_fill {fresh : table.find entry.key = none} {id : Nat} {after : ExchangeTable maxLen}
    (h : table.fill entry fresh = some (id, after)) (k : ExchangeKey maxLen) :
    after.find k = if entry.key = k then some entry else table.find k := by
  simp only [fill] at h
  split at h
  · cases h
  next acquired =>
  cases h
  obtain ⟨inside, free, -⟩ := acquire_some acquired
  rw [table.occupied_eq] at free
  exact (table.distinct.fill (vacant_of_map free) fresh).find k

/-- Outcomes of an insertion: the key had a row, there was no place, or the row is there now. -/
theorem insert_cases (table : ExchangeTable maxLen) (entry : ExchangeEntry maxLen) :
    ((table.find entry.key).isSome ∧ (table.insert entry).1.isSome ∧ (table.insert entry).2 = table) ∨
      (table.find entry.key = none ∧ table.insert entry = (none, table)) ∨
      (table.find entry.key = none ∧ (table.insert entry).1.isSome ∧
        ∀ k, (table.insert entry).2.find k = if entry.key = k then some entry else table.find k) := by
  simp only [insert]
  split
  next id present =>
    left
    obtain ⟨row, -, -, found, -⟩ := table.distinct.findIdx_some present
    exact ⟨Option.isSome_iff_exists.mpr ⟨row, found⟩, rfl, rfl⟩
  next absent =>
  have absent := findIdx_none.mp absent
  right
  split
  · exact .inl ⟨absent, rfl⟩
  next filled => exact .inr ⟨absent, rfl, find_fill filled⟩

/-- Taking a key's row leaves every other row. -/
theorem take_spec (table : ExchangeTable maxLen) (key : ExchangeKey maxLen) :
    (table.take key).1 = table.find key ∧
      ∀ k, (table.take key).2.find k = if key = k then none else table.find k := by
  simp only [take]
  split
  next absent =>
    have absent := findIdx_none.mp absent
    refine ⟨absent.symm, fun k => ?_⟩
    split
    next here => rw [← here, find, absent]
    · rfl
  next id present =>
  obtain ⟨row, held, same, found, -⟩ := table.distinct.findIdx_some present
  have taken : table.occ.occupied[id]? = some true := by
    rw [table.occupied_eq, List.getElem?_map, held]
    rfl
  split
  next refused =>
    rw [release_unpinned table.unpinned taken] at refused
    cases refused
  · refine ⟨rfl, fun k => ?_⟩
    rw [find, table.distinct.find_clear held, same]
    rfl

/-- A row found by a test is the row of its own key. -/
theorem find_of_test {test : ExchangeEntry maxLen → Bool}
    (h : (table.entries.find? fun slot => slot.any test).join = some entry) :
    table.find entry.key = some entry ∧ test entry = true := by
  rw [Option.join_eq_some_iff] at h
  have passes := List.find?_some h
  exact ⟨table.distinct.find_eq_some_iff.mpr ⟨List.mem_of_find?_eq_some h, rfl⟩, passes⟩

theorem find_of_forTx {tx : Nat} (h : table.forTx tx = some entry) :
    table.find entry.key = some entry ∧ entry.txSlot = tx := by
  obtain ⟨found, passes⟩ := find_of_test h
  exact ⟨found, by simpa using passes⟩

theorem find_of_forMid {messageId : MessageId} {peer : Endpoint}
    (h : table.forMid messageId peer = some entry) :
    table.find entry.key = some entry ∧ entry.messageId = messageId ∧ entry.key.endpoint = peer := by
  obtain ⟨found, passes⟩ := find_of_test h
  exact ⟨found, by simpa using passes⟩

end ExchangeTable

end Coaptic.Pending
