import Coaptic.Message.Values
import Coaptic.Storage.Pending

/-!
# Observe interests

A row of the Observe table is one relation: whose it is, whether a notification is due, and what
holds back the next one. A sent notification holds its row, a Confirmable one until it is
acknowledged or given up, a Non-confirmable one for a fixed time.

The binding of the registration (its OSCORE request and the options that select the
representation) is a parameter `ρ`: storage copies and compares it and reads nothing in it.
-/
namespace Coaptic.Observe

open Codec Block Pending

/-- Token and peer of a relation, and which side of it this endpoint is. -/
structure ObserveKey (maxLen : Nat) where
  token : OwnedToken maxLen
  endpoint : Endpoint
  client : Bool
deriving DecidableEq

/-! ### Deadlines and holds -/

/-- Freshness of the representation, or a Confirmable notification that waits for its ACK. -/
inductive ObserveLifetime
  | maxAge (dueMs : Nat)
  | unacked (dueMs : Nat) (messageId : MessageId)
deriving DecidableEq

/-- The notification a row waits for. -/
inductive ObserveNotifyHold
  | non (untilMs : Nat) (messageId : MessageId)
  | con (messageId : MessageId)
deriving DecidableEq

namespace ObserveNotifyHold

def conMid : ObserveNotifyHold → Option MessageId
  | non _ _ => none
  | con messageId => some messageId

end ObserveNotifyHold

/-! ### Rows -/

/-- Occupied row. `responsePolicy` packs the negotiated block size, the Q-Block2 choice, the error
bits of No-Response and whether the Content-Format is still unbound. Of `superseded` only the
first `supersededLen` Message IDs count. -/
structure ObserveInterest (maxLen : Nat) (ρ : Type) where
  key : ObserveKey maxLen
  resource : Nat
  contentFormat : Option Nat
  responsePolicy : UInt8
  seq : Nat
  pending : Bool
  deleted : Bool
  lifetime : Option ObserveLifetime
  confirmDueMs : Option Nat
  notifyHold : Option ObserveNotifyHold
  superseded : List MessageId
  supersededLen : Nat
  binding : ρ
deriving DecidableEq

namespace ObserveInterest

variable {maxLen : Nat} {ρ : Type}

def new (token : OwnedToken maxLen) (endpoint : Endpoint) (binding : ρ) :
    ObserveInterest maxLen ρ where
  key := ⟨token, endpoint, false⟩
  resource := 0
  contentFormat := none
  responsePolicy := 0
  seq := 0
  pending := false
  deleted := false
  lifetime := none
  confirmDueMs := none
  notifyHold := none
  superseded := List.replicate maxRetransmit 0
  supersededLen := 0
  binding

section

variable (row : ObserveInterest maxLen ρ)

section

variable (nowMs : Nat)

def holdMid : Option MessageId := row.notifyHold.bind (·.conMid)

def markDue : ObserveInterest maxLen ρ :=
  if row.key.client then row else { row with pending := true }

end

end

end ObserveInterest

/-! ### The table -/

/-- Rows and the flags that hand out their places. -/
structure ObserveTable (maxLen : Nat) (ρ : Type) where
  entries : List (Option (ObserveInterest maxLen ρ))
  occ : Occupancy
  sized : entries.length = occ.occupied.length
deriving DecidableEq

namespace ObserveTable

variable {maxLen : Nat} {ρ : Type}

def new (n : Nat) : ObserveTable maxLen ρ :=
  ⟨List.replicate n none, .unpinned n, by simp [Occupancy.unpinned]⟩

section

variable (table : ObserveTable maxLen ρ)

def entry (id : Nat) : Option (ObserveInterest maxLen ρ) :=
  if table.occ.isOccupied id then table.entries[id]?.join else none

def search (test : ObserveInterest maxLen ρ → Bool) : Option Nat :=
  (List.range table.entries.length).find? fun id => (table.entry id).any test

def lookup (key : ObserveKey maxLen) : Option Nat :=
  table.search fun row => row.key = key

def write (id : Nat) (row : Option (ObserveInterest maxLen ρ)) : ObserveTable maxLen ρ :=
  { table with entries := table.entries.set id row
               sized := by rw [List.length_set, table.sized] }

def setEntry (id : Nat) (row : ObserveInterest maxLen ρ) :
    Except SlotError (ObserveTable maxLen ρ) :=
  if table.occ.isOccupied id then .ok (table.write id (some row))
  else .error (if id < table.entries.length then .notOccupied else .invalidSlot)

/-- Insert a row, unless its key has one: then that row's place is the outcome. -/
def insert (row : ObserveInterest maxLen ρ) : Option Nat × ObserveTable maxLen ρ :=
  match table.lookup row.key with
  | some id => (some id, table)
  | none =>
    match acquired : table.occ.acquire with
    | none => (none, table)
    | some (id, occ) =>
      have sized : table.entries.length = occ.occupied.length := by
        rw [(Occupancy.acquire_some acquired).2.2, List.length_set, table.sized]
      (some id, { table with occ, sized }.write id (some row))

end

/-! ### What a reader of the rows sees -/

variable {table : ObserveTable maxLen ρ} {id : Nat} {row : ObserveInterest maxLen ρ}

theorem isOccupied_of_entry (h : table.entry id = some row) : table.occ.isOccupied id = true := by
  by_contra free
  simp [entry, free] at h

/-- Writing an occupied place changes that row alone. -/
theorem entry_write (taken : table.occ.isOccupied id = true) (row : ObserveInterest maxLen ρ)
    (j : Nat) : (table.write id (some row)).entry j = if j = id then some row else table.entry j := by
  have inside : id < table.entries.length := by
    by_contra outside
    rw [Occupancy.isOccupied, List.getElem?_eq_none (by rw [← table.sized]; omega)] at taken
    cases taken
  simp only [entry, write, List.getElem?_set]
  by_cases here : j = id
  · subst here
    simp [taken, inside]
  · simp [here, Ne.symm here]

theorem setEntry_of_entry (h : table.entry id = some row) (replacement : ObserveInterest maxLen ρ) :
    table.setEntry id replacement = .ok (table.write id (some replacement)) := by
  rw [setEntry, if_pos (isOccupied_of_entry h)]

end ObserveTable

end Coaptic.Observe
