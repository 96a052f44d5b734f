import Coaptic.Lib.Run
import Coaptic.Storage.Dedup

/-!
# The next deadline of a dedup table

The allocated table keeps a lower bound on the deadlines of its rows, so that an expiry pass may end
before it reads one. Rows that come lower the bound. Rows that go leave it too early, which costs
another walk. The clock may go either way.
-/
namespace Coaptic.Block

open Run List

variable {η ν : Type}

namespace DedupEntry

def isDue (row : DedupEntry η ν) (now : Nat) : Bool := row.dueMs != 0 && row.dueMs ≤ now

/-- Lower a deadline to that of the row. Zero is no deadline. -/
def note (row : DedupEntry η ν) (next : Nat) : Nat :=
  if row.dueMs ≠ 0 ∧ (next = 0 ∨ row.dueMs < next) then row.dueMs else next

def NotBefore (next : Nat) (row : DedupEntry η ν) : Prop :=
  row.dueMs ≠ 0 → next ≠ 0 ∧ next ≤ row.dueMs

variable {row other : DedupEntry η ν} {next : Nat}

theorem notBefore_note : NotBefore (row.note next) row := by
  intro lapses
  rw [note]
  split <;> omega

theorem NotBefore.note (h : NotBefore next other) : NotBefore (row.note next) other := by
  intro lapses
  have := h lapses
  rw [DedupEntry.note]
  split <;> omega

end DedupEntry

namespace DedupTable

variable [DecidableEq η]

/-- The walk of an App: a row whose time has come gives its datagram slot back and is removed by its
key. -/
def expireSlot (now : Nat) (s : List Nat × DedupTable η ν) (id : Nat) : List Nat × DedupTable η ν :=
  match s.2.entry id with
  | none => s
  | some row => if row.isDue now then (s.1 ++ row.txPin.toList, s.2.remove row.key) else s

def expireAll (table : DedupTable η ν) (now : Nat) : List Nat × DedupTable η ν :=
  (List.range table.entries.length).foldl (expireSlot now) ([], table)

/-- A row's slot can be released, and that is how the row is removed by its key. -/
theorem release_at {table : DedupTable η ν} {id : Nat} {row : DedupEntry η ν}
    (held : table.entries[id]? = some (some row)) :
    ∃ table', table.release id = .ok table' ∧ table'.entries = table.entries.set id none ∧
      table.remove row.key = table' := by
  obtain ⟨table', released, -⟩ := holds_release held
  refine ⟨table', released, ?_, ?_⟩
  · unfold release at released
    split at released
    · cases released
    · cases released
      rfl
  cases found : table.lookup row.key with
  | none => exact absurd rfl (lookup_eq_none found row ⟨id, held⟩)
  | some j =>
  obtain ⟨other, there, same⟩ := lookup_eq_some found
  rw [← table.unique there held same] at released
  simp only [remove, found, released]

end DedupTable

open DedupTable

/-- Dedup rows with the next deadline. -/
structure AllocDedupTable (η ν : Type) where
  table : DedupTable η ν
  nextDueMs : Nat

inductive DedupExpiry
  | skip
  | refresh
deriving DecidableEq

/-- Where an expiry pass is: datagram slots given back, the table, the rows to come and the next
deadline of those it has left. -/
structure ExpiryWalk (η ν : Type) where
  pins : List Nat
  table : DedupTable η ν
  remaining : Nat
  nextDueMs : Nat

def ExpiryWalk.slot (now : Nat) (w : ExpiryWalk η ν) (id : Nat) : ExpiryWalk η ν :=
  if w.remaining = 0 ∨ w.table.occ.isOccupied id = false then w
  else
  match w.table.entry id with
  | none => { w with remaining := w.remaining - 1 }
  | some row =>
  if row.isDue now then
    match w.table.release id with
    | .ok table => ⟨w.pins ++ row.txPin.toList, table, w.remaining - 1, w.nextDueMs⟩
    | .error _ => ⟨w.pins ++ row.txPin.toList, w.table, w.remaining - 1, row.note w.nextDueMs⟩
  else ⟨w.pins, w.table, w.remaining - 1, row.note w.nextDueMs⟩

def DedupTable.walk (table : DedupTable η ν) (now n : Nat) : ExpiryWalk η ν :=
  (List.range n).foldl (ExpiryWalk.slot now) ⟨[], table, table.occ.count, 0⟩

namespace AllocDedupTable

open DedupEntry (notBefore_note)
open DedupTable (expireSlot)

def new (n : Nat) : AllocDedupTable η ν := ⟨.new n, 0⟩

section

variable (c : AllocDedupTable η ν) (now : Nat)

def mayExpire : Bool := c.nextDueMs != 0 && c.nextDueMs ≤ now

def dedupExpiryCheck : DedupExpiry :=
  if c.mayExpire now then .refresh else .skip

def tryExpireDedup : List Nat × AllocDedupTable η ν :=
  if c.mayExpire now then
    let w := c.table.walk now c.table.entries.length
    (w.pins, ⟨w.table, w.nextDueMs⟩)
  else ([], c)

end

variable [DecidableEq η]

def insert (c : AllocDedupTable η ν) (row : DedupEntry η ν) : AllocDedupTable η ν :=
  if (c.table.lookup row.key).isSome then c
  else
  match c.table.insert row with
  | none => c
  | some (_, table) => ⟨table, row.note c.nextDueMs⟩

def tryStoreAppDedup (c : AllocDedupTable η ν) (row : DedupEntry η ν) : AllocDedupTable η ν :=
  let (stored, _, table) := c.table.tryStoreApp row
  ⟨table, if stored then row.note c.nextDueMs else c.nextDueMs⟩

/-- Calls on the table. A row that is evicted is removed by its key. -/
inductive Call (η ν : Type)
  | insert (row : DedupEntry η ν)
  | store (row : DedupEntry η ν)
  | remove (key : DedupKey η)
  | expire (now : Nat)

def step (c : AllocDedupTable η ν) : Call η ν → AllocDedupTable η ν
  | .insert row => c.insert row
  | .store row => c.tryStoreAppDedup row
  | .remove key => { c with table := c.table.remove key }
  | .expire now => (c.tryExpireDedup now).2

/-! ### One pass -/

/-- After `n` slots the pass agrees with the App's walk, and its deadline is right for the rows that
it has left in them. -/
structure Walked (table : DedupTable η ν) (now n : Nat) (w : ExpiryWalk η ν) : Prop where
  same : (w.pins, w.table) = (List.range n).foldl (expireSlot now) ([], table)
  ahead : ∀ j, n ≤ j → w.table.entries[j]? = table.entries[j]?
  remaining : w.remaining = ((table.entries.drop n).map Option.isSome).count true
  left : ∀ (j : Nat) row, j < n → w.table.entries[j]? = some (some row) → row.NotBefore w.nextDueMs

theorem walked (table : DedupTable η ν) (now n : Nat) (inside : n ≤ table.entries.length) :
    Walked table now n (table.walk now n) := by
  induction n with
  | zero =>
    refine ⟨rfl, fun _ _ => rfl, ?_, nofun⟩
    rw [drop_zero, ← table.occupied_eq]
    exact table.sound.counted
  | succ n ih =>
  obtain ⟨same, ahead, remaining, left⟩ := ih (by omega)
  rw [walk, range_succ, foldl_append, ← walk]
  generalize table.walk now n = w at same ahead remaining left
  have here := ahead n (Nat.le_refl n)
  rw [getElem?_eq_getElem inside] at here
  rw [drop_eq_getElem_cons inside, map_cons] at remaining
  have taken : w.table.occ.isOccupied n = (table.entries[n]).isSome := by
    rw [Occupancy.isOccupied, w.table.occupied_eq, getElem?_map, here]
    rfl
  have walk : (range (n + 1)).foldl (expireSlot now) ([], table) =
      expireSlot now (w.pins, w.table) n := by
    rw [range_succ, foldl_append, ← same]
    rfl
  have later (j : Nat) (le : n + 1 ≤ j) := ahead j (by omega)
  generalize table.entries[n] = slot at here remaining taken
  simp only [foldl_cons, foldl_nil, ExpiryWalk.slot]
  cases slot with
  | none =>
    -- a free slot: the pass and the walk go on
    rw [if_pos (.inr taken)]
    refine ⟨?_, later, by simpa using remaining, ?_⟩
    · rw [walk, expireSlot, entry, here]
      rfl
    intro j row below at_
    obtain rfl | below := Nat.lt_succ_iff_lt_or_eq.mp below |>.symm
    · rw [here] at at_
      cases at_
    · exact left j row below at_
  | some row =>
  simp only [Option.isSome_some, count_cons_self] at remaining
  rw [if_neg (by simp [taken, remaining])]
  have entry : w.table.entry n = some row := by rw [entry, here]; rfl
  simp only [entry]
  split
  next due =>
    obtain ⟨after, released, entries, removed⟩ := release_at here
    simp only [released]
    refine ⟨?_, ?_, by simp only [remaining, Nat.add_sub_cancel], ?_⟩
    · simp only [walk, expireSlot, entry, if_pos due, removed]
    · intro j le
      rw [entries, getElem?_set_ne (by omega)]
      exact later j le
    intro j other below at_
    rw [entries, getElem?_set] at at_
    split at at_
    · simp at at_
    next ne => exact left j other (by omega) at_
  next early =>
    refine ⟨?_, later, by simp only [remaining, Nat.add_sub_cancel], ?_⟩
    · simp only [walk, expireSlot, entry, if_neg early]
    intro j other below at_
    by_cases last : j = n
    · subst last
      rw [here] at at_
      cases at_
      exact notBefore_note
    · exact (left j other (by omega) at_).note

/-! ### Runs -/

def Bounded (c : AllocDedupTable η ν) : Prop := ∀ row, c.table.Holds row → row.NotBefore c.nextDueMs

variable {c : AllocDedupTable η ν} {row : DedupEntry η ν} {now : Nat}

theorem bounded_step (bounded : c.Bounded) (call : Call η ν) : (c.step call).Bounded := by
  cases call with
  | insert row =>
    simp only [step, insert]
    split
    · exact bounded
    split
    · exact bounded
    next inserted =>
    intro other held
    obtain rfl | old := holds_of_insert inserted held
    · exact notBefore_note
    · exact (bounded other old).note
  | store row =>
    intro other held
    obtain ⟨_, -, -, rows⟩ := tryStoreApp_rows (Eq.refl (c.table.tryStoreApp row))
    simp only [step, tryStoreAppDedup] at held ⊢
    obtain ⟨rfl, stored⟩ | ⟨old, -⟩ := rows other held
    · rw [show (c.table.tryStoreApp other).1 = true from stored, if_pos rfl]
      exact notBefore_note
    split
    · exact (bounded other old).note
    · exact bounded other old
  | remove key => exact fun other held => bounded other ((holds_remove ..).mp held).2
  | expire now =>
  simp only [step, tryExpireDedup]
  split
  · rintro other ⟨j, at_⟩
    have walked := walked c.table now _ (Nat.le_refl _)
    rcases Nat.lt_or_ge j c.table.entries.length with inside | past
    · exact walked.left j other inside at_
    · rw [walked.ahead j past, getElem?_eq_none past] at at_
      cases at_
  · exact bounded

omit [DecidableEq η] in
theorem Bounded.not_due (bounded : c.Bounded) (idle : ¬c.mayExpire now = true)
    (held : c.table.Holds row) : row.isDue now = false := by
  have := bounded row held
  simp only [mayExpire, DedupEntry.isDue, DedupEntry.NotBefore, Bool.and_eq_true, bne_iff_ne,
    decide_eq_true_eq, Bool.and_eq_false_iff, decide_eq_false_iff_not] at *
  by_cases lapses : row.dueMs = 0
  · simp [lapses]
  · right
    omega

theorem Bounded.expire_eq (bounded : c.Bounded) (now : Nat) :
    ((c.tryExpireDedup now).1, (c.tryExpireDedup now).2.table) = c.table.expireAll now := by
  simp only [tryExpireDedup]
  split
  · exact (walked c.table now _ (Nat.le_refl _)).same
  next idle =>
  -- no row is due, so the walk does nothing
  have still (ids : List Nat) : ids.foldl (expireSlot now) ([], c.table) = ([], c.table) := by
    induction ids with
    | nil => rfl
    | cons id ids ih =>
    have unmoved : expireSlot now ([], c.table) id = ([], c.table) := by
      simp only [expireSlot]
      split
      · rfl
      next row held =>
      rw [bounded.not_due idle ⟨id, Option.join_eq_some_iff.mp held⟩]
      rfl
    rw [foldl_cons, unmoved, ih]
  exact (still _).symm

/-- The next deadline is none or a lower bound. What it says can be skipped has no row that is due, and
a pass with it removes the rows and gives back the datagram slots that a walk over all rows does. -/
theorem deadline_sound (n : Nat) (calls : List (Call η ν)) (now : Nat) :
    let c := run step (new n) calls
    (c.nextDueMs = 0 ∨ ∀ row, c.table.Holds row → row.dueMs ≠ 0 → c.nextDueMs ≤ row.dueMs) ∧
      (c.dedupExpiryCheck now = .skip → ∀ row, c.table.Holds row → row.isDue now = false) ∧
      ((c.tryExpireDedup now).1, (c.tryExpireDedup now).2.table) = c.table.expireAll now := by
  intro c
  have start : (new n : AllocDedupTable η ν).Bounded := by
    rintro row ⟨j, at_⟩
    simp [new, DedupTable.new, List.getElem?_replicate] at at_
  have bounded : c.Bounded :=
    invariant_run (P := Bounded) (fun _ call bounded => bounded_step bounded call) start calls
  refine ⟨.inr fun row held lapses => (bounded row held lapses).2, ?_, bounded.expire_eq now⟩
  intro skip row held
  refine bounded.not_due ?_ held
  intro expires
  simp [dedupExpiryCheck, expires] at skip

end AllocDedupTable

end Coaptic.Block
