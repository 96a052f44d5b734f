import Coaptic.Storage.Dedup

/-!
# Two ways to store a row

An App stores the row of an answered request by calls on its storage: it releases the row of that
key, inserts the new one and, when the table is full, gives up the row that lapses first and inserts
again. Both backends do the same in one walk over their table. The fixed table may have been given
several rows of one key, so nothing is assumed of its keys; those of the allocated one are unique.
In either a slot may have been taken and no row written to it.
-/
namespace Coaptic.Block

open Option List Occupancy

variable {η ν : Type}

/-- The slots of a dedup table with whatever rows were written to them. -/
structure DedupRows (η ν : Type) where
  entries : List (Option (DedupEntry η ν))
  occ : Occupancy
deriving DecidableEq

/-- Whether the row is stored, the datagram slots that were given back, and the table. -/
abbrev StoreOutcome (η ν : Type) := Bool × List Nat × DedupRows η ν

def DedupTable.rows (table : DedupTable η ν) : DedupRows η ν := ⟨table.entries, table.occ⟩

namespace DedupRows

/-- What the calls on a table leave of its flags; rows are never pinned. -/
structure WellFormed (t : DedupRows η ν) : Prop where
  sound : t.occ.Sound
  unpinned : t.occ.pinned = []

section

variable (t : DedupRows η ν)

def slotCount : Nat := t.occ.occupied.length

def entryRef (id : Nat) : Option (DedupEntry η ν) :=
  if t.occ.isOccupied id then t.entries[id]?.join else none

def release (t : DedupRows η ν) (id : Nat) : Except SlotError (DedupRows η ν) :=
  (t.occ.release id).map fun occ => ⟨t.entries.set id none, occ⟩

def fill (entry : DedupEntry η ν) : Option (DedupRows η ν) :=
  t.occ.acquire.map fun (id, occ) => ⟨t.entries.set id (some entry), occ⟩

def settle (pins : List Nat) (t : DedupRows η ν) (stored : Option (DedupRows η ν)) : StoreOutcome η ν :=
  (stored.isSome, pins, stored.getD t)

def place (entry : DedupEntry η ν) (pins : List Nat) : Option (Nat × Nat) → StoreOutcome η ν
  | none => settle pins t (t.fill entry)
  | some (victim, _) =>
    match t.fill entry with
    | some t => (true, pins, t)
    | none =>
      let rest := (t.release victim).toOption.getD t
      settle (pins ++ ((t.entryRef victim).bind (·.txPin)).toList) rest (rest.fill entry)

end

/-! ### Rows and slots -/

variable {t t' : DedupRows η ν} {id : Nat} {row : DedupEntry η ν} {key : DedupKey η}

theorem occupied_of_entryRef (held : t.entryRef id = some row) : t.occ.occupied[id]? = some true := by
  rw [entryRef, isOccupied] at held
  cases flag : t.occ.occupied[id]? with
  | none => simp [flag] at held
  | some taken => cases taken <;> simp [flag] at held ⊢

theorem entryRef_release (released : t.release id = .ok t') (j : Nat) :
    t'.entryRef j = if j = id then none else t.entryRef j := by
  cases freed : t.occ.release id with
  | error e => simp [release, freed, Except.map] at released
  | ok occ =>
  simp only [release, freed, Except.map, Except.ok.injEq] at released
  obtain ⟨taken, rfl⟩ := release_ok freed
  subst released
  by_cases here : j = id
  · have inside := (List.getElem?_eq_some_iff.mp taken).1
    simp [entryRef, isOccupied, here, inside]
  rw [if_neg here]
  simp only [entryRef, isOccupied, getElem?_set_ne (Ne.symm here)]
  rfl

/-- A slot with a row can be released, and then there is room. -/
theorem release_of_held (wf : t.WellFormed) (held : t.entryRef id = some row)
    (entry : DedupEntry η ν) : ∃ t', t.release id = .ok t' ∧ ∃ stored, t'.fill entry = some stored := by
  have taken := occupied_of_entryRef held
  have freed := release_unpinned wf.unpinned taken
  obtain ⟨next, occ, acquired⟩ := (wf.sound.release freed).acquire_isSome
    (by rw [length_set]; exact wf.sound.room_of_release freed)
  exact ⟨_, by rw [release, freed]; rfl, _, by rw [fill, acquired]; rfl⟩

/-! ### Calls -/

variable [DecidableEq η]

section

variable (t : DedupRows η ν)

def lookup (key : DedupKey η) : Option Nat :=
  (List.range t.slotCount).find? fun id => (t.entryRef id).any (·.key == key)

def remove (key : DedupKey η) : DedupRows η ν :=
  match t.lookup key with
  | none => t
  | some id => (t.release id).toOption.getD t

section

variable (entry : DedupEntry η ν)

def insert : Option (DedupRows η ν) :=
  if (t.lookup entry.key).isSome then some t else t.fill entry

/-! ### The calls of an App -/

def releaseExistingDedup (key : DedupKey η) : List Nat × DedupRows η ν :=
  match t.lookup key with
  | none => ([], t)
  | some id =>
  match t.entryRef id with
  | some old => (old.txPin.toList, t.remove old.key)
  | none => ([], t.remove key)

def oldest : Option (DedupEntry η ν) :=
  (List.range t.slotCount).foldl (fun best id => DedupTable.older best (t.entryRef id)) none

def storeRequestDedup : StoreOutcome η ν :=
  let (pins, t) := t.releaseExistingDedup entry.key
  match t.insert entry with
  | some t => (true, pins, t)
  | none =>
  match t.oldest with
  | none => (false, pins, t)
  | some old =>
    let rest := t.remove old.key
    settle (pins ++ old.txPin.toList) rest (rest.insert entry)

/-! ### One walk -/

/-- The first row of the key, and until then the first of the rows that lapse before the others, with
its time. -/
def scan (t : DedupRows η ν) (key : DedupKey η) :
    List Nat → Option (Nat × Nat) → Option Nat × Option (Nat × Nat)
  | [], oldest => (none, oldest)
  | id :: ids, oldest =>
    match t.entryRef id with
    | none => scan t key ids oldest
    | some row =>
    if row.key = key then (some id, oldest)
    else scan t key ids
      (if row.dueMs ≠ 0 ∧ oldest.all (row.dueMs < ·.2) then some (id, row.dueMs) else oldest)

/-- The walk of the fixed table. It removes rows by their key, so that an earlier row of the same key
may go in place of the one that was selected. -/
def tryStoreApp : StoreOutcome η ν :=
  match t.scan entry.key (List.range t.slotCount) none with
  | (some id, _) =>
    match t.entryRef id with
    | none => (false, [], t) -- the walk has read the row
    | some old => settle old.txPin.toList (t.remove old.key) ((t.remove old.key).insert entry)
  | (none, oldest) =>
    match t.fill entry with
    | some t => (true, [], t)
    | none =>
      match oldest.bind fun (victim, _) => t.entryRef victim with
      | none => (false, [], t)
      | some old => settle old.txPin.toList (t.remove old.key) ((t.remove old.key).fill entry)

/-- The walk of the allocated table. It releases slots by their number. -/
def tryStoreAppDedup : StoreOutcome η ν :=
  match t.scan entry.key (List.range t.slotCount) none with
  | (some id, oldest) =>
    let pins := ((t.entryRef id).bind (·.txPin)).toList
    match t.release id with
    | .error _ => (true, pins, t)
    | .ok t => t.place entry pins oldest
  | (none, oldest) => t.place entry [] oldest

end

end

theorem lookup_eq_some (found : t.lookup key = some id) :
    ∃ old, t.entryRef id = some old ∧ old.key = key := by
  have test := find?_some found
  obtain ⟨old, held, isKey⟩ := (any_eq_true _ _).mp test
  exact ⟨old, held, by simpa using isKey⟩

theorem lookup_eq_none_iff :
    t.lookup key = none ↔ ∀ id row, t.entryRef id = some row → row.key ≠ key := by
  rw [lookup, find?_eq_none]
  constructor
  · intro absent id row held same
    obtain ⟨inside, -⟩ := List.getElem?_eq_some_iff.mp (occupied_of_entryRef held)
    exact absent id (List.mem_range.mpr inside) (by simp [held, same])
  intro absent id _ found
  obtain ⟨row, held, same⟩ := (any_eq_true _ _).mp found
  exact absent id row held (by simpa using same)

theorem remove_of_lookup (found : t.lookup key = some id) (released : t.release id = .ok t') :
    t.remove key = t' := by
  simp only [remove, found, released, Except.toOption, getD_some]

/-- A key that has no row gets none by removing another one. -/
theorem lookup_remove (absent : t.lookup key = none) (other : DedupKey η) :
    (t.remove other).lookup key = none := by
  rw [remove]
  cases t.lookup other with
  | none => exact absent
  | some id =>
  simp only
  cases released : t.release id with
  | error e => exact absent
  | ok t' =>
  refine lookup_eq_none_iff.mpr fun j row held => ?_
  rw [Except.toOption, getD_some, entryRef_release released] at held
  split at held
  · cases held
  · exact lookup_eq_none_iff.mp absent j row held

/-! ### The walk -/

theorem scan_fst (ids : List Nat) (oldest : Option (Nat × Nat)) :
    (t.scan key ids oldest).1 = ids.find? fun id => (t.entryRef id).any (·.key == key) := by
  induction ids generalizing oldest with
  | nil => rfl
  | cons id ids ih =>
  rw [scan, find?_cons]
  cases t.entryRef id with
  | none => exact ih oldest
  | some row =>
  by_cases same : row.key = key
  · simp [same]
  · simp [same, beq_false_of_ne same, ih]

/-- The slot that the walk remembers holds the row that the App would give up. -/
def Remembers (t : DedupRows η ν) (oldest : Option (Nat × Nat)) (best : Option (DedupEntry η ν)) :
    Prop :=
  oldest.bind (fun (id, _) => t.entryRef id) = best ∧ oldest.map (·.2) = best.map (·.dueMs)

theorem scan_snd {ids : List Nat} {oldest : Option (Nat × Nat)} {best : Option (DedupEntry η ν)}
    (absent : ids.find? (fun id => (t.entryRef id).any (·.key == key)) = none)
    (remembers : t.Remembers oldest best) : t.Remembers (t.scan key ids oldest).2
      (ids.foldl (fun best id => DedupTable.older best (t.entryRef id)) best) := by
  -- the walk and the fold read the same slots; what each has kept so far is related
  induction ids generalizing oldest best with
  | nil => exact remembers
  | cons id ids ih =>
  rw [find?_eq_none, forall_mem_cons, ← find?_eq_none] at absent
  rw [scan, foldl_cons]
  cases held : t.entryRef id with
  | none => exact ih absent.2 remembers
  | some row =>
  have other : row.key ≠ key := by simpa [held] using absent.1
  -- ties are broken alike: both compare with the time that was kept
  have same : oldest.all (row.dueMs < ·.2) = best.all (row.dueMs < ·.dueMs) := by
    have times := remembers.2
    cases oldest <;> cases best <;> simp_all
  simp only [if_neg other]
  apply ih absent.2
  rw [DedupTable.older, same]
  split
  · exact ⟨held, rfl⟩
  · exact remembers

theorem walk_of_some (found : t.lookup key = some id) :
    ∃ oldest, t.scan key (List.range t.slotCount) none = (some id, oldest) :=
  ⟨_, Prod.ext ((scan_fst ..).trans found) rfl⟩

theorem walk_of_none (absent : t.lookup key = none) :
    ∃ oldest, t.scan key (List.range t.slotCount) none = (none, oldest) ∧
      t.Remembers oldest t.oldest :=
  ⟨_, Prod.ext ((scan_fst ..).trans absent) rfl, scan_snd absent ⟨rfl, rfl⟩⟩

theorem tryStoreApp_eq (wf : t.WellFormed) (entry : DedupEntry η ν) :
    t.tryStoreApp entry = t.storeRequestDedup entry := by
  simp only [tryStoreApp, storeRequestDedup, releaseExistingDedup]
  cases found : t.lookup entry.key with
  | some id =>
    obtain ⟨old, held, isKey⟩ := lookup_eq_some found
    obtain ⟨t', released, stored, filled⟩ := release_of_held wf held entry
    -- with the row gone the new one has its slot, unless there is another row of its key
    have inserted : ((t.remove old.key).insert entry).isSome := by
      rw [isKey, remove_of_lookup found released, insert]
      split
      · rfl
      · exact isSome_iff_exists.mpr ⟨_, filled⟩
    obtain ⟨after, inserted⟩ := isSome_iff_exists.mp inserted
    obtain ⟨oldest, walked⟩ := walk_of_some found
    simp only [walked, held, inserted, settle, isSome_some, getD_some]
  | none =>
  obtain ⟨oldest, walked, isOldest, -⟩ := walk_of_none found
  simp only [walked, insert, found, isSome_none, Bool.false_eq_true, if_false, isOldest]
  cases t.fill entry with
  | some after => rfl
  | none =>
  cases t.oldest with
  | none => rfl
  | some old => simp [lookup_remove found]

def Unique (t : DedupRows η ν) : Prop :=
  ∀ i j a b, t.entryRef i = some a → t.entryRef j = some b → a.key = b.key → i = j

theorem Unique.lookup (unique : t.Unique) (held : t.entryRef id = some row) :
    t.lookup row.key = some id := by
  cases found : t.lookup row.key with
  | none => exact absurd rfl (lookup_eq_none_iff.mp found id row held)
  | some j =>
    obtain ⟨other, held', same⟩ := lookup_eq_some found
    rw [unique j id other row held' held same]

theorem tryStoreAppDedup_eq (wf : t.WellFormed) (unique : t.Unique) (entry : DedupEntry η ν) :
    t.tryStoreAppDedup entry = t.storeRequestDedup entry := by
  simp only [tryStoreAppDedup, storeRequestDedup, releaseExistingDedup]
  cases found : t.lookup entry.key with
  | some id =>
    obtain ⟨old, held, isKey⟩ := lookup_eq_some found
    obtain ⟨t', released, stored, filled⟩ := release_of_held wf held entry
    -- keys are unique, so the slot that is released held the only row of the key
    have absent : t'.lookup entry.key = none := by
      refine lookup_eq_none_iff.mpr fun j other held' same => ?_
      rw [entryRef_release released] at held'
      split at held'
      · cases held'
      next elsewhere => exact elsewhere (unique j id other old held' held (same.trans isKey.symm))
    obtain ⟨oldest, walked⟩ := walk_of_some found
    simp only [walked, held, released, isKey, remove_of_lookup found released, insert, absent, filled]
    cases oldest <;> simp [place, filled, settle]
  | none =>
  obtain ⟨oldest, walked, isOldest, times⟩ := walk_of_none found
  simp only [walked, insert, found, isSome_none, Bool.false_eq_true, if_false]
  cases oldest with
  | none =>
    rw [← isOldest]
    cases filled : t.fill entry <;> simp [place, filled, settle]
  | some victim =>
  cases best : t.oldest with
  | none => simp [best] at times
  | some old =>
  -- releasing the victim's slot is removing its key
  have held : t.entryRef victim.1 = some old := isOldest.trans best
  obtain ⟨t', released, -⟩ := release_of_held wf held entry
  have removed := remove_of_lookup (unique.lookup held) released
  simp only [place, held, released, removed]
  cases filled : t.fill entry with
  | some after => rfl
  | none => simp [Except.toOption, removed ▸ lookup_remove found old.key]

end DedupRows

/-! ### A table whose slots hold their rows -/

namespace DedupTable

variable (table : DedupTable η ν) (row : DedupEntry η ν) (id : Nat)

/-- A slot is taken exactly if it has a row. -/
theorem rows_entryRef : table.rows.entryRef id = table.entry id := by
  have flag : table.occ.isOccupied id = (table.entry id).isSome := by
    rw [isOccupied, table.occupied_eq, getElem?_map, entry]
    cases table.entries[id]? <;> rfl
  rw [DedupRows.entryRef, rows, flag, entry]
  cases table.entries[id]?.join <;> rfl

theorem rows_release : table.rows.release id = (table.release id).map rows := by
  unfold release
  split
  next refused => simp [DedupRows.release, rows, refused, Except.map]
  next released => simp [DedupRows.release, rows, released, Except.map]

theorem rows_fill (fresh : ∀ old, table.Holds old → old.key ≠ row.key) :
    table.rows.fill row = (table.fill row fresh).map (·.2.rows) := by
  unfold fill
  split
  next refused => simp [DedupRows.fill, rows, refused]
  next acquired => simp [DedupRows.fill, rows, acquired]

theorem rows_oldest : table.rows.oldest = table.oldest := by
  have rows : table.entries = (List.range table.entries.length).map table.entry := by
    refine List.ext_getElem (by simp) fun i inside _ => ?_
    simp [entry, getElem?_eq_getElem inside]
  have slots : table.rows.slotCount = table.entries.length := by
    rw [DedupRows.slotCount, DedupTable.rows, table.occupied_eq, length_map]
  rw [oldest, rows, foldl_map, DedupRows.oldest, slots]
  simp only [rows_entryRef]

theorem unique_rows : table.rows.Unique := by
  intro i j a b held held' same
  rw [rows_entryRef] at held held'
  exact table.unique (join_eq_some_iff.mp held) (join_eq_some_iff.mp held') same

variable [DecidableEq η] (key : DedupKey η)

theorem rows_lookup : table.rows.lookup key = table.lookup key := by
  cases found : table.lookup key with
  | some id =>
    obtain ⟨old, at_id, rfl⟩ := lookup_eq_some found
    exact table.unique_rows.lookup (by rw [rows_entryRef, entry, at_id, join_some])
  | none =>
    refine DedupRows.lookup_eq_none_iff.mpr fun id old held => ?_
    rw [rows_entryRef] at held
    exact lookup_eq_none found old ⟨id, join_eq_some_iff.mp held⟩

theorem rows_remove : table.rows.remove key = (table.remove key).rows := by
  rw [DedupRows.remove, remove, rows_lookup]
  cases table.lookup key with
  | none => rfl
  | some id =>
    simp only [rows_release]
    cases table.release id <;> rfl

theorem rows_insert : table.rows.insert row = (table.insert row).map (·.2.rows) := by
  unfold insert
  split
  next found => simp [DedupRows.insert, rows_lookup, found]
  next absent =>
    simp [DedupRows.insert, rows_lookup, absent, table.rows_fill row (lookup_eq_none absent)]

/-- The walk over the rows of a table is the table's own. -/
theorem rows_tryStoreApp {table table' : DedupTable η ν} {stored : Bool} {pin : Option Nat}
    (h : table.tryStoreApp row = (stored, pin, table')) :
    table.rows.tryStoreApp row = (stored, pin.toList, table'.rows) := by
  unfold tryStoreApp at h
  split at h
  next old found =>
    obtain ⟨id, at_id, held⟩ := Option.bind_eq_some_iff.mp found
    obtain ⟨oldest, walked⟩ := DedupRows.walk_of_some ((table.rows_lookup row.key).trans at_id)
    simp only [DedupRows.tryStoreApp, walked, rows_entryRef, held, rows_remove, rows_insert]
    split at h <;> cases h <;> simp [DedupRows.settle, *]
  next absent =>
  have missing : table.rows.lookup row.key = none := by
    refine DedupRows.lookup_eq_none_iff.mpr fun id old held => ?_
    rw [rows_entryRef] at held
    exact find_eq_none.mp absent old ⟨id, join_eq_some_iff.mp held⟩
  obtain ⟨oldest, walked, isOldest, -⟩ := DedupRows.walk_of_none missing
  simp only [DedupRows.tryStoreApp, walked, isOldest, rows_oldest, rows_remove,
    table.rows_fill row (find_eq_none.mp absent)]
  split at h
  next filled =>
    cases h
    simp [filled]
  next full =>
  simp only [full, Option.map_none]
  split at h
  next none =>
    cases h
    simp [none]
  next old isOld =>
  -- The key has no row here either, so that an insertion fills a slot.
  have inserts : (table.remove old.key).rows.fill row = (table.remove old.key).rows.insert row := by
    have still := DedupRows.lookup_remove missing old.key
    rw [rows_remove] at still
    rw [DedupRows.insert, still, isSome_none, if_neg Bool.false_ne_true]
  simp only [isOld, inserts, rows_insert]
  split at h <;> cases h <;> simp [DedupRows.settle, *]

end DedupTable

namespace DedupRows

variable [DecidableEq η]

/-- Each backend ends with the rows, slots, cursor and result of the App's own calls, and gives back
the same datagram slots. Where each slot that is taken has its row, both are the table's own walk. -/
theorem store_paths_agree {t : DedupRows η ν} (wf : t.WellFormed) (entry : DedupEntry η ν) :
    t.tryStoreApp entry = t.storeRequestDedup entry ∧
      (t.Unique → t.tryStoreAppDedup entry = t.storeRequestDedup entry) ∧
      ∀ table : DedupTable η ν, table.rows = t → t.storeRequestDedup entry =
        ((table.tryStoreApp entry).1, (table.tryStoreApp entry).2.1.toList,
          (table.tryStoreApp entry).2.2.rows) := by
  refine ⟨tryStoreApp_eq wf entry, fun unique => tryStoreAppDedup_eq wf unique entry, ?_⟩
  rintro table rfl
  rw [← tryStoreApp_eq wf]
  exact DedupTable.rows_tryStoreApp entry rfl

/-- Two rows of one key, the later of which lapses first. -/
def twins : DedupRows Nat Unit :=
  ⟨[some ⟨⟨1, 9⟩, 20, none, some 4⟩, some ⟨⟨1, 9⟩, 10, none, some 5⟩], ⟨[true, true], [], 1, 2⟩⟩

/-- A full table with a slot that was taken and never written to. -/
def unwritten : DedupRows Nat Unit :=
  ⟨[none, some ⟨⟨1, 9⟩, 10, none, some 5⟩], ⟨[true, true], [], 0, 2⟩⟩

def incoming : DedupEntry Nat Unit := ⟨⟨2, 9⟩, 30, none, some 6⟩

/-- Of two rows of one key, the second one's datagram slot is given back and the first one is removed,
on either way. A slot without a row is left alone by the allocated table and by the App. -/
theorem store_paths_agree_twins :
    (twins.tryStoreApp incoming = (true, [5],
      ⟨[some incoming, some ⟨⟨1, 9⟩, 10, none, some 5⟩], ⟨[true, true], [], 1, 2⟩⟩) ∧
    twins.tryStoreApp incoming = twins.storeRequestDedup incoming) ∧
    unwritten.tryStoreAppDedup incoming = (true, [5],
      ⟨[none, some incoming], ⟨[true, true], [], 0, 2⟩⟩) ∧
    unwritten.tryStoreAppDedup incoming = unwritten.storeRequestDedup incoming := by
  have unique : unwritten.Unique := by
    have second : ∀ i a, unwritten.entryRef i = some a → i = 1
      | 0, _, held => by cases held
      | 1, _, _ => rfl
      | i + 2, _, held => by cases held
    intro i j a b held held' _
    rw [second i a held, second j b held']
  exact ⟨⟨by decide, (store_paths_agree ⟨⟨by decide, by decide⟩, rfl⟩ _).1⟩, by decide,
    (store_paths_agree ⟨⟨by decide, by decide⟩, rfl⟩ _).2.1 unique⟩

end DedupRows

end Coaptic.Block
