import Coaptic.Storage.Fairness

/-!
# Slot occupancy over whole histories

The search of the source looks at 32 flags at a time, in two ranges around the cursor. It stops
where a flag-by-flag search does. Whatever is called in whatever order, the count stays the number
of occupied slots, the cursor stays on the ring, and a pinned slot stays occupied.
-/
namespace Coaptic.Block.Occupancy

open Run List

/-! ### The search in chunks -/

/-- Scan of `k` whole chunks and the tail; `index` chunks lie in front. -/
def scanChunks (index : Nat) : Nat → List Bool → Option Nat
  | 0, tail => (firstFree tail).map (index * 32 + ·)
  | k + 1, flags =>
    if flags.take 32 ≠ List.replicate 32 true then
      (firstFree (flags.take 32)).map (index * 32 + ·)
    else scanChunks (index + 1) k (flags.drop 32)

def firstFreeChunks (occupied : List Bool) : Option Nat :=
  if occupied.length < 32 then firstFree occupied
  else scanChunks 0 (occupied.length / 32) occupied

theorem scanChunks_eq (index k : Nat) (flags : List Bool) (whole : 32 * k ≤ flags.length) :
    scanChunks index k flags = (firstFree flags).map (index * 32 + ·) := by
  induction k generalizing index flags with
  | zero => rfl
  | succ k ih =>
  have parts : firstFree flags = (firstFree (flags.take 32)).or
      ((firstFree (flags.drop 32)).map (· + 32)) := by
    conv_lhs => rw [← take_append_drop 32 flags, firstFree, findIdx?_append]
    rw [length_take_of_le (by omega)]
    rfl
  rw [scanChunks, parts]
  split
  next open_ =>
    -- a chunk that is not full has a free slot
    have free : false ∈ flags.take 32 := by
      by_contra taken
      refine open_ (eq_replicate_iff.mpr ⟨length_take_of_le (by omega), ?_⟩)
      exact fun flag member => (true_eq_of_not_mem taken flag member).symm
    obtain ⟨offset, found⟩ := Option.isSome_iff_exists.mp (firstFree_isSome free)
    rw [found, Option.some_or]
  next full =>
  rw [not_not.mp full, ih _ _ (by rw [length_drop]; omega)]
  have none : firstFree (replicate 32 true) = none := by decide
  rw [none, Option.none_or, Option.map_map]
  congr 1
  funext offset
  simp only [Function.comp_apply]
  omega

theorem firstFreeChunks_eq (occupied : List Bool) : firstFreeChunks occupied = firstFree occupied := by
  rw [firstFreeChunks, scanChunks_eq 0 _ _ (by omega)]
  simp

section

variable (occ : Occupancy)

/-- The slot at the cursor, or the first free one behind it, or the first free one before it. -/
def searchChunks : Option Nat :=
  if occ.occupied[occ.cursor]? = some false then some occ.cursor
  else
    ((firstFreeChunks (occ.occupied.drop occ.cursor)).map (occ.cursor + ·)).or
      (firstFreeChunks (occ.occupied.take occ.cursor))

def acquireChunks : Option (Nat × Occupancy) :=
  if occ.count = occ.occupied.length ∨ occ.occupied.length = 0 then none
  else
  match occ.searchChunks with
  | none => none
  | some id =>
  some (id,
    { occupied := occ.occupied.set id true
      pinned := occ.pinned.set id false
      cursor := if id + 1 = occ.occupied.length then 0 else id + 1
      count := occ.count + 1 })

def tryPin (id : Nat) : Except SlotError Occupancy :=
  match occ.occupied[id]? with
  | none => .error .invalidSlot
  | some false => .error .notOccupied
  | some true =>
  match occ.pinned[id]? with
  | none => .error .invalidSlot
  | some true => .error .pinned
  | some false => .ok { occ with pinned := occ.pinned.set id true }

def unpin (id : Nat) : Except SlotError Occupancy :=
  if id < occ.pinned.length then .ok { occ with pinned := occ.pinned.set id false }
  else .error .invalidSlot

theorem searchChunks_eq : occ.searchChunks = occ.search := by
  simp only [searchChunks, search, firstFreeChunks_eq]
  split
  next free =>
    -- the fast path: the slot at the cursor is the first one of the back part
    have first : firstFree (occ.occupied.drop occ.cursor) = some 0 := by
      obtain ⟨inside, free⟩ := List.getElem?_eq_some_iff.mp free
      rw [List.drop_eq_getElem_cons inside, free]
      rfl
    rw [first]
    rfl
  · cases firstFree (occ.occupied.drop occ.cursor) with
    | none => rfl
    | some offset => rfl

theorem acquireChunks_eq : occ.acquireChunks = occ.acquire := by
  rw [acquireChunks, searchChunks_eq]
  rfl

end

/-! ### Histories -/

/-- Calls of both variants; the heap variant has no `rotate` and no `setCursor`, and takes a pin
back through its flag. -/
inductive Op
  | acquire
  | release (id : Nat)
  | pin (id : Nat)
  | unpin (id : Nat)
  | rotate
  | advance (steps : Nat)
  | setCursor (cursor : Nat)
deriving DecidableEq

inductive Outcome
  | slot (id : Nat)
  | done
  | full
  | refused (e : SlotError)
deriving DecidableEq

def Outcome.fails : Outcome → Bool
  | .full | .refused _ => true
  | _ => false

def settle (occ : Occupancy) : Except SlotError Occupancy → Occupancy × Outcome
  | .ok occ => (occ, .done)
  | .error e => (occ, .refused e)

def step (occ : Occupancy) : Op → Occupancy × Outcome
  | .acquire =>
    match occ.acquireChunks with
    | none => (occ, .full)
    | some (id, occ) => (occ, .slot id)
  | .release id => occ.settle (occ.release id)
  | .pin id => occ.settle (occ.tryPin id)
  | .unpin id => occ.settle (occ.unpin id)
  | .rotate => (occ.advanceCursor 1, .done)
  | .advance steps => (occ.advanceCursor steps, .done)
  | .setCursor cursor => (occ.setCursor cursor, .done)

/-- A new occupancy: tables have no pin flags, pools one for each slot. -/
def start (n pins : Nat) : Occupancy := ⟨List.replicate n false, List.replicate pins false, 0, 0⟩

/-- What every call keeps. -/
structure Kept (n : Nat) (occ : Occupancy) : Prop where
  length : occ.occupied.length = n
  counted : occ.count = occ.occupied.count true
  cursor : occ.cursor < n ∨ n = 0 ∧ occ.cursor = 0
  pinned : ∀ id, occ.isPinned id = true → occ.isOccupied id = true

variable {n : Nat} {occ occ' : Occupancy} {id : Nat}

theorem Kept.sound (kept : occ.Kept n) : occ.Sound :=
  ⟨kept.counted, by have := kept.length; have := kept.cursor; omega⟩

/-- What a call can do, with what it answers. -/
inductive Change (occ : Occupancy) : Occupancy × Outcome → Prop
  | same {o : Outcome} (h : ∀ id, o ≠ .slot id) : Change occ (occ, o)
  | acquire {id : Nat} {occ' : Occupancy} (h : occ.acquire = some (id, occ')) :
    Change occ (occ', .slot id)
  | release {id : Nat} {occ' : Occupancy} (h : occ.release id = .ok occ') : Change occ (occ', .done)
  | pin {id : Nat} {flag : Bool} (h : flag = true → occ.isOccupied id = true) :
    Change occ ({ occ with pinned := occ.pinned.set id flag }, .done)
  | cursor {cursor : Nat} (h : cursor < occ.occupied.length) :
    Change occ ({ occ with cursor }, .done)

theorem change_setCursor (occ : Occupancy) (cursor : Nat) :
    occ.Change (occ.setCursor cursor, .done) := by
  rw [setCursor]
  split
  · exact .same (by simp)
  · exact .cursor (Nat.mod_lt _ (by omega))

theorem change_advanceCursor (occ : Occupancy) (steps : Nat) :
    occ.Change (occ.advanceCursor steps, .done) := by
  rw [advanceCursor]
  split
  · exact .same (by simp)
  · exact change_setCursor _ _

theorem change_settle {result : Except SlotError Occupancy}
    (h : ∀ occ', result = .ok occ' → occ.Change (occ', .done)) : occ.Change (occ.settle result) := by
  cases result with
  | error e => exact .same nofun
  | ok occ' => exact h occ' rfl

theorem change_tryPin (occ' : Occupancy) (h : occ.tryPin id = .ok occ') : occ.Change (occ', .done) := by
  simp only [tryPin] at h
  split at h
  · cases h
  · cases h
  next taken =>
  split at h
  · cases h
  · cases h
  cases h
  exact .pin fun _ => by rw [isOccupied, taken]; rfl

theorem change_unpin (occ' : Occupancy) (h : occ.unpin id = .ok occ') : occ.Change (occ', .done) := by
  simp only [unpin] at h
  split at h
  · cases h
    exact .pin nofun
  · cases h

theorem change_step (occ : Occupancy) (op : Op) : occ.Change (occ.step op) := by
  cases op with
  | acquire =>
    simp only [step, acquireChunks_eq]
    split
    · exact .same nofun
    next acquired => exact .acquire acquired
  | release id => exact change_settle fun _ => .release
  | pin id => exact change_settle change_tryPin
  | unpin id => exact change_settle change_unpin
  | rotate => exact change_advanceCursor occ 1
  | advance steps => exact change_advanceCursor occ steps
  | setCursor cursor => exact change_setCursor occ cursor

theorem isPinned_of_set {flag : Bool} {id' : Nat}
    (h : ({ occ with pinned := occ.pinned.set id flag } : Occupancy).isPinned id' = true) :
    id' = id ∧ flag = true ∨ occ.isPinned id' = true := by
  simp only [isPinned, getElem?_set] at h ⊢
  grind

/-- A pinned slot stays occupied, and is not handed out. -/
theorem Change.pinned {after : Occupancy × Outcome} (change : occ.Change after)
    (pinned : occ.isPinned id = true) (taken : occ.isOccupied id = true) :
    after.1.isOccupied id = true ∧ after.2 ≠ .slot id := by
  cases change with
  | same h => exact ⟨taken, h id⟩
  | acquire acquired =>
    refine ⟨isOccupied_acquire acquired taken, ?_⟩
    rintro ⟨⟩
    cases (acquire_free acquired).symm.trans taken
  | @release other _ released =>
    -- `release` refuses a pinned slot, so this one is another
    have ne : other ≠ id := by
      rintro rfl
      simp only [Occupancy.release] at released
      split at released
      · cases released
      · cases released
      rw [isPinned] at pinned
      rw [if_pos pinned] at released
      cases released
    rw [(release_ok released).2, isOccupied, getElem?_set_ne ne]
    exact ⟨taken, by simp⟩
  | pin _ => exact ⟨taken, by simp⟩
  | cursor _ => exact ⟨taken, by simp⟩

theorem Kept.change {after : Occupancy × Outcome} (kept : occ.Kept n) (change : occ.Change after) :
    after.1.Kept n := by
  have length := kept.length
  -- a slot that was pinned before is still occupied; only the slot of the call is left to see
  have held (other : Nat) (pinned : occ.isPinned other = true) :=
    (change.pinned pinned (kept.pinned other pinned)).1
  cases change with
  | same _ => exact kept
  | acquire acquired =>
    obtain ⟨inside, -, shape⟩ := acquire_some acquired
    refine ⟨by rw [shape, length_set, length], (kept.sound.acquire acquired).1.counted,
      .inl ?_, fun other pinned => held other ?_⟩
    · rw [cursor_acquire acquired, length]
      exact Nat.mod_lt _ (by omega)
    · rw [(acquire_eq acquired).2] at pinned
      obtain ⟨-, ⟨⟩⟩ | old := isPinned_of_set pinned
      exact old
  | release released =>
    refine ⟨(length_release released).trans length, (kept.sound.release released).counted, ?_, ?_⟩
    · rw [(release_ok released).2]
      exact kept.cursor
    · intro other pinned
      rw [(release_ok released).2] at pinned
      exact held other pinned
  | pin taken =>
    refine { kept with pinned := fun other pinned => ?_ }
    obtain ⟨rfl, flag⟩ | old := isPinned_of_set pinned
    · exact taken flag
    · exact held other old
  | cursor inside => exact { kept with cursor := .inl (length ▸ inside) }

theorem Kept.run (n pins : Nat) (ops : List Op) :
    (Run.run (fun occ op => (step occ op).1) (start n pins) ops).Kept n := by
  apply invariant_run fun occ op kept => kept.change (change_step occ op)
  refine ⟨length_replicate, by simp [start, count_replicate], by simp [start]; omega, ?_⟩
  intro id pinned
  simp only [start, isPinned, getElem?_replicate] at pinned
  split at pinned <;> cases pinned

/-- A call that fails changes nothing. -/
theorem step_of_fails {op : Op} (fails : (occ.step op).2.fails = true) : (occ.step op).1 = occ := by
  have change := change_step occ op
  generalize occ.step op = after at change fails
  cases change with
  | same _ => rfl
  | _ => cases fails

/-- From every state `acquire` takes the first free slot in the order of the ring, with its pin
cleared, and leaves the cursor behind it. Over every
history of either variant the count and the cursor stay right, a call that fails changes nothing,
and a pinned slot stays where it is. -/
theorem occupancy_refines_ring :
    (∀ (occupied pinned : List Bool) (cursor : Nat), cursor < occupied.length →
      let occ : Occupancy := ⟨occupied, pinned, cursor, occupied.count true⟩
      (occ.acquireChunks = none ↔ ∀ flag ∈ occupied, flag = true) ∧
      ∀ id occ', occ.acquireChunks = some (id, occ') →
        occ'.occupied = occupied.set id true ∧ occ'.pinned = pinned.set id false ∧
          occ'.cursor = (id + 1) % occupied.length ∧
          ∃ o < occupied.length, id = (cursor + o) % occupied.length ∧ occ.isOccupied id = false ∧
            ∀ o' < o, occ.isOccupied ((cursor + o') % occupied.length) = true) ∧
    ∀ (n pins : Nat) (ops : List Op),
      let occ := Run.run (fun occ op => (step occ op).1) (start n pins) ops
      occ.count = occ.occupied.count true ∧ (occ.cursor < n ∨ n = 0 ∧ occ.cursor = 0) ∧
        ∀ op, ((occ.step op).2.fails = true → (occ.step op).1 = occ) ∧
          ∀ id, occ.isPinned id = true →
            (occ.step op).1.isOccupied id = true ∧ (occ.step op).2 ≠ .slot id := by
  constructor
  · intro occupied pinned cursor inside occ
    rw [acquireChunks_eq]
    have sound : occ.Sound := ⟨rfl, inside.le⟩
    refine ⟨⟨fun none flag member => ?_, fun all => ?_⟩, fun id occ' acquired => ?_⟩
    · exact (List.count_eq_length.mp (sound.acquire_eq_none none) flag member).symm
    · exact if_pos (.inl (List.count_eq_length.mpr fun flag member => (all flag member).symm))
    · obtain ⟨found, shape⟩ := acquire_eq acquired
      obtain ⟨o, within, same, before⟩ := search_first inside found
      exact ⟨by rw [shape], by rw [shape], cursor_acquire acquired, o, within, same,
        acquire_free acquired, before⟩
  · intro n pins ops occ
    have kept : occ.Kept n := .run n pins ops
    refine ⟨kept.counted, kept.cursor, fun op => ⟨step_of_fails, fun id pinned => ?_⟩⟩
    exact (change_step occ op).pinned pinned (kept.pinned id pinned)

end Coaptic.Block.Occupancy
