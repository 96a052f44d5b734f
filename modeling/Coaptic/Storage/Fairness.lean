import Coaptic.Lib.Rotation
import Coaptic.Lib.Run
import Coaptic.Lib.Sweep
import Coaptic.Storage.Occupancy

/-!
# Fairness of reception

A received datagram takes a free slot, and each round one slot that is ready is selected. Both
searches start at one cursor and leave it behind the slot they stop at. A slot that waits is
passed over when a datagram takes a slot behind it; but the slots between the two are then taken
for good, so this happens only so often, and in between the cursor comes closer every round. Seen
from the slot that waits, the others are the places of a sweep, whose potential falls every round.
-/
namespace Coaptic.Block

open Rotation List
open Sweep (Place potentialAt frontsAt)

namespace Occupancy

def isPinned (occ : Occupancy) (id : Nat) : Bool := occ.pinned[id]?.getD false

def setCursor (occ : Occupancy) (cursor : Nat) : Occupancy :=
  if occ.occupied.length = 0 then occ else { occ with cursor := cursor % occ.occupied.length }

def advanceCursor (occ : Occupancy) (steps : Nat) : Occupancy :=
  if occ.occupied.length = 0 then occ
  else occ.setCursor (occ.cursor + steps % occ.occupied.length)

theorem advanceCursor_eq {occ : Occupancy} (some : 0 < occ.occupied.length) (steps : Nat) :
    occ.advanceCursor steps = { occ with cursor := (occ.cursor + steps) % occ.occupied.length } := by
  rw [advanceCursor, if_neg (by omega), setCursor, if_neg (by omega), Nat.add_mod_mod]

end Occupancy

/-- Slots of received datagrams, with the slots that may be selected. -/
structure RxPool where
  occ : Occupancy
  eligible : Nat → Bool

namespace RxPool

section

variable (s : RxPool)

def size : Nat := s.occ.occupied.length

def ready (id : Nat) : Bool := s.occ.isOccupied id && !s.occ.isPinned id && s.eligible id

def acquireRx : Option Nat × RxPool :=
  match s.occ.acquire with
  | none => (none, s)
  | some (id, occ) => (some id, { s with occ })

/-- First ready slot from the cursor. The cursor moves past it, or by one if there is none. -/
def nextUnpinnedRx : Option Nat × RxPool :=
  if s.occ.count = 0 ∨ s.size = 0 then (none, s)
  else
    match (List.range s.size).find? fun offset => s.ready ((s.occ.cursor + offset) % s.size) with
    | some offset =>
      (some ((s.occ.cursor + offset) % s.size), { s with occ := s.occ.advanceCursor (offset + 1) })
    | none => (none, { s with occ := s.occ.advanceCursor 1 })

/-- What becomes of the slot that was selected: its datagram is dealt with, or kept. -/
def settle (releases : Bool) (id : Nat) : RxPool :=
  if releases then
    match s.occ.release id with
    | .ok occ => { s with occ }
    | .error _ => s
  else { s with eligible := fun other => other ≠ id && s.eligible other }

end

end RxPool

/-- Whether a datagram arrives, and whether the slot that is selected is released. -/
structure Round where
  arrives : Bool
  releases : Bool
deriving DecidableEq

namespace RxPool

def arrive (s : RxPool) (round : Round) : RxPool := if round.arrives then s.acquireRx.2 else s

def round (s : RxPool) (round : Round) : Option Nat × RxPool :=
  let s := s.arrive round
  match s.nextUnpinnedRx with
  | (none, s) => (none, s)
  | (some id, s) => (some id, s.settle round.releases id)

def selections (s : RxPool) : List Round → List (Option Nat)
  | [] => []
  | r :: rest => (s.round r).1 :: (s.round r).2.selections rest

/-- A datagram arrives in a slot behind `x`, so that the cursor moves past `x`. -/
def passes (s : RxPool) (x : Nat) (round : Round) : Bool :=
  round.arrives && s.acquireRx.1.any fun id =>
    ahead s.size s.occ.cursor x < ahead s.size s.occ.cursor id

/-! ### A slot that waits -/

def place (s : RxPool) (id : Nat) : Place :=
  if s.ready id then .ready else if s.occ.isOccupied id then .idle else .free

section

variable (s : RxPool) (x : Nat)

/-- The other slots, from the one behind `x` on. -/
def placeAt (i : Nat) : Place := s.place ((x + 1 + i) % s.size)

/-- Where the cursor is among them. -/
def position : Nat := s.size - 1 - ahead s.size s.occ.cursor x

/-- Rounds in which another slot than `x` can still be selected. -/
def detours : Nat := potentialAt (s.placeAt x) (s.size - 1) (s.position x)

structure Waits : Prop where
  sound : s.occ.Sound
  cursor : s.occ.cursor < s.size
  inside : x < s.size
  ready : s.ready x = true

end

end RxPool

namespace Occupancy

variable {occ occ' : Occupancy} {id : Nat}

/-- The search stops at the first free slot in the order of the ring. -/
theorem search_first (inside : occ.cursor < occ.occupied.length) (found : occ.search = some id) :
    ∃ o < occ.occupied.length, id = (occ.cursor + o) % occ.occupied.length ∧
      ∀ o' < o, occ.isOccupied ((occ.cursor + o') % occ.occupied.length) = true := by
  have taken {flags : List Bool} {i : Nat} (free : firstFree flags = some i) :
      i < flags.length ∧ ∀ j < i, flags[j]? = some true := by
    obtain ⟨within, -, before⟩ := findIdx?_eq_some_iff_getElem.mp free
    refine ⟨within, fun j below => ?_⟩
    rw [getElem?_eq_getElem (by omega)]
    simpa using before j below
  simp only [search] at found
  split at found
  next o free =>
    cases found
    obtain ⟨within, before⟩ := taken free
    rw [length_drop] at within
    refine ⟨o, by omega, (Nat.mod_eq_of_lt (by omega)).symm, fun o' below => ?_⟩
    have held := before o' below
    rw [getElem?_drop] at held
    rw [Nat.mod_eq_of_lt (by omega), isOccupied, held]
    rfl
  next none =>
    obtain ⟨within, before⟩ := taken found
    rw [length_take] at within
    have behind : ∀ j, occ.cursor ≤ j → j < occ.occupied.length → occ.isOccupied j = true := by
      intro j atLeast below
      have held : false ∉ occ.occupied.drop occ.cursor := by
        intro free
        have := firstFree_isSome free
        rw [none] at this
        cases this
      cases flag : occ.occupied[j] with
      | true => rw [isOccupied, getElem?_eq_getElem below, flag]; rfl
      | false =>
      refine absurd (mem_iff_getElem.mpr ⟨j - occ.cursor, by simp; omega, ?_⟩) held
      simp only [getElem_drop]
      rw [← flag]
      congr 1
      omega
    refine ⟨occ.occupied.length - occ.cursor + id, by omega, ?_, fun o' below => ?_⟩
    · rw [mod_of_lt_twice (by omega)]
      split <;> omega
    rw [mod_of_lt_twice (by omega)]
    split
    · exact behind _ (by omega) (by omega)
    have held := before (occ.cursor + o' - occ.occupied.length) (by omega)
    rw [getElem?_take_of_lt (by omega)] at held
    rw [isOccupied, held]
    rfl

end Occupancy

namespace RxPool

variable {s : RxPool} {x p : Nat}

theorem ready_iff {id : Nat} : s.ready id = true ↔
    s.occ.isOccupied id = true ∧ s.occ.isPinned id = false ∧ s.eligible id = true := by
  simp [ready, and_assoc]

theorem place_eq_ready {id : Nat} : s.place id = .ready ↔ s.ready id = true := by
  simp only [place]
  split <;> simp_all
  split <;> simp

theorem place_eq_free {id : Nat} : s.place id = .free ↔ s.occ.isOccupied id = false := by
  rw [place]
  split
  next isReady => simp [(ready_iff.mp isReady).1]
  · simp

theorem place_congr {t : RxPool} {id : Nat} (occupied : t.occ.isOccupied id = s.occ.isOccupied id)
    (pinned : t.occ.isPinned id = s.occ.isPinned id) (eligible : t.eligible id = s.eligible id) :
    t.place id = s.place id := by
  rw [place, place, RxPool.ready, RxPool.ready, occupied, pinned, eligible]

section

variable (waits : s.Waits x)
include waits

theorem Waits.ahead_lt : ahead s.size s.occ.cursor x < s.size :=
  Rotation.ahead_lt waits.cursor waits.inside

/-- The slots in front of `x` are those from the cursor's position on. -/
theorem Waits.slot_front (o : Nat) :
    (s.occ.cursor + o) % s.size = (x + 1 + (s.position x + o)) % s.size := by
  have := waits.ahead_lt
  calc (s.occ.cursor + o) % s.size = (s.occ.cursor + o + s.size) % s.size :=
        (Nat.add_mod_right _ _).symm
    _ = (s.occ.cursor + ahead s.size s.occ.cursor x + (1 + (s.position x + o))) % s.size := by
        rw [position]
        congr 1
        omega
    _ = (x + 1 + (s.position x + o)) % s.size := by
        rw [← Nat.mod_add_mod, add_ahead waits.cursor waits.inside, Nat.add_assoc]

/-- The slots behind `x` are those before the cursor's position. -/
theorem Waits.slot_behind {o : Nat} (behind : ahead s.size s.occ.cursor x < o) :
    (s.occ.cursor + o) % s.size = (x + 1 + (o - ahead s.size s.occ.cursor x - 1)) % s.size := by
  calc (s.occ.cursor + o) % s.size = (s.occ.cursor + ahead s.size s.occ.cursor x +
          (1 + (o - ahead s.size s.occ.cursor x - 1))) % s.size := by
        congr 1
        omega
    _ = (x + 1 + (o - ahead s.size s.occ.cursor x - 1)) % s.size := by
        rw [← Nat.mod_add_mod, add_ahead waits.cursor waits.inside, Nat.add_assoc]

/-- Positions are slots of their own. -/
theorem Waits.slot_ne {i j : Nat} (hi : i < s.size - 1) (hj : j < s.size - 1) (ne : i ≠ j) :
    (x + 1 + i) % s.size ≠ (x + 1 + j) % s.size := by
  have := waits.inside
  intro same
  rw [mod_of_lt_twice (by omega), mod_of_lt_twice (by omega)] at same
  split at same <;> split at same <;> omega

theorem Waits.slot_ne_self {i : Nat} (hi : i < s.size - 1) : (x + 1 + i) % s.size ≠ x := by
  have := waits.inside
  rw [mod_of_lt_twice (by omega)]
  split <;> omega

end

/-! ### Arrival -/

end RxPool

namespace Occupancy

variable {occ occ' : Occupancy} {id j : Nat}

section

variable (acquired : occ.acquire = some (id, occ'))
include acquired

theorem isOccupied_acquire (taken : occ.isOccupied j = true) : occ'.isOccupied j = true := by
  rw [(acquire_eq acquired).2]
  simp only [isOccupied, getElem?_set] at taken ⊢
  grind

theorem acquire_free : occ.isOccupied id = false := by
  rw [isOccupied, (acquire_some acquired).2.1]
  rfl

theorem isOccupied_acquired : occ'.isOccupied id = true := by
  obtain ⟨inside, -, occupied⟩ := acquire_some acquired
  rw [isOccupied, occupied, getElem?_set_self inside]
  rfl

theorem cursor_acquire : occ'.cursor = (id + 1) % occ.occupied.length := by
  have inside := (acquire_some acquired).1
  rw [(acquire_eq acquired).2]
  dsimp only
  split
  next last => rw [last, Nat.mod_self]
  · rw [Nat.mod_eq_of_lt (by omega)]

end

end Occupancy

namespace RxPool

variable {s t : RxPool} {x : Nat}

open Occupancy

/-- A slot waits as long as it is ready. -/
theorem Waits.of_place (waits : s.Waits x) (sound : t.occ.Sound) (size : t.size = s.size)
    (cursor : t.occ.cursor < s.size) (same : t.place x = s.place x) : t.Waits x := by
  refine ⟨sound, size ▸ cursor, size ▸ waits.inside, place_eq_ready.mp ?_⟩
  rw [same]
  exact place_eq_ready.mpr waits.ready

/-- What is done to one slot changes the place at its position only. -/
theorem Waits.placeAt_eq (waits : s.Waits x) (size : t.size = s.size) {j : Nat}
    (inside : j < s.size - 1) (same : ∀ id ≠ (x + 1 + j) % s.size, t.place id = s.place id) :
    ∀ i < s.size - 1, i ≠ j → t.placeAt x i = s.placeAt x i := by
  intro i hi ne
  rw [placeAt, placeAt, size]
  exact same _ (waits.slot_ne hi inside ne)

theorem place_acquire {id : Nat} {occ : Occupancy} (acquired : s.occ.acquire = some (id, occ)) :
    s.place id = .free ∧ ({ s with occ } : RxPool).place id ≠ .free ∧
      ∀ j ≠ id, ({ s with occ } : RxPool).place j = s.place j := by
  obtain ⟨-, shape⟩ := acquire_eq acquired
  refine ⟨place_eq_free.mpr (acquire_free acquired), fun free => ?_, fun j other => ?_⟩
  · rw [place_eq_free] at free
    cases free.symm.trans (isOccupied_acquired acquired)
  · refine place_congr ?_ ?_ rfl
    · rw [shape, isOccupied, getElem?_set_ne (Ne.symm other), isOccupied]
    · rw [shape, isPinned, getElem?_set_ne (Ne.symm other), isPinned]

/-- A datagram that arrives takes a slot in front of `x`, and the cursor comes closer, or one behind
`x`. It adds no more detours than there are fronts up to it. -/
theorem Waits.acquire (waits : s.Waits x) {id : Nat} {occ : Occupancy}
    (acquired : s.occ.acquire = some (id, occ)) : let t : RxPool := { s with occ }
    t.Waits x ∧ t.size = s.size ∧
      t.detours x ≤ s.detours x + frontsAt (t.placeAt x) (t.position x) ∧
      (ahead s.size occ.cursor x ≤ ahead s.size s.occ.cursor x ∨
        ahead s.size s.occ.cursor x < ahead s.size s.occ.cursor id) := by
  intro t
  obtain ⟨found, shape⟩ := acquire_eq acquired
  obtain ⟨isFree, filled, others⟩ := place_acquire acquired
  obtain ⟨o, within, rfl, before⟩ := search_first waits.cursor found
  have cursor : occ.cursor = (s.occ.cursor + o + 1) % s.size := by
    rw [cursor_acquire acquired, Nat.mod_add_mod]
    rfl
  have size : t.size = s.size := by
    simp only [t, RxPool.size, shape, length_set]
  have inside := waits.inside
  have near := waits.ahead_lt
  have taken (o' : Nat) (below : o' < o) : s.place ((s.occ.cursor + o') % s.size) ≠ .free := by
    rw [ne_eq, place_eq_free, RxPool.size, before o' below]
    decide
  change s.place ((s.occ.cursor + o) % s.size) = .free at isFree
  change t.place ((s.occ.cursor + o) % s.size) ≠ .free at filled
  change ∀ j ≠ (s.occ.cursor + o) % s.size, t.place j = s.place j at others
  have ne : (s.occ.cursor + o) % s.size ≠ x := by
    intro same
    rw [same, place_eq_ready.mpr waits.ready] at isFree
    cases isFree
  have still : t.Waits x := waits.of_place (waits.sound.acquire acquired).1 size
    (by rw [cursor]; exact Nat.mod_lt _ (by omega)) (others x ne.symm)
  refine ⟨still, size, ?_⟩
  have off : o ≠ ahead s.size s.occ.cursor x := by
    rintro rfl
    exact ne (add_ahead waits.cursor inside)
  have within : o < s.size := within
  rcases Nat.lt_or_gt_of_ne off with front | behind
  · -- The cursor stops in front of `x`.
    have closer := ahead_past waits.cursor inside front
    rw [← cursor] at closer
    have position : t.position x = s.position x + o + 1 := by
      simp only [RxPool.position, size, t, closer]
      omega
    have here := waits.slot_front o
    rw [here] at isFree filled others
    refine ⟨?_, .inl (by omega)⟩
    rw [detours, detours, position, size]
    have inside : s.position x + o < s.size - 1 := by
      simp only [RxPool.position]
      omega
    refine Sweep.potentialAt_fill (waits.placeAt_eq size inside others) inside (by omega) isFree ?_
      (by rw [placeAt, size]; exact filled)
    intro i above below
    obtain ⟨o', rfl⟩ := Nat.exists_eq_add_of_le above
    rw [placeAt, ← waits.slot_front o']
    exact taken o' (by omega)
  · -- The cursor went past `x`: the slots on its way were taken, and now this one is too.
    have around := ahead_around waits.cursor inside within behind
    rw [← cursor] at around
    have position : t.position x = o - ahead s.size s.occ.cursor x - 1 + 1 := by
      simp only [RxPool.position, size, t, around]
      omega
    have here := waits.slot_behind behind
    refine ⟨?_, .inr ?_⟩
    · rw [here] at isFree filled others
      rw [detours, detours, position, size]
      have inside : o - ahead s.size s.occ.cursor x - 1 < s.size - 1 := by omega
      refine Nat.le_add_right_of_le (Sweep.potentialAt_pass (waits.placeAt_eq size inside others)
        inside ?_ ?_ isFree ?_ ?_ (by rw [placeAt, size]; exact filled))
      · simp only [RxPool.position]
        omega
      · simp only [RxPool.position]
        omega
      · intro i below
        have := taken (i + ahead s.size s.occ.cursor x + 1) (by omega)
        rw [waits.slot_behind (by omega)] at this
        rw [placeAt]
        convert this using 4
        omega
      · intro i above below
        obtain ⟨o', rfl⟩ := Nat.exists_eq_add_of_le above
        simp only [RxPool.position] at below
        rw [placeAt, ← waits.slot_front o']
        exact taken o' (by omega)
    · exact lt_of_lt_of_eq behind (ahead_add waits.cursor within).symm

/-- The round's datagram leaves `x` waiting. -/
theorem Waits.arrive (waits : s.Waits x) (round : Round) : let t := s.arrive round
    t.Waits x ∧ t.size = s.size ∧
      t.detours x ≤ s.detours x + frontsAt (t.placeAt x) (t.position x) ∧
      (ahead s.size t.occ.cursor x ≤ ahead s.size s.occ.cursor x ∨ s.passes x round = true) := by
  cases arrives : round.arrives with
  | false =>
    simp only [RxPool.arrive, arrives, Bool.false_eq_true, if_false]
    exact ⟨waits, trivial, Nat.le_add_right _ _, .inl le_rfl⟩
  | true =>
  cases acquired : s.occ.acquire with
  | none =>
    simp only [RxPool.arrive, acquireRx, arrives, acquired, if_true]
    exact ⟨waits, trivial, Nat.le_add_right _ _, .inl le_rfl⟩
  | some found =>
  simp only [RxPool.arrive, passes, acquireRx, arrives, acquired, if_true, Bool.true_and,
    Option.any_some, decide_eq_true_eq]
  exact waits.acquire acquired

/-! ### Selection -/

/-- The scan stops at `x` at the latest, and at the first slot that is ready. -/
theorem Waits.nextUnpinnedRx (waits : s.Waits x) : ∃ o ≤ ahead s.size s.occ.cursor x,
    s.nextUnpinnedRx = (some ((s.occ.cursor + o) % s.size),
        { s with occ := s.occ.advanceCursor (o + 1) }) ∧
      s.ready ((s.occ.cursor + o) % s.size) = true ∧
      ∀ o' < o, s.ready ((s.occ.cursor + o') % s.size) ≠ true := by
  have inside := waits.inside
  have some_occupied : ¬(s.occ.count = 0 ∨ s.size = 0) := by
    rintro (none | none)
    · have taken := (ready_iff.mp waits.ready).1
      rw [waits.sound.counted, count_eq_zero] at none
      rw [isOccupied, getElem?_eq_getElem inside] at taken
      exact none (mem_iff_getElem.mpr ⟨x, inside, taken⟩)
    · omega
  have x_here : s.ready ((s.occ.cursor + ahead s.size s.occ.cursor x) % s.size) = true := by
    rw [add_ahead waits.cursor inside]
    exact waits.ready
  cases found : (range s.size).find?
      fun offset => s.ready ((s.occ.cursor + offset) % s.size) with
  | none =>
    have missed := find?_eq_none.mp found _ (mem_range.mpr waits.ahead_lt)
    exact absurd x_here missed
  | some o =>
    obtain ⟨isReady, -, before⟩ := find?_range_eq_some.mp found
    refine ⟨o, ?_, by simp only [RxPool.nextUnpinnedRx, if_neg some_occupied, found], isReady, ?_⟩
    · by_contra later
      have missed := before _ (Nat.lt_of_not_le later)
      rw [x_here] at missed
      cases missed
    · intro o' below isReady
      have missed := before o' below
      rw [isReady] at missed
      cases missed

/-- The slot that was selected is not ready any more, and the others are as they were. -/
theorem place_settle {id : Nat} (releases : Bool) (isReady : s.ready id = true)
    (sound : s.occ.Sound) : let t := s.settle releases id
    t.occ.Sound ∧ t.size = s.size ∧ t.occ.cursor = s.occ.cursor ∧ t.place id ≠ .ready ∧
      ∀ j ≠ id, t.place j = s.place j := by
  obtain ⟨taken, unpinned, -⟩ := ready_iff.mp isReady
  cases releases with
  | false =>
    refine ⟨sound, rfl, rfl, ?_, fun j other => ?_⟩
    · simp [place_eq_ready, ready_iff, RxPool.settle]
    · simp [place, RxPool.ready, RxPool.settle, other]
  | true =>
  cases released : s.occ.release id with
  | error e =>
    have flag : s.occ.occupied[id]? = some true := by
      simpa [isOccupied, Option.getD_eq_iff] using taken
    rw [isPinned] at unpinned
    simp [Occupancy.release, flag, unpinned] at released
  | ok occ =>
  have shape := (release_ok released).2
  simp only [RxPool.settle, if_true, released]
  refine ⟨sound.release released, length_release released, by rw [shape], ?_, fun j other => ?_⟩
  · have inside := (List.getElem?_eq_some_iff.mp (release_ok released).1).1
    simp [place_eq_ready, ready_iff, shape, isOccupied, inside]
  · refine place_congr ?_ (by rw [shape]; rfl) rfl
    rw [shape, isOccupied, getElem?_set_ne (Ne.symm other), isOccupied]

/-- A round that does not select `x` uses up a detour. It brings the cursor closer, but for a
datagram behind `x`. -/
theorem Waits.round (waits : s.Waits x) (round : Round) : (s.round round).1 = some x ∨
    let t := (s.round round).2
    t.Waits x ∧ t.size = s.size ∧ t.detours x < s.detours x ∧
      (ahead s.size t.occ.cursor x < ahead s.size s.occ.cursor x ∨ s.passes x round = true) := by
  obtain ⟨arrived, size, added, distance⟩ := waits.arrive round
  obtain ⟨o, near, selected, isReady, first⟩ := arrived.nextUnpinnedRx
  simp only [RxPool.round, selected]
  generalize s.arrive round = u at *
  rcases Nat.eq_or_lt_of_le near with at_x | front
  · rw [at_x, add_ahead arrived.cursor arrived.inside]
    exact .inl rfl
  have inside := arrived.inside
  have nearer := arrived.ahead_lt
  -- The cursor moves past the slot that is selected.
  have advanced : u.occ.advanceCursor (o + 1) =
      { u.occ with cursor := (u.occ.cursor + o + 1) % u.size } :=
    Occupancy.advanceCursor_eq (Nat.zero_lt_of_lt inside) _
  have below : (u.occ.cursor + o + 1) % u.size < u.size := Nat.mod_lt _ (by omega)
  obtain ⟨sound, size', cursor, taken, others⟩ :=
    place_settle (s := { u with occ := u.occ.advanceCursor (o + 1) }) round.releases
      (by rw [advanced]; exact isReady) (by rw [advanced]; exact ⟨arrived.sound.counted, below.le⟩)
  generalize ({ u with occ := u.occ.advanceCursor (o + 1) } : RxPool).settle round.releases
    ((u.occ.cursor + o) % u.size) = t at *
  rw [advanced] at size' cursor others
  have size' : t.size = u.size := size'
  have cursor : t.occ.cursor = (u.occ.cursor + o + 1) % u.size := cursor
  have others : ∀ j ≠ (u.occ.cursor + o) % u.size, t.place j = u.place j := others
  have here := arrived.slot_front o
  rw [here] at taken others isReady
  have closer := ahead_past arrived.cursor inside front
  rw [← cursor] at closer
  have inside' : u.position x + o < u.size - 1 := by
    simp only [RxPool.position]
    omega
  have still : t.Waits x := arrived.of_place sound size' (by rw [cursor]; exact below)
    (others x (arrived.slot_ne_self inside').symm)
  have position : t.position x = u.position x + o + 1 := by
    simp only [RxPool.position, size', closer]
    omega
  have used : t.detours x + (frontsAt (u.placeAt x) (u.position x) + 1) ≤ u.detours x := by
    rw [detours, detours, position, size']
    refine Sweep.potentialAt_take (arrived.placeAt_eq size' inside' others) inside' (by omega)
      (place_eq_ready.mpr isReady) ?_ (by rw [placeAt, size']; exact taken)
    intro i above below isReady
    obtain ⟨o', rfl⟩ := Nat.exists_eq_add_of_le above
    rw [placeAt, place_eq_ready, ← arrived.slot_front o'] at isReady
    exact first o' (by omega) isReady
  refine .inr ⟨still, size'.trans size, by omega, ?_⟩
  rw [← size] at distance ⊢
  exact distance.imp_left fun nearer => by omega

/-! ### How long a slot waits -/

/-- The rounds until `x` is selected run out. -/
theorem selected_of_countdown {ok : RxPool → Round → Prop} (Within : Nat → RxPool → Prop)
    (never : ∀ s, ¬Within 0 s)
    (step : ∀ m s r, Within (m + 1) s → ok s r → (s.round r).1 = some x ∨ Within m (s.round r).2)
    {m : Nat} {rounds : List Round} (within : Within m s)
    (meets : Run.Meets (fun s r => (s.round r).2) ok s rounds) (enough : m ≤ rounds.length) :
    some x ∈ (s.selections rounds).take m := by
  induction rounds generalizing s m with
  | nil =>
    obtain rfl : m = 0 := by simpa using enough
    exact absurd within (never s)
  | cons r rest ih =>
  cases m with
  | zero => exact absurd within (never s)
  | succ m =>
  rw [selections, take_succ_cons, mem_cons]
  rcases step m s r within meets.1 with here | later
  · exact .inl here.symm
  · exact .inr (ih later meets.2 (by simpa using enough))

def Nears (x m : Nat) (s : RxPool) : Prop := s.Waits x ∧ ahead s.size s.occ.cursor x < m

/-- Detours included, `x` is selected within `m` rounds. -/
def Within (x m : Nat) (s : RxPool) : Prop := s.Waits x ∧ s.detours x < m

theorem Nears.step {m : Nat} {r : Round} (nears : Nears x (m + 1) s)
    (quiet : s.passes x r = false) : (s.round r).1 = some x ∨ Nears x m (s.round r).2 := by
  obtain ⟨waits, near⟩ := nears
  rcases waits.round r with selected | ⟨still, size, -, closer | passed⟩
  · exact .inl selected
  · exact .inr ⟨still, by rw [size]; omega⟩
  · rw [passed] at quiet
    cases quiet

theorem Within.step {m : Nat} {r : Round} (within : Within x (m + 1) s) :
    (s.round r).1 = some x ∨ Within x m (s.round r).2 := by
  obtain ⟨waits, near⟩ := within
  exact (waits.round r).imp_right fun ⟨still, _, fewer, _⟩ => ⟨still, by omega⟩

/-- A slot that is ready waits for at most as many rounds as there are slots while no datagram
arrives behind it. Each time one does, it can wait for another turn of the ring, but the slots up
to that datagram's stay taken, and what a turn selects has to arrive again before a later turn. -/
theorem selected_of_ready {s : RxPool} {x : Nat} (sound : s.occ.Sound)
    (cursor : s.occ.cursor < s.size) (inside : x < s.size) (ready : s.ready x = true)
    (rounds : List Round) : (s.size ≤ rounds.length →
        Run.Meets (fun s r => (s.round r).2) (fun s r => s.passes x r = false) s rounds →
        some x ∈ (s.selections rounds).take s.size) ∧
      (s.size * (s.size + 1) / 6 + 1 ≤ rounds.length →
        some x ∈ (s.selections rounds).take (s.size * (s.size + 1) / 6 + 1)) := by
  have waits : s.Waits x := ⟨sound, cursor, inside, ready⟩
  constructor
  · intro enough meets
    refine selected_of_countdown (Nears x) ?_ (fun m s r nears quiet => nears.step quiet)
      ⟨waits, waits.ahead_lt⟩ meets enough
    rintro s ⟨-, none⟩
    omega
  intro enough
  have meets : Run.Meets (fun s r => (s.round r).2) (fun _ _ => True) s rounds :=
    Run.meets_of_forall (fun _ _ => trivial) s
  refine selected_of_countdown (Within x) ?_ (fun m s r within _ => within.step)
    ⟨waits, ?_⟩ meets enough
  · rintro s ⟨-, none⟩
    omega
  · refine Nat.lt_succ_of_le (Sweep.potentialAt_le ?_)
    simp only [position]
    omega

/-- Five slots of which one is free, the cursor just behind the slot that waits. -/
def sampleRx : RxPool :=
  { occ :=
      { occupied := [true, true, false, true, true]
        pinned := [false, false, false, false, false]
        cursor := 1
        count := 4 }
    eligible := fun _ => true }

/-- One round without a datagram, then a datagram every round. -/
def sampleRounds : List Round :=
  ⟨false, true⟩ :: List.replicate 10 ⟨true, true⟩

theorem selected_of_ready_sample :
    some 0 ∈ (sampleRx.selections (List.replicate 5 ⟨false, true⟩)).take 5 ∧
      some 0 ∈ (sampleRx.selections sampleRounds).take 6 := by
  have sound : sampleRx.occ.Sound := ⟨rfl, by decide⟩
  exact ⟨(selected_of_ready sound (by decide) (by decide) rfl _).1 (by decide) (by decide),
    (selected_of_ready sound (by decide) (by decide) rfl _).2 (by decide)⟩

/-- Five rounds select the other slots, one of them twice, and the datagram in slot 0 waits. -/
theorem passed_over_for_size : sampleRx.occ.Sound ∧ sampleRx.size = 5 ∧ sampleRx.ready 0 = true ∧
    (sampleRx.selections sampleRounds).take 6 = [some 1, some 3, some 2, some 4, some 3, some 0] :=
  ⟨⟨rfl, by decide⟩, rfl, rfl, by decide⟩

end RxPool

end Coaptic.Block
