import Mathlib.Tactic

/-!
# Sweeps of a ring

A ring of places around one that waits. Arrivals fill the first free place from a cursor on, and each
round the first ready place from the cursor on is taken; both leave the cursor behind the place. The
places are read from the waiting one on, so that a position is how far behind it a place is, and the
cursor splits them in those behind the cursor and those it still has to come to.

How often another place can be taken first is bounded by a potential. A run of ready places behind a
free one is a front. Each turn of the cursor can take one place of every front, which moves the front
by one, so a ready place is worth as much as there are fronts up to it.
-/
namespace Coaptic.Sweep

open List

inductive Place
  | free
  | ready
  | idle
deriving DecidableEq

/-- Fronts up to a position, and whether a ready place there begins another one. -/
structure Fronts where
  count : Nat
  armed : Bool
deriving DecidableEq

namespace Fronts

def zero : Fronts := ⟨0, false⟩

def pass (f : Fronts) : Place → Fronts
  | .free => ⟨f.count, true⟩
  | .ready => ⟨f.count + f.armed.toNat, false⟩
  | .idle => f

/-- Fronts behind all these places. -/
def passAll (f : Fronts) (places : List Place) : Fronts := places.foldl pass f

end Fronts

open Fronts Place

/-- Each ready place counts the fronts up to it. -/
def weigh (f : Fronts) : List Place → Nat
  | [] => 0
  | .ready :: rest => (f.pass .ready).count + weigh (f.pass .ready) rest
  | place :: rest => weigh (f.pass place) rest

/-- The same from the cursor on. It begins a front itself; the first free place there begins another
one, if something can have been taken since the fronts behind the cursor. -/
def weighAhead (f : Fronts) : List Place → Nat
  | [] => 0
  | .idle :: rest => weighAhead f rest
  | .ready :: rest => f.count + 1 + weighAhead ⟨f.count, true⟩ rest
  | .free :: rest => weigh ⟨f.count + f.armed.toNat, true⟩ rest

/-- Rounds in which another place can still be taken. -/
def potential (behind ahead : List Place) : Nat :=
  weigh zero behind + weighAhead (zero.passAll behind) ahead

variable {f g : Fronts} {places front rest behind ahead : List Place} {place : Place}

/-! ### Weights -/

@[simp] theorem passAll_cons : f.passAll (place :: rest) = (f.pass place).passAll rest := rfl

theorem passAll_append : f.passAll (front ++ rest) = (f.passAll front).passAll rest := foldl_append

theorem weigh_append :
    weigh f (front ++ rest) = weigh f front + weigh (f.passAll front) rest := by
  induction front generalizing f with
  | nil => simp [weigh, passAll]
  | cons place front ih =>
    cases place <;> simp [weigh, passAll, ih, Nat.add_assoc]

/-- More fronts, and no fewer with the one that may begin. -/
def Below (f g : Fronts) : Prop :=
  f.count ≤ g.count ∧ f.count + f.armed.toNat ≤ g.count + g.armed.toNat

theorem Below.pass (below : Below f g) (place : Place) : Below (f.pass place) (g.pass place) := by
  obtain ⟨count, armed⟩ := below
  cases place <;> simp [Below, Fronts.pass, *]

theorem Below.weigh (below : Below f g) (places : List Place) : weigh f places ≤ weigh g places := by
  induction places generalizing f g with
  | nil => exact le_rfl
  | cons place rest ih =>
    have rest := ih (below.pass place)
    have here := (below.pass place).1
    cases place <;> simp only [Sweep.weigh] <;> omega

theorem Below.weighAhead (below : Below f g) (places : List Place) :
    weighAhead f places ≤ weighAhead g places := by
  induction places generalizing f g with
  | nil => exact le_rfl
  | cons place rest ih =>
    obtain ⟨count, armed⟩ := below
    cases place with
    | idle => exact ih ⟨count, armed⟩
    | ready =>
      have := ih (f := ⟨f.count, true⟩) (g := ⟨g.count, true⟩) ⟨count, by simpa using count⟩
      simp only [Sweep.weighAhead]
      omega
    | free => exact Below.weigh ⟨armed, by simpa using armed⟩ rest

/-- Without a free place no front begins but the cursor's own. -/
theorem weigh_le_weighAhead (full : free ∉ places) (below : f.count + f.armed.toNat ≤ g.count + 1) :
    weigh f places ≤ weighAhead g places := by
  induction places generalizing f g with
  | nil => exact le_rfl
  | cons place rest ih =>
    rw [mem_cons, not_or] at full
    cases place with
    | free => exact absurd rfl full.1
    | idle => exact ih full.2 below
    | ready =>
      have := ih (f := f.pass .ready) (g := ⟨g.count, true⟩) full.2 (by simpa [Fronts.pass] using below)
      simp only [weigh, weighAhead]
      simp only [Fronts.pass] at this ⊢
      omega

/-- The fronts behind the cursor with the cursor's own. -/
def Fronts.lift (f : Fronts) : Fronts := ⟨f.count + f.armed.toNat, !f.armed⟩

theorem below_lift : Below f f.lift := by
  cases armed : f.armed <;> simp [Below, Fronts.lift, armed]

/-- What the cursor has yet to come to is worth no less once it is behind the cursor. -/
theorem weighAhead_append (full : free ∉ rest) :
    weighAhead f (front ++ rest) ≤
      weigh f.lift front + weighAhead (f.lift.passAll front) rest := by
  induction front generalizing f with
  | nil => simpa [weigh, passAll] using below_lift.weighAhead rest
  | cons place front ih =>
    cases place with
    | idle => exact ih
    | ready =>
      have := ih (f := ⟨f.count, true⟩)
      have same : f.lift.pass .ready = (⟨f.count, true⟩ : Fronts).lift := by
        cases armed : f.armed <;> simp [Fronts.lift, Fronts.pass, armed]
      rw [cons_append, weighAhead, weigh, passAll_cons, same]
      simp only [Fronts.lift, Bool.toNat_true] at this ⊢
      omega
    | free =>
      rw [cons_append, weighAhead, weigh_append]
      refine Nat.add_le_add_left (weigh_le_weighAhead full ?_) _
      exact Nat.add_le_add_left (Bool.toNat_le _) _

theorem weighAhead_le_weigh : weighAhead f places ≤ weigh f.lift places := by
  have all : weighAhead f (places ++ []) ≤ _ := weighAhead_append not_mem_nil
  simpa [weighAhead] using all

/-! ### Moves -/

theorem weigh_of_unready (none : ready ∉ places) : weigh f places = 0 := by
  induction places generalizing f with
  | nil => rfl
  | cons place rest ih =>
    rw [mem_cons, not_or] at none
    cases place with
    | ready => exact absurd rfl none.1
    | _ => exact ih none.2

theorem passAll_of_unready (none : ready ∉ places) :
    (f.passAll places).count = f.count ∧ (f.armed = true → (f.passAll places).armed = true) := by
  induction places generalizing f with
  | nil => exact ⟨rfl, fun armed => armed⟩
  | cons place rest ih =>
    rw [mem_cons, not_or] at none
    cases place with
    | ready => exact absurd rfl none.1
    | idle => exact ih none.2
    | free => exact ⟨(ih none.2).1, fun _ => (ih none.2).2 rfl⟩

/-- No front begins where nothing is free. -/
theorem passAll_of_full (full : free ∉ places) : zero.passAll places = zero ∧
    weigh zero places = 0 := by
  induction places with
  | nil => exact ⟨rfl, rfl⟩
  | cons place rest ih =>
    rw [mem_cons, not_or] at full
    cases place with
    | free => exact absurd rfl full.1
    | idle => exact ih full.2
    | ready => simpa [weigh, passAll, Fronts.pass, zero] using ih full.2

theorem weighAhead_skip {skipped : List Place} (none : ready ∉ skipped) :
    f.count + 1 + weighAhead ⟨f.count, true⟩ rest ≤ weighAhead f (skipped ++ ready :: rest) := by
  induction skipped with
  | nil => exact le_rfl
  | cons place skipped ih =>
    rw [mem_cons, not_or] at none
    cases place with
    | ready => exact absurd rfl none.1
    | idle => exact ih none.2
    | free =>
      have below : Below (⟨f.count, true⟩ : Fronts).lift ⟨f.count + f.armed.toNat + 1, false⟩ := by
        simp [Below, Fronts.lift]
      have rest_le := (weighAhead_le_weigh (f := ⟨f.count, true⟩)).trans
        (below.weigh rest)
      have begins : (passAll ⟨f.count + f.armed.toNat, true⟩ skipped).pass .ready =
          ⟨f.count + f.armed.toNat + 1, false⟩ := by
        obtain ⟨same, armed⟩ := passAll_of_unready (f := ⟨f.count + f.armed.toNat, true⟩) none.2
        simp [Fronts.pass, same, armed rfl]
      rw [cons_append, weighAhead, weigh_append, weigh, begins]
      simp only
      omega

/-- The first ready place is taken: it counted all fronts up to the cursor's. -/
theorem potential_take {skipped : List Place} (none : ready ∉ skipped) (taken : place ≠ ready) :
    potential (behind ++ skipped ++ [place]) rest + ((zero.passAll behind).count + 1) ≤
      potential behind (skipped ++ ready :: rest) := by
  have none' : ready ∉ skipped ++ [place] := by simp [none, taken.symm]
  generalize passed : zero.passAll behind = f
  have below : Below (f.passAll (skipped ++ [place])) ⟨f.count, true⟩ := by
    refine ⟨(passAll_of_unready none').1.le, ?_⟩
    rw [(passAll_of_unready none').1]
    exact Nat.add_le_add_left (Bool.toNat_le _) _
  have less := below.weighAhead rest
  have skip : _ ≤ weighAhead f (skipped ++ ready :: rest) := weighAhead_skip none
  rw [append_assoc, potential, potential, weigh_append, passAll_append, passed, weigh_of_unready none']
  omega

/-- Filled or not, the places up to the first free one are worth no more behind the cursor. -/
theorem weighAhead_fill (full : free ∉ front) (filled : place ≠ free)
    (below : g.count + g.armed.toNat ≤ f.count + f.armed.toNat) :
    weigh g front + weighAhead ((g.passAll front).pass place) rest ≤
      weighAhead f (front ++ free :: rest) := by
  induction front generalizing f g with
  | nil =>
    have lifted : Below (g.pass place).lift ⟨f.count + f.armed.toNat, true⟩ := by
      cases place with
      | free => exact absurd rfl filled
      | _ =>
        cases armed : g.armed <;> simp [Below, Fronts.lift, Fronts.pass, armed] at below ⊢ <;> omega
    simpa [weigh, passAll, weighAhead] using weighAhead_le_weigh.trans (lifted.weigh rest)
  | cons here front ih =>
    rw [mem_cons, not_or] at full
    have small := Bool.toNat_le f.armed
    cases here with
    | free => exact absurd rfl full.1
    | idle => exact ih full.2 below
    | ready =>
      have := ih (f := ⟨f.count, true⟩) (g := g.pass .ready) full.2 (by
        simp only [Fronts.pass, Bool.toNat_false, Bool.toNat_true]
        omega)
      rw [cons_append, weighAhead, weigh, passAll_cons]
      simp only [Fronts.pass] at this ⊢
      omega

/-- An arrival in front of the waiting place is worth at most the fronts up to it. -/
theorem potential_fill (full : free ∉ front) (filled : place ≠ free) :
    potential (behind ++ front ++ [place]) rest ≤
      potential behind (front ++ free :: rest) +
        (zero.passAll (behind ++ front ++ [place])).count := by
  generalize passed : zero.passAll behind = f
  have filled_le : _ ≤ weighAhead f (front ++ free :: rest) :=
    weighAhead_fill (g := f) full filled le_rfl
  have last : weigh (f.passAll front) [place] ≤ ((f.passAll front).pass place).count := by
    cases place <;> simp [weigh]
  simp only [potential, append_assoc, weigh_append, passAll_append, passed, passAll_cons] at *
  simp only [passAll, foldl_nil] at *
  omega

/-- An arrival behind the waiting place: the places up to it no longer count. -/
theorem potential_pass (full : free ∉ front) (behindFull : free ∉ ahead) (filled : place ≠ free) :
    potential (front ++ [place]) (rest ++ ahead) ≤ potential (front ++ free :: rest) ahead := by
  have taken : free ∉ front ++ [place] := by simp [full, filled.symm]
  obtain ⟨none, weightless⟩ := passAll_of_full taken
  obtain ⟨none', weightless'⟩ := passAll_of_full full
  have moved : weighAhead zero (rest ++ ahead) ≤ _ := weighAhead_append behindFull
  simp only [potential, none, weightless, weigh_append, passAll_append, none', weightless', weigh,
    Nat.zero_add]
  exact moved

/-! ### Moves by position -/

/-- Places at the positions from `a` up to `b`. -/
def span (at_ : Nat → Place) (a b : Nat) : List Place := (range' a (b - a)).map at_

/-- Potential of the first `k` positions with the cursor at `c`. -/
def potentialAt (at_ : Nat → Place) (k c : Nat) : Nat := potential (span at_ 0 c) (span at_ c k)

/-- Fronts behind the cursor. -/
def frontsAt (at_ : Nat → Place) (c : Nat) : Nat := (zero.passAll (span at_ 0 c)).count

variable {at_ at' : Nat → Place} {a b c j k : Nat}

theorem not_mem_span (none : ∀ i, a ≤ i → i < b → at_ i ≠ place) : place ∉ span at_ a b := by
  intro member
  obtain ⟨i, inside, isPlace⟩ := mem_map.mp member
  rw [mem_range'_1] at inside
  exact none i (by omega) (by omega) isPlace

theorem span_append (first : a ≤ b) (second : b ≤ c) :
    span at_ a c = span at_ a b ++ span at_ b c := by
  have parts : range' a (c - a) = range' a (b - a) ++ range' b (c - b) := by
    have := range'_append_1 (s := a) (m := b - a) (n := c - b)
    rw [show a + (b - a) = b by omega, show b - a + (c - b) = c - a by omega] at this
    exact this.symm
  rw [span, parts, map_append]
  rfl

theorem span_cons (inside : j < c) : span at_ j c = at_ j :: span at_ (j + 1) c := by
  rw [span, show c - j = (c - (j + 1)) + 1 by omega, range'_succ]
  rfl

theorem span_congr (same : ∀ i, a ≤ i → i < b → at' i = at_ i) : span at' a b = span at_ a b := by
  refine map_congr_left fun i member => same i ?_ ?_
  all_goals rw [mem_range'_1] at member; omega

section

variable (others : ∀ i < k, i ≠ j → at' i = at_ i) (inside : j < k)
include others inside

theorem span_moved : span at' 0 (j + 1) = span at_ 0 j ++ [at' j] ∧
    span at' (j + 1) k = span at_ (j + 1) k := by
  refine ⟨?_, span_congr fun i above below => others i below (by omega)⟩
  rw [span_append (Nat.zero_le j) (Nat.le_succ j), span_cons (Nat.lt_succ_self j),
    span_congr fun i _ below => others i (by omega) (by omega)]
  simp [span]

/-- The cursor goes to the first ready place, which is taken. -/
theorem potentialAt_take (ahead : c ≤ j) (isReady : at_ j = ready)
    (first : ∀ i, c ≤ i → i < j → at_ i ≠ ready) (taken : at' j ≠ ready) :
    potentialAt at' k (j + 1) + (frontsAt at_ c + 1) ≤ potentialAt at_ k c := by
  obtain ⟨front, rest⟩ := span_moved others inside
  rw [span_append (Nat.zero_le c) ahead] at front
  rw [potentialAt, potentialAt, front, rest, span_append ahead inside.le, span_cons inside, isReady]
  exact potential_take (not_mem_span first) taken

/-- An arrival fills the first free place, and the cursor comes closer to the waiting one. -/
theorem potentialAt_fill (ahead : c ≤ j) (isFree : at_ j = free)
    (first : ∀ i, c ≤ i → i < j → at_ i ≠ free) (filled : at' j ≠ free) :
    potentialAt at' k (j + 1) ≤ potentialAt at_ k c + frontsAt at' (j + 1) := by
  obtain ⟨front, rest⟩ := span_moved others inside
  rw [span_append (Nat.zero_le c) ahead] at front
  rw [potentialAt, potentialAt, frontsAt, front, rest, span_append ahead inside.le, span_cons inside,
    isFree]
  exact potential_fill (not_mem_span first) filled

/-- There is no free place in front of the waiting one: an arrival fills the first one behind it. -/
theorem potentialAt_pass (behind : j < c) (within : c ≤ k) (isFree : at_ j = free)
    (first : ∀ i < j, at_ i ≠ free) (full : ∀ i, c ≤ i → i < k → at_ i ≠ free)
    (filled : at' j ≠ free) : potentialAt at' k (j + 1) ≤ potentialAt at_ k c := by
  obtain ⟨front, rest⟩ := span_moved others inside
  have rest := rest.trans (span_append behind within)
  rw [potentialAt, potentialAt, front, rest, span_append (Nat.zero_le j) behind.le, span_cons behind,
    isFree]
  exact potential_pass (not_mem_span fun i _ => first i) (not_mem_span full) filled

end

/-! ### The bound -/

theorem count_le_passAll : f.count ≤ (f.passAll places).count := by
  induction places generalizing f with
  | nil => exact le_rfl
  | cons place rest ih =>
    have := ih (f := f.pass place)
    rw [passAll_cons]
    cases place <;> simp only [Fronts.pass] at this ⊢ <;> omega

/-- Against a weight of `M` for every place, each front that begins on the way costs what its first
place has less, and each of them but one that was begun before costs a free place. -/
theorem weigh_le (M : ℤ) (top : ((f.passAll places).count : ℤ) ≤ M) :
    2 * (weigh f places : ℤ) + 2 * M * ((f.passAll places).count - f.count) -
        (f.passAll places).count * ((f.passAll places).count + 1) + f.count * (f.count + 1) +
        2 * M * ((f.passAll places).count - f.count - f.armed.toNat +
          (f.passAll places).armed.toNat) ≤ 2 * M * places.length := by
  induction places generalizing f with
  | nil =>
    simp only [weigh, passAll, foldl_nil, length_nil]
    push_cast
    linarith
  | cons place rest ih =>
    have ih := ih top
    have grows : f.count ≤ (f.passAll (place :: rest)).count := count_le_passAll
    have most : (f.count : ℤ) ≤ M := le_trans (by exact_mod_cast grows) top
    have positive : 0 ≤ M := le_trans (Int.natCast_nonneg _) most
    rw [passAll_cons] at *
    generalize (f.pass place).passAll rest = last at *
    cases place with
    | idle =>
      simp only [weigh, length_cons]
      simp only [Fronts.pass] at ih ⊢
      push_cast at ih ⊢
      linarith
    | free =>
      simp only [weigh, length_cons]
      simp only [Fronts.pass, Bool.toNat_true] at ih ⊢
      have : 0 ≤ 2 * M * f.armed.toNat := mul_nonneg (by omega) (Int.natCast_nonneg _)
      push_cast at ih ⊢
      linarith
    | ready =>
      simp only [weigh, length_cons]
      cases armed : f.armed with
      | false =>
        simp only [Fronts.pass, armed, Bool.toNat_false, Nat.add_zero] at ih ⊢
        push_cast at ih ⊢
        linarith
      | true =>
        simp only [Fronts.pass, armed, Bool.toNat_false, Bool.toNat_true] at ih ⊢
        push_cast at ih ⊢
        linarith

/-- From a free place on that begins a front. -/
theorem weigh_armed_le (c : Nat) (places : List Place) : ∃ M : ℤ, (c : ℤ) ≤ M ∧
    2 * (weigh ⟨c, true⟩ places : ℤ) + (M - c) * (M - c - 1) + 2 * M * (M - c - 1) ≤
      2 * M * places.length := by
  have law : _ ≤ 2 * _ * (places.length : ℤ) := weigh_le (f := ⟨c, true⟩) _ le_rfl
  have grows : c ≤ (passAll ⟨c, true⟩ places).count := count_le_passAll (f := ⟨c, true⟩)
  generalize passAll ⟨c, true⟩ places = last at law grows
  have : (0 : ℤ) ≤ 2 * last.count * last.armed.toNat := by positivity
  refine ⟨last.count, by exact_mod_cast grows, ?_⟩
  simp only [Bool.toNat_true] at law
  push_cast at law
  linarith

/-- From the cursor on, once something there was ready. -/
theorem weighAhead_begun_le (c : Nat) (places : List Place) : ∃ M : ℤ, (c : ℤ) + 1 ≤ M ∧
    2 * (weighAhead ⟨c, true⟩ places : ℤ) + (M - c - 1) * (M - c - 2) + 2 * M * (M - c - 1) ≤
      2 * M * places.length := by
  induction places with
  | nil => exact ⟨c + 1, le_rfl, by simp [weighAhead]⟩
  | cons place rest ih =>
    cases place with
    | free =>
      obtain ⟨M, most, law⟩ := weigh_armed_le (c + 1) rest
      refine ⟨M, by exact_mod_cast most, ?_⟩
      simp only [weighAhead, Bool.toNat_true, length_cons]
      push_cast at law ⊢
      linarith
    | idle | ready =>
      obtain ⟨M, most, law⟩ := ih
      refine ⟨M, most, ?_⟩
      simp only [weighAhead, length_cons]
      push_cast
      linarith

theorem weighAhead_le (f : Fronts) (places : List Place) : ∃ M : ℤ, (f.count : ℤ) ≤ M ∧
    2 * (weighAhead f places : ℤ) + (M - f.count) * (M - f.count - 1) +
        2 * M * (M - f.count - 1 - f.armed.toNat) ≤ 2 * M * places.length := by
  induction places with
  | nil =>
    refine ⟨f.count, le_rfl, ?_⟩
    have : (0 : ℤ) ≤ 2 * f.count * (1 + f.armed.toNat) := by positivity
    simp only [weighAhead, length_nil]
    push_cast
    linarith
  | cons place rest ih =>
    cases place with
    | free =>
      obtain ⟨M, most, law⟩ := weigh_armed_le (f.count + f.armed.toNat) rest
      refine ⟨M, le_trans (by push_cast; omega) most, ?_⟩
      simp only [weighAhead, length_cons]
      cases armed : f.armed with
      | false =>
        simp only [armed, Bool.toNat_false, Nat.add_zero] at law most ⊢
        push_cast at law ⊢
        linarith
      | true =>
        simp only [armed, Bool.toNat_true] at law most ⊢
        push_cast at law most ⊢
        linarith
    | idle =>
      obtain ⟨M, most, law⟩ := ih
      refine ⟨M, most, ?_⟩
      simp only [weighAhead, length_cons]
      push_cast
      linarith
    | ready =>
      obtain ⟨M, most, law⟩ := weighAhead_begun_le f.count rest
      refine ⟨M, by omega, ?_⟩
      have : (0 : ℤ) ≤ 2 * M * f.armed.toNat := mul_nonneg (by omega) (Int.natCast_nonneg _)
      simp only [weighAhead, length_cons]
      push_cast
      linarith

/-- The potential of `n - 1` places is at most a sixth of `n * (n + 1)`. -/
theorem potential_le (behind ahead : List Place) :
    6 * potential behind ahead ≤
      (behind.length + ahead.length + 1) * (behind.length + ahead.length + 2) := by
  obtain ⟨M, most, law⟩ := weighAhead_le (zero.passAll behind) ahead
  have law' := weigh_le M most
  generalize hk : behind.length + ahead.length = k
  have total : 2 * (potential behind ahead : ℤ) + 3 * M * (M - 1) ≤ 2 * M * k := by
    rw [← hk, potential]
    simp only [zero, Bool.toNat_false] at law law' ⊢
    push_cast at law law' ⊢
    linarith
  -- The product of two consecutive integers is not negative.
  have square : 0 ≤ ((k : ℤ) - 3 * M + 1) * ((k : ℤ) - 3 * M + 2) := by
    rcases le_or_gt 0 ((k : ℤ) - 3 * M + 1) with high | low
    · exact mul_nonneg high (by omega)
    · exact mul_nonneg_of_nonpos_of_nonpos (by omega) (by omega)
  have : 6 * (potential behind ahead : ℤ) ≤ (k + 1) * (k + 2) := by nlinarith
  exact_mod_cast this

/-- As many rounds as this on a ring of `n` places, the waiting one among them. -/
theorem potentialAt_le {n : Nat} (within : c < n) :
    potentialAt at_ (n - 1) c ≤ n * (n + 1) / 6 := by
  have bound := potential_le (span at_ 0 c) (span at_ c (n - 1))
  have length : (span at_ 0 c).length + (span at_ c (n - 1)).length + 1 = n := by
    simp only [span, length_map, length_range']
    omega
  rw [length, show (span at_ 0 c).length + (span at_ c (n - 1)).length + 2 = n + 1 by omega] at bound
  rw [potentialAt, Nat.le_div_iff_mul_le (by decide)]
  omega

end Coaptic.Sweep
