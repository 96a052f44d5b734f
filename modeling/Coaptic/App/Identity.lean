import Coaptic.App.State
import Coaptic.Lib.Result
import Mathlib.Data.Nat.Nth

/-!
# Message IDs of the App

The allocator numbers messages modulo 2¹⁶ and counts them in epochs of 65 536. An epoch is followed
by another one only after a pause that starts at the largest time seen.
-/
namespace Coaptic.App

open Codec

/-- Failure to obtain a fresh identity or retransmission schedule. -/
inductive IdentityError where
  | randomnessUnavailable
  | tokenExhausted
  | messageIdExhausted
deriving DecidableEq

/-- Where the allocator gets its randomness. -/
inductive Source where
  | random
  | io (initialMid : UInt16)
  | test
deriving DecidableEq

/-- Identity allocation: Message IDs and the jitter of the last one. -/
structure AppIds where
  source : Source
  nextMid : UInt16
  issued : Nat
  lastMidMs : Nat
  jitter : UInt16
deriving DecidableEq

/-- A call of `next`: the caller's clock and the outcome of each fill of four bytes. -/
structure NextCall where
  nowMs : Nat
  fills : List (Option UInt32)

namespace AppIds

/-- Fresh allocator. `seed` is the outcome of the first fill of a random source. -/
def new (source : Source) (seed : Option UInt16) : Option AppIds :=
  let start (mid : UInt16) : AppIds := ⟨source, mid, 0, 0, 0⟩
  match source with
  | .test => some (start 1)
  | .io initialMid => some (start initialMid)
  | .random => seed.map start

def ackRandomSpanMs : UInt32 := 2000 / 2 * (3 - 2)

def draw (width limit : UInt32) : Nat → List (Option UInt32) → Except IdentityError UInt32
  | tries + 1, some value :: fills =>
    if value < limit then .ok (value % width) else draw width limit tries fills
  | _, _ => .error .randomnessUnavailable

section

variable (ids : AppIds)

def sampleJitter (fills : List (Option UInt32)) : Except IdentityError UInt32 :=
  if ids.source = .test then .ok 0
  else
  let width := ackRandomSpanMs + 1
  let max : UInt32 := 0xFFFFFFFF
  draw width (max - max % width) 8 fills

def next (call : NextCall) : AppIds × Except IdentityError MessageId :=
  if ids.issued = 65536 ∧ call.nowMs - ids.lastMidMs < exchangeLifetimeMs then
    (ids, .error .messageIdExhausted)
  else
  match ids.sampleJitter call.fills with
  | .error e => (ids, .error e)
  | .ok jitter =>
  ({ ids with
      nextMid := ids.nextMid + 1
      issued := (if ids.issued = 65536 then 0 else ids.issued) + 1
      lastMidMs := max ids.lastMidMs call.nowMs
      jitter := jitter.toUInt16 },
    .ok ids.nextMid)

def after (ids : AppIds) (calls : Nat → NextCall) : Nat → AppIds
  | 0 => ids
  | n + 1 => ((ids.after calls n).next (calls n)).1

def answer (calls : Nat → NextCall) (n : Nat) : Except IdentityError MessageId :=
  ((ids.after calls n).next (calls n)).2

def Answered (calls : Nat → NextCall) (n : Nat) : Prop :=
  (ids.answer calls n).isOk = true

end

instance (ids : AppIds) (calls : Nat → NextCall) : DecidablePred (ids.Answered calls) :=
  fun n => inferInstanceAs (Decidable ((ids.answer calls n).isOk = true))

def count (ids : AppIds) (calls : Nat → NextCall) (n : Nat) : Nat := Nat.count (ids.Answered calls) n

theorem count_succ (ids : AppIds) (calls : Nat → NextCall) (n : Nat) :
    ids.count calls (n + 1) = ids.count calls n + if ids.Answered calls n then 1 else 0 :=
  Nat.count_succ _ n

theorem next_of_error {ids : AppIds} {call : NextCall} (h : (ids.next call).2.isOk = false) :
    (ids.next call).1 = ids := by
  fun_cases next ids call with
  | case3 => simp_all [next]
  | _ => simp_all [next]

theorem next_of_ok {ids : AppIds} {call : NextCall} (h : (ids.next call).2.isOk = true) :
    (ids.issued = 65536 → exchangeLifetimeMs ≤ call.nowMs - ids.lastMidMs) ∧
      (ids.next call).2 = .ok ids.nextMid ∧
      (ids.next call).1.nextMid = ids.nextMid + 1 ∧
      (ids.next call).1.issued = (if ids.issued = 65536 then 0 else ids.issued) + 1 ∧
      (ids.next call).1.lastMidMs = max ids.lastMidMs call.nowMs := by
  fun_cases next ids call with
  | case3 open_ jitter drawn =>
    refine ⟨fun full => Nat.le_of_not_lt fun soon => open_ ⟨full, soon⟩, ?_⟩
    simp_all [next]
  | _ => simp_all [next]

/-- Where an allocator that starts as `ids` stands after `n` calls. -/
structure At (ids : AppIds) (calls : Nat → NextCall) (n : Nat) (now : AppIds) : Prop where
  nextMid : now.nextMid = ids.nextMid + UInt16.ofNat (ids.count calls n)
  epoch : ∃ epochs, ids.count calls n = 65536 * epochs + now.issued
  small : now.issued ≤ 65536
  fresh : now.issued = 0 → ids.count calls n = 0
  seen : ∀ d < n, ids.Answered calls d → (calls d).nowMs ≤ now.lastMidMs

section Runs

variable {ids : AppIds} (unused : ids.issued = 0) (calls : Nat → NextCall)
include unused

theorem at_after (n : Nat) : ids.At calls n (ids.after calls n) := by
  induction n with
  | zero => exact ⟨(UInt16.add_zero _).symm, ⟨0, by rw [after, unused]; rfl⟩, by simp [after, unused],
      fun _ => rfl, by simp⟩
  | succ n ih =>
  by_cases answered : ids.Answered calls n
  · obtain ⟨-, -, mid, issued, last⟩ := next_of_ok answered
    obtain ⟨epochs, count⟩ := ih.epoch
    have step := ids.count_succ calls n
    rw [if_pos answered] at step
    refine ⟨?_, ?_, ?_, ?_, ?_⟩
    · rw [after, mid, ih.nextMid, step, UInt16.ofNat_add, UInt16.add_assoc]
      rfl
    · rw [after, issued, step, count]
      split
      · exact ⟨epochs + 1, by omega⟩
      · exact ⟨epochs, by omega⟩
    · have := ih.small
      rw [after, issued]
      split <;> omega
    · rw [after, issued]
      omega
    intro d before done
    rw [after, last]
    rcases Nat.lt_succ_iff_lt_or_eq.mp before with earlier | rfl
    · exact (ih.seen d earlier done).trans (le_max_left _ _)
    · exact le_max_right _ _
  · have same := next_of_error (Bool.not_eq_true _ ▸ answered)
    have step := ids.count_succ calls n
    rw [if_neg answered, Nat.add_zero] at step
    rw [after, same]
    refine ⟨step ▸ ih.nextMid, step ▸ ih.epoch, ih.small, step ▸ ih.fresh, ?_⟩
    intro d before done
    rcases Nat.lt_succ_iff_lt_or_eq.mp before with earlier | rfl
    · exact ih.seen d earlier done
    · exact absurd done answered

/-- The first call of every later epoch waits for the pause. -/
theorem paused {c : Nat} (answered : ids.Answered calls c) (later : 0 < ids.count calls c)
    (first : 65536 ∣ ids.count calls c) {d : Nat} (before : d < c)
    (done : ids.Answered calls d) : (calls d).nowMs + exchangeLifetimeMs ≤ (calls c).nowMs := by
  have state := at_after unused calls c
  obtain ⟨epochs, count⟩ := state.epoch
  have full : (ids.after calls c).issued = 65536 := by
    have := state.small
    have := state.fresh
    omega
  have wait := (next_of_ok answered).1 full
  have seen := state.seen d before done
  have : 0 < exchangeLifetimeMs := by decide
  omega

end Runs

/-- No Message ID is used again before its lifetime is over. -/
theorem message_ids_reused_late {source : Source} {seed : Option UInt16} {ids : AppIds}
    (made : new source seed = some ids) (calls : Nat → NextCall) :
    (∀ a b mid, a < b → ids.answer calls a = .ok mid → ids.answer calls b = .ok mid →
      (∃ epochs > 0, ids.count calls b = ids.count calls a + 65536 * epochs) ∧
      ∃ c, a < c ∧ c ≤ b ∧ ∀ d < c, ids.Answered calls d →
        (calls d).nowMs + exchangeLifetimeMs ≤ (calls c).nowMs) ∧
    ∀ n, ¬ids.Answered calls n → ids.after calls (n + 1) = ids.after calls n := by
  have unused : ids.issued = 0 := by
    unfold new at made
    split at made <;> simp_all <;> grind
  refine ⟨fun a b mid before atA atB => ?_, fun n failed =>
    next_of_error (Bool.eq_false_iff.mpr failed)⟩
  have doneA : ids.Answered calls a := by rw [Answered, atA]; rfl
  have doneB : ids.Answered calls b := by rw [Answered, atB]; rfl
  have more : ids.count calls a < ids.count calls b := Nat.count_strict_mono doneA before
  have last := ids.count_succ calls b
  rw [if_pos doneB] at last
  -- The two calls have numbers that are equal modulo 2¹⁶ ...
  have same : ids.count calls a % 65536 = ids.count calls b % 65536 := by
    have midA := (next_of_ok doneA).2.1.symm.trans atA
    have midB := (next_of_ok doneB).2.1.symm.trans atB
    rw [(at_after unused calls _).nextMid] at midA midB
    have equal := (Except.ok.inj midA).trans (Except.ok.inj midB).symm
    simpa using congrArg UInt16.toNat (UInt16.add_right_inj _ |>.mp equal)
  -- ... so an epoch starts after the first one and not after the second.
  have inside : 65536 * (ids.count calls a / 65536 + 1) < ids.count calls (b + 1) := by omega
  have exists_ (finite) := inside.trans_le (last.trans_le (Nat.count_lt_card finite doneB))
  have doneC := Nat.nth_mem _ exists_
  have number : ids.count calls _ = _ := Nat.count_nth exists_
  have upTo := Nat.nth_lt_of_lt_count inside
  generalize Nat.nth (ids.Answered calls) _ = c at doneC number upTo
  have later : a < c := by
    by_contra early
    have : ids.count calls c ≤ ids.count calls a := Nat.count_monotone _ (Nat.le_of_not_lt early)
    omega
  refine ⟨⟨(ids.count calls b - ids.count calls a) / 65536, by omega, by omega⟩, c, later,
    by omega, fun d earlier done => ?_⟩
  exact paused unused calls doneC (by omega) ⟨_, number⟩ earlier done

def spaced (n : Nat) : NextCall := ⟨(n + 1) * exchangeLifetimeMs, []⟩

theorem next_spaced {ids : AppIds} {n : Nat} (test : ids.source = .test)
    (early : ids.lastMidMs ≤ n * exchangeLifetimeMs) :
    (ids.next (spaced n)).2.isOk = true ∧ (ids.next (spaced n)).1.source = .test ∧
      (ids.next (spaced n)).1.lastMidMs ≤ (n + 1) * exchangeLifetimeMs := by
  have now : (spaced n).nowMs = n * exchangeLifetimeMs + exchangeLifetimeMs := Nat.succ_mul _ _
  rw [next, if_neg (by omega), sampleJitter, if_pos test]
  exact ⟨rfl, test, max_le (early.trans (Nat.mul_le_mul_right _ n.le_succ)) le_rfl⟩

theorem spaced_answered (n : Nat) : (AppIds.mk .test 1 0 0 0).Answered spaced n := by
  have early (n : Nat) : ((AppIds.mk .test 1 0 0 0).after spaced n).source = .test ∧
      ((AppIds.mk .test 1 0 0 0).after spaced n).lastMidMs ≤ n * exchangeLifetimeMs := by
    induction n with
    | zero => exact ⟨rfl, Nat.zero_le _⟩
    | succ n ih => exact (next_spaced ih.1 ih.2).2
  exact (next_spaced (early n).1 (early n).2).1

theorem message_ids_reused_late_spaced :
    ∃ c, 0 < c ∧ c ≤ 65536 ∧ (spaced 0).nowMs + exchangeLifetimeMs ≤ (spaced c).nowMs := by
  have made : new .test none = some (AppIds.mk .test 1 0 0 0) := rfl
  have count (n : Nat) : (AppIds.mk .test 1 0 0 0).count spaced n = n :=
    Nat.count_iff_forall.mpr fun i _ => spaced_answered i
  have mid (n : Nat) := (next_of_ok (spaced_answered n)).2.1
  have again : (AppIds.mk .test 1 0 0 0).answer spaced 65536 = .ok 1 := by
    rw [answer, mid, (at_after rfl spaced _).nextMid, count]
    rfl
  obtain ⟨c, later, upTo, late⟩ :=
    ((message_ids_reused_late made spaced).1 0 65536 1 (by decide) (mid 0) again).2
  exact ⟨c, later, upTo, late 0 later (spaced_answered 0)⟩

end AppIds

end Coaptic.App
