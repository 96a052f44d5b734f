import Mathlib.Data.Finset.Card
import Mathlib.Data.Finset.Basic
import Mathlib.Data.List.Basic

/-!
# Bounded caches that drop the oldest row

A cache of `n` rows maps a key to the time its row lapses. `log` lists every key stored so far
with that time, in order. A row goes when its time has come or when a new key needs its place,
and then the row with the least time goes. So whatever was stored and has not lapsed is still
there, unless `n` other keys were stored after it.
-/
namespace Coaptic.Cache

open Finset List

variable {κ : Type}

/-- `k` was stored, and `after` is what was stored after it. -/
def StoredAt (log : List (κ × Nat)) (k : κ) (lapse : Nat) (after : List (κ × Nat)) : Prop :=
  ∃ before, log = before ++ (k, lapse) :: after

variable {k k' : κ} {log' : List (κ × Nat)}

variable [DecidableEq κ]

/-- Keys other than `k` that `log` mentions. -/
def others (k : κ) (log : List (κ × Nat)) : Finset κ :=
  (log.map Prod.fst).toFinset.erase k

theorem mem_others {log : List (κ × Nat)} :
    k' ∈ others k log ↔ k' ≠ k ∧ ∃ lapse, (k', lapse) ∈ log := by
  simp [others]

theorem others_mono {log : List (κ × Nat)} (sub : log ⊆ log') : others k log ⊆ others k log' := by
  intro k' mem
  obtain ⟨ne, lapse, mem⟩ := mem_others.mp mem
  exact mem_others.mpr ⟨ne, lapse, sub mem⟩

variable {n now : Nat} {rows rows' : κ → Option Nat} {log : List (κ × Nat)}

/-! ### Rows that lapse at the same time

When several rows have the least time, which of them goes does not depend on which was stored
first. What then is retained is counted by the times alone: `Covers` is what holds of the rows in
either case. -/

/-- Keys other than `k` that were stored with a time no earlier than `lapse`. -/
def rivals (k : κ) (lapse : Nat) (log : List (κ × Nat)) : Finset κ :=
  others k (log.filter (lapse ≤ ·.2))

theorem mem_rivals {lapse : Nat} {log : List (κ × Nat)} :
    k' ∈ rivals k lapse log ↔ k' ≠ k ∧ ∃ lapse', lapse ≤ lapse' ∧ (k', lapse') ∈ log := by
  simp [rivals, mem_others, and_comm]

theorem rivals_mono {lapse : Nat} {log : List (κ × Nat)} (sub : log ⊆ log') :
    rivals k lapse log ⊆ rivals k lapse log' :=
  others_mono (filter_subset _ sub)

/-- What is stored and has not lapsed has a row, unless `n` other keys lapse no earlier. -/
structure Covers (n now : Nat) (rows : κ → Option Nat) (log : List (κ × Nat)) : Prop where
  logged : ∀ k lapse, rows k = some lapse → (k, lapse) ∈ log
  kept : ∀ k lapse, (k, lapse) ∈ log → now < lapse →
    (∃ lapse', rows k = some lapse' ∧ lapse ≤ lapse') ∨ n ≤ (rivals k lapse log).card

namespace Covers

theorem later {now' : Nat} (h : Covers n now rows log) (le : now ≤ now') :
    Covers n now' rows log where
  logged := h.logged
  kept k lapse stored live := h.kept k lapse stored (by omega)

theorem lapse (h : Covers n now rows log)
    (same : ∀ k, rows' k = rows k ∨ rows' k = none ∧ ∀ due, rows k = some due → due ≤ now) :
    Covers n now rows' log where
  logged k due row := by
    rcases same k with eq | ⟨gone, -⟩
    · exact h.logged k due (eq ▸ row)
    · rw [gone] at row
      cases row
  kept k due stored live := by
    refine (h.kept k due stored live).imp_left ?_
    rintro ⟨due', row, le⟩
    rcases same k with eq | ⟨-, past⟩
    · exact ⟨due', eq ▸ row, le⟩
    · have := past due' row
      omega

variable {k : κ} {due : Nat}

/-- Store `k`. Every other row stays, or is one that `n` other keys outlive. -/
theorem store (h : Covers n now rows log) (newest : ∀ entry ∈ log, entry.2 ≤ due)
    (row : rows' k = some due)
    (same : ∀ k', k' ≠ k → rows' k' = rows k' ∨ rows' k' = none ∧ ∀ lapse, rows k' = some lapse →
      n ≤ (rivals k' lapse (log ++ [(k, due)])).card) :
    Covers n now rows' (log ++ [(k, due)]) where
  logged k' due' found := by
    by_cases eq : k' = k
    · subst eq
      rw [row] at found
      cases found
      simp
    rcases same k' eq with kept | ⟨gone, -⟩
    · exact mem_append_left _ (h.logged k' due' (kept ▸ found))
    · rw [gone] at found
      cases found
  kept k' due' stored live := by
    by_cases eq : k' = k
    · subst eq
      refine .inl ⟨due, row, ?_⟩
      rcases mem_append.mp stored with before | last
      · exact newest (k', due') before
      · cases List.mem_singleton.mp last
        exact Nat.le_refl _
    have before : (k', due') ∈ log := by
      refine (mem_append.mp stored).resolve_right fun last => eq ?_
      cases List.mem_singleton.mp last
      rfl
    have grown : rivals k' due' log ⊆ rivals k' due' (log ++ [(k, due)]) :=
      rivals_mono (subset_append_left _ _)
    rcases h.kept k' due' before live with ⟨due'', found, le⟩ | many
    · rcases same k' eq with kept | ⟨-, outlived⟩
      · exact .inl ⟨due'', kept.trans found, le⟩
      -- Who outlives the row outlives this earlier store of the key.
      refine .inr ((outlived due'' found).trans (card_le_card ?_))
      intro other mem
      obtain ⟨ne, lapse, late, inLog⟩ := mem_rivals.mp mem
      exact mem_rivals.mpr ⟨ne, lapse, le.trans late, inLog⟩
    · exact .inr (many.trans (card_le_card grown))

/-- In a full cache the row with the least time is outlived by all others and by the new one. -/
theorem outlived {victim : κ} {least : Nat} {keys : Finset κ} (h : Covers n now rows log)
    (newest : ∀ entry ∈ log, entry.2 ≤ due) (full : keys.card = n)
    (held : ∀ k' ∈ keys, (rows k').isSome) (old : rows victim = some least) (new : rows k = none)
    (oldest : ∀ k' due', rows k' = some due' → least ≤ due') :
    n ≤ (rivals victim least (log ++ [(k, due)])).card := by
  have fresh : k ∉ keys.erase victim := by
    intro mem
    have := held k (mem_of_mem_erase mem)
    rw [new] at this
    cases this
  have all : insert k (keys.erase victim) ⊆ rivals victim least (log ++ [(k, due)]) := by
    intro other mem
    rcases mem_insert.mp mem with rfl | mem
    · refine mem_rivals.mpr ⟨?_, due, newest _ (h.logged victim least old), by simp⟩
      rintro rfl
      rw [old] at new
      cases new
    obtain ⟨ne, mem⟩ := mem_erase.mp mem
    obtain ⟨lapse, isRow⟩ := Option.isSome_iff_exists.mp (held other mem)
    exact mem_rivals.mpr ⟨ne, lapse, oldest other lapse isRow,
      mem_append_left _ (h.logged other lapse isRow)⟩
  calc n ≤ (keys.erase victim).card + 1 := by
          have := pred_card_le_card_erase (s := keys) (a := victim)
          omega
    _ = (insert k (keys.erase victim)).card := (card_insert_of_notMem fresh).symm
    _ ≤ _ := card_le_card all

/-- A key whose row is missing or has lapsed was stored too long ago, or `n` other keys were
stored that lapse no earlier. -/
theorem of_missing (h : Covers n now rows log) (stored : (k, due) ∈ log)
    (missing : ∀ due', rows k = some due' → due' ≤ now) :
    due ≤ now ∨ n ≤ (rivals k due log).card := by
  by_cases live : now < due
  · refine (h.kept k due stored live).imp_left ?_
    rintro ⟨due', row, le⟩
    have := missing due' row
    omega
  · exact .inl (by omega)

end Covers

end Coaptic.Cache
