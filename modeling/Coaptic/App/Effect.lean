import Coaptic.App.State
import Coaptic.Lib.Cache

/-!
# What a program may do to the state

Two relations between the state before and after a program. `Quiet` steps leave the dedup table and
its history alone. `Keeps` says that the table still retains what was stored. Both add up along a
program, so that one lemma for each function says what it does whatever its branches.
-/
namespace Coaptic.App

open Codec Block Program DatagramPool

variable {η : Type} {cfg : Config}

variable {s t u : State η cfg} {α : Type}
  {f : DatagramSlot η Sealing → DatagramSlot η Sealing}

/-! ### Dedup rows -/

def lapses [DecidableEq η] (table : DedupTable η Sealing) (key : DedupKey η) : Option Nat :=
  (table.find key).map (·.dueMs)

/-- What the table retains whether or not rows lapse at the same time. -/
structure Covered [DecidableEq η] (s : State η cfg) : Prop where
  covers : Cache.Covers s.dedup.entries.length s.now (lapses s.dedup) s.stored
  newest : ∀ entry ∈ s.stored, entry.2 ≤ dedupDueMs s.now
  lapse : ∀ k, lapses s.dedup k ≠ some 0

/-- The table keeps its size and still retains what was stored, whatever the keys of new rows. -/
structure Keeps [DecidableEq η] (s t : State η cfg) : Prop where
  capacity : t.dedup.entries.length = s.dedup.entries.length
  covered : Covered s → Covered t

/-- What is kept adds up along a program. -/
instance keepsLedger [DecidableEq η] : Ledger (fun _ => @Keeps η cfg _) where
  refl _ := ⟨rfl, id⟩
  trans h h' := ⟨h'.capacity.trans h.capacity, h'.covered ∘ h.covered⟩
  mono _ h := h

/-! ### Steps that leave the table alone -/

structure Quiet (s t : State η cfg) : Prop where
  dedup : t.dedup = s.dedup
  now : t.now = s.now
  stored : t.stored = s.stored

theorem Quiet.refl (s : State η cfg) : Quiet s s := ⟨rfl, rfl, rfl⟩

theorem Quiet.trans (h : Quiet s t) (h' : Quiet t u) : Quiet s u where
  dedup := h'.dedup.trans h.dedup
  now := h'.now.trans h.now
  stored := h'.stored.trans h.stored

def Calm (p : Act η cfg α) : Prop := Costs (fun _ => Quiet) p fun _ => 0

instance quietLedger : Ledger (fun _ : Nat => @Quiet η cfg) where
  refl := Quiet.refl
  trans := Quiet.trans
  mono _ h := h

theorem costs_ofExcept {R : Nat → State η cfg → State η cfg → Prop} [Ledger R]
    (outcome : Except Error α) : Costs R (ofExcept outcome : Act η cfg α) fun _ => 0 := by
  cases outcome with
  | error e => exact .throw e
  | ok a => exact .pure a

/-! ### The primitives -/

theorem calm_answer : Calm (answer : Act η cfg Bool) := fun _ => ⟨rfl, rfl, rfl⟩

theorem calm_acquireTx : Calm (acquireTx : Act η cfg (Option Nat)) := by
  intro s
  unfold acquireTx
  rw [exec_modifyGet]
  cases s.tx.acquire with
  | none => exact .refl s
  | some result => exact ⟨rfl, rfl, rfl⟩

section

variable (tx : Nat)

theorem calm_releaseTx : Calm (releaseTx tx : Act η cfg Unit) := by
  intro s
  unfold releaseTx
  rw [exec_modify]
  cases s.tx.release tx with
  | error e => exact .refl s
  | ok pool => exact ⟨rfl, rfl, rfl⟩

theorem calm_modifyTx (f : DatagramSlot η Sealing → DatagramSlot η Sealing) :
    Calm (modifyTx tx f : Act η cfg Unit) := by
  refine .get_bind fun s => ?_
  split
  · exact .throw _
  · exact fun t => ⟨rfl, rfl, rfl⟩

theorem calm_setTxEndpoint (dest : η) : Calm (setTxEndpoint tx dest : Act η cfg Unit) :=
  calm_modifyTx tx _

theorem calm_plainPacket (msg : Message cfg.maxLen) :
    Calm (plainPacket msg : Act η cfg (Packet Sealing)) := by
  unfold plainPacket
  split
  · exact .throw _
  · exact .pure _

theorem calm_encodeTx (msg : Message cfg.maxLen) : Calm (encodeTx tx msg : Act η cfg Unit) := by
  refine .get_bind fun s => ?_
  split
  · exact .throw _
  · exact (calm_plainPacket msg).bind fun packet t => ⟨rfl, rfl, rfl⟩

theorem calm_sendTx : Calm (sendTx tx : Act η cfg Unit) := by
  refine .get_bind fun s => ?_
  split
  · exact .throw _
  split
  · exact .throw _
  have handed (dest : η) (packet : Packet Sealing) :
      Calm (modify fun s => { s with sent := s.sent ++ [(dest, packet)] } : Act η cfg PUnit) :=
    fun t => ⟨rfl, rfl, rfl⟩
  refine (handed _ _).bind fun _ => calm_answer.bind fun accepted => ?_
  split
  · exact .pure _
  · exact .throw _

theorem calm_sendAndRelease : Calm (sendAndRelease tx : Act η cfg Unit) :=
  (calm_sendTx tx).attempt.bind fun outcome => (calm_releaseTx tx).bind fun _ => costs_ofExcept outcome

end

variable [DecidableEq η]

theorem Quiet.keeps (h : Quiet s t) : Keeps s t where
  capacity := by rw [h.dedup]
  covered cover :=
    { covers := by rw [h.now, h.dedup, h.stored]; exact cover.covers
      newest := by rw [h.now, h.stored]; exact cover.newest
      lapse := by rw [h.dedup]; exact cover.lapse }

theorem Calm.keeps {p : Act η cfg α} (h : Calm p) : Costs (fun _ => Keeps) p fun _ => 0 :=
  fun s => (h s).keeps

/-- Rows that have lapsed may go, and a row may get another reply. -/
theorem Keeps.of_lapse (eq : t = { s with dedup := t.dedup })
    (capacity : t.dedup.entries.length = s.dedup.entries.length)
    (same : ∀ k, lapses t.dedup k = lapses s.dedup k ∨ lapses t.dedup k = none ∧
      ∀ due, lapses s.dedup k = some due → due ≤ s.now) :
    Keeps s t := by
  rw [eq]
  refine ⟨capacity, fun h => ⟨capacity ▸ h.covers.lapse same, h.newest, fun k => ?_⟩⟩
  rcases same k with eq | ⟨none, -⟩
  · exact eq ▸ h.lapse k
  · simp only [none]
    exact nofun

end Coaptic.App
