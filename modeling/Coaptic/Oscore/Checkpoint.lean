import Coaptic.Oscore.Replay

/-!
# The order of replay checkpoints

A checkpoint stands for the set of sequence numbers it rejects. The shifted-mask test of
`validateSuccessor` compares two such sets bit by bit, so it is a preorder and never lets a
rejected number back in. Every checkpoint of a context that accepts numbers and restores
checkpoints is a successor of all the earlier ones.
-/
namespace Coaptic.Oscore

open Bitmap SecurityContext

variable {requests maxLen : Nat}

namespace ReplayCheckpoint

section

variable (checkpoint : ReplayCheckpoint)

/-- What is persisted: the lower bound and the bitmap. -/
def parts : Nat × BitVec 32 :=
  (checkpoint.left, checkpoint.received)

/-- The sequence numbers a context in this state refuses. -/
def Rejects (seq : Nat) : Prop :=
  seqEnd ≤ seq ∨ seq < checkpoint.left ∨ checkpoint.received.getLsbD (seq - checkpoint.left) = true

/-- The lower bound and every received number lie in the sequence space. -/
structure Valid (checkpoint : ReplayCheckpoint) : Prop where
  left_le : checkpoint.left ≤ seqEnd
  below : ∀ i, checkpoint.received.getLsbD i = true → checkpoint.left + i < seqEnd

theorem fromParts_eq_ok_iff {left : Nat} {received : BitVec 32} {checkpoint : ReplayCheckpoint} :
    fromParts left received = .ok checkpoint ↔
      checkpoint = ⟨left, received⟩ ∧ checkpoint.Valid := by
  rw [fromParts]
  by_cases empty : received = 0#32
  · subst empty
    by_cases far : seqEnd < left
    · rw [if_pos (.inl far)]
      refine ⟨by simp, ?_⟩
      rintro ⟨rfl, valid⟩
      exact absurd valid.left_le (Nat.not_le.mpr far)
    rw [if_neg (by simpa using far)]
    constructor
    · rintro ⟨⟩
      exact ⟨rfl, Nat.not_lt.mp far, by simp⟩
    · rintro ⟨rfl, -⟩
      rfl
  · -- only the highest received number has to be compared with the end of the space
    obtain ⟨highest, above⟩ := getLsbD_highest empty
    split
    next refused =>
      refine ⟨by simp, ?_⟩
      rintro ⟨rfl, valid⟩
      have last := valid.below _ highest
      have := valid.left_le
      simp only at last this
      omega
    next accepted =>
      simp only [not_or, ne_eq, empty, not_false_eq_true, true_and] at accepted
      constructor
      · rintro ⟨⟩
        refine ⟨rfl, by simp only; omega, ?_⟩
        intro i set
        have := above i set
        simp only
        omega
      · rintro ⟨rfl, -⟩
        rfl

theorem validateSuccessor_eq_ok_iff {checkpoint next : ReplayCheckpoint} :
    checkpoint.validateSuccessor next = .ok () ↔
      checkpoint.left ≤ next.left ∧
        ∀ i, checkpoint.received.getLsbD (next.left - checkpoint.left + i) = true →
          next.received.getLsbD i = true := by
  simp only [validateSuccessor]
  split
  next behind =>
    refine ⟨by simp, ?_⟩
    rintro ⟨ahead, -⟩
    omega
  next ahead =>
  have contained := and_not_eq_zero (slide checkpoint.received (next.left - checkpoint.left))
    next.received
  simp only [getLsbD_slide] at contained
  split
  next lost =>
    refine ⟨by simp, ?_⟩
    rintro ⟨-, kept⟩
    exact absurd (contained.mpr kept) lost
  next kept =>
    exact ⟨fun _ => ⟨Nat.not_lt.mp ahead, contained.mp (not_not.mp kept)⟩, fun _ => rfl⟩

/-- A successor rejects whatever its predecessor rejects. -/
theorem Rejects.successor {checkpoint next : ReplayCheckpoint} {seq : Nat}
    (succeeds : checkpoint.validateSuccessor next = .ok ()) (rejected : checkpoint.Rejects seq) :
    next.Rejects seq := by
  obtain ⟨ahead, kept⟩ := validateSuccessor_eq_ok_iff.mp succeeds
  rcases rejected with beyond | behind | received
  · exact .inl beyond
  · exact .inr (.inl (by omega))
  by_cases left : seq < next.left
  · exact .inr (.inl left)
  by_cases before : seq < checkpoint.left
  · omega
  -- the same number, counted from the new left edge
  refine .inr (.inr (kept _ ?_))
  have position : next.left - checkpoint.left + (seq - next.left) = seq - checkpoint.left := by
    omega
  rw [position]
  exact received

theorem validateSuccessor_refl : checkpoint.validateSuccessor checkpoint = .ok () := by
  apply validateSuccessor_eq_ok_iff.mpr
  refine ⟨Nat.le_refl _, ?_⟩
  intro i set
  simpa using set

end

theorem validateSuccessor_trans {first second third : ReplayCheckpoint}
    (h : first.validateSuccessor second = .ok ()) (h' : second.validateSuccessor third = .ok ()) :
    first.validateSuccessor third = .ok () := by
  obtain ⟨ahead, kept⟩ := validateSuccessor_eq_ok_iff.mp h
  obtain ⟨ahead', kept'⟩ := validateSuccessor_eq_ok_iff.mp h'
  apply validateSuccessor_eq_ok_iff.mpr
  refine ⟨ahead.trans ahead', ?_⟩
  intro i set
  apply kept'
  apply kept
  have shifts : second.left - first.left + (third.left - second.left + i) =
      third.left - first.left + i := by omega
  rw [shifts]
  exact set

end ReplayCheckpoint

namespace SecurityContext

open ReplayCheckpoint

section

variable (ctx : SecurityContext requests maxLen)

theorem replayFresh_eq_false_iff (seq : Nat) :
    ctx.replayFresh seq = false ↔ ctx.replayCheckpoint.Rejects seq := by
  simp only [replayFresh, Rejects, replayCheckpoint]
  split
  next outside => exact ⟨fun _ => outside.imp_right .inl, fun _ => rfl⟩
  next inside =>
  split
  next ahead =>
    rw [BitVec.getLsbD_of_ge _ _ (show 32 ≤ seq - ctx.replayLeft from ahead)]
    refine ⟨by simp, ?_⟩
    rintro (beyond | behind | received)
    · exact absurd (.inl beyond) inside
    · exact absurd (.inr behind) inside
    · cases received
  next within =>
    rw [replayWindow] at within
    rw [beq_eq_false_iff_ne, and_bit_ne_zero _ (by omega)]
    refine ⟨fun received => .inr (.inr received), ?_⟩
    rintro (beyond | behind | received)
    · exact absurd (.inl beyond) inside
    · exact absurd (.inr behind) inside
    · exact received

/-- Marking a number moves the checkpoint to a valid successor. -/
theorem replayAccept_checkpoint (seq : Nat) (valid : ctx.replayCheckpoint.Valid) :
    ctx.replayCheckpoint.validateSuccessor (ctx.replayAccept seq).replayCheckpoint = .ok () ∧
      (ctx.replayAccept seq).replayCheckpoint.Valid := by
  have width : replayWindow = 32 := rfl
  simp only [replayAccept]
  split
  next outside => exact ⟨validateSuccessor_refl _, valid⟩
  next inside =>
  split
  next ahead =>
    -- the window slides until the number is its last one
    constructor
    · apply validateSuccessor_eq_ok_iff.mpr
      refine ⟨by simp only [replayCheckpoint]; omega, ?_⟩
      intro i set
      have shift : seq - (replayWindow - 1) - ctx.replayLeft =
          seq - ctx.replayLeft - (replayWindow - 1) := by omega
      simp only [replayCheckpoint, shift] at set
      exact (getLsbD_insert _ (by decide) i).mpr (.inl (by rw [getLsbD_slide]; exact set))
    refine ⟨by simp only [replayCheckpoint]; omega, ?_⟩
    intro i set
    simp only [replayCheckpoint] at set ⊢
    rcases (getLsbD_insert _ (by decide) i).mp set with old | last
    · rw [getLsbD_slide] at old
      have := valid.below _ old
      simp only [replayCheckpoint] at this
      omega
    · omega
  next within =>
    constructor
    · apply validateSuccessor_eq_ok_iff.mpr
      refine ⟨Nat.le_refl _, ?_⟩
      intro i set
      simp only [replayCheckpoint, Nat.sub_self, Nat.zero_add] at set
      exact (getLsbD_insert _ (by omega) i).mpr (.inl set)
    refine ⟨valid.left_le, ?_⟩
    intro i set
    rcases (getLsbD_insert _ (by omega) i).mp set with old | same
    · exact valid.below i old
    · simp only [replayCheckpoint]
      omega

theorem restoreReplay_cases (checkpoint : ReplayCheckpoint) :
    (∃ e, ctx.restoreReplay checkpoint = (.error e, ctx)) ∨
      (ctx.replayCheckpoint.validateSuccessor checkpoint = .ok () ∧
        (ctx.restoreReplay checkpoint).1 = .ok () ∧
        (ctx.restoreReplay checkpoint).2.replayCheckpoint = checkpoint) := by
  simp only [restoreReplay]
  cases ctx.replayCheckpoint.validateSuccessor checkpoint with
  | error e => exact .inl ⟨e, rfl⟩
  | ok _ => exact .inr ⟨rfl, rfl, rfl⟩

/-- What changes the replay state: a number is marked, or stored parts are restored. -/
inductive ReplayEvent
  | accept (seq : Nat)
  | restore (left : Nat) (received : BitVec 32)

def replayStep : ReplayEvent → SecurityContext requests maxLen
  | .accept seq => ctx.replayAccept seq
  | .restore left received =>
    match fromParts left received with
    | .error _ => ctx
    | .ok checkpoint => (ctx.restoreReplay checkpoint).2

theorem replayStep_checkpoint (event : ReplayEvent) (valid : ctx.replayCheckpoint.Valid) :
    ctx.replayCheckpoint.validateSuccessor (ctx.replayStep event).replayCheckpoint = .ok () ∧
      (ctx.replayStep event).replayCheckpoint.Valid := by
  cases event with
  | accept seq => exact ctx.replayAccept_checkpoint seq valid
  | restore left received =>
  simp only [replayStep]
  cases built : fromParts left received with
  | error e => exact ⟨validateSuccessor_refl _, valid⟩
  | ok checkpoint =>
  rcases ctx.restoreReplay_cases checkpoint with ⟨e, refused⟩ | ⟨succeeds, -, restored⟩
  · simp only [refused]
    exact ⟨validateSuccessor_refl _, valid⟩
  · simp only [restored]
    exact ⟨succeeds, (fromParts_eq_ok_iff.mp built).2⟩

theorem replayRun_checkpoint (events : List ReplayEvent) (valid : ctx.replayCheckpoint.Valid) :
    ctx.replayCheckpoint.validateSuccessor (Run.run replayStep ctx events).replayCheckpoint =
        .ok () ∧
      (Run.run replayStep ctx events).replayCheckpoint.Valid := by
  induction events generalizing ctx with
  | nil => exact ⟨validateSuccessor_refl _, valid⟩
  | cons event rest ih =>
  obtain ⟨step, stepValid⟩ := ctx.replayStep_checkpoint event valid
  obtain ⟨later, laterValid⟩ := ih (ctx.replayStep event) stepValid
  exact ⟨validateSuccessor_trans step later, laterValid⟩

end

theorem derive_checkpoint_valid {prim : Primitives} {params : DeriveParams}
    {ctx : SecurityContext requests maxLen}
    (derived : derive prim requests maxLen params = .ok ctx) : ctx.replayCheckpoint.Valid := by
  obtain ⟨left, bits, -⟩ := derive_ok derived
  simp only [replayCheckpoint, left, bits]
  exact ⟨Nat.zero_le _, by simp⟩

end SecurityContext

open SecurityContext in
/-- Checkpoints form a sound order: a successor rejects all that its predecessor rejects, the
checkpoints along a run are successors of each other and survive storage, and a refused restore
changes nothing. -/
theorem checkpoint_order {prim : Primitives} {params : DeriveParams}
    {ctx : SecurityContext requests maxLen}
    (derived : derive prim requests maxLen params = .ok ctx) :
    (∀ (left left' : Nat) (received received' : BitVec 32) (a b : ReplayCheckpoint),
      ReplayCheckpoint.fromParts left received = .ok a →
      ReplayCheckpoint.fromParts left' received' = .ok b →
      a.validateSuccessor b = .ok () →
      ∀ (inA inB : SecurityContext requests maxLen) (seq : Nat),
        inA.replayCheckpoint = a → inB.replayCheckpoint = b →
        inA.replayFresh seq = false → inB.replayFresh seq = false) ∧
    (∀ (earlier later : List ReplayEvent) (first second : SecurityContext requests maxLen),
      first = Run.run replayStep ctx earlier → second = Run.run replayStep first later →
      first.replayCheckpoint.validateSuccessor second.replayCheckpoint = .ok () ∧
      ReplayCheckpoint.fromParts second.replayCheckpoint.parts.1 second.replayCheckpoint.parts.2 =
        .ok second.replayCheckpoint) ∧
    (∀ (before after : SecurityContext requests maxLen) (checkpoint : ReplayCheckpoint)
      (e : Error), before.restoreReplay checkpoint = (.error e, after) → after = before) := by
  refine ⟨?_, ?_, ?_⟩
  · rintro left left' received received' a b - - succeeds inA inB seq rfl rfl rejected
    rw [replayFresh_eq_false_iff] at rejected ⊢
    exact rejected.successor succeeds
  · rintro earlier later first second rfl rfl
    obtain ⟨-, valid⟩ := replayRun_checkpoint ctx earlier (derive_checkpoint_valid derived)
    obtain ⟨succeeds, validLater⟩ := replayRun_checkpoint _ later valid
    exact ⟨succeeds, ReplayCheckpoint.fromParts_eq_ok_iff.mpr ⟨rfl, validLater⟩⟩
  intro before after checkpoint e refused
  rcases before.restoreReplay_cases checkpoint with ⟨e', same⟩ | ⟨-, accepted, -⟩
  · rw [same] at refused
    cases refused
    rfl
  · rw [refused] at accepted
    cases accepted

/-- Number 40 slides the window over the restored one; the checkpoint before it is a
predecessor. -/
theorem checkpoint_order_slid : ∃ ctx : SecurityContext 4 8,
      derive clearPrimitives 4 8 serverParams = .ok ctx ∧
      (Run.run replayStep ctx [.accept 3, .restore 2 6#32]).replayCheckpoint =
        ⟨2, 6#32⟩ ∧
      (⟨2, 6#32⟩ : ReplayCheckpoint).validateSuccessor
        (Run.run replayStep
          (Run.run replayStep ctx [.accept 3, .restore 2 6#32])
          [.accept 40]).replayCheckpoint = .ok () := by
  have order (ctx : SecurityContext 4 8)
      (derived : derive clearPrimitives 4 8 serverParams = .ok ctx) :=
    (checkpoint_order derived).2.1 [.accept 3, .restore 2 6#32] [.accept 40] _ _ rfl rfl
  refine ⟨_, rfl, by decide, (order _ rfl).1⟩

end Coaptic.Oscore
