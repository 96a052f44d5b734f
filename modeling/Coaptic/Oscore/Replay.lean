import Coaptic.Lib.Run
import Coaptic.Oscore.Protect

/-!
# The replay window

The window is a set of received sequence numbers, remembered exactly for the last thirty-two
and by a lower bound for the rest. Over any history of received numbers it tells new from
old exactly, and it survives a restart through its checkpoint.
-/
namespace Coaptic.Oscore

open Codec Bitmap ReplayCheckpoint SecurityContext

variable {requests maxLen : Nat}

namespace SecurityContext

/-- The window stands for the set `received` of sequence numbers. -/
structure WindowOf (received : Set Nat) (ctx : SecurityContext requests maxLen) : Prop where
  below : ∀ seq ∈ received, seq < seqEnd
  left_le : ∀ seq ∈ received, seq ≤ ctx.replayLeft + 31
  left_reached : ctx.replayLeft = 0 ∨ ctx.replayLeft + 31 ∈ received
  bits_iff : ∀ i < 32, ctx.replayBits.getLsbD i = true ↔ ctx.replayLeft + i ∈ received

variable {received : Set Nat} {ctx : SecurityContext requests maxLen} {prim : Primitives}
  {params : DeriveParams}

/-- Fresh means new and not too far behind the largest number received. -/
theorem WindowOf.replayFresh_iff (window : WindowOf received ctx) (seq : Nat) :
    ctx.replayFresh seq = true ↔
      seq < seqEnd ∧ seq ∉ received ∧ ∀ other ∈ received, other ≤ seq + 31 := by
  unfold replayFresh
  by_cases outside : seqEnd ≤ seq ∨ seq < ctx.replayLeft
  · -- beyond the sequence space, or left of the window and so behind its right edge
    rw [if_pos outside]
    constructor
    · intro h
      cases h
    rintro ⟨inSpace, -, near⟩
    have behind := outside.resolve_left (by omega)
    have := near _ (window.left_reached.resolve_left (by omega))
    omega
  rw [if_neg outside]
  by_cases ahead : replayWindow ≤ seq - ctx.replayLeft
  · rw [if_pos ahead, replayWindow] at *
    refine ⟨fun _ => ⟨by omega, ?_, ?_⟩, fun _ => rfl⟩
    · intro member
      have := window.left_le seq member
      omega
    intro other member
    have := window.left_le other member
    omega
  rw [if_neg ahead]
  rw [replayWindow] at ahead
  have bit := window.bits_iff (seq - ctx.replayLeft) (by omega)
  rw [Nat.add_sub_cancel' (by omega)] at bit
  rw [beq_iff_eq, ← not_iff_not, ← ne_eq, and_bit_ne_zero _ (by omega), bit]
  constructor
  · intro member new
    exact new.2.1 member
  intro old
  by_contra new
  refine old ⟨by omega, new, ?_⟩
  intro other member
  have := window.left_le other member
  omega

/-- Marking a number adds it to the set. -/
theorem WindowOf.replayAccept (window : WindowOf received ctx) (seq : Nat) :
    WindowOf {s | s ∈ received ∨ (s = seq ∧ seq < seqEnd)} (ctx.replayAccept seq) := by
  have width : replayWindow = 32 := rfl
  have below : ∀ s ∈ {s | s ∈ received ∨ (s = seq ∧ seq < seqEnd)}, s < seqEnd := by
    rintro s (old | ⟨rfl, inSpace⟩)
    · exact window.below s old
    · exact inSpace
  unfold SecurityContext.replayAccept
  by_cases outside : seqEnd ≤ seq ∨ seq < ctx.replayLeft
  · -- nothing changes, and a stale number is left of the window anyway
    rw [if_pos outside]
    refine ⟨below, ?_, window.left_reached.imp_right .inl, ?_⟩
    · rintro s (old | ⟨rfl, inSpace⟩)
      · exact window.left_le s old
      · have := outside.resolve_left (by omega)
        omega
    intro i inside
    rw [window.bits_iff i inside]
    refine ⟨.inl, fun member => member.resolve_right ?_⟩
    rintro ⟨same, inSpace⟩
    have := outside.resolve_left (by omega)
    omega
  rw [if_neg outside]
  by_cases ahead : replayWindow ≤ seq - ctx.replayLeft
  · -- the window slides until the number is its last one
    rw [if_pos ahead]
    refine ⟨below, ?_, .inr (.inr ⟨by simp only; omega, by omega⟩), ?_⟩
    · rintro s (old | ⟨rfl, -⟩)
      · have := window.left_le s old
        simp only
        omega
      · simp only
        omega
    intro i inside
    have position : seq - (replayWindow - 1) + i =
        ctx.replayLeft + (seq - ctx.replayLeft - (replayWindow - 1) + i) := by omega
    rw [getLsbD_insert _ (by decide), getLsbD_slide]
    show _ ↔ seq - (replayWindow - 1) + i ∈ received ∨
      (seq - (replayWindow - 1) + i = seq ∧ seq < seqEnd)
    refine or_congr ?_ ⟨fun last => ⟨by omega, by omega⟩, fun last => by omega⟩
    by_cases kept : seq - ctx.replayLeft - (replayWindow - 1) + i < 32
    · rw [position]
      exact window.bits_iff _ kept
    -- a number past the old right edge was not received
    rw [BitVec.getLsbD_of_ge _ _ (Nat.not_lt.mp kept)]
    refine ⟨fun h => (by cases h), fun member => ?_⟩
    have := window.left_le _ member
    omega
  · -- the number lies in the window: its bit is set
    rw [if_neg ahead]
    rw [replayWindow] at ahead
    refine ⟨below, ?_, window.left_reached.imp_right .inl, ?_⟩
    · rintro s (old | ⟨rfl, -⟩)
      · exact window.left_le s old
      · simp only
        omega
    intro i inside
    rw [getLsbD_insert _ (by omega), window.bits_iff i inside]
    refine or_congr_right ?_
    constructor
    · intro same
      exact ⟨by simp only; omega, by omega⟩
    rintro ⟨same, -⟩
    simp only at same
    omega

/-- A newly derived context: keys of the two identifiers, which differ, and nothing sent,
received or bound. -/
structure Derived (prim : Primitives) (params : DeriveParams)
    (ctx : SecurityContext requests maxLen) : Prop where
  sender : Id.new params.senderId = .ok ctx.senderId
  recipient : Id.new params.recipientId = .ok ctx.recipientId
  distinct : ctx.senderId.bytes ≠ ctx.recipientId.bytes
  idContext : ctx.idContext = params.idContext
  senderKey : hkdfExpand prim params.masterSecret params.masterSalt ctx.senderId.bytes
    (if params.idContext = [] then none else some params.idContext) keyLabel keyLen =
      .ok ctx.senderKey
  recipientKey : hkdfExpand prim params.masterSecret params.masterSalt ctx.recipientId.bytes
    (if params.idContext = [] then none else some params.idContext) keyLabel keyLen =
      .ok ctx.recipientKey
  commonIv : hkdfExpand prim params.masterSecret params.masterSalt []
    (if params.idContext = [] then none else some params.idContext) ivLabel nonceLen =
      .ok ctx.commonIv
  senderSeq : ctx.senderSeq = 0
  senderReservedEnd : ctx.senderReservedEnd = unguarded
  replayLeft : ctx.replayLeft = 0
  replayBits : ctx.replayBits = 0#32
  live : ctx.live = List.replicate requests none

theorem derive_spec (h : derive prim requests maxLen params = .ok ctx) :
    Derived prim params ctx := by
  revert h
  fun_cases derive prim requests maxLen params with
  | case10 _ _ _ _ _ recipient sender distinct _ _ _ _ _ commonIv recipientKey senderKey =>
    rintro ⟨⟩
    exact ⟨sender, recipient, distinct, rfl, senderKey, recipientKey, commonIv, rfl, rfl, rfl,
      rfl, rfl⟩
  | _ => exact nofun

theorem derive_ok (h : derive prim requests maxLen params = .ok ctx) :
    ctx.replayLeft = 0 ∧ ctx.replayBits = 0#32 ∧ ctx.senderSeq = 0 ∧
      ctx.senderReservedEnd = unguarded ∧ ctx.senderId.bytes ≠ ctx.recipientId.bytes :=
  have derived := derive_spec h
  ⟨derived.replayLeft, derived.replayBits, derived.senderSeq, derived.senderReservedEnd,
    derived.distinct⟩

theorem windowOf_empty (left : ctx.replayLeft = 0) (bits : ctx.replayBits = 0#32) :
    WindowOf ∅ ctx := by
  refine ⟨nofun, nofun, .inl left, ?_⟩
  intro i _
  simp [bits]

theorem WindowOf.run (window : WindowOf received ctx) (seqs : List Nat) :
    WindowOf {s | s ∈ received ∨ (s ∈ seqs ∧ s < seqEnd)}
      (Run.run SecurityContext.replayAccept ctx seqs) := by
  induction seqs generalizing received ctx with
  | nil => simpa using window
  | cons seq rest ih =>
  have later := ih (window.replayAccept seq)
  have same : {s | s ∈ received ∨ (s ∈ seq :: rest ∧ s < seqEnd)} =
      {s | s ∈ {s | s ∈ received ∨ (s = seq ∧ seq < seqEnd)} ∨ (s ∈ rest ∧ s < seqEnd)} := by
    ext s
    simp only [List.mem_cons, Set.mem_ofPred_eq]
    constructor
    · rintro (old | ⟨rfl | later, inSpace⟩)
      · exact .inl (.inl old)
      · exact .inl (.inr ⟨rfl, inSpace⟩)
      · exact .inr ⟨later, inSpace⟩
    rintro ((old | ⟨rfl, inSpace⟩) | ⟨later, inSpace⟩)
    · exact .inl old
    · exact .inr ⟨.inl rfl, inSpace⟩
    · exact .inr ⟨.inr later, inSpace⟩
  rw [same]
  exact later

/-! ### Requests and restarts -/

/-- The context changes only when the AEAD accepted, and then only by marking the number. -/
theorem unprotectRequest_context (prim : Primitives) (ctx : SecurityContext requests maxLen)
    (msg : ParsedMessage maxLen) (out : List UInt8) : (ctx.unprotectRequest prim msg out).2 =
      match ctx.openRequest prim msg with
      | .error _ => ctx
      | .ok opened => ctx.replayAccept opened.piv.seq := by
  unfold unprotectRequest unprotectRequestWire
  cases ctx.openRequest prim msg with
  | error e => rfl
  | ok opened =>
  simp only
  rcases stitchRequest msg opened out with ⟨e | ⟨n, request⟩, buffer⟩
  · rfl
  simp only
  split
  · rfl
  · rfl

theorem matchesRecipient_kid {kid kidContext : Option (List UInt8)}
    (h : ctx.matchesRecipient kid kidContext = true) : kid.getD [] = ctx.recipientId.bytes := by
  unfold matchesRecipient at h
  split at h
  · cases h
  next same => exact not_not.mp same

/-- A request is opened only from the peer and with a fresh number. -/
theorem openRequest_ok {msg : ParsedMessage maxLen} {opened : Opened}
    (h : ctx.openRequest prim msg = .ok opened) :
    (opened.kid = ctx.recipientId.bytes ∧ ctx.replayFresh opened.piv.seq = true) ∧
      ∃ header, parseProtected msg = .ok header ∧ header.piv = some opened.piv := by
  unfold openRequest at h
  obtain ⟨header, parsed, h⟩ := Result.bind_eq_ok.mp h
  split at h
  · cases h
  next selected =>
  split at h
  · cases h
  next piv found =>
  split at h
  · cases h
  next fresh =>
  split at h
  · cases h
  next =>
  -- the number is checked before the ciphertext is opened
  obtain ⟨aad, -, h⟩ := Result.bind_eq_ok.mp h
  obtain ⟨plaintext, -, h⟩ := Result.bind_eq_ok.mp h
  cases h
  exact ⟨⟨matchesRecipient_kid (by simpa using selected), by simpa using fresh⟩, header, parsed, found⟩

/-- Derive the context again and restore a checkpoint from its stored parts. -/
def recover (prim : Primitives) (params : DeriveParams) (left : Nat) (received : BitVec 32) :
    Except Error (SecurityContext requests maxLen) :=
  match derive prim requests maxLen params with
  | .error e => .error e
  | .ok ctx =>
  match ReplayCheckpoint.fromParts left received with
  | .error e => .error e
  | .ok checkpoint =>
  match ctx.restoreReplay checkpoint with
  | (.error e, _) => .error e
  | (.ok (), ctx) => .ok ctx

/-- A restart from the checkpoint of a window succeeds and brings the window back. -/
theorem WindowOf.recover {fresh : SecurityContext requests maxLen}
    (window : WindowOf received ctx) (derived : derive prim requests maxLen params = .ok fresh) :
    recover prim params ctx.replayLeft ctx.replayBits =
      .ok { fresh with replayLeft := ctx.replayLeft, replayBits := ctx.replayBits } := by
  have inSpace : ctx.replayLeft + 31 < seqEnd := by
    rcases window.left_reached with zero | member
    · rw [zero]
      decide
    · exact window.below _ member
  have accepted : fromParts ctx.replayLeft ctx.replayBits =
      .ok ⟨ctx.replayLeft, ctx.replayBits⟩ := by
    rw [fromParts, if_neg]
    rintro (far | ⟨-, atEnd | beyond⟩)
    · omega
    · omega
    · omega
  obtain ⟨left, bits, -⟩ := derive_ok derived
  have restored : fresh.restoreReplay ⟨ctx.replayLeft, ctx.replayBits⟩ =
      (.ok (), { fresh with replayLeft := ctx.replayLeft, replayBits := ctx.replayBits }) := by
    have cleared : slide (0#32) ctx.replayLeft = 0#32 := by
      unfold slide
      split
      · rfl
      · simp
    simp only [restoreReplay, replayCheckpoint, validateSuccessor, left, bits,
      Nat.not_lt_zero, if_false, Nat.sub_zero, cleared, BitVec.zero_and, ne_eq, not_true_eq_false]
  simp only [SecurityContext.recover, derived, accepted, restored]

end SecurityContext

open SecurityContext

/-- The receiving side over its lifetime: the context, and every sequence number whose request
passed the freshness test and the AEAD. -/
structure Recipient (requests maxLen : Nat) where
  ctx : SecurityContext requests maxLen
  opened : List Nat

/-- Any datagram, or a restart from the checkpoint last taken. -/
inductive RecipientEvent (maxLen : Nat)
  | receive (msg : ParsedMessage maxLen) (out : List UInt8)
  | restart

namespace Recipient

def step (prim : Primitives) (params : DeriveParams) (s : Recipient requests maxLen) :
    RecipientEvent maxLen → Recipient requests maxLen
  | .receive msg out =>
    { ctx := (s.ctx.unprotectRequest prim msg out).2
      opened := match s.ctx.openRequest prim msg with
        | .ok opened => s.opened ++ [opened.piv.seq]
        | .error _ => s.opened }
  | .restart =>
    match recover prim params s.ctx.replayLeft s.ctx.replayBits with
    | .ok ctx => { s with ctx }
    | .error _ => s

/-- The window stands for the numbers opened so far, and none was opened twice. -/
structure Inv (s : Recipient requests maxLen) : Prop where
  window : s.ctx.WindowOf {seq | seq ∈ s.opened}
  nodup : s.opened.Nodup

variable {prim : Primitives} {params : DeriveParams} {s : Recipient requests maxLen}

theorem Inv.receive (inv : Inv s) (msg : ParsedMessage maxLen) (out : List UInt8) :
    Inv (s.step prim params (.receive msg out)) := by
  simp only [step, unprotectRequest_context]
  cases opens : s.ctx.openRequest prim msg with
  | error e => exact inv
  | ok opened =>
  obtain ⟨inSpace, new, -⟩ :=
    (inv.window.replayFresh_iff _).mp (openRequest_ok opens).1.2
  constructor
  · have marked := inv.window.replayAccept opened.piv.seq
    have same : {seq | seq ∈ s.opened ++ [opened.piv.seq]} =
        {seq | seq ∈ {seq | seq ∈ s.opened} ∨ (seq = opened.piv.seq ∧ opened.piv.seq < seqEnd)} := by
      ext seq
      simp [inSpace]
    simp only
    rw [same]
    exact marked
  rw [List.nodup_append]
  refine ⟨inv.nodup, List.nodup_singleton _, ?_⟩
  intro a old b last same
  rw [List.mem_singleton.mp last] at same
  exact new (same ▸ old)

theorem Inv.restart {fresh : SecurityContext requests maxLen}
    (derived : derive prim requests maxLen params = .ok fresh) (inv : Inv s) :
    Inv (s.step prim params .restart) := by
  simp only [step, inv.window.recover derived]
  exact ⟨⟨inv.window.below, inv.window.left_le, inv.window.left_reached, inv.window.bits_iff⟩,
    inv.nodup⟩

theorem inv_run {ctx : SecurityContext requests maxLen}
    (derived : derive prim requests maxLen params = .ok ctx)
    (events : List (RecipientEvent maxLen)) :
    Inv (Run.run (step prim params) ⟨ctx, []⟩ events) := by
  refine Run.invariant_run ?_ ?_ events
  · intro s event inv
    cases event with
    | receive msg out => exact inv.receive msg out
    | restart => exact inv.restart derived
  · obtain ⟨left, bits, -⟩ := derive_ok derived
    exact ⟨by simpa using windowOf_empty left bits, List.nodup_nil⟩

end Recipient

/-- The replay window is exact over every history. Over any datagrams and restarts from the
last checkpoint no number is opened twice, a restart succeeds, and a datagram that the AEAD or
a check before it refuses changes nothing. -/
theorem replay_exact {prim : Primitives} {params : DeriveParams}
    {ctx : SecurityContext requests maxLen}
    (derived : derive prim requests maxLen params = .ok ctx) :
    (∀ (seqs : List Nat) (seq : Nat),
      (Run.run replayAccept ctx seqs).replayFresh seq = true ↔
        seq < 2 ^ 40 ∧ seq ∉ seqs ∧ ∀ other ∈ seqs, other < 2 ^ 40 → other ≤ seq + 31) ∧
    ∀ (events : List (RecipientEvent maxLen)) (s : Recipient requests maxLen),
      s = Run.run (Recipient.step prim params) ⟨ctx, []⟩ events →
      s.opened.Nodup ∧
      (∃ restarted : SecurityContext requests maxLen,
        recover prim params s.ctx.replayLeft s.ctx.replayBits =
          .ok restarted ∧ restarted.replayCheckpoint = s.ctx.replayCheckpoint) ∧
      (∀ (msg : ParsedMessage maxLen) (out : List UInt8) (e : Error),
        s.ctx.openRequest prim msg = .error e → (s.ctx.unprotectRequest prim msg out).2 = s.ctx) := by
  obtain ⟨left, bits, -⟩ := derive_ok derived
  constructor
  · intro seqs seq
    have window := (SecurityContext.windowOf_empty left bits).run seqs
    rw [window.replayFresh_iff]
    simp only [Set.mem_empty_iff_false, false_or, Set.mem_ofPred_eq, seqEnd, not_and, and_imp]
    constructor
    · rintro ⟨inSpace, new, near⟩
      exact ⟨inSpace, fun member => new member inSpace, near⟩
    · rintro ⟨inSpace, new, near⟩
      exact ⟨inSpace, fun member => absurd member new, near⟩
  rintro events s rfl
  have inv := Recipient.inv_run derived events
  refine ⟨inv.nodup, ⟨_, inv.window.recover derived, rfl⟩, ?_⟩
  intro msg out e refused
  rw [unprotectRequest_context, refused]

/-- After 0, 100 and 70 the window reaches down to 69. -/
theorem replay_exact_edge : ∃ ctx : SecurityContext 4 8,
      derive clearPrimitives 4 8 serverParams = .ok ctx ∧
      (Run.run replayAccept ctx [0, 100, 70]).replayFresh 69 = true ∧
      (Run.run replayAccept ctx [0, 100, 70]).replayFresh 68 = false := by
  have window (ctx : SecurityContext 4 8)
      (derived : derive clearPrimitives 4 8 serverParams = .ok ctx) :=
    (replay_exact derived).1
  refine ⟨_, rfl, (window _ rfl _ _).mpr (by decide), ?_⟩
  rw [← Bool.not_eq_true, window _ rfl]
  decide

end Coaptic.Oscore
