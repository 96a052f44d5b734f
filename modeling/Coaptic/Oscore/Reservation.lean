import Coaptic.Oscore.Replay

/-!
# Sender sequence numbers across crashes

A sender may only use numbers below a bound that is already in durable storage, and a new
incarnation starts at that bound. The bound in storage, the bound granted to the context and
the counter move separately; the invariant below relates all three at every point where the
process can die.
-/
namespace Coaptic.Oscore

open Codec BigEndian List PartialIv

variable {requests maxLen : Nat}

/-! ### Taking a Partial IV -/

/-- Every number of the sequence space has a Partial IV. -/
theorem PartialIv.fromSeq_ok {seq : Nat} (inSpace : seq < seqEnd) :
    ∃ piv, fromSeq seq = .ok piv ∧ piv.seq = seq := by
  have value : ofBe ((toBe 8 seq).dropWhile (· == 0)) = seq := by
    rw [ofBe_dropWhile, ofBe_toBe]
    exact Nat.lt_trans inSpace (by decide)
  unfold fromSeq
  simp only
  split
  next none =>
    rw [none, ofBe_nil] at value
    exact ⟨_, rfl, value⟩
  next some =>
  have short : ((toBe 8 seq).dropWhile (· == 0)).length ≤ maxPivLen := by
    -- the first byte is not zero, so a sixth byte would leave the sequence space
    obtain ⟨byte, rest, split⟩ := exists_cons_of_ne_nil some
    have leading : byte ≠ 0 := by
      have := head_dropWhile_not (· == 0) some
      simpa [split] using this
    rw [split, ofBe_cons] at value
    have positive : 1 ≤ byte.toNat := Nat.one_le_iff_ne_zero.mpr fun zero =>
      leading (UInt8.toNat_inj.mp zero)
    have weight : 256 ^ rest.length < 256 ^ 5 := by
      calc 256 ^ rest.length = 1 * 256 ^ rest.length := (Nat.one_mul _).symm
        _ ≤ byte.toNat * 256 ^ rest.length := Nat.mul_le_mul_right _ positive
        _ ≤ seq := by omega
        _ < 256 ^ 5 := inSpace
    have := (Nat.pow_lt_pow_iff_right (by decide)).mp weight
    rw [split, length_cons]
    exact this
  exact ⟨⟨_, some, short⟩, by rw [fromBytes, dif_pos ⟨some, short⟩], value⟩

namespace SecurityContext

section

variable (ctx : SecurityContext requests maxLen)

/-- Outcome and context of an attempt to take a Partial IV: a refusal that changes nothing, or
the current counter, which lies in the granted range, and the counter moved on. -/
def Takes (outcome : Except Error PartialIv × SecurityContext requests maxLen) : Prop :=
  (∃ e, outcome = (.error e, ctx)) ∨
  ∃ piv, piv.seq = ctx.senderSeq ∧ ctx.senderSeq < seqEnd ∧
    ctx.senderSeq < ctx.senderReservedEnd ∧
    outcome = (.ok piv, { ctx with senderSeq := ctx.senderSeq + 1 })

theorem takes_takeSenderPiv : ctx.Takes ctx.takeSenderPiv := by
  unfold takeSenderPiv
  split
  · exact .inl ⟨_, rfl⟩
  next inSpace =>
  split
  · exact .inl ⟨_, rfl⟩
  next granted =>
  obtain ⟨piv, made, seq⟩ := fromSeq_ok (Nat.not_le.mp inSpace)
  rw [made]
  exact .inr ⟨piv, seq, Nat.not_le.mp inSpace, Nat.not_le.mp granted, rfl⟩

section

variable (plain : Message maxLen)

theorem takes_beginRequest : ctx.Takes (ctx.beginRequest plain) := by
  unfold beginRequest
  split
  · exact .inl ⟨_, rfl⟩
  · exact ctx.takes_takeSenderPiv

theorem takes_beginResponse : ctx.Takes (ctx.beginResponse plain) := by
  unfold beginResponse
  split
  · exact .inl ⟨_, rfl⟩
  · exact ctx.takes_takeSenderPiv

/-- The two contexts differ at most in their live requests. -/
def SameButLive (a b : SecurityContext requests maxLen) : Prop :=
  ∃ live length, b = { a with live := live, length_live := length }

theorem SameButLive.refl (a : SecurityContext requests maxLen) : SameButLive a a :=
  ⟨a.live, a.length_live, rfl⟩

theorem sameButLive_rememberLive (token : OwnedToken maxLen) (request : RequestRef)
    (observe : Bool) : SameButLive ctx (ctx.rememberLive token request observe).2 := by
  unfold rememberLive
  simp only
  split
  · exact ⟨_, _, rfl⟩
  split
  · exact ⟨_, _, rfl⟩
  · exact .refl ctx

theorem sameButLive_rememberDownload (token : OwnedToken maxLen) (request : RequestRef) :
    SameButLive ctx (ctx.rememberDownload token request).2 := by
  unfold rememberDownload
  split
  · exact ⟨_, _, rfl⟩
  · exact sameButLive_rememberLive ctx token request false

theorem sameButLive_rememberRequest (request : RequestRef) :
    SameButLive ctx (ctx.rememberRequest plain request).2 := by
  unfold rememberRequest
  simp only
  split
  · exact sameButLive_rememberDownload ctx _ _
  · exact sameButLive_rememberLive ctx _ _ _

end

end

section

variable (prim : Primitives) (ctx : SecurityContext requests maxLen) (plain : Message maxLen)

/-- Whatever its outcome, protecting a request takes its Partial IV and changes nothing else
but the live requests. -/
theorem sameButLive_protectRequest (out : List UInt8) :
    SameButLive (ctx.beginRequest plain).2 (ctx.protectRequest prim plain out).2 := by
  unfold protectRequest
  cases begun : ctx.beginRequest plain with
  | mk outcome ctx' =>
  cases outcome with
  | error e => exact .refl _
  | ok piv =>
  simp only
  split
  · exact .refl _
  split
  · exact .refl _
  -- the packet is sealed: only the live table is left to update
  have live := sameButLive_rememberRequest ctx' plain (ctx'.requestRef piv)
  split
  next update =>
    rw [update] at live
    exact live
  next update =>
  rw [update] at live
  exact live

theorem protectResponsePiv_context (request : RequestRef) (out : List UInt8) :
    (ctx.protectResponsePiv prim plain request out).2 = (ctx.beginResponse plain).2 := by
  unfold protectResponsePiv
  cases begun : ctx.beginResponse plain with
  | mk outcome ctx' =>
  cases outcome with
  | error e => rfl
  | ok piv =>
  simp only
  split
  · rfl
  · rfl

end

end SecurityContext

open SecurityContext

/-! ### Incarnations -/

/-- What the persistence callback does with the bound it is given. -/
inductive Persist
  /-- The write is durable and acknowledged. -/
  | stored
  /-- Nothing was written. -/
  | refused
  /-- The write is durable, but the callback fails. -/
  | unacknowledged
deriving DecidableEq

/-- The callback: its result, and the bound in durable storage after it. -/
def Persist.store : Persist → Nat → Option Nat → Except Unit Unit × Option Nat
  | stored, bound, _ => (.ok (), some bound)
  | refused, _, durable => (.error (), durable)
  | unacknowledged, bound, _ => (.error (), some bound)

/-- A Partial IV that was taken, and the bound in durable storage at that moment. -/
structure Taken where
  seq : Nat
  durable : Option Nat
deriving DecidableEq

/-- The sending side over its lifetime: the context of the current incarnation, if it is
alive, the bound in durable storage, and every Partial IV taken so far. -/
structure SenderLife (requests maxLen : Nat) where
  ctx : Option (SecurityContext requests maxLen)
  durable : Option Nat
  taken : List Taken

inductive SenderEvent (maxLen : Nat)
  /-- A new incarnation, the old one gone. -/
  | start
  | crash
  | request (plain : Message maxLen) (out : List UInt8)
  | response (plain : Message maxLen) (request : RequestRef) (out : List UInt8)
  | setSeq (seq : Nat)
  | restore (bound : Nat)
  | reserve (additional : Nat) (persist : Persist)

namespace SenderLife

def note (durable : Option Nat) : Except Error PartialIv → List Taken
  | .ok piv => [⟨piv.seq, durable⟩]
  | .error _ => []

/-- Derive the context and resume after the last durable bound. -/
def incarnation (prim : Primitives) (params : DeriveParams) (durable : Option Nat) :
    Option (SecurityContext requests maxLen) :=
  match SecurityContext.derive prim requests maxLen params with
  | .error _ => none
  | .ok ctx =>
  match ctx.restoreSenderReservation (durable.getD 0) with
  | (.error _, _) => none
  | (.ok (), ctx) => some ctx

def call (prim : Primitives) (s : SenderLife requests maxLen)
    (ctx : SecurityContext requests maxLen) : SenderEvent maxLen → SenderLife requests maxLen
  | .start | .crash => s
  | .request plain out =>
    { s with
      ctx := some (ctx.protectRequest prim plain out).2
      taken := s.taken ++ note s.durable (ctx.beginRequest plain).1 }
  | .response plain request out =>
    { s with
      ctx := some (ctx.protectResponsePiv prim plain request out).2
      taken := s.taken ++ note s.durable (ctx.beginResponse plain).1 }
  | .setSeq seq => { s with ctx := some (ctx.setSenderSeq seq).2 }
  | .restore bound => { s with ctx := some (ctx.restoreSenderReservation bound).2 }
  | .reserve additional persist =>
    let (_, ctx, durable) := ctx.reserveSenderSequences additional persist.store s.durable
    { s with ctx := some ctx, durable }

def step (prim : Primitives) (params : DeriveParams) (s : SenderLife requests maxLen)
    (event : SenderEvent maxLen) : SenderLife requests maxLen :=
  match event with
  | .start => { s with ctx := incarnation prim params s.durable }
  | .crash => { s with ctx := none }
  | event =>
  match s.ctx with
  | none => s
  | some ctx => s.call prim ctx event

/-- The numbers taken lie below the bound in storage and, while the context lives, below its
counter; what it may still take is covered by storage. -/
structure Inv (s : SenderLife requests maxLen) : Prop where
  distinct : (s.taken.map (·.seq)).Nodup
  covered : ∀ t ∈ s.taken, ∃ bound, t.durable = some bound ∧ t.seq < bound
  durable : ∀ t ∈ s.taken, ∃ bound, s.durable = some bound ∧ t.seq < bound
  durable_le : ∀ bound, s.durable = some bound → bound ≤ seqEnd
  guarded : ∀ ctx, s.ctx = some ctx → ctx.senderReservedEnd ≤ seqEnd
  spent : ∀ ctx, s.ctx = some ctx → ∀ t ∈ s.taken, t.seq < ctx.senderSeq
  granted : ∀ ctx, s.ctx = some ctx → ctx.senderSeq < ctx.senderReservedEnd →
    ∃ bound, s.durable = some bound ∧ ctx.senderReservedEnd ≤ bound

variable {s : SenderLife requests maxLen} {ctx : SecurityContext requests maxLen}

theorem Inv.restart (inv : Inv s) (prim : Primitives) (params : DeriveParams) :
    Inv (s.step prim params .start) := by
  -- the new counter and the new bound are both the bound in storage
  have resumed : ∀ ctx : SecurityContext requests maxLen,
      incarnation prim params s.durable = some ctx →
        ctx.senderSeq = s.durable.getD 0 ∧ ctx.senderReservedEnd = s.durable.getD 0 ∧
          s.durable.getD 0 ≤ seqEnd := by
    intro ctx
    fun_cases incarnation prim params s.durable with
    | case3 fresh _ ctx restored =>
      rintro ⟨⟩
      revert restored
      fun_cases fresh.restoreSenderReservation (s.durable.getD 0) with
      | case3 _ inSpace =>
        rintro ⟨⟩
        exact ⟨rfl, rfl, Nat.not_lt.mp inSpace⟩
      | _ => rintro ⟨⟩
    | _ => rintro ⟨⟩
  refine ⟨inv.distinct, inv.covered, inv.durable, inv.durable_le, ?_, ?_, ?_⟩
  · intro ctx started
    obtain ⟨-, stop, inSpace⟩ := resumed ctx started
    rw [stop]
    exact inSpace
  · intro ctx started t member
    obtain ⟨bound, stored, below⟩ := inv.durable t member
    rw [(resumed ctx started).1, stored]
    exact below
  intro ctx started more
  obtain ⟨seq, stop, -⟩ := resumed ctx started
  omega

/-- A call that takes a Partial IV, or fails to. -/
theorem Inv.take (inv : Inv s) (alive : s.ctx = some ctx)
    {outcome : Except Error PartialIv × SecurityContext requests maxLen}
    (taking : ctx.Takes outcome)
    {next : SecurityContext requests maxLen} (same : outcome.2.SameButLive next) :
    Inv { s with ctx := some next, taken := s.taken ++ note s.durable outcome.1 } := by
  obtain ⟨live, length, rfl⟩ := same
  rcases taking with ⟨e, rfl⟩ | ⟨piv, seq, -, inRange, rfl⟩
  · simp only [note, append_nil]
    refine ⟨inv.distinct, inv.covered, inv.durable, inv.durable_le, ?_, ?_, ?_⟩
    · rintro _ ⟨⟩
      exact inv.guarded ctx alive
    · rintro _ ⟨⟩
      exact inv.spent ctx alive
    · rintro _ ⟨⟩
      exact inv.granted ctx alive
  obtain ⟨bound, stored, within⟩ := inv.granted ctx alive inRange
  have old := inv.spent ctx alive
  -- the number taken is the counter: above all old numbers, below the bound in storage
  refine ⟨?_, ?_, ?_, inv.durable_le, ?_, ?_, ?_⟩
  · simp only [note, map_append, map_cons, map_nil]
    refine nodup_append.mpr ⟨inv.distinct, nodup_singleton _, ?_⟩
    rintro a member b last rfl
    obtain ⟨t, earlier, rfl⟩ := mem_map.mp member
    have := old t earlier
    have := mem_singleton.mp last
    omega
  · intro t member
    rcases mem_append.mp member with earlier | last
    · exact inv.covered t earlier
    · rw [mem_singleton.mp last]
      exact ⟨bound, stored, by simp only; omega⟩
  · intro t member
    rcases mem_append.mp member with earlier | last
    · exact inv.durable t earlier
    · rw [mem_singleton.mp last]
      exact ⟨bound, stored, by simp only; omega⟩
  · rintro _ ⟨⟩
    exact inv.guarded ctx alive
  · rintro _ ⟨⟩ t member
    simp only
    rcases mem_append.mp member with earlier | last
    · have := old t earlier
      omega
    rw [mem_singleton.mp last]
    simp only
    omega
  · rintro _ ⟨⟩ -
    exact ⟨bound, stored, within⟩

/-- A call that moves the counter or the granted bound but takes no number. -/
theorem Inv.move (inv : Inv s) {next : SecurityContext requests maxLen}
    {durable : Option Nat} (durableLe : ∀ bound, durable = some bound → bound ≤ seqEnd)
    (kept : ∀ t ∈ s.taken, ∃ bound, durable = some bound ∧ t.seq < bound)
    (guarded : next.senderReservedEnd ≤ seqEnd) (spent : ∀ t ∈ s.taken, t.seq < next.senderSeq)
    (granted : next.senderSeq < next.senderReservedEnd →
      ∃ bound, durable = some bound ∧ next.senderReservedEnd ≤ bound) :
    Inv { s with ctx := some next, durable } := by
  refine ⟨inv.distinct, inv.covered, kept, durableLe, ?_, ?_, ?_⟩
  · rintro _ ⟨⟩
    exact guarded
  · rintro _ ⟨⟩
    exact spent
  · rintro _ ⟨⟩
    exact granted

theorem Inv.setSeq (inv : Inv s) (alive : s.ctx = some ctx) (seq : Nat) :
    Inv { s with ctx := some (ctx.setSenderSeq seq).2 } := by
  have spent := inv.spent ctx alive
  have granted := inv.granted ctx alive
  unfold setSenderSeq
  split
  · exact inv.move inv.durable_le inv.durable (inv.guarded ctx alive) spent granted
  next forward =>
  split
  · exact inv.move inv.durable_le inv.durable (inv.guarded ctx alive) spent granted
  refine inv.move inv.durable_le inv.durable (inv.guarded ctx alive) ?_ ?_
  · intro t member
    have := spent t member
    simp only
    omega
  intro more
  simp only at more
  exact granted (by omega)

theorem Inv.restore (inv : Inv s) (alive : s.ctx = some ctx) (bound : Nat) :
    Inv { s with ctx := some (ctx.restoreSenderReservation bound).2 } := by
  have spent := inv.spent ctx alive
  unfold restoreSenderReservation
  split
  · exact inv.move inv.durable_le inv.durable (inv.guarded ctx alive) spent (inv.granted ctx alive)
  next forward =>
  split
  · exact inv.move inv.durable_le inv.durable (inv.guarded ctx alive) spent (inv.granted ctx alive)
  next inSpace =>
  -- nothing may be taken until another range is reserved
  refine inv.move inv.durable_le inv.durable (Nat.not_lt.mp inSpace) ?_ ?_
  · intro t member
    have := spent t member
    simp only
    omega
  · intro more
    exact absurd more (Nat.lt_irrefl _)

/-- The bound to persist lies above the granted bound, the counter and all numbers taken. -/
theorem reservationBound_ok {ε : Type} {additional bound : Nat}
    (h : ctx.reservationBound additional = (.ok bound : Except (SenderReservationError ε) Nat)) :
    ctx.senderReservedEnd < bound ∧ ctx.senderSeq < bound ∧ bound ≤ seqEnd := by
  revert h
  unfold reservationBound
  fun_cases senderReservationEnd ctx with
  | case1 => exact nofun
  | case2 =>
  intro h
  dsimp only at h
  split at h
  · cases h
  split at h
  · cases h
    omega
  · cases h

theorem Inv.reserve (inv : Inv s) (alive : s.ctx = some ctx) (prim : Primitives) (additional : Nat)
    (persist : Persist) : Inv (s.call prim ctx (.reserve additional persist)) := by
  have guarded := inv.guarded ctx alive
  have spent := inv.spent ctx alive
  have granted := inv.granted ctx alive
  simp only [call, reserveSenderSequences]
  cases asked : (ctx.reservationBound additional : Except (SenderReservationError Unit) Nat) with
  | error e => exact inv.move inv.durable_le inv.durable guarded spent granted
  | ok bound =>
  obtain ⟨aboveEnd, aboveSeq, inSpace⟩ := reservationBound_ok asked
  have durableLe : ∀ b, some bound = some b → b ≤ seqEnd := by
    rintro _ ⟨⟩
    exact inSpace
  have kept : ∀ t ∈ s.taken, ∃ b, some bound = some b ∧ t.seq < b := by
    intro t member
    have := spent t member
    exact ⟨bound, rfl, by omega⟩
  cases persist with
  | stored => exact inv.move durableLe kept inSpace spent fun _ => ⟨bound, rfl, Nat.le_refl _⟩
  | refused => exact inv.move inv.durable_le inv.durable guarded spent granted
  | unacknowledged => exact inv.move durableLe kept guarded spent fun _ => ⟨bound, rfl, aboveEnd.le⟩

theorem Inv.after (inv : Inv s) (prim : Primitives) (params : DeriveParams)
    (event : SenderEvent maxLen) : Inv (s.step prim params event) := by
  have call : ∀ event : SenderEvent maxLen, ∀ ctx, s.ctx = some ctx → Inv (s.call prim ctx event) := by
    intro event ctx alive
    cases event with
    | start => exact inv
    | crash => exact inv
    | request plain out =>
      exact inv.take alive (ctx.takes_beginRequest plain)
        (ctx.sameButLive_protectRequest prim plain out)
    | response plain request out =>
      exact inv.take alive (ctx.takes_beginResponse plain)
        (ctx.protectResponsePiv_context prim plain request out ▸ .refl _)
    | setSeq seq => exact inv.setSeq alive seq
    | restore bound => exact inv.restore alive bound
    | reserve additional persist => exact inv.reserve alive prim additional persist
  unfold step
  split
  · exact inv.restart prim params
  · exact ⟨inv.distinct, inv.covered, inv.durable, inv.durable_le, nofun, nofun, nofun⟩
  split
  · exact inv
  next alive => exact call event _ alive

end SenderLife

/-- The sending side after `events`, with nothing derived and nothing stored at first. -/
def SenderLife.after (prim : Primitives) (params : DeriveParams)
    (events : List (SenderEvent maxLen)) : SenderLife requests maxLen :=
  Run.run (SenderLife.step prim params) ⟨none, none, []⟩ events

/-- Over any number of incarnations, with a crash possible after any step, no Partial IV is
taken twice, and each is below the bound in durable storage when it is taken. -/
theorem sender_sequences_unique (prim : Primitives) (params : DeriveParams)
    (events : List (SenderEvent maxLen)) :
    let s : SenderLife requests maxLen := .after prim params events
    (s.taken.map (·.seq)).Nodup ∧
      ∀ t ∈ s.taken, ∃ bound, t.durable = some bound ∧ t.seq < bound := by
  have inv : (SenderLife.after prim params events : SenderLife requests maxLen).Inv := by
    refine Run.invariant_run (fun s event inv => inv.after prim params event) ?_ events
    exact ⟨List.nodup_nil, nofun, nofun, nofun, nofun, nofun, nofun⟩
  exact ⟨inv.distinct, inv.covered⟩

def plainGet : Message 8 := ⟨.confirmable, ⟨0x01⟩, 7, .empty, [], []⟩

-- The number granted before the crash but not taken is lost, not reused.
example : (SenderLife.after clearPrimitives serverParams
      [.start, .reserve 2 .stored, .request plainGet [], .crash, .start, .request plainGet [],
        .reserve 1 .unacknowledged, .reserve 3 .stored, .request plainGet []] :
      SenderLife 1 8).taken =
      [⟨0, some 2⟩, ⟨2, some 5⟩] := by decide

end Coaptic.Oscore
