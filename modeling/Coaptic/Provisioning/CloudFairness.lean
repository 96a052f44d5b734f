import Coaptic.Provisioning.CloudRows
import Coaptic.Lib.Rotation

/-!
# Turns on a shared listener

Whoever has a reply to send comes to send it, however the others queue theirs again and whatever
the transport answers: every call of `flush` that does not reach an owner moves the cursor closer
to it.
-/
namespace Coaptic.Provisioning

open Run Rotation List

variable {prim : Primitives} {edhoc : Edhoc prim} {ε : Type}

def CloudCall.isFlush : CloudCall prim ε → Bool
  | .flush _ _ _ => true
  | _ => false

def anyLive (xs : Exchanges) (final : Option ErrorReceipt) (now : Nat) : Bool :=
  (xs.toList.any fun x => x.queued && now < x.expires) ||
    final.any fun r => r.pending && now < r.expires

namespace CloudAdmission

/-- Whether the owner at an index is queued and unexpired. A challenge is queued as long as it is
kept. -/
def queuedAt (s : CloudAdmission edhoc) (now index : Nat) : Bool :=
  if index < s.pending.length then
    (Slots.row s.pending index).any fun p => anyLive p.exchanges p.finalError now
  else if index < s.pending.length + s.retained.length then
    (Slots.row s.retained (index - s.pending.length)).any fun r =>
      anyLive r.exchanges r.finalError now
  else s.challenge.any fun challenge => now < challenge.expires

end CloudAdmission

/-- A sound owner that is queued has something to send. -/
theorem repliesWait_of_anyLive {xs : Exchanges} {final : Option ErrorReceipt} {now expires : Nat}
    (sound : xs.Sound expires) (live : anyLive xs final now = true) :
    repliesWait xs final now = true := by
  simp only [anyLive, Bool.or_eq_true, any_eq_true, Bool.and_eq_true, decide_eq_true_eq] at live
  simp only [repliesWait, Bool.or_eq_true]
  obtain ⟨x, mem, queued, unexpired⟩ | receipt := live
  · have waits : x.waits now = true := by
      simp [Exchange.waits, queued, unexpired, (sound x mem).1 queued]
    obtain held | held := Exchanges.mem_toList.mp mem
    · exact .inl (.inl (by rw [held]; exact waits))
    · exact .inl (.inr (by rw [held]; exact waits))
  · exact .inr receipt

namespace CloudAdmission

variable {s : CloudAdmission edhoc} {i now : Nat}

theorem waits_of_queuedAt {index : Nat} (sound : s.Sound) (queued : s.queuedAt now index = true) :
    s.waits now index = true := by
  simp only [queuedAt] at queued
  simp only [waits]
  split
  next here =>
    rw [if_pos here] at queued
    obtain ⟨p, held, live⟩ := (Option.any_eq_true _ _).mp queued
    rw [held]
    exact repliesWait_of_anyLive (sound.pending index p held).replies live
  next there =>
  rw [if_neg there] at queued
  split
  next here =>
    rw [if_pos here] at queued
    obtain ⟨r, held, live⟩ := (Option.any_eq_true _ _).mp queued
    rw [held]
    exact repliesWait_of_anyLive (sound.retained _ r held) live
  next past =>
  rw [if_neg past] at queued
  obtain ⟨challenge, held, -⟩ := (Option.any_eq_true _ _).mp queued
  rw [held]
  rfl

section

variable (s : CloudAdmission edhoc)

/-- Nobody is queued once the clock has been refused. -/
theorem queuedAt_halt (now index : Nat) : s.halt.queuedAt now index = false := by
  have silent (xs : Exchanges) (final : Option ErrorReceipt) :
      anyLive xs.disable (final.map .disable) now = false := by
    obtain ⟨first, second⟩ := xs
    cases first <;> cases second <;> cases final <;> rfl
  simp only [queuedAt, halt, Slots.row_map_map, Option.any_map, length_map]
  split
  · cases Slots.row s.pending index with
    | none => rfl
    | some p => exact silent p.exchanges p.finalError
  next =>
  split
  · cases Slots.row s.retained (index - s.pending.length) with
    | none => rfl
    | some r => exact silent r.exchanges r.finalError
  · rfl

/-- Where the cursor is, and how many owners there are. -/
structure Turning (n : Nat) (s : CloudAdmission edhoc) : Prop where
  sound : s.Sound
  owners : s.owners = n
  cursor : s.sendCursor < n

theorem owners_halt : s.halt.owners = s.owners := by
  simp [owners, halt]

@[simp] theorem owners_upkept (now : Nat) (registry : AdmissionRegistry prim) :
    (s.upkept now registry).owners = s.owners := by
  simp [owners]

end

/-- A call that is not a flush leaves the cursor where it is. -/
theorem cursor_step {call : CloudCall prim ε}
    (other : call.isFlush = false) :
    (s.step call).sendCursor = s.sendCursor ∧ (s.step call).owners = s.owners := by
  have steps := step_cases s call
  generalize s.step call = t at steps ⊢
  cases steps with
  | halted => exact ⟨rfl, owners_halt s⟩
  | ingest accepts received same =>
    rw [received.frame.2, received.frame.1.owners]
    simp
  | flush => cases other
  | takeSession accepts handed same =>
    rw [handed.frame.2, handed.frame.1.owners]
    simp
  | upkeep => simp
  | release => exact ⟨rfl, by simp [owners]⟩
  | unknown => exact ⟨rfl, rfl⟩

theorem Turning.quiet {n : Nat} {call : CloudCall prim ε} (turning : s.Turning n)
    (other : call.isFlush = false) :
    (s.step call).Turning n ∧ (s.step call).sendCursor = s.sendCursor := by
  obtain ⟨cursor, owners⟩ := cursor_step other
  refine ⟨⟨sound_step turning.sound call, ?_, ?_⟩, cursor⟩
  · rw [owners, turning.owners]
  · rw [cursor]
    exact turning.cursor

theorem mem_turns_iff (cursor : s.sendCursor < s.owners) :
    i < s.owners → s.turns[ahead s.owners s.sendCursor i]? = some i := by
  intro inside
  rw [turns, getElem?_map, getElem?_range (ahead_lt cursor inside)]
  exact congrArg some (add_ahead cursor inside)

/-- A flush either reaches an owner that waits, or comes closer to it. -/
theorem flush_closer {n : Nat} {f : Flushed edhoc ε} (turning : s.Turning n) (inside : i < n)
    (waiting : s.waits now i = true) (flushes : Flushes s now s.turns f) :
    f.state.sendCursor < n ∧ ((∃ a, f.attempt = some a ∧ a.owner = i) ∨
      ahead n f.state.sendCursor i < ahead n s.sendCursor i) := by
  obtain ⟨-, rfl, cursor⟩ := turning
  have turn := mem_turns_iff cursor inside
  obtain ⟨-, nobody⟩ | ⟨front, index, back, order, moved, nobody, sends⟩ := flushes.ends
  · have idle := nobody i (mem_of_getElem? turn)
    rw [waiting] at idle
    cases idle
  rw [moved]
  refine ⟨Nat.mod_lt _ (Nat.succ_pos _), ?_⟩
  -- the turn that ended the call stands no later than the owner's
  have here : s.turns[front.length]? = some index := by simp [order]
  have offset : (s.sendCursor + front.length) % s.owners = index ∧ front.length < s.owners := by
    rw [turns, getElem?_map] at here
    obtain ⟨k, range, place⟩ := Option.map_eq_some_iff.mp here
    obtain ⟨below, rfl⟩ := List.getElem?_eq_some_iff.mp range
    simp only [List.length_range] at below
    simp only [getElem_range] at place
    exact ⟨place, below⟩
  by_cases reached : index = i
  · subst reached
    exact .inl (sends waiting)
  refine .inr ?_
  have before : front.length < ahead s.owners s.sendCursor i := by
    obtain earlier | same | later := Nat.lt_trichotomy (ahead s.owners s.sendCursor i) front.length
    · -- an owner before that turn does not wait
      rw [order, getElem?_append_left earlier] at turn
      have idle := nobody i (mem_of_getElem? turn)
      rw [waiting] at idle
      cases idle
    · rw [same, here] at turn
      exact absurd (Option.some.inj turn) reached
    · exact later
  rw [← offset.1, Nat.mod_add_mod, ahead_past cursor inside before]
  omega

def attempt (s : CloudAdmission edhoc) : CloudCall prim ε → Option Attempt
  | .flush io now registry => (s.flush io now registry).attempt
  | _ => none

/-- An owner is queued, and unexpired, at every flush of a run, after its upkeep. -/
def StaysQueued (s : CloudAdmission edhoc) (calls : List (CloudCall prim ε)) (i : Nat) : Prop :=
  ∀ entry ∈ trace step s calls, ∀ io now registry, entry.2 = .flush io now registry →
    (entry.1.maintain now registry : Except (CloudError ε) Unit × _).2.queuedAt now i = true

variable {s : CloudAdmission edhoc} {calls : List (CloudCall prim ε)} {i n : Nat}

theorem StaysQueued.tail {call : CloudCall prim ε} (stays : StaysQueued s (call :: calls) i) :
    StaysQueued (s.step call) calls i :=
  fun entry mem => stays entry (mem_cons_of_mem _ mem)

theorem attempted_of_ahead (turning : s.Turning n) (inside : i < n)
    (stays : StaysQueued s calls i) (enough : ahead n s.sendCursor i < calls.countP (·.isFlush)) :
    ∃ entry ∈ trace step s calls, ∃ a, entry.1.attempt entry.2 = some a ∧ a.owner = i := by
  -- the distance of the cursor from the owner is less than the number of flushes to come
  induction calls generalizing s with
  | nil => simp at enough
  | cons call calls ih =>
  have sound := sound_step turning.sound call
  -- an attempt in the rest is one in the whole
  have later (found : ∃ entry ∈ trace step (s.step call) calls, ∃ a,
      entry.1.attempt entry.2 = some a ∧ a.owner = i) :
      ∃ entry ∈ trace step s (call :: calls), ∃ a, entry.1.attempt entry.2 = some a ∧ a.owner = i := by
    obtain ⟨entry, mem, a, sent⟩ := found
    exact ⟨entry, mem_cons_of_mem _ mem, a, sent⟩
  cases other : call.isFlush with
  | false =>
    obtain ⟨turning', cursor⟩ := turning.quiet other
    refine later (ih turning' stays.tail ?_)
    rw [cursor]
    simpa [countP_cons, other] using enough
  | true =>
  cases call with
  | flush io now registry =>
    have queued := stays _ (mem_cons_self ..) io now registry rfl
    obtain ⟨refused, halted⟩ | ⟨accepted, kept⟩ := maintain_cases (ε := ε) s now registry
    · simp only [halted, queuedAt_halt, Bool.false_eq_true] at queued
    simp only [kept] at queued
    have upkept := sound_upkept turning.sound accepted registry
    obtain ⟨wrong, -⟩ | ⟨-, flushes⟩ := flush_cases s io now registry
    · exact absurd accepted wrong
    have turning' : (s.upkept now registry).Turning n :=
      ⟨upkept, by simp [turning.owners], by simp [turning.cursor]⟩
    obtain ⟨cursor, ⟨a, sent, owner⟩ | closer⟩ :=
      flush_closer turning' inside (waits_of_queuedAt upkept queued) flushes
    · exact ⟨_, mem_cons_self .., a, sent, owner⟩
    refine later (ih ⟨sound, ?_, cursor⟩ stays.tail ?_)
    · rw [← turning'.owners]
      exact flushes.tended.owners
    simp only [upkept_sendCursor] at closer
    rw [countP_cons_of_pos rfl] at enough
    rw [step]
    omega
  | _ => cases other

theorem turning_step (turning : s.Turning n) (call : CloudCall prim ε) :
    (s.step call).Turning n := by
  have sound := sound_step turning.sound call
  cases call with
  | flush io now registry =>
    obtain ⟨-, halted⟩ | ⟨accepted, flushes⟩ := flush_cases s io now registry
    · have state : s.step (.flush io now registry) = s.halt := by rw [step, halted]
      refine ⟨sound, ?_, ?_⟩
      · rw [state, owners_halt, turning.owners]
      · rw [state]
        exact turning.cursor
    have owners : (s.step (.flush io now registry)).owners = n := by
      rw [step, flushes.tended.owners, owners_upkept, turning.owners]
    refine ⟨sound, owners, ?_⟩
    obtain ⟨unmoved, -⟩ | ⟨front, index, back, -, moved, -⟩ := flushes.ends
    · rw [step, unmoved, upkept_sendCursor]
      exact turning.cursor
    · rw [step, moved, owners_upkept, turning.owners]
      exact Nat.mod_lt _ (turning.cursor.pos)
  | _ => exact (turning.quiet rfl).1

/-- **An owner that stays queued and unexpired is given an attempt within as many flushes as there
are owners.** The owner at an index is a provisional handshake, a retained one or the challenge; the
run goes on from anywhere, with datagrams, hand-offs and transport results of any kind between the
flushes. -/
theorem attempted_within_owners {active pending retained sources nowMs : Nat}
    {identity : Identity prim} {limits : AdmissionLimits} {entropy : Option (Receipts.Fixed 32)}
    {start : CloudAdmission edhoc}
    (created : (new edhoc (active, pending, retained, sources) identity nowMs limits entropy :
      Except (CloudError ε) (CloudAdmission edhoc)) = .ok start)
    (before calls : List (CloudCall prim ε)) {i : Nat} (owner : i < pending + retained + 1)
    (stays : StaysQueued (run step start before) calls i)
    (flushes : calls.countP (·.isFlush) = pending + retained + 1) :
    ∃ entry ∈ trace step (run step start before) calls, ∃ a,
      entry.1.attempt entry.2 = some a ∧ a.owner = i := by
  have begins : start.Turning (pending + retained + 1) := by
    refine ⟨rows_of_new created _ _, ?_, ?_⟩
    · obtain ⟨-, key, rfl⟩ := new_eq_ok created
      simp [owners]
    · obtain ⟨-, key, rfl⟩ := new_eq_ok created
      exact Nat.succ_pos _
  have turning := invariant_run (P := Turning (pending + retained + 1))
    (fun _ call turning => turning_step turning call) begins before
  refine attempted_of_ahead turning owner stays ?_
  rw [flushes]
  exact ahead_lt turning.cursor owner

def failedFlush (now : Nat) : CloudCall Primitives.sample Unit :=
  .flush (sampleTransport false) now fun _ => none

theorem stays_queued_sample :
    StaysQueued (run step sample [strangerCall])
      [failedFlush 11, failedFlush 12, failedFlush 13] 2 := by
  intro entry mem io now registry same
  simp only [trace, mem_cons, not_mem_nil, or_false] at mem
  obtain rfl | rfl | rfl := mem
  · cases same
    decide +kernel
  · cases same
    decide +kernel
  · cases same
    decide +kernel

/-- With one slot a table, a challenge is tried within three flushes. -/
theorem attempted_within_owners_sample : ∃ entry ∈ trace step (run step sample [strangerCall])
        [failedFlush 11, failedFlush 12, failedFlush 13], ∃ a,
      entry.1.attempt entry.2 = some a ∧ a.owner = 2 :=
  attempted_within_owners new_sample [strangerCall] [failedFlush 11, failedFlush 12, failedFlush 13]
    (by decide) stays_queued_sample rfl

end CloudAdmission
end Coaptic.Provisioning
