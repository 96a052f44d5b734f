import Coaptic.Client.Cooling

/-!
# No completion is lost

Once a Call is failed, or the last response to it is accepted, the application gets its result
when it asks next, whatever happens in between.
-/
namespace Coaptic.Client

open Codec Block Pending Program Slots Run

variable {maxLen n : Nat} {call : Call maxLen} {s t : State maxLen}

/-- What the application gets when it asks next: this result, with the bytes of the assembled body
unless there are too many. -/
def State.Hands (s : State maxLen) (call : Call maxLen) (result : Except CallFailure ReplyMeta) :
    Prop :=
  ∃ body : Option (List UInt8), (s.takeResponse call).1 =
    some (if body.any (responseBody < ·.length) then .error .responseBodyBounds
      else result.map (·, body))

theorem hands_of_stored (kept : Kept n none none s) {row : InboxRow maxLen}
    (isRow : s.inbox.row call = some row) (complete : row.complete = true) :
    s.Hands call row.result := by
  obtain ⟨rx, isState⟩ := releaseDatagram_eq s call
  have released := kept.releaseDatagram call
  obtain ⟨f, mapped⟩ := takeDatagram_rows kept.inbox call call
  have found : ((s.releaseDatagram call).inbox.take call).1 =
      some { row with datagram := f row } := by
    rw [(released.inbox.take call).1, isState]
    rw [isRow, Option.map_some] at mapped
    simp [mapped, Option.filter, complete]
  simp only [State.Hands, State.takeResponse]
  generalize s.releaseDatagram call = u at found
  cases taken : u.inbox.take call with
  | mk first rows =>
    rw [taken] at found
    cases found
    cases row.body with
    | none => exact ⟨none, rfl⟩
    | some id =>
    dsimp only
    generalize State.settle _ call = settled
    refine ⟨settled.rxBodyPayload id, ?_⟩
    split <;> rfl

/-! ### Until it is collected -/

/-- The event collects the result of the Call, or may be a request that takes its place. -/
def Event.Takes (call : Call maxLen) : Event maxLen → Prop
  | .take other | .takeInto other _ _ => other = call
  | .request spec _ _ _ => spec.replacing = true ∧ spec.dest = call.peer
  | _ => False

theorem Owed.commitCall (owed : Owed call s) {live : LiveCall maxLen} {replacing : Bool}
    (other : replacing = true → live.call ≠ call) : Owed call (s.commitCall live replacing) := by
  cases replacing with
  | false => exact owed
  | true =>
  obtain ⟨rx, released⟩ := releaseDatagram_eq s live.call
  obtain ⟨result, member⟩ := owed
  simp only [State.commitCall, if_true, released]
  exact ⟨result, List.mem_filter.mpr ⟨member, by simpa using (other rfl).symm⟩⟩

theorem Owed.request (owed : Owed call s) {spec : RequestSpec maxLen}
    (other : ¬ (spec.replacing = true ∧ spec.dest = call.peer)) (draws : List (OwnedToken maxLen))
    (pins : List Nat) (nowMs : Nat) : Owed call (exec (request spec draws pins nowMs) s).2 := by
  rcases request_cases spec draws pins nowMs s with
    refused | ⟨new, prior, u, v, admitted, before, sent, -, last⟩
  · exact refused.owed call (by simp) owed
  apply last.owed call (by simp)
  apply Owed.commitCall (sent.owed call (by simp) (before.owed call (by simp) owed))
  rintro replacing rfl
  exact other ⟨replacing, admitted.atPeer.symm⟩

theorem Owed.removeAssociation (owed : Owed call s) (peer : Endpoint) :
    Owed call (s.removeAssociation peer) := by
  have revoked : Owed call (s.revokeAssociation peer) := by
    refine List.foldlRecOn (motive := Owed call) _ _ owed ?_
    intro t owed i _
    rw [State.revokeRow]
    split
    · exact owed
    · exact owed.failCall _ _ _
  have swept : Tame 0 none (s.revokeAssociation peer) (s.removeAssociation peer) := .sweep s peer
  exact swept.owed call (by simp) revoked

/-- A result stays until it is collected. -/
theorem Owed.step (owed : Owed call s) {input : Input maxLen} (spared : ¬ input.event.Takes call) :
    Owed call (s.step input) := by
  obtain ⟨event, plans, answers⟩ := input
  have owed : Owed call { s with plans, answers } := owed
  simp only [State.step]
  rcases Tame.handle { s with plans, answers } event with
    tame | ⟨spec, draws, pins, nowMs, rfl⟩ | ⟨peer, rfl⟩
  · refine tame.owed call ?_ owed
    cases event with
    | take other
    | takeInto other available packet => simpa [Event.collects, Event.Takes, eq_comm] using spared
    | _ => simp [Event.collects]
  · exact owed.request spared draws pins nowMs
  · exact owed.removeAssociation peer

/-- Whatever happens to the client, a result is handed over when the application asks for it. -/
def Delivered (call : Call maxLen) (s : State maxLen) : Prop :=
  ∀ later, Meets State.step Orderly s later → (∀ input ∈ later, ¬ input.event.Takes call) →
    ∃ result, (run State.step s later).Hands call result

theorem Kept.delivered (kept : Kept n none none s) (owed : Owed call s) : Delivered call s := by
  intro later orderly spared
  induction later generalizing s with
  | nil =>
    obtain ⟨result, member⟩ := owed
    obtain ⟨-, row, isRow, complete, -⟩ := kept.owed call result member
    exact ⟨row.result, hands_of_stored kept isRow complete⟩
  | cons input later ih =>
    exact ih (kept.step orderly.1) (owed.step (spared input List.mem_cons_self)) orderly.2
      fun input member => spared input (List.mem_cons_of_mem _ member)

theorem not_continues (answered : s.exchanges.find call.key = none) (uploads : s.uploads = [])
    (downloads : s.downloads = []) (observes : s.observes = []) : ¬ Continues call s := by
  rintro (waits | ⟨upload, member, -⟩ | ⟨id, download, at_, -⟩ | observing)
  · rw [Pends, answered] at waits
    cases waits
  · rw [uploads] at member
    cases member
  · rw [downloads] at at_
    cases at_
  · rw [observes] at observing
    cases observing

end Coaptic.Client
