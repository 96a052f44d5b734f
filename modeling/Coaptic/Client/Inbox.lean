import Coaptic.Lib.Slots
import Coaptic.Message.Values
import Coaptic.Storage.Pending

/-!
# Client inbox

Completed replies wait here until the application collects them, one row for each Call. A row
that is not complete yet holds the header of a representation whose blocks are still arriving.
The table never evicts: a completion that finds no row is dropped.
-/
namespace Coaptic.Client

open Codec Block Pending Slots

/-- Token of a request and the peer it went to. -/
structure Call (maxLen : Nat) where
  token : OwnedToken maxLen
  peer : Endpoint
deriving DecidableEq

/-- Local ends of a Call. -/
inductive CallFailure
  | packetHeadroom
  | cancelled
  | associationRevoked
  | cancellationFailed
  | reregistrationFailed
  | observeFormatMismatch
  | continuationFailed
  | deadlineExceeded
  | timedOut
  | reset
  | blockTransfer (error : BlockTransferError)
  | responseMetadataBounds
  | responseBodyBounds
deriving DecidableEq

def responseOptionCount : Nat := 24
def responseOptionBytes : Nat := 512
def inlinePayload : Nat := 128
def locationMax : Nat := 8

/-- What is kept of a reply: its header as it would be encoded, and the front of its payload. -/
structure ReplyMeta where
  receivedAtMs : Nat
  header : List UInt8
  peer : Endpoint
  payload : List UInt8
  payloadSrcLen : Nat
deriving DecidableEq

variable {maxLen : Nat}

def ReplyMeta.fromParsed (parsed : ParsedMessage maxLen) (peer : Endpoint) (receivedAtMs : Nat) :
    Except CallFailure ReplyMeta :=
  let options := parsed.options
  if locationMax < options.countP (·.number = OptionNumber.locationPath) ∨
      locationMax < options.countP (·.number = OptionNumber.locationQuery) then
    .error .responseMetadataBounds
  else
    match (OptionsBuilder.new : OptionsBuilder responseOptionCount).pushAll options with
    | none => .error .responseMetadataBounds
    | some builder =>
    let message : Message maxLen :=
      ⟨parsed.header.ty, parsed.header.code, parsed.header.id, parsed.token, builder.items, []⟩
    match encode message (List.replicate responseOptionBytes 0) with
    | (.error _, _) => .error .responseMetadataBounds
    | (.ok n, out) =>
    .ok {
      receivedAtMs
      header := out.take n
      peer
      payload := parsed.payload.take inlinePayload
      payloadSrcLen := min parsed.payload.length 65535 }

/-- A reply or a failure that waits for its Call, with the slots it keeps. -/
structure InboxRow (maxLen : Nat) where
  complete : Bool
  call : Call maxLen
  result : Except CallFailure ReplyMeta
  body : Option Nat
  datagram : Option Nat
deriving DecidableEq

abbrev ClientInbox (maxLen : Nat) := List (Option (InboxRow maxLen))

namespace ClientInbox

section

variable (rows : ClientInbox maxLen) (call : Call maxLen)

/-- Store a completed reply, over the Call's row if it has one. The body of that row is handed
back; `error` when every row belongs to another Call. -/
def insert (result : Except CallFailure ReplyMeta) (body : Option Nat) :
    Except Unit (Option Nat) × ClientInbox maxLen :=
  let row : InboxRow maxLen := ⟨true, call, result, body, none⟩
  match rows.findIdx? fun slot => slot.any fun row => row.call = call with
  | some i => (.ok (rows[i]?.join.bind (·.body)), rows.set i (some row))
  | none =>
  match rows.findIdx? (·.isNone) with
  | some i => (.ok none, rows.set i (some row))
  | none => (.error (), rows)

def update (f : InboxRow maxLen → InboxRow maxLen) : ClientInbox maxLen :=
  match rows.findIdx? fun slot => slot.any fun row => row.call = call with
  | none => rows
  | some i => rows.modify i (Option.map f)

def takeDatagram : Option Nat × ClientInbox maxLen :=
  ((find InboxRow.call rows call).bind (·.datagram),
    rows.update call fun row => { row with datagram := none })

def completed : Option (InboxRow maxLen) :=
  (rows.find? fun slot => slot.any fun row => row.complete && row.call = call).join

def discard : ClientInbox maxLen :=
  rows.map fun slot => if slot.any fun row => row.call = call then none else slot

def contains : Bool :=
  rows.any fun slot => slot.any fun row => row.call = call && row.complete

def partialMeta (body : Nat) : Option ReplyMeta :=
  match (rows.find? fun slot => slot.any fun row =>
      (!row.complete && row.body = some body) && row.call = call).join with
  | some ⟨_, _, .ok reply, _, _⟩ => some reply
  | _ => none

def retainPartial (reply : ReplyMeta) (body : Nat) :
    Except Unit (Option Nat) × ClientInbox maxLen :=
  if (rows.partialMeta call body).isSome then (.ok none, rows)
  else
  match rows.insert call (.ok reply) (some body) with
  | (.error (), rows) => (.error (), rows)
  | (.ok previous, rows) => (.ok previous, rows.update call fun row => { row with complete := false })

def take : Option (InboxRow maxLen) × ClientInbox maxLen :=
  match rows.findIdx? fun slot => slot.any fun row => row.complete && row.call = call with
  | none => (none, rows)
  | some i => (rows[i]?.join, rows.set i none)

end

/-! ### The inbox as a map from Calls to rows -/

abbrev Single (rows : ClientInbox maxLen) : Prop := Distinct InboxRow.call rows

abbrev row (rows : ClientInbox maxLen) (call : Call maxLen) : Option (InboxRow maxLen) :=
  find InboxRow.call rows call

variable {rows : ClientInbox maxLen} {call : Call maxLen}

section

variable (single : rows.Single)
include single

theorem Single.set {i : Nat} {a : InboxRow maxLen} (held : rows[i]? = some (some a))
    (same : a.call = call) (new : InboxRow maxLen) (newCall : new.call = call) :
    Single (rows.set i (some new)) ∧
      ∀ k, row (rows.set i (some new)) k = if call = k then some new else rows.row k := by
  have wrote := single.replace held (same.trans newCall.symm)
  exact ⟨wrote.distinct, fun k => by rw [row, wrote.find, newCall]⟩

section

variable (call : Call maxLen)

/-- Outcomes of an insertion: the row is there afterwards, or every row is another Call's. -/
theorem Single.insert (result : Except CallFailure ReplyMeta) (body : Option Nat) :
    (∃ rows', rows.insert call result body = (.ok ((rows.row call).bind (·.body)), rows') ∧
        Single rows' ∧ rows'.length = rows.length ∧
        ∀ k, row rows' k = if call = k then some ⟨true, call, result, body, none⟩ else rows.row k) ∨
      (rows.insert call result body = (.error (), rows) ∧ rows.row call = none ∧
        rows.findIdx? (·.isNone) = none) := by
  simp only [ClientInbox.insert]
  split
  next i found =>
    obtain ⟨a, held, same, isRow, -⟩ := single.findIdx_some found
    obtain ⟨single', rows'⟩ := single.set held same ⟨true, call, result, body, none⟩ rfl
    left
    refine ⟨_, ?_, single', List.length_set, rows'⟩
    simp [row, isRow, held]
  next absent =>
  have absent := findIdx_none.mp absent
  split
  next i free =>
    have wrote : Wrote InboxRow.call rows i ⟨true, call, result, body, none⟩ :=
      single.fill (findIdx_free free).1 absent
    exact .inl ⟨_, by simp [row, absent], wrote.distinct, List.length_set, wrote.find⟩
  next full => exact .inr ⟨rfl, absent, full⟩

/-- Changing the row of a Call changes nothing else. -/
theorem Single.update {f : InboxRow maxLen → InboxRow maxLen}
    (same : ∀ row, (f row).call = row.call) :
    Single (rows.update call f) ∧ (rows.update call f).length = rows.length ∧
      ∀ k, row (rows.update call f) k = if call = k then (rows.row k).map f else rows.row k := by
  simp only [ClientInbox.update]
  split
  next absent =>
    refine ⟨single, rfl, fun k => ?_⟩
    split
    next here =>
      have absent := findIdx_none.mp absent
      rw [← here, row, absent]
      rfl
    · rfl
  next i found =>
    obtain ⟨a, held, isCall, isRow, inside⟩ := single.findIdx_some found
    have written : rows.modify i (Option.map f) = rows.set i (some (f a)) := by
      rw [List.modify_eq_set, held]
      rfl
    obtain ⟨single', rows'⟩ := single.set held isCall (f a) ((same a).trans isCall)
    rw [written]
    refine ⟨single', List.length_set, fun k => ?_⟩
    rw [rows' k]
    split
    next here => rw [← here, row, isRow]; rfl
    · rfl

theorem Single.takeDatagram :
    Single (rows.takeDatagram call).2 ∧ (rows.takeDatagram call).2.length = rows.length ∧
      ∀ k, row (rows.takeDatagram call).2 k =
        if call = k then (rows.row k).map fun row => { row with datagram := none } else rows.row k :=
  single.update call fun _ => rfl

theorem Single.completed : rows.completed call = (rows.row call).filter (·.complete) :=
  single.find_test (·.complete)

theorem Single.discard : Single (rows.discard call) ∧ (rows.discard call).length = rows.length ∧
      ∀ k, row (rows.discard call) k = if call = k then none else rows.row k := by
  have held {i : Nat} {a : InboxRow maxLen} :
      (rows.discard call)[i]? = some (some a) ↔ rows[i]? = some (some a) ∧ a.call ≠ call := by
    simp only [ClientInbox.discard, List.getElem?_map, Option.map_eq_some_iff]
    constructor
    · rintro ⟨slot, at_, kept⟩
      split at kept
      · cases kept
      next other =>
      subst kept
      exact ⟨at_, by simpa using other⟩
    · rintro ⟨at_, other⟩
      exact ⟨_, at_, by simp [other]⟩
  have single' : Single (rows.discard call) := by
    intro i j a b atI atJ same
    exact single i j a b (held.mp atI).1 (held.mp atJ).1 same
  refine ⟨single', by simp [ClientInbox.discard], fun k => ?_⟩
  apply Option.ext
  intro a
  rw [row, single'.find_eq_some_iff]
  have members : some a ∈ rows.discard call ↔ some a ∈ rows ∧ a.call ≠ call := by
    simp only [List.mem_iff_getElem?, held]
    exact ⟨fun ⟨i, at_, other⟩ => ⟨⟨i, at_⟩, other⟩, fun ⟨⟨i, at_⟩, other⟩ => ⟨i, at_, other⟩⟩
  rw [members]
  split
  next here =>
    subst here
    constructor
    · rintro ⟨⟨-, other⟩, same⟩
      exact absurd same other
    · rintro ⟨⟩
  next there =>
  rw [single.find_eq_some_iff]
  constructor
  · rintro ⟨⟨member, -⟩, same⟩
    exact ⟨member, same⟩
  · rintro ⟨member, same⟩
    exact ⟨⟨member, fun other => there (other.symm.trans same)⟩, same⟩

/-- Collecting removes the Call's row if it is complete. -/
theorem Single.take :
    (rows.take call).1 = (rows.row call).filter (·.complete) ∧ Single (rows.take call).2 ∧
      (rows.take call).2.length = rows.length ∧
      ∀ k, row (rows.take call).2 k =
        if call = k then (rows.row k).filter (!·.complete) else rows.row k := by
  simp only [ClientInbox.take]
  split
  next absent =>
    have incomplete : (rows.row call).filter (·.complete) = none := by
      rw [Option.filter_eq_none_iff]
      intro a isRow complete
      obtain ⟨member, same⟩ := single.find_eq_some_iff.mp isRow
      have := List.findIdx?_eq_none_iff.mp absent (some a) member
      simp [complete, same] at this
    refine ⟨incomplete.symm, single, rfl, fun k => ?_⟩
    split
    next here =>
      subst here
      cases isRow : rows.row call with
      | none => rfl
      | some a =>
      rw [isRow, Option.filter_eq_none_iff] at incomplete
      have := incomplete a rfl
      simp [Option.filter, this]
    · rfl
  next i found =>
    obtain ⟨a, held, passes, inside⟩ := findIdx_any found
    simp only [Bool.and_eq_true, decide_eq_true_eq] at passes
    obtain ⟨complete, same⟩ := passes
    have isRow := single.find_eq_some_iff.mpr ⟨List.mem_of_getElem? held, same⟩
    refine ⟨?_, single.clear i, List.length_set, fun k => ?_⟩
    · simp [isRow, held, Option.filter, complete]
    rw [row, single.find_clear held, same]
    split
    next here => subst here; simp [isRow, Option.filter, complete]
    · rfl

end

theorem Single.partialMeta {body : Nat} {reply : ReplyMeta}
    (h : rows.partialMeta call body = some reply) :
    ∃ kept, rows.row call = some kept ∧ kept.complete = false ∧ kept.body = some body := by
  simp only [ClientInbox.partialMeta, single.find_test] at h
  split at h
  next found =>
    obtain ⟨isRow, passes⟩ := Option.filter_eq_some_iff.mp found
    exact ⟨_, isRow, by simpa using passes⟩
  · cases h

/-- Outcomes of keeping a first block: the Call's row waits for the rest of `body`, and the body
it had before is handed back; or every row is another Call's. -/
theorem Single.retainPartial (call : Call maxLen) (reply : ReplyMeta) (body : Nat) :
    (∃ previous rows', rows.retainPartial call reply body = (.ok previous, rows') ∧
        Single rows' ∧ rows'.length = rows.length ∧
        (∃ kept, row rows' call = some kept ∧ kept.complete = false ∧ kept.body = some body) ∧
        (∀ k, call ≠ k → row rows' k = rows.row k) ∧
        ∀ id, (rows.row call).bind (·.body) = some id → previous = some id ∨ id = body) ∨
      (rows.retainPartial call reply body = (.error (), rows) ∧ rows.row call = none ∧
        rows.findIdx? (·.isNone) = none) := by
  simp only [ClientInbox.retainPartial]
  split
  next known =>
    obtain ⟨old, known⟩ := Option.isSome_iff_exists.mp known
    obtain ⟨kept, isRow, incomplete, isBody⟩ := single.partialMeta known
    refine .inl ⟨_, _, rfl, single, rfl, ⟨kept, isRow, incomplete, isBody⟩, fun _ _ => rfl, ?_⟩
    intro id before
    rw [isRow, Option.bind_some, isBody] at before
    exact .inr (Option.some.inj before).symm
  · rcases single.insert call (.ok reply) (some body) with
      ⟨rows', inserted, single', length, isRow⟩ | ⟨refused, absent, full⟩
    · obtain ⟨single'', length', isRow'⟩ :=
        single'.update call (f := fun row => { row with complete := false }) fun _ => rfl
      rw [inserted]
      refine .inl ⟨_, _, rfl, single'', length'.trans length, ?_, ?_, ?_⟩
      · rw [isRow', if_pos rfl, isRow, if_pos rfl]
        exact ⟨_, rfl, rfl, rfl⟩
      · intro k other
        rw [isRow', if_neg other, isRow, if_neg other]
      · intro id before
        exact .inl before
    · rw [refused]
      exact .inr ⟨rfl, absent, full⟩

end

end ClientInbox

end Coaptic.Client
