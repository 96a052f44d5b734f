import Coaptic.Client.Inbox
import Mathlib.Data.List.ReduceOption

/-!
# Outstanding Calls

One row for each Call the application waits on. A Call that was answered with an overload code
leaves a retired row behind, which keeps the request's identity until the peer's delay is over.
-/
namespace Coaptic.Codec

open Block

/-- `4.29`, overload as `5.03`. -/
def Code.tooManyRequests : Code := ⟨0x9d⟩

def decodeBlock (bytes : List UInt8) : Option BlockValue :=
  if 3 < bytes.length then none
  else (decodeUint bytes).bind fun raw =>
    (BlockValue.new (raw / 16) (raw / 8 % 2 = 1) (raw % 8)).toOption

namespace ParsedMessage

variable {maxLen : Nat} (msg : ParsedMessage maxLen)

/-! An option that is present but does not decode is `some none`. -/

def observe : Option (Option Nat) := (msg.getOption .observe).map (decodeObserve ·.value)
def maxAge : Option (Option Nat) := (msg.getOption .maxAge).map (decodeUint ·.value)
def contentFormat : Option (Option Nat) := (msg.getOption .contentFormat).map (decodeUint16 ·.value)
def block2 : Option (Option BlockValue) := (msg.getOption .block2).map (decodeBlock ·.value)
def qBlock2 : List (Option BlockValue) :=
  (msg.options.filter (·.number = OptionNumber.qBlock2)).map (decodeBlock ·.value)

def unknownCritical : Bool := msg.options.any fun opt => opt.number.isCritical && !opt.number.isKnown

end ParsedMessage

end Coaptic.Codec

namespace Coaptic.Client

open Codec Block Pending Slots

variable {maxLen : Nat}

def defaultMaxAgeSecs : Nat := 60

/-- What a request asks about notifications. -/
inductive OutgoingObserve
  | off
  | register
  | deregister
deriving DecidableEq

/-- Canonical bytes of a request, for exact comparison. -/
abbrev ObserveRequest := List UInt8

def ObserveRequest.sameTarget (left right : ObserveRequest) : Bool :=
  match extendedDecode left, extendedDecode right with
  | .ok left, .ok right =>
    let blocks : List OptionNumber := [.block1, .block2, .qBlock1, .qBlock2]
    let cacheKey (opt : Opt) : Bool := !opt.number.isNoCacheKey && !blocks.contains opt.number
    left.header.code == right.header.code &&
      (left.header.code != .fetch || left.payload == right.payload) &&
      left.options.filter cacheKey == right.options.filter cacheKey
  | _, _ => false

/-- Row of an outstanding request. Options that are only repeated on continuations are part of
what the environment stages. -/
structure LiveCall (maxLen : Nat) where
  call : Call maxLen
  queries : List (List UInt8)
  path : List (List UInt8)
  requestTag : Option (List UInt8)
  code : Code
  ty : MsgType
  noResponse : Option NoResponse
  observe : OutgoingObserve
  observed : Option (Nat × Nat)
  observedFormat : Option (Option Nat)
  requestIdentity : Option ObserveRequest
  dueMs : Nat
  deadlineMs : Option Nat
  qPaceMs : Nat
  backoffUntilMs : Nat
  retired : Bool
deriving DecidableEq

/-- Sequence number that starts a representation: on a success, not on a later block. -/
def observationStart (parsed : ParsedMessage maxLen) : Option Nat :=
  if !parsed.header.code.isSuccess || parsed.block2.join.any (·.num ≠ 0) ||
      parsed.qBlock2.any (·.any (·.num ≠ 0)) then none
  else parsed.observe.join

section

variable (row : LiveCall maxLen)

/-- Peer, method, path and queries: what a peer's overload delay applies to. -/
def LiveCall.sameTarget (peer : Endpoint) (code : Code) (path queries : List (List UInt8)) : Bool :=
  row.call.peer = peer ∧ row.code = code ∧ row.path = path ∧ row.queries = queries

def LiveCall.delay (untilMs : Nat) : LiveCall maxLen :=
  { row with backoffUntilMs := max row.backoffUntilMs untilMs }

def LiveCall.retire : LiveCall maxLen :=
  { row with retired := true, dueMs := 0, deadlineMs := none, qPaceMs := 0, observe := .off }

end

/-- Why no registration is meant by a refresh or a cancellation. -/
inductive ObserveCallError
  | mismatch
  | ambiguous
deriving DecidableEq

abbrev ClientLives (maxLen : Nat) := List (Option (LiveCall maxLen))

namespace ClientLives

/-- The row is the Call's and the Call has not been collected. -/
def isLive (call : Call maxLen) (row : LiveCall maxLen) : Bool := !row.retired && row.call = call

section

variable (rows : ClientLives maxLen)

section

variable (call : Call maxLen)

def get : Option (LiveCall maxLen) :=
  (rows.find? fun slot => slot.any (isLive call)).join

def update (test : LiveCall maxLen → Bool) (f : LiveCall maxLen → LiveCall maxLen) :
    ClientLives maxLen :=
  match rows.findIdx? fun slot => slot.any test with
  | none => rows
  | some i => rows.modify i (Option.map f)

/-- A delay that is over is forgotten, and with it a row that was only kept for it. -/
def expireBackoffs (nowMs : Nat) : ClientLives maxLen :=
  rows.map fun slot => slot.bind fun row =>
    if nowMs < row.backoffUntilMs then some row
    else if row.retired then none
    else some { row with backoffUntilMs := 0 }

def backoffUntil (peer : Endpoint) (code : Code) (path queries : List (List UInt8)) : Option Nat :=
  (rows.reduceOption.filter fun row =>
    row.backoffUntilMs ≠ 0 ∧ row.sameTarget peer code path queries).map (·.backoffUntilMs) |>.max?

section

variable (parsed : ParsedMessage maxLen) (nowMs : Nat)

def recordBackoff : ClientLives maxLen :=
  if parsed.header.code ≠ .tooManyRequests ∧ parsed.header.code ≠ .serviceUnavailable then rows
  else if 1 < parsed.options.countP (·.number = OptionNumber.maxAge) then rows
  else
  match parsed.maxAge with
  | some none => rows
  | age =>
  let seconds := age.join.getD defaultMaxAgeSecs
  let rows := rows.expireBackoffs nowMs
  if seconds = 0 then rows
  else rows.update (isLive call) (·.delay (min (nowMs + seconds * 1000) u64Max))

def canAdmit : Bool :=
  rows.any fun slot => slot.isNone || slot.any (isLive call)

def insert (live : LiveCall maxLen) : ClientLives maxLen :=
  match rows.findIdx? fun slot => slot.any (isLive live.call) with
  | some i => rows.set i (some live)
  | none =>
  match rows.findIdx? (·.isNone) with
  | some i => rows.set i (some live)
  | none => rows

/-- A notification is newer than what was observed: by its sequence number, or by age. -/
def observeFresh : Bool :=
  match observationStart parsed with
  | none => true
  | some sequence =>
    match (rows.get call).bind (·.observed) with
    | none => true
    | some (previous, received) =>
      let delta := (sequence + 2 ^ 24 - previous % 2 ^ 24) % 2 ^ 24
      (delta ≠ 0 && delta < 0x00800000) || decide (128000 < nowMs - received)

def observeFormatMatches : Bool :=
  if (observationStart parsed).isNone then true
  else if parsed.contentFormat == some none ||
      decide (1 < parsed.options.countP (·.number = OptionNumber.contentFormat)) then false
  else if parsed.header.code == .valid && parsed.contentFormat.isNone then true
  else
  match (rows.get call).bind (·.observedFormat) with
  | none => true
  | some initial => initial == parsed.contentFormat.join

def observeFormatAdmissible (isProtected : Bool) : Bool :=
  (!isProtected && !rows.observeFresh call parsed nowMs) || rows.observeFormatMatches call parsed

def recordObservation : ClientLives maxLen :=
  match observationStart parsed with
  | none => rows
  | some sequence =>
  rows.update (·.call = call) fun row =>
    { row with
      observed := some (sequence, nowMs)
      observedFormat :=
        if row.observedFormat.isNone &&
            (parsed.header.code != .valid || parsed.contentFormat.isSome) then
          some parsed.contentFormat.join
        else row.observedFormat }

end

/-- The Call was collected: its row goes, or stays for the peer's delay. Retired rows of one
target are merged into the one with the longer delay. -/
def remove : ClientLives maxLen :=
  match rows.findIdx? fun slot => slot.any (isLive call) with
  | none => rows
  | some i =>
  match rows[i]?.join with
  | none => rows
  | some row =>
  if row.backoffUntilMs = 0 then rows.set i none
  else
  match rows.findIdx? fun slot => slot.any fun entry => entry.retired &&
      entry.sameTarget row.call.peer row.code row.path row.queries with
  | some other => (rows.modify other (Option.map (·.delay row.backoffUntilMs))).set i none
  | none => rows.set i (some row.retire)

end

def observeCall (peer : Endpoint) (identity : Option ObserveRequest)
    (target : Option (Call maxLen)) (waiting : Call maxLen → Bool) :
    Except ObserveCallError (Call maxLen) :=
  match rows.reduceOption.filter fun live =>
      live.call.peer = peer ∧ live.observe = .register ∧ live.dueMs ≠ 0 ∧ waiting live.call ∧
        live.requestIdentity = identity ∧ (target.all fun call => live.call = call) with
  | [] => .error .mismatch
  | [live] => .ok live.call
  | _ => .error .ambiguous

/-! ### Live Calls as a map to their request tags -/

/-- What the rest of the client depends on in a row: its Call and tag, while it is live. -/
def sketch (slot : Option (LiveCall maxLen)) : Option (Call maxLen × Option (List UInt8)) :=
  slot.bind fun row => if row.retired then none else some (row.call, row.requestTag)

abbrev outline (rows : ClientLives maxLen) : List (Option (Call maxLen × Option (List UInt8))) :=
  rows.map sketch

abbrev Single (rows : ClientLives maxLen) : Prop := Distinct Prod.fst rows.outline

/-- Request tag of a live Call; `none` for a Call that is not live. -/
def tag (call : Call maxLen) : Option (Option (List UInt8)) :=
  (find Prod.fst rows.outline call).map Prod.snd

/-- Calls with a row, retired rows included. -/
def calls : Finset (Call maxLen) :=
  (rows.reduceOption.map (·.call)).toFinset

end

variable {rows : ClientLives maxLen} {call : Call maxLen}

theorem mem_calls : call ∈ rows.calls ↔ ∃ row, some row ∈ rows ∧ row.call = call := by
  simp [calls, List.reduceOption_mem_iff]

variable {slot : Option (LiveCall maxLen)} {f : LiveCall maxLen → LiveCall maxLen} {i : Nat}

theorem sketch_eq_some {tag : Option (List UInt8)} : sketch slot = some (call, tag) ↔
      ∃ row, slot = some row ∧ isLive call row = true ∧ row.requestTag = tag := by
  cases slot with
  | none => simp [sketch]
  | some row =>
    cases retired : row.retired <;> simp [sketch, isLive, retired]

theorem any_sketch (slot : Option (LiveCall maxLen)) :
    ((sketch slot).any fun pair => pair.1 = call) = slot.any (isLive call) := by
  cases slot with
  | none => rfl
  | some row => cases retired : row.retired <;> simp [sketch, isLive, retired]

/-- The tag is that of the row `get` finds. -/
theorem tag_eq (rows : ClientLives maxLen) (call : Call maxLen) :
    rows.tag call = (rows.get call).map (·.requestTag) := by
  simp only [tag, find, outline, get, List.find?_map]
  have same : (fun slot => slot.any fun pair => decide (pair.1 = call)) ∘ sketch =
      fun slot : Option (LiveCall maxLen) => slot.any (isLive call) := by
    funext slot
    exact any_sketch slot
  rw [same]
  cases found : rows.find? fun slot => slot.any (isLive call) with
  | none => rfl
  | some slot =>
  have live := List.find?_some found
  cases slot with
  | none => cases live
  | some row =>
    have sketched := sketch_eq_some.mpr ⟨row, rfl, live, rfl⟩
    simp [sketched]

theorem mem_calls_of_tag (h : (rows.tag call).isSome) : call ∈ rows.calls := by
  rw [tag, Option.isSome_map] at h
  obtain ⟨⟨_, tag⟩, found⟩ := Option.isSome_iff_exists.mp h
  obtain ⟨member, rfl⟩ := mem_of_find found
  obtain ⟨slot, inRows, sketched⟩ := List.mem_map.mp member
  obtain ⟨row, rfl, live, -⟩ := sketch_eq_some.mp sketched
  simp only [isLive, Bool.and_eq_true, decide_eq_true_eq] at live
  exact mem_calls.mpr ⟨row, inRows, live.2⟩

theorem outline_modify (i : Nat) (same : ∀ row, sketch (some (f row)) = sketch (some row)) :
    outline (rows.modify i (Option.map f)) = rows.outline := by
  simp only [outline]
  apply List.ext_getElem?
  intro j
  simp only [List.getElem?_map, List.getElem?_modify]
  split
  · cases rows[j]? with
    | none => rfl
    | some slot =>
    cases slot with
    | none => rfl
    | some row => simp [same]
  · simp

theorem calls_modify (i : Nat) (same : ∀ row, (f row).call = row.call) :
    calls (rows.modify i (Option.map f)) ⊆ rows.calls := by
  intro call held
  obtain ⟨row, member, rfl⟩ := mem_calls.mp held
  obtain ⟨j, at_⟩ := List.mem_iff_getElem?.mp member
  rw [List.getElem?_modify, Option.map_eq_map, Option.map_eq_some_iff] at at_
  obtain ⟨slot, at_, written⟩ := at_
  split at written
  · obtain ⟨old, rfl, rfl⟩ := Option.map_eq_some_iff.mp written
    exact mem_calls.mpr ⟨old, List.mem_of_getElem? at_, (same old).symm⟩
  · cases written
    exact mem_calls.mpr ⟨row, List.mem_of_getElem? at_, rfl⟩

theorem outline_update (test : LiveCall maxLen → Bool)
    (same : ∀ row, sketch (some (f row)) = sketch (some row)) :
    (rows.update test f).outline = rows.outline := by
  simp only [update]
  split
  · rfl
  · exact outline_modify _ same

theorem calls_update (test : LiveCall maxLen → Bool) (same : ∀ row, (f row).call = row.call) :
    (rows.update test f).calls ⊆ rows.calls := by
  simp only [update]
  split
  · exact Finset.Subset.refl _
  · exact calls_modify _ same

section

variable (rows : ClientLives maxLen)

theorem outline_expireBackoffs (nowMs : Nat) :
    (rows.expireBackoffs nowMs).outline = rows.outline := by
  simp only [outline, expireBackoffs, List.map_map]
  congr 1
  funext slot
  cases slot with
  | none => rfl
  | some row =>
  -- Only a retired row goes, and a retired row has no sketch.
  simp only [Function.comp_apply, Option.bind_some]
  split
  · rfl
  split
  next retired => simp [sketch, retired]
  · rfl

theorem calls_expireBackoffs (nowMs : Nat) : (rows.expireBackoffs nowMs).calls ⊆ rows.calls := by
  intro call held
  obtain ⟨row, member, rfl⟩ := mem_calls.mp held
  simp only [expireBackoffs, List.mem_map, Option.bind_eq_some_iff] at member
  obtain ⟨_, member, old, rfl, kept⟩ := member
  refine mem_calls.mpr ⟨old, member, ?_⟩
  split at kept
  · cases kept; rfl
  split at kept
  · cases kept
  · cases kept; rfl

theorem outline_recordBackoff (call : Call maxLen) (parsed : ParsedMessage maxLen) (nowMs : Nat) :
    (rows.recordBackoff call parsed nowMs).outline = rows.outline := by
  fun_cases recordBackoff rows call parsed nowMs with
  | case4 => exact outline_expireBackoffs rows nowMs
  | case5 =>
    rw [outline_update]
    · exact outline_expireBackoffs rows nowMs
    · intro row
      rfl
  | _ => rfl

theorem calls_recordBackoff (call : Call maxLen) (parsed : ParsedMessage maxLen) (nowMs : Nat) :
    (rows.recordBackoff call parsed nowMs).calls ⊆ rows.calls := by
  fun_cases recordBackoff rows call parsed nowMs with
  | case4 => exact calls_expireBackoffs rows nowMs
  | case5 =>
    refine Finset.Subset.trans (calls_update _ ?_) (calls_expireBackoffs rows nowMs)
    intro row
    rfl
  | _ => exact Finset.Subset.refl _

/-- The search for a live row, in the outline. -/
theorem findIdx_outline (call : Call maxLen) : (rows.findIdx? fun slot => slot.any (isLive call)) =
      rows.outline.findIdx? fun slot => slot.any fun pair => pair.1 = call := by
  rw [outline, List.findIdx?_map]
  congr 1
  funext slot
  exact (any_sketch slot).symm

end

theorem calls_set {keys : Finset (Call maxLen)} (before : rows.calls ⊆ keys)
    (here : ∀ row, slot = some row → row.call ∈ keys) : calls (rows.set i slot) ⊆ keys := by
  intro call held
  obtain ⟨row, member, rfl⟩ := mem_calls.mp held
  rcases List.mem_or_eq_of_mem_set member with old | written
  · exact before (mem_calls.mpr ⟨row, old, rfl⟩)
  · exact here row written.symm

theorem calls_clear (rows : ClientLives maxLen) (i : Nat) :
    calls (rows.set i none) ⊆ rows.calls := by
  apply calls_set (Finset.Subset.refl _)
  intro row h
  cases h

/-- A request is admitted if there is a free place, or the Call is live. -/
theorem canAdmit_iff : rows.canAdmit call ↔ none ∈ rows ∨ (rows.tag call).isSome := by
  rw [canAdmit, List.any_eq_true, tag_eq, Option.isSome_map]
  constructor
  · rintro ⟨slot, member, admits⟩
    rw [Bool.or_eq_true, Option.isNone_iff_eq_none] at admits
    rcases admits with rfl | live
    · exact .inl member
    right
    have found := List.find?_isSome.mpr ⟨slot, member, live⟩
    obtain ⟨first, isFirst⟩ := Option.isSome_iff_exists.mp found
    have holds := List.find?_some isFirst
    rw [get, isFirst]
    cases first with
    | none => cases holds
    | some row => rfl
  · rintro (free | live)
    · exact ⟨none, free, rfl⟩
    obtain ⟨row, isRow⟩ := Option.isSome_iff_exists.mp live
    have found := Option.join_eq_some_iff.mp isRow
    exact ⟨some row, List.mem_of_find?_eq_some found, by simpa using List.find?_some found⟩

theorem none_mem_iff : none ∈ rows ↔ false ∈ rows.map Option.isSome := by
  simp

/-- A new row is live afterwards, if it was admitted. -/
theorem Single.insert (single : rows.Single) {live : LiveCall maxLen}
    (active : live.retired = false) (admitted : rows.canAdmit live.call) :
    Single (rows.insert live) ∧ (rows.insert live).length = rows.length ∧
      (rows.insert live).calls ⊆ Insert.insert live.call rows.calls ∧
      ∀ k, (rows.insert live).tag k = if live.call = k then some live.requestTag else rows.tag k := by
  have sketched : sketch (some live) = some (live.call, live.requestTag) := by
    simp [sketch, active]
  have within {i : Nat} : calls (rows.set i (some live)) ⊆ Insert.insert live.call rows.calls := by
    refine calls_set (Finset.subset_insert _ _) ?_
    rintro row ⟨⟩
    exact Finset.mem_insert_self _ _
  have written (i : Nat) : outline (rows.set i (some live)) =
      rows.outline.set i (some (live.call, live.requestTag)) := by
    rw [outline, List.map_set, sketched]
  have inserted {i : Nat} (wrote : Wrote Prod.fst rows.outline i (live.call, live.requestTag)) :
      Single (rows.set i (some live)) ∧ (rows.set i (some live)).length = rows.length ∧
      calls (rows.set i (some live)) ⊆ Insert.insert live.call rows.calls ∧
      ∀ k, tag (rows.set i (some live)) k = if live.call = k then some live.requestTag else rows.tag k := by
    refine ⟨by rw [Single, written]; exact wrote.distinct, List.length_set, within, fun k => ?_⟩
    rw [tag, written, wrote.find]
    split <;> rfl
  simp only [ClientLives.insert, findIdx_outline]
  split
  next i found =>
    obtain ⟨pair, held, same, -⟩ := single.findIdx_some found
    exact inserted (single.replace held same)
  next absent =>
    have absent := findIdx_none.mp absent
    split
    next i free =>
      have vacant : rows.outline[i]? = some none := by simp [outline, (findIdx_free free).1, sketch]
      exact inserted (single.fill vacant absent)
    next full =>
      -- Admission found a free row or the Call's own row.
      simp only [canAdmit, List.any_eq_true, Bool.or_eq_true] at admitted
      obtain ⟨slot, member, free | own⟩ := admitted
      · have := List.findIdx?_eq_none_iff.mp full slot member
        rw [free] at this
        cases this
      rw [← findIdx_none, ← findIdx_outline, List.findIdx?_eq_none_iff] at absent
      rw [absent slot member] at own
      cases own

/-- Writing what is not live over the live row of a Call. -/
theorem Single.retire (single : rows.Single)
    (found : rows.outline.findIdx? (fun slot => slot.any fun pair => pair.1 = call) = some i)
    {after : ClientLives maxLen} (written : after.outline = rows.outline.set i none) :
    after.Single ∧ ∀ k, after.tag k = if call = k then none else rows.tag k := by
  obtain ⟨pair, held, same, -, -⟩ := single.findIdx_some found
  refine ⟨?_, fun k => ?_⟩
  · rw [Single, written]
    exact single.clear i
  · rw [tag, written, single.find_clear held, same]
    split <;> rfl

/-- A Call that was collected is no longer live. Every other Call stays as it was. -/
theorem Single.remove (single : rows.Single) (call : Call maxLen) :
    Single (rows.remove call) ∧ (rows.remove call).length = rows.length ∧
      (rows.remove call).calls ⊆ rows.calls ∧
      ∀ k, (rows.remove call).tag k = if call = k then none else rows.tag k := by
  cases found : rows.findIdx? fun slot => slot.any (isLive call) with
  | none =>
    have unchanged : rows.remove call = rows := by simp only [ClientLives.remove, found]
    rw [unchanged]
    refine ⟨single, rfl, Finset.Subset.refl _, fun k => ?_⟩
    rw [findIdx_outline, findIdx_none] at found
    split
    next here => rw [← here, tag, found]; rfl
    · rfl
  | some i =>
  obtain ⟨row, held, live, -⟩ := findIdx_any found
  have inCalls := mem_calls.mpr ⟨row, List.mem_of_getElem? held, rfl⟩
  -- In every case the live row's place holds nothing live afterwards.
  suffices h : (rows.remove call).outline = rows.outline.set i none ∧
      (rows.remove call).length = rows.length ∧ (rows.remove call).calls ⊆ rows.calls by
    obtain ⟨written, length, within⟩ := h
    rw [findIdx_outline] at found
    obtain ⟨single', tags⟩ := single.retire found written
    exact ⟨single', length, within, tags⟩
  simp only [ClientLives.remove, found, held, Option.join_some]
  split
  · exact ⟨List.map_set, List.length_set, calls_clear rows i⟩
  split
  next other _ =>
    have kept : outline (rows.modify other (Option.map (·.delay row.backoffUntilMs))) =
        rows.outline := by
      apply outline_modify
      intro entry
      rfl
    have within : calls (rows.modify other (Option.map (·.delay row.backoffUntilMs))) ⊆
        rows.calls := by
      apply calls_modify
      intro entry
      rfl
    refine ⟨?_, by simp, (calls_clear _ i).trans within⟩
    rw [outline, List.map_set, ← outline, kept]
    rfl
  · refine ⟨List.map_set, List.length_set, calls_set (Finset.Subset.refl _) ?_⟩
    rintro _ ⟨⟩
    exact inCalls

end ClientLives

end Coaptic.Client
