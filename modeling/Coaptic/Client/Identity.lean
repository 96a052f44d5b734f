import Coaptic.App.Response
import Coaptic.Client.State

/-!
# Requests and their identity

What a request asks for, and the canonical bytes by which a refresh or a cancellation finds the
registration it means. The bytes are a datagram without token, so that they say all that a peer
sees of the request's method, path and queries.
-/
namespace Coaptic.Client

open Codec Block Pending StableSort

variable {maxLen : Nat}

/-- What a request asks for. `checks` is the outcome of the checks that read nothing else. -/
structure RequestSpec (maxLen : Nat) where
  dest : Endpoint
  ty : MsgType
  code : Code
  path : List (List UInt8)
  queries : List (List UInt8)
  payload : List UInt8
  contentFormat : Option Nat
  accept : Option Nat
  ifMatch : Option (List UInt8)
  ifNoneMatch : Bool
  block2 : Option BlockValue
  qBlock2 : Bool
  echo : Option (List UInt8)
  noResponse : Option NoResponse
  requestTag : Option (List UInt8)
  hasEtag : Bool
  qBlock1 : Bool
  observe : OutgoingObserve
  observeTarget : Option (Call maxLen)
  deadlineMs : Option Nat
  checks : Except Error Unit
deriving DecidableEq

def maxPathSegments : Nat := 8
def clientOptionSlots : Nat := 10 + 2 * maxPathSegments
def observeRequestBytes : Nat := 512

def optionsOf (number : OptionNumber) (values : List (List UInt8)) : List Opt :=
  values.map fun value => ⟨number, value⟩

def valuesOf (number : OptionNumber) (options : List Opt) : List (List UInt8) :=
  (level OptionsBuilder.key number.toNat options).map (·.value)

namespace RequestSpec

section

variable (spec : RequestSpec maxLen)

def refreshing : Bool :=
  spec.observe = .register && spec.observeTarget.isSome

/-- The request takes the place of a registration that exists, under its token. -/
def replacing : Bool := spec.observe = .deregister || spec.refreshing

def mismatch (spec : RequestSpec maxLen) (error : ObserveCallError) : Error :=
  if spec.refreshing then .observeRefreshMismatch
  else
  match error with
  | .mismatch => .observeCancellationMismatch
  | .ambiguous => .observeCancellationAmbiguous

/-- The options of a request's identity, which leaves out Observe and ETag. -/
def identityOptions : List Opt :=
  optionsOf .ifMatch spec.ifMatch.toList ++
  optionsOf .ifNoneMatch (if spec.ifNoneMatch then [[]] else []) ++
  optionsOf .uriPath spec.path ++
  optionsOf .contentFormat (spec.contentFormat.toList.map encodeUint) ++
  optionsOf .uriQuery spec.queries ++
  optionsOf .accept (spec.accept.toList.map encodeUint) ++
  optionsOf .block2 (spec.block2.toList.map App.encodeBlock) ++
  -- All blocks of a representation, from the first: NUM 0, M set, SZX 6.
  optionsOf .qBlock2 (if spec.qBlock2 then [encodeUint 14] else []) ++
  optionsOf .noResponse (spec.noResponse.toList.map fun mask => encodeUint mask.bitmap.toNat) ++
  optionsOf .echo spec.echo.toList ++
  optionsOf .requestTag spec.requestTag.toList

/-- Canonical bytes of a request that observes or is a FETCH; other requests have none. -/
def requestIdentity : Except Error (Option ObserveRequest) :=
  if spec.observe = .off ∧ spec.code ≠ .fetch then .ok none
  else
  match (OptionsBuilder.new : OptionsBuilder clientOptionSlots).pushAll spec.identityOptions with
  | none => .error (.message .optionsFull)
  | some options =>
  let message : Message 8 := ⟨.confirmable, spec.code, 0, .empty, options.items, spec.payload⟩
  match encode message (List.replicate observeRequestBytes 0) with
  | (.ok n, out) => .ok (some (out.take n))
  | (.error .bufferTooSmall, _) =>
    .error (if spec.observe = .off then .fetchRequestTooLarge else .observeRequestTooLarge)
  | (.error error, _) => .error (.message error)

def identity : Option ObserveRequest :=
  spec.requestIdentity.toOption.join

end

end RequestSpec

/-! ### What an identity says about its request -/

@[simp] theorem valuesOf_append (number : OptionNumber) (xs ys : List Opt) :
    valuesOf number (xs ++ ys) = valuesOf number xs ++ valuesOf number ys := by
  simp [valuesOf]

theorem valuesOf_optionsOf (number other : OptionNumber) (values : List (List UInt8)) :
    valuesOf number (optionsOf other values) = if other = number then values else [] := by
  have key (value : List UInt8) : OptionsBuilder.key ⟨other, value⟩ = other.toNat := rfl
  induction values with
  | nil => simp [valuesOf, optionsOf]
  | cons value rest ih =>
  simp only [valuesOf, optionsOf, List.map_cons, level_cons, key] at ih ⊢
  by_cases same : other = number
  · simp_all
  · have ne : other.toNat ≠ number.toNat := fun eq => same (UInt16.toNat_inj.mp eq)
    simp_all

def Identifies (identity : ObserveRequest) (code : Code) (path queries : List (List UInt8)) : Prop :=
  ∃ datagram, extendedDecode identity = .ok datagram ∧ datagram.header.code = code ∧
    valuesOf .uriPath datagram.options = path ∧ valuesOf .uriQuery datagram.options = queries

theorem Identifies.unique {identity : ObserveRequest} {code code' : Code}
    {path path' queries queries' : List (List UInt8)} (h : Identifies identity code path queries)
    (h' : Identifies identity code' path' queries') :
    code = code' ∧ path = path' ∧ queries = queries' := by
  obtain ⟨datagram, decoded, rfl, rfl, rfl⟩ := h
  obtain ⟨datagram', decoded', rfl, rfl, rfl⟩ := h'
  rw [decoded] at decoded'
  cases decoded'
  exact ⟨rfl, rfl, rfl⟩

/-- An identity shows the method, path and queries of the request it was made from. -/
theorem RequestSpec.identifies {spec : RequestSpec maxLen} {identity : ObserveRequest}
    (h : spec.identity = some identity) : Identifies identity spec.code spec.path spec.queries := by
  have made : spec.requestIdentity = .ok (some identity) := by
    rw [RequestSpec.identity] at h
    cases result : spec.requestIdentity with
    | error e => rw [result] at h; cases h
    | ok made => rw [result] at h; rw [← h]; rfl
  simp only [requestIdentity] at made
  split at made
  · cases made
  split at made
  · cases made
  next options pushed =>
  split at made
  next n out encoded =>
    cases made
    obtain ⟨wf, -, rfl, rfl⟩ := encode_ok encoded
    obtain ⟨datagram, decoded, view⟩ := extendedDecode_wire wf
    rw [List.take_left]
    -- The options were sorted by number, which keeps the order of those with one number.
    have values (number : OptionNumber) :
        valuesOf number datagram.options = valuesOf number spec.identityOptions := by
      have same : datagram.options = options.items := congrArg ExtendedMessage.options view
      rw [same, OptionsBuilder.pushAll_new pushed, valuesOf, level_sortBy, valuesOf]
    refine ⟨datagram, decoded, congrArg ExtendedMessage.code view, ?_, ?_⟩
    all_goals
      rw [values]
      simp [identityOptions, valuesOf_optionsOf, OptionNumber.ifMatch, OptionNumber.ifNoneMatch,
        OptionNumber.uriPath, OptionNumber.contentFormat, OptionNumber.uriQuery,
        OptionNumber.accept, OptionNumber.block2, OptionNumber.qBlock2, OptionNumber.noResponse,
        OptionNumber.echo, OptionNumber.requestTag]
  · cases made
  · cases made

end Coaptic.Client
