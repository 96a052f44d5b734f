import Coaptic.Lib.Slots
import Coaptic.Oscore.Response
import Coaptic.Storage.Pending

/-!
# Security associations

An App holds a bounded number of security contexts, each bound to one peer. A datagram is routed
to the context that its peer and its OSCORE option select. The route carries a number that is
issued once, so whatever is retained for an association is never taken for another one's.
-/
namespace Coaptic.App

open Codec Oscore Slots Run Option List
open Pending (Endpoint)

/-- Handle of an installed association. -/
structure Association where
  route : Endpoint
  owner : List UInt8
  epoch : Nat
deriving DecidableEq

def Association.endpoint (a : Association) : Endpoint := a.route.physical

inductive OscoreInstallError
  | missingCandidate
  | capacity
  | ambiguous
  | generationExhausted
  | unknownAssociation
  | busy
deriving DecidableEq

variable {requests maxLen : Nat}

/-- The primary context has no association. -/
structure Entry (requests maxLen : Nat) where
  context : SecurityContext requests maxLen
  association : Option Association
  revoked : Bool
deriving DecidableEq

structure Store (requests maxLen : Nat) where
  rows : List (Option (Entry requests maxLen))
  generation : UInt32
deriving DecidableEq

namespace Store

def new (n : Nat) : Store requests maxLen := ⟨List.replicate n none, 0⟩

def isSome (s : Store requests maxLen) : Bool := s.generation != 0 || s.rows.any (·.isSome)

def nextGeneration (generation : UInt32) : Option UInt32 :=
  if generation.toNat + 1 < 2 ^ 32 then some (generation + 1) else none

/-- Whether the row stands in the way of an installation. -/
def conflicts (endpoint : Endpoint) (owner : List UInt8) (epoch : Nat)
    (context : SecurityContext requests maxLen) (row : Entry requests maxLen) : Bool :=
  row.association.any fun a =>
    (a.owner = owner && a.epoch = epoch) ||
      (a.endpoint = endpoint.physical && row.context.recipientId = context.recipientId &&
        row.context.idContext = context.idContext)

section

variable (s : Store requests maxLen)

def checkInstall (endpoint : Endpoint) (owner : List UInt8) (epoch : Nat)
    (context : SecurityContext requests maxLen) : Except OscoreInstallError (Nat × UInt32) :=
  if s.rows.any (·.any (·.association.isNone)) then .error .busy
  else if s.rows.any (·.any (conflicts endpoint owner epoch context)) then .error .ambiguous
  else
  match s.rows.findIdx? (·.isNone) with
  | none => .error .capacity
  | some slot =>
  match nextGeneration s.generation with
  | none => .error .generationExhausted
  | some generation => .ok (slot, generation)

/-- Install the candidate. The caller's candidate is taken if and only if it is installed. -/
def install (endpoint : Endpoint) (owner : List UInt8) (epoch : Nat)
    (candidate : Option (SecurityContext requests maxLen)) :
    Except OscoreInstallError Association × Option (SecurityContext requests maxLen) ×
      Store requests maxLen :=
  match candidate with
  | none => (.error .missingCandidate, candidate, s)
  | some context =>
  match s.checkInstall endpoint owner epoch context with
  | .error e => (.error e, candidate, s)
  | .ok (slot, generation) =>
  let association : Association :=
    { route := { endpoint.physical with association := generation }, owner, epoch }
  let entry : Entry requests maxLen :=
    { context, association := some association, revoked := false }
  (.ok association, none, ⟨s.rows.set slot (some entry), generation⟩)

/-- Revoke the association and drop its context, which a pinned buffer prevents. -/
def removeAssociation (association : Association) (pinned : Bool) :
    Except OscoreInstallError (SecurityContext requests maxLen) × Store requests maxLen :=
  match s.rows.findIdx? (·.any (·.association = some association)) with
  | none => (.error .unknownAssociation, s)
  | some i =>
  match s.rows[i]?.join with
  | none => (.error .unknownAssociation, s)
  | some row =>
  if pinned then
    (.error .busy, { s with rows := s.rows.set i (some { row with revoked := true }) })
  else (.ok row.context, { s with rows := s.rows.set i none })

/-! ### Routes -/

def single : List Endpoint → Except Oscore.Error Endpoint
  | [route] => .ok route
  | _ => .error .context

section

variable (peer : Endpoint)

def routeOf (row : Entry requests maxLen) : Endpoint :=
  (row.association.map (·.route)).getD peer.physical

def resolve : Except Oscore.Error Endpoint :=
  if !s.isSome && s.generation == 0 then .ok peer.physical
  else
  single (s.rows.filterMap (·.bind fun row =>
    let route := routeOf peer row
    if !row.revoked && route.physical = peer.physical &&
        (peer.association = 0 || peer.association = route.association) then some route
    else none))

/-- Whether the row is the one that a datagram was protected for. -/
def selects (parsed : ParsedMessage maxLen) (header : Option OscoreHeader)
    (row : Entry requests maxLen) : Bool :=
  if parsed.header.code.isRequest then
    (header.any fun h => row.context.matchesRecipient h.kid h.kidContext) ||
      (header.isNone && row.association.isNone)
  else (row.context.lookup parsed.token).isSome

def reaches (parsed : ParsedMessage maxLen) (header : Option OscoreHeader)
    (row : Entry requests maxLen) : Option Endpoint :=
  let route := routeOf peer row
  if !row.revoked && route.physical = peer.physical && selects parsed header row then some route
  else none

def select (parsed : ParsedMessage maxLen) (header : Option OscoreHeader) :
    Except Oscore.Error Endpoint :=
  single (s.rows.filterMap (·.bind (reaches peer parsed header)))

def oscoreHeader (parsed : ParsedMessage maxLen) : Except Oscore.Error (Option OscoreHeader) :=
  match parsed.options.filter (isOscore ·.number) with
  | [] => .ok none
  | [opt] => (OscoreHeader.parse opt.value).map some
  | _ => .error .header

def inboundRoute (parsed : ParsedMessage maxLen) : Except Oscore.Error Endpoint :=
  if !s.isSome && s.generation == 0 then .ok peer.physical
  else if s.rows.any (·.any fun row => !row.revoked && row.association.isNone) then
    .ok peer.physical
  else
  match oscoreHeader parsed with
  | .error e => .error e
  | .ok header => s.select peer parsed header

end

def association (s : Store requests maxLen) (peer : Endpoint) : Option Association :=
  (s.rows.filterMap (·.bind fun row =>
    if row.revoked then none else row.association)).find? (·.route = peer)

/-! ### Installation and removal -/

inductive Event (requests maxLen : Nat)
  | install (endpoint : Endpoint) (owner : List UInt8) (epoch : Nat)
      (candidate : Option (SecurityContext requests maxLen))
  | remove (association : Association) (pinned : Bool)

def step : Event requests maxLen → Store requests maxLen
  | .install endpoint owner epoch candidate => (s.install endpoint owner epoch candidate).2.2
  | .remove association pinned => (s.removeAssociation association pinned).2

def issued : Event requests maxLen → Option Association
  | .install endpoint owner epoch candidate => (s.install endpoint owner epoch candidate).1.toOption
  | .remove _ _ => none

end

def issues (s : Store requests maxLen) : List (Event requests maxLen) → List Association
  | [] => []
  | event :: rest => (s.issued event).toList ++ (s.step event).issues rest

end Store

open Store

/-! ### What tells rows apart -/

namespace Entry

section

variable (row : Entry requests maxLen)

def number : Option UInt32 :=
  row.association.map (·.route.association)

def ownership : Option (List UInt8 × Nat) :=
  row.association.map fun a => (a.owner, a.epoch)

def selector : Option Endpoint × Id × List UInt8 :=
  (row.association.map (·.endpoint), row.context.recipientId, row.context.idContext)

end

end Entry

open Entry

namespace Store

variable {s t : Store requests maxLen}

section

variable (s : Store requests maxLen)

def At (i : Nat) (row : Entry requests maxLen) : Prop :=
  s.rows[i]? = some (some row)

/-- Every row has a number that was issued, and no two rows share a number, an owner's epoch or
what a datagram selects them by. -/
structure Sound (s : Store requests maxLen) : Prop where
  owned : ∀ i row, s.At i row → ∃ a, row.association = some a ∧
    0 < a.route.association.toNat ∧ a.route.association.toNat ≤ s.generation.toNat
  numbers : Distinct Entry.number s.rows
  owners : Distinct Entry.ownership s.rows
  selectors : Distinct Entry.selector s.rows

theorem nextGeneration_some {generation next : UInt32} (h : nextGeneration generation = some next) :
    next.toNat = generation.toNat + 1 := by
  simp only [nextGeneration] at h
  split at h
  next below =>
    cases h
    rw [UInt32.toNat_add, UInt32.toNat_one, Nat.mod_eq_of_lt below]
  · cases h

def handleOf (endpoint : Endpoint) (owner : List UInt8) (epoch : Nat) (generation : UInt32) :
    Association :=
  { route := { endpoint.physical with association := generation }, owner, epoch }

/-- An installation is refused without effect, or it puts a row into a free slot. -/
theorem install_cases (endpoint : Endpoint) (owner : List UInt8) (epoch : Nat)
    (candidate : Option (SecurityContext requests maxLen)) :
    (∃ e, s.install endpoint owner epoch candidate = (.error e, candidate, s)) ∨
      ∃ context slot generation,
        (∀ i row, s.At i row → conflicts endpoint owner epoch context row = false) ∧
        s.rows[slot]? = some none ∧ generation.toNat = s.generation.toNat + 1 ∧
        s.install endpoint owner epoch candidate =
          (.ok (handleOf endpoint owner epoch generation), none,
            ⟨s.rows.set slot
              (some ⟨context, some (handleOf endpoint owner epoch generation), false⟩),
              generation⟩) := by
  fun_cases install s endpoint owner epoch candidate with
  | case3 context slot generation checked =>
    revert checked
    fun_cases checkInstall s endpoint owner epoch context with
    | case5 _ clear slot free generation next_ =>
      rintro ⟨⟩
      refine .inr ⟨context, slot, generation, fun i row here => ?_, (findIdx_free free).1,
        nextGeneration_some next_, rfl⟩
      by_contra conflict
      refine clear (any_eq_true.mpr ⟨some row, mem_of_getElem? here, ?_⟩)
      simpa using conflict
    | _ => exact nofun
  | _ => exact .inl ⟨_, rfl⟩

/-- A removal is refused without effect, or it revokes or drops the row of the handle. -/
theorem remove_cases (a : Association) (pinned : Bool) :
    (∃ e, s.removeAssociation a pinned = (.error e, s)) ∨
      ∃ i row, s.At i row ∧ row.association = some a ∧
        s.removeAssociation a pinned =
          if pinned then
            (.error .busy, { s with rows := s.rows.set i (some { row with revoked := true }) })
          else (.ok row.context, { s with rows := s.rows.set i none }) := by
  simp only [removeAssociation]
  split
  · exact .inl ⟨_, rfl⟩
  next i found =>
  obtain ⟨row, here, same, -⟩ := findIdx_any found
  rw [decide_eq_true_eq] at same
  simp only [here, join_some]
  exact .inr ⟨i, row, here, same, rfl⟩

end

variable {i j : Nat} {row : Entry requests maxLen} {peer route : Endpoint}
  {parsed : ParsedMessage maxLen} {a : Association} {number : UInt32}

theorem Sound.install (sound : s.Sound) (endpoint : Endpoint) (owner : List UInt8) (epoch : Nat)
    (candidate : Option (SecurityContext requests maxLen)) :
    (s.install endpoint owner epoch candidate).2.2.Sound := by
  obtain ⟨e, refused⟩ | ⟨context, slot, generation, clear, -, next, installed⟩ :=
    s.install_cases endpoint owner epoch candidate
  · rw [refused]
    exact sound
  rw [installed]
  refine ⟨fun i row here => ?_, sound.numbers.set fun j row there same => ?_,
    sound.owners.set fun j row there same => ?_, sound.selectors.set fun j row there same => ?_⟩
  · obtain ⟨-, ⟨⟩⟩ | ⟨-, old⟩ := of_set here
    · exact ⟨_, rfl, by simp only [handleOf]; omega, le_rfl⟩
    · obtain ⟨a, named, positive, most⟩ := sound.owned i row old
      exact ⟨a, named, positive, by dsimp only; omega⟩
  all_goals
    obtain ⟨a, named, -, most⟩ := sound.owned j row there
    have apart := clear j row there
    simp only [conflicts, named, any_some, Bool.or_eq_false_iff] at apart
  · simp only [number, named, map_some, some.injEq, handleOf] at same
    rw [same] at most
    omega
  · simp only [ownership, named, map_some, some.injEq, Prod.mk.injEq,
      handleOf] at same
    simp [same.1, same.2] at apart
  simp only [selector, named, map_some, Prod.mk.injEq, some.injEq] at same
  obtain ⟨place, recipient, idContext⟩ := same
  have place : a.endpoint = endpoint.physical := place
  simp [place, recipient, idContext] at apart

theorem Sound.remove (sound : s.Sound) (a : Association) (pinned : Bool) :
    (s.removeAssociation a pinned).2.Sound := by
  obtain ⟨e, refused⟩ | ⟨i, row, here, named, removed⟩ := s.remove_cases a pinned
  · rw [refused]
    exact sound
  rw [removed]
  cases pinned with
  | false =>
    refine ⟨fun j row' there => ?_, sound.numbers.clear i, sound.owners.clear i,
      sound.selectors.clear i⟩
    obtain ⟨-, ⟨⟩⟩ | ⟨-, old⟩ := of_set there
    exact sound.owned j row' old
  | true =>
  -- Revocation does not change what tells the row apart.
  refine ⟨fun j row' there => ?_, sound.numbers.set fun j row' there same => ?_,
    sound.owners.set fun j row' there same => ?_,
    sound.selectors.set fun j row' there same => ?_⟩
  · obtain ⟨-, ⟨⟩⟩ | ⟨-, old⟩ := of_set there
    · exact sound.owned i row here
    · exact sound.owned j row' old
  · exact sound.numbers j i row' row there here same
  · exact sound.owners j i row' row there here same
  · exact sound.selectors j i row' row there here same

theorem Sound.step (sound : s.Sound) (event : Event requests maxLen) : (s.step event).Sound := by
  cases event with
  | install endpoint owner epoch candidate => exact sound.install endpoint owner epoch candidate
  | remove a pinned => exact sound.remove a pinned

theorem sound_reached (n : Nat) (events : List (Event requests maxLen)) :
    (run step (new n) events).Sound := by
  refine invariant_run (fun s event sound => sound.step event) ⟨fun i row here => ?_,
    distinct_replicate_none n, distinct_replicate_none n, distinct_replicate_none n⟩ events
  have := mem_of_getElem? here
  simp [new] at this

/-! ### Numbers -/

section

variable (s : Store requests maxLen)

/-- What an event issues is the number after the last one; nothing else changes the number. -/
theorem issued_cases (event : Event requests maxLen) :
    (s.issued event = none ∧ (s.step event).generation = s.generation) ∨
      ∃ a, s.issued event = some a ∧ a.route.association = (s.step event).generation ∧
        (s.step event).generation.toNat = s.generation.toNat + 1 := by
  cases event with
  | install endpoint owner epoch candidate =>
    obtain ⟨e, refused⟩ | ⟨context, slot, generation, -, -, next, installed⟩ :=
      s.install_cases endpoint owner epoch candidate
    · simp only [issued, step, refused]
      exact .inl ⟨rfl, trivial⟩
    · simp only [issued, step, installed]
      exact .inr ⟨_, rfl, rfl, next⟩
  | remove a pinned =>
  refine .inl ⟨rfl, ?_⟩
  obtain ⟨e, refused⟩ | ⟨i, row, -, -, removed⟩ := s.remove_cases a pinned
  · simp only [step, refused]
  · simp only [step, removed]
    split <;> rfl

theorem generation_le_step (event : Event requests maxLen) :
    s.generation.toNat ≤ (s.step event).generation.toNat := by
  obtain ⟨-, same⟩ | ⟨a, -, -, next⟩ := s.issued_cases event
  · rw [same]
  · omega

section

variable (events : List (Event requests maxLen))

theorem generation_le_run : s.generation.toNat ≤ (run step s events).generation.toNat := by
  induction events generalizing s with
  | nil => exact le_rfl
  | cons event rest ih => exact (s.generation_le_step event).trans (ih (s.step event))

theorem generation_lt_of_issues :
    ∀ a ∈ s.issues events, s.generation.toNat < a.route.association.toNat := by
  induction events generalizing s with
  | nil => intro a none; cases none
  | cons event rest ih =>
  intro a issued
  rw [issues, mem_append, mem_toList] at issued
  rcases issued with now | later
  · obtain ⟨none, -⟩ | ⟨b, some, number, next⟩ := s.issued_cases event
    · rw [none] at now
      cases now
    rw [some] at now
    cases now
    rw [number]
    omega
  · exact (s.generation_le_step event).trans_lt (ih (s.step event) a later)

theorem issues_increase :
    (s.issues events).Pairwise (·.route.association < ·.route.association) := by
  induction events generalizing s with
  | nil => exact .nil
  | cons event rest ih =>
  rw [issues, pairwise_append]
  refine ⟨?_, ih (s.step event), fun a now b later => ?_⟩
  · cases s.issued event with
    | none => exact .nil
    | some a => exact pairwise_singleton _ _
  have after := (s.step event).generation_lt_of_issues rest b later
  rw [mem_toList] at now
  obtain ⟨none, -⟩ | ⟨a', some, number, -⟩ := s.issued_cases event
  · rw [none] at now
    cases now
  rw [some] at now
  cases now
  rw [number]
  exact UInt32.lt_iff_toNat_lt.mpr after

end

end

/-- Once a handle was issued, the store is never again taken for an empty one. -/
theorem generation_pos_of_issues {events : List (Event requests maxLen)}
    (some : s.issues events ≠ []) : 0 < (run step s events).generation.toNat := by
  induction events generalizing s with
  | nil => exact absurd rfl some
  | cons event rest ih =>
  rw [run_cons]
  obtain ⟨none, -⟩ | ⟨a, -, -, next⟩ := s.issued_cases event
  · refine ih fun empty => some ?_
    rw [issues, none, empty]
    rfl
  · have := (s.step event).generation_le_run rest
    omega

theorem generation_eq_of_issues_nil {events : List (Event requests maxLen)}
    (none : s.issues events = []) : (run step s events).generation = s.generation := by
  induction events generalizing s with
  | nil => rfl
  | cons event rest ih =>
  rw [issues, append_eq_nil_iff] at none
  obtain ⟨-, same⟩ | ⟨a, issued, -, -⟩ := s.issued_cases event
  · rw [run_cons, ih none.2, same]
  · rw [issued] at none
    cases none.1

/-- Rows are numbered, so a store that has issued no number is empty and not protected. -/
theorem Sound.unprotected (sound : s.Sound) (unused : s.generation = 0) (peer : Endpoint) :
    s.resolve peer = .ok peer.physical ∧
      ∀ parsed, s.inboundRoute peer parsed = .ok peer.physical := by
  have empty : s.isSome = false := by
    simp only [Store.isSome, unused, bne_self_eq_false, Bool.false_or, List.any_eq_false]
    intro row member
    obtain ⟨i, at_⟩ := getElem?_of_mem member
    cases row with
    | none => simp
    | some row =>
    obtain ⟨a, -, positive, most⟩ := sound.owned i row at_
    rw [unused] at most
    exact absurd (positive.trans_le most) (by decide)
  simp [Store.resolve, Store.inboundRoute, empty, unused]

/-! ### Routes lead to rows -/

theorem single_mem {routes : List Endpoint} (h : single routes = .ok route) : route ∈ routes := by
  match routes, h with
  | [_], rfl => exact mem_singleton_self _

theorem not_fresh (used : 0 < s.generation.toNat) : ¬(!s.isSome && s.generation == 0) = true := by
  intro fresh
  simp only [Bool.and_eq_true, beq_iff_eq] at fresh
  rw [fresh.2] at used
  exact absurd used (by decide)

/-- Where a row of the store routes, it has a handle for. -/
theorem Sound.routeOf (sound : s.Sound) (here : s.At i row) (peer : Endpoint) :
    ∃ a, row.association = some a ∧ routeOf peer row = a.route ∧ a.route.association ≠ 0 := by
  obtain ⟨a, named, positive, -⟩ := sound.owned i row here
  refine ⟨a, named, by simp [Store.routeOf, named], fun zero => ?_⟩
  rw [zero] at positive
  exact absurd positive (by decide)

theorem Sound.resolve_ok (sound : s.Sound) (used : 0 < s.generation.toNat)
    (ok : s.resolve peer = .ok route) :
    ∃ i row a, s.At i row ∧ row.association = some a ∧ a.route = route ∧
      route.association ≠ 0 ∧ (peer.association = 0 ∨ peer.association = route.association) := by
  simp only [resolve, if_neg (not_fresh used)] at ok
  obtain ⟨i, row, here, selected⟩ := mem_select.mp (single_mem ok)
  obtain ⟨a, named, leads, numbered⟩ := sound.routeOf here peer
  simp only [leads] at selected
  split at selected
  next holds =>
    cases selected
    simp only [Bool.and_eq_true, Bool.or_eq_true, decide_eq_true_eq] at holds
    exact ⟨i, row, a, here, named, rfl, numbered, holds.2⟩
  · cases selected

/-- The datagram with header `h` from `peer` selects this row. -/
structure Selected (s : Store requests maxLen) (peer : Endpoint) (h : OscoreHeader) (i : Nat)
    (a : Association) : Prop where
  row : ∃ context, s.At i ⟨context, some a, false⟩ ∧ context.recipientId.bytes = h.kid.getD [] ∧
    context.idContext = h.kidContext.getD []
  endpoint : a.endpoint = peer.physical

theorem matchesRecipient_iff {ctx : SecurityContext requests maxLen}
    {kid kidContext : Option (List UInt8)} : ctx.matchesRecipient kid kidContext = true ↔
      ctx.recipientId.bytes = kid.getD [] ∧ ctx.idContext = kidContext.getD [] := by
  simp only [SecurityContext.matchesRecipient]
  split
  next other =>
    constructor
    · intro h
      cases h
    · intro same
      exact absurd same.1.symm other
  next same =>
  have recipient := (not_not.mp same).symm
  cases kidContext with
  | none => simp [recipient]
  | some context =>
    rw [beq_iff_eq, getD_some]
    exact ⟨fun h => ⟨recipient, h.symm⟩, fun h => h.2.symm⟩

section

variable (sound : s.Sound)
include sound

/-- What the scan makes of one row, for a request. -/
theorem Sound.reaches_iff (request : parsed.header.code.isRequest = true) (h : OscoreHeader)
    (here : s.At i row) (route : Endpoint) : reaches peer parsed (some h) row = some route ↔
      ∃ a, s.Selected peer h i a ∧ a.route = route := by
  obtain ⟨a, named, leads, -⟩ := sound.routeOf here peer
  obtain ⟨context, association, revoked⟩ := row
  cases named
  have only {a' : Association} {context' : SecurityContext requests maxLen}
      (there : s.At i ⟨context', some a', false⟩) :
      context' = context ∧ a' = a ∧ revoked = false := by
    have same := here.symm.trans there
    simp only [some.injEq, Entry.mk.injEq] at same
    exact ⟨same.1.symm, same.2.1.symm, same.2.2⟩
  simp only [reaches, leads, selects, request, if_true, any_some, isNone_some, Bool.false_and,
    Bool.or_false, ite_none_right_eq_some, Bool.and_eq_true, Bool.not_eq_true', decide_eq_true_eq,
    matchesRecipient_iff]
  constructor
  · rintro ⟨⟨⟨rfl, place⟩, recipient, idContext⟩, same⟩
    rw [some.injEq] at same
    exact ⟨a, ⟨⟨context, here, recipient, idContext⟩, place⟩, same⟩
  rintro ⟨a', ⟨⟨context', there, recipient, idContext⟩, place⟩, same⟩
  obtain ⟨rfl, rfl, rfl⟩ := only there
  exact ⟨⟨⟨rfl, place⟩, recipient, idContext⟩, congrArg some same⟩

theorem Selected.unique {h : OscoreHeader} {b : Association} (ha : s.Selected peer h i a)
    (hb : s.Selected peer h j b) : i = j := by
  obtain ⟨⟨context, here, recipient, idContext⟩, place⟩ := ha
  obtain ⟨⟨context', there, recipient', idContext'⟩, place'⟩ := hb
  refine sound.selectors i j _ _ here there ?_
  have ids : context.recipientId = context'.recipientId := by
    cases same : context.recipientId
    cases same' : context'.recipientId
    simp_all
  simp only [selector, map_some, place, place', ids, idContext, idContext']

/-- A request reaches the row that it selects: there is at most one, and no other is reached. -/
theorem Sound.select_iff (request : parsed.header.code.isRequest = true) (h : OscoreHeader)
    (route : Endpoint) :
    s.select peer parsed (some h) = .ok route ↔ ∃ i a, s.Selected peer h i a ∧ a.route = route := by
  constructor
  · intro ok
    obtain ⟨i, row, here, selected⟩ := mem_select.mp (single_mem ok)
    exact ⟨i, (sound.reaches_iff request h here route).mp selected⟩
  rintro ⟨i, a, selected, rfl⟩
  obtain ⟨context, here, -⟩ := selected.row
  have hit := (sound.reaches_iff request h here a.route).mpr ⟨a, selected, rfl⟩
  have only := select_single (fun i j row row' r r' at_ at' hit hit' => ?_) here hit
  · rw [select, only]
    rfl
  obtain ⟨a, selected, -⟩ := (sound.reaches_iff request h at_ r).mp hit
  obtain ⟨b, selected', -⟩ := (sound.reaches_iff request h at' r').mp hit'
  exact selected.unique sound selected'

/-- In a store of installed associations, the option of a datagram is what selects its row. -/
theorem Sound.inboundRoute_eq (used : 0 < s.generation.toNat) (peer : Endpoint)
    (parsed : ParsedMessage maxLen) : s.inboundRoute peer parsed =
      match oscoreHeader parsed with
      | .error e => .error e
      | .ok header => s.select peer parsed header := by
  have no_primary : ¬s.rows.any
      (·.any fun row => !row.revoked && row.association.isNone) = true := by
    intro primary
    obtain ⟨slot, member, holds⟩ := any_eq_true.mp primary
    cases slot with
    | none => cases holds
    | some row =>
    obtain ⟨i, here⟩ := mem_iff_getElem?.mp member
    obtain ⟨a, named, -⟩ := sound.owned i row here
    simp [named] at holds
  rw [inboundRoute, if_neg (not_fresh used), if_neg no_primary]

theorem Sound.inboundRoute_ok (used : 0 < s.generation.toNat)
    (ok : s.inboundRoute peer parsed = .ok route) : route.association ≠ 0 := by
  rw [sound.inboundRoute_eq used] at ok
  split at ok
  · cases ok
  next header parsed_ =>
  obtain ⟨i, row, here, selected⟩ := mem_select.mp (single_mem ok)
  obtain ⟨a, named, leads, numbered⟩ := sound.routeOf here peer
  simp only [reaches, leads, ite_none_right_eq_some, some.injEq] at selected
  exact selected.2 ▸ numbered

/-- Without an OSCORE option, or with a second one, a request reaches no row. -/
theorem Sound.inboundRoute_iff (used : 0 < s.generation.toNat)
    (request : parsed.header.code.isRequest = true) (route : Endpoint) :
    s.inboundRoute peer parsed = .ok route ↔
      ∃ h i a, oscoreHeader parsed = .ok (some h) ∧ s.Selected peer h i a ∧ a.route = route := by
  rw [sound.inboundRoute_eq used]
  cases parsed_ : oscoreHeader parsed with
  | error e => simp
  | ok header =>
  cases header with
  | some h =>
    dsimp only
    rw [sound.select_iff request]
    simp
  | none =>
  -- Every row is an association's, and only the primary context takes such a request.
  constructor
  · intro ok
    obtain ⟨i, row, here, selected⟩ := mem_select.mp (single_mem ok)
    obtain ⟨a, named, -⟩ := sound.owned i row here
    simp [reaches, selects, request, named] at selected
  · rintro ⟨h, i, a, present, -⟩
    cases present

end

/-! ### Handles of removed associations -/

/-- The number was issued, and no row has it. -/
structure Retired (number : UInt32) (s : Store requests maxLen) : Prop where
  issued : number.toNat ≤ s.generation.toNat
  gone : ∀ i row a, s.At i row → row.association = some a → a.route.association ≠ number

theorem Retired.step (retired : Retired number s) (event : Event requests maxLen) :
    Retired number (s.step event) := by
  refine ⟨retired.issued.trans (s.generation_le_step event), fun j row' b there named => ?_⟩
  cases event with
  | install endpoint owner epoch candidate =>
    obtain ⟨e, refused⟩ | ⟨context, slot, generation, -, -, next, installed⟩ :=
      s.install_cases endpoint owner epoch candidate
    · rw [Store.step, refused] at there
      exact retired.gone j row' b there named
    rw [Store.step, installed] at there
    obtain ⟨-, ⟨⟩⟩ | ⟨-, old⟩ := of_set there
    · cases named
      -- A new number is higher than all before it.
      rintro rfl
      have := retired.issued
      simp only [handleOf] at this
      omega
    · exact retired.gone j row' b old named
  | remove a pinned =>
  obtain ⟨e, refused⟩ | ⟨i, row, here, -, removed⟩ := s.remove_cases a pinned
  · rw [Store.step, refused] at there
    exact retired.gone j row' b there named
  rw [Store.step, removed] at there
  cases pinned with
  | false =>
    obtain ⟨-, ⟨⟩⟩ | ⟨-, old⟩ := of_set there
    exact retired.gone j row' b old named
  | true =>
  obtain ⟨-, ⟨⟩⟩ | ⟨-, old⟩ := of_set there
  · exact retired.gone i row b here named
  · exact retired.gone j row' b old named

theorem Sound.retired_of_remove (sound : s.Sound) {pinned : Bool}
    {context : SecurityContext requests maxLen}
    (removed : (s.removeAssociation a pinned).1 = .ok context) :
    a.route.association ≠ 0 ∧ Retired a.route.association (s.removeAssociation a pinned).2 := by
  obtain ⟨e, refused⟩ | ⟨i, row, here, named, dropped⟩ := s.remove_cases a pinned
  · rw [refused] at removed
    cases removed
  cases pinned with
  | true =>
    rw [dropped] at removed
    cases removed
  | false =>
  obtain ⟨a', named', positive, most⟩ := sound.owned i row here
  cases named.symm.trans named'
  rw [dropped]
  refine ⟨fun zero => ?_, most, fun j row' b there named' same => ?_⟩
  · rw [zero] at positive
    exact absurd positive (by decide)
  obtain ⟨-, ⟨⟩⟩ | ⟨other, old⟩ := of_set there
  -- The number is that of the dropped row, whose slot is free.
  exact other (sound.numbers i j row row' here old (by simp [number, named, named', same]))

theorem Retired.resolve (retired : Retired number s) (sound : s.Sound) (used : number ≠ 0)
    (named : peer.association = number) (route : Endpoint) : s.resolve peer ≠ .ok route := by
  intro ok
  have positive : 0 < s.generation.toNat := by
    have := retired.issued
    have : number.toNat ≠ 0 := fun zero => used (UInt32.toNat_inj.mp zero)
    omega
  obtain ⟨i, row, a, here, association, rfl, -, same⟩ := sound.resolve_ok positive ok
  rcases same with zero | same
  · exact used (named ▸ zero)
  · exact retired.gone i row a here association (same ▸ named)

theorem Retired.association (retired : Retired number s) (named : peer.association = number) :
    s.association peer = none := by
  rw [Store.association, find?_eq_none]
  intro a member
  obtain ⟨i, row, here, found⟩ := mem_select.mp member
  split at found
  · cases found
  have := retired.gone i row a here found
  intro same
  rw [decide_eq_true_eq] at same
  exact this (same ▸ named)

/-- Installations and removals keep the store sound. Numbers are issued once. Present rows differ
in owner or epoch, and in what selects them. Until something is installed, every route is the
peer's own; from then on every route is an association's, and that of a request is the route of the
one row it selects. A refusal has no effect, and the handle of a removed association leads
nowhere. -/
theorem store_sound (n : Nat) (events : List (Event requests maxLen)) :
    let s : Store requests maxLen := run step (new n) events
    ((new n).issues events).Pairwise (·.route.association < ·.route.association) ∧
      (∀ i j row row' a b, s.At i row → s.At j row' → row.association = some a →
        row'.association = some b → i ≠ j →
          (a.owner, a.epoch) ≠ (b.owner, b.epoch) ∧
          (a.endpoint, row.context.recipientId, row.context.idContext) ≠
            (b.endpoint, row'.context.recipientId, row'.context.idContext)) ∧
      ((new n).issues events = [] → ∀ peer, s.resolve peer = .ok peer.physical ∧
        ∀ parsed, s.inboundRoute peer parsed = .ok peer.physical) ∧
      ((new n).issues events ≠ [] → ∀ peer route,
        (s.resolve peer = .ok route → route.association ≠ 0) ∧
        ∀ parsed, (s.inboundRoute peer parsed = .ok route → route.association ≠ 0) ∧
          (parsed.header.code.isRequest = true →
            (s.inboundRoute peer parsed = .ok route ↔
              ∃ h i a, oscoreHeader parsed = .ok (some h) ∧ s.Selected peer h i a ∧
                a.route = route ∧ ∀ j b, s.Selected peer h j b → j = i))) ∧
      (∀ endpoint owner epoch candidate e,
        (s.install endpoint owner epoch candidate).1 = .error e →
          (s.install endpoint owner epoch candidate).2 = (candidate, s)) ∧
      ∀ a pinned context, (s.removeAssociation a pinned).1 = .ok context →
        ∀ later, let t := run step (s.removeAssociation a pinned).2 later
          (∀ i row, t.At i row → row.association ≠ some a) ∧
          (∀ route, t.resolve a.route ≠ .ok route) ∧ t.association a.route = none := by
  intro s
  have sound : s.Sound := sound_reached n events
  refine ⟨issues_increase (new n) events, ?_, ?_, ?_, ?_, ?_⟩
  · intro i j row row' a b here there named named' apart
    refine ⟨fun same => apart (sound.owners i j row row' here there ?_),
      fun same => apart (sound.selectors i j row row' here there ?_)⟩
    · simp only [Entry.ownership, named, named', Option.map_some, same]
    · simp only [Prod.mk.injEq] at same
      simp only [Entry.selector, named, named', Option.map_some, same]
  · intro none
    exact sound.unprotected (generation_eq_of_issues_nil none)
  · intro installed peer route
    have used := generation_pos_of_issues installed
    refine ⟨fun ok => ?_, fun parsed => ⟨sound.inboundRoute_ok used, fun request => ?_⟩⟩
    · obtain ⟨-, -, -, -, -, -, numbered, -⟩ := sound.resolve_ok used ok
      exact numbered
    rw [sound.inboundRoute_iff used request]
    constructor
    · rintro ⟨h, i, a, present, selected, leads⟩
      exact ⟨h, i, a, present, selected, leads, fun j b other => other.unique sound selected⟩
    · rintro ⟨h, i, a, present, selected, leads, -⟩
      exact ⟨h, i, a, present, selected, leads⟩
  · intro endpoint owner epoch candidate e refused
    obtain ⟨e', unchanged⟩ | ⟨context, slot, generation, -, -, -, installed⟩ :=
      s.install_cases endpoint owner epoch candidate
    · rw [unchanged]
    · rw [installed] at refused
      cases refused
  · intro a pinned context removed later t
    obtain ⟨used, retired⟩ := sound.retired_of_remove removed
    have still := invariant_run (fun s event retired => retired.step event) retired later
    have sound' : t.Sound := invariant_run (fun s event sound => sound.step event)
      (sound.remove a pinned) later
    exact ⟨fun i row here named => still.gone i row a here named rfl,
      still.resolve sound' used rfl, still.association rfl⟩

def samplePeer : Endpoint := ⟨[192, 0, 2, 1], 0, 0, 5683, false⟩

def sampleContext : SecurityContext 1 8 where
  senderId := ⟨[1], by decide⟩
  recipientId := ⟨[2], by decide⟩
  idContext := []
  senderKey := []
  recipientKey := []
  commonIv := List.replicate 13 0
  length_commonIv := rfl
  senderSeq := 0
  senderReservedEnd := 0
  replayLeft := 0
  replayBits := 0
  live := [none]
  length_live := rfl

def sampleRequest : ParsedMessage 8 where
  header := ⟨1, .confirmable, 0, .post, 7⟩
  token := .empty
  optionBytes := [0x92, 0x08, 0x02]
  payload := [0]

theorem store_sound_sample : let route : Endpoint := ⟨[192, 0, 2, 1], 0, 1, 5683, false⟩
    let events : List (Event 1 8) := [.install samplePeer [] 0 (some sampleContext)]
    (run step (new 1) events).inboundRoute samplePeer sampleRequest = .ok route ∧
      route.association ≠ 0 := by
  intro route events
  have ok : (run step (new 1) events).inboundRoute samplePeer sampleRequest = .ok route := by decide
  exact ⟨ok, (((store_sound 1 events).2.2.2.1 (by decide) samplePeer route).2 sampleRequest).1 ok⟩

/-- Before anything is installed the App is not protected: a request with an OSCORE option is routed
to its peer although there is no row for it. -/
theorem fresh_store_routes :
    (new 1 : Store 1 8).inboundRoute samplePeer sampleRequest = .ok samplePeer ∧
      ∀ i row, ¬(new 1 : Store 1 8).At i row := by
  refine ⟨by decide, fun i row here => ?_⟩
  have := List.mem_of_getElem? here
  simp [new] at this

end Store

end Coaptic.App
