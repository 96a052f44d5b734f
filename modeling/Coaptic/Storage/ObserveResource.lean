import Coaptic.Message.Problem
import Coaptic.Storage.Observe

/-!
# The resource of an observation

A registration records which resource it is for as a hash of the path, and a change of the
resource is signalled by that hash. The path is collected in an array of eight places before it is
hashed.
-/
namespace Coaptic.Observe

open Codec Block Pending BigEndian Problem List

def fnvByte (hash : Nat) (byte : UInt8) : Nat :=
  (hash ^^^ byte.toNat) * 0x0100000001b3 % 2 ^ 64

/-- Each segment is hashed behind its length. -/
def fromPath (segments : List (List UInt8)) : Nat :=
  segments.foldl (fun hash segment => (toBe 8 segment.length ++ segment).foldl fnvByte hash)
    0xcbf29ce484222325

variable {maxLen : Nat} {ρ : Type}

def isObserveRegister (parsed : ParsedMessage maxLen) : Bool :=
  (parsed.header.code == .get || parsed.header.code == .fetch) &&
    (parsed.getOption .observe).bind (decodeObserve ·.value) == some 0

def uriPath (parsed : ParsedMessage maxLen) : List (List UInt8) :=
  (parsed.options.filter (·.number == .uriPath)).map (·.value)

/-- The segments that find a place; `none` at one that is no text. -/
def collect : (places : Nat) → List (List UInt8) → Option (List (List UInt8))
  | _, [] => some []
  | places, segment :: rest =>
    if !fromUtf8 segment then none
    else
      match places with
      -- a segment without a place ends the loop
      | 0 => some []
      | places + 1 => (collect places rest).map (segment :: ·)

def observeResourceFromMessage (parsed : ParsedMessage maxLen) : Nat :=
  match collect 8 (uriPath parsed) with
  | none => 0
  | some segments => fromPath segments

namespace ObserveTable

section

variable (table : ObserveTable maxLen ρ)

def registerObserve (parsed : ParsedMessage maxLen) (endpoint : Endpoint) (binding : ρ) :
    Option Nat × ObserveTable maxLen ρ :=
  if !isObserveRegister parsed then (none, table)
  else
    table.insert
      { ObserveInterest.new parsed.token endpoint binding with
        resource := observeResourceFromMessage parsed }

def signalRow (resource : Nat) (signalled : Nat × ObserveTable maxLen ρ) (id : Nat) :
    Nat × ObserveTable maxLen ρ :=
  match signalled.2.entry id with
  | none => signalled
  | some row =>
    if row.key.client ∨ row.resource ≠ resource then signalled
    else
      match signalled.2.setEntry id row.markDue with
      | .error _ => signalled
      | .ok table => (signalled.1 + 1, table)

/-- Mark the rows of the resource, and count them. -/
def signalObserveResource (resource : Nat) : Nat × ObserveTable maxLen ρ :=
  if resource = 0 then (0, table)
  else (List.range table.entries.length).foldl (signalRow resource) (0, table)

section

variable (path : List (List UInt8)) (id : Nat)

/-- With the path signalled, a notification of the row at `id` is due. -/
def Marks : Prop :=
  (((table.signalObserveResource (fromPath path)).2.entry id).any (·.pending)) = true

/-- Signalling the path leaves the row at `id` as it is. -/
def Spares : Prop :=
  (table.signalObserveResource (fromPath path)).2.entry id = table.entry id

end

end

variable {table : ObserveTable maxLen ρ} {id : Nat} {row : ObserveInterest maxLen ρ}

theorem collect_eq {segments : List (List UInt8)} (text : ∀ s ∈ segments, fromUtf8 s = true)
    (places : Nat) : collect places segments = some (segments.take places) := by
  induction segments generalizing places with
  | nil => rw [collect, take_nil]
  | cons segment rest ih =>
  rw [forall_mem_cons] at text
  cases places with
  | zero => simp [collect, text.1]
  | succ places => simp [collect, text.1, ih text.2]

/-- What the signal makes of a row. -/
def signalled (resource : Nat) (row : ObserveInterest maxLen ρ) : ObserveInterest maxLen ρ :=
  if row.key.client ∨ row.resource ≠ resource then row else row.markDue

theorem entry_signalRow (resource i : Nat) (pair : Nat × ObserveTable maxLen ρ) (j : Nat) :
    (signalRow resource pair i).2.entry j =
      if j = i then (pair.2.entry j).map (signalled resource) else pair.2.entry j := by
  fun_cases signalRow resource pair i with
  | case1 none_ => grind
  | case2 row held other => grind [signalled]
  | case3 row held ours e refused => cases (setEntry_of_entry held _).symm.trans refused
  | case4 row held ours table written =>
    cases (setEntry_of_entry held _).symm.trans written
    rw [entry_write (isOccupied_of_entry held)]
    split
    next here => rw [here, held, Option.map_some, signalled, if_neg ours]
    · rfl

theorem entry_foldl_signalRow (resource j : Nat) (ids : List Nat)
    (pair : Nat × ObserveTable maxLen ρ) : (ids.foldl (signalRow resource) pair).2.entry j =
      if j ∈ ids then (pair.2.entry j).map (signalled resource) else pair.2.entry j := by
  have twice : signalled resource ∘ signalled resource =
      (signalled resource : ObserveInterest maxLen ρ → _) := by
    funext row
    simp only [Function.comp, signalled, ObserveInterest.markDue]
    grind
  induction ids generalizing pair with
  | nil => simp
  | cons i rest ih =>
  rw [foldl_cons, ih, entry_signalRow]
  by_cases here : j = i
  · simp [here, twice]
  · simp [here]

theorem entry_signalObserveResource (resource : Nat) :
    (table.signalObserveResource resource).2.entry id = (table.entry id).map
      (if resource = 0 then (·) else signalled resource) := by
  rw [signalObserveResource]
  split
  · simp
  next used =>
  rw [entry_foldl_signalRow]
  split
  · rfl
  next outside =>
    simp [entry, getElem?_eq_none (Nat.not_lt.mp (mt mem_range.mpr outside))]

section

variable (held : table.entry id = some row) {path : List (List UInt8)}
include held

theorem marks_of_resource (serves : row.key.client = false) (used : fromPath path ≠ 0)
    (ours : row.resource = fromPath path) : table.Marks path id := by
  rw [Marks, entry_signalObserveResource, held, if_neg used]
  simp [signalled, ObserveInterest.markDue, serves, ours]

theorem spares_of_resource (other : row.resource ≠ fromPath path) : table.Spares path id := by
  rw [Spares, entry_signalObserveResource, held]
  split
  · rfl
  · simp [signalled, other]

theorem Spares.not_marks (spares : table.Spares path id) (quiet : row.pending = false) :
    ¬ table.Marks path id := by
  rw [Marks, spares, held]
  simp [quiet]

end

/-- A new row is the one that was given. -/
theorem entry_insert (h : (table.insert row).1 = some id) (absent : table.lookup row.key = none) :
    (table.insert row).2.entry id = some row := by
  revert h
  fun_cases insert table row with
  | case1 other found => rw [absent] at found; cases found
  | case2 => exact nofun
  | case3 _ id' occ acquired sized =>
    rintro ⟨⟩
    obtain ⟨inside, -, shape⟩ := Occupancy.acquire_some acquired
    rw [entry_write, if_pos rfl]
    rw [Occupancy.isOccupied, shape, getElem?_set_self inside]
    rfl

/-- The row of a key that is present stays. -/
theorem insert_of_lookup (found : table.lookup row.key = some id) :
    table.insert row = (some id, table) := by
  fun_cases insert table row with
  | case1 other found' => rw [Option.some.inj (found.symm.trans found')]
  | case2 absent => cases found.symm.trans absent
  | case3 absent => cases found.symm.trans absent

/-- The row that an accepted registration leads to: that of its key, or else a new one. -/
theorem entry_registerObserve {parsed : ParsedMessage maxLen} {endpoint : Endpoint} {binding : ρ}
    (accepted : (table.registerObserve parsed endpoint binding).1 = some id) :
    ∃ row, (table.registerObserve parsed endpoint binding).2.entry id = some row ∧
      row.key = ⟨parsed.token, endpoint, false⟩ ∧
      (table.lookup ⟨parsed.token, endpoint, false⟩ = none ∧ row.pending = false ∧
          row.resource = observeResourceFromMessage parsed ∨
        table.lookup ⟨parsed.token, endpoint, false⟩ = some id ∧ table.entry id = some row) := by
  rw [registerObserve] at accepted ⊢
  split at accepted
  · cases accepted
  next register =>
  rw [if_neg register]
  cases found : table.lookup ⟨parsed.token, endpoint, false⟩ with
  | none => exact ⟨_, entry_insert accepted found, rfl, .inl ⟨rfl, rfl, rfl⟩⟩
  | some old =>
    rw [insert_of_lookup found] at accepted ⊢
    cases accepted
    have test := find?_some found
    obtain ⟨row, held, isKey⟩ := (Option.any_eq_true _ _).mp test
    exact ⟨row, held, by simpa using isKey, .inr ⟨rfl, held⟩⟩

/-- The row of an accepted registration is named by its whole path exactly when it is new and the
path has at most eight segments, or when it was there and so named already, provided that the hash of
the path is not that of a shorter one. -/
theorem register_names_path_iff {parsed : ParsedMessage maxLen} {endpoint : Endpoint} {binding : ρ}
    (accepted : (table.registerObserve parsed endpoint binding).1 = some id)
    (text : ∀ segment ∈ uriPath parsed, fromUtf8 segment = true)
    (used : fromPath (uriPath parsed) ≠ 0)
    (apart : ∀ n < (uriPath parsed).length,
      fromPath ((uriPath parsed).take n) ≠ fromPath (uriPath parsed)) :
    let table' := (table.registerObserve parsed endpoint binding).2
    let before := table.lookup ⟨parsed.token, endpoint, false⟩
    ∃ row, table'.entry id = some row ∧ row.key = ⟨parsed.token, endpoint, false⟩ ∧
      (before = none → row.pending = false) ∧
      ((row.resource = fromPath (uriPath parsed) ∧ table'.Marks (uriPath parsed) id ∧
          ∀ n < (uriPath parsed).length, table'.Spares ((uriPath parsed).take n) id ∧
            (row.pending = false → ¬ table'.Marks ((uriPath parsed).take n) id)) ↔
        before = none ∧ (uriPath parsed).length ≤ 8 ∨
          ∃ old ∈ before.bind table.entry, old.resource = fromPath (uriPath parsed)) := by
  intro table' before
  obtain ⟨row, held, isKey, origin⟩ := entry_registerObserve accepted
  have named : observeResourceFromMessage parsed = fromPath ((uriPath parsed).take 8) := by
    rw [observeResourceFromMessage, collect_eq text]
  have whole (ours : row.resource = fromPath (uriPath parsed)) : table'.Marks (uriPath parsed) id ∧
      ∀ n < (uriPath parsed).length, table'.Spares ((uriPath parsed).take n) id ∧
        (row.pending = false → ¬ table'.Marks ((uriPath parsed).take n) id) := by
    refine ⟨marks_of_resource held (by rw [isKey]) used ours, fun n fewer => ?_⟩
    have spares := spares_of_resource held fun same => apart n fewer (same.symm.trans ours)
    exact ⟨spares, spares.not_marks held⟩
  refine ⟨row, held, isKey, ?_⟩
  rcases origin with ⟨fresh, quiet, resource⟩ | ⟨found, same⟩
  · refine ⟨fun _ => quiet, ?_, ?_⟩
    · rintro ⟨ours, -, -⟩
      refine .inl ⟨fresh, ?_⟩
      by_contra long
      exact apart 8 (Nat.not_le.mp long) (named.symm.trans (resource.symm.trans ours))
    · rintro (⟨-, short⟩ | ⟨old, stored, -⟩)
      · rw [List.take_of_length_le short] at named
        exact ⟨resource.trans named, whole (resource.trans named)⟩
      · simp [before, fresh] at stored
  · refine ⟨fun fresh => ?_, ?_, ?_⟩
    · cases found.symm.trans fresh
    · rintro ⟨ours, -, -⟩
      exact .inr ⟨row, by simp [before, found, same], ours⟩
    · rintro (⟨fresh, -⟩ | ⟨old, stored, ours⟩)
      · cases found.symm.trans fresh
      · obtain rfl : row = old := by simpa [before, found, same] using stored
        exact ⟨ours, whole ours⟩

/-- A registration for the path `a/a/…` of `n` segments. -/
def samplePath (n : Nat) : ParsedMessage 8 where
  header := ⟨1, .confirmable, 0, .get, 1⟩
  token := .empty
  optionBytes := [0x60, 0x51, 0x61] ++ (List.replicate (n - 1) [0x01, 0x61]).flatten
  payload := []

def samplePeer : Endpoint := ⟨[192, 0, 2, 1], 0, 0, 5683, false⟩

theorem register_names_path_two :
    ∃ row, ((new 1).registerObserve (samplePath 2) samplePeer ()).2.entry 0 = some row ∧
      row.resource = fromPath (uriPath (samplePath 2)) := by
  have accepted : ((new 1).registerObserve (samplePath 2) samplePeer ()).1 = some 0 := by
    decide +kernel
  obtain ⟨row, held, -, -, iff⟩ := register_names_path_iff accepted (by decide +kernel)
    (by decide +kernel) (by decide +kernel)
  exact ⟨row, held, (iff.mpr (.inl (by decide +kernel))).1⟩

/-- Of nine segments the last is lost: the row answers to the first eight. -/
theorem ninth_segment_lost :
    let table := ((new 1).registerObserve (samplePath 9) samplePeer ()).2
    (uriPath (samplePath 9)).length = 9 ∧
      (table.entry 0).map (·.resource) = some (fromPath ((uriPath (samplePath 9)).take 8)) ∧
      ¬ table.Marks (uriPath (samplePath 9)) 0 ∧ table.Marks ((uriPath (samplePath 9)).take 8) 0 := by
  unfold Marks
  decide +kernel

end ObserveTable

end Coaptic.Observe
