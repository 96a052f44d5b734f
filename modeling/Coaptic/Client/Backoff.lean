import Coaptic.Client.Identity

/-!
# Overload delays

A peer's delay stands in the row of the Call that was answered, and in a retired row of the same
target once the Call is collected. Rows are collected, merged, forgotten and replaced; each of
these keeps the longest delay of a target as long as it runs.
-/
namespace Coaptic.Client

open Codec Block Pending Slots List

variable {maxLen : Nat}

/-- What a delay applies to. -/
structure Target where
  peer : Endpoint
  code : Code
  path : List (List UInt8)
  queries : List (List UInt8)
deriving DecidableEq

namespace LiveCall

def target (row : LiveCall maxLen) : Target := ⟨row.call.peer, row.code, row.path, row.queries⟩

variable {other row : LiveCall maxLen}

theorem sameTarget_iff {target : Target} :
    row.sameTarget target.peer target.code target.path target.queries = true ↔
      row.target = target := by
  obtain ⟨peer, code, path, queries⟩ := target
  simp [sameTarget, LiveCall.target]

def fixed (row : LiveCall maxLen) : LiveCall maxLen :=
  { row with observed := none, observedFormat := none, dueMs := 0, deadlineMs := none, qPaceMs := 0 }

/-- A retired row observes nothing, and the identity of a row is that of its request. -/
structure Sound (row : LiveCall maxLen) : Prop where
  idle : row.retired = true → row.observe = .off
  identified : ∀ identity, row.requestIdentity = some identity →
    Identifies identity row.code row.path row.queries

theorem Sound.of_fixed (same : row.fixed = other.fixed) (sound : row.Sound) : other.Sound := by
  simp only [fixed, LiveCall.mk.injEq] at same
  obtain ⟨-, queries, path, -, code, -, -, observe, -, -, identity, -, -, -, -, retired⟩ := same
  exact ⟨by rw [← retired, ← observe]; exact sound.idle,
    by rw [← identity, ← code, ← path, ← queries]; exact sound.identified⟩

theorem target_of_fixed (same : row.fixed = other.fixed) : row.target = other.target := by
  simp only [fixed, LiveCall.mk.injEq] at same
  simp only [target, same]

theorem backoff_of_fixed (same : row.fixed = other.fixed) :
    row.backoffUntilMs = other.backoffUntilMs := by
  simp only [fixed, LiveCall.mk.injEq] at same
  simp only [same]

theorem Sound.delay (sound : row.Sound) (untilMs : Nat) : (row.delay untilMs).Sound :=
  ⟨sound.idle, sound.identified⟩

theorem Sound.retire (sound : row.Sound) : row.retire.Sound :=
  ⟨fun _ => rfl, sound.identified⟩

end LiveCall

open LiveCall

namespace ClientLives

variable {rows after : ClientLives maxLen} {call : Call maxLen} {target : Target}
  {nowMs untilMs : Nat}

def Delays (rows : ClientLives maxLen) (target : Target) (untilMs : Nat) : Prop :=
  ∃ row, some row ∈ rows ∧ row.target = target ∧ untilMs ≤ row.backoffUntilMs

/-- Rows of which at most one is a Call's live row, and which say the truth about their requests. -/
structure Lawful (rows : ClientLives maxLen) : Prop where
  single : rows.Single
  sound : ∀ row, some row ∈ rows → row.Sound

/-- The rows stay lawful, and no delay that is still running at `nowMs` gets shorter. -/
structure Cools (nowMs : Nat) (rows after : ClientLives maxLen) : Prop where
  length : after.length = rows.length
  lawful : rows.Lawful → after.Lawful
  delays : ∀ target untilMs, nowMs < untilMs → rows.Delays target untilMs →
    after.Delays target untilMs

theorem Cools.refl (nowMs : Nat) (rows : ClientLives maxLen) : Cools nowMs rows rows :=
  ⟨rfl, id, fun _ _ _ h => h⟩

variable {last : ClientLives maxLen} {live row : LiveCall maxLen} {i j : Nat}
  {f : LiveCall maxLen → LiveCall maxLen}

theorem Cools.trans (first : Cools nowMs rows after) (second : Cools nowMs after last) :
    Cools nowMs rows last where
  length := second.length.trans first.length
  lawful := second.lawful ∘ first.lawful
  delays target untilMs running := second.delays target untilMs running ∘
    first.delays target untilMs running

/-! ### Rows whose timers change -/

def Steady (rows after : ClientLives maxLen) : Prop :=
  after.map (Option.map LiveCall.fixed) = rows.map (Option.map LiveCall.fixed)

theorem Steady.mem (steady : Steady rows after) (member : some row ∈ after) :
    ∃ old, some old ∈ rows ∧ old.fixed = row.fixed := by
  have inMap : some row.fixed ∈ after.map (Option.map fixed) :=
    mem_map.mpr ⟨some row, member, rfl⟩
  rw [steady] at inMap
  obtain ⟨slot, inRows, isRow⟩ := mem_map.mp inMap
  obtain ⟨old, rfl, same⟩ := Option.map_eq_some_iff.mp isRow
  exact ⟨old, inRows, same⟩

theorem Steady.refl (rows : ClientLives maxLen) : Steady rows rows := rfl

theorem Steady.symm (steady : Steady rows after) : Steady after rows := Eq.symm steady

theorem Steady.trans (first : Steady rows after) (second : Steady after last) :
    Steady rows last := Eq.trans second first

theorem Steady.length (steady : Steady rows after) : after.length = rows.length := by
  have := congrArg List.length steady
  rwa [List.length_map, List.length_map] at this

theorem sketch_fixed (slot : Option (LiveCall maxLen)) :
    sketch (slot.map LiveCall.fixed) = sketch slot := by
  cases slot <;> rfl

section

variable (steady : Steady rows after)
include steady

theorem Steady.outline : after.outline = rows.outline := by
  have through (rows : ClientLives maxLen) :
      rows.outline = (rows.map (Option.map fixed)).map sketch := by
    simp [ClientLives.outline, sketch_fixed]
  rw [through, steady, ← through]

theorem Steady.taken : after.map Option.isSome = rows.map Option.isSome := by
  have through (rows : ClientLives maxLen) :
      rows.map Option.isSome = (rows.map (Option.map fixed)).map Option.isSome := by
    simp
  rw [through, steady, ← through]

theorem Steady.calls : after.calls = rows.calls := by
  have within {rows after : ClientLives maxLen} (steady : Steady rows after) :
      after.calls ⊆ rows.calls := by
    intro call held
    obtain ⟨row, member, rfl⟩ := mem_calls.mp held
    obtain ⟨old, inRows, same⟩ := steady.mem member
    have isCall := congrArg call same
    exact mem_calls.mpr ⟨old, inRows, isCall⟩
  exact Finset.Subset.antisymm (within steady) (within steady.symm)

theorem Steady.canAdmit : after.canAdmit call = rows.canAdmit call := by
  rw [Bool.eq_iff_iff, canAdmit_iff, canAdmit_iff, tag, tag, steady.outline, none_mem_iff,
    none_mem_iff, steady.taken]

theorem Steady.lawful (lawful : rows.Lawful) : after.Lawful := by
  refine ⟨?_, fun row member => ?_⟩
  · rw [Single, steady.outline]
    exact lawful.single
  · obtain ⟨old, inRows, same⟩ := steady.mem member
    exact (lawful.sound old inRows).of_fixed same

theorem Steady.delays (delays : rows.Delays target untilMs) : after.Delays target untilMs := by
  obtain ⟨row, member, rfl, atLeast⟩ := delays
  obtain ⟨new, inAfter, same⟩ := steady.symm.mem member
  refine ⟨new, inAfter, target_of_fixed same, ?_⟩
  rw [backoff_of_fixed same]
  exact atLeast

theorem Steady.cools : Cools nowMs rows after :=
  ⟨steady.length, steady.lawful, fun _ _ _ => steady.delays⟩

theorem Steady.getElem (held : rows[i]? = some (some row)) :
    ∃ row', after[i]? = some (some row') ∧ row'.fixed = row.fixed := by
  have same := congrArg (·[i]?) steady
  simp only [getElem?_map, held, Option.map_some] at same
  obtain ⟨slot, held', isRow⟩ := Option.map_eq_some_iff.mp same
  obtain ⟨row', rfl, isFixed⟩ := Option.map_eq_some_iff.mp isRow
  exact ⟨row', held', isFixed⟩

end

theorem Steady.modify (i : Nat) (same : ∀ row, (f row).fixed = row.fixed) :
    Steady rows (rows.modify i (Option.map f)) := by
  apply ext_getElem?
  intro j
  simp only [getElem?_map, getElem?_modify]
  cases rows[j]? with
  | none => simp
  | some slot =>
  cases slot with
  | none => simp
  | some row => by_cases here : i = j <;> simp [here, same]

theorem Steady.update (test : LiveCall maxLen → Bool) (same : ∀ row, (f row).fixed = row.fixed) :
    Steady rows (rows.update test f) := by
  simp only [ClientLives.update]
  split
  · exact .refl rows
  · exact .modify _ same

theorem Steady.map (same : ∀ row, (f row).fixed = row.fixed) :
    Steady rows (rows.map (Option.map f)) := by
  simp only [Steady, map_map]
  congr 1
  funext slot
  cases slot with
  | none => rfl
  | some row => simp [same]

theorem Steady.recordObservation (rows : ClientLives maxLen) (call : Call maxLen)
    (parsed : ParsedMessage maxLen) (nowMs : Nat) :
    Steady rows (rows.recordObservation call parsed nowMs) := by
  simp only [ClientLives.recordObservation]
  split
  · exact .refl rows
  · exact .update _ fun _ => rfl

/-! ### Delays that end, and delays that get longer -/

theorem Cools.expireBackoffs (rows : ClientLives maxLen) (nowMs : Nat) :
    Cools nowMs rows (rows.expireBackoffs nowMs) where
  length := by simp [ClientLives.expireBackoffs]
  lawful lawful := by
    refine ⟨?_, fun row member => ?_⟩
    · rw [Single, outline_expireBackoffs]
      exact lawful.single
    simp only [ClientLives.expireBackoffs, mem_map, Option.bind_eq_some_iff] at member
    obtain ⟨_, member, old, rfl, kept⟩ := member
    have sound := lawful.sound old member
    split at kept
    · cases kept; exact sound
    split at kept
    · cases kept
    · cases kept; exact ⟨sound.idle, sound.identified⟩
  delays target untilMs running := by
    rintro ⟨row, member, rfl, atLeast⟩
    refine ⟨row, mem_map.mpr ⟨some row, member, ?_⟩, rfl, atLeast⟩
    rw [Option.bind_some, if_pos (by omega)]

/-- A change of one row that keeps its request and does not shorten its delay. -/
structure Longer (f : LiveCall maxLen → LiveCall maxLen) : Prop where
  sketch : ∀ row, sketch (some (f row)) = sketch (some row)
  sound : ∀ row, row.Sound → (f row).Sound
  target : ∀ row, (f row).target = row.target
  delay : ∀ row, row.backoffUntilMs ≤ (f row).backoffUntilMs

theorem Longer.ofDelay (untilMs : Nat) : Longer fun row : LiveCall maxLen => row.delay untilMs where
  sketch _ := rfl
  sound _ sound := sound.delay untilMs
  target _ := rfl
  delay _ := Nat.le_max_left _ _

theorem getElem_modify (held : rows[j]? = some (some row)) :
    (rows.modify i (Option.map f))[j]? = some (some (if i = j then f row else row)) := by
  rw [getElem?_modify, held]
  split <;> rfl

theorem Longer.cools (longer : Longer f) (i : Nat) :
    Cools nowMs rows (rows.modify i (Option.map f)) where
  length := List.length_modify ..
  lawful lawful := by
    refine ⟨?_, fun row member => ?_⟩
    · rw [Single, outline_modify i longer.sketch]
      exact lawful.single
    obtain ⟨j, held⟩ := mem_iff_getElem?.mp member
    rw [getElem?_modify, Option.map_eq_map, Option.map_eq_some_iff] at held
    obtain ⟨slot, held, written⟩ := held
    split at written
    · obtain ⟨old, rfl, rfl⟩ := Option.map_eq_some_iff.mp written
      exact longer.sound old (lawful.sound old (mem_of_getElem? held))
    · cases written
      exact lawful.sound row (mem_of_getElem? held)
  delays target untilMs _ := by
    rintro ⟨row, member, rfl, atLeast⟩
    obtain ⟨j, held⟩ := mem_iff_getElem?.mp member
    refine ⟨_, mem_of_getElem? (getElem_modify (i := i) (f := f) held), ?_, ?_⟩
    · split
      · exact longer.target row
      · rfl
    split
    · exact atLeast.trans (longer.delay row)
    · exact atLeast

theorem Cools.recordBackoff (rows : ClientLives maxLen) (call : Call maxLen)
    (parsed : ParsedMessage maxLen) (nowMs : Nat) :
    Cools nowMs rows (rows.recordBackoff call parsed nowMs) := by
  fun_cases ClientLives.recordBackoff rows call parsed nowMs with
  | case4 => exact expireBackoffs rows nowMs
  | case5 =>
    refine (expireBackoffs rows nowMs).trans ?_
    simp only [ClientLives.update]
    split
    · exact .refl nowMs _
    · exact (Longer.ofDelay _).cools _
  | _ => exact .refl nowMs rows

/-! ### Rows that are collected -/

/-- A row elsewhere stays when one place is written. -/
theorem mem_set (slot : Option (LiveCall maxLen)) (held : rows[j]? = some (some row)) (ne : i ≠ j) :
    some row ∈ rows.set i slot := by
  apply mem_of_getElem? (i := j)
  rw [getElem?_set_ne ne, held]

/-- Only the row in the place that is written can end a delay. -/
theorem Delays.set {slot : Option (LiveCall maxLen)} (delays : rows.Delays target untilMs)
    (held : rows[i]? = some (some row)) (own : row.target = target →
      untilMs ≤ row.backoffUntilMs → Delays (rows.set i slot) target untilMs) :
    Delays (rows.set i slot) target untilMs := by
  obtain ⟨other, member, isTarget, atLeast⟩ := delays
  obtain ⟨j, atJ⟩ := mem_iff_getElem?.mp member
  by_cases here : i = j
  · subst here
    cases held.symm.trans atJ
    exact own isTarget atLeast
  · exact ⟨other, mem_set slot atJ here, isTarget, atLeast⟩

/-- What the places of the rows hold after a row was written. -/
theorem sound_set {slot : Option (LiveCall maxLen)} (sound : ∀ row, some row ∈ rows → row.Sound)
    (here : ∀ row, slot = some row → row.Sound) :
    ∀ row, some row ∈ rows.set i slot → row.Sound := by
  intro row member
  rcases mem_or_eq_of_mem_set member with old | written
  · exact sound row old
  · exact here row written.symm

/-- Of a Call that is collected the delay stays, in its own row or in a retired one. -/
theorem Cools.remove (rows : ClientLives maxLen) (call : Call maxLen) :
    Cools nowMs rows (rows.remove call) := by
  cases found : rows.findIdx? fun slot => slot.any (isLive call) with
  | none =>
    have unchanged : rows.remove call = rows := by simp only [ClientLives.remove, found]
    rw [unchanged]
    exact .refl nowMs rows
  | some i =>
  obtain ⟨row, held, live, -⟩ := findIdx_any found
  have active : row.retired = false := by
    simp only [isLive, Bool.and_eq_true, Bool.not_eq_true'] at live
    exact live.1
  -- a delay that still runs survives: its row stays, is merged into another one, or is retired
  suffices h : (rows.remove call).length = rows.length ∧
      (rows.Lawful → ∀ row, some row ∈ rows.remove call → row.Sound) ∧
      ∀ target untilMs, nowMs < untilMs → rows.Delays target untilMs →
        (rows.remove call).Delays target untilMs from
    ⟨h.1, fun lawful => ⟨(lawful.single.remove call).1, h.2.1 lawful⟩, h.2.2⟩
  simp only [ClientLives.remove, found, held, Option.join_some]
  split
  next undelayed =>
    refine ⟨length_set, fun lawful => ?_, ?_⟩
    · exact sound_set lawful.sound (by simp)
    intro target untilMs running delays
    refine delays.set held fun _ atLeast => ?_
    omega
  · split
    next k merged =>
      obtain ⟨entry, atK, matched, -⟩ := findIdx_any merged
      simp only [Bool.and_eq_true] at matched
      have sameTarget : entry.target = row.target := sameTarget_iff.mp matched.2
      have apart : i ≠ k := by
        rintro rfl
        rw [held] at atK
        cases atK
        rw [active] at matched
        cases matched.1
      have kept : Cools nowMs rows (rows.modify k (Option.map (·.delay row.backoffUntilMs))) :=
        (Longer.ofDelay _).cools k
      refine ⟨?_, fun lawful => ?_, ?_⟩
      · rw [length_set]
        exact kept.length
      · refine sound_set (kept.lawful lawful).sound ?_
        intro row isRow
        cases isRow
      intro target untilMs running delays
      refine (kept.delays target untilMs running delays).set (getElem_modify held) ?_
      rw [if_neg apart.symm]
      intro isTarget atLeast
      -- The row's own delay is now the other's.
      have written : (rows.modify k (Option.map (·.delay row.backoffUntilMs)))[k]? =
          some (some (entry.delay row.backoffUntilMs)) := by
        rw [getElem_modify atK, if_pos rfl]
      exact ⟨_, mem_set none written apart, sameTarget.trans isTarget,
        atLeast.trans (Nat.le_max_right _ _)⟩
    · refine ⟨length_set, fun lawful => ?_, ?_⟩
      · refine sound_set lawful.sound ?_
        rintro _ ⟨⟩
        exact (lawful.sound row (mem_of_getElem? held)).retire
      intro target untilMs running delays
      refine delays.set held fun isTarget atLeast => ?_
      have inside : i < rows.length := (List.getElem?_eq_some_iff.mp held).1
      exact ⟨row.retire, List.mem_set inside row.retire, isTarget, atLeast⟩

/-! ### Rows of new requests -/

/-- A new row takes a free place, or that of a row without delay. -/
theorem Delays.insert (delays : rows.Delays target untilMs) (running : 0 < untilMs)
    (undelayed : ∀ row, some row ∈ rows → isLive live.call row = true → row.backoffUntilMs = 0) :
    Delays (rows.insert live) target untilMs := by
  obtain ⟨row, member, rfl, atLeast⟩ := delays
  obtain ⟨j, atJ⟩ := mem_iff_getElem?.mp member
  simp only [ClientLives.insert]
  split
  next i found =>
    obtain ⟨old, atI, own, -⟩ := findIdx_any found
    refine ⟨row, mem_set _ atJ ?_, rfl, atLeast⟩
    rintro rfl
    rw [atI] at atJ
    cases atJ
    have := undelayed row member own
    omega
  · split
    next i free =>
      obtain ⟨vacant, -⟩ := findIdx_free free
      refine ⟨row, mem_set _ atJ ?_, rfl, atLeast⟩
      rintro rfl
      rw [vacant] at atJ
      cases atJ
    · exact ⟨row, member, rfl, atLeast⟩

theorem Lawful.insert (lawful : rows.Lawful) (sound : live.Sound) (active : live.retired = false)
    (admitted : rows.canAdmit live.call) : Lawful (rows.insert live) := by
  refine ⟨(lawful.single.insert active admitted).1, ?_⟩
  simp only [ClientLives.insert]
  split
  · refine sound_set lawful.sound ?_
    rintro _ ⟨⟩
    exact sound
  split
  · refine sound_set lawful.sound ?_
    rintro _ ⟨⟩
    exact sound
  · exact lawful.sound

theorem length_insert (rows : ClientLives maxLen) (live : LiveCall maxLen) :
    (rows.insert live).length = rows.length := by
  simp only [ClientLives.insert]
  split
  · exact length_set
  split
  · exact length_set
  · rfl

/-! ### The delay of a target -/

/-- The longest delay of a target is reported. -/
theorem Delays.backoffUntil (delays : rows.Delays target untilMs) (running : 0 < untilMs) :
    ∃ reported, rows.backoffUntil target.peer target.code target.path target.queries =
      some reported ∧ untilMs ≤ reported := by
  obtain ⟨row, member, isTarget, atLeast⟩ := delays
  have inFilter : row.backoffUntilMs ∈ (rows.reduceOption.filter fun row =>
      row.backoffUntilMs ≠ 0 ∧ row.sameTarget target.peer target.code target.path
        target.queries).map (·.backoffUntilMs) := by
    refine mem_map_of_mem (mem_filter.mpr ⟨reduceOption_mem_iff.mpr member, ?_⟩)
    simp only [sameTarget_iff, isTarget, and_true, decide_eq_true_eq]
    omega
  rw [ClientLives.backoffUntil]
  generalize (filter _ _).map _ = delays at inFilter
  cases reported : delays.max? with
  | none =>
    rw [max?_eq_none_iff] at reported
    rw [reported] at inFilter
    cases inFilter
  | some longest =>
    exact ⟨longest, rfl, atLeast.trans ((max?_eq_some_iff.mp reported).2 _ inFilter)⟩

/-- A target of which no delay is reported has none in any row. -/
theorem undelayed_of_backoffUntil
    (none : rows.backoffUntil target.peer target.code target.path target.queries = none)
    (member : some row ∈ rows) (isTarget : row.target = target) : row.backoffUntilMs = 0 := by
  by_contra delayed
  have delays : rows.Delays target row.backoffUntilMs := ⟨row, member, isTarget, Nat.le_refl _⟩
  obtain ⟨reported, some, -⟩ := delays.backoffUntil (by omega)
  rw [none] at some
  cases some

theorem get_eq_some (live : rows.get call = some row) :
    ∃ i, (rows.findIdx? fun slot => slot.any (isLive call)) = some i ∧
      rows[i]? = some (some row) := by
  rw [get, Option.join_eq_some_iff, find?_eq_bind_findIdx?_getElem?,
    Option.bind_eq_some_iff] at live
  exact live

theorem get_expireBackoffs (live : rows.get call = some row) (nowMs : Nat) :
    ∃ row', (rows.expireBackoffs nowMs).get call = some row' ∧ row'.target = row.target := by
  obtain ⟨i, found, held⟩ := get_eq_some live
  obtain ⟨_, held', own, -⟩ := findIdx_any found
  rw [held] at held'
  cases held'
  have active : row.retired = false := by
    simp only [isLive, Bool.and_eq_true, Bool.not_eq_true'] at own
    exact own.1
  -- The first live row of the Call stands where it stood.
  rw [findIdx_outline, ← outline_expireBackoffs rows nowMs, ← findIdx_outline] at found
  have at_ : (rows.expireBackoffs nowMs)[i]? = some (if nowMs < row.backoffUntilMs then some row
      else some { row with backoffUntilMs := 0 }) := by
    simp [expireBackoffs, held, active]
  refine ⟨if nowMs < row.backoffUntilMs then row else { row with backoffUntilMs := 0 }, ?_, ?_⟩
  · rw [get, find?_eq_bind_findIdx?_getElem?, found, Option.bind_some, at_]
    split <;> rfl
  · split <;> rfl

/-- A response that asks to be left alone for some seconds: by its one Max-Age, or the default. -/
structure Overload (parsed : ParsedMessage maxLen) (seconds : Nat) : Prop where
  code : parsed.header.code = .tooManyRequests ∨ parsed.header.code = .serviceUnavailable
  once : parsed.options.countP (·.number = OptionNumber.maxAge) ≤ 1
  age : parsed.maxAge = none ∧ seconds = defaultMaxAgeSecs ∨ parsed.maxAge = some (some seconds)

theorem delays_update (live : rows.get call = some row) (untilMs : Nat) :
    (rows.update (isLive call) (·.delay untilMs)).Delays row.target untilMs := by
  obtain ⟨i, found, held⟩ := get_eq_some live
  rw [update, found]
  refine ⟨_, mem_of_getElem? (getElem_modify held), ?_, ?_⟩
  · rw [if_pos rfl]
    rfl
  · rw [if_pos rfl]
    exact Nat.le_max_right _ _

/-- An overload response delays the target of its Call. -/
theorem delays_recordBackoff (live : rows.get call = some row) {parsed : ParsedMessage maxLen}
    {seconds : Nat} (overload : Overload parsed seconds) (nowMs : Nat) (positive : seconds ≠ 0) :
    (rows.recordBackoff call parsed nowMs).Delays row.target
      (min (nowMs + seconds * 1000) u64Max) := by
  have recorded : rows.recordBackoff call parsed nowMs = (rows.expireBackoffs nowMs).update
      (isLive call) (·.delay (min (nowMs + seconds * 1000) u64Max)) := by
    rw [ClientLives.recordBackoff, if_neg, if_neg (Nat.not_lt.mpr overload.once)]
    · rcases overload.age with ⟨absent, rfl⟩ | given
      · simp [absent, positive]
      · simp [given, positive]
    · rintro ⟨notTooMany, notUnavailable⟩
      exact overload.code.elim notTooMany notUnavailable
  obtain ⟨row', live', sameTarget⟩ := get_expireBackoffs live nowMs
  rw [recorded, ← sameTarget]
  exact delays_update live' _

end ClientLives

end Coaptic.Client
