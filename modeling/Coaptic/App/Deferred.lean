import Coaptic.App.State
import Coaptic.Lib.Slots
import Coaptic.Storage.Pending

/-!
# Deferred replies

Work that a handler defers holds a row until the caller completes it. The handle names the row by
a generation that is never issued again, so a handle outlives its row without reaching another
one: it is accepted until its first completion, its cancellation or its deadline, and never after.

What the engine answers about a row, and how the sending of a response ends, are arguments of the
operations. They are unrestricted but for what the callee can write to.
-/
namespace Coaptic.App

open Codec Block Slots Run Option
open Pending (u64Max)

variable {η : Type} {maxLen : Nat}

structure DeferredTable (η : Type) (maxLen : Nat) where
  rows : List (Option (DeferredRow η maxLen))
  generation : Nat

/-- What the engine says about a row: whether the attempted relation is still the row's, whether
the snapshot's body slot still holds its transfer, whether that slot is pinned, and whether the
relation can be retired. -/
structure RowAnswers where
  owner : Bool
  body : Bool
  pinned : Bool
  retired : Except SlotError Unit

/-- How a completion goes: the engine's answers while rows lapse, the header of the response, what
sending it comes to, and the body slot that it leaves behind. -/
structure ReplyAnswers where
  rows : Nat → RowAnswers
  observed : Except Error Unit × Option (Nat × ReplyMeta) × Bool × Option DeferredObserve
  metadata : Except ResponseError ReplyMeta
  completedQ : Except Error Unit × Option (Nat × ReplyMeta)
  separate : Except Error Unit
  body : Option Nat

/-! ### One row -/

namespace DeferredRow

def generation (row : DeferredRow η maxLen) : Nat := row.handle.generation

section

variable (row : DeferredRow η maxLen)

def accepts (handle : DeferredReply) (nowMs : Nat) : Bool :=
  row.handle = handle && !row.completed && nowMs < row.deadlineMs

theorem accepts_iff {row : DeferredRow η maxLen} {handle : DeferredReply} {nowMs : Nat} :
    row.accepts handle nowMs = true ↔
      row.handle = handle ∧ row.completed = false ∧ nowMs < row.deadlineMs := by
  simp [accepts, and_assoc]

/-- What is left of a row when its deadline has passed, or its snapshot is gone. -/
def expire (nowMs : Nat) (env : RowAnswers) : Option (DeferredRow η maxLen) :=
  let ownsObserve := row.observe.all (·.attempted.isNone) || env.owner
  let bodyLive := ownsObserve && row.snapshot.isSome && env.body
  if row.deadlineMs ≤ nowMs ∨ (row.completed && !bodyLive) = true then
    if row.completed && bodyLive && env.pinned then some row
    else if !row.completed && !env.retired.isOk then some row
    else none
  else some row

/-- A completed row stays while its snapshot is served. -/
def finish (retains : Bool) : Option (DeferredRow η maxLen) :=
  if retains then some { row with completed := true } else none

def complete (response : Response) (env : ReplyAnswers) :
    Except Error Unit × Option (DeferredRow η maxLen) :=
  let representation := response.code.isSuccess && response.code != .valid
  if row.observe.isSome then
    let row :=
      { row with
        snapshot := env.observed.2.1
        completed := env.observed.2.2.1
        observe := env.observed.2.2.2 }
    match env.observed.1 with
    | .error e => (.error e, some row)
    | .ok () => (.ok (), row.finish row.snapshot.isSome)
  else if row.reply.qBlock2.isSome && row.snapshot.isSome && !representation then
    (.error (.block .identityMismatch), some row)
  else
  match env.metadata with
  | .error e => (.error (.response e), some row)
  | .ok header =>
  if row.reply.qBlock2.isSome && row.snapshot.any (·.2.header != header.header) then
    (.error (.block .identityMismatch), some row)
  else
  let staged :=
    if row.reply.qBlock2.isSome && representation then
      { row with snapshot := env.completedQ.2 }
    else row
  let outcome :=
    if row.reply.qBlock2.isSome && representation then env.completedQ.1 else env.separate
  let retained :=
    if row.reply.qBlock2.isSome then (row.snapshot.map (·.2)).getD header else header
  let staged :=
    match env.body with
    | some body => { staged with snapshot := some (body, retained) }
    | none => staged
  match outcome with
  | .error e => (.error e, some staged)
  | .ok () => (.ok (), staged.finish env.body.isSome)

end

end DeferredRow

open DeferredRow

/-! ### The table -/

namespace DeferredTable

def new (n : Nat) : DeferredTable η maxLen := ⟨List.replicate n none, 0⟩

def expire (t : DeferredTable η maxLen) (nowMs : Nat) (env : Nat → RowAnswers) :
    DeferredTable η maxLen :=
  { t with rows := t.rows.mapIdx fun i slot => slot.bind fun row => row.expire nowMs (env i) }

/-- Retire the rows that are selected, up to the first that the engine refuses to retire. -/
def retire (select : Nat → DeferredRow η maxLen → Bool) (env : Nat → RowAnswers) :
    List (Option (DeferredRow η maxLen)) → Except SlotError Unit × List (Option (DeferredRow η maxLen))
  | [] => (.ok (), [])
  | none :: rest =>
    let (outcome, rest) := retire (fun i => select (i + 1)) (fun i => env (i + 1)) rest
    (outcome, none :: rest)
  | some row :: rest =>
    if select 0 row then
      match (env 0).retired with
      | .error e => (.error e, some row :: rest)
      | .ok () =>
        let (outcome, rest) := retire (fun i => select (i + 1)) (fun i => env (i + 1)) rest
        (outcome, none :: rest)
    else
      let (outcome, rest) := retire (fun i => select (i + 1)) (fun i => env (i + 1)) rest
      (outcome, some row :: rest)

/-- A later registration or cancellation by the observer ends what is deferred for it. -/
def supersedeObserve [DecidableEq η] (t : DeferredTable η maxLen) (token : OwnedToken maxLen) (peer : η)
    (env : Nat → RowAnswers) : Except SlotError Unit × DeferredTable η maxLen :=
  let select (_ : Nat) (row : DeferredRow η maxLen) : Bool :=
    row.observe.isSome && row.reply.token = token && row.reply.dest = peer
  let (outcome, rows) := retire select env t.rows
  (outcome, { t with rows })

/-- A reset of the latest attempt that may have reached the peer. -/
def rejectObserveAttempt [DecidableEq η] (t : DeferredTable η maxLen) (mid : MessageId) (peer : η)
    (nowMs : Nat)
    (env : Nat → RowAnswers) : Except SlotError Unit × DeferredTable η maxLen :=
  let select (i : Nat) (row : DeferredRow η maxLen) : Bool :=
    row.reply.dest = peer &&
      row.observe.any (fun observe =>
        observe.failedMid.any fun (sent, expires) => sent = mid && nowMs < expires) &&
      (env i).owner
  let (outcome, rows) := retire select env t.rows
  (outcome, { t with rows })

def removePeer [DecidableEq η] (t : DeferredTable η maxLen) (peer : η) : DeferredTable η maxLen :=
  { t with rows := t.rows.map fun slot => slot.filter (·.reply.dest ≠ peer) }

section

variable (t : DeferredTable η maxLen)

/-- A handle for the request that is dispatched, if there is room for its row. `nonce` is absent
when entropy is. -/
def candidate (nonce : Option Token) :
    Except Error (Option DeferredReply) × DeferredTable η maxLen :=
  if t.rows.all (·.isSome) then (.ok none, t)
  else if u64Max ≤ t.generation then (.ok none, t)
  else
  match nonce with
  | none => (.error .identity, t)
  | some nonce =>
    (.ok (some ⟨nonce, t.generation + 1⟩), { t with generation := t.generation + 1 })

/-- Store the row of a deferred request. `none` is the failure of the source's `expect`. -/
def insert (handle : DeferredReply) (reply : SendResponse η maxLen) (deadlineMs : Nat)
    (selection : Selection) (qSelectors : List BlockValue) (observe : Option DeferredObserve) :
    Option (DeferredTable η maxLen) :=
  match t.rows.findIdx? (·.isNone) with
  | none => none
  | some i =>
  let row : DeferredRow η maxLen :=
    { handle, reply, deadlineMs, selection, qSelectors, snapshot := none, completed := false,
      observe }
  some { t with rows := t.rows.set i (some row) }

def complete (t : DeferredTable η maxLen) (handle : DeferredReply) (response : Response)
    (nowMs : Nat) (env : ReplyAnswers) : Except Error Unit × DeferredTable η maxLen :=
  let t := t.expire nowMs env.rows
  match t.rows.findIdx? (·.any (·.accepts handle nowMs)) with
  | none => (.error .deferredUnknown, t)
  | some i =>
  match response.validate with
  | .error e => (.error (.response e), t)
  | .ok () =>
  if response.deferred then (.error .deferredUnknown, t)
  else
  match t.rows[i]?.join with
  | none => (.error .deferredUnknown, t)
  | some row =>
    let (outcome, slot) := row.complete response.withFreshPiv env
    (outcome, { t with rows := t.rows.set i slot })

def cancelDeferred (handle : DeferredReply) (env : RowAnswers) : Bool × DeferredTable η maxLen :=
  match t.rows.findIdx? (·.any fun row => row.handle = handle && !row.completed) with
  | none => (false, t)
  | some i => if env.retired.isOk then (true, { t with rows := t.rows.set i none }) else (false, t)

/-- What a request contributes to its row. -/
structure Deferral (η : Type) (maxLen : Nat) where
  reply : SendResponse η maxLen
  nowMs : Nat
  lifetimeMs : Nat
  selection : Selection
  qSelectors : List BlockValue
  observe : Option DeferredObserve

def Deferral.deadlineMs (d : Deferral η maxLen) : Nat := min (d.nowMs + d.lifetimeMs) u64Max

def Deferral.row (d : Deferral η maxLen) (handle : DeferredReply) : DeferredRow η maxLen where
  handle
  reply := d.reply
  deadlineMs := d.deadlineMs
  selection := d.selection
  qSelectors := d.qSelectors
  snapshot := none
  completed := false
  observe := d.observe

/-- Dispatch of a request that may be deferred. The handler gets the candidate; `deferral` is
absent if it answers at once. -/
def dispatch (nonce : Option Token) (deferral : Option (Deferral η maxLen)) :
    Option DeferredReply × DeferredTable η maxLen :=
  match t.candidate nonce, deferral with
  | (.ok (some handle), t), some d =>
    match t.insert handle d.reply d.deadlineMs d.selection d.qSelectors d.observe with
    | some t => (some handle, t)
    | none => (none, t)
  | (_, t), _ => (none, t)

end

/-- What can happen to the table. -/
inductive Event (η : Type) (maxLen : Nat)
  | expire (nowMs : Nat) (env : Nat → RowAnswers)
  | supersede (token : OwnedToken maxLen) (peer : η) (env : Nat → RowAnswers)
  | reject (mid : MessageId) (peer : η) (nowMs : Nat) (env : Nat → RowAnswers)
  | removePeer (peer : η)
  | dispatch (nonce : Option Token) (deferral : Option (Deferral η maxLen))
  | complete (handle : DeferredReply) (response : Response) (nowMs : Nat) (env : ReplyAnswers)
  | cancel (handle : DeferredReply) (env : RowAnswers)

def step [DecidableEq η] (t : DeferredTable η maxLen) : Event η maxLen → DeferredTable η maxLen
  | .expire nowMs env => t.expire nowMs env
  | .supersede token peer env => (t.supersedeObserve token peer env).2
  | .reject mid peer nowMs env => (t.rejectObserveAttempt mid peer nowMs env).2
  | .removePeer peer => t.removePeer peer
  | .dispatch nonce deferral => (t.dispatch nonce deferral).2
  | .complete handle response nowMs env => (t.complete handle response nowMs env).2
  | .cancel handle env => (t.cancelDeferred handle env).2

end DeferredTable

/-! ### What one step does -/

/-- What stays of a row, whatever is written to it. -/
structure DeferredRow.Keeps (row row' : DeferredRow η maxLen) : Prop where
  handle : row'.handle = row.handle
  deadlineMs : row'.deadlineMs = row.deadlineMs
  completed : row.completed = true → row'.completed = true

namespace DeferredRow

variable {row row' : DeferredRow η maxLen}

theorem Keeps.refl (row : DeferredRow η maxLen) : row.Keeps row := ⟨rfl, rfl, id⟩

theorem Keeps.trans {row'' : DeferredRow η maxLen} (h : row.Keeps row') (h' : row'.Keeps row'') :
    row.Keeps row'' :=
  ⟨h'.handle.trans h.handle, h'.deadlineMs.trans h.deadlineMs, fun done =>
    h'.completed (h.completed done)⟩

theorem expire_keeps {nowMs : Nat} {env : RowAnswers} (left : row.expire nowMs env = some row') :
    row' = row := by
  simp only [expire] at left
  grind

/-- A completion fails and keeps the row, with what was written to it, or it finishes the row. -/
theorem complete_cases (row : DeferredRow η maxLen) (response : Response) (env : ReplyAnswers) :
    ∃ staged : DeferredRow η maxLen,
      ((∃ e, row.complete response env = (.error e, some staged)) ∨
        ∃ retains, row.complete response env = (.ok (), staged.finish retains)) ∧
      staged.handle = row.handle ∧ staged.deadlineMs = row.deadlineMs := by
  simp only [complete]
  split
  · cases env.observed.1 with
    | error e => exact ⟨_, .inl ⟨e, rfl⟩, rfl, rfl⟩
    | ok => exact ⟨_, .inr ⟨_, rfl⟩, rfl, rfl⟩
  split
  · exact ⟨row, .inl ⟨_, rfl⟩, rfl, rfl⟩
  cases env.metadata with
  | error e => exact ⟨row, .inl ⟨_, rfl⟩, rfl, rfl⟩
  | ok header =>
  dsimp only
  split
  · exact ⟨row, .inl ⟨_, rfl⟩, rfl, rfl⟩
  -- Whatever is staged is the row with another snapshot.
  split <;> split <;> split <;>
    first
      | exact ⟨_, .inl ⟨_, rfl⟩, rfl, rfl⟩
      | exact ⟨_, .inr ⟨_, rfl⟩, rfl, rfl⟩

variable {env : ReplyAnswers} {response : Response}

/-- A completion that succeeds leaves no row, or one that is completed. -/
theorem complete_ok (ok : (row.complete response env).1 = .ok ())
    (left : (row.complete response env).2 = some row') : row'.completed = true := by
  obtain ⟨staged, ⟨e, fails⟩ | ⟨retains, ends⟩, -⟩ := row.complete_cases response env
  · rw [fails] at ok
    cases ok
  rw [ends] at left
  simp only [finish] at left
  split at left
  · cases left
    rfl
  · cases left

/-- A completion writes neither the handle nor the deadline. -/
theorem complete_keeps (open_ : row.completed = false)
    (left : (row.complete response env).2 = some row') : row.Keeps row' := by
  have opened : row.completed = true → row'.completed = true := by
    rw [open_]
    nofun
  obtain ⟨staged, ⟨e, fails⟩ | ⟨retains, ends⟩, handle, deadline⟩ := row.complete_cases response env
  · rw [fails] at left
    cases left
    exact ⟨handle, deadline, opened⟩
  rw [ends] at left
  simp only [finish] at left
  split at left
  · cases left
    exact ⟨handle, deadline, opened⟩
  · cases left

end DeferredRow

namespace DeferredTable

variable {s t u : DeferredTable η maxLen} {handle : DeferredReply}

def At (t : DeferredTable η maxLen) (i : Nat) (row : DeferredRow η maxLen) : Prop :=
  t.rows[i]? = some (some row)

/-- Every row was there before, in the same slot. -/
structure Follows (s t : DeferredTable η maxLen) : Prop where
  generation : s.generation ≤ t.generation
  kept : ∀ i row', t.At i row' → ∃ row, s.At i row ∧ row.Keeps row'

/-- Every row was there before, or its handle was issued since. -/
structure Evolves (s t : DeferredTable η maxLen) : Prop where
  generation : s.generation ≤ t.generation
  kept : ∀ i row', t.At i row' →
    (∃ row, s.At i row ∧ row.Keeps row') ∨ s.generation < row'.handle.generation

/-- Handles of rows have been issued, each to one row. -/
structure Sound (t : DeferredTable η maxLen) : Prop where
  issued : ∀ i row, t.At i row → row.handle.generation ≤ t.generation
  distinct : Distinct DeferredRow.generation t.rows

theorem Follows.evolves (h : s.Follows t) : s.Evolves t :=
  ⟨h.generation, fun i row' here => .inl (h.kept i row' here)⟩

theorem Follows.sound (h : s.Follows t) (sound : s.Sound) : t.Sound where
  issued i row' here := by
    obtain ⟨row, before, keeps⟩ := h.kept i row' here
    rw [keeps.handle]
    exact (sound.issued i row before).trans h.generation
  distinct i j a b ha hb same := by
    obtain ⟨a', ha', keepsA⟩ := h.kept i a ha
    obtain ⟨b', hb', keepsB⟩ := h.kept j b hb
    refine sound.distinct i j a' b' ha' hb' ?_
    rw [DeferredRow.generation, ← keepsA.handle, DeferredRow.generation, ← keepsB.handle]
    exact same

/-- Rows that are given up or left alone. -/
theorem follows_of_subset {rows : List (Option (DeferredRow η maxLen))}
    (kept : ∀ i row, rows[i]? = some (some row) → s.At i row) : s.Follows { s with rows } :=
  ⟨le_rfl, fun i row here => ⟨row, kept i row here, .refl row⟩⟩

theorem follows_expire (s : DeferredTable η maxLen) (nowMs : Nat) (env : Nat → RowAnswers) :
    s.Follows (s.expire nowMs env) := by
  refine follows_of_subset fun i row here => ?_
  rw [List.getElem?_mapIdx] at here
  cases slot : s.rows[i]? with
  | none => rw [slot] at here; cases here
  | some old =>
  cases old with
  | none => rw [slot] at here; cases here
  | some old =>
  rw [slot] at here
  simp only [map_some, some.injEq, bind_some] at here
  rw [At, slot, expire_keeps here]

theorem retire_subset (select : Nat → DeferredRow η maxLen → Bool) (env : Nat → RowAnswers)
    (rows : List (Option (DeferredRow η maxLen))) (i : Nat) (row : DeferredRow η maxLen)
    (here : (retire select env rows).2[i]? = some (some row)) : rows[i]? = some (some row) := by
  induction rows generalizing select env i with
  | nil => cases here
  | cons slot rest ih =>
  cases slot with
  | none =>
    cases i with
    | zero => cases here
    | succ i => exact ih _ _ i here
  | some old =>
  simp only [retire] at here
  split at here
  · split at here
    · exact here
    cases i with
    | zero => cases here
    | succ i => exact ih _ _ i here
  cases i with
  | zero => exact here
  | succ i => exact ih _ _ i here

theorem follows_removePeer [DecidableEq η] (s : DeferredTable η maxLen) (peer : η) :
    s.Follows (s.removePeer peer) := by
  refine follows_of_subset fun i row here => ?_
  rw [List.getElem?_map] at here
  cases slot : s.rows[i]? with
  | none => rw [slot] at here; cases here
  | some old =>
  rw [slot] at here
  simp only [map_some, some.injEq, filter_eq_some_iff] at here
  rw [At, slot, here.1]

variable {i nowMs : Nat} {row : DeferredRow η maxLen} {nonce : Option Token} {response : Response}
  {env : ReplyAnswers}

theorem follows_set {slot : Option (DeferredRow η maxLen)} (here : s.At i row)
    (keeps : ∀ row', slot = some row' → row.Keeps row') :
    s.Follows { s with rows := s.rows.set i slot } := by
  refine ⟨le_rfl, fun j row' there => ?_⟩
  obtain ⟨rfl, new⟩ | ⟨-, old⟩ := of_set there
  · exact ⟨row, here, keeps row' new⟩
  · exact ⟨row', old, .refl row'⟩

theorem Follows.trans (h : s.Follows t) (h' : t.Follows u) : s.Follows u where
  generation := h.generation.trans h'.generation
  kept i row'' here := by
    obtain ⟨row', there, keeps'⟩ := h'.kept i row'' here
    obtain ⟨row, before, keeps⟩ := h.kept i row' there
    exact ⟨row, before, keeps.trans keeps'⟩

section

variable (s : DeferredTable η maxLen)

section

variable (handle : DeferredReply) (response : Response) (nowMs : Nat) (env : ReplyAnswers)

/-- How a completion ends: with nothing but rows that lapse, or at the row that it accepts. -/
theorem complete_cases :
    (∃ e, s.complete handle response nowMs env = (.error e, s.expire nowMs env.rows)) ∨
      ∃ i row, (s.expire nowMs env.rows).At i row ∧ row.accepts handle nowMs = true ∧
        s.complete handle response nowMs env =
          ((row.complete response.withFreshPiv env).1,
            { s.expire nowMs env.rows with
              rows := (s.expire nowMs env.rows).rows.set i
                (row.complete response.withFreshPiv env).2 }) := by
  fun_cases complete s handle response nowMs env with
  | case5 t i found _ _ row here _ _ completed =>
    obtain ⟨row', held, accepts, -⟩ := findIdx_any found
    rw [held] at here
    cases here
    exact .inr ⟨i, row, held, accepts, by rw [completed]⟩
  | _ => exact .inl ⟨_, rfl⟩

theorem follows_complete : s.Follows (s.complete handle response nowMs env).2 := by
  have lapse := s.follows_expire nowMs env.rows
  obtain ⟨e, fails⟩ | ⟨i, row, here, accepts, ends⟩ := s.complete_cases handle response nowMs env
  · rw [fails]
    exact lapse
  rw [ends]
  refine lapse.trans (follows_set here fun row' left => ?_)
  exact complete_keeps (accepts_iff.mp accepts).2.1 left

end

/-- A cancellation clears the row that the handle names and is not completed. -/
theorem cancel_cases (handle : DeferredReply) (env : RowAnswers) :
    s.cancelDeferred handle env = (false, s) ∨
      ∃ i row, s.At i row ∧ row.handle = handle ∧
        s.cancelDeferred handle env = (true, { s with rows := s.rows.set i none }) := by
  simp only [cancelDeferred]
  split
  · exact .inl rfl
  next i found =>
  obtain ⟨row, here, named, -⟩ := findIdx_any found
  simp only [Bool.and_eq_true, decide_eq_true_eq] at named
  split
  · exact .inr ⟨i, row, here, named.1, rfl⟩
  · exact .inl rfl

theorem follows_cancel (handle : DeferredReply) (env : RowAnswers) :
    s.Follows (s.cancelDeferred handle env).2 := by
  obtain unchanged | ⟨i, row, here, -, cleared⟩ := s.cancel_cases handle env
  · rw [unchanged]
    exact follows_of_subset fun _ _ => id
  · rw [cleared]
    exact follows_set here fun row' gone => by cases gone

end

/-! ### Dispatch -/

/-- A candidate is only issued while there is room for its row. -/
theorem candidate_some (issued : s.candidate nonce = (.ok (some handle), t)) :
    t.rows = s.rows ∧ (∃ i, s.rows.findIdx? (·.isNone) = some i) ∧
      t.generation = s.generation + 1 ∧ handle.generation = s.generation + 1 := by
  revert issued
  fun_cases candidate s nonce with
  | case4 full =>
    rintro ⟨⟩
    refine ⟨rfl, ?_, rfl, rfl⟩
    rw [← isSome_iff_exists, List.findIdx?_isSome]
    simpa using full
  | _ => exact nofun

section

variable (s : DeferredTable η maxLen) (nonce : Option Token)

theorem candidate_rows :
    (s.candidate nonce).2.rows = s.rows ∧ s.generation ≤ (s.candidate nonce).2.generation := by
  simp only [candidate]
  split
  · exact ⟨rfl, le_rfl⟩
  split
  · exact ⟨rfl, le_rfl⟩
  cases nonce with
  | none => exact ⟨rfl, le_rfl⟩
  | some nonce => exact ⟨rfl, Nat.le_succ _⟩

/-- A dispatch at most raises the generation, or it inserts the row of the handle it issues. -/
theorem dispatch_cases (deferral : Option (Deferral η maxLen)) :
    ((s.dispatch nonce deferral).1 = none ∧ (s.dispatch nonce deferral).2.rows = s.rows ∧
        s.generation ≤ (s.dispatch nonce deferral).2.generation) ∨
      ∃ d handle i, deferral = some d ∧ handle.generation = s.generation + 1 ∧
        s.dispatch nonce deferral =
          (some handle, ⟨s.rows.set i (some (d.row handle)), s.generation + 1⟩) := by
  obtain ⟨rows, raised⟩ := s.candidate_rows nonce
  simp only [dispatch]
  cases issued : s.candidate nonce with
  | mk outcome t =>
    rw [issued] at rows raised
    split
    next handle t' d same =>
      cases same
      obtain ⟨-, ⟨i, free⟩, generation, number⟩ := candidate_some issued
      have free' : t.rows.findIdx? (·.isNone) = some i := by rw [rows]; exact free
      simp only [insert, free']
      refine .inr ⟨d, handle, i, rfl, number, ?_⟩
      rw [rows, generation]
      rfl
    next t' same _ =>
      cases same
      exact .inl ⟨rfl, rows, raised⟩

theorem evolves_dispatch (deferral : Option (Deferral η maxLen)) :
    s.Evolves (s.dispatch nonce deferral).2 := by
  obtain ⟨-, rows, raised⟩ | ⟨d, handle, i, -, number, inserted⟩ := s.dispatch_cases nonce deferral
  · refine ⟨raised, fun j row' there => .inl ⟨row', ?_, .refl row'⟩⟩
    rwa [At, rows] at there
  rw [inserted]
  refine ⟨Nat.le_succ _, fun j row' there => ?_⟩
  obtain ⟨-, ⟨⟩⟩ | ⟨-, old⟩ := of_set there
  · exact .inr (number ▸ Nat.lt_succ_self s.generation)
  · exact .inl ⟨row', old, .refl row'⟩

end

theorem Sound.dispatch (sound : s.Sound) (nonce : Option Token)
    (deferral : Option (Deferral η maxLen)) : (s.dispatch nonce deferral).2.Sound := by
  obtain ⟨-, rows, raised⟩ | ⟨d, handle, i, -, number, inserted⟩ := s.dispatch_cases nonce deferral
  · refine ⟨fun j row' there => ?_, rows ▸ sound.distinct⟩
    rw [At, rows] at there
    exact (sound.issued j row' there).trans raised
  rw [inserted]
  refine ⟨fun j row' there => ?_, sound.distinct.set fun j other there same => ?_⟩
  · obtain ⟨-, ⟨⟩⟩ | ⟨-, old⟩ := of_set there
    · exact number.le
    · exact (sound.issued j row' old).trans (Nat.le_succ _)
  -- The handle's number is higher than any that a row has.
  have older := sound.issued j other there
  have : other.handle.generation = s.generation + 1 := same.trans number
  omega

/-! ### How a handle ends -/

/-- No row of the handle is left that is not completed. -/
structure Spent (handle : DeferredReply) (t : DeferredTable η maxLen) : Prop where
  issued : handle.generation ≤ t.generation
  completed : ∀ i row, t.At i row → row.handle = handle → row.completed = true

/-- Every row of the handle is due at `deadlineMs`. -/
structure Due (handle : DeferredReply) (deadlineMs : Nat) (t : DeferredTable η maxLen) : Prop where
  issued : handle.generation ≤ t.generation
  due : ∀ i row, t.At i row → row.handle = handle → row.deadlineMs = deadlineMs

/-- A row of a handle that had been issued is not a new one. -/
theorem Evolves.kept_of_issued (h : s.Evolves t) (issued : handle.generation ≤ s.generation) {i : Nat}
    {row' : DeferredRow η maxLen} (here : t.At i row') (same : row'.handle = handle) :
    ∃ row, s.At i row ∧ row.handle = handle ∧ row.Keeps row' := by
  obtain ⟨row, before, keeps⟩ | newer := h.kept i row' here
  · exact ⟨row, before, keeps.handle ▸ same, keeps⟩
  rw [same] at newer
  omega

theorem Spent.evolves (spent : Spent handle s) (h : s.Evolves t) : Spent handle t where
  issued := spent.issued.trans h.generation
  completed i row' here same := by
    obtain ⟨row, before, isHandle, keeps⟩ := h.kept_of_issued spent.issued here same
    exact keeps.completed (spent.completed i row before isHandle)

theorem Due.evolves {deadlineMs : Nat} (due : Due handle deadlineMs s) (h : s.Evolves t) :
    Due handle deadlineMs t where
  issued := due.issued.trans h.generation
  due i row' here same := by
    obtain ⟨row, before, isHandle, keeps⟩ := h.kept_of_issued due.issued here same
    exact keeps.deadlineMs.trans (due.due i row before isHandle)

/-- Only a row that accepts the handle is completed. -/
theorem accepted_of_ok (ok : (s.complete handle response nowMs env).1 = .ok ()) :
    ∃ i row, s.At i row ∧ row.accepts handle nowMs = true := by
  obtain ⟨e, fails⟩ | ⟨i, row, here, accepts, -⟩ := s.complete_cases handle response nowMs env
  · rw [fails] at ok
    cases ok
  obtain ⟨row', before, keeps⟩ := (s.follows_expire nowMs env.rows).kept i row here
  obtain ⟨named, pending, early⟩ := accepts_iff.mp accepts
  refine ⟨i, row', before, accepts_iff.mpr
    ⟨keeps.handle ▸ named, ?_, keeps.deadlineMs ▸ early⟩⟩
  cases done : row'.completed with
  | false => rfl
  | true => exact absurd (keeps.completed done) (by simp [pending])

/-- The row of a handle is the only one: when it is gone or completed, the handle is spent. -/
theorem Sound.spent (sound : s.Sound) (here : s.At i row) (h : s.Evolves t)
    (ended : ∀ row', t.At i row' → row'.handle = row.handle → row'.completed = true) :
    Spent row.handle t where
  issued := (sound.issued i row here).trans h.generation
  completed j row' there same := by
    obtain ⟨old, before, keeps⟩ | newer := h.kept j row' there
    · have named := keeps.handle.symm.trans same
      obtain rfl : j = i := sound.distinct j i old row before here
        (congrArg DeferredReply.generation named)
      exact ended row' there same
    have := sound.issued i row here
    rw [same] at newer
    omega

theorem Sound.spent_of_ok (sound : s.Sound)
    (ok : (s.complete handle response nowMs env).1 = .ok ()) :
    Spent handle (s.complete handle response nowMs env).2 := by
  obtain ⟨e, fails⟩ | ⟨i, row, here, accepts, ends⟩ := s.complete_cases handle response nowMs env
  · rw [fails] at ok
    cases ok
  have lapsed := (s.follows_expire nowMs env.rows).sound sound
  obtain ⟨rfl, pending, -⟩ := accepts_iff.mp accepts
  rw [ends] at ok ⊢
  have keeps (row' : DeferredRow η maxLen)
      (left : (row.complete response.withFreshPiv env).2 = some row') : row.Keeps row' :=
    complete_keeps pending left
  refine lapsed.spent here (follows_set here keeps).evolves fun row' there _ => ?_
  obtain ⟨-, new⟩ | ⟨other, -⟩ := of_set there
  · exact complete_ok ok new
  · exact absurd rfl other

theorem Sound.spent_of_cancel (sound : s.Sound) {env : RowAnswers}
    (cancelled : (s.cancelDeferred handle env).1 = true) :
    Spent handle (s.cancelDeferred handle env).2 := by
  obtain unchanged | ⟨i, row, here, rfl, cleared⟩ := s.cancel_cases handle env
  · rw [unchanged] at cancelled
    cases cancelled
  have follows := s.follows_cancel row.handle env
  refine sound.spent here follows.evolves fun row' there _ => ?_
  rw [cleared] at there
  obtain ⟨-, ⟨⟩⟩ | ⟨other, -⟩ := of_set there
  exact absurd rfl other

theorem Sound.due_of_dispatch (sound : s.Sound) {d : Deferral η maxLen}
    (issued : (s.dispatch nonce (some d)).1 = some handle) :
    Due handle d.deadlineMs (s.dispatch nonce (some d)).2 := by
  obtain ⟨none, -⟩ | ⟨d', handle', i, same, number, inserted⟩ := s.dispatch_cases nonce (some d)
  · rw [none] at issued
    cases issued
  cases same
  rw [inserted] at issued ⊢
  cases issued
  refine ⟨number.le, fun j row there named => ?_⟩
  obtain ⟨-, ⟨⟩⟩ | ⟨-, old⟩ := of_set there
  · rfl
  have := sound.issued j row old
  rw [named, number] at this
  omega

/-! ### Runs -/

section Runs

variable [DecidableEq η]

theorem step_cases (s : DeferredTable η maxLen) (event : Event η maxLen) :
    s.Follows (s.step event) ∨ ∃ nonce deferral, event = .dispatch nonce deferral := by
  cases event with
  | expire nowMs env => exact .inl (s.follows_expire nowMs env)
  | supersede token peer env
  | reject mid peer nowMs env =>
    exact .inl (follows_of_subset fun i row => retire_subset _ _ _ i row)
  | removePeer peer => exact .inl (s.follows_removePeer peer)
  | dispatch nonce deferral => exact .inr ⟨nonce, deferral, rfl⟩
  | complete handle response nowMs env => exact .inl (s.follows_complete handle response nowMs env)
  | cancel handle env => exact .inl (s.follows_cancel handle env)

theorem Sound.step (sound : s.Sound) (event : Event η maxLen) : (s.step event).Sound := by
  obtain follows | ⟨nonce, deferral, rfl⟩ := s.step_cases event
  · exact follows.sound sound
  · exact sound.dispatch nonce deferral

theorem evolves_step (s : DeferredTable η maxLen) (event : Event η maxLen) :
    s.Evolves (s.step event) := by
  obtain follows | ⟨nonce, deferral, rfl⟩ := s.step_cases event
  · exact follows.evolves
  · exact s.evolves_dispatch nonce deferral

theorem sound_reached (n : Nat) (events : List (Event η maxLen)) :
    (run step (new n) events).Sound := by
  refine invariant_run (fun s event sound => sound.step event) ⟨?_, distinct_replicate_none n⟩ events
  intro i row here
  have := List.mem_of_getElem? here
  simp [new] at this

/-- From here on the handle is refused, whatever happens. -/
def Refuses (t : DeferredTable η maxLen) (handle : DeferredReply) : Prop :=
  ∀ later response nowMs env, ((run step t later).complete handle response nowMs env).1 ≠ .ok ()

theorem Spent.refuses (spent : Spent handle s) : s.Refuses handle := by
  intro later response nowMs env ok
  have still :=
    invariant_run (fun s event spent => spent.evolves (s.evolves_step event)) spent later
  obtain ⟨i, row, here, accepts⟩ := accepted_of_ok ok
  obtain ⟨named, pending, -⟩ := accepts_iff.mp accepts
  have done := still.completed i row here named
  rw [pending] at done
  cases done

theorem evolves_run (s : DeferredTable η maxLen) (events : List (Event η maxLen)) :
    s.Evolves (run step s events) := by
  refine invariant_run (fun t event h => ?_) (Follows.evolves (follows_of_subset fun _ _ => id)) events
  have h' := t.evolves_step event
  refine ⟨h.generation.trans h'.generation, fun i row'' here => ?_⟩
  obtain ⟨row', there, keeps'⟩ | newer := h'.kept i row'' here
  · obtain ⟨row, before, keeps⟩ | newer := h.kept i row' there
    · exact .inl ⟨row, before, keeps.trans keeps'⟩
    · exact .inr (keeps'.handle ▸ newer)
  · exact .inr (h.generation.trans_lt newer)

/-- In every run a handle completes at most once, and not after it was cancelled, nor when its
deadline has passed, nor when its slot is free or another row's. The row of a handle that was just
issued finds a slot. -/
theorem completes_at_most_once (n : Nat) (before : List (Event η maxLen)) :
    let s : DeferredTable η maxLen := run step (new n) before
    (∀ handle response nowMs env, (s.complete handle response nowMs env).1 = .ok () →
        (s.complete handle response nowMs env).2.Refuses handle) ∧
      (∀ handle env, (s.cancelDeferred handle env).1 = true →
        (s.cancelDeferred handle env).2.Refuses handle) ∧
      (∀ nonce d handle, (s.dispatch nonce (some d)).1 = some handle →
        ∀ later response nowMs env, d.deadlineMs ≤ nowMs →
          ((run step (s.dispatch nonce (some d)).2 later).complete handle response nowMs env).1 ≠
            .ok ()) ∧
      (∀ i row between, s.At i row →
        (∀ row', (run step s between).At i row' → row'.handle = row.handle →
          row'.completed = true) →
        (run step s between).Refuses row.handle) ∧
      ∀ nonce handle t, s.candidate nonce = (.ok (some handle), t) →
        ∀ reply deadlineMs selection qSelectors observe,
          (t.insert handle reply deadlineMs selection qSelectors observe).isSome := by
  intro s
  have sound : s.Sound := sound_reached n before
  refine ⟨?_, ?_, ?_, ?_, ?_⟩
  · intro handle response nowMs env ok
    exact (sound.spent_of_ok ok).refuses
  · intro handle env cancelled
    exact (sound.spent_of_cancel cancelled).refuses
  · intro nonce d handle issued later response nowMs env late ok
    have due := (sound.due_of_dispatch issued).evolves (evolves_run _ later)
    obtain ⟨i, row, here, accepts⟩ := accepted_of_ok ok
    obtain ⟨named, -, early⟩ := DeferredRow.accepts_iff.mp accepts
    have := due.due i row here named
    omega
  · intro i row between here ended
    exact (sound.spent here (s.evolves_run between) ended).refuses
  intro nonce handle t issued reply deadlineMs selection qSelectors observe
  obtain ⟨rows, ⟨i, free⟩, -⟩ := candidate_some issued
  have free' : t.rows.findIdx? (·.isNone) = some i := by rw [rows]; exact free
  simp only [insert, free', Option.isSome_some]

/-- No two rows share a handle, and none comes back: a later row is the one that stood in its place,
with its handle and deadline and no reply taken back, or its handle is newer than all before. -/
theorem rows_keep_handles (n : Nat) (before later : List (Event η maxLen)) :
    let s : DeferredTable η maxLen := run step (new n) before
    let t := run step s later
    (∀ i j row row', t.At i row → t.At j row' → row.handle = row'.handle → i = j) ∧
      ∀ i row', t.At i row' →
        (∃ row, s.At i row ∧ row'.handle = row.handle ∧ row'.deadlineMs = row.deadlineMs ∧
          (row.completed = true → row'.completed = true)) ∨
        ∀ j row, s.At j row → row.handle.generation < row'.handle.generation := by
  intro s t
  have sound : t.Sound := by
    have := sound_reached n (before ++ later)
    rwa [run_append] at this
  constructor
  · intro i j row row' here there same
    exact sound.distinct i j row row' here there (congrArg (·.generation) same)
  · intro i row' here
    obtain ⟨row, was, keeps⟩ | newer := (s.evolves_run later).kept i row' here
    · exact .inl ⟨row, was, keeps.handle, keeps.deadlineMs, keeps.completed⟩
    · exact .inr fun j row was => ((sound_reached n before).issued j row was).trans_lt newer

end Runs

def sampleDeferral : Deferral Nat 8 where
  reply :=
    { dest := 1, ty := .confirmable, mid := 7, token := ⟨[1], Nat.succ_pos _⟩, noResponse := ⟨0⟩
      block2 := none, qBlock2 := none, qRequest := none, block1 := none, oscore := none
      request := .get }
  nowMs := 0
  lifetimeMs := 10000
  selection := []
  qSelectors := []
  observe := none

def sampleAnswers : ReplyAnswers where
  rows _ := ⟨true, true, false, .ok ()⟩
  observed := (.ok (), none, false, none)
  metadata := .ok ⟨[], .new .content⟩
  completedQ := (.ok (), none)
  separate := .ok ()
  body := none

/-- Two requests with one nonce share a slot in turn, and the second is completed: its handle is
refused from then on. -/
theorem completes_at_most_once_sample : let nonce : Token := ⟨[9], by decide⟩
    let complete (generation nowMs : Nat) : Event Nat 8 :=
      .complete ⟨nonce, generation⟩ (.new .content) nowMs sampleAnswers
    let s : DeferredTable Nat 8 :=
      run step (new 1)
        [.dispatch (some nonce) (some sampleDeferral), complete 1 5,
          .dispatch (some nonce) (some sampleDeferral)]
    (s.complete ⟨nonce, 2⟩ (.new .content) 6 sampleAnswers).1 = .ok () ∧
      (s.complete ⟨nonce, 2⟩ (.new .content) 6 sampleAnswers).2.Refuses ⟨nonce, 2⟩ := by
  intro nonce complete s
  have ok : (s.complete ⟨nonce, 2⟩ (.new .content) 6 sampleAnswers).1 = .ok () := rfl
  exact ⟨ok, (completes_at_most_once 1 _).1 _ _ _ _ ok⟩

end DeferredTable

end Coaptic.App
