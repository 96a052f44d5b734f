import Coaptic.Receipts.Journal

/-!
# Durability of receipts

What holds in every run of the journal's owners, through failed writes, crashes and reopenings.
The file holds the rows that were acknowledged and perhaps part of one record more; every other
result follows from that.
-/
namespace Coaptic.Receipts

open Run List World Row

variable {blake3 : Blake3}

/-! ### The invariant -/

/-- The file holds the acknowledged rows, and perhaps some of one record more. A process holds the
same rows, and is certain only if there is nothing more. -/
structure Kept (blake3 : Blake3) (ops : List TelemetryOperation) (capacity : Nat) (w : World) :
    Prop where
  positive : 1 ≤ capacity
  most : capacity ≤ maxRows
  recorded : Recorded blake3 ops w.acknowledged
  fits : w.acknowledged.length ≤ capacity
  synced : w.disk.synced = header blake3 capacity ++ recordBytes w.acknowledged
  appended : w.disk.appended = [] ∨ ∃ row, w.disk.appended = row.bytes ∧
    Recorded blake3 ops (w.acknowledged ++ [row]) ∧ w.acknowledged.length < capacity
  owner : ∀ journal, w.journal = some journal → journal.capacity = capacity ∧
    journal.rows = w.acknowledged ∧ (journal.uncertain = false → w.disk.appended = [])

namespace Kept

variable {ops : List TelemetryOperation} {capacity : Nat} {w : World}

theorem mono {ops' : List TelemetryOperation} (kept : Kept blake3 ops capacity w)
    (sub : ops ⊆ ops') : Kept blake3 ops' capacity w :=
  { kept with
    recorded := kept.recorded.mono sub
    appended := by
      rcases kept.appended with none | ⟨row, appended, recorded, room⟩
      · exact .inl none
      · exact .inr ⟨row, appended, recorded.mono sub, room⟩ }

/-- What opening the file comes to. -/
theorem openFile_cases (kept : Kept blake3 ops capacity w) (syncs : Bool) :
    (∃ e, Journal.openFile blake3 w.disk.content syncs = .error e) ∨
      ∃ rows, Journal.openFile blake3 w.disk.content syncs = .ok ⟨rows, capacity, false⟩ ∧
        Recorded blake3 ops rows ∧ rows.length ≤ capacity ∧
        w.disk.content = header blake3 capacity ++ recordBytes rows ∧
        (rows = w.acknowledged ∨ ∃ row, w.disk.appended = row.bytes ∧ recordLen ≤ w.disk.kept ∧
          rows = w.acknowledged ++ [row]) := by
  have opened {rows : List Row} (recorded : Recorded blake3 ops rows) (fits : rows.length ≤ capacity)
      (content : w.disk.content = header blake3 capacity ++ recordBytes rows) :
      (∃ e, Journal.openFile blake3 w.disk.content syncs = .error e) ∨
        Journal.openFile blake3 w.disk.content syncs = .ok ⟨rows, capacity, false⟩ := by
    have opened := Journal.openFile_recorded kept.positive kept.most recorded fits syncs
    rw [← content] at opened
    cases syncs with
    | false => exact .inl ⟨_, opened⟩
    | true => exact .inr opened
  -- Nothing, something or all of a record is in the file.
  by_cases empty : w.disk.appended.take w.disk.kept = []
  · have content : w.disk.content = header blake3 capacity ++ recordBytes w.acknowledged := by
      rw [Disk.content, empty, append_nil, kept.synced]
    exact (opened kept.recorded kept.fits content).imp_right fun ok =>
      ⟨_, ok, kept.recorded, kept.fits, content, .inl rfl⟩
  rcases kept.appended with none | ⟨row, appended, recorded, room⟩
  · exact absurd (by rw [none, take_nil]) empty
  rcases Nat.lt_or_ge w.disk.kept recordLen with short | all
  · have size : (w.disk.appended.take w.disk.kept).length = w.disk.kept := by
      rw [appended, length_take, row.length_eq]
      omega
    have torn : Journal.openFile blake3 (header blake3 capacity ++ (recordBytes w.acknowledged ++
        w.disk.appended.take w.disk.kept)) syncs = .error .corrupt :=
      Journal.openFile_torn kept.positive kept.most (length_pos_of_ne_nil empty)
        (size.symm ▸ short) syncs
    rw [← append_assoc, ← kept.synced] at torn
    exact .inl ⟨_, torn⟩
  have content : w.disk.content =
      header blake3 capacity ++ recordBytes (w.acknowledged ++ [row]) := by
    rw [Disk.content, kept.synced, appended, take_of_length_le (row.length_eq ▸ all),
      recordBytes_concat, append_assoc]
  have fits : (w.acknowledged ++ [row]).length ≤ capacity := by
    rw [length_append, length_singleton]
    omega
  exact (opened recorded fits content).imp_right fun ok =>
    ⟨_, ok, recorded, fits, content, .inr ⟨row, appended, all, rfl⟩⟩

theorem openFile (kept : Kept blake3 ops capacity w) (policy : Policy) (syncs : Bool) :
    Kept blake3 ops capacity (w.openFile blake3 policy syncs).2 := by
  rw [World.openFile]
  split
  · exact kept
  rcases kept.openFile_cases syncs with ⟨e, refused⟩ | ⟨rows, opened, recorded, fits, content, -⟩
  · rw [refused]
    exact kept
  rw [opened]
  refine ⟨kept.positive, kept.most, recorded, fits, content, .inl rfl, fun journal owner => ?_⟩
  cases owner
  exact ⟨rfl, rfl, fun _ => rfl⟩

end Kept

/-- What a commit comes to: nothing happens and there is no receipt, the receipt of a row that is
there, a write that fails, or a new row. -/
inductive Commits (blake3 : Blake3) (ops : List TelemetryOperation) (capacity : Nat) (w : World)
    (p : Principal) (op : TelemetryOperation) : Option (Except ReceiptError Receipt) → World → Prop
  | refused {outcome} : (∀ receipt, outcome ≠ some (.ok receipt)) →
      Commits blake3 ops capacity w p op outcome w
  | found {row} : row ∈ w.acknowledged → row.principal = p → row.id = op.id →
      row.digest = op.digest blake3 → Commits blake3 ops capacity w p op (some (.ok row.receipt)) w
  | failed {journal row kept} : w.journal = some journal →
      row = Row.new blake3 p op (w.acknowledged.length + 1) →
      w.acknowledged.length < capacity → Recorded blake3 ops (w.acknowledged ++ [row]) →
      Commits blake3 ops capacity w p op (some (.error (.persistence .io)))
        { w with
          disk := { w.disk with appended := row.bytes, kept }
          journal := some { journal with uncertain := true } }
  | written {row} : row = Row.new blake3 p op (w.acknowledged.length + 1) →
      w.acknowledged.length < capacity → Recorded blake3 ops (w.acknowledged ++ [row]) →
      Commits blake3 ops capacity w p op (some (.ok row.receipt))
        { w with
          disk := ⟨header blake3 capacity ++ recordBytes (w.acknowledged ++ [row]), [], 0⟩
          journal := some ⟨w.acknowledged ++ [row], capacity, false⟩
          acknowledged := w.acknowledged ++ [row] }

namespace Kept

variable {ops : List TelemetryOperation} {capacity : Nat} {w : World}

variable {op : TelemetryOperation}

theorem commits (kept : Kept blake3 ops capacity w) (expected : TrustAnchor) (p : Principal)
    (known : op ∈ ops) (fault : Option Fault) :
    Commits blake3 ops capacity w p op (w.commit blake3 expected p op fault).1
      (w.commit blake3 expected p op fault).2 := by
  cases owner : w.journal with
  | none =>
    simp only [commit, owner]
    exact .refused (by simp)
  | some journal =>
  obtain ⟨disk, policy, owned, acknowledged⟩ := w
  cases owner
  obtain ⟨size, rows, certain⟩ := kept.owner journal rfl
  dsimp only at rows certain
  subst rows
  simp only [commit]
  rcases journal.commit_cases blake3 disk policy expected p op fault with
    ⟨e, refused⟩ | ⟨row, found, same, answered⟩ | ⟨sure, fresh, room, appends⟩
  · rw [refused]
    exact .refused (by simp)
  · rw [answered]
    have named := find?_some found
    simp only [Bool.and_eq_true, decide_eq_true_eq] at named
    exact .found (mem_of_find?_eq_some found) named.1 named.2 same
  -- The file ends where the journal does, since nothing is left of an earlier write.
  rw [appends]
  have none_left := certain sure
  have content : disk.content = header blake3 capacity ++ recordBytes journal.rows := by
    rw [Disk.content, none_left, take_nil, append_nil]
    exact kept.synced
  have ends : ¬disk.content.length ≠ headerLen + journal.rows.length * recordLen := by
    rw [content, length_append, length_recordBytes]
    simp [header, magic, headerLen]
  have below : journal.rows.length < capacity := by
    have := kept.fits
    dsimp only at this
    omega
  have unnamed (row : Row) (member : row ∈ journal.rows) :
      ¬(row.principal = p ∧ row.id = op.id) := by
    intro same
    have := find?_eq_none.mp fresh row member
    simp [same] at this
  have recorded : Recorded blake3 ops
      (journal.rows ++ [new blake3 p op (journal.rows.length + 1)]) :=
    Recorded.concat kept.recorded known (below.trans_le kept.most) unnamed
  generalize new : new blake3 p op (journal.rows.length + 1) = row at recorded
  rcases journal.append_cases row fault (not_not.mp ends) with ⟨left, fails⟩ | writes
  · rw [fails]
    exact Commits.failed rfl new.symm below recorded
  rw [writes, content, append_assoc, ← recordBytes_concat]
  obtain ⟨rows, room, uncertain⟩ := journal
  cases sure
  cases size
  exact Commits.written new.symm below recorded

theorem commit (kept : Kept blake3 ops capacity w) (expected : TrustAnchor) (p : Principal)
    (known : op ∈ ops) (fault : Option Fault) :
    Kept blake3 ops capacity (w.commit blake3 expected p op fault).2 := by
  have commits := kept.commits expected p known fault
  generalize (w.commit blake3 expected p op fault).2 = w' at commits
  generalize (w.commit blake3 expected p op fault).1 = outcome at commits
  cases commits with
  | refused => exact kept
  | found => exact kept
  | @failed journal row _ owner new below recorded =>
    refine ⟨kept.positive, kept.most, kept.recorded, kept.fits, kept.synced,
      .inr ⟨row, rfl, recorded, below⟩, fun journal' owner' => ?_⟩
    cases owner'
    obtain ⟨size, rows, -⟩ := kept.owner journal owner
    exact ⟨size, rows, fun sure => by cases sure⟩
  | written new below recorded =>
  refine ⟨kept.positive, kept.most, recorded, ?_, rfl, .inl rfl, fun journal owner => ?_⟩
  · rw [length_append, length_singleton]
    omega
  · cases owner
    exact ⟨rfl, rfl, fun _ => rfl⟩

end Kept

/-! ### Runs keep what was acknowledged -/

def Event.operation : Event → Option TelemetryOperation
  | .commit _ _ op _ => some op
  | _ => none

def operations (events : List Event) : List TelemetryOperation := events.filterMap Event.operation

section Runs

variable {ops : List TelemetryOperation} {capacity : Nat} {w : World}

section

variable (kept : Kept blake3 ops capacity w) (event : Event) (known : ∀ op ∈ event.operation, op ∈ ops)
include kept event known

theorem Kept.step : Kept blake3 ops capacity (w.step blake3 event) := by
  cases event with
  | commit expected p op fault => exact kept.commit expected p (known op rfl) fault
  | replace next =>
    simp only [step]
    split
    · exact kept
    · exact { kept with }
  | crash left =>
    exact { kept with owner := fun journal owner => by cases owner }
  | openFile policy syncs => exact kept.openFile policy syncs

/-- Rows that were acknowledged are never given up. -/
theorem Kept.acknowledged_step : w.acknowledged <+: (w.step blake3 event).acknowledged := by
  cases event with
  | commit expected p op fault =>
    have commits := kept.commits expected p (known op rfl) fault
    simp only [World.step]
    generalize (w.commit blake3 expected p op fault).2 = w' at commits
    generalize (w.commit blake3 expected p op fault).1 = outcome at commits
    cases commits with
    | refused => exact prefix_refl _
    | found => exact prefix_refl _
    | failed => exact prefix_refl _
    | written => exact prefix_append _ _
  | replace next =>
    simp only [World.step]
    split <;> exact prefix_refl _
  | crash left => exact prefix_refl _
  | openFile policy syncs =>
  simp only [World.step, World.openFile]
  split
  · exact prefix_refl _
  rcases kept.openFile_cases syncs with ⟨e, refused⟩ | ⟨rows, opened, -, -, -, origin⟩
  · rw [refused]
  rw [opened]
  rcases origin with rfl | ⟨row, -, -, rfl⟩
  · exact prefix_refl _
  · exact prefix_append _ _

end

theorem Kept.run (kept : Kept blake3 ops capacity w) (events : List Event)
    (known : operations events ⊆ ops) :
    Kept blake3 ops capacity (run (World.step blake3) w events) ∧
      w.acknowledged <+: (run (World.step blake3) w events).acknowledged := by
  induction events generalizing w with
  | nil => exact ⟨kept, prefix_refl _⟩
  | cons event rest ih =>
  have here : ∀ op ∈ event.operation, op ∈ ops := by
    intro op is
    exact known (mem_filterMap.mpr ⟨event, mem_cons_self, is⟩)
  have later : operations rest ⊆ ops := by
    intro op member
    obtain ⟨e, inRest, is⟩ := mem_filterMap.mp member
    exact known (mem_filterMap.mpr ⟨e, mem_cons_of_mem _ inRest, is⟩)
  obtain ⟨kept', grows⟩ := ih (kept.step event here) later
  exact ⟨kept', (kept.acknowledged_step event here).trans grows⟩

theorem kept_create {policy : Policy} (created : World.create blake3 capacity policy = .ok w) :
    Kept blake3 ops capacity w := by
  simp only [create] at created
  split at created
  next bounds =>
    cases created
    refine ⟨bounds.1, bounds.2, ⟨by simp, .nil, Nat.zero_le _⟩, Nat.zero_le _, ?_, .inl rfl,
      fun journal owner => ?_⟩
    · simp [recordBytes]
    · cases owner
      exact ⟨rfl, rfl, fun _ => rfl⟩
  · cases created

end Runs

/-! ### Exactly once -/

section Answers

variable {ops : List TelemetryOperation} {capacity : Nat} {w : World} {row : Row}

variable {journal : Journal} {op : TelemetryOperation}

section

variable (kept : Kept blake3 ops capacity w)
include kept

/-- The row of a name is what the owner finds. -/
theorem Kept.find (owner : w.journal = some journal) (member : row ∈ w.acknowledged) :
    journal.find row.principal row.id = some row := by
  have rows := (kept.owner journal owner).2.1
  rw [Journal.find, rows]
  cases found : w.acknowledged.find? (fun r => r.principal = row.principal && r.id = row.id) with
  | none =>
    have := find?_eq_none.mp found row member
    simp at this
  | some other =>
  have named := find?_some found
  simp only [Bool.and_eq_true, decide_eq_true_eq] at named
  rw [kept.recorded.unique (mem_of_find?_eq_some found) member (key_inj.mpr named)]

section

variable (owner : w.journal = some journal) (sure : journal.uncertain = false)
  (member : row ∈ w.acknowledged)
include owner sure member

theorem Kept.lookup :
    journal.lookupReceipt row.principal row.id row.resource row.digest = .ok (some row.receipt) := by
  simp only [Journal.lookupReceipt, sure, Bool.false_eq_true, if_false, kept.find owner member]
  simp [receipt]

/-- A commit of a name that is known is answered from its row. -/
theorem Kept.commit_known (named : row.id = op.id) {expected : TrustAnchor}
    (permitted : w.policy.authorizes expected row.principal op = true) {fault : Option Fault}
    (sane : fault ≠ some .poisoned) : (w.commit blake3 expected row.principal op fault).1 =
      some (if row.digest = op.digest blake3 then .ok row.receipt else .error .conflict) := by
  have found := kept.find owner member
  rw [named] at found
  simp only [World.commit, owner, Journal.commit, sure, Bool.false_eq_true, if_false, sane, permitted,
    Bool.not_true, found]
  by_cases same : row.receipt.digest = op.digest blake3
  · rw [if_pos same, if_pos (show row.digest = _ from same)]
  · rw [if_neg same, if_neg (show ¬row.digest = _ from same)]

end

/-- Other content under a known name is never written. -/
theorem Kept.commit_other (member : row ∈ w.acknowledged) (known : op ∈ ops)
    (named : row.id = op.id) (differs : row.digest ≠ op.digest blake3) (expected : TrustAnchor)
    (fault : Option Fault) :
    (∀ receipt, (w.commit blake3 expected row.principal op fault).1 ≠ some (.ok receipt)) ∧
      (w.commit blake3 expected row.principal op fault).2 = w := by
  have taken {new : Row} (is : new = Row.new blake3 row.principal op (w.acknowledged.length + 1)) :
      ¬Recorded blake3 ops (w.acknowledged ++ [new]) := by
    intro recorded
    have apart := (pairwise_append.mp recorded.named).2.2 row member new
      (mem_singleton_self new)
    rw [Ne, key_inj, is, principal_new, id_new] at apart
    exact apart ⟨rfl, named⟩
  have commits := kept.commits expected row.principal known fault
  generalize (w.commit blake3 expected row.principal op fault).2 = w' at commits ⊢
  generalize (w.commit blake3 expected row.principal op fault).1 = outcome at commits ⊢
  cases commits with
  | refused none => exact ⟨none, rfl⟩
  | @found other there principal name same =>
    have : other = row := kept.recorded.unique there member
      (key_inj.mpr ⟨principal, name.trans named.symm⟩)
    exact absurd (this ▸ same) differs
  | failed _ new _ recorded => exact absurd recorded (taken new)
  | written new _ recorded => exact absurd recorded (taken new)

end

end Answers

/-! ### After a failed write -/

/-- The owner does not know what became of its last write. -/
def World.Awaits (w : World) : Prop :=
  ∃ journal, w.journal = some journal ∧ journal.uncertain = true

variable {w : World} {expected : TrustAnchor} {p : Principal} {op : TelemetryOperation}
  {kept : Nat}

theorem World.Awaits.commit (awaits : w.Awaits) (expected : TrustAnchor) (p : Principal)
    (op : TelemetryOperation) (fault : Option Fault) :
    w.commit blake3 expected p op fault = (some (.error (.persistence .needsRecovery)), w) := by
  obtain ⟨journal, owner, uncertain⟩ := awaits
  obtain ⟨disk, policy, owned, acknowledged⟩ := w
  cases owner
  simp only [commit, Journal.commit, uncertain, if_true]
  rfl

theorem World.Awaits.step (awaits : w.Awaits) {event : Event} (runs : ∀ kept, event ≠ .crash kept) :
    (w.step blake3 event).Awaits := by
  cases event with
  | commit expected p op fault =>
    rw [World.step, awaits.commit]
    exact awaits
  | replace next =>
    obtain ⟨journal, owner, uncertain⟩ := awaits
    simp only [World.step]
    split <;> exact ⟨journal, owner, uncertain⟩
  | crash kept => exact absurd rfl (runs kept)
  | openFile policy syncs =>
  obtain ⟨journal, owner, uncertain⟩ := awaits
  simp only [World.step, World.openFile, owner, Option.isSome_some, if_true]
  exact ⟨journal, owner, uncertain⟩

theorem World.Awaits.run (awaits : w.Awaits) {events : List Event}
    (runs : ∀ event ∈ events, ∀ kept, event ≠ .crash kept) :
    (Run.run (World.step blake3) w events).Awaits :=
  invariant_of_meets (fun _ _ awaits runs => awaits.step runs) awaits (meets_of_forall runs w)

theorem Journal.uncertain_of_failed {journal : Journal} {disk : Disk} {policy : Policy}
    (failed : (journal.commit blake3 disk policy expected p op (some (.failed kept))).1 = .error
      (.persistence .io)) :
    (journal.commit blake3 disk policy expected p op (some (.failed kept))).2.1.uncertain = true := by
  have appended (row : Row) :
      (journal.append disk row (some (.failed kept))).2.1.uncertain = true := by
    unfold append
    split <;> rfl
  simp only [commit, reduceCtorEq, if_false, Option.some.injEq] at failed ⊢
  split
  next uncertain => exact uncertain
  next certain =>
  rw [if_neg certain] at failed
  split
  next refused =>
    rw [if_pos refused] at failed
    cases failed
  next permitted =>
  rw [if_neg permitted] at failed
  cases found : journal.find p op.id with
  | some row =>
    simp only [found] at failed
    split at failed <;> cases failed
  | none =>
  simp only [found] at failed ⊢
  split
  next full =>
    rw [if_pos full] at failed
    cases failed
  · exact appended _

/-- A write that fails leaves the owner waiting. -/
theorem awaits_of_failed (failed : (w.commit blake3 expected p op
    (some (.failed kept))).1 = some (.error (.persistence .io))) :
    (w.commit blake3 expected p op (some (.failed kept))).2.Awaits := by
  cases owner : w.journal with
  | none =>
    simp only [commit, owner] at failed
    cases failed
  | some journal =>
  simp only [commit, owner, Option.some.injEq] at failed
  simp only [commit, owner]
  exact ⟨_, rfl, Journal.uncertain_of_failed failed⟩

/-- No two of the operations have one digest and different content. -/
def CollisionFree (blake3 : Blake3) (ops : List TelemetryOperation) : Prop :=
  ∀ op ∈ ops, ∀ op' ∈ ops, op.digest blake3 = op'.digest blake3 →
    op.resource = op'.resource ∧ op.contentFormat = op'.contentFormat ∧ op.payload = op'.payload

/-- Every receipt that a commit has returned is returned again, by a repeated commit and by a
lookup, whenever the journal has an owner that answers, whatever happened in between. -/
theorem Kept.returned {ops : List TelemetryOperation} {capacity : Nat}
    (kept : Kept blake3 ops capacity w) (free : CollisionFree blake3 ops) (known : op ∈ ops)
    {fault : Option Fault} {receipt : Receipt}
    (committed : (w.commit blake3 expected p op fault).1 = some (.ok receipt)) :
    ∃ row ∈ (w.commit blake3 expected p op fault).2.acknowledged, row.principal = p ∧
      row.id = op.id ∧ row.resource = op.resource ∧ row.digest = op.digest blake3 ∧
      row.receipt = receipt := by
  have commits := kept.commits expected p known fault
  generalize (w.commit blake3 expected p op fault).2 = w' at commits ⊢
  rw [committed] at commits
  cases commits with
  | refused none => exact absurd rfl (none receipt)
  | @found row member principal name same =>
    -- The row has the digest of the operation, so it has its resource.
    obtain ⟨i, here⟩ := mem_iff_getElem?.mp member
    obtain ⟨p', op', known', new⟩ := kept.recorded.written i row here
    have digests : op'.digest blake3 = op.digest blake3 := by
      rw [← same, new, digest_new]
    refine ⟨row, member, principal, name, ?_, same, rfl⟩
    rw [new, resource_new]
    exact (free op' known' op known digests).1
  | @written row new below recorded =>
  refine ⟨row, mem_append_right _ (mem_singleton_self row), ?_⟩
  rw [new, principal_new, id_new, resource_new, digest_new]
  exact ⟨rfl, rfl, rfl, rfl, rfl⟩

/-- The journal of every run, through any failures, crashes and reopenings: a name has one row, a
receipt that was returned stays what it is, other content under a known name is refused, opening
recovers what was acknowledged and at most one record more, and a failed write silences the owner
until the file is opened again. -/
theorem exactly_once {capacity : Nat} {policy : Policy} {start : World}
    (created : World.create blake3 capacity policy = .ok start) (events : List Event) :
    let w := run (World.step blake3) start events
    (∀ journal, w.journal = some journal → journal.rows.Pairwise fun row other =>
        ¬(row.principal = other.principal ∧ row.id = other.id)) ∧
      (∀ expected p op fault receipt, CollisionFree blake3 (op :: operations events) →
        (w.commit blake3 expected p op fault).1 = some (.ok receipt) →
        ∀ later, let w' := run (World.step blake3) (w.commit blake3 expected p op fault).2 later
          ∀ journal, w'.journal = some journal → journal.uncertain = false →
            journal.lookupReceipt p op.id op.resource (op.digest blake3) = .ok (some receipt) ∧
            ∀ expected' fault', fault' ≠ some .poisoned →
              w'.policy.authorizes expected' p op = true →
                (w'.commit blake3 expected' p op fault').1 = some (.ok receipt)) ∧
      (∀ expected op fault, ∀ row ∈ w.acknowledged, row.id = op.id →
        row.digest ≠ op.digest blake3 →
          (∀ receipt, (w.commit blake3 expected row.principal op fault).1 ≠ some (.ok receipt)) ∧
          (w.commit blake3 expected row.principal op fault).2 = w ∧
          ∀ journal, w.journal = some journal → journal.uncertain = false →
            fault ≠ some .poisoned → w.policy.authorizes expected row.principal op = true →
              (w.commit blake3 expected row.principal op fault).1 = some (.error .conflict)) ∧
      (∀ policy syncs journal, (w.openFile blake3 policy syncs).1 = .ok journal →
        journal.rows = w.acknowledged ∨
          ∃ row, w.disk.appended = row.bytes ∧ recordLen ≤ w.disk.kept ∧
            journal.rows = w.acknowledged ++ [row]) ∧
      ∀ expected p op kept, (w.commit blake3 expected p op (some (.failed kept))).1 =
          some (.error (.persistence .io)) →
        ∀ later, (∀ event ∈ later, ∀ kept, event ≠ .crash kept) →
          let w' := run (World.step blake3) (w.commit blake3 expected p op
            (some (.failed kept))).2 later
          ∃ journal, w'.journal = some journal ∧
            (∀ expected p op fault, (w'.commit blake3 expected p op fault).1 =
              some (.error (.persistence .needsRecovery))) ∧
            (∀ p id resource digest, journal.lookupReceipt p id resource digest =
              .error (.persistence .needsRecovery)) ∧
            journal.effects = .error .needsRecovery := by
  intro w
  have kept : Kept blake3 (operations events) capacity w :=
    ((kept_create created).run events (List.Subset.refl _)).1
  refine ⟨?_, ?_, ?_, ?_, ?_⟩
  · intro journal owner
    rw [(kept.owner journal owner).2.1]
    exact kept.recorded.named.imp fun apart same => apart (Row.key_inj.mpr same)
  · intro expected p op fault receipt free committed later w' journal owner sure
    have before : Kept blake3 (op :: operations events) capacity w :=
      kept.mono (List.subset_cons_self _ _)
    obtain ⟨row, member, rfl, name, resource, digest, rfl⟩ :=
      before.returned free List.mem_cons_self committed
    have after : Kept blake3 (op :: operations events ++ operations later) capacity _ :=
      (before.commit expected row.principal List.mem_cons_self fault).mono
        (List.subset_append_left _ _)
    obtain ⟨kept', grows⟩ := after.run later (List.subset_append_right _ _)
    have held := grows.subset member
    constructor
    · rw [← name, ← resource, ← digest]
      exact kept'.lookup owner sure held
    · intro expected' fault' sane permitted
      rw [kept'.commit_known owner sure held name permitted sane, if_pos digest]
  · intro expected op fault row member named differs
    have before : Kept blake3 (op :: operations events) capacity w :=
      kept.mono (List.subset_cons_self _ _)
    obtain ⟨none, unchanged⟩ :=
      before.commit_other member List.mem_cons_self named differs expected fault
    refine ⟨none, unchanged, fun journal owner sure sane permitted => ?_⟩
    rw [kept.commit_known owner sure member named permitted sane, if_neg differs]
  · intro policy syncs journal opened
    simp only [World.openFile] at opened
    split at opened
    · cases opened
    rcases kept.openFile_cases syncs with ⟨e, refused⟩ | ⟨rows, recovered, -, -, -, origin⟩
    · rw [refused] at opened
      cases opened
    rw [recovered] at opened
    cases opened
    exact origin
  · intro expected p op left failed later runs w'
    have awaits : w'.Awaits := (awaits_of_failed failed).run runs
    obtain ⟨journal, owner, uncertain⟩ := awaits
    refine ⟨journal, owner, fun expected p op fault => ?_, fun p id resource digest => ?_, ?_⟩
    · rw [World.Awaits.commit ⟨journal, owner, uncertain⟩]
    · rw [Journal.lookupReceipt, if_pos uncertain]
    · rw [Journal.effects, if_pos uncertain]

/-- A hash that tells operations apart by the last byte of their payload. -/
def sampleBlake3 : Blake3 := ⟨fun _ => .fill 32 0, fun bytes => .fill 32 (bytes.getLastD 0)⟩

def samplePolicy : Policy := ⟨⟨.fill 32 0, 1, .fill 32 0⟩, .fill 32 0, .fill 32 0, true⟩

def sampleOperation (byte : UInt8) : TelemetryOperation :=
  ⟨.fill 16 byte, .fill 32 0, none, [byte], by simp [maxPayload]⟩

/-- The second of two receipts is found again after a crash that follows its commit. -/
theorem exactly_once_sample :
    let start : World := ⟨⟨header sampleBlake3 2, [], 0⟩, samplePolicy, some ⟨[], 2, false⟩, []⟩
    let earlier : Event := .commit samplePolicy.anchor samplePolicy.principal (sampleOperation 9) none
    let committed := (run (World.step sampleBlake3) start [earlier]).commit sampleBlake3
      samplePolicy.anchor samplePolicy.principal (sampleOperation 7) none
    let row := Row.new sampleBlake3 samplePolicy.principal (sampleOperation 7) 2
    committed.1 = some (.ok row.receipt) ∧
      ∃ journal, (run (World.step sampleBlake3) committed.2
          [.crash 0, .openFile samplePolicy true]).journal = some journal ∧
        journal.lookupReceipt samplePolicy.principal (sampleOperation 7).id (sampleOperation 7).resource
          ((sampleOperation 7).digest sampleBlake3) = .ok (some row.receipt) := by
  intro start earlier committed row
  have created : World.create sampleBlake3 2 samplePolicy = .ok start := rfl
  have free : CollisionFree sampleBlake3 (sampleOperation 7 :: operations [earlier]) := by
    unfold CollisionFree
    decide +kernel
  have ok : committed.1 = some (.ok row.receipt) := by decide +kernel
  have opened : (run (World.step sampleBlake3) committed.2
      [.crash 0, .openFile samplePolicy true]).journal =
        some ⟨[.new sampleBlake3 samplePolicy.principal (sampleOperation 9) 1, row], 2, false⟩ := by
    decide +kernel
  exact ⟨ok, _, opened, ((exactly_once created [earlier]).2.1 _ _ _ none _ free ok
    [.crash 0, .openFile samplePolicy true] _ opened rfl).1⟩

end Coaptic.Receipts
