import Coaptic.Lib.BigEndian
import Coaptic.Lib.Result

/-!
# Unknown problem details

A reader of problem details skips the items that it does not know. The walk keeps one count of
items that are still to come instead of a stack. It ends where the data item ends, however deep
that one is nested.
-/
namespace Coaptic.Problem

open BigEndian List

inductive ProblemError
  | bufferTooSmall
  | invalid
deriving DecidableEq

/-- Major type, argument and the bytes after the head. An argument takes one, two, four or eight
bytes of its own, unless it is below 24. -/
def readHead : List UInt8 → Except ProblemError (Nat × Nat × List UInt8)
  | [] => .error .invalid
  | b :: rest =>
    if b.toNat % 32 < 24 then .ok (b.toNat / 32, b.toNat % 32, rest)
    else if 28 ≤ b.toNat % 32 ∨ rest.length < 2 ^ (b.toNat % 32 - 24) then .error .invalid
    else
      let width := 2 ^ (b.toNat % 32 - 24)
      .ok (b.toNat / 32, ofBe (rest.take width), rest.drop width)

def fromUtf8 (text : List UInt8) : Bool := (ByteArray.mk text.toArray).validateUTF8

/-- How many items the item at the front of `input` contains, and the bytes that begin with them.
Its head is followed by `rest`. -/
def skipContent (input : List UInt8) (major n : Nat) (rest : List UInt8) :
    Except ProblemError (Nat × List UInt8) :=
  if major = 0 ∨ major = 1 then .ok (0, rest)
  else if major = 7 then
    -- a second byte below 32 is not well formed
    if input.head? = some 0xf8 ∧ n < 32 then .error .invalid else .ok (0, rest)
  else if major = 2 ∨ major = 3 then
    if rest.length < n ∨ major = 3 ∧ fromUtf8 (rest.take n) = false then .error .invalid
    else .ok (0, rest.drop n)
  else if major = 4 then .ok (n, rest)
  else if major = 5 then if 2 ^ 64 ≤ n * 2 then .error .invalid else .ok (n * 2, rest)
  else if major = 6 then .ok (1, rest)
  else .error .invalid

/-- One round, with `pending` more items to come after this one. -/
def skipRound (input : List UInt8) (pending : Nat) : Except ProblemError (Nat × List UInt8) := do
  let (major, n, rest) ← readHead input
  let (children, rest) ← skipContent input major n rest
  -- a count that the bytes left cannot meet is refused at once
  if 2 ^ 64 ≤ pending + children ∨ rest.length < pending + children then .error .invalid
  else .ok (pending + children, rest)

/-- At most `rounds` rounds; `none` if they do not suffice. -/
def skipRounds : (rounds pending : Nat) → List UInt8 → Option (Except ProblemError (List UInt8))
  | _, 0, input => some (.ok input)
  | 0, _ + 1, _ => none
  | rounds + 1, pending + 1, input =>
    match skipRound input pending with
    | .error e => some (.error e)
    | .ok (pending, rest) => skipRounds rounds pending rest

/-- Skip the item at `at_`. The outcome is the new position. -/
def skipItem (rounds : Nat) (bytes : List UInt8) (at_ : Nat) :
    Option (Except ProblemError Nat) :=
  (skipRounds rounds 1 (bytes.drop at_)).map (·.map fun rest => bytes.length - rest.length)

/-! ### Data items -/

/-- A head with its major type and argument. -/
inductive Head : List UInt8 → Nat → Nat → Prop
  | short {b : UInt8} (h : b.toNat % 32 < 24) : Head [b] (b.toNat / 32) (b.toNat % 32)
  | long {b : UInt8} {argument : List UInt8} {k : Nat} (h : b.toNat % 32 = 24 + k) (most : k < 4)
      (length : argument.length = 2 ^ k) : Head (b :: argument) (b.toNat / 32) (ofBe argument)

/-- An item without the items in it, and their number. -/
inductive Shell : List UInt8 → Nat → Prop
  | integer {head : List UInt8} {major n : Nat} (h : Head head major n)
      (kind : major = 0 ∨ major = 1) : Shell head 0
  | string {head content : List UInt8} {major : Nat} (h : Head head major content.length)
      (kind : major = 2 ∨ major = 3 ∧ fromUtf8 content = true) : Shell (head ++ content) 0
  | array {head : List UInt8} {n : Nat} (h : Head head 4 n) : Shell head n
  | map {head : List UInt8} {n : Nat} (h : Head head 5 n) : Shell head (n * 2)
  | tag {head : List UInt8} {n : Nat} (h : Head head 6 n) : Shell head 1
  | simple {head : List UInt8} {n : Nat} (h : Head head 7 n)
      (large : head.head? = some 0xf8 → 32 ≤ n) : Shell head 0

/-- Well-formed definite-length items, one after the other. Each has its items inside. -/
inductive Items : Nat → List UInt8 → Prop
  | nil : Items 0 []
  | cons {n k : Nat} {shell inner rest : List UInt8} (h : Shell shell k) (inside : Items k inner)
      (after : Items n rest) : Items (n + 1) (shell ++ (inner ++ rest))

variable {input head shell item rest next : List UInt8} {a b k major n pending rounds : Nat}

theorem Head.ne_nil (h : Head head major n) : head ≠ [] := by
  cases h <;> simp

theorem Shell.length_pos (h : Shell shell k) : 0 < shell.length := by
  cases h with
  | string h => simp [h.ne_nil, length_pos_iff]
  | integer h | array h | map h | tag h | simple h => exact length_pos_iff.mpr h.ne_nil

theorem Items.le_length (h : Items n item) : n ≤ item.length := by
  induction h with
  | nil => exact Nat.zero_le 0
  | cons h _ _ _ after =>
    have := h.length_pos
    simp only [length_append]
    omega

theorem Items.append (front : Items a item) (back : Items b rest) : Items (b + a) (item ++ rest) := by
  induction front with
  | nil => exact back
  | cons h inside after _ ih =>
    rw [append_assoc, append_assoc]
    exact .cons h inside ih

theorem Items.split (h : Items (b + a) item) :
    ∃ left right, item = left ++ right ∧ Items a left ∧ Items b right := by
  induction a generalizing item with
  | zero => exact ⟨[], item, rfl, .nil, h⟩
  | succ a ih =>
    cases h with
    | cons h inside after =>
    obtain ⟨left, right, rfl, front, back⟩ := ih after
    exact ⟨_, right, by simp only [append_assoc], .cons h inside front, back⟩

/-! ### One round -/

theorem readHead_eq_ok :
    readHead input = .ok (major, n, rest) ↔ ∃ head, Head head major n ∧ input = head ++ rest := by
  constructor
  · intro h
    cases input with
    | nil => cases h
    | cons b tail =>
    simp only [readHead] at h
    split at h
    next short =>
      cases h
      exact ⟨[b], .short short, rfl⟩
    split at h
    · cases h
    next long wide =>
    cases h
    refine ⟨b :: tail.take (2 ^ (b.toNat % 32 - 24)), .long (k := b.toNat % 32 - 24) (by omega)
      (by omega) (length_take_of_le (by omega)), ?_⟩
    rw [cons_append, take_append_drop]
  · rintro ⟨head, short | @⟨b, argument, k, h, most, length⟩, rfl⟩
    · simp [readHead, short]
    have wide : 2 ^ (b.toNat % 32 - 24) = argument.length := by rw [length, h]; simp
    simp only [cons_append, readHead, wide, length_append, take_left, drop_left]
    rw [if_neg (by omega), if_neg (by omega)]

theorem shell_of_skipContent (h : Head head major n)
    (content : skipContent (head ++ rest) major n rest = .ok (k, next)) :
    ∃ shell, Shell shell k ∧ head ++ rest = shell ++ next := by
  revert content
  fun_cases skipContent (head ++ rest) major n rest with
  | case1 kind =>
    rintro ⟨⟩
    exact ⟨head, .integer h kind, rfl⟩
  | case3 _ kind large =>
    rintro ⟨⟩
    subst kind
    refine ⟨head, .simple h fun isTwo => Nat.le_of_not_lt fun few => large ⟨?_, few⟩, rfl⟩
    rwa [head?_append_of_ne_nil _ h.ne_nil]
  | case5 _ _ kind fits =>
    rintro ⟨⟩
    have length : (rest.take n).length = n := length_take_of_le (by omega)
    refine ⟨head ++ rest.take n, .string (length.symm ▸ h) ?_, ?_⟩
    · exact kind.imp_right fun text => ⟨text, by simpa [text] using fun no => fits (.inr ⟨text, no⟩)⟩
    · rw [append_assoc, take_append_drop]
  | case6 _ _ _ kind =>
    rintro ⟨⟩
    exact ⟨head, .array (kind ▸ h), rfl⟩
  | case8 _ _ _ _ kind =>
    rintro ⟨⟩
    exact ⟨head, .map (kind ▸ h), rfl⟩
  | case9 _ _ _ _ _ kind =>
    rintro ⟨⟩
    exact ⟨head, .tag (kind ▸ h), rfl⟩
  | _ => exact nofun

theorem skipContent_of_shell (h : Shell shell k) (few : k < 2 ^ 64) (next : List UInt8) :
    ∃ head major n rest, Head head major n ∧ shell ++ next = head ++ rest ∧
      skipContent (shell ++ next) major n rest = .ok (k, next) := by
  cases h with
  | integer h kind => exact ⟨shell, _, _, next, h, rfl, if_pos kind⟩
  | @string head content major h kind =>
    refine ⟨head, major, _, content ++ next, h, append_assoc .., ?_⟩
    obtain rfl | ⟨rfl, valid⟩ := kind
    · simp [skipContent]
    · simp [skipContent, valid]
  | array h => exact ⟨shell, 4, k, next, h, rfl, rfl⟩
  | map h => exact ⟨shell, 5, _, next, h, rfl, if_neg (Nat.not_le.mpr few)⟩
  | tag h => exact ⟨shell, 6, _, next, h, rfl, rfl⟩
  | @simple _ n h large =>
    have accepted : ¬((shell ++ next).head? = some 0xf8 ∧ n < 32) := by
      rw [head?_append_of_ne_nil _ h.ne_nil]
      exact fun refused => absurd (large refused.1) (Nat.not_le.mpr refused.2)
    exact ⟨shell, 7, n, next, h, rfl, if_neg accepted⟩

/-- A round reads one shell. -/
theorem skipRound_eq_ok (short : input.length < 2 ^ 63) :
    skipRound input pending = .ok (n, rest) ↔
      ∃ shell k, Shell shell k ∧ input = shell ++ rest ∧ n = pending + k ∧ n ≤ rest.length := by
  rw [skipRound]
  constructor
  · intro h
    obtain ⟨⟨major, argument, after⟩, read, h⟩ := Result.bind_eq_ok.mp h
    obtain ⟨⟨k, next⟩, content, counted⟩ := Result.bind_eq_ok.mp h
    obtain ⟨head, isHead, rfl⟩ := readHead_eq_ok.mp read
    obtain ⟨shell, isShell, parts⟩ := shell_of_skipContent isHead content
    dsimp only at counted
    split at counted
    · cases counted
    next room =>
    cases counted
    exact ⟨shell, k, isShell, parts, rfl, by omega⟩
  · rintro ⟨shell, k, isShell, rfl, rfl, room⟩
    rw [length_append] at short
    obtain ⟨head, major, argument, after, isHead, parts, content⟩ :=
      skipContent_of_shell isShell (by omega) rest
    rw [readHead_eq_ok.mpr ⟨head, isHead, parts⟩]
    simp only [Result.ok_bind, content]
    rw [if_neg (by omega)]

/-! ### The walk -/

/-- An item at the front is read. What it contains comes next. -/
theorem skipRound_of_items (short : input.length < 2 ^ 63) (items : Items (pending + 1) item)
    (front : input = item ++ rest) : ∃ k next, skipRound input pending = .ok (pending + k, next) ∧
      ∃ item, Items (pending + k) item ∧ next = item ++ rest := by
  cases items with
  | @cons n k shell inner after isShell inside behind =>
  have items := inside.append behind
  refine ⟨k, _, (skipRound_eq_ok short).mpr ⟨shell, k, isShell, ?_, rfl, ?_⟩, _, items, rfl⟩
  · rw [front, append_assoc]
  · have := items.le_length
    rw [length_append]
    omega

/-- There are never more items to come than bytes, and a round takes one byte at least. -/
theorem skipRounds_spec (short : input.length < 2 ^ 63)
    (enough : pending = 0 ∨ max 1 input.length ≤ rounds) :
    ∃ result, skipRounds rounds pending input = some result ∧
      ∀ rest, result = .ok rest ↔ ∃ item, Items pending item ∧ input = item ++ rest := by
  fun_induction skipRounds rounds pending input with
  | case1 =>
    refine ⟨_, rfl, fun rest => ⟨?_, ?_⟩⟩
    · rintro ⟨⟩
      exact ⟨[], .nil, rfl⟩
    · rintro ⟨_, ⟨⟩, rfl⟩
      rfl
  -- out of rounds with items to come: a round was left for every byte
  | case2 => omega
  | case3 rounds input pending e round =>
    refine ⟨_, rfl, fun rest => ⟨nofun, fun ⟨item, items, front⟩ => ?_⟩⟩
    obtain ⟨k, next, read, -⟩ := skipRound_of_items short items front
    cases round.symm.trans read
  | case4 rounds input pending n next round ih =>
    obtain ⟨shell, k, isShell, rfl, rfl, room⟩ := (skipRound_eq_ok short).mp round
    have := isShell.length_pos
    have whole := short
    rw [length_append] at whole enough
    -- the shell took a byte, so the rounds left suffice for the bytes left
    obtain ⟨result, done, exact_⟩ := ih (by omega) (by omega)
    refine ⟨result, done, fun rest => (exact_ rest).trans ⟨?_, ?_⟩⟩
    · rintro ⟨item, items, rfl⟩
      -- of the items to come, the first ones are inside this one
      obtain ⟨inner, after, rfl, inside, behind⟩ := items.split
      exact ⟨_, .cons isShell inside behind, by simp only [append_assoc]⟩
    · rintro ⟨item, items, front⟩
      obtain ⟨k', next', read, rest⟩ := skipRound_of_items short items front
      obtain ⟨same, rfl⟩ := Prod.mk.inj (Except.ok.inj (round.symm.trans read))
      rwa [same]

/-- A slice has at most `isize::MAX` bytes. -/
abbrev Slice : Type := { bytes : List UInt8 // bytes.length < 2 ^ 63 }

/-- Skipping ends within as many rounds as there are bytes left, or one where none is left. It
succeeds exactly where a well-formed data item begins, and moves to the end of that item. -/
theorem skip_item_exact (bytes : Slice) (at_ : Nat) :
    ∃ result, skipItem (max 1 (bytes.1.length - at_)) bytes.1 at_ = some result ∧
      ∀ stop, result = .ok stop ↔
        ∃ item, Items 1 item ∧ item <+: bytes.1.drop at_ ∧ stop = at_ + item.length := by
  have short := bytes.2
  have remaining : (bytes.1.drop at_).length = bytes.1.length - at_ := List.length_drop
  have enough : 1 = 0 ∨ max 1 (bytes.1.drop at_).length ≤ max 1 (bytes.1.drop at_).length :=
    .inr (Nat.le_refl _)
  obtain ⟨result, done, exact_⟩ := skipRounds_spec (by omega) enough
  have moved {item rest : List UInt8} (items : Items 1 item)
      (front : bytes.1.drop at_ = item ++ rest) :
      bytes.1.length - rest.length = at_ + item.length := by
    have := items.le_length
    rw [front, List.length_append] at remaining
    omega
  rw [← remaining, skipItem, done]
  refine ⟨_, rfl, fun stop => ⟨fun h => ?_, ?_⟩⟩
  · cases result with
    | error e => cases h
    | ok rest =>
    cases h
    obtain ⟨item, items, front⟩ := (exact_ rest).mp rfl
    exact ⟨item, items, ⟨rest, front.symm⟩, moved items front⟩
  · rintro ⟨item, items, ⟨rest, front⟩, rfl⟩
    rw [(exact_ rest).mpr ⟨item, items, front.symm⟩, ← moved items front.symm]
    rfl

/-- Without a byte left the first round is still begun: it finds no head. -/
theorem skip_item_begins : skipItem 0 [] 0 = none ∧ skipItem 1 [] 0 = some (.error .invalid) :=
  ⟨rfl, rfl⟩

end Coaptic.Problem
