import Coaptic.Lib.BigEndian

/-!
# Missing blocks

The payload that reports which blocks of a body have not arrived: a sequence of CBOR unsigned
integers in ascending order. The encoder leaves out what is not above the NUM before it and stops
when the buffer is full; the decoder accepts whole integers in ascending order only.
-/
namespace Coaptic.Codec.MissingBlocks

open BigEndian List

inductive MissingBlocksError
  | bufferTooSmall
  | invalid
deriving DecidableEq

/-! ### Encoding -/

/-- Put one byte into a buffer of `limit` bytes; `out` is what has been written to it. -/
def put (limit : Nat) (out : List UInt8) (byte : UInt8) : Except MissingBlocksError Unit × List UInt8 :=
  if limit ≤ out.length then (.error .bufferTooSmall, out) else (.ok (), out ++ [byte])

def puts (limit : Nat) (out : List UInt8) : List UInt8 → Except MissingBlocksError Unit × List UInt8
  | [] => (.ok (), out)
  | byte :: rest =>
    match put limit out byte with
    | (.error e, out) => (.error e, out)
    | (.ok (), out) => puts limit out rest

def uintBytes (n : Nat) : List UInt8 :=
  if n ≤ 23 then [UInt8.ofNat n]
  else if n ≤ 255 then 24 :: toBe 1 n
  else if n ≤ 65535 then 25 :: toBe 2 n
  else if n ≤ 0xffffffff then 26 :: toBe 4 n
  else 27 :: toBe 8 n

def putUint (limit : Nat) (out : List UInt8) (n : Nat) :
    Except MissingBlocksError Unit × List UInt8 :=
  puts limit out (uintBytes n)

/-- The loop of `encode` after `out` was written. There is a previous NUM as soon as one has been
written. -/
def encodeFrom (limit : Nat) (prev : Option UInt32) (out : List UInt8) :
    List UInt32 → Except MissingBlocksError Nat × List UInt8
  | [] => (if prev.isSome then .ok out.length else .error .invalid, out)
  | num :: rest =>
    if prev.any (num ≤ ·) then encodeFrom limit prev out rest
    else
    match putUint limit out num.toNat with
    | (.ok (), out) => encodeFrom limit (some num) out rest
    | (.error .bufferTooSmall, out) =>
      (if prev.isSome then .ok out.length else .error .bufferTooSmall, out)
    | (.error e, out) => (.error e, out)

/-- Encode NUMs into a buffer of `limit` bytes: how many bytes the payload has, and the bytes that
were written. -/
def encode (nums : List UInt32) (limit : Nat) : Except MissingBlocksError Nat × List UInt8 :=
  encodeFrom limit none [] nums

/-! ### Decoding -/

def argument (width : Nat) (bytes : List UInt8) : Except MissingBlocksError (Nat × List UInt8) :=
  if bytes.length < width then .error .invalid
  else .ok (ofBe (bytes.take width), bytes.drop width)

/-- Read one unsigned integer: its value and the bytes after it. -/
def readUint : List UInt8 → Except MissingBlocksError (Nat × List UInt8)
  | [] => .error .invalid
  | b :: rest =>
    if b >>> 5 ≠ 0 then .error .invalid
    else if b &&& 0x1f ≤ 23 then .ok ((b &&& 0x1f).toNat, rest)
    else if b &&& 0x1f = 24 then argument 1 rest
    else if b &&& 0x1f = 25 then argument 2 rest
    else if b &&& 0x1f = 26 then argument 4 rest
    else if b &&& 0x1f = 27 then argument 8 rest
    else .error .invalid

/-- The loop of `decode`, with room for that many NUMs. An integer takes at least one byte, so
there are no more rounds than bytes. -/
def decodeFrom : (rounds room : Nat) → (prev : Option UInt32) → List UInt8 →
    Except MissingBlocksError (List UInt32)
  | _, _, _, [] => .ok []
  | 0, _, _, _ => .error .invalid
  | rounds + 1, room, prev, bytes =>
    match readUint bytes with
    | .error e => .error e
    | .ok (raw, rest) =>
    if 2 ^ 32 ≤ raw then .error .invalid
    else if prev.any (UInt32.ofNat raw ≤ ·) then .error .invalid
    else if room = 0 then .error .bufferTooSmall
    else (decodeFrom rounds (room - 1) (some (UInt32.ofNat raw)) rest).map (UInt32.ofNat raw :: ·)

def decode (bytes : List UInt8) (room : Nat) : Except MissingBlocksError (List UInt32) :=
  if bytes = [] then .error .invalid else decodeFrom bytes.length room none bytes

/-! ### What is written -/

/-- The NUMs to report: those above the ones before them. -/
def ascending (prev : Option UInt32) : List UInt32 → List UInt32
  | [] => []
  | num :: rest =>
    if prev.any (num ≤ ·) then ascending prev rest else num :: ascending (some num) rest

def wire (nums : List UInt32) : List UInt8 := nums.flatMap fun num => uintBytes num.toNat

@[simp] theorem wire_nil : wire [] = [] := rfl

@[simp] theorem wire_cons (num : UInt32) (rest : List UInt32) :
    wire (num :: rest) = uintBytes num.toNat ++ wire rest := rfl

variable {k limit n : Nat} {out : List UInt8} {prev : Option UInt32} {front nums : List UInt32}

theorem puts_eq (fits : out.length ≤ limit) (bytes : List UInt8) : puts limit out bytes =
      (if out.length + bytes.length ≤ limit then .ok () else .error .bufferTooSmall,
        (out ++ bytes).take limit) := by
  induction bytes generalizing out with
  | nil => simp [puts, fits, take_of_length_le fits]
  | cons byte rest ih =>
  by_cases full : limit ≤ out.length
  · simp only [puts, put, if_pos full]
    rw [if_neg (by rw [length_cons]; omega), take_append_of_le_length full,
      take_of_length_le fits]
  simp only [puts, put, if_neg full]
  rw [ih (by rw [length_append, length_singleton]; omega), append_assoc]
  simp only [length_append, length_cons, length_nil, Nat.add_assoc, Nat.zero_add,
    Nat.add_comm 1, singleton_append]

/-- An encoding is the whole payload, cut off where the buffer ends. -/
theorem encodeFrom_ok {out' : List UInt8} (fits : out.length ≤ limit)
    (encoded : encodeFrom limit prev out nums = (.ok n, out')) :
    out' = (out ++ wire (ascending prev nums)).take limit ∧ n = out'.length := by
  induction nums generalizing prev out with
  | nil =>
    simp only [encodeFrom, Prod.mk.injEq] at encoded
    obtain ⟨ok, rfl⟩ := encoded
    split at ok
    · cases ok
      simp [ascending, take_of_length_le fits]
    · cases ok
  | cons num rest ih =>
  simp only [encodeFrom] at encoded
  rw [ascending]
  split at encoded
  next skipped =>
    rw [if_pos skipped]
    exact ih fits encoded
  next fresh =>
  rw [if_neg fresh]
  rw [putUint, puts_eq fits] at encoded
  by_cases room : out.length + (uintBytes num.toNat).length ≤ limit
  · simp only [if_pos room] at encoded
    have whole : (out ++ uintBytes num.toNat).length ≤ limit := by
      rw [length_append]
      exact room
    rw [take_of_length_le whole] at encoded
    obtain ⟨written, rfl⟩ := ih whole encoded
    rw [written, wire_cons, append_assoc]
    exact ⟨rfl, rfl⟩
  simp only [if_neg room, Prod.mk.injEq] at encoded
  obtain ⟨ok, rfl⟩ := encoded
  split at ok
  · cases ok
    refine ⟨?_, rfl⟩
    have full : limit ≤ (out ++ uintBytes num.toNat).length := by
      rw [length_append]
      omega
    rw [wire_cons, ← append_assoc, take_append_of_le_length full]
  · cases ok

/-! ### What is read -/

/-- The shape of an integer on the wire: a head that holds it, or that tells the width of it. -/
theorem uintBytes_cases (bound : n < 2 ^ 32) : (n ≤ 23 ∧ uintBytes n = [UInt8.ofNat n]) ∨
      ∃ head width, uintBytes n = head :: toBe width n ∧ n < 256 ^ width ∧
        ∀ rest, readUint (head :: rest) = argument width rest := by
  simp only [uintBytes]
  split
  next small => exact .inl ⟨small, rfl⟩
  next =>
  refine .inr ?_
  split
  · exact ⟨24, 1, rfl, by omega, fun _ => rfl⟩
  next =>
  split
  · exact ⟨25, 2, rfl, by omega, fun _ => rfl⟩
  next =>
  rw [if_pos (by omega)]
  exact ⟨26, 4, rfl, by omega, fun _ => rfl⟩

theorem length_uintBytes_pos (bound : n < 2 ^ 32) : 0 < (uintBytes n).length := by
  obtain ⟨-, bytes⟩ | ⟨head, width, bytes, -⟩ := uintBytes_cases bound
  · simp [bytes]
  · simp [bytes]

theorem readUint_uintBytes (bound : n < 2 ^ 32) (rest : List UInt8) :
    readUint (uintBytes n ++ rest) = .ok (n, rest) := by
  obtain ⟨small, bytes⟩ | ⟨head, width, bytes, fits, read⟩ := uintBytes_cases bound
  · rw [bytes]
    interval_cases n <;> rfl
  · rw [bytes, cons_append, read, argument, if_neg (by simp), take_left' (length_toBe ..),
      drop_left' (length_toBe ..), ofBe_toBe fits]

/-- A part of an integer is not read. -/
theorem readUint_cut (bound : n < 2 ^ 32) (some_ : 0 < k) (short : k < (uintBytes n).length) :
    readUint ((uintBytes n).take k) = .error .invalid := by
  obtain ⟨small, bytes⟩ | ⟨head, width, bytes, fits, read⟩ := uintBytes_cases bound
  · rw [bytes, length_singleton] at short
    omega
  obtain ⟨k, rfl⟩ := Nat.exists_eq_add_one.mpr some_
  rw [bytes, length_cons, length_toBe] at short
  rw [bytes, take_succ_cons, read, argument, if_pos (by rw [length_take, length_toBe]; omega)]

def Above (prev : Option UInt32) : List UInt32 → Prop
  | [] => True
  | num :: rest => prev.any (num ≤ ·) = false ∧ Above (some num) rest

theorem above_ascending (prev : Option UInt32) (nums : List UInt32) :
    Above prev (ascending prev nums) := by
  induction nums generalizing prev with
  | nil => trivial
  | cons num rest ih =>
  rw [ascending]
  split
  · exact ih prev
  next fresh => exact ⟨Bool.not_eq_true _ ▸ fresh, ih (some num)⟩

/-! ### Cut payloads -/

/-- A buffer of `limit` bytes holds the whole payload of the NUMs, or ends where one of its
integers ends. -/
def Ends (nums : List UInt32) (limit : Nat) : Prop :=
  (wire nums).length ≤ limit ∨ ∃ front, front <+: nums ∧ (wire front).length = limit

theorem ends_cons {num : UInt32} {rest : List UInt32} :
    Ends (num :: rest) limit ↔ limit = 0 ∨ (uintBytes num.toNat).length ≤ limit ∧
      Ends rest (limit - (uintBytes num.toNat).length) := by
  have some_ := length_uintBytes_pos num.toNat_lt
  simp only [Ends, wire_cons, length_append]
  constructor
  · rintro (whole | ⟨front, isPrefix, rfl⟩)
    · exact .inr ⟨by omega, .inl (by omega)⟩
    obtain rfl | ⟨back, rfl, inside⟩ := prefix_cons_iff.mp isPrefix
    · exact .inl rfl
    · rw [wire_cons, length_append]
      exact .inr ⟨by omega, .inr ⟨back, inside, by omega⟩⟩
  rintro (rfl | ⟨room, whole | ⟨front, isPrefix, length⟩⟩)
  · exact .inr ⟨[], nil_prefix, rfl⟩
  · exact .inl (by omega)
  refine .inr ⟨num :: front, prefix_cons_iff.mpr (.inr ⟨front, rfl, isPrefix⟩), ?_⟩
  rw [wire_cons, length_append]
  omega

/-- A cut payload is read exactly when it is cut between two integers. -/
theorem decodeFrom_take {rounds room : Nat} (above : Above prev nums)
    (enough : ((wire nums).take limit).length ≤ rounds) (fits : nums.length ≤ room) :
    (∃ reported, decodeFrom rounds room prev ((wire nums).take limit) = .ok reported ∧
      reported <+: nums) ↔ Ends nums limit := by
  have stop (rounds room : Nat) (prev : Option UInt32) : decodeFrom rounds room prev [] = .ok [] := by
    cases rounds <;> rfl
  -- one round an integer: neither the rounds nor the room run out before the bytes do
  induction nums generalizing rounds room prev limit with
  | nil =>
    rw [wire_nil, take_nil, stop]
    exact iff_of_true ⟨[], rfl, prefix_rfl⟩ (.inl (Nat.zero_le _))
  | cons num rest ih =>
  have bound := num.toNat_lt
  have some_ := length_uintBytes_pos bound
  rw [ends_cons]
  by_cases none_ : limit = 0
  · rw [none_, take_zero, stop]
    exact iff_of_true ⟨[], rfl, nil_prefix⟩ (.inl rfl)
  have left : 0 < ((wire (num :: rest)).take limit).length := by
    rw [length_take, wire_cons, length_append]
    omega
  obtain ⟨rounds, rfl⟩ := Nat.exists_eq_add_one.mpr (by omega : 0 < rounds)
  rw [decodeFrom.eq_3 _ _ _ _ (ne_nil_of_length_pos left), or_iff_right none_]
  -- the buffer ends after this integer, or inside it
  by_cases after : (uintBytes num.toNat).length ≤ limit
  · rw [wire_cons, take_append, take_of_length_le after] at enough ⊢
    rw [length_append] at enough
    rw [length_cons] at fits
    have tail : _ ↔ Ends rest (limit - (uintBytes num.toNat).length) :=
      ih above.2 (by omega : _ ≤ rounds) (by omega : _ ≤ room - 1)
    rw [readUint_uintBytes bound]
    simp only
    rw [if_neg (by omega), UInt32.ofNat_toNat, if_neg (by rw [above.1]; exact Bool.false_ne_true),
      if_neg (by omega), and_iff_right after, ← tail]
    generalize decodeFrom rounds (room - 1) (some num) _ = read
    cases read with
    | error e => simp [Except.map]
    | ok reported => simp [Except.map]
  · rw [wire_cons, take_append_of_le_length (by omega),
      readUint_cut bound (Nat.pos_of_ne_zero none_) (Nat.not_le.mp after)]
    exact iff_of_false nofun fun ends => after ends.1

theorem length_ascending_le (prev : Option UInt32) (nums : List UInt32) :
    (ascending prev nums).length ≤ nums.length := by
  induction nums generalizing prev with
  | nil => exact le_refl _
  | cons num rest ih =>
  rw [ascending]
  split
  · exact (ih prev).trans (Nat.le_succ _)
  · exact Nat.succ_le_succ (ih (some num))

/-- The first NUM is written as a whole, or the encoder refuses. -/
theorem nonempty_of_encode (encoded : encode nums limit = (.ok n, out)) : out ≠ [] := by
  cases nums with
  | nil => cases encoded
  | cons num rest =>
  have some_ := length_uintBytes_pos num.toNat_lt
  have written := (encodeFrom_ok (Nat.zero_le _) encoded).1
  have empty : ([] : List UInt8).length ≤ limit := Nat.zero_le limit
  simp only [encode, encodeFrom, Option.any_none, Bool.false_eq_true, if_false, putUint,
    puts_eq empty, length_nil, Nat.zero_add] at encoded
  by_cases room : (uintBytes num.toNat).length ≤ limit
  · intro none_
    rw [none_, ascending, if_neg (by simp), nil_append, wire_cons] at written
    have := congrArg length written
    rw [length_take, length_append, length_nil] at this
    omega
  · simp [if_neg room] at encoded

/-- What `encode` reports is read back as a prefix of the NUMs to report, exactly when the buffer
does not end inside an integer. -/
theorem decode_encode_iff {nums : List UInt32} {limit n room : Nat} {out : List UInt8}
    (encoded : encode nums limit = (.ok n, out)) (fits : nums.length ≤ room) :
    (∃ reported, decode (out.take n) room = .ok reported ∧ reported <+: ascending none nums) ↔
      Ends (ascending none nums) limit := by
  have some_ := nonempty_of_encode encoded
  obtain ⟨written, rfl⟩ := encodeFrom_ok (Nat.zero_le _) encoded
  rw [List.take_length, decode, if_neg some_]
  subst written
  exact decodeFrom_take (above_ascending none nums) le_rfl ((length_ascending_le none nums).trans fits)

/-- A buffer of two bytes ends inside the second integer: its first byte is reported, and the
payload is not one. -/
theorem encode_cut : encode [1, 24] 2 = (.ok 2, [0x01, 0x18]) ∧
    decode [0x01, 0x18] 2 = .error .invalid := by
  decide

/-- A buffer of three bytes holds both. -/
theorem decode_encode_whole : ∃ reported, decode [0x01, 0x18, 24] 2 = .ok reported ∧
    reported <+: ascending none [1, 24] :=
  have encoded : encode [1, 24] 3 = (.ok 3, [0x01, 0x18, 24]) := by decide
  (decode_encode_iff encoded (by decide)).mpr (.inl (by decide))

end Coaptic.Codec.MissingBlocks
