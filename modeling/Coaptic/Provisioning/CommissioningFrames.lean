import Coaptic.Provisioning.PairingRecord

/-!
# Commissioning frames

A console carries frames among log output. The scanner waits for a marker, reads a length and
collects as many bytes. On a mismatch it looks at the last byte alone, which is right because no
byte but the first of the marker can begin one.
-/
namespace Coaptic.Provisioning

open BigEndian List

def magic : List UInt8 := [0, 0x43, 0x50, 1]

structure CommissioningDecoder where
  matched : Nat
  length : Nat
  used : Nat
  bytes : List UInt8
deriving DecidableEq

namespace CommissioningDecoder

def new : CommissioningDecoder := ⟨0, 0, 0, List.replicate 512 0⟩

/-- How much of the marker is seen, with one more byte. -/
def matchNext (matched : Nat) (byte : UInt8) : Nat :=
  if magic[matched]? = some byte then matched + 1 else if byte = 0 then 1 else 0

def feed (d : CommissioningDecoder) (byte : UInt8) : Option (List UInt8) × CommissioningDecoder :=
  if d.matched < 4 then (none, { d with matched := matchNext d.matched byte })
  else if d.matched = 4 then (none, { d with length := byte.toNat <<< 8, matched := 5 })
  else if d.matched = 5 then
    let length := d.length ||| byte.toNat
    (none, { d with length, matched := if 1 ≤ length ∧ length ≤ 512 then 6 else 0, used := 0 })
  else
    let bytes := d.bytes.set d.used byte
    if d.used + 1 = d.length then
      (some (bytes.take d.length), { d with matched := 0, used := 0, bytes })
    else (none, { d with used := d.used + 1, bytes })

/-- The bytes written and the buffer after a call. -/
def frame (payload output : List UInt8) : Except PairingError (Nat × List UInt8) :=
  if payload = [] ∨ 512 < payload.length ∨ output.length < payload.length + 6 then .error .record
  else .ok (payload.length + 6,
    magic ++ (toBe 2 payload.length ++ (payload ++ output.drop (payload.length + 6))))

/-- What every byte of a stream yields. -/
def outputs : CommissioningDecoder → List UInt8 → List (Option (List UInt8))
  | _, [] => []
  | d, byte :: rest => (d.feed byte).1 :: outputs (d.feed byte).2 rest

variable {d : CommissioningDecoder}

/-- Between frames. The buffer has its size. -/
structure Waits (d : CommissioningDecoder) : Prop where
  seeks : d.matched < 4
  sized : d.bytes.length = 512

/-! ### Noise -/

/-- As long as the marker is not complete, what is matched of it is what was read last. -/
theorem suffix_matchNext {past : List UInt8} (byte : UInt8) {m : Nat}
    (last : magic.take m <:+ past) : magic.take (matchNext m byte) <:+ past ++ [byte] := by
  rw [matchNext]
  split
  next hit =>
    rw [take_add_one, hit]
    obtain ⟨front, rfl⟩ := last
    exact ⟨front, (append_assoc ..).symm⟩
  split
  next first => exact ⟨past, by rw [first]; rfl⟩
  · exact nil_suffix

theorem outputs_noise (past noise rest : List UInt8) (waits : d.Waits)
    (last : magic.take d.matched <:+ past) (free : ¬ magic <:+: past ++ noise) :
    ∃ d', Waits d' ∧
      d.outputs (noise ++ rest) = List.replicate noise.length none ++ d'.outputs rest := by
  induction noise generalizing d past with
  | nil => exact ⟨d, waits, rfl⟩
  | cons byte noise ih =>
  have last := suffix_matchNext byte last
  rw [append_cons] at free
  -- the fourth byte would complete a marker within the noise
  have seeks : matchNext d.matched byte < 4 := by
    by_contra complete
    rw [take_of_length_le (Nat.not_lt.mp complete)] at last
    exact free (last.isInfix.trans (prefix_append ..).isInfix)
  have fed : d.feed byte = (none, { d with matched := matchNext d.matched byte }) :=
    if_pos waits.seeks
  obtain ⟨d', waits', same⟩ := ih (d := { d with matched := matchNext d.matched byte }) _
    ⟨seeks, waits.sized⟩ last free
  refine ⟨d', waits', ?_⟩
  rw [cons_append, outputs, fed, same]
  rfl

/-! ### Frames -/

/-- Whatever is matched of the marker, a marker that follows is found. -/
theorem outputs_magic (rest : List UInt8) (waits : d.Waits) : d.outputs (magic ++ rest) =
    List.replicate 4 none ++ outputs { d with matched := 4 } rest := by
  have first : matchNext d.matched 0 = 1 := by
    have := waits.seeks
    generalize d.matched = m at this
    interval_cases m <;> rfl
  have fed : d.feed 0 = (none, { d with matched := 1 }) := by rw [feed, if_pos waits.seeks, first]
  rw [magic, cons_append, outputs, fed]
  rfl

theorem outputs_length {n : Nat} (rest : List UInt8) (some_ : 1 ≤ n) (most : n ≤ 512) :
    outputs { d with matched := 4 } (toBe 2 n ++ rest) =
      List.replicate 2 none ++ outputs { d with matched := 6, length := n, used := 0 } rest := by
  have high : UInt8.toNat (UInt8.ofNat (n / 256 % 256)) = n / 256 := by simp; omega
  have low : UInt8.toNat (UInt8.ofNat (n % 256)) = n % 256 := by simp
  have joined : (n / 256) <<< 8 ||| n % 256 = n := by
    rw [← Nat.shiftLeft_add_eq_or_of_lt (Nat.mod_lt n (by decide)), Nat.shiftLeft_eq]
    omega
  simp [toBe, outputs, feed, high, low, joined, some_, most]

theorem outputs_payload {payload : List UInt8} (rest : List UInt8) (some_ : payload ≠ [])
    (sized : d.bytes.length = 512) (most : d.used + payload.length ≤ 512) (matched : d.matched = 6)
    (length : d.length = d.used + payload.length) :
    ∃ d', Waits d' ∧ d'.matched = 0 ∧ d.outputs (payload ++ rest) =
      List.replicate (payload.length - 1) none ++
        some (d.bytes.take d.used ++ payload) :: d'.outputs rest := by
  induction payload generalizing d with
  | nil => exact absurd rfl some_
  | cons byte payload ih =>
  rw [length_cons] at most length
  have written : (d.bytes.set d.used byte).take (d.used + 1) = d.bytes.take d.used ++ [byte] := by
    rw [take_add_one, take_set_of_le (Nat.le_refl _), getElem?_set_self (by omega)]
    rfl
  cases payload with
  | nil =>
    refine ⟨{ d with matched := 0, used := 0, bytes := d.bytes.set d.used byte },
      ⟨Nat.zero_lt_succ 3, length_set.trans sized⟩, rfl, ?_⟩
    simp [outputs, feed, matched, length, written]
  | cons next payload =>
    obtain ⟨d', waits, zero, same⟩ :=
      ih (d := { d with used := d.used + 1, bytes := d.bytes.set d.used byte }) nofun
        (length_set.trans sized) (by dsimp only; omega) matched (by dsimp only; omega)
    refine ⟨d', waits, zero, ?_⟩
    have fed : d.feed byte =
        (none, { d with used := d.used + 1, bytes := d.bytes.set d.used byte }) := by
      simp [feed, matched, length]
    rw [cons_append, outputs, fed, same, written, append_assoc]
    rfl

/-! ### Streams -/

/-- Bytes without a marker. -/
abbrev Noise : Type := { bytes : List UInt8 // ¬ magic <:+: bytes }

/-- A payload that is framed after some noise, into a buffer with enough room. -/
structure Sent where
  noise : Noise
  payload : List UInt8
  size : 1 ≤ payload.length ∧ payload.length ≤ 512
  output : List UInt8
  room : payload.length + 6 ≤ output.length

namespace Sent

def framed (sent : Sent) : List UInt8 :=
  match frame sent.payload sent.output with
  | .error _ => []
  | .ok (n, output) => output.take n

theorem framed_eq (sent : Sent) :
    sent.framed = magic ++ (toBe 2 sent.payload.length ++ sent.payload) := by
  have size := sent.size
  have room := sent.room
  have accepted : ¬(sent.payload = [] ∨ 512 < sent.payload.length ∨
      sent.output.length < sent.payload.length + 6) := by
    rw [← length_eq_zero_iff]
    omega
  have short : (magic ++ (toBe 2 sent.payload.length ++ sent.payload)).length =
      sent.payload.length + 6 := by
    simp [magic]
    omega
  simp only [framed, frame, if_neg accepted]
  rw [← append_assoc (toBe ..), ← append_assoc magic, take_left' short]

end Sent

/-- Every frame is found, at its last byte, and nothing else is. -/
theorem frames_survive_noise (sent : List Sent) (last : Noise) :
    new.outputs (sent.flatMap (fun s => s.noise.1 ++ s.framed) ++ last.1) =
      sent.flatMap (fun s =>
        List.replicate (s.noise.1.length + s.framed.length - 1) none ++ [some s.payload]) ++
      List.replicate last.1.length none := by
  suffices from_ : ∀ d : CommissioningDecoder, d.Waits → d.matched = 0 →
      d.outputs (sent.flatMap (fun s => s.noise.1 ++ s.framed) ++ last.1) = _ from
    from_ new ⟨Nat.zero_lt_succ 3, List.length_replicate⟩ rfl
  induction sent with
  | nil =>
    intro d waits zero
    obtain ⟨d', -, same⟩ := outputs_noise [] last.1 [] waits (by simp [zero]) last.2
    rw [List.append_nil] at same
    exact same.trans (List.append_nil _)
  | cons s rest ih =>
  intro d waits zero
  obtain ⟨d, waits, noise⟩ := outputs_noise [] s.noise.1 (s.framed ++ (rest.flatMap
    (fun s => s.noise.1 ++ s.framed) ++ last.1)) waits (by simp [zero]) s.noise.2
  obtain ⟨d', waits', zero', payload⟩ := outputs_payload
    (d := { d with matched := 6, length := s.payload.length, used := 0 })
    (rest.flatMap (fun s => s.noise.1 ++ s.framed) ++ last.1)
    (List.ne_nil_of_length_pos s.size.1) waits.sized (by simpa using s.size.2) rfl (by simp)
  have steps : s.noise.1.length + s.framed.length - 1 =
      s.noise.1.length + (4 + (2 + (s.payload.length - 1))) := by
    have := s.size
    rw [s.framed_eq]
    simp [magic]
    omega
  rw [List.flatMap_cons, List.flatMap_cons, List.append_assoc, List.append_assoc, noise, steps,
    s.framed_eq, List.append_assoc, List.append_assoc, outputs_magic _ waits,
    outputs_length _ s.size.1 s.size.2, payload, ih d' waits' zero']
  simp only [List.replicate_add, List.append_assoc, List.take_zero, List.nil_append,
    List.cons_append]

/-- Two bytes between noise that begins like a marker. -/
example : new.outputs ([0, 7] ++ Sent.framed ⟨⟨[0, 7], by decide⟩, [1, 2], by decide,
    List.replicate 8 0, by decide⟩ ++ [0]) =
      List.replicate 9 none ++ [some [1, 2], none] := by decide

end CommissioningDecoder

end Coaptic.Provisioning
