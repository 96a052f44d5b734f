import Coaptic.Message.Values
import Coaptic.Storage.Block

/-!
# Identity of an upload

Blocks of one upload have the same method and the same cache-key options. The binding of a request
keeps them in a flat byte string, and what its first block says about If-None-Match beside it. The
byte string loses nothing, and the order in which later blocks arrive does not matter.
-/
namespace Coaptic.Block

open Codec Codec.OptionNumber Bytes List

/-- Uri-Port, Content-Format, Max-Age, Accept and Size1 are unsigned integers. -/
def isUintFormat (number : OptionNumber) : Bool := number ∈ [7, 12, 14, 17, 60]

def requestIdentityBytes : Nat := 512

/-- `bytes` is the part of the buffer that is in use; behind it every binding has zeros. -/
structure RequestBinding where
  bytes : List UInt8
  /-- `none`: block zero is unseen. -/
  ifNoneMatch : Option Bool
  nonConfirmable : Bool
deriving DecidableEq

/-- Leading zeros of an unsigned integer do not count. -/
def identityValue (opt : Opt) : List UInt8 :=
  if isUintFormat opt.number then opt.value.dropWhile (· = 0) else opt.value

/-- Number and length in front of the value. -/
def fieldBytes (field : OptionNumber × List UInt8) : List UInt8 :=
  ofBe16 field.1.toNat ++ (ofBe16 field.2.length ++ field.2)

namespace RequestBinding

def addOptions (binding : RequestBinding) (sawIfNoneMatch : Bool) :
    List Opt → Except BlockTransferError RequestBinding
  | [] => .ok binding
  | opt :: rest =>
    if opt.number = OptionNumber.ifNoneMatch then
      if sawIfNoneMatch || !opt.value.isEmpty then .error .identityMismatch
      else binding.addOptions true rest
    else if opt.number.isNoCacheKey || opt.number ∈ [block1, block2, qBlock1, qBlock2] then
      binding.addOptions sawIfNoneMatch rest
    else if requestIdentityBytes < binding.bytes.length + 4 + (identityValue opt).length then
      .error .overflow
    else
      addOptions { binding with bytes := binding.bytes ++ fieldBytes (opt.number, identityValue opt) }
        sawIfNoneMatch rest

def fromMessage {maxLen : Nat} (message : ParsedMessage maxLen) (num : Nat) :
    Except BlockTransferError RequestBinding :=
  addOptions
    { bytes := [message.header.code.raw]
      ifNoneMatch := if num = 0 then some (message.getOption OptionNumber.ifNoneMatch).isSome else none
      nonConfirmable := message.header.ty = .nonConfirmable }
    false message.options

def sameOptions (self other : RequestBinding) : Bool := self.bytes = other.bytes

def retainCondition (self candidate : RequestBinding) : Except BlockTransferError RequestBinding :=
  if !self.sameOptions candidate ||
      self.ifNoneMatch.any fun left => candidate.ifNoneMatch.any fun right => left ≠ right then
    .error .identityMismatch
  else .ok { self with ifNoneMatch := self.ifNoneMatch.or candidate.ifNoneMatch }

end RequestBinding

/-! ### The byte string -/

/-- What an option adds to the identity of its request. -/
def identityField (opt : Opt) : Option (OptionNumber × List UInt8) :=
  if opt.number = OptionNumber.ifNoneMatch ∨ opt.number.isNoCacheKey = true ∨
      opt.number ∈ [block1, block2, qBlock1, qBlock2] then none
  else some (opt.number, identityValue opt)

/-- Method and cache-key options. -/
def identity {maxLen : Nat} (message : ParsedMessage maxLen) :
    Code × List (OptionNumber × List UInt8) :=
  (message.header.code, message.options.filterMap identityField)

theorem ofBe16_inj {m n : Nat} (hm : m < 65536) (hn : n < 65536) (h : ofBe16 m = ofBe16 n) :
    m = n := by
  simp only [ofBe16, cons.injEq, and_true] at h
  rw [← be16_ofBe16 m hm, ← be16_ofBe16 n hn, h.1, h.2]

/-- The lengths in front delimit the values. -/
theorem flatMap_fieldBytes_inj {fs gs : List (OptionNumber × List UInt8)}
    (hf : ∀ f ∈ fs, f.2.length < 65536) (hg : ∀ g ∈ gs, g.2.length < 65536)
    (h : fs.flatMap fieldBytes = gs.flatMap fieldBytes) : fs = gs := by
  induction fs generalizing gs with
  | nil =>
    cases gs with
    | nil => rfl
    | cons g gs => simp [fieldBytes, ofBe16] at h
  | cons f fs ih =>
  cases gs with
  | nil => simp [fieldBytes, ofBe16] at h
  | cons g gs =>
  simp only [forall_mem_cons] at hf hg
  simp only [flatMap_cons, fieldBytes, append_assoc] at h
  obtain ⟨number, h⟩ := append_inj h rfl
  obtain ⟨length, h⟩ := append_inj h rfl
  obtain ⟨value, rest⟩ := append_inj h (ofBe16_inj hf.1 hg.1 length)
  have number := UInt16.toNat_inj.mp (ofBe16_inj f.1.toNat_lt g.1.toNat_lt number)
  rw [ih hf.2 hg.2 rest, Prod.ext number value]

theorem length_le_flatMap {fs : List (OptionNumber × List UInt8)} {f : OptionNumber × List UInt8}
    (member : f ∈ fs) : f.2.length ≤ (fs.flatMap fieldBytes).length := by
  obtain ⟨front, back, rfl⟩ := append_of_mem member
  simp only [flatMap_append, flatMap_cons, fieldBytes, length_append]
  omega

namespace RequestBinding

variable {binding result : RequestBinding}

theorem addOptions_ok {saw : Bool} {opts : List Opt}
    (inside : binding.bytes.length ≤ requestIdentityBytes)
    (h : binding.addOptions saw opts = .ok result) :
    result.bytes = binding.bytes ++ (opts.filterMap identityField).flatMap fieldBytes ∧
      result.bytes.length ≤ requestIdentityBytes := by
  induction opts generalizing binding saw with
  | nil =>
    cases h
    exact ⟨(append_nil _).symm, inside⟩
  | cons opt rest ih =>
  -- an option that is no cache key, the condition and the block options leave no bytes
  have skips (h : opt.number = OptionNumber.ifNoneMatch ∨ opt.number.isNoCacheKey = true ∨
      opt.number ∈ [block1, block2, qBlock1, qBlock2]) :
      (opt :: rest).filterMap identityField = rest.filterMap identityField :=
    filterMap_cons_none (if_pos h)
  rw [addOptions] at h
  split at h
  next isCondition =>
    split at h
    · cases h
    · rw [skips (.inl isCondition)]
      exact ih inside h
  next other =>
  split at h
  next skipped =>
    rw [Bool.or_eq_true, decide_eq_true_eq] at skipped
    rw [skips (.inr skipped)]
    exact ih inside h
  next counted =>
  rw [Bool.or_eq_true, decide_eq_true_eq] at counted
  split at h
  · cases h
  next fits =>
  have field : identityField opt = some (opt.number, identityValue opt) :=
    if_neg (not_or.mpr ⟨other, counted⟩)
  obtain ⟨bytes, short⟩ := ih (by simp [fieldBytes, ofBe16]; omega) h
  rw [filterMap_cons_some field, flatMap_cons, ← append_assoc]
  exact ⟨bytes, short⟩

theorem fromMessage_ok {maxLen num : Nat} {message : ParsedMessage maxLen}
    (h : fromMessage message num = .ok result) :
    result.bytes = message.header.code.raw :: (identity message).2.flatMap fieldBytes ∧
      ∀ f ∈ (identity message).2, f.2.length < 65536 := by
  obtain ⟨bytes, short⟩ := addOptions_ok (by simp [requestIdentityBytes]) h
  refine ⟨bytes, fun f member => ?_⟩
  have := length_le_flatMap member
  rw [bytes, length_append, requestIdentityBytes] at short
  simp only [identity] at this
  omega

/-! ### The condition -/

/-- Some block-zero binding has the condition `x`. -/
def Knows (bindings : List RequestBinding) (x : Bool) : Prop := ∃ b ∈ bindings, b.ifNoneMatch = some x

theorem knows_cons {b : RequestBinding} {bindings : List RequestBinding} {x : Bool} :
    Knows (b :: bindings) x ↔ b.ifNoneMatch = some x ∨ Knows bindings x := by
  simp [Knows]

/-- All have one identity, and all block-zero bindings one condition. -/
def Mergeable (first : RequestBinding) (rest : List RequestBinding) : Prop :=
  (∀ b ∈ rest, first.bytes = b.bytes) ∧
    ∀ x y, Knows (first :: rest) x → Knows (first :: rest) y → x = y

/-- Folding succeeds exactly on bindings of one upload, and keeps the condition that is known. -/
theorem foldlM_retainCondition (first : RequestBinding) (rest : List RequestBinding) :
    (Mergeable first rest → ∃ c, rest.foldlM retainCondition first =
        .ok { first with ifNoneMatch := c } ∧ ∀ x, c = some x ↔ Knows (first :: rest) x) ∧
    (¬ Mergeable first rest → rest.foldlM retainCondition first = .error .identityMismatch) := by
  induction rest generalizing first with
  | nil =>
    have alone : Mergeable first [] := by simp [Mergeable, Knows]; grind
    exact ⟨fun _ => ⟨first.ifNoneMatch, rfl, by simp [Knows]⟩, fun h => absurd alone h⟩
  | cons next rest ih =>
  rw [foldlM_cons, retainCondition]
  simp only [sameOptions, Bool.or_eq_true, Bool.not_eq_true', decide_eq_false_iff_not,
    Option.any_eq_true, decide_eq_true_eq]
  split
  next refused =>
    refine ⟨fun whole => ?_, fun _ => rfl⟩
    obtain differs | ⟨x, hx, y, hy, ne⟩ := refused
    · exact absurd (whole.1 next mem_cons_self) differs
    · exact absurd (whole.2 x y (knows_cons.mpr (.inl hx))
        (knows_cons.mpr (.inr (knows_cons.mpr (.inl hy))))) ne
  next merges =>
  -- the condition is known of the merged binding exactly where one of the two has it
  simp only [not_or, not_not, not_exists, not_and] at merges
  obtain ⟨same, agree⟩ := merges
  have knows (x : Bool) : Knows ({ first with
      ifNoneMatch := first.ifNoneMatch.or next.ifNoneMatch } :: rest) x ↔
      Knows (first :: next :: rest) x := by
    rw [knows_cons, knows_cons, knows_cons, ← or_assoc]
    refine or_congr_left ?_
    cases known : first.ifNoneMatch with
    | none => simp
    | some a => simpa using fun h => agree a known x h
  have iff : Mergeable { first with ifNoneMatch := first.ifNoneMatch.or next.ifNoneMatch } rest ↔
      Mergeable first (next :: rest) := by
    simp only [Mergeable, knows, forall_mem_cons, and_iff_right same]
  rw [← iff]
  simp only [← knows]
  exact ih _

/-- Bindings of decoded requests have one identity exactly when method and cache-key options are
the same. Folding the bindings of an upload succeeds exactly when all have one identity and the
block-zero ones one condition, whatever the order of the later ones. -/
theorem upload_identity_exact :
    (∀ (maxLen maxLen' : Nat) (a : ParsedMessage maxLen) (b : ParsedMessage maxLen') (i j : Nat)
      (x y : RequestBinding), fromMessage a i = .ok x → fromMessage b j = .ok y →
      (x.sameOptions y = true ↔ identity a = identity b)) ∧
    ∀ (first : RequestBinding) (rest : List RequestBinding),
      ((∃ merged, rest.foldlM retainCondition first = .ok merged) ↔
        (first :: rest).Pairwise (fun a b => a.sameOptions b = true) ∧
          ∀ a ∈ first :: rest, ∀ b ∈ first :: rest, ∀ x y,
            a.ifNoneMatch = some x → b.ifNoneMatch = some y → x = y) ∧
      ∀ order, rest.Perm order →
        rest.foldlM retainCondition first = order.foldlM retainCondition first := by
  simp only [sameOptions, decide_eq_true_eq]
  refine ⟨?_, fun first rest => ?_⟩
  · intro _ _ a b i j x y left right
    obtain ⟨bytes, short⟩ := fromMessage_ok left
    obtain ⟨bytes', short'⟩ := fromMessage_ok right
    rw [bytes, bytes', List.cons.injEq, Prod.ext_iff]
    refine and_congr ⟨congrArg Code.mk, congrArg Code.raw⟩ ?_
    exact ⟨flatMap_fieldBytes_inj short short', fun same => by rw [same]⟩
  obtain ⟨yes, no⟩ := foldlM_retainCondition first rest
  refine ⟨⟨?_, ?_⟩, ?_⟩
  · rintro ⟨merged, folded⟩
    by_cases whole : Mergeable first rest
    · refine ⟨List.pairwise_cons.mpr ⟨whole.1, List.pairwise_of_forall_mem_list ?_⟩, ?_⟩
      · exact fun a ha b hb => (whole.1 a ha).symm.trans (whole.1 b hb)
      · exact fun a ha b hb x y hx hy => whole.2 x y ⟨a, ha, hx⟩ ⟨b, hb, hy⟩
    · rw [no whole] at folded
      cases folded
  · rintro ⟨same, agree⟩
    obtain ⟨c, folded, -⟩ := yes ⟨(List.pairwise_cons.mp same).1, by
      rintro x y ⟨a, ha, hx⟩ ⟨b, hb, hy⟩
      exact agree a ha b hb x y hx hy⟩
    exact ⟨_, folded⟩
  -- success and the condition that is kept depend on the set of the bindings alone
  intro order perm
  have knows (x : Bool) : Knows (first :: rest) x ↔ Knows (first :: order) x := by
    simp only [Knows, (perm.cons first).mem_iff]
  have iff : Mergeable first rest ↔ Mergeable first order := by
    simp only [Mergeable, knows, perm.mem_iff]
  obtain ⟨yes', no'⟩ := foldlM_retainCondition first order
  by_cases whole : Mergeable first rest
  · obtain ⟨c, folded, known⟩ := yes whole
    obtain ⟨c', folded', known'⟩ := yes' (iff.mp whole)
    have same : c = c' := Option.ext fun x => (known x).trans ((knows x).trans (known' x).symm)
    rw [folded, folded', same]
  · rw [no whole, no' (iff.not.mp whole)]

/-- The first two blocks of an upload: one has the condition, the other a format with a zero. -/
example :
    let binding (bytes : List UInt8) (num : Nat) :=
      (decodeWithToken 8 bytes).toOption.bind fun m => (fromMessage m num).toOption
    binding [0x40, 3, 0, 1, 0x50, 0x61, 97, 0x11, 50, 0xd1, 2, 0x08] 0 =
        some ⟨[3, 0, 11, 0, 1, 97, 0, 12, 0, 1, 50], some true, false⟩ ∧
      binding [0x40, 3, 0, 2, 0xb1, 97, 0x12, 0, 50, 0xd1, 2, 0x18] 1 =
        some ⟨[3, 0, 11, 0, 1, 97, 0, 12, 0, 1, 50], none, false⟩ := by
  decide +kernel

end RequestBinding

end Coaptic.Block
