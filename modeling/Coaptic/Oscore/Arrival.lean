import Coaptic.Oscore.Response
import Coaptic.Oscore.Seal

/-!
# What arrives

A sealed datagram decodes, its OSCORE option is read back, and its ciphertext opens to the
inner message. The options were split by class into an inner and an outer list, some were
written twice and one was added; the receiver's merge puts back the stable sort of the original
list.
-/
namespace Coaptic.Oscore

open Codec Bytes StableSort List
open UInt16 (ofNat)
open OptionsBuilder (key)

variable {maxLen : Nat}

/-! ### The OSCORE option -/

theorem slice_append (front middle rest : List UInt8) (i stop : Nat) (start : i = front.length)
    (length : stop = i + middle.length) :
    slice (front ++ (middle ++ rest)) i stop = some middle := by
  subst start length
  rw [slice, if_pos (by simp), drop_left, Nat.add_sub_cancel_left, take_left]

theorem headerFlags (n : Nat) (short : n ≤ 5) (kid kidContext : Bool) :
    let flags := UInt8.ofNat n ||| (if kid then 0x08 else 0) ||| (if kidContext then 0x10 else 0)
    flags &&& 0xe0 = 0 ∧ (flags &&& 0x07).toNat = n ∧ (flags &&& 0x10 != 0) = kidContext ∧
      (flags &&& 0x08 != 0) = kid := by
  revert kid kidContext
  interval_cases n <;> decide

theorem parsePiv_append (flags : UInt8) (piv : Option PartialIv) (rest : List UInt8) :
    parsePiv (flags :: ((piv.map (·.bytes)).getD [] ++ rest)) ((piv.map (·.bytes.length)).getD 0) =
      .ok (piv, 1 + (piv.map (·.bytes.length)).getD 0) := by
  cases piv with
  | none => rfl
  | some piv =>
  have some := length_pos_iff.mpr piv.nonempty
  have bytes := slice_append [flags] piv.bytes rest 1 (1 + piv.bytes.length) rfl rfl
  simp only [singleton_append] at bytes
  simp only [parsePiv, Option.map_some, Option.getD_some, if_pos some, bytes, PartialIv.fromBytes,
    dif_pos (And.intro piv.nonempty piv.length_le)]

def contextWire : Option (List UInt8) → List UInt8
  | none => []
  | some ctx => UInt8.ofNat ctx.length :: ctx

theorem parseKidContext_append (front rest : List UInt8) (kidContext : Option (List UInt8))
    (short : ∀ ctx, kidContext = some ctx → ctx.length ≤ maxIdContextLen) :
    parseKidContext (front ++ (contextWire kidContext ++ rest)) kidContext.isSome front.length =
      .ok (kidContext, front.length + (contextWire kidContext).length) := by
  cases kidContext with
  | none => rfl
  | some ctx =>
  have size : (UInt8.ofNat ctx.length).toNat = ctx.length := by
    have := short ctx rfl
    simp only [maxIdContextLen] at this
    rw [UInt8.toNat_ofNat']
    omega
  have bytes := slice_append (front ++ [UInt8.ofNat ctx.length]) ctx rest (front.length + 1)
    (front.length + 1 + ctx.length) (by simp) rfl
  simp only [append_assoc, singleton_append] at bytes
  have position : front.length + (ctx.length + 1) = front.length + 1 + ctx.length := by omega
  simp only [parseKidContext, contextWire, Option.isSome_some, if_true, cons_append,
    getElem?_append_right (Nat.le_refl _), Nat.sub_self, getElem?_cons_zero, size,
    bytes, length_cons, position]

theorem parseKid_append (front : List UInt8) (kid : Option (List UInt8)) :
    parseKid (front ++ kid.getD []) kid.isSome front.length = .ok kid := by
  cases kid with
  | none => simp [parseKid]
  | some kid => simp [parseKid]

variable {room : Nat} {piv : Option PartialIv} {kid kidContext : Option (List UInt8)}
  {oscore value : List UInt8} {code : Code} {opts : List Opt} {opt : Opt}

/-- A value that was written: no byte when every field is absent, else the flags and the
fields in turn. -/
theorem encodeOption_ok (h : encodeOption room piv kidContext kid = .ok value) :
    (∀ ctx, kidContext = some ctx → ctx.length ≤ maxIdContextLen) ∧
    ((piv = none ∧ kidContext = none ∧ kid = none ∧ value = []) ∨
      value = (UInt8.ofNat ((piv.map (·.bytes.length)).getD 0) |||
          (if kid.isSome then 0x08 else 0) ||| (if kidContext.isSome then 0x10 else 0)) ::
        ((piv.map (·.bytes)).getD [] ++ (contextWire kidContext ++ kid.getD []))) := by
  simp only [encodeOption] at h
  split at h
  · cases h
  next shortContext =>
  refine ⟨?_, ?_⟩
  · rintro ctx rfl
    simpa using shortContext
  split at h
  · cases h
  split at h
  · cases h
  split at h
  next nothing =>
    cases h
    obtain ⟨noPiv, rfl, rfl⟩ := nothing
    cases piv with
    | none => exact .inl ⟨rfl, rfl, rfl, rfl⟩
    | some piv => exact absurd (length_eq_zero_iff.mp noPiv) piv.nonempty
  · split at h
    · split at h
      · cases h
      · cases h
        exact .inr (by simp [contextWire])
    split at h
    · cases h
    · cases h
      exact .inr (by simp [contextWire])

/-- The parser reads back the three fields. -/
theorem parse_encodeOption (h : encodeOption room piv kidContext kid = .ok value) :
    OscoreHeader.parse value = .ok ⟨piv, kidContext, kid⟩ := by
  obtain ⟨contextLe, ⟨rfl, rfl, rfl, rfl⟩ | rfl⟩ := encodeOption_ok h
  · rfl
  have pivLe : (piv.map (·.bytes.length)).getD 0 ≤ 5 := by
    cases piv with
    | none => exact Nat.zero_le _
    | some piv => exact piv.length_le
  have pivLength : (piv.map (·.bytes.length)).getD 0 = ((piv.map (·.bytes)).getD []).length := by
    cases piv <;> rfl
  obtain ⟨reserved, size, hasContext, hasKid⟩ := headerFlags _ pivLe kid.isSome kidContext.isSome
  generalize UInt8.ofNat ((piv.map (·.bytes.length)).getD 0) |||
    (if kid.isSome = true then 0x08 else 0) |||
    (if kidContext.isSome = true then 0x10 else 0) = flags at *
  -- the parser reads the fields one after the other, each from where the last one ended
  have first := parsePiv_append flags piv (contextWire kidContext ++ kid.getD [])
  have second := parseKidContext_append (flags :: (piv.map (·.bytes)).getD []) (kid.getD [])
    kidContext contextLe
  have third := parseKid_append (flags :: ((piv.map (·.bytes)).getD [] ++ contextWire kidContext)) kid
  simp only [cons_append, length_cons, append_assoc, length_append, ← pivLength]
    at second third
  simp only [OscoreHeader.parse, reserved, size, hasContext, hasKid, ne_eq, not_true_eq_false,
    if_false, if_neg (show ¬((piv.map (·.bytes.length)).getD 0 = 6 ∨
      (piv.map (·.bytes.length)).getD 0 = 7) by omega), first, bind, Except.bind]
  rw [Nat.add_comm 1, second]
  simp only
  rw [show (piv.map (·.bytes.length)).getD 0 + 1 + (contextWire kidContext).length =
    (piv.map (·.bytes.length)).getD 0 + (contextWire kidContext).length + 1 by omega, third]

/-! ### Options -/

/-- The options that arrive: all but OSCORE, a notification's Observe without its value. -/
def deliveredOptions (notify : Bool) (opts : List Opt) : List Opt :=
  (opts.filter fun opt => !isOscore opt.number).map (emptyObserve notify)

def delivered (plain : Message maxLen) : ExtendedMessage where
  ty := plain.ty
  code := plain.code
  id := plain.id
  token := plain.token.bytes
  options := sortBy OptionsBuilder.key (deliveredOptions plain.code.isResponse plain.options)
  payload := plain.payload

/-- The receiver has room for the message: sixteen options, and 1280 bytes in its buffer. -/
structure Fits (plain : Message maxLen) (room : Nat) : Prop where
  options : (delivered plain).options.length ≤ optSlots
  bytes : (wire (delivered plain)).length ≤ min room innerLen

def copiedOptions (opts : List Opt) : List Opt :=
  opts.filter fun opt => !isOscore opt.number && encodeAsOuter opt.number

/-- The Max-Age that an Observe response gets. -/
def addedMaxAge (code : Code) (opts : List Opt) : List Opt :=
  if code.isResponse && opts.any isObserve then [⟨14, []⟩] else []

open OptionsBuilder in
theorem outerOptions_ok {result : OptionsBuilder optSlots}
    (h : outerOptions code opts oscore = .ok result) : ∀ k, level key k result.items =
      level key k (copiedOptions opts ++ [⟨9, oscore⟩] ++ addedMaxAge code opts) := by
  simp only [outerOptions] at h
  split at h
  · cases h
  next listed built =>
  obtain ⟨copied, pushed, added⟩ := Option.bind_eq_some_iff.mp built
  have start : Sorted key (new : OptionsBuilder optSlots).items := List.Pairwise.nil
  obtain ⟨sorted, -, levels⟩ := pushAll_spec start pushed
  obtain ⟨sorted', -, levels'⟩ := push_spec sorted added
  have merged : ∀ k, level key k listed.items = level key k (copiedOptions opts ++ [⟨9, oscore⟩]) := by
    intro k
    rw [levels', level_append, levels, ← level_append]
    rfl
  simp only [addedMaxAge]
  split at h
  next notification =>
    split at h
    · cases h
    next aged =>
    cases h
    obtain ⟨-, -, levels''⟩ := push_spec sorted' aged
    intro k
    rw [levels'', level_append, merged, if_pos notification, ← level_append]
  next plain =>
    cases h
    intro k
    rw [merged, if_neg plain, append_nil]

theorem number_of_key {k : Nat} (h : key opt = k) : opt.number = ofNat k := by
  rw [← h, key, UInt16.ofNat_toNat]

theorem emptyObserve_of_ne {notify : Bool} (h : opt.number ≠ 6) :
    emptyObserve notify opt = opt := by
  simp [emptyObserve, h]

/-- The receiver's merge has, number by number, the options of the original list. -/
theorem level_merged {items : List Opt} (notify : Bool)
    (outer : ∀ k, level key k items = level key k
      (copiedOptions opts ++ [⟨9, oscore⟩] ++ addedMaxAge code opts))
    (k : Nat) : level key k (items.filter keptOuter ++ innerOptionsOf notify opts) =
      level key k (deliveredOptions notify opts) := by
  have keeps : ∀ opt, key (emptyObserve notify opt) = key opt := by
    intro opt
    rw [key, emptyObserve_number, key]
  have kept : ∀ opt, key opt = k → keptOuter opt =
      (!isOscore (ofNat k) && classify (ofNat k) == .outer) := by
    intro opt same
    rw [keptOuter, number_of_key same]
  have inside : ∀ opt, key opt = k → travelsInner opt =
      (!isOscore (ofNat k) && (classify (ofNat k)).inPlaintext) := by
    intro opt same
    rw [travelsInner, number_of_key same]
  have copied : ∀ opt : Opt, key opt = k →
      (!isOscore opt.number && encodeAsOuter opt.number) =
        (!isOscore (ofNat k) && encodeAsOuter (ofNat k)) := by
    intro opt same
    rw [number_of_key same]
  have dropped : ∀ opt : Opt, key opt = k → (!isOscore opt.number) = !isOscore (ofNat k) := by
    intro opt same
    rw [number_of_key same]
  rw [level_append, level_filter kept, outer, innerOptionsOf, level_map k keeps,
    level_filter inside, deliveredOptions, level_map k keeps, level_filter dropped]
  generalize numberEq : ofNat k = number at *
  cases oscoreNumber : isOscore number with
  | true => simp
  | false =>
  cases cls : classify number with
  | inner => simp [OptionClass.inPlaintext]
  | dual => simp [OptionClass.inPlaintext]
  | outer =>
  -- an outer option arrives on the outside only, and is not Observe
  have notOscore : number ≠ 9 := by simpa [isOscore] using oscoreNumber
  have notMaxAge : number ≠ 14 := by
    rintro rfl
    cases cls
  have notObserve : number ≠ 6 := by
    rintro rfl
    cases cls
  have asOuter : encodeAsOuter number = true := by simp [encodeAsOuter, cls]
  have nine : level key k [(⟨9, oscore⟩ : Opt)] = [] := by
    rw [level_cons, if_neg, level_nil]
    intro same
    exact notOscore (numberEq ▸ (number_of_key same).symm)
  have fourteen : level key k (addedMaxAge code opts) = [] := by
    rw [addedMaxAge]
    split
    · rw [level_cons, if_neg, level_nil]
      intro same
      exact notMaxAge (numberEq ▸ (number_of_key same).symm)
    · rfl
  have unchanged : (level key k opts).map (emptyObserve notify) = level key k opts := by
    conv_rhs => rw [← map_id (level key k opts)]
    apply map_congr_left
    intro opt member
    apply emptyObserve_of_ne
    rw [number_of_key (mem_level.mp member).2, numberEq]
    exact notObserve
  rw [level_append, level_append, nine, fourteen, copiedOptions, level_filter copied]
  simp [asOuter, unchanged, OptionClass.inPlaintext, oscoreNumber]

/-! ### What the receiver makes of a sealed datagram -/

section Receive

variable {prim : Primitives} {plain : Message maxLen} {params : SealParams} {oscore : List UInt8}
  {opts : OptionsBuilder optSlots} {ciphertext packet : List UInt8}

section

variable (s : SealedAs prim plain params oscore opts ciphertext packet)
include s

theorem SealedAs.length_ciphertext : ciphertext.length = (plainWire plain).length + tagLen :=
  prim.length_encrypt s.encrypted

theorem SealedAs.ciphertext_ne : ciphertext ≠ [] := by
  rintro rfl
  have := s.length_ciphertext
  simp [tagLen] at this

/-- The merge of the datagram's options with the inner ones is what arrives. -/
theorem SealedAs.merged :
    sortBy key (opts.items.filter keptOuter ++ innerOptions plain) = (delivered plain).options :=
  sortBy_congr fun k => level_merged plain.code.isResponse (outerOptions_ok s.outer) k

/-- Every option that arrives was written into the datagram or into the plaintext. -/
theorem SealedAs.delivered_values :
    ∀ opt ∈ (delivered plain).options, opt.value.length ≤ maxExtended := by
  intro opt member
  rw [← s.merged, mem_sortBy, mem_append] at member
  rcases member with outside | inside
  · exact s.wellFormed.values_le opt (mem_of_mem_filter outside)
  · exact ((optionsFollow_iff 0 _).mp s.follow).2.2 opt inside

theorem SealedAs.delivered_wellFormed (named : plain.code.isEmpty = false) :
    (delivered plain).WellFormed := by
  refine ⟨s.wellFormed.token_le, ?_, s.delivered_values, ?_⟩
  · have sorted : Sorted key (delivered plain).options := sorted_sortBy _
    exact sorted.imp fun {a b} below => UInt16.le_iff_toNat_le.mpr below
  intro empty
  rw [show (delivered plain).code = plain.code from rfl, named] at empty
  cases empty

end

variable {out : List UInt8}

/-- The inner datagram is the message that arrives. -/
theorem SealedAs.stitchInner_ok (s : SealedAs prim plain params oscore opts ciphertext packet)
    (named : plain.code.isEmpty = false) (fits : Fits plain out.length) :
    ∃ out', stitchInner plain.ty plain.id plain.token opts.items (plainWire plain) out =
      (.ok (wire (delivered plain)).length, out') ∧
      out'.take (wire (delivered plain)).length = wire (delivered plain) := by
  -- the plaintext splits into the inner options and the payload
  have split : splitOptionsAndPayload
      (optionsWire 0 (innerOptions plain) ++ payloadWire plain.payload) 0 =
        .ok (optionsWire 0 (innerOptions plain), plain.payload) :=
    splitFrom_complete (Nat.le_refl _) (Nat.zero_le _) (Nat.le_refl _) s.follow rfl rfl
  -- sixteen options are room for the merge
  have count : (opts.items.filter keptOuter ++ innerOptions plain).length ≤ optSlots := by
    have same : (delivered plain).options.length =
        (opts.items.filter keptOuter ++ innerOptions plain).length := by
      rw [← s.merged, length_sortBy]
    exact same ▸ fits.options
  obtain ⟨result, built⟩ := (OptionsBuilder.new : OptionsBuilder optSlots).pushAll_isSome
    (opts.items.filter keptOuter ++ innerOptions plain) (by simpa [OptionsBuilder.new] using count)
  have items : result.items = (delivered plain).options := by
    rw [OptionsBuilder.pushAll_new built, s.merged]
  have wf := s.delivered_wellFormed named
  have view : (Message.mk plain.ty plain.code plain.id plain.token result.items
      plain.payload).view = delivered plain := by
    rw [Message.view, items]
    rfl
  have room : (wire (delivered plain)).length ≤ (out.take (min out.length innerLen)).length := by
    have := fits.bytes
    rw [length_take]
    omega
  have written := encode_eq_view_encode (Message.mk plain.ty plain.code plain.id plain.token
    result.items plain.payload) (by rw [view]; exact wf) (out.take (min out.length innerLen))
  rw [view, encode_view_of_wire wf room] at written
  have kept : (opts.items.filter fun opt => !isOscore opt.number && classify opt.number == .outer) =
      opts.items.filter keptOuter := rfl
  have stitched : stitchInner plain.ty plain.id plain.token opts.items (plainWire plain) out =
      (.ok (wire (delivered plain)).length, wire (delivered plain) ++
        (out.take (min out.length innerLen)).drop (wire (delivered plain)).length ++
        out.drop (min out.length innerLen)) := by
    simp only [stitchInner, plainWire, split, kept, options_optionsWire s.follow, built, written]
  exact ⟨_, stitched, by rw [append_assoc, take_left]⟩

/-- `msg` is the datagram around `ciphertext`, decoded. -/
structure Carries (plain : Message maxLen) (items : List Opt) (ciphertext : List UInt8)
    (msg : ParsedMessage maxLen) : Prop where
  ty : msg.header.ty = plain.ty
  id : msg.header.id = plain.id
  token : msg.token = plain.token
  options : msg.options = items
  payload : msg.payload = ciphertext

section

variable (s : SealedAs prim plain params oscore opts ciphertext packet)
include s

theorem SealedAs.decoded :
    ∃ msg, decodeWithToken maxLen packet = .ok msg ∧ Carries plain opts.items ciphertext msg := by
  obtain ⟨msg, read, view⟩ := decodeWithToken_wire s.wellFormed plain.token.length_le
  rw [← s.packet_eq] at read
  refine ⟨msg, read, congrArg (·.ty) view, congrArg (·.id) view, ?_, congrArg (·.options) view,
    congrArg (·.payload) view⟩
  have bytes : msg.token.bytes = plain.token.bytes := congrArg (·.token) view
  cases tokenEq : msg.token with
  | mk token length =>
    cases plainEq : plain.token with
    | mk token' length' =>
      rw [tokenEq, plainEq] at bytes
      cases bytes
      rfl

/-- The OSCORE option of the datagram is the first of its number, and is read back. -/
theorem SealedAs.parseProtected_ok {msg : ParsedMessage maxLen}
    (carries : Carries plain opts.items ciphertext msg) :
    parseProtected msg = .ok ⟨params.piv, params.kidContext, params.kid⟩ := by
  have nine : level key 9 opts.items = [⟨9, oscore⟩] := by
    have notCopied : ∀ opt : Opt, key opt = 9 →
        (!isOscore opt.number && encodeAsOuter opt.number) = false := by
      intro opt same
      rw [number_of_key same]
      rfl
    have notAdded : level key 9
        (addedMaxAge (outerCode plain.code plain.options) plain.options) = [] := by
      rw [addedMaxAge]
      split
      · rfl
      · rfl
    rw [outerOptions_ok s.outer, level_append, level_append, copiedOptions, level_filter notCopied,
      notAdded]
    rfl
  have first : msg.getOption 9 = some ⟨9, oscore⟩ := by
    have same : opts.items.filter (·.number == 9) = level key 9 opts.items := by
      apply filter_congr
      intro opt _
      rw [Bool.eq_iff_iff, beq_iff_eq, decide_eq_true_eq, key, ← UInt16.toNat_inj]
      rfl
    rw [ParsedMessage.getOption, carries.options, ← head?_filter, same, nine]
    rfl
  simp only [parseProtected, first, carries.payload, s.ciphertext_ne, if_false,
    parse_encodeOption s.header]

theorem SealedAs.openCiphertext_ok (inverts :
    prim.decrypt params.key params.nonce params.aad ciphertext = some (plainWire plain)) :
    openCiphertext prim params.key params.nonce params.aad ciphertext innerLen =
      .ok (plainWire plain) := by
  have length := s.length_ciphertext
  have short := s.short
  rw [openCiphertext, if_neg (by omega), if_neg (by omega), inverts]

end

/-- The delivered datagram decodes to the delivered message. -/
theorem decodeOwned_delivered (wf : (delivered plain).WellFormed)
    (front : out.take (wire (delivered plain)).length = wire (delivered plain)) :
    ∃ parsed : ParsedMessage maxLen,
      SecurityContext.decodeOwned (out.take (wire (delivered plain)).length) = .ok parsed ∧
        parsed.view = delivered plain := by
  obtain ⟨parsed, read, view⟩ := decodeWithToken_wire wf plain.token.length_le
  exact ⟨parsed, by simp only [SecurityContext.decodeOwned, front, read], view⟩

end Receive

end Coaptic.Oscore
