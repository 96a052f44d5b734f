import Coaptic.Receipts.Record

/-!
# Credentials

A pinned peer is a P-256 point with a one-byte key identifier. Its principal is the BLAKE3
fingerprint of the 82-byte credential that the two determine. The hash and the curve are not part
of this development: a value of `Primitives` supplies them.
-/
namespace Coaptic.Provisioning

open Receipts (Fixed)

/-- BLAKE3 in its two keyed modes, and the import of SEC1 points into affine coordinates. What is
imported can be imported again from its uncompressed form. -/
structure Primitives where
  deriveKey : String → List UInt8 → Fixed 32
  keyed : Fixed 32 → List UInt8 → Fixed 32
  fromSec1 : List UInt8 → Option (Fixed 32 × Fixed 32)
  fromSec1_uncompressed : ∀ bytes x y,
    fromSec1 bytes = some (x, y) → fromSec1 (4 :: (x.bytes ++ y.bytes)) = some (x, y)

def zeros (n : Nat) : Fixed n := ⟨List.replicate n 0, List.length_replicate⟩

def u64Max : Nat := 2 ^ 64 - 1

theorem one_le_u64Max : 1 ≤ u64Max := by decide

def checkedAdd (a b : Nat) : Option Nat := if a + b ≤ u64Max then some (a + b) else none

theorem checkedAdd_eq_some {a b c : Nat} : checkedAdd a b = some c ↔ a + b ≤ u64Max ∧ c = a + b := by
  simp only [checkedAdd]
  split
  next fits => simp [fits, eq_comm]
  next overflow => simp [overflow]

abbrev Principal := Fixed 32

/-- Primitives to evaluate the model with: hashes keep the first bytes of their input, and every
pair of coordinates is a point. -/
def Primitives.sample : Primitives where
  deriveKey _ bytes := ⟨(bytes ++ List.replicate 32 0).take 32, by simp⟩
  keyed _ bytes := ⟨(bytes ++ List.replicate 32 0).take 32, by simp⟩
  fromSec1 bytes :=
    if h : bytes.length = 65 ∧ bytes.head? = some 4 then
      some (⟨(bytes.drop 1).take 32, by simp; omega⟩, ⟨bytes.drop 33, by simp; omega⟩)
    else none
  fromSec1_uncompressed := by
    intro bytes x y _
    have size : (x.bytes ++ y.bytes).length = 64 := by simp
    simp only [List.length_cons, size, List.head?_cons, and_self, ↓reduceDIte, Option.some.injEq,
      Prod.mk.injEq]
    constructor
    · ext1
      simp
    ext1
    show (x.bytes ++ y.bytes).drop 32 = y.bytes
    exact List.drop_left' x.length_eq

def credentialDomain : String :=
  "https://github.com/jeffglousher/coaptic credential fingerprint v1"

variable (prim : Primitives)

/-- An installed credential; the point is on the curve. -/
structure PinnedPeer where
  x : Fixed 32
  y : Fixed 32
  kid : UInt8
  valid : prim.fromSec1 (4 :: (x.bytes ++ y.bytes)) = some (x, y)

namespace PinnedPeer

variable {prim}

def fromPublicKey (bytes : List UInt8) (kid : UInt8) : Option (PinnedPeer prim) :=
  match h : prim.fromSec1 bytes with
  | none => none
  | some (x, y) => some ⟨x, y, kid, prim.fromSec1_uncompressed bytes x y h⟩

section

variable (peer : PinnedPeer prim)

def publicKey : Fixed 65 where
  bytes := 4 :: (peer.x.bytes ++ peer.y.bytes)
  length_eq := by simp

def publicX : Fixed 32 := peer.x

def encoded : List UInt8 :=
  [0xa1, 0x08, 0xa1, 0x01, 0xa5, 0x01, 0x02, 0x02, 0x41, peer.kid, 0x20, 0x01, 0x21, 0x58, 0x20] ++
    peer.x.bytes ++ [0x22, 0x58, 0x20] ++ peer.y.bytes

def principal : Principal := prim.deriveKey credentialDomain peer.encoded

def sample (n : UInt8) : PinnedPeer Primitives.sample where
  x := .fill 32 n
  y := zeros 32
  kid := n
  valid := by
    simp only [Primitives.sample]
    rfl

/-- Reading a peer's own key and identifier gives the peer. -/
theorem fromPublicKey_publicKey : fromPublicKey peer.publicKey.bytes peer.kid = some peer := by
  simp only [fromPublicKey, publicKey]
  split
  next absent => simp [peer.valid] at absent
  next x y found =>
  have same := peer.valid.symm.trans found
  simp only [Option.some.injEq, Prod.mk.injEq] at same
  obtain ⟨rfl, rfl⟩ := same
  rfl

end

end PinnedPeer

/-- The local credential. The private key takes part in cryptography only. -/
structure Identity where
  peer : PinnedPeer prim

namespace Identity

variable {prim}

def publicX (identity : Identity prim) : Fixed 32 := identity.peer.publicX

def isSelf (identity : Identity prim) (peer : PinnedPeer prim) : Bool :=
  identity.publicX = peer.publicX

end Identity

/-- What a finished handshake proved. -/
structure Session where
  principal : Principal
  localPrincipal : Principal
deriving DecidableEq

end Coaptic.Provisioning
