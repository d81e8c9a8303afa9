import Mathlib.Tactic
import Yurucommu.Whatwg

/-!
Addresses of the internet, the blocks of them that are not public, and what texts denote them:
dotted quads, and the three forms of the addresses of 128 bits.
-/

set_option autoImplicit false

namespace Yurucommu.IpText

open Whatwg (Text)

section numbers

inductive Address where
  | v4 (n : BitVec 32)
  | v6 (n : BitVec 128)
deriving DecidableEq, Repr

/-- The addresses that agree with the base in their first bits. -/
structure Block (w : Nat) where
  base : BitVec w
  length : Nat

def Block.Mem {w : Nat} (block : Block w) (n : BitVec w) : Prop :=
  n.toNat / 2 ^ (w - block.length) = block.base.toNat / 2 ^ (w - block.length)

instance {w : Nat} (block : Block w) (n : BitVec w) : Decidable (block.Mem n) :=
  inferInstanceAs (Decidable (_ = _))

def ofParts (base : Nat) (parts : List Nat) : Nat := parts.foldl (fun n part => n * base + part) 0

def quad (a b c d : Nat) : BitVec 32 := .ofNat 32 (ofParts 256 [a,b,c,d])

def hextets (groups : List Nat) : BitVec 128 := .ofNat 128 (ofParts 65536 groups)

def privateV4 : List (Block 32) := [
  ⟨quad 0 0 0 0,8⟩,⟨quad 10 0 0 0,8⟩,⟨quad 127 0 0 0,8⟩,⟨quad 169 254 0 0,16⟩,
  ⟨quad 172 16 0 0,12⟩,⟨quad 192 168 0 0,16⟩,⟨quad 100 64 0 0,10⟩,⟨quad 192 0 0 0,24⟩,
  ⟨quad 192 0 2 0,24⟩,⟨quad 198 18 0 0,15⟩,⟨quad 198 51 100 0,24⟩,⟨quad 203 0 113 0,24⟩,
  ⟨quad 224 0 0 0,3⟩]

def privateV6 : List (Block 128) := [
  ⟨hextets [0,0,0,0,0,0,0,0],128⟩,⟨hextets [0,0,0,0,0,0,0,1],128⟩,
  ⟨hextets [0xfc00,0,0,0,0,0,0,0],7⟩,⟨hextets [0xfe80,0,0,0,0,0,0,0],10⟩,
  ⟨hextets [0xfec0,0,0,0,0,0,0,0],10⟩,⟨hextets [0xff00,0,0,0,0,0,0,0],8⟩]

def mapped : Block 128 := ⟨hextets [0,0,0,0,0,0xffff,0,0],96⟩
def compatible : Block 128 := ⟨hextets [0,0,0,0,0,0,0,0],96⟩
def nat64 : Block 128 := ⟨hextets [0x64,0xff9b,0,0,0,0,0,0],96⟩
def sixToFour : Block 128 := ⟨hextets [0x2002,0,0,0,0,0,0,0],16⟩

def IsPrivateV4 (n : BitVec 32) : Prop := ∃ block ∈ privateV4, block.Mem n

instance (n : BitVec 32) : Decidable (IsPrivateV4 n) :=
  inferInstanceAs (Decidable (∃ block ∈ privateV4, block.Mem n))

/-- The last 32 bits, and the 32 bits after the first 16. -/
def lastV4 (n : BitVec 128) : BitVec 32 := .ofNat 32 n.toNat
def secondV4 (n : BitVec 128) : BitVec 32 := .ofNat 32 (n.toNat / 2 ^ 80)

def IsPrivateV6 (n : BitVec 128) : Prop :=
  (∃ block ∈ privateV6, block.Mem n) ∨
    (mapped.Mem n ∨ compatible.Mem n ∨ nat64.Mem n) ∧ IsPrivateV4 (lastV4 n) ∨
    sixToFour.Mem n ∧ IsPrivateV4 (secondV4 n)

instance (n : BitVec 128) : Decidable (IsPrivateV6 n) := inferInstanceAs (Decidable (_ ∨ _))

def Address.IsPrivate : Address → Prop
  | .v4 n => IsPrivateV4 n
  | .v6 n => IsPrivateV6 n

instance : DecidablePred Address.IsPrivate
  | .v4 n => inferInstanceAs (Decidable (IsPrivateV4 n))
  | .v6 n => inferInstanceAs (Decidable (IsPrivateV6 n))

end numbers

section grammar

def Octet (t : Text) (n : Nat) : Prop :=
  1 ≤ t.length ∧ t.length ≤ 3 ∧ (∀ c ∈ t, c.isDigit = true) ∧ n = Nat.ofDigitChars 10 t 0 ∧ n ≤ 255

inductive Quad : Text → Nat → Nat → Nat → Nat → Prop
  | intro {t u v w : Text} {a b c d : Nat} : Octet t a → Octet u b → Octet v c → Octet w d →
      Quad (t ++ '.' :: (u ++ '.' :: (v ++ '.' :: w))) a b c d

def isHex (c : Char) : Bool := c.isDigit || ('a' ≤ c && c ≤ 'f') || ('A' ≤ c && c ≤ 'F')

def hexDigit (c : Char) : Nat := if c.isDigit then c.toNat - 48 else c.toLower.toNat - 87

def hexValue (t : Text) : Nat := ofParts 16 (t.map hexDigit)

def HexGroup (t : Text) (n : Nat) : Prop :=
  1 ≤ t.length ∧ t.length ≤ 4 ∧ (∀ c ∈ t, isHex c = true) ∧ n = hexValue t

/-- Groups between colons; the last may be a quad that stands for two of them. -/
inductive Groups : Bool → Text → List Nat → Prop
  | last {q : Bool} {t : Text} {n : Nat} : HexGroup t n → Groups q t [n]
  | quad {t : Text} {a b c d : Nat} : Quad t a b c d → Groups true t [a * 256 + b,c * 256 + d]
  | cons {q : Bool} {t u : Text} {n : Nat} {ns : List Nat} : HexGroup t n → Groups q u ns →
      Groups q (t ++ ':' :: u) (n :: ns)

def NoneOr (R : Text → List Nat → Prop) (t : Text) (ns : List Nat) : Prop :=
  t = [] ∧ ns = [] ∨ R t ns

/-- Eight groups, or fewer with two colons for one or more groups of zeros. -/
inductive Hextets (q : Bool) : Text → List Nat → Prop
  | full {t : Text} {ns : List Nat} : Groups q t ns → ns.length = 8 → Hextets q t ns
  | compressed {t u : Text} {ms ns : List Nat} : NoneOr (Groups false) t ms →
      NoneOr (Groups q) u ns → ms.length + ns.length < 8 →
      Hextets q (t ++ ':' :: ':' :: u)
        (ms ++ List.replicate (8 - ms.length - ns.length) 0 ++ ns)

def withoutZone (t : Text) : Text := t.takeWhile (· ≠ '%')

inductive Denotes : Text → Address → Prop
  | v4 {t : Text} {a b c d : Nat} : Quad t a b c d → Denotes t (.v4 (quad a b c d))
  | v6 {t : Text} {groups : List Nat} : Hextets true (withoutZone t) groups →
      Denotes t (.v6 (hextets groups))

end grammar

end Yurucommu.IpText
