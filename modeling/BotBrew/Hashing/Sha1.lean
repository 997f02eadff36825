import BotBrew.Hashing.Blocks
import BotBrew.Words.Limbs

/-! SHA-1 as its standard describes it: padding, message schedule and the eighty steps of a block. -/

set_option autoImplicit false

namespace BotBrew.Hashing.Sha1

open Words

structure Registers where
  a : Word
  b : Word
  c : Word
  d : Word
  e : Word
  deriving DecidableEq

def initial : Registers := ⟨0x67452301, 0xEFCDAB89, 0x98BADCFE, 0x10325476, 0xC3D2E1F0⟩

/-- The first sixteen words are those of the block, and every other one comes from four before it. -/
def schedule (block : List Byte) (t : Nat) : Word :=
  if t < 16 then
    wordOf (block.getD (4 * t) 0) (block.getD (4 * t + 1) 0) (block.getD (4 * t + 2) 0) (block.getD (4 * t + 3) 0)
  else (schedule block (t - 3) ^^^ schedule block (t - 8) ^^^ schedule block (t - 14) ^^^ schedule block (t - 16)).rotateLeft 1
termination_by t

def choose (x y z : Word) : Word := (x &&& y) ^^^ (~~~x &&& z)

def parity (x y z : Word) : Word := x ^^^ y ^^^ z

def majority (x y z : Word) : Word := (x &&& y) ^^^ (x &&& z) ^^^ (y &&& z)

def mix (t : Nat) : Word → Word → Word → Word :=
  if t < 20 then choose else if t < 40 then parity else if t < 60 then majority else parity

def constant (t : Nat) : Word :=
  if t < 20 then 0x5A827999 else if t < 40 then 0x6ED9EBA1 else if t < 60 then 0x8F1BBCDC else 0xCA62C1D6

def step (t : Nat) (word : Word) (r : Registers) : Registers :=
  ⟨r.a.rotateLeft 5 + mix t r.b r.c r.d + r.e + constant t + word, r.a, r.b.rotateLeft 30, r.c, r.d⟩

/-- The registers after the first steps -/
def steps (words : Nat → Word) (r : Registers) : Nat → Registers
  | 0 => r
  | t + 1 => step t (words t) (steps words r t)

def Registers.add (r s : Registers) : Registers := ⟨r.a + s.a, r.b + s.b, r.c + s.c, r.d + s.d, r.e + s.e⟩

def compression : Compression Registers Byte where
  size := 64
  positive := by decide
  compress r block := r.add (steps (schedule block) r 80)

theorem compress_eq (r : Registers) (block : List Byte) :
    compression.compress r block = r.add (steps (schedule block) r 80) :=
  rfl

/-- The length in bits, in eight bytes -/
def lengthBytes (bytes : Nat) : List Byte :=
  (List.range 8).map fun i => (BitVec.ofNat 64 (8 * bytes) >>> ((7 - i) * 8)).setWidth 8

/-- As many zeros as it takes to leave room for the length at the end of a block -/
def zeros (bytes : Nat) : Nat := (119 - bytes % 64) % 64

def padded (message : List Byte) : List Byte :=
  message ++ 0x80 :: List.replicate (zeros message.length) 0 ++ lengthBytes message.length

def digest (r : Registers) : List Byte := [r.a, r.b, r.c, r.d, r.e].flatMap bytesOf

def sha1 (message : List Byte) : List Byte := digest (compression.absorb initial (padded message))

end BotBrew.Hashing.Sha1
