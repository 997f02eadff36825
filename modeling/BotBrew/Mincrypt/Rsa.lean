import BotBrew.Mincrypt.Sha

/-! `rsa.c` of libmincrypt: checking an RSA signature with Montgomery multiplication. -/

set_option autoImplicit false

namespace BotBrew.Mincrypt

open Words

/-- `uint64_t`, and `int64_t` where it is shifted with its sign -/
abbrev Double := BitVec 64

def RSANUMBYTES : Nat := 256

def RSANUMWORDS : Nat := RSANUMBYTES / 4

/-- `n` and `rr` are the words in use: `len` of them. -/
structure RSAPublicKey where
  len : Nat
  n0inv : Word
  n : List Word
  rr : List Word
  n_length : n.length = len
  rr_length : rr.length = len

/-- The loop of `subM` -/
def subLoop (A : Double) : List Word → List Word → List Word
  | a :: rest, n :: ns =>
    (A + (a.setWidth 64 - n.setWidth 64)).setWidth 32 ::
      subLoop ((A + (a.setWidth 64 - n.setWidth 64)).sshiftRight 32) rest ns
  | rest, _ => rest

/-- `a[] -= mod` -/
def subM (key : RSAPublicKey) (a : List Word) : List Word := subLoop 0 a key.n

/-- The loop of `geM`, which starts at the highest word -/
def geLoop : List Word → List Word → Bool
  | a :: rest, n :: ns => if a < n then false else if n < a then true else geLoop rest ns
  | _, _ => true

/-- `a[] >= mod` -/
def geM (key : RSAPublicKey) (a : List Word) : Bool := geLoop a.reverse key.n.reverse

/-- The loop of `montMulAdd`: the words that it stores, and `A` and `B` after it -/
def montLoop (a d0 : Word) (A B : Double) : List Word → List Word → List Word → List Word × Double × Double
  | b :: bs, n :: ns, c :: cs =>
    let A := (A >>> 32) + a.setWidth 64 * b.setWidth 64 + c.setWidth 64
    let B := (B >>> 32) + d0.setWidth 64 * n.setWidth 64 + (A.setWidth 32).setWidth 64
    let (stored, last) := montLoop a d0 A B bs ns cs
    (B.setWidth 32 :: stored, last)
  | _, _, _ => ([], A, B)

/-- The end of `montMulAdd`: the last word, and the bit above it -/
def montLast (key : RSAPublicKey) (stored : List Word) (A B : Double) : List Word :=
  if ((A >>> 32) + (B >>> 32)) >>> 32 ≠ 0 then subM key (stored ++ [((A >>> 32) + (B >>> 32)).setWidth 32])
  else stored ++ [((A >>> 32) + (B >>> 32)).setWidth 32]

/-- `c[] += a * b[] / R % mod`, where `R` is that of one word. The arrays have a first word. -/
def montMulAdd (key : RSAPublicKey) (c : List Word) (a : Word) (b : List Word) : List Word :=
  let A := a.setWidth 64 * (b.headD 0).setWidth 64 + (c.headD 0).setWidth 64
  let d0 := A.setWidth 32 * key.n0inv
  let B := d0.setWidth 64 * (key.n.headD 0).setWidth 64 + (A.setWidth 32).setWidth 64
  let (stored, A, B) := montLoop a d0 A B b.tail key.n.tail c.tail
  montLast key stored A B

/-- `c[] = a[] * b[] / R % mod` -/
def montMul (key : RSAPublicKey) (a b : List Word) : List Word :=
  a.foldl (fun c a => montMulAdd key c a b) (List.replicate key.len 0)

/-- Convert from big endian byte array to little endian word array. -/
def wordsOf (len : Nat) (inout : List Byte) : List Word :=
  (List.range len).map fun i =>
    wordOf (inout.getD ((len - 1 - i) * 4 + 0) 0) (inout.getD ((len - 1 - i) * 4 + 1) 0)
      (inout.getD ((len - 1 - i) * 4 + 2) 0) (inout.getD ((len - 1 - i) * 4 + 3) 0)

/-- Convert to bigendian byte array. -/
def bigEndianBytes (words : List Word) : List Byte := words.reverse.flatMap bytesOf

def modpow3 (key : RSAPublicKey) (inout : List Byte) : List Byte :=
  let a := wordsOf key.len inout
  let aR := montMul key a key.rr
  let aaR := montMul key aR aR
  let aaa := montMul key aaR a
  bigEndianBytes (if geM key aaa then subM key aaa else aaa)

/-- Expected PKCS1.5 signature padding bytes -/
def padding : List Byte :=
  [0x00, 0x01] ++ List.replicate 218 0xff ++
    [0x00, 0x30, 0x21, 0x30, 0x09, 0x06, 0x05, 0x2b, 0x0e, 0x03, 0x02, 0x1a, 0x05, 0x00, 0x04, 0x14]

/-- The first loop goes over the padding, the second one over the digest. -/
def RSA_verify (key : RSAPublicKey) (signature : List Byte) (sha : Vector Byte SHA_DIGEST_SIZE) : Bool :=
  if key.len ≠ RSANUMWORDS then false
  else if signature.length ≠ RSANUMBYTES then false
  else
    let buf := modpow3 key signature
    if buf.take padding.length ≠ padding then false
    else if buf.drop padding.length ≠ sha.toList then false
    else true

end BotBrew.Mincrypt
