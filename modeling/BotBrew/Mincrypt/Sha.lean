import Mathlib.Logic.Function.Basic
import BotBrew.Words.Limbs

/-! `sha.c` of libmincrypt, in both of its versions: the one for little-endian machines that
have `endian.h` and `byteswap.h`, and the one for all others. -/

set_option autoImplicit false

namespace BotBrew.Mincrypt

open Words

def SHA_DIGEST_SIZE : Nat := 20

/-- `state[5]` -/
structure State where
  A : Word
  B : Word
  C : Word
  D : Word
  E : Word

structure SHA_CTX where
  count : BitVec 64
  state : State
  buf : List Byte
  buf_length : buf.length = 64

/-- `ctx->buf[i] = byte` -/
def SHA_CTX.store (ctx : SHA_CTX) (i : Nat) (byte : Byte) : SHA_CTX :=
  { ctx with buf := ctx.buf.set i byte, buf_length := by rw [List.length_set, ctx.buf_length] }

/-- `memcpy(&ctx->buf[i], p, sizeof(ctx->buf) - i)`, where there is so much at `p` -/
def SHA_CTX.fill (ctx : SHA_CTX) (i : Nat) (p : List Byte) (enough : i ≤ 64 ∧ 64 - i ≤ p.length) : SHA_CTX :=
  { ctx with
    buf := ctx.buf.take i ++ p.take (64 - i)
    buf_length := by
      rw [List.length_append, List.length_take, List.length_take, ctx.buf_length]
      omega }

def State.add (s t : State) : State := ⟨s.A + t.A, s.B + t.B, s.C + t.C, s.D + t.D, s.E + t.E⟩

/-! ## Without `HAVE_LITTLE_ENDIAN` -/

namespace Generic

def rol (bits : Nat) (value : Word) : Word := (value <<< bits) ||| (value >>> (32 - bits))

/-- `W[80]` before the rounds -/
def expanded (buf : List Byte) : Nat → Word :=
  let W := (List.range 16).foldl (fun W t => Function.update W t
    (wordOf (buf.getD (4 * t) 0) (buf.getD (4 * t + 1) 0) (buf.getD (4 * t + 2) 0) (buf.getD (4 * t + 3) 0))) fun _ => 0
  (List.range' 16 64).foldl (fun W t => Function.update W t
    (rol 1 (W (t - 3) ^^^ W (t - 8) ^^^ W (t - 14) ^^^ W (t - 16)))) W

def round (W : Nat → Word) (s : State) (t : Nat) : State :=
  let tmp := rol 5 s.A + s.E + W t
  let tmp :=
    if t < 20 then tmp + ((s.D ^^^ (s.B &&& (s.C ^^^ s.D))) + 0x5A827999)
    else if t < 40 then tmp + ((s.B ^^^ s.C ^^^ s.D) + 0x6ED9EBA1)
    else if t < 60 then tmp + (((s.B &&& s.C) ||| (s.D &&& (s.B ||| s.C))) + 0x8F1BBCDC)
    else tmp + ((s.B ^^^ s.C ^^^ s.D) + 0xCA62C1D6)
  ⟨tmp, s.A, rol 30 s.B, s.C, s.D⟩

def SHA1_transform (ctx : SHA_CTX) : SHA_CTX :=
  { ctx with state := ctx.state.add ((List.range 80).foldl (Generic.round (expanded ctx.buf)) ctx.state) }

end Generic

/-- `while (len--)`: each byte is stored, and a full buffer is transformed. -/
def byteLoop (transform : SHA_CTX → SHA_CTX) (ctx : SHA_CTX) (i : Nat) : List Byte → SHA_CTX
  | [] => ctx
  | byte :: p =>
    if i + 1 = 64 then byteLoop transform (transform (ctx.store i byte)) 0 p
    else byteLoop transform (ctx.store i byte) (i + 1) p

def SHA_CTX.counted (ctx : SHA_CTX) (len : Nat) : SHA_CTX := { ctx with count := ctx.count + BitVec.ofNat 64 len }

def Generic.SHA_update (ctx : SHA_CTX) (data : List Byte) : SHA_CTX :=
  byteLoop SHA1_transform (ctx.counted data.length) (ctx.count.toNat % 64) data

/-! ## With `HAVE_ENDIAN_H` and `HAVE_LITTLE_ENDIAN` -/

namespace LittleEndian

def ror27 (val : Word) : Word := (val >>> 27) ||| (val <<< 5)

def ror2 (val : Word) : Word := (val >>> 2) ||| (val <<< 30)

def ror31 (val : Word) : Word := (val >>> 31) ||| (val <<< 1)

/-- `buf.w[t]` -/
def load (buf : List Byte) (t : Nat) : Word :=
  wordOf (buf.getD (4 * t + 3) 0) (buf.getD (4 * t + 2) 0) (buf.getD (4 * t + 1) 0) (buf.getD (4 * t) 0)

def bswap_32 (word : Word) : Word :=
  wordOf (word.setWidth 8) ((word >>> 8).setWidth 8) ((word >>> 16).setWidth 8) ((word >>> 24).setWidth 8)

/-- The variables of `SHA1_Transform` -/
structure Locals where
  W : Nat → Word
  A : Word
  B : Word
  C : Word
  D : Word
  E : Word

/-- The right side of `W[t] = ...` in a macro -/
abbrev Source := (Nat → Word) → Nat → Word

def input (buf : List Byte) : Source := fun _ t => bswap_32 (load buf t)

def mixed : Source := fun W t => ror31 (W (t - 3) ^^^ W (t - 8) ^^^ W (t - 14) ^^^ W (t - 16))

def F1 (B C D : Word) : Word := (D ^^^ (B &&& (C ^^^ D))) + 0x5A827999

def F2 (B C D : Word) : Word := (B ^^^ C ^^^ D) + 0x6ED9EBA1

def F3 (B C D : Word) : Word := ((B &&& C) ||| (D &&& (B ||| C))) + 0x8F1BBCDC

def F4 (B C D : Word) : Word := (B ^^^ C ^^^ D) + 0xCA62C1D6

/-- One of the macros `SHA_F`: `W[t]` and the new `B` and `E` -/
def SHA_F (source : Source) (f : Word → Word → Word → Word) (W : Nat → Word) (A B C D E : Word) (t : Nat) :
    (Nat → Word) × Word × Word :=
  (Function.update W t (source W t), ror2 B, E + (ror27 A + source W t + f B C D))

/-- Five macros in a row. The first one may take `W[t]` from elsewhere than the others. -/
def five (first rest : Source) (f : Word → Word → Word → Word) (s : Locals) (t : Nat) : Locals :=
  let (W, B, E) := SHA_F first f s.W s.A s.B s.C s.D s.E (t + 0)
  let (W, A, D) := SHA_F rest f W E s.A B s.C s.D (t + 1)
  let (W, E, C) := SHA_F rest f W D E A B s.C (t + 2)
  let (W, D, B) := SHA_F rest f W C D E A B (t + 3)
  let (W, C, A) := SHA_F rest f W B C D E A (t + 4)
  ⟨W, A, B, C, D, E⟩

def SHA1_Transform (ctx : SHA_CTX) : SHA_CTX :=
  let s : Locals := ⟨fun _ => 0, ctx.state.A, ctx.state.B, ctx.state.C, ctx.state.D, ctx.state.E⟩
  let s := [0, 5, 10].foldl (five (input ctx.buf) (input ctx.buf) F1) s
  let s := five (input ctx.buf) mixed F1 s 15
  let s := [20, 25, 30, 35].foldl (five mixed mixed F2) s
  let s := [40, 45, 50, 55].foldl (five mixed mixed F3) s
  let s := [60, 65, 70, 75].foldl (five mixed mixed F4) s
  { ctx with state := ctx.state.add ⟨s.A, s.B, s.C, s.D, s.E⟩ }

/-- The loop that copies and transforms whole blocks, and then the one over the bytes that are left -/
def blockLoop (ctx : SHA_CTX) (i : Fin 64) (p : List Byte) : SHA_CTX :=
  if more : 64 - i.val < p.length then
    blockLoop (SHA1_Transform (ctx.fill i p ⟨by omega, by omega⟩)) 0 (p.drop (64 - i))
  else byteLoop SHA1_Transform ctx i p
termination_by p.length
decreasing_by
  rw [List.length_drop]
  omega

def SHA_update (ctx : SHA_CTX) (data : List Byte) : SHA_CTX :=
  blockLoop (ctx.counted data.length) ⟨ctx.count.toNat % 64, Nat.mod_lt _ (by decide)⟩ data

end LittleEndian

/-! ## In both versions -/

def SHA_init (ctx : SHA_CTX) : SHA_CTX :=
  { ctx with count := 0, state := ⟨0x67452301, 0xEFCDAB89, 0x98BADCFE, 0x10325476, 0xC3D2E1F0⟩ }

/-- What a version brings along: `SHA_update`, and how `SHA_final` writes a word of the state -/
structure Implementation where
  update : SHA_CTX → List Byte → SHA_CTX
  written : Word → List Byte
  update_count : ∀ ctx data, (update ctx data).count = ctx.count + BitVec.ofNat 64 data.length
  written_length : ∀ word, (written word).length = 4

@[simp] theorem SHA_CTX.store_count (ctx : SHA_CTX) (i : Nat) (byte : Byte) : (ctx.store i byte).count = ctx.count := by
  rw [store]

@[simp] theorem Generic.SHA1_transform_count (ctx : SHA_CTX) : (SHA1_transform ctx).count = ctx.count := by
  rw [SHA1_transform]

@[simp] theorem LittleEndian.SHA1_Transform_count (ctx : SHA_CTX) : (SHA1_Transform ctx).count = ctx.count := by
  rw [SHA1_Transform]

theorem byteLoop_count {transform : SHA_CTX → SHA_CTX} (kept : ∀ ctx, (transform ctx).count = ctx.count) (ctx : SHA_CTX)
    (i : Nat) (p : List Byte) : (byteLoop transform ctx i p).count = ctx.count := by
  induction p generalizing ctx i with
  | nil => rw [byteLoop]
  | cons byte p hypothesis =>
    rw [byteLoop]
    split
    · rw [hypothesis, kept, ctx.store_count]
    · rw [hypothesis, ctx.store_count]

theorem LittleEndian.blockLoop_count (ctx : SHA_CTX) (i : Fin 64) (p : List Byte) :
    (blockLoop ctx i p).count = ctx.count := by
  induction ctx, i, p using blockLoop.induct with
  | case1 ctx i p more hypothesis => rw [blockLoop, dif_pos more, hypothesis, SHA1_Transform_count, SHA_CTX.fill]
  | case2 ctx i p few => rw [blockLoop, dif_neg few, byteLoop_count SHA1_Transform_count]

def generic : Implementation where
  update := Generic.SHA_update
  written := bytesOf
  update_count ctx data := by rw [Generic.SHA_update, byteLoop_count Generic.SHA1_transform_count, SHA_CTX.counted]
  written_length _ := rfl

def littleEndian : Implementation where
  update := LittleEndian.SHA_update
  written word := memory (LittleEndian.bswap_32 word)
  update_count ctx data := by rw [LittleEndian.SHA_update, LittleEndian.blockLoop_count, SHA_CTX.counted]
  written_length _ := rfl

/-- The zeros up to the last eight bytes of a block -/
def SHA_CTX.pad (version : Implementation) (ctx : SHA_CTX) : SHA_CTX :=
  if ctx.count.toNat % 64 ≠ 64 - 8 then (version.update ctx [0]).pad version else ctx
termination_by (120 - ctx.count.toNat % 64) % 64
decreasing_by
  have one : (BitVec.ofNat 64 1).toNat = 1 := rfl
  rw [version.update_count, BitVec.toNat_add, List.length_singleton, one]
  omega

/-- The length in bits, one byte at a time -/
def SHA_CTX.close (version : Implementation) (ctx : SHA_CTX) (cnt : BitVec 64) : SHA_CTX :=
  (List.range 8).foldl (fun ctx i => version.update ctx [(cnt >>> ((7 - i) * 8)).setWidth 8]) ctx

/-- The words of the state over the start of the buffer -/
def SHA_CTX.write (version : Implementation) (ctx : SHA_CTX) : SHA_CTX :=
  { ctx with
    buf := [ctx.state.A, ctx.state.B, ctx.state.C, ctx.state.D, ctx.state.E].flatMap version.written ++ ctx.buf.drop 20
    buf_length := by simp [version.written_length, ctx.buf_length] }

/-- The context, whose buffer begins with the digest -/
def SHA_final (version : Implementation) (ctx : SHA_CTX) : SHA_CTX :=
  let cnt := ctx.count * 8
  (((version.update ctx [0x80]).pad version).close version cnt).write version

def SHA (version : Implementation) (ctx : SHA_CTX) (data : List Byte) : List Byte :=
  (SHA_final version (version.update (SHA_init ctx) data)).buf.take SHA_DIGEST_SIZE

end BotBrew.Mincrypt
