import Mathlib.Data.Nat.Digits.Lemmas
import Mathlib.Tactic.Ring
import Mathlib.Tactic.Linarith

/-! Numbers as lists of machine words, the lowest word first. -/

set_option autoImplicit false

namespace BotBrew.Words

abbrev Byte := BitVec 8

abbrev Word := BitVec 32

variable {w : Nat}

def value (words : List (BitVec w)) : Nat := Nat.ofDigits (2 ^ w) (words.map BitVec.toNat)

@[simp] theorem value_nil : value ([] : List (BitVec w)) = 0 := rfl

theorem value_cons (word : BitVec w) (words : List (BitVec w)) :
    value (word :: words) = word.toNat + 2 ^ w * value words :=
  Nat.ofDigits_cons

theorem value_append (low high : List (BitVec w)) :
    value (low ++ high) = value low + (2 ^ w) ^ low.length * value high := by
  rw [value, List.map_append, Nat.ofDigits_append, List.length_map, value, value]

theorem value_replicate_zero (count : Nat) : value (List.replicate count (0 : BitVec w)) = 0 := by
  induction count with
  | zero => rfl
  | succ count hypothesis => rw [List.replicate_succ, value_cons, hypothesis]; simp

theorem value_lt (words : List (BitVec w)) : value words < (2 ^ w) ^ words.length := by
  induction words with
  | nil => simp
  | cons word words hypothesis =>
    have digit := word.isLt
    rw [value_cons, List.length_cons, pow_succ']
    calc word.toNat + 2 ^ w * value words
        < 2 ^ w + 2 ^ w * value words := Nat.add_lt_add_right digit _
      _ = 2 ^ w * (value words + 1) := by ring
      _ ≤ 2 ^ w * (2 ^ w) ^ words.length := Nat.mul_le_mul_left _ hypothesis

/-- A number of as many words as another one has the same words, if it is the same number. -/
theorem value_injective {words others : List (BitVec w)} (same_length : words.length = others.length)
    (same : value words = value others) : words = others := by
  induction words generalizing others with
  | nil => exact (List.length_eq_zero_iff.mp same_length.symm).symm
  | cons word words hypothesis =>
    cases others with
    | nil => cases same_length
    | cons other others =>
      rw [value_cons, value_cons] at same
      have low : word.toNat = other.toNat := by
        have remainder := congrArg (· % 2 ^ w) same
        simpa [Nat.add_mul_mod_self_left, Nat.mod_eq_of_lt word.isLt, Nat.mod_eq_of_lt other.isLt] using remainder
      rw [low, Nat.add_left_cancel_iff] at same
      have high := Nat.eq_of_mul_eq_mul_left (Nat.two_pow_pos w) same
      rw [BitVec.eq_of_toNat_eq low, hypothesis (Nat.succ.inj same_length) high]

/-! ## Bytes, the highest one first -/

def bigEndian (bytes : List Byte) : Nat := value bytes.reverse

@[simp] theorem bigEndian_nil : bigEndian [] = 0 := rfl

theorem bigEndian_append (high low : List Byte) :
    bigEndian (high ++ low) = bigEndian high * (2 ^ 8) ^ low.length + bigEndian low := by
  rw [bigEndian, List.reverse_append, value_append, List.length_reverse, bigEndian, bigEndian]
  ring

theorem bigEndian_injective {bytes others : List Byte} (same_length : bytes.length = others.length)
    (same : bigEndian bytes = bigEndian others) : bytes = others :=
  List.reverse_injective (value_injective (by simpa using same_length) same)

/-- Four bytes as a word -/
def wordOf (b0 b1 b2 b3 : Byte) : Word :=
  b0.setWidth 32 <<< 24 ||| b1.setWidth 32 <<< 16 ||| b2.setWidth 32 <<< 8 ||| b3.setWidth 32 <<< 0

/-- A word as four bytes -/
def bytesOf (word : Word) : List Byte :=
  [(word >>> 24).setWidth 8, (word >>> 16).setWidth 8, (word >>> 8).setWidth 8, (word >>> 0).setWidth 8]

@[simp] theorem bytesOf_length (word : Word) : (bytesOf word).length = 4 := rfl

theorem shifted_toNat (byte : Byte) {count : Nat} (fits : count ≤ 24) :
    (byte.setWidth 32 <<< count).toNat = byte.toNat <<< count := by
  have digit := byte.isLt
  have below : byte.toNat <<< count < 2 ^ 32 := by
    rw [Nat.shiftLeft_eq]
    calc byte.toNat * 2 ^ count
        < 2 ^ 8 * 2 ^ count := Nat.mul_lt_mul_of_pos_right digit (Nat.two_pow_pos _)
      _ ≤ 2 ^ 8 * 2 ^ 24 := Nat.mul_le_mul_left _ (Nat.pow_le_pow_right (by decide) fits)
      _ = 2 ^ 32 := by decide
  have widened : (byte.setWidth 32).toNat = byte.toNat := by
    rw [BitVec.toNat_setWidth]
    omega
  rw [BitVec.toNat_shiftLeft, widened, Nat.mod_eq_of_lt below]

theorem wordOf_toNat (b0 b1 b2 b3 : Byte) : (wordOf b0 b1 b2 b3).toNat = bigEndian [b0, b1, b2, b3] := by
  have first := b0.isLt
  have second := b1.isLt
  have third := b2.isLt
  have fourth := b3.isLt
  -- each byte is or-ed to a number below its lowest bit
  have low : b2.toNat <<< 8 + b3.toNat = b2.toNat <<< 8 ||| b3.toNat := Nat.shiftLeft_add_eq_or_of_lt fourth _
  have middle : b1.toNat <<< 16 + (b2.toNat <<< 8 + b3.toNat) = b1.toNat <<< 16 ||| (b2.toNat <<< 8 + b3.toNat) :=
    Nat.shiftLeft_add_eq_or_of_lt (by rw [Nat.shiftLeft_eq]; omega) _
  have high : b0.toNat <<< 24 + (b1.toNat <<< 16 + (b2.toNat <<< 8 + b3.toNat)) =
      b0.toNat <<< 24 ||| (b1.toNat <<< 16 + (b2.toNat <<< 8 + b3.toNat)) :=
    Nat.shiftLeft_add_eq_or_of_lt (by rw [Nat.shiftLeft_eq, Nat.shiftLeft_eq]; omega) _
  rw [wordOf, BitVec.toNat_or, BitVec.toNat_or, BitVec.toNat_or, shifted_toNat _ (by decide),
    shifted_toNat _ (by decide), shifted_toNat _ (by decide), shifted_toNat _ (by decide), Nat.or_assoc, Nat.or_assoc,
    Nat.shiftLeft_zero, ← low, ← middle, ← high]
  simp only [bigEndian, List.reverse_cons, List.reverse_nil, List.nil_append, List.cons_append, value_cons, value_nil,
    Nat.shiftLeft_eq]
  ring

theorem bigEndian_bytesOf (word : Word) : bigEndian (bytesOf word) = word.toNat := by
  have digit := word.isLt
  simp only [bigEndian, bytesOf, List.reverse_cons, List.reverse_nil, List.nil_append, List.cons_append, value_cons,
    value_nil, BitVec.toNat_setWidth, BitVec.toNat_ushiftRight, Nat.shiftRight_eq_div_pow]
  omega

theorem bytesOf_wordOf (b0 b1 b2 b3 : Byte) : bytesOf (wordOf b0 b1 b2 b3) = [b0, b1, b2, b3] :=
  bigEndian_injective rfl (by rw [bigEndian_bytesOf, wordOf_toNat])

/-- The bytes of a word where the lowest one comes first -/
def memory (word : Word) : List Byte := (bytesOf word).reverse

@[simp] theorem memory_length (word : Word) : (memory word).length = 4 := rfl

theorem value_memory (word : Word) : value (memory word) = word.toNat := bigEndian_bytesOf word

theorem memory_injective {word other : Word} (same : memory word = memory other) : word = other :=
  BitVec.eq_of_toNat_eq (by rw [← value_memory, same, value_memory])

end BotBrew.Words
