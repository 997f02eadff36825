import Mathlib.Data.Nat.ModEq
import Mathlib.Data.Nat.Prime.Basic
import Mathlib.Tactic.Linarith
import Mathlib.Tactic.LinearCombination
import Mathlib.Tactic.Zify
import BotBrew.Mincrypt.Rsa

/-! A signature is accepted exactly when its cube modulo `n` is the padded digest. -/

set_option autoImplicit false

namespace BotBrew.Mincrypt

open Words

/-! ## Subtraction and comparison -/

theorem difference_toInt {A : Double} (borrowed : A = 0 ∨ A = -1) (a n : Word) :
    (A + (a.setWidth 64 - n.setWidth 64)).toInt = A.toInt + a.toNat - n.toNat := by
  have left := a.isLt
  have right := n.isLt
  have widen : ∀ word : Word, (word.setWidth 64).toNat = word.toNat := by
    intro word
    have digit := word.isLt
    rw [BitVec.toNat_setWidth]
    omega
  rw [BitVec.toInt_eq_toNat_cond, BitVec.toNat_add, BitVec.toNat_sub, widen, widen]
  obtain rfl | rfl := borrowed
  · have zero : (0 : Double).toInt = 0 := rfl
    have zeroNat : (0 : Double).toNat = 0 := rfl
    rw [zero, zeroNat]
    omega
  · have minus : (-1 : Double).toInt = -1 := rfl
    have minusNat : (-1 : Double).toNat = 2 ^ 64 - 1 := rfl
    rw [minus, minusNat]
    omega

/-- What a round of the loop stores and passes on, for a difference that is at most one word off -/
theorem difference_split {D : Double} (low : -2 ^ 32 ≤ D.toInt) (high : D.toInt < 2 ^ 32) :
    ((D.setWidth 32).toNat : ℤ) = D.toInt - 2 ^ 32 * (D.sshiftRight 32).toInt ∧
      (D.sshiftRight 32 = 0 ∨ D.sshiftRight 32 = -1) := by
  have shifted : (D.sshiftRight 32).toInt = D.toInt / 2 ^ 32 := by
    rw [BitVec.toInt_sshiftRight, Int.shiftRight_eq_div_pow]
    rfl
  have stored : ((D.setWidth 32).toNat : ℤ) = D.toInt % 2 ^ 32 := by
    have bound := D.isLt
    rw [BitVec.toNat_setWidth, BitVec.toInt_eq_toNat_cond]
    omega
  refine ⟨by rw [stored, shifted]; omega, ?_⟩
  have quotient : D.toInt / 2 ^ 32 = 0 ∨ D.toInt / 2 ^ 32 = -1 := by omega
  obtain zero | minus := quotient
  · exact .inl (BitVec.eq_of_toInt_eq (shifted.trans zero))
  · exact .inr (BitVec.eq_of_toInt_eq (shifted.trans minus))

theorem subLoop_value {A : Double} (borrowed : A = 0 ∨ A = -1) {a n : List Word} (same : a.length = n.length) :
    (subLoop A a n).length = a.length ∧ ∃ borrow : ℕ,
      (value (subLoop A a n) : ℤ) + value n = value a + A.toInt + (2 ^ 32) ^ a.length * borrow := by
  induction a generalizing A n with
  | nil =>
    obtain rfl := List.length_eq_zero_iff.mp same.symm
    refine ⟨rfl, ?_⟩
    obtain rfl | rfl := borrowed
    · exact ⟨0, rfl⟩
    · exact ⟨1, rfl⟩
  | cons a rest hypothesis =>
    cases n with
    | nil => cases same
    | cons n ns =>
      have exact := difference_toInt borrowed a n
      have left := a.isLt
      have right := n.isLt
      have range : A.toInt = 0 ∨ A.toInt = -1 := borrowed.imp (fun zero => by rw [zero]; rfl) fun minus => by rw [minus]; rfl
      obtain ⟨stored, passed⟩ := difference_split (D := A + (a.setWidth 64 - n.setWidth 64)) (by omega) (by omega)
      obtain ⟨length, borrow, total⟩ := hypothesis passed (Nat.succ.inj same)
      refine ⟨by rw [subLoop, List.length_cons, length, List.length_cons], borrow, ?_⟩
      rw [subLoop, value_cons, value_cons, value_cons, List.length_cons, pow_succ']
      push_cast
      rw [stored, exact]
      linear_combination 2 ^ 32 * total

theorem geLoop_iff {a n : List Word} (same : a.length = n.length) :
    geLoop a n = true ↔ value n.reverse ≤ value a.reverse := by
  induction a generalizing n with
  | nil =>
    obtain rfl := List.length_eq_zero_iff.mp same.symm
    simp [geLoop]
  | cons a rest hypothesis =>
    cases n with
    | nil => cases same
    | cons n ns =>
      have lengths := Nat.succ.inj same
      have left := value_lt rest.reverse
      have right := value_lt ns.reverse
      rw [List.length_reverse] at left right
      rw [List.reverse_cons, List.reverse_cons, value_append, value_append, value_cons, value_cons, value_nil,
        Nat.mul_zero, Nat.add_zero, Nat.add_zero, List.length_reverse, List.length_reverse, ← lengths]
      rw [← lengths] at right
      have power : 0 < (2 ^ 32) ^ rest.length := Nat.pow_pos (by decide)
      unfold geLoop
      split
      case isTrue less =>
        rw [BitVec.lt_def] at less
        have step : (a.toNat + 1) * (2 ^ 32) ^ rest.length ≤ n.toNat * (2 ^ 32) ^ rest.length :=
          Nat.mul_le_mul_right _ less
        simp only [Bool.false_eq_true, false_iff, not_le]
        nlinarith
      case isFalse notLess =>
        split
        case isTrue more =>
          rw [BitVec.lt_def] at more
          have step : (n.toNat + 1) * (2 ^ 32) ^ rest.length ≤ a.toNat * (2 ^ 32) ^ rest.length :=
            Nat.mul_le_mul_right _ more
          simp only [true_iff]
          nlinarith
        case isFalse notMore =>
          rw [BitVec.lt_def] at notLess notMore
          have equal : a.toNat = n.toNat := by omega
          rw [hypothesis lengths, equal]
          omega

theorem geM_iff {key : RSAPublicKey} {a : List Word} (length : a.length = key.len) :
    geM key a = true ↔ value key.n ≤ value a := by
  rw [geM, geLoop_iff (by rw [List.length_reverse, List.length_reverse, length, key.n_length]), List.reverse_reverse,
    List.reverse_reverse]

theorem subM_value {key : RSAPublicKey} {a : List Word} (length : a.length = key.len) :
    (subM key a).length = key.len ∧ ∃ borrow : ℕ,
      value (subM key a) + value key.n = value a + (2 ^ 32) ^ key.len * borrow := by
  obtain ⟨kept, borrow, total⟩ := subLoop_value (A := 0) (.inl rfl) (length.trans key.n_length.symm)
  refine ⟨kept.trans length, borrow, ?_⟩
  rw [length] at total
  have zero : (0 : Double).toInt = 0 := rfl
  rw [zero, add_zero] at total
  exact_mod_cast total

/-! ## Montgomery multiplication -/

/-- A word, a product of words and another word fit two words. -/
theorem mulAdd_toNat {carry : Double} (small : carry.toNat < 2 ^ 32) (a b c : Word) :
    (carry + a.setWidth 64 * b.setWidth 64 + c.setWidth 64).toNat = carry.toNat + a.toNat * b.toNat + c.toNat := by
  have first := a.isLt
  have second := b.isLt
  have third := c.isLt
  have widen : ∀ word : Word, (word.setWidth 64).toNat = word.toNat := by
    intro word
    have digit := word.isLt
    rw [BitVec.toNat_setWidth]
    omega
  have product : a.toNat * b.toNat ≤ (2 ^ 32 - 1) * (2 ^ 32 - 1) := Nat.mul_le_mul (by omega) (by omega)
  rw [BitVec.toNat_add, BitVec.toNat_add, BitVec.toNat_mul, widen, widen, widen,
    Nat.mod_eq_of_lt (by omega : a.toNat * b.toNat < 2 ^ 64), Nat.mod_eq_of_lt (by omega), Nat.mod_eq_of_lt (by omega)]

theorem montLoop_value (a d0 : Word) (A B : Double) (bs ns cs : List Word) (sameN : ns.length = bs.length)
    (sameC : cs.length = bs.length) :
    (montLoop a d0 A B bs ns cs).1.length = bs.length ∧
      value (montLoop a d0 A B bs ns cs).1 + (2 ^ 32) ^ bs.length *
          ((montLoop a d0 A B bs ns cs).2.1.toNat / 2 ^ 32 + (montLoop a d0 A B bs ns cs).2.2.toNat / 2 ^ 32) =
        A.toNat / 2 ^ 32 + B.toNat / 2 ^ 32 + a.toNat * value bs + d0.toNat * value ns + value cs := by
  induction bs generalizing A B ns cs with
  | nil =>
    obtain rfl := List.length_eq_zero_iff.mp sameN
    obtain rfl := List.length_eq_zero_iff.mp sameC
    simp [montLoop]
  | cons b bs hypothesis =>
    cases ns with
    | nil => cases sameN
    | cons n ns =>
      cases cs with
      | nil => cases sameC
      | cons c cs =>
        have high : ∀ D : Double, (D >>> 32).toNat = D.toNat / 2 ^ 32 := fun D => by
          rw [BitVec.toNat_ushiftRight, Nat.shiftRight_eq_div_pow]
        have small : ∀ D : Double, (D >>> 32).toNat < 2 ^ 32 := fun D => by
          have bound := D.isLt
          rw [high]
          omega
        have nextA := mulAdd_toNat (small A) a b c
        have nextB := mulAdd_toNat (small B) d0 n
          (((A >>> 32) + a.setWidth 64 * b.setWidth 64 + c.setWidth 64).setWidth 32)
        obtain ⟨length, total⟩ := hypothesis ((A >>> 32) + a.setWidth 64 * b.setWidth 64 + c.setWidth 64)
          ((B >>> 32) + d0.setWidth 64 * n.setWidth 64 +
            (((A >>> 32) + a.setWidth 64 * b.setWidth 64 + c.setWidth 64).setWidth 32).setWidth 64) ns cs
          (Nat.succ.inj sameN) (Nat.succ.inj sameC)
        simp only [montLoop]
        refine ⟨by rw [List.length_cons, length, List.length_cons], ?_⟩
        generalize (A >>> 32) + a.setWidth 64 * b.setWidth 64 + c.setWidth 64 = nextA' at *
        generalize (B >>> 32) + d0.setWidth 64 * n.setWidth 64 + (nextA'.setWidth 32).setWidth 64 = nextB' at *
        rw [high, BitVec.toNat_setWidth] at nextB
        rw [high] at nextA
        rw [value_cons, value_cons, value_cons, value_cons, List.length_cons, pow_succ' (2 ^ 32) bs.length,
          BitVec.toNat_setWidth]
        have splitA := Nat.mod_add_div nextA'.toNat (2 ^ 32)
        have splitB := Nat.mod_add_div nextB'.toNat (2 ^ 32)
        zify at total splitA splitB nextA nextB ⊢
        linear_combination 2 ^ 32 * total + splitA + splitB + nextA + nextB

/-- `1 / R` -/
def R (key : RSAPublicKey) : Nat := (2 ^ 32) ^ key.len

/-- A key as the comments on its fields describe it. The modulus has all bits of its words. -/
structure RSAPublicKey.Valid (key : RSAPublicKey) : Prop where
  nonempty : 0 < key.len
  n0inv : 2 ^ 32 ∣ key.n0inv.toNat * (key.n.headD 0).toNat + 1
  rr : value key.rr ≡ R key ^ 2 [MOD value key.n]
  full : R key ≤ 2 * value key.n

/-- The lowest word of what is added up is zero. -/
theorem lowest_zero {key : RSAPublicKey} (valid : key.Valid) (low : Word) :
    2 ^ 32 ∣ (low * key.n0inv).toNat * (key.n.headD 0).toNat + low.toNat := by
  obtain ⟨quotient, inverse⟩ := valid.n0inv
  have split := Nat.mod_add_div (low.toNat * key.n0inv.toNat) (2 ^ 32)
  have whole : 2 ^ 32 ∣ low.toNat * key.n0inv.toNat * (key.n.headD 0).toNat + low.toNat :=
    ⟨low.toNat * quotient, by rw [Nat.mul_left_comm, ← inverse]; ring⟩
  rw [← split, Nat.add_mul, Nat.add_right_comm, Nat.mul_assoc (2 ^ 32)] at whole
  rw [BitVec.toNat_mul]
  exact (Nat.dvd_add_left (dvd_mul_right _ _)).mp whole

/-- What the loop of `montMulAdd` adds up, before the words and the bit above them are stored -/
theorem montLoop_total {a d0 b0 n0 c0 : Word} {A B : Double} {bs ns cs : List Word}
    (firstA : A.toNat = a.toNat * b0.toNat + c0.toNat)
    (firstB : B.toNat = d0.toNat * n0.toNat + (A.setWidth 32).toNat) (divides : 2 ^ 32 ∣ B.toNat)
    (sameN : ns.length = bs.length) (sameC : cs.length = bs.length) :
    2 ^ 32 * (value (montLoop a d0 A B bs ns cs).1 + (2 ^ 32) ^ bs.length *
        ((montLoop a d0 A B bs ns cs).2.1.toNat / 2 ^ 32 + (montLoop a d0 A B bs ns cs).2.2.toNat / 2 ^ 32)) =
      value (c0 :: cs) + a.toNat * value (b0 :: bs) + d0.toNat * value (n0 :: ns) := by
  rw [(montLoop_value a d0 A B bs ns cs sameN sameC).2, value_cons, value_cons, value_cons]
  have splitA := Nat.mod_add_div A.toNat (2 ^ 32)
  have splitB := Nat.div_mul_cancel divides
  have lowA : (A.setWidth 32).toNat = A.toNat % 2 ^ 32 := BitVec.toNat_setWidth _ _
  rw [lowA] at firstB
  zify at firstA firstB splitA splitB ⊢
  linear_combination firstA + firstB + splitA + splitB

/-- The last word and the bit above it -/
theorem store_last (stored : List Word) (last : Double) :
    value (stored ++ [last.setWidth 32]) + (2 ^ 32) ^ (stored.length + 1) * (last.toNat / 2 ^ 32) =
      value stored + (2 ^ 32) ^ stored.length * last.toNat := by
  have split := Nat.mod_add_div last.toNat (2 ^ 32)
  rw [value_append, value_cons, value_nil, BitVec.toNat_setWidth, pow_succ (2 ^ 32) stored.length]
  zify at split ⊢
  linear_combination (2 ^ 32) ^ stored.length * split

theorem product_toNat (a b c : Word) :
    (a.setWidth 64 * b.setWidth 64 + c.setWidth 64).toNat = a.toNat * b.toNat + c.toNat := by
  simpa using mulAdd_toNat (by decide : (0 : Double).toNat < 2 ^ 32) a b c

/-- Where the words and the bit above them are less than `R + n`, that bit is taken off with `n`. -/
theorem montLast_value {key : RSAPublicKey} {stored : List Word} {A B : Double} (length : stored.length + 1 = key.len)
    (bound : value stored + (2 ^ 32) ^ stored.length * (A.toNat / 2 ^ 32 + B.toNat / 2 ^ 32) < R key + value key.n) :
    (montLast key stored A B).length = key.len ∧
      value (montLast key stored A B) ≡
        value stored + (2 ^ 32) ^ stored.length * (A.toNat / 2 ^ 32 + B.toNat / 2 ^ 32) [MOD value key.n] := by
  have sum : ((A >>> 32) + (B >>> 32)).toNat = A.toNat / 2 ^ 32 + B.toNat / 2 ^ 32 := by
    have boundA := A.isLt
    have boundB := B.isLt
    rw [BitVec.toNat_add, BitVec.toNat_ushiftRight, BitVec.toNat_ushiftRight, Nat.shiftRight_eq_div_pow,
      Nat.shiftRight_eq_div_pow]
    omega
  have above : (((A >>> 32) + (B >>> 32)) >>> 32).toNat = (A.toNat / 2 ^ 32 + B.toNat / 2 ^ 32) / 2 ^ 32 := by
    rw [BitVec.toNat_ushiftRight, Nat.shiftRight_eq_div_pow, sum]
  have bit : (A.toNat / 2 ^ 32 + B.toNat / 2 ^ 32) / 2 ^ 32 ≤ 1 := by
    have boundA := A.isLt
    have boundB := B.isLt
    omega
  have split := store_last stored ((A >>> 32) + (B >>> 32))
  have lengthStored : (stored ++ [((A >>> 32) + (B >>> 32)).setWidth 32]).length = key.len := by
    rw [List.length_append, List.length_singleton, length]
  rw [sum, length] at split
  rw [← split] at bound ⊢
  unfold montLast
  split
  case isFalse none =>
    have zero := congrArg BitVec.toNat (not_not.mp none)
    rw [above] at zero
    have gone : (A.toNat / 2 ^ 32 + B.toNat / 2 ^ 32) / 2 ^ 32 = 0 := zero
    rw [gone, Nat.mul_zero, Nat.add_zero]
    exact ⟨lengthStored, rfl⟩
  case isTrue some =>
    have one : (A.toNat / 2 ^ 32 + B.toNat / 2 ^ 32) / 2 ^ 32 = 1 := by
      have nonzero : (A.toNat / 2 ^ 32 + B.toNat / 2 ^ 32) / 2 ^ 32 ≠ 0 := fun zero =>
        some (BitVec.eq_of_toNat_eq (above.trans zero))
      omega
    obtain ⟨kept, borrow, total⟩ := subM_value lengthStored
    rw [one, Nat.mul_one, ← R] at bound ⊢
    rw [← R] at total
    -- the number is below `n`, so the subtraction borrows the bit
    have borrowed : borrow = 1 := by
      have below := value_lt (subM key (stored ++ [((A >>> 32) + (B >>> 32)).setWidth 32]))
      have modulus := value_lt key.n
      rw [kept, ← R] at below
      rw [key.n_length, ← R] at modulus
      have some : borrow ≠ 0 := by
        rintro rfl
        omega
      have few : R key * borrow < R key * 2 := by omega
      have less := Nat.lt_of_mul_lt_mul_left few
      omega
    rw [borrowed, Nat.mul_one] at total
    rw [← total]
    exact ⟨kept, (Nat.add_modEq_right).symm⟩

theorem montMulAdd_value {key : RSAPublicKey} (valid : key.Valid) {c b : List Word} (a : Word)
    (lengthC : c.length = key.len) (lengthB : b.length = key.len) :
    (montMulAdd key c a b).length = key.len ∧
      2 ^ 32 * value (montMulAdd key c a b) ≡ value c + a.toNat * value b [MOD value key.n] := by
  have lengthN := key.n_length
  have nonempty := valid.nonempty
  obtain ⟨n0, ns, consN⟩ := List.exists_cons_of_length_pos (by omega : 0 < key.n.length)
  obtain ⟨b0, bs, rfl⟩ := List.exists_cons_of_length_pos (by omega : 0 < b.length)
  obtain ⟨c0, cs, rfl⟩ := List.exists_cons_of_length_pos (by omega : 0 < c.length)
  have zeros := lowest_zero valid
  have firstA := product_toNat a b0 c0
  unfold montMulAdd
  rw [consN] at lengthN zeros ⊢
  simp only [List.headD_cons, List.tail_cons, List.length_cons] at lengthN lengthB lengthC zeros ⊢
  generalize a.setWidth 64 * b0.setWidth 64 + c0.setWidth 64 = A at firstA ⊢
  have divides := zeros (A.setWidth 32)
  generalize A.setWidth 32 * key.n0inv = d0 at divides ⊢
  have firstB := product_toNat d0 n0 (A.setWidth 32)
  generalize d0.setWidth 64 * n0.setWidth 64 + (A.setWidth 32).setWidth 64 = B at firstB ⊢
  rw [← firstB] at divides
  have length := (montLoop_value a d0 A B bs ns cs (by omega) (by omega)).1
  have total := montLoop_total firstA firstB divides (by omega : ns.length = bs.length) (by omega : cs.length = bs.length)
  generalize montLoop a d0 A B bs ns cs = result at length total ⊢
  obtain ⟨stored, lastA, lastB⟩ := result
  dsimp only at length total ⊢
  rw [← consN, ← length] at total
  have bound : value stored + (2 ^ 32) ^ stored.length * (lastA.toNat / 2 ^ 32 + lastB.toNat / 2 ^ 32) <
      R key + value key.n := by
    have boundB := value_lt (b0 :: bs)
    have boundC := value_lt (c0 :: cs)
    rw [List.length_cons, lengthB, ← R] at boundB
    rw [List.length_cons, lengthC, ← R] at boundC
    have productA : a.toNat * value (b0 :: bs) ≤ (2 ^ 32 - 1) * (R key - 1) :=
      Nat.mul_le_mul (by have := a.isLt; omega) (by omega)
    have productN : d0.toNat * value key.n ≤ (2 ^ 32 - 1) * value key.n :=
      Nat.mul_le_mul_right _ (by have := d0.isLt; omega)
    omega
  obtain ⟨lengthLast, same⟩ := montLast_value (by omega : stored.length + 1 = key.len) bound
  refine ⟨lengthLast, ?_⟩
  rw [← consN]
  calc 2 ^ 32 * value (montLast key stored lastA lastB)
      ≡ 2 ^ 32 * (value stored + (2 ^ 32) ^ stored.length * (lastA.toNat / 2 ^ 32 + lastB.toNat / 2 ^ 32))
          [MOD value key.n] := same.mul_left _
    _ = value (c0 :: cs) + a.toNat * value (b0 :: bs) + d0.toNat * value key.n := total
    _ ≡ value (c0 :: cs) + a.toNat * value (b0 :: bs) [MOD value key.n] := Nat.add_mul_mod_self_right _ _ _

theorem montMul_value {key : RSAPublicKey} (valid : key.Valid) {a b : List Word} (lengthA : a.length = key.len)
    (lengthB : b.length = key.len) :
    (montMul key a b).length = key.len ∧ R key * value (montMul key a b) ≡ value a * value b [MOD value key.n] := by
  have loop : ∀ (a c : List Word), c.length = key.len →
      (a.foldl (fun c a => montMulAdd key c a b) c).length = key.len ∧
        (2 ^ 32) ^ a.length * value (a.foldl (fun c a => montMulAdd key c a b) c) ≡
          value c + value a * value b [MOD value key.n] := by
    intro a
    induction a with
    | nil => intro c length; simpa using ⟨length, Nat.ModEq.refl _⟩
    | cons word a hypothesis =>
      intro c length
      obtain ⟨kept, step⟩ := montMulAdd_value valid word length lengthB
      obtain ⟨last, rest⟩ := hypothesis (montMulAdd key c word b) kept
      refine ⟨last, ?_⟩
      rw [List.foldl_cons, List.length_cons, pow_succ' (2 ^ 32) a.length, Nat.mul_assoc, value_cons]
      calc 2 ^ 32 * ((2 ^ 32) ^ a.length * value (a.foldl (fun c a => montMulAdd key c a b) (montMulAdd key c word b)))
          ≡ 2 ^ 32 * (value (montMulAdd key c word b) + value a * value b) [MOD value key.n] := rest.mul_left _
        _ = 2 ^ 32 * value (montMulAdd key c word b) + 2 ^ 32 * (value a * value b) := Nat.mul_add _ _ _
        _ ≡ value c + word.toNat * value b + 2 ^ 32 * (value a * value b) [MOD value key.n] := step.add_right _
        _ = value c + (word.toNat + 2 ^ 32 * value a) * value b := by ring
  have whole := loop a (List.replicate key.len 0) (List.length_replicate)
  rw [value_replicate_zero, Nat.zero_add, lengthA] at whole
  exact whole

/-! ## Bytes and words -/

theorem exists_four {bytes : List Byte} (enough : 4 ≤ bytes.length) :
    ∃ b0 b1 b2 b3 rest, bytes = b0 :: b1 :: b2 :: b3 :: rest := by
  obtain ⟨b0, rest, rfl⟩ := List.exists_cons_of_length_pos (by omega : 0 < bytes.length)
  simp only [List.length_cons] at enough
  obtain ⟨b1, rest, rfl⟩ := List.exists_cons_of_length_pos (by omega : 0 < rest.length)
  simp only [List.length_cons] at enough
  obtain ⟨b2, rest, rfl⟩ := List.exists_cons_of_length_pos (by omega : 0 < rest.length)
  simp only [List.length_cons] at enough
  obtain ⟨b3, rest, rfl⟩ := List.exists_cons_of_length_pos (by omega : 0 < rest.length)
  exact ⟨b0, b1, b2, b3, rest, rfl⟩

theorem wordsOf_value {len : Nat} {inout : List Byte} (length : inout.length = 4 * len) :
    (wordsOf len inout).length = len ∧ value (wordsOf len inout) = bigEndian inout := by
  induction len generalizing inout with
  | zero =>
    obtain rfl := List.length_eq_zero_iff.mp length
    exact ⟨rfl, rfl⟩
  | succ len hypothesis =>
    obtain ⟨b0, b1, b2, b3, rest, rfl⟩ := exists_four (by omega : 4 ≤ inout.length)
    have restLength : rest.length = 4 * len := by
      simp only [List.length_cons] at length
      omega
    obtain ⟨kept, same⟩ := hypothesis restLength
    have shape : wordsOf (len + 1) (b0 :: b1 :: b2 :: b3 :: rest) = wordsOf len rest ++ [wordOf b0 b1 b2 b3] := by
      rw [wordsOf, List.range_succ, List.map_append, List.map_singleton, wordsOf]
      refine congrArg₂ (· ++ ·) (List.map_congr_left fun i member => ?_) ?_
      · have below : i < len := List.mem_range.mp member
        have later : ∀ k, (len + 1 - 1 - i) * 4 + k = (len - 1 - i) * 4 + k + 4 := fun k => by omega
        simp only [later, List.getD_cons_succ, Nat.add_zero]
      · have first : len + 1 - 1 - len = 0 := by omega
        rw [first]
        rfl
    have split : bigEndian (b0 :: b1 :: b2 :: b3 :: rest) =
        bigEndian [b0, b1, b2, b3] * (2 ^ 8) ^ rest.length + bigEndian rest :=
      bigEndian_append [b0, b1, b2, b3] rest
    have power : (2 ^ 8) ^ rest.length = (2 ^ 32) ^ len := by rw [restLength, pow_mul, ← pow_mul 2 8 4]
    rw [shape, List.length_append, List.length_singleton, kept, value_append, value_cons, value_nil, kept, same, split,
      wordOf_toNat, power, Nat.mul_zero, Nat.add_zero]
    exact ⟨rfl, by ring⟩

theorem bigEndianBytes_value (words : List Word) :
    (bigEndianBytes words).length = 4 * words.length ∧ bigEndian (bigEndianBytes words) = value words := by
  induction words with
  | nil => exact ⟨rfl, rfl⟩
  | cons word words hypothesis =>
    have shape : bigEndianBytes (word :: words) = bigEndianBytes words ++ bytesOf word := by
      simp [bigEndianBytes]
    rw [shape, List.length_append, bytesOf_length, hypothesis.1, bigEndian_append, bytesOf_length, hypothesis.2,
      bigEndian_bytesOf, value_cons, List.length_cons]
    exact ⟨by ring, by ring⟩

/-! ## Verification -/

theorem RSAPublicKey.Valid.coprime {key : RSAPublicKey} (valid : key.Valid) : (value key.n).gcd (R key) = 1 := by
  have nonempty := valid.nonempty
  have length := key.n_length
  obtain ⟨quotient, inverse⟩ := valid.n0inv
  obtain ⟨n0, ns, consN⟩ := List.exists_cons_of_length_pos (by omega : 0 < key.n.length)
  rw [consN, List.headD_cons] at inverse
  have oddWord : n0.toNat % 2 = 1 := by
    by_contra even
    obtain ⟨half, double⟩ : 2 ∣ n0.toNat := by omega
    rw [double, Nat.mul_left_comm] at inverse
    omega
  have odd : Odd (value key.n) := by
    rw [consN, value_cons, Nat.odd_iff]
    omega
  exact Nat.Coprime.pow_right _ (Nat.Coprime.pow_right _ (Nat.coprime_two_right.mpr odd))

/-- The three multiplications of `modpow3` -/
theorem cube_value {key : RSAPublicKey} (valid : key.Valid) {a : List Word} (length : a.length = key.len) :
    (montMul key (montMul key (montMul key a key.rr) (montMul key a key.rr)) a).length = key.len ∧
      value (montMul key (montMul key (montMul key a key.rr) (montMul key a key.rr)) a) ≡
        value a ^ 3 [MOD value key.n] := by
  obtain ⟨lengthR, productR⟩ := montMul_value valid length key.rr_length
  obtain ⟨lengthRR, productRR⟩ := montMul_value valid lengthR lengthR
  obtain ⟨lengthC, productC⟩ := montMul_value valid lengthRR length
  have aR : value (montMul key a key.rr) ≡ value a * R key [MOD value key.n] := by
    refine Nat.ModEq.cancel_left_of_coprime valid.coprime (productR.trans ?_)
    calc value a * value key.rr
        ≡ value a * R key ^ 2 [MOD value key.n] := valid.rr.mul_left _
      _ = R key * (value a * R key) := by ring
  have aaR : value (montMul key (montMul key a key.rr) (montMul key a key.rr)) ≡ value a ^ 2 * R key
      [MOD value key.n] := by
    refine Nat.ModEq.cancel_left_of_coprime valid.coprime (productRR.trans ?_)
    calc value (montMul key a key.rr) * value (montMul key a key.rr)
        ≡ value a * R key * (value a * R key) [MOD value key.n] := aR.mul aR
      _ = R key * (value a ^ 2 * R key) := by ring
  refine ⟨lengthC, Nat.ModEq.cancel_left_of_coprime valid.coprime (productC.trans ?_)⟩
  calc value (montMul key (montMul key a key.rr) (montMul key a key.rr)) * value a
      ≡ value a ^ 2 * R key * value a [MOD value key.n] := aaR.mul_right _
    _ = R key * value a ^ 3 := by ring

theorem modpow3_value {key : RSAPublicKey} (valid : key.Valid) {inout : List Byte} (length : inout.length = 4 * key.len) :
    (modpow3 key inout).length = 4 * key.len ∧ bigEndian (modpow3 key inout) = bigEndian inout ^ 3 % value key.n := by
  obtain ⟨lengthA, valueA⟩ := wordsOf_value length
  obtain ⟨lengthC, cube⟩ := cube_value valid lengthA
  unfold modpow3
  dsimp only
  generalize montMul key _ _ = aaa at lengthC cube ⊢
  rw [valueA] at cube
  have below := value_lt aaa
  rw [lengthC, ← R] at below
  have full := valid.full
  split
  case isTrue more =>
    have atLeast := (geM_iff lengthC).mp more
    obtain ⟨lengthS, borrow, total⟩ := subM_value lengthC
    have none : borrow = 0 := by
      by_contra some
      have positive : 1 ≤ borrow := Nat.one_le_iff_ne_zero.mpr some
      have step : R key * 1 ≤ R key * borrow := Nat.mul_le_mul_left _ positive
      have small := value_lt (subM key aaa)
      rw [lengthS, ← R] at small
      rw [← R] at total
      omega
    rw [none, Nat.mul_zero, Nat.add_zero] at total
    obtain ⟨lengthB, valueB⟩ := bigEndianBytes_value (subM key aaa)
    refine ⟨lengthB.trans (by rw [lengthS]), ?_⟩
    rw [← total] at cube
    have reduced := (Nat.add_modEq_right.symm).trans cube
    rw [valueB, ← reduced, Nat.mod_eq_of_lt (by omega)]
  case isFalse less =>
    have smaller := Nat.lt_of_not_le (fun atLeast => less ((geM_iff lengthC).mpr atLeast))
    obtain ⟨lengthB, valueB⟩ := bigEndianBytes_value aaa
    refine ⟨lengthB.trans (by rw [lengthC]), ?_⟩
    rw [valueB, ← cube, Nat.mod_eq_of_lt smaller]

theorem padding_length : padding.length = RSANUMBYTES - SHA_DIGEST_SIZE := by decide +kernel

/-- The signatures of a digest are the cube roots of its padding modulo `n`. -/
theorem RSA_verify_iff (key : RSAPublicKey) (valid : key.Valid) (signature : List Byte)
    (sha : Vector Byte SHA_DIGEST_SIZE) :
    RSA_verify key signature sha = true ↔
      key.len = RSANUMWORDS ∧ signature.length = RSANUMBYTES ∧
        bigEndian signature ^ 3 % value key.n = bigEndian (padding ++ sha.toList) := by
  unfold RSA_verify
  split
  case isTrue wrongKey => simp [wrongKey]
  case isFalse words =>
    have words := not_not.mp words
    split
    case isTrue wrongLength => simp [wrongLength]
    case isFalse bytes =>
      have bytes := not_not.mp bytes
      have whole : signature.length = 4 * key.len := by rw [bytes, words]; decide
      obtain ⟨length, number⟩ := modpow3_value valid whole
      have lengths : (modpow3 key signature).length = (padding ++ sha.toList).length := by
        rw [length, words, List.length_append, padding_length, Vector.length_toList]
        decide
      have same : modpow3 key signature = padding ++ sha.toList ↔
          bigEndian signature ^ 3 % value key.n = bigEndian (padding ++ sha.toList) := by
        rw [← number]
        exact ⟨congrArg bigEndian, bigEndian_injective lengths⟩
      rw [← same]
      simp only [words, bytes, true_and]
      split
      case isTrue otherPadding =>
        refine iff_of_false (by simp) fun equal => otherPadding ?_
        rw [equal, List.take_left]
      case isFalse samePadding =>
        split
        case isTrue otherDigest =>
          refine iff_of_false (by simp) fun equal => otherDigest ?_
          rw [equal, List.drop_left]
        case isFalse sameDigest =>
          refine iff_of_true rfl ?_
          rw [← List.take_append_drop padding.length (modpow3 key signature), not_not.mp samePadding,
            not_not.mp sameDigest]

def numberWords (number : Nat) : List Word :=
  (List.range RSANUMWORDS).map fun i => BitVec.ofNat 32 (number / 2 ^ (32 * i))

def oneDigest : Vector Byte SHA_DIGEST_SIZE := (Vector.replicate _ 0).set 19 1

def cubeRoot : Nat := 3 * 2 ^ 681

/-- A key for which the cube root of a padding is known -/
def rootKey : RSAPublicKey where
  len := RSANUMWORDS
  n0inv := 1
  n := numberWords (cubeRoot ^ 3 - bigEndian (padding ++ oneDigest.toList))
  rr := numberWords (2 ^ 4096 % (cubeRoot ^ 3 - bigEndian (padding ++ oneDigest.toList)))
  n_length := List.length_map _ |>.trans List.length_range
  rr_length := List.length_map _ |>.trans List.length_range

theorem rootKey_valid : rootKey.Valid :=
  ⟨by decide, by decide +kernel, by decide +kernel, by decide +kernel⟩

/-- Of two signatures one is the root. -/
theorem RSA_verify_iff_root :
    RSA_verify rootKey (bigEndianBytes (numberWords cubeRoot)) oneDigest = true ∧
      RSA_verify rootKey (List.replicate RSANUMBYTES 2) oneDigest = false := by
  constructor
  · exact (RSA_verify_iff rootKey rootKey_valid _ _).mpr ⟨rfl, by decide +kernel, by decide +kernel⟩
  · refine Bool.eq_false_iff.mpr fun accepted => ?_
    exact absurd ((RSA_verify_iff rootKey rootKey_valid _ _).mp accepted).2.2 (by decide +kernel)

end BotBrew.Mincrypt
