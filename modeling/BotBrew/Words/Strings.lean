import BotBrew.Words.Limbs

/-! Strings of C, and the numbers that are printed to them and read from them. -/

set_option autoImplicit false

namespace BotBrew.Words

/-- What is before the zero at its end -/
structure CString where
  bytes : List Byte
  terminated : 0 ∉ bytes
  deriving DecidableEq

def ascii (text : String) : List Byte := text.toList.map fun char => BitVec.ofNat 8 char.toNat

/-- `0` to `9`, and `a` on from there -/
def digit (value : Nat) : Byte := BitVec.ofNat 8 (if value < 10 then 48 + value else 87 + value)

/-- `%0<width>x`, for a number that has no more digits -/
def hex : Nat → Nat → List Byte
  | 0, _ => []
  | width + 1, number => hex width (number / 16) ++ [digit (number % 16)]

/-- The value of a digit or a letter, and of anything else a value that no base has. -/
def digitValue (char : Byte) : Nat :=
  if 48 ≤ char.toNat ∧ char.toNat ≤ 57 then char.toNat - 48
  else if 97 ≤ char.toNat ∧ char.toNat ≤ 122 then char.toNat - 87
  else if 65 ≤ char.toNat ∧ char.toNat ≤ 90 then char.toNat - 55
  else 36

/-- The digits up to the first byte that is none -/
def scan (base : Nat) (value : Nat) : List Byte → Nat
  | [] => value
  | char :: text => if digitValue char < base then scan base (value * base + digitValue char) text else value

def isspace (char : Byte) : Bool := (9 ≤ char.toNat && char.toNat ≤ 13) || char == 32

/-- `strtoul(text, 0, base)` for a base of 10 or 16, where a `long` is a word -/
def strtoul (text : List Byte) (base : Nat) : Word :=
  let text := text.dropWhile isspace
  let negative := text.head? == some 45
  let text := if text.head? = some 45 ∨ text.head? = some 43 then text.tail else text
  let text := if base = 16 ∧ (text.take 2 = ascii "0x" ∨ text.take 2 = ascii "0X") then text.drop 2 else text
  let value := scan base 0 text
  if 2 ^ 32 ≤ value then BitVec.ofNat 32 (2 ^ 32 - 1)
  else if negative then -BitVec.ofNat 32 value
  else BitVec.ofNat 32 value

@[simp] theorem hex_length (width number : Nat) : (hex width number).length = width := by
  induction width generalizing number with
  | zero => rfl
  | succ width hypothesis => rw [hex, List.length_append, hypothesis, List.length_singleton]

theorem digit_reads {value : Nat} (small : value < 16) : digitValue (digit value) = value := by
  revert value
  decide

theorem digit_plain {value : Nat} (small : value < 16) :
    isspace (digit value) = false ∧ digit value ≠ 45 ∧ digit value ≠ 43 ∧ digit value ≠ 120 ∧ digit value ≠ 88 ∧
      digit value ≠ 0 := by
  revert value
  decide

theorem hex_terminated (width number : Nat) : 0 ∉ hex width number := by
  induction width generalizing number with
  | zero => exact List.not_mem_nil
  | succ width hypothesis =>
    rw [hex, List.mem_append, List.mem_singleton, not_or]
    exact ⟨hypothesis _, fun zero => (digit_plain (Nat.mod_lt number (by decide))).2.2.2.2.2 zero.symm⟩

theorem scan_hex (width number value : Nat) (text : List Byte) :
    scan 16 value (hex width number ++ text) = scan 16 (value * 16 ^ width + number % 16 ^ width) text := by
  induction width generalizing number value text with
  | zero => rw [hex, List.nil_append, pow_zero, Nat.mod_one, Nat.mul_one, Nat.add_zero]
  | succ width hypothesis =>
    have small := Nat.mod_lt number (show 0 < 16 by decide)
    have split : number % 16 ^ (width + 1) = number % 16 + 16 * (number / 16 % 16 ^ width) := by
      rw [pow_succ', Nat.mod_mul]
    rw [hex, List.append_assoc, hypothesis, List.singleton_append, scan, digit_reads small, if_pos small, split, pow_succ]
    congr 1
    ring

theorem strtoul_plain {first second : Byte} {rest : List Byte} (blank : isspace first = false)
    (sign : first ≠ 45 ∧ first ≠ 43) (mark : second ≠ 120 ∧ second ≠ 88)
    (small : scan 16 0 (first :: second :: rest) < 2 ^ 32) :
    strtoul (first :: second :: rest) 16 = BitVec.ofNat 32 (scan 16 0 (first :: second :: rest)) := by
  have unmarked : ¬ (True ∧ ([first, second] = ascii "0x" ∨ [first, second] = ascii "0X")) := by
    rintro ⟨_, same | same⟩
    · exact mark.1 (List.cons.inj (List.cons.inj same).2).1
    · exact mark.2 (List.cons.inj (List.cons.inj same).2).1
  have unsigned : (some first == some 45) = false := beq_eq_false_iff_ne.mpr fun same => sign.1 (Option.some.inj same)
  simp only [strtoul, List.dropWhile_cons, blank, Bool.false_eq_true, ite_false, List.head?_cons, Option.some.injEq, sign.1,
    sign.2, or_self, List.take_succ_cons, List.take_zero, unsigned]
  rw [if_neg unmarked, if_neg (Nat.not_le.mpr small)]

/-- What `%08x` prints of a word, `strtoul` reads. -/
theorem strtoul_hex (word : Word) : strtoul (hex 8 word.toNat) 16 = word := by
  have first := digit_plain (Nat.mod_lt (word.toNat / 16 / 16 / 16 / 16 / 16 / 16 / 16) (show 0 < 16 by decide))
  have second := digit_plain (Nat.mod_lt (word.toNat / 16 / 16 / 16 / 16 / 16 / 16) (show 0 < 16 by decide))
  have value : scan 16 0 (hex 8 word.toNat) = word.toNat := by
    have small : word.toNat < 16 ^ 8 := word.isLt
    have whole := scan_hex 8 word.toNat 0 []
    rwa [List.append_nil, scan, Nat.zero_mul, Nat.zero_add, Nat.mod_eq_of_lt small] at whole
  have plain : strtoul (hex 8 word.toNat) 16 = BitVec.ofNat 32 (scan 16 0 (hex 8 word.toNat)) :=
    strtoul_plain first.1 ⟨first.2.1, first.2.2.1⟩ ⟨second.2.2.2.1, second.2.2.2.2.1⟩ (value.trans_lt word.isLt)
  rw [plain, value, BitVec.ofNat_toNat, BitVec.setWidth_eq]

/-! ## Numbers in decimal -/

def decimalDigit (char : Byte) : Bool := digitValue char < 10

theorem digit_digitValue : ∀ {char : Byte}, decimalDigit char = true → char = digit (digitValue char) := by
  decide +kernel

theorem scan_takeWhile (value : Nat) (text : List Byte) :
    scan 10 value text = scan 10 value (text.takeWhile decimalDigit) := by
  induction text generalizing value with
  | nil => rfl
  | cons char text hypothesis =>
    by_cases inside : digitValue char < 10
    · have taken : decimalDigit char = true := decide_eq_true inside
      rw [List.takeWhile_cons_of_pos taken, scan, scan, if_pos inside, if_pos inside, hypothesis]
    · have left : ¬ decimalDigit char = true := fun decimal => inside (of_decide_eq_true decimal)
      rw [List.takeWhile_cons_of_neg left, scan, scan, if_neg inside]

theorem scan_append {text : List Byte} (decimal : ∀ char ∈ text, decimalDigit char = true) (value : Nat)
    (after : List Byte) : scan 10 value (text ++ after) = scan 10 (scan 10 value text) after := by
  induction text generalizing value with
  | nil => rfl
  | cons char text hypothesis =>
    have inside : digitValue char < 10 := of_decide_eq_true (decimal char List.mem_cons_self)
    rw [List.cons_append, scan, scan, if_pos inside, if_pos inside]
    exact hypothesis (fun other member => decimal other (List.mem_cons_of_mem char member)) _

section Decimal

variable {text : List Byte} (decimal : ∀ char ∈ text, decimalDigit char = true)

include decimal

/-- The last digit is the rest by ten. -/
theorem scan_last {value last : Nat} (small : last < 10) (positive : 0 < 10 * value + last) :
    scan 10 0 text = 10 * value + last ↔ ∃ front, text = front ++ [digit last] ∧ scan 10 0 front = value := by
  induction text using List.reverseRecOn with
  | nil =>
    refine iff_of_false (fun same => ?_) fun known => ?_
    · rw [scan] at same
      omega
    · obtain ⟨front, same, -⟩ := known
      exact absurd same (by simp)
  | append_singleton front char =>
    have own := decimal char (List.mem_append_right _ List.mem_cons_self)
    have inside : digitValue char < 10 := of_decide_eq_true own
    rw [scan_append fun other member => decimal other (List.mem_append_left _ member), scan, if_pos inside, scan]
    constructor
    · intro same
      have both : digitValue char = last ∧ scan 10 0 front = value := by omega
      exact ⟨front, by rw [digit_digitValue own, both.1], both.2⟩
    · intro known
      obtain ⟨front', same, value'⟩ := known
      obtain ⟨rfl, last'⟩ := List.append_inj' same rfl
      rw [List.singleton_inj.mp last', digit_reads (by omega), value']
      omega

theorem scan_zero : scan 10 0 text = 0 ↔ ∃ zeros, text = List.replicate zeros (digit 0) := by
  induction text using List.reverseRecOn with
  | nil => exact iff_of_true rfl ⟨0, rfl⟩
  | append_singleton front char hypothesis =>
    have own := decimal char (List.mem_append_right _ List.mem_cons_self)
    have inside : digitValue char < 10 := of_decide_eq_true own
    have before : ∀ other ∈ front, decimalDigit other = true := fun other member =>
      decimal other (List.mem_append_left _ member)
    rw [scan_append before, scan, if_pos inside, scan]
    constructor
    · intro zero
      obtain ⟨zeros, same⟩ := (hypothesis before).mp (by omega)
      have last : digitValue char = 0 := by omega
      exact ⟨zeros + 1, by rw [same, digit_digitValue own, last, List.replicate_succ']⟩
    · intro known
      obtain ⟨zeros, same⟩ := known
      have all : ∀ other ∈ front ++ [char], other = digit 0 := fun other member =>
        List.eq_of_mem_replicate (same ▸ member)
      have front_zero : scan 10 0 front = 0 := (hypothesis before).mpr
        ⟨front.length, List.eq_replicate_iff.mpr ⟨rfl, fun other member => all other (List.mem_append_left _ member)⟩⟩
      rw [front_zero, all char (List.mem_append_right _ List.mem_cons_self)]
      rfl

/-- A number of four digits -/
theorem scan_four {a b c d : Nat} (leads : 0 < a) (digits : a < 10 ∧ b < 10 ∧ c < 10 ∧ d < 10) :
    scan 10 0 text = 10 * (10 * (10 * (10 * 0 + a) + b) + c) + d ↔
      ∃ zeros, text = List.replicate zeros (digit 0) ++ [digit a, digit b, digit c, digit d] := by
  have before {front : List Byte} {char : Byte} (whole : ∀ other ∈ front ++ [char], decimalDigit other = true) :
      ∀ other ∈ front, decimalDigit other = true := fun other member => whole other (List.mem_append_left _ member)
  constructor
  · intro number
    obtain ⟨front₃, rfl, third⟩ := (scan_last decimal digits.2.2.2 (by omega)).mp number
    obtain ⟨front₂, rfl, second⟩ := (scan_last (before decimal) digits.2.2.1 (by omega)).mp third
    obtain ⟨front₁, rfl, first⟩ := (scan_last (before (before decimal)) digits.2.1 (by omega)).mp second
    obtain ⟨front, rfl, zero⟩ := (scan_last (before (before (before decimal))) digits.1 (by omega)).mp first
    obtain ⟨zeros, rfl⟩ := (scan_zero (before (before (before (before decimal))))).mp zero
    exact ⟨zeros, by simp only [List.append_assoc, List.cons_append, List.nil_append]⟩
  · intro known
    obtain ⟨zeros, rfl⟩ := known
    have zero : scan 10 0 (List.replicate zeros (digit 0)) = 0 :=
      (scan_zero fun char member => decimal char (List.mem_append_left _ member)).mpr ⟨zeros, rfl⟩
    have reads {value : Nat} (small : value < 10) : digitValue (digit value) = value := digit_reads (by omega)
    obtain ⟨a₁₀, b₁₀, c₁₀, d₁₀⟩ := digits
    rw [scan_append fun char member => decimal char (List.mem_append_left _ member), zero]
    simp only [scan, reads a₁₀, reads b₁₀, reads c₁₀, reads d₁₀, a₁₀, b₁₀, c₁₀, d₁₀, if_true]
    omega

end Decimal

theorem scan_bound (value : Nat) (text : List Byte) : scan 10 value text < (value + 1) * 10 ^ text.length := by
  induction text generalizing value with
  | nil => simp [scan]
  | cons char text hypothesis =>
    have positive : 0 < 10 ^ text.length := Nat.pow_pos (by decide)
    rw [scan, List.length_cons, pow_succ', ← Nat.mul_assoc]
    split
    · next inside => exact (hypothesis _).trans_le (Nat.mul_le_mul_right _ (by omega))
    · exact Nat.lt_of_lt_of_le (by omega : value < (value + 1) * 10) (Nat.le_mul_of_pos_right _ positive)

theorem strtoul_decimal {first : Byte} {rest : List Byte} (blank : isspace first = false)
    (sign : first ≠ 45 ∧ first ≠ 43) (small : scan 10 0 (first :: rest) < 2 ^ 32) :
    strtoul (first :: rest) 10 = BitVec.ofNat 32 (scan 10 0 (first :: rest)) := by
  have unsigned : (some first == some 45) = false := beq_eq_false_iff_ne.mpr fun same => sign.1 (Option.some.inj same)
  simp only [strtoul, List.dropWhile_cons, blank, Bool.false_eq_true, ite_false, List.head?_cons, Option.some.injEq, sign.1,
    sign.2, or_self, unsigned, Nat.reduceEqDiff, false_and]
  rw [if_neg (Nat.not_le.mpr small)]

/-- What `%08x` prints of a word is read in decimal up to its first letter. -/
theorem strtoul_hex_decimal (word : Word) {a b c d : Nat} (leads : 0 < a) (digits : a < 10 ∧ b < 10 ∧ c < 10 ∧ d < 10) :
    strtoul (hex 8 word.toNat) 10 = BitVec.ofNat 32 (10 * (10 * (10 * (10 * 0 + a) + b) + c) + d) ↔
      ∃ zeros, (hex 8 word.toNat).takeWhile decimalDigit =
        List.replicate zeros (digit 0) ++ [digit a, digit b, digit c, digit d] := by
  have first := digit_plain (Nat.mod_lt (word.toNat / 16 / 16 / 16 / 16 / 16 / 16 / 16) (show 0 < 16 by decide))
  have bound := scan_bound 0 (hex 8 word.toNat)
  rw [hex_length] at bound
  have small : scan 10 0 (hex 8 word.toNat) < 2 ^ 32 := bound.trans (by decide)
  have read : strtoul (hex 8 word.toNat) 10 = BitVec.ofNat 32 (scan 10 0 (hex 8 word.toNat)) :=
    strtoul_decimal first.1 ⟨first.2.1, first.2.2.1⟩ small
  have decimal : ∀ char ∈ (hex 8 word.toNat).takeWhile decimalDigit, decimalDigit char = true :=
    List.all_eq_true.mp List.all_takeWhile
  rw [read, ← BitVec.toNat_inj, BitVec.toNat_ofNat, BitVec.toNat_ofNat, Nat.mod_eq_of_lt small,
    Nat.mod_eq_of_lt (by omega), scan_takeWhile, scan_four decimal leads digits]

end BotBrew.Words
