import BotBrew.Words.Limbs
import Mathlib.Data.Nat.ModEq

/-! Zeros up to the next multiple of a size. -/

set_option autoImplicit false

namespace BotBrew.Words

/-- The zeros from the end of an item to the next multiple of a size -/
def fill (size length : Nat) : List Byte := List.replicate ((size - length % size) % size) 0

variable {size : Nat}

theorem fill_length (size length : Nat) : (fill size length).length = (size - length % size) % size :=
  List.length_replicate

theorem fill_dvd (positive : 0 < size) (length : Nat) : size ∣ length + (fill size length).length := by
  have inside := Nat.mod_lt length positive
  rw [fill_length, Nat.dvd_iff_mod_eq_zero, Nat.add_mod, Nat.mod_mod]
  rcases Nat.eq_zero_or_pos (length % size) with aligned | rest
  · rw [aligned, Nat.sub_zero, Nat.mod_self, Nat.zero_add, Nat.zero_mod]
  · rw [Nat.mod_eq_of_lt (show size - length % size < size by omega), Nat.add_sub_of_le inside.le, Nat.mod_self]

theorem fill_eq_nil_iff (positive : 0 < size) (length : Nat) : fill size length = [] ↔ size ∣ length := by
  have inside := Nat.mod_lt length positive
  rw [fill, List.replicate_eq_nil_iff, Nat.dvd_iff_mod_eq_zero]
  constructor
  · intro none
    by_contra rest
    rw [Nat.mod_eq_of_lt (by omega)] at none
    omega
  · intro aligned
    rw [aligned, Nat.sub_zero, Nat.mod_self]

theorem fill_congr {length other : Nat} (same : length % size = other % size) : fill size length = fill size other := by
  rw [fill, fill, same]

theorem fill_succ (positive : 0 < size) {length : Nat} (open_end : length % size ≠ 0) :
    fill size length = 0 :: fill size (length + 1) := by
  have inside := Nat.mod_lt length positive
  have step : (size - length % size) % size = (size - (length + 1) % size) % size + 1 := by
    rw [Nat.mod_eq_of_lt (show size - length % size < size by omega)]
    rcases Nat.lt_or_ge (length % size + 1) size with below | last
    · rw [Nat.add_mod_of_add_mod_lt (by rw [Nat.mod_eq_of_lt (by omega : 1 < size)]; exact below),
        Nat.mod_eq_of_lt (show 1 < size by omega), Nat.mod_eq_of_lt (show size - (length % size + 1) < size by omega)]
      omega
    · have whole : (length + 1) % size = 0 := by
        rw [Nat.add_mod, show length % size = size - 1 by omega]
        rcases Nat.lt_or_ge 1 size with more | one
        · rw [Nat.mod_eq_of_lt more, Nat.sub_add_cancel positive, Nat.mod_self]
        · rw [show size = 1 by omega, Nat.mod_one]
      rw [whole, Nat.sub_zero, Nat.mod_self]
      omega
  rw [fill, step, List.replicate_succ, fill]

end BotBrew.Words
