import Mathlib.Data.List.Basic

/-! A message that is worked through in blocks of one size, with a buffer for the last part of it. -/

set_option autoImplicit false

namespace BotBrew.Hashing

structure Compression (σ β : Type) where
  size : Nat
  positive : 0 < size
  compress : σ → List β → σ

variable {σ β : Type}

/-- The state after the whole blocks of a message -/
def Compression.absorb (c : Compression σ β) (state : σ) (message : List β) : σ :=
  if message.length < c.size then state
  else c.absorb (c.compress state (message.take c.size)) (message.drop c.size)
termination_by message.length
decreasing_by
  have positive := c.positive
  rw [List.length_drop]
  omega

variable {c : Compression σ β} {state : σ} {message pending block : List β}

theorem Compression.absorb_short (short : message.length < c.size) : c.absorb state message = state := by
  rw [absorb, if_pos short]

theorem Compression.absorb_nil (state : σ) : c.absorb state [] = state := absorb_short c.positive

theorem Compression.absorb_block (full : block.length = c.size) (message : List β) :
    c.absorb state (block ++ message) = c.absorb (c.compress state block) message := by
  rw [absorb, if_neg (by rw [List.length_append]; omega), ← full, List.take_left, List.drop_left]

theorem Compression.absorb_append {whole : List β} (blocks : c.size ∣ whole.length) (message : List β) :
    c.absorb state (whole ++ message) = c.absorb (c.absorb state whole) message := by
  obtain ⟨count, length⟩ := blocks
  induction count generalizing whole state with
  | zero =>
    obtain rfl := List.length_eq_zero_iff.mp (length.trans (Nat.mul_zero _))
    rw [List.nil_append, absorb_nil]
  | succ count hypothesis =>
    rw [Nat.mul_succ] at length
    have full : (whole.take c.size).length = c.size := by
      rw [List.length_take]
      omega
    have rest : (whole.drop c.size).length = c.size * count := by
      rw [List.length_drop]
      omega
    rw [← List.take_append_drop c.size whole, List.append_assoc, absorb_block full, absorb_block full, hypothesis rest]

/-- The state has the whole blocks of a message, and what is pending is the part after them. -/
structure Compression.Holds (c : Compression σ β) (initial : σ) (message : List β) (state : σ) (pending : List β) :
    Prop where
  short : pending.length < c.size
  split : ∃ whole, message = whole ++ pending ∧ c.size ∣ whole.length ∧ state = c.absorb initial whole

variable {initial : σ}

theorem Compression.holds_nil (initial : σ) : c.Holds initial [] initial [] :=
  ⟨c.positive, [], rfl, ⟨0, rfl⟩, (absorb_nil _).symm⟩

theorem Compression.Holds.state_eq (holds : c.Holds initial message state pending) :
    state = c.absorb initial message := by
  obtain ⟨short, whole, rfl, blocks, same⟩ := holds
  rw [absorb_append blocks, ← same, absorb_short short]

/-- Bytes that leave the last block unfinished -/
theorem Compression.Holds.wait (holds : c.Holds initial message state pending) {more : List β}
    (short : (pending ++ more).length < c.size) : c.Holds initial (message ++ more) state (pending ++ more) := by
  obtain ⟨_, whole, rfl, blocks, same⟩ := holds
  exact ⟨short, whole, List.append_assoc _ _ _, blocks, same⟩

/-- Bytes that finish a block -/
theorem Compression.Holds.finish (holds : c.Holds initial message state pending) {more : List β}
    (full : (pending ++ more).length = c.size) :
    c.Holds initial (message ++ more) (c.compress state (pending ++ more)) [] := by
  obtain ⟨_, whole, rfl, blocks, same⟩ := holds
  refine ⟨c.positive, whole ++ (pending ++ more), by rw [List.append_assoc, List.append_nil], ?_, ?_⟩
  · rw [List.length_append, full]
    exact Nat.dvd_add blocks (Nat.dvd_refl _)
  · have block : c.absorb state ((pending ++ more) ++ []) = c.absorb (c.compress state (pending ++ more)) [] :=
      absorb_block full []
    rw [List.append_nil, absorb_nil] at block
    rw [absorb_append blocks, ← same, block]

end BotBrew.Hashing
