import Mathlib.Data.List.Lex
import BotBrew.Comparison.Lexicographic

/-! Comparison of lists, and of numbers by their difference. -/

set_option autoImplicit false

namespace BotBrew.Comparison

variable {α : Type*} [LinearOrder α] {head head' : α} {tail tail' : List α} {result : Int}

/-- A list comes after each of its beginnings. -/
theorem Sign.nil_cons : Sign [] (head :: tail) (-1) := .less (List.nil_lt_cons head tail)

theorem Sign.cons_nil : Sign (head :: tail) [] 1 := .more (List.nil_lt_cons head tail)

theorem Sign.cons_of_ne (heads : Sign head head' result) (differ : head ≠ head') :
    Sign (head :: tail) (head' :: tail') result := by
  cases heads with
  | less below => exact .less (List.cons_lt_cons_iff.mpr (.inl below))
  | same equal => exact absurd equal differ
  | more above => exact .more (List.cons_lt_cons_iff.mpr (.inl above))

theorem Sign.cons_iff : Sign (head :: tail) (head :: tail') result ↔ Sign tail tail' result := by
  constructor
  · intro sign
    cases sign with
    | less below => exact .less ((List.cons_lt_cons_iff.mp below).resolve_left (lt_irrefl head)).2
    | same equal => exact .same (List.cons.inj equal).2
    | more above => exact .more ((List.cons_lt_cons_iff.mp above).resolve_left (lt_irrefl head)).2
  · intro sign
    cases sign with
    | less below => exact .less (List.cons_lt_cons_iff.mpr (.inr ⟨rfl, below⟩))
    | same equal => exact .same (congrArg (head :: ·) equal)
    | more above => exact .more (List.cons_lt_cons_iff.mpr (.inr ⟨rfl, above⟩))

/-- Pairs of a list and something else, by the heads of the lists -/
theorem toLex_cons_lt {β : Type*} [LT β] {last last' : β} : toLex (head :: tail, last) < toLex (head' :: tail', last') ↔
    head < head' ∨ head = head' ∧ toLex (tail, last) < toLex (tail', last') := by
  simp only [Prod.Lex.toLex_lt_toLex, List.cons_lt_cons_iff, List.cons.injEq]
  tauto

/-- The sign of a difference compares two numbers. -/
theorem Sign.sub (left right : Int) : Sign left right (left - right).sign := by
  rcases lt_trichotomy left right with below | equal | above
  · rw [Int.sign_eq_neg_one_of_neg (by omega)]
    exact .less below
  · rw [equal, Int.sub_self, Int.sign_zero]
    exact .same rfl
  · rw [Int.sign_eq_one_of_pos (by omega)]
    exact .more above

/-- A strictly monotone function keeps the result of a comparison. -/
theorem Sign.map {β : Type*} [LinearOrder β] {f : α → β} (mono : StrictMono f) {left right : α}
    (sign : Sign left right result) : Sign (f left) (f right) result := by
  cases sign with
  | less below => exact .less (mono below)
  | same equal => exact .same (congrArg f equal)
  | more above => exact .more (mono above)

theorem Sign.exists (left right : α) : ∃ result, Sign left right result := by
  rcases lt_trichotomy left right with below | equal | above
  · exact ⟨-1, .less below⟩
  · exact ⟨0, .same equal⟩
  · exact ⟨1, .more above⟩

end BotBrew.Comparison
