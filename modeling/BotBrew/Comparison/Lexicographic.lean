import Mathlib.Data.Int.Order.Basic
import Mathlib.Data.List.Basic
import Mathlib.Data.Prod.Lex
import Mathlib.Order.PiLex

/-! Comparison functions with an integer result, and the lexicographic order of
sequences that are padded with one value. -/

set_option autoImplicit false

namespace BotBrew.Comparison

section Sign

variable {α β : Type*} [LinearOrder α] [LinearOrder β]

/-- `result` is what comparing `left` to `right` should return. -/
inductive Sign (left right : α) : Int → Prop where
  | less : left < right → Sign left right (-1)
  | same : left = right → Sign left right 0
  | more : right < left → Sign left right 1

namespace Sign

variable {left middle right : α} {result result' : Int}

theorem refl_iff : Sign left left result ↔ result = 0 := by
  constructor
  · intro sign
    cases sign with
    | less below => exact absurd below (lt_irrefl left)
    | same => rfl
    | more above => exact absurd above (lt_irrefl left)
  · rintro rfl
    exact .same rfl

theorem swap (sign : Sign left right result) : Sign right left (-result) := by
  cases sign with
  | less below => exact .more below
  | same equal => exact .same equal.symm
  | more above => exact .less above

theorem eq_zero_iff (sign : Sign left right result) : result = 0 ↔ left = right := by
  cases sign with
  | less below => simp [below.ne]
  | same equal => simp [equal]
  | more above => simp [above.ne']

theorem nonneg_iff (sign : Sign left right result) : 0 ≤ result ↔ right ≤ left := by
  cases sign with
  | less below => simp [below]
  | same equal => simp [equal]
  | more above => simp [above.le]

theorem unique (sign : Sign left right result) (sign' : Sign left right result') :
    result = result' := by
  cases sign with
  | less below =>
      cases sign' with
      | less => rfl
      | same equal => exact absurd equal below.ne
      | more above => exact absurd above below.not_gt
  | same equal =>
      subst equal
      exact (refl_iff.mp sign').symm
  | more above =>
      cases sign' with
      | less below => exact absurd above below.not_gt
      | same equal => exact absurd equal above.ne'
      | more => rfl

theorem pair {left right : α × β} {first second : Int} (firsts : Sign left.1 right.1 first)
    (seconds : left.1 = right.1 → Sign left.2 right.2 second) :
    Sign (toLex left) (toLex right) (if first = 0 then second else first) := by
  cases firsts with
  | less below => exact .less (Prod.Lex.toLex_lt_toLex.mpr (.inl below))
  | more above => exact .more (Prod.Lex.toLex_lt_toLex.mpr (.inl above))
  | same equal =>
      cases seconds equal with
      | less below => exact .less (Prod.Lex.toLex_lt_toLex.mpr (.inr ⟨equal, below⟩))
      | more above => exact .more (Prod.Lex.toLex_lt_toLex.mpr (.inr ⟨equal.symm, above⟩))
      | same equal' => exact .same (congrArg toLex (Prod.ext equal equal'))

end Sign

end Sign

section Padded

variable {α : Type*}

def padded (pad : α) (items : List α) : Lex (ℕ → α) := toLex fun index => items.getD index pad

def prepend (head : α) (tail : Lex (ℕ → α)) : Lex (ℕ → α) :=
  toLex fun
    | 0 => head
    | index + 1 => ofLex tail index

theorem padded_cons (pad head : α) (tail : List α) :
    padded pad (head :: tail) = prepend head (padded pad tail) := by
  refine congrArg toLex (funext fun index => ?_)
  cases index <;> rfl

theorem padded_nil (pad : α) : padded pad [] = prepend pad (padded pad []) := by
  refine congrArg toLex (funext fun index => ?_)
  cases index <;> rfl

theorem prepend_inj {head head' : α} {tail tail' : Lex (ℕ → α)} :
    prepend head tail = prepend head' tail' ↔ head = head' ∧ tail = tail' := by
  constructor
  · intro equal
    refine ⟨congrFun (congrArg ofLex equal) 0, ?_⟩
    exact congrArg toLex (funext fun index => congrFun (congrArg ofLex equal) (index + 1))
  · rintro ⟨rfl, rfl⟩
    rfl

theorem padded_injective {pad : α} {left right : List α} (leftFree : pad ∉ left)
    (rightFree : pad ∉ right) (equal : padded pad left = padded pad right) : left = right := by
  induction left generalizing right with
  | nil =>
      cases right with
      | nil => rfl
      | cons head tail =>
          rw [padded_nil, padded_cons, prepend_inj] at equal
          exact absurd (equal.1 ▸ List.mem_cons_self) rightFree
  | cons head tail ih =>
      cases right with
      | nil =>
          rw [padded_nil, padded_cons, prepend_inj] at equal
          exact absurd (equal.1 ▸ List.mem_cons_self) leftFree
      | cons head' tail' =>
          simp only [List.mem_cons, not_or] at leftFree rightFree
          rw [padded_cons, padded_cons, prepend_inj] at equal
          rw [equal.1, ih leftFree.2 rightFree.2 equal.2]

variable [LinearOrder α]

theorem prepend_lt_of_head {head head' : α} (below : head < head') (tail tail' : Lex (ℕ → α)) :
    prepend head tail < prepend head' tail' :=
  ⟨0, fun _ impossible => absurd impossible (Nat.not_lt_zero _), below⟩

theorem prepend_lt_of_tail (head : α) {tail tail' : Lex (ℕ → α)} (below : tail < tail') :
    prepend head tail < prepend head tail' := by
  obtain ⟨index, same, less⟩ := below
  refine ⟨index + 1, fun earlier before => ?_, less⟩
  cases earlier with
  | zero => rfl
  | succ earlier => exact same earlier (Nat.lt_of_succ_lt_succ before)

theorem Sign.prepend {head head' : α} {tail tail' : Lex (ℕ → α)} {first second : Int}
    (heads : Sign head head' first) (tails : head = head' → Sign tail tail' second) :
    Sign (prepend head tail) (prepend head' tail') (if first = 0 then second else first) := by
  cases heads with
  | less below => exact .less (prepend_lt_of_head below tail tail')
  | more above => exact .more (prepend_lt_of_head above tail' tail)
  | same equal =>
      subst equal
      cases tails rfl with
      | less below => exact .less (prepend_lt_of_tail head below)
      | more above => exact .more (prepend_lt_of_tail head above)
      | same equal => exact .same (equal ▸ rfl)

end Padded

end BotBrew.Comparison
