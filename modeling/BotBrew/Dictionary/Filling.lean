import Mathlib.Data.List.AList
import Mathlib.Data.List.Sort

/-! Dictionaries that a loop fills, and what two loops leave in common. -/

set_option autoImplicit false

namespace BotBrew.Dictionary

/-- Two sorted lists of the keys of dictionaries with the same keys are one list. -/
theorem sorted_keys_congr {α : Type*} {γ δ : α → Type*} [LinearOrder α] {left : AList γ} {right : AList δ}
    (same : ∀ key, key ∈ left ↔ key ∈ right) :
    left.keys.insertionSort (· ≤ ·) = right.keys.insertionSort (· ≤ ·) := by
  have perm : left.keys.Perm right.keys := by
    refine (List.perm_ext_iff_of_nodup left.keys_nodup right.keys_nodup).mpr fun key => ?_
    rw [← AList.mem_keys, ← AList.mem_keys, same]
  have sorted : ∀ keys : List α, (keys.insertionSort (· ≤ ·)).Pairwise (· ≤ ·) :=
    fun keys => List.pairwise_insertionSort (· ≤ ·) keys
  have both := ((List.perm_insertionSort (· ≤ ·) left.keys).trans perm).trans
    (List.perm_insertionSort (· ≤ ·) right.keys).symm
  exact both.eq_of_pairwise (fun _ _ _ _ => le_antisymm) (sorted _) (sorted _)

/-- A loop that could fail, and does not. -/
theorem foldlM_eq_some {σ ι : Type*} {step : σ → ι → Option σ} {next : σ → ι → σ} {items : List ι}
    (steps : ∀ state, ∀ item ∈ items, step state item = some (next state item)) (state : σ) :
    items.foldlM step state = some (items.foldl next state) := by
  induction items generalizing state with
  | nil => rfl
  | cons item items hypothesis =>
    rw [List.foldlM_cons, List.foldl_cons, steps state item List.mem_cons_self]
    exact hypothesis (fun state other member => steps state other (List.mem_cons_of_mem item member)) _

variable {α β : Type*} [DecidableEq α]

/-- A loop that sets key after key: the last value of a key stays. -/
def fill (dictionary : AList fun _ : α => β) (pairs : List (α × β)) : AList fun _ : α => β :=
  pairs.foldl (fun dictionary pair => dictionary.insert pair.1 pair.2) dictionary

@[simp]
theorem fill_nil (dictionary : AList fun _ : α => β) : fill dictionary [] = dictionary := rfl

@[simp]
theorem fill_cons (dictionary : AList fun _ : α => β) (pair : α × β) (pairs : List (α × β)) :
    fill dictionary (pair :: pairs) = fill (dictionary.insert pair.1 pair.2) pairs := rfl

theorem lookup_fill_of_notMem {dictionary : AList fun _ : α => β} {pairs : List (α × β)} {key : α}
    (absent : ∀ pair ∈ pairs, pair.1 ≠ key) : (fill dictionary pairs).lookup key = dictionary.lookup key := by
  induction pairs generalizing dictionary with
  | nil => rfl
  | cons pair pairs hypothesis =>
    have other := absent pair List.mem_cons_self
    have rest := fun other member => absent other (List.mem_cons_of_mem pair member)
    rw [fill_cons, hypothesis rest, AList.lookup_insert_ne other.symm]

/-- A value that no other pair contradicts is found. -/
theorem lookup_fill_of_mem {dictionary : AList fun _ : α => β} {pairs : List (α × β)} {key : α} {value : β}
    (member : (key, value) ∈ pairs) (agreed : ∀ pair ∈ pairs, pair.1 = key → pair.2 = value) :
    (fill dictionary pairs).lookup key = some value := by
  induction pairs generalizing dictionary with
  | nil => exact absurd member List.not_mem_nil
  | cons pair pairs hypothesis =>
    have rest := fun other inside => agreed other (List.mem_cons_of_mem pair inside)
    rw [fill_cons]
    by_cases later : ∃ other ∈ pairs, other.1 = key
    · obtain ⟨⟨name, found⟩, inside, same⟩ := later
      have found_eq := rest _ inside same
      simp only at same found_eq
      rw [same, found_eq] at inside
      exact hypothesis inside rest
    · have absent : ∀ other ∈ pairs, other.1 ≠ key :=
        fun other inside same => later ⟨other, inside, same⟩
      cases member with
      | head => rw [lookup_fill_of_notMem absent, AList.lookup_insert]
      | tail _ inside => exact absurd rfl (absent _ inside)

/-- What is found was set by a pair or there before. -/
theorem lookup_fill_cases {dictionary : AList fun _ : α => β} {pairs : List (α × β)} {key : α} {value : β}
    (found : (fill dictionary pairs).lookup key = some value) :
    (key, value) ∈ pairs ∨ dictionary.lookup key = some value := by
  induction pairs generalizing dictionary with
  | nil => exact .inr found
  | cons pair pairs hypothesis =>
    rw [fill_cons] at found
    cases hypothesis found with
    | inl member => exact .inl (List.mem_cons_of_mem pair member)
    | inr before =>
      by_cases same : key = pair.1
      · subst same
        rw [AList.lookup_insert, Option.some.injEq] at before
        subst before
        exact .inl List.mem_cons_self
      · rw [AList.lookup_insert_ne same] at before
        exact .inr before

end BotBrew.Dictionary
