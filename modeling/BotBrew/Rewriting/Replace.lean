import Mathlib.Data.List.Infix
import Mathlib.Logic.Function.Basic

/-! Replacing every occurrence of a pattern, and several patterns that do not touch. -/

set_option autoImplicit false

namespace BotBrew.Rewriting

variable {α : Type} [DecidableEq α]

/-- The occurrences of the pattern from the left; the first argument counts the characters
of the last one that are still to be skipped. -/
def replaceFrom (pattern replacement : List α) : Nat → List α → List α
  | _, [] => []
  | 0, char :: text =>
      if pattern <+: char :: text then
        replacement ++ replaceFrom pattern replacement (pattern.length - 1) text
      else char :: replaceFrom pattern replacement 0 text
  | skip + 1, _ :: text => replaceFrom pattern replacement skip text

/-- `s/pattern/replacement/g` -/
def replaceAll (pattern replacement text : List α) : List α :=
  replaceFrom pattern replacement 0 text

/-- Neither of the two is a beginning of the other. -/
def Apart (first second : List α) : Prop := ¬ first <+: second ∧ ¬ second <+: first

instance (first second : List α) : Decidable (Apart first second) :=
  inferInstanceAs (Decidable (¬ first <+: second ∧ ¬ second <+: first))

omit [DecidableEq α] in
theorem Apart.append {first second : List α} (apart : Apart first second) (text : List α) :
    ¬ first <+: second ++ text := by
  intro inside
  obtain shorter | longer :=
    List.prefix_or_prefix_of_prefix inside (List.prefix_append second text)
  · exact apart.1 shorter
  · exact apart.2 longer

theorem replaceFrom_skip (pattern replacement word text : List α) :
    replaceFrom pattern replacement word.length (word ++ text) =
      replaceAll pattern replacement text := by
  induction word with
  | nil => rfl
  | cons char word ih => exact ih

theorem replaceAll_hit {pattern : List α} (nonempty : pattern ≠ []) (replacement text : List α) :
    replaceAll pattern replacement (pattern ++ text) =
      replacement ++ replaceAll pattern replacement text := by
  cases pattern with
  | nil => exact absurd rfl nonempty
  | cons char rest =>
      have found : char :: rest <+: char :: (rest ++ text) := List.prefix_append (char :: rest) text
      rw [replaceAll, List.cons_append, replaceFrom, if_pos found]
      exact congrArg _ (replaceFrom_skip _ _ rest text)

theorem replaceAll_miss {pattern : List α} {char : α} {text : List α}
    (missing : ¬ pattern <+: char :: text) (replacement : List α) :
    replaceAll pattern replacement (char :: text) =
      char :: replaceAll pattern replacement text := by
  rw [replaceAll, replaceFrom, if_neg missing]
  rfl

theorem replaceAll_word {pattern word : List α}
    (apart : ∀ rest, rest ≠ [] → rest <:+ word → Apart pattern rest) (replacement text : List α) :
    replaceAll pattern replacement (word ++ text) =
      word ++ replaceAll pattern replacement text := by
  induction word with
  | nil => rfl
  | cons char word ih =>
      have here := (apart (char :: word) (List.cons_ne_nil _ _) List.suffix_rfl).append text
      rw [List.cons_append] at here ⊢
      rw [replaceAll_miss here, ih, List.cons_append]
      exact fun rest given inside => apart rest given (inside.trans (List.suffix_cons char word))

omit [DecidableEq α] in
theorem infix_word {pattern word text : List α}
    (apart : ∀ rest, rest ≠ [] → rest <:+ word → Apart pattern rest)
    (found : pattern <:+: word ++ text) : pattern <:+: text := by
  induction word with
  | nil => exact found
  | cons char word ih =>
      have here := (apart (char :: word) (List.cons_ne_nil _ _) List.suffix_rfl).append text
      rw [List.cons_append] at here found
      apply ih
      · exact fun rest given inside => apart rest given (inside.trans (List.suffix_cons char word))
      · exact (List.infix_cons_iff.mp found).resolve_left here

/-- Patterns with their replacements, such that no occurrence of one touches another one,
and no replacement makes an occurrence with what stands around it. -/
structure Rules (ι α : Type) [DecidableEq ι] [DecidableEq α] where
  all : List ι
  complete : ∀ i, i ∈ all
  pattern : ι → List α
  replacement : ι → List α
  nonempty : ∀ i ∈ all, pattern i ≠ []
  distinct : ∀ i ∈ all, ∀ j ∈ all, i ≠ j → Apart (pattern i) (pattern j)
  changed : ∀ i ∈ all, Apart (pattern i) (replacement i)
  inner : ∀ i ∈ all, ∀ rest ∈ (pattern i).tails.tail, rest ≠ [] →
    ∀ j ∈ all, Apart rest (pattern j) ∧ Apart rest (replacement j)
  replaced : ∀ i ∈ all, ∀ j ∈ all, i ≠ j → ∀ rest ∈ (replacement j).tails, rest ≠ [] →
    Apart (pattern i) rest

/-- A character of a text or an occurrence of a pattern. -/
inductive Token (ι α : Type) where
  | char (value : α)
  | hit (index : ι)

variable {ι : Type} [DecidableEq ι] (rules : Rules ι α)

namespace Rules

/-- The pattern or its replacement. -/
def word (done : ι → Bool) (index : ι) : List α :=
  if done index then rules.replacement index else rules.pattern index

/-- The text of the tokens, with some of the patterns replaced. -/
def render (done : ι → Bool) : List (Token ι α) → List α
  | [] => []
  | .char value :: rest => value :: render done rest
  | .hit index :: rest => rules.word done index ++ render done rest

def tokensFrom : Nat → List α → List (Token ι α)
  | _, [] => []
  | 0, char :: text =>
      match rules.all.find? fun index => rules.pattern index <+: char :: text with
      | some index => .hit index :: tokensFrom ((rules.pattern index).length - 1) text
      | none => .char char :: tokensFrom 0 text
  | skip + 1, _ :: text => tokensFrom skip text

def tokens (text : List α) : List (Token ι α) := rules.tokensFrom 0 text

/-- Where the tokens have a character, no pattern begins. -/
def Proper : List (Token ι α) → Prop
  | [] => True
  | .char value :: rest =>
      (∀ index, ¬ rules.pattern index <+: value :: rules.render (fun _ => false) rest) ∧ Proper rest
  | .hit _ :: rest => Proper rest

theorem tokensFrom_skip (word text : List α) :
    rules.tokensFrom word.length (word ++ text) = rules.tokens text := by
  induction word with
  | nil => rfl
  | cons char word ih => exact ih

theorem tokens_hit {char : α} {text : List α} {index : ι}
    (found : (rules.all.find? fun index => rules.pattern index <+: char :: text) = some index) :
    ∃ rest, char :: text = rules.pattern index ++ rest ∧
      rules.tokens (char :: text) = .hit index :: rules.tokens rest := by
  have inside : rules.pattern index <+: char :: text := by simpa using List.find?_some found
  obtain ⟨rest, shape⟩ := inside
  refine ⟨rest, shape.symm, ?_⟩
  rw [tokens, tokensFrom, found]
  cases pattern : rules.pattern index with
  | nil => exact absurd pattern (rules.nonempty index (rules.complete index))
  | cons first others =>
      rw [pattern] at shape
      obtain ⟨rfl, rfl⟩ := List.cons.inj shape
      show Token.hit index :: rules.tokensFrom ((rules.pattern index).length - 1) (others ++ rest) = _
      rw [pattern]
      exact congrArg _ (rules.tokensFrom_skip others rest)

theorem tokens_char {char : α} {text : List α}
    (missing : (rules.all.find? fun index => rules.pattern index <+: char :: text) = none) :
    rules.tokens (char :: text) = .char char :: rules.tokens text := by
  rw [tokens, tokensFrom, missing]
  rfl

theorem tokens_spec (text : List α) :
    rules.render (fun _ => false) (rules.tokens text) = text ∧ rules.Proper (rules.tokens text) := by
  induction length : text.length using Nat.strong_induction_on generalizing text with
  | _ size ih =>
      cases text with
      | nil => exact ⟨rfl, trivial⟩
      | cons char text =>
          cases found : rules.all.find? fun index => rules.pattern index <+: char :: text with
          | none =>
              have shorter : text.length < size := by
                rw [← length]
                exact Nat.lt_succ_self _
              obtain ⟨same, proper⟩ := ih _ shorter text rfl
              rw [rules.tokens_char found]
              refine ⟨congrArg (List.cons char) same, ?_, proper⟩
              rw [same]
              intro index
              simpa using List.find?_eq_none.mp found index (rules.complete index)
          | some index =>
              obtain ⟨rest, shape, tokens⟩ := rules.tokens_hit found
              have shorter : rest.length < size := by
                have nonempty := List.length_pos_iff.mpr (rules.nonempty index (rules.complete index))
                rw [← length, shape, List.length_append]
                omega
              obtain ⟨same, proper⟩ := ih _ shorter rest rfl
              rw [tokens]
              refine ⟨?_, proper⟩
              rw [render, same, shape]
              rfl

/-- What follows the beginning of a pattern does not depend on what is replaced. -/
theorem prefix_render {index : ι} {word : List α}
    (inner : word ∈ (rules.pattern index).tails.tail) (done other : ι → Bool)
    (tokens : List (Token ι α)) :
    word <+: rules.render done tokens ↔ word <+: rules.render other tokens := by
  have suffixes : ∀ {head : α} {rest : List α}, head :: rest ∈ (rules.pattern index).tails.tail →
      rest ∈ (rules.pattern index).tails.tail := by
    intro head rest member
    cases shape : rules.pattern index with
    | nil => exact absurd shape (rules.nonempty index (rules.complete index))
    | cons first others =>
        rw [shape, List.tails_cons, List.tail_cons, List.mem_tails] at member
        rw [List.tails_cons, List.tail_cons, List.mem_tails]
        exact (List.suffix_cons head rest).trans member
  induction tokens generalizing word with
  | nil => rfl
  | cons token tokens ih =>
      cases word with
      | nil => exact ⟨fun _ => List.nil_prefix, fun _ => List.nil_prefix⟩
      | cons head rest =>
          cases token with
          | char value =>
              rw [render, render, List.cons_prefix_cons, List.cons_prefix_cons]
              exact and_congr Iff.rfl (ih (suffixes inner))
          | hit found =>
              have apart := rules.inner index (rules.complete index) _ inner (List.cons_ne_nil _ _)
                found (rules.complete found)
              have never : ∀ state, ¬ head :: rest <+: rules.render state (.hit found :: tokens) := by
                intro state
                rw [render, word]
                split
                · exact apart.2.append _
                · exact apart.1.append _
              exact ⟨fun given => absurd given (never done), fun given => absurd given (never other)⟩

theorem not_prefix_char {value : α} {tokens : List (Token ι α)}
    (proper : rules.Proper (.char value :: tokens)) (index : ι) (done : ι → Bool) :
    ¬ rules.pattern index <+: value :: rules.render done tokens := by
  have missing := proper.1 index
  cases shape : rules.pattern index with
  | nil => exact absurd shape (rules.nonempty index (rules.complete index))
  | cons first others =>
      rw [shape, List.cons_prefix_cons] at missing
      rw [List.cons_prefix_cons]
      rintro ⟨rfl, inside⟩
      have inner : others ∈ (rules.pattern index).tails.tail := by
        rw [shape, List.tails_cons, List.tail_cons, List.mem_tails]
      exact missing ⟨rfl, (rules.prefix_render inner done _ _).mp inside⟩

/-- A pattern touches neither another pattern nor another's replacement. -/
theorem apart_word {index found : ι} (different : index ≠ found) (done : ι → Bool) :
    ∀ rest, rest ≠ [] → rest <:+ rules.word done found → Apart (rules.pattern index) rest := by
  intro rest given inside
  unfold word at inside
  split at inside
  · exact rules.replaced index (rules.complete index) found (rules.complete found) different rest
      ((List.mem_tails _ _).mpr inside) given
  · by_cases whole : rest = rules.pattern found
    · rw [whole]
      exact rules.distinct index (rules.complete index) found (rules.complete found) different
    · have inner : rest ∈ (rules.pattern found).tails.tail := by
        cases shape : rules.pattern found with
        | nil =>
            rw [shape, List.suffix_nil] at inside
            exact absurd inside given
        | cons first others =>
            rw [shape] at inside whole
            rw [List.tails_cons, List.tail_cons, List.mem_tails]
            exact (List.suffix_cons_iff.mp inside).resolve_left whole
      have apart := (rules.inner found (rules.complete found) rest inner given index
        (rules.complete index)).1
      exact ⟨apart.2, apart.1⟩

theorem replaceAll_render {index : ι} {done : ι → Bool} (pending : done index = false)
    {tokens : List (Token ι α)} (proper : rules.Proper tokens) :
    replaceAll (rules.pattern index) (rules.replacement index) (rules.render done tokens) =
      rules.render (Function.update done index true) tokens := by
  induction tokens with
  | nil => rfl
  | cons token tokens ih =>
      cases token with
      | char value =>
          rw [render, replaceAll_miss (rules.not_prefix_char proper index done), ih proper.2]
          rfl
      | hit found =>
          rw [render, render]
          by_cases same : index = found
          · subst same
            have before : rules.word done index = rules.pattern index := by
              rw [word, pending]
              rfl
            have after : rules.word (Function.update done index true) index =
                rules.replacement index := by
              rw [word, Function.update_self]
              rfl
            rw [before, after, replaceAll_hit (rules.nonempty index (rules.complete index)), ih proper]
          · have kept : rules.word (Function.update done index true) found = rules.word done found := by
              rw [word, word, Function.update_of_ne (Ne.symm same)]
            rw [kept, replaceAll_word (rules.apart_word same done), ih proper]

/-- The replacement does not bring its own pattern back. -/
def Clean (index : ι) : Prop :=
  ∀ rest ∈ (rules.replacement index).tails, rest ≠ [] → Apart (rules.pattern index) rest

theorem Clean.apart {index : ι} (clean : rules.Clean index) :
    ∀ rest, rest ≠ [] → rest <:+ rules.replacement index → Apart (rules.pattern index) rest :=
  fun rest given inside => clean rest ((List.mem_tails _ _).mpr inside) given

theorem not_infix_render {index : ι} {done : ι → Bool} {tokens : List (Token ι α)}
    (gone : Token.hit index ∈ tokens → done index = true ∧ rules.Clean index)
    (proper : rules.Proper tokens) : ¬ rules.pattern index <:+: rules.render done tokens := by
  induction tokens with
  | nil =>
      intro found
      exact rules.nonempty index (rules.complete index) (List.eq_nil_of_infix_nil found)
  | cons token tokens ih =>
      have tail : Token.hit index ∈ tokens → done index = true ∧ rules.Clean index :=
        fun member => gone (List.mem_cons_of_mem _ member)
      cases token with
      | char value =>
          rw [render, List.infix_cons_iff, not_or]
          exact ⟨rules.not_prefix_char proper index done, ih tail proper.2⟩
      | hit found =>
          rw [render]
          intro inside
          apply ih tail proper
          by_cases same : index = found
          · subst same
            obtain ⟨finished, clean⟩ := gone List.mem_cons_self
            have after : rules.word done index = rules.replacement index := by
              rw [word, finished]
              rfl
            rw [after] at inside
            exact infix_word clean.apart inside
          · exact infix_word (rules.apart_word same done) inside

theorem render_append (done : ι → Bool) (first second : List (Token ι α)) :
    rules.render done (first ++ second) = rules.render done first ++ rules.render done second := by
  induction first with
  | nil => rfl
  | cons token first ih =>
      cases token with
      | char value => exact congrArg (List.cons value) ih
      | hit found => rw [List.cons_append, render, render, ih, List.append_assoc]

theorem word_infix_render (done : ι → Bool) {index : ι} {tokens : List (Token ι α)}
    (occurs : Token.hit index ∈ tokens) : rules.word done index <:+: rules.render done tokens := by
  obtain ⟨before, after, rfl⟩ := List.append_of_mem occurs
  rw [render_append, render]
  exact ⟨rules.render done before, rules.render done after, by rw [List.append_assoc]⟩

/-- A pattern that is still pending occurs where its token does. -/
theorem infix_render {index : ι} {done : ι → Bool} (pending : done index = false)
    {tokens : List (Token ι α)} (proper : rules.Proper tokens) :
    rules.pattern index <:+: rules.render done tokens ↔ Token.hit index ∈ tokens := by
  constructor
  · intro inside
    by_contra absent
    exact rules.not_infix_render (fun member => absurd member absent) proper inside
  · intro member
    have own : rules.word done index = rules.pattern index := by
      rw [word, pending]
      rfl
    rw [← own]
    exact rules.word_infix_render done member

theorem render_congr {done other : ι → Bool} {tokens : List (Token ι α)}
    (agree : ∀ index, Token.hit index ∈ tokens → done index = other index) :
    rules.render done tokens = rules.render other tokens := by
  induction tokens with
  | nil => rfl
  | cons token tokens ih =>
      have tail := ih fun index member => agree index (List.mem_cons_of_mem _ member)
      cases token with
      | char value => exact congrArg (List.cons value) tail
      | hit found =>
          have same : rules.word done found = rules.word other found := by
            rw [word, word, agree found List.mem_cons_self]
          rw [render, render, same, tail]

/-- Two states of replacement that give one text agree on the patterns that occur. -/
theorem render_injective {done other : ι → Bool} {tokens : List (Token ι α)}
    (same : rules.render done tokens = rules.render other tokens) {index : ι}
    (occurs : Token.hit index ∈ tokens) : done index = other index := by
  induction tokens with
  | nil => cases occurs
  | cons token tokens ih =>
      cases token with
      | char value =>
          obtain char | later := List.mem_cons.mp occurs
          · cases char
          · exact ih (List.cons.inj same).2 later
      | hit found =>
          rw [render, render] at same
          have agree : done found = other found := by
            have apart := rules.changed found (rules.complete found)
            unfold word at same
            cases left : done found <;> cases right : other found <;> rw [left, right] at same <;>
              simp only [Bool.false_eq_true, if_false, if_true] at same
            · have first : rules.pattern found <+: rules.replacement found ++
                  rules.render other tokens := by
                rw [← same]
                exact List.prefix_append _ _
              exact absurd first (apart.append _)
            · have first : rules.pattern found <+: rules.replacement found ++
                  rules.render done tokens := by
                rw [same]
                exact List.prefix_append _ _
              exact absurd first (apart.append _)
          obtain hit | later := List.mem_cons.mp occurs
          · cases hit
            exact agree
          · have kept : rules.word done found = rules.word other found := by rw [word, word, agree]
            rw [kept] at same
            exact ih (List.append_cancel_left same) later

/-- Replacing a pattern once more changes nothing, unless its replacement contains it. -/
theorem replaceAll_done {index : ι} {done : ι → Bool} (finished : done index = true)
    (clean : rules.Clean index) {tokens : List (Token ι α)} (proper : rules.Proper tokens) :
    replaceAll (rules.pattern index) (rules.replacement index) (rules.render done tokens) =
      rules.render done tokens := by
  induction tokens with
  | nil => rfl
  | cons token tokens ih =>
      cases token with
      | char value =>
          rw [render, replaceAll_miss (rules.not_prefix_char proper index done), ih proper.2]
      | hit found =>
          rw [render]
          by_cases same : index = found
          · subst same
            have after : rules.word done index = rules.replacement index := by
              rw [word, finished]
              rfl
            rw [after, replaceAll_word clean.apart, ih proper]
          · rw [replaceAll_word (rules.apart_word same done), ih proper]

/-- The patterns may be replaced in any order. -/
theorem replaceAll_order {order : List ι} (nodup : order.Nodup) {done : ι → Bool}
    (pending : ∀ index ∈ order, done index = false) {tokens : List (Token ι α)}
    (proper : rules.Proper tokens) :
    order.foldl (fun text index => replaceAll (rules.pattern index) (rules.replacement index) text)
        (rules.render done tokens) =
      rules.render (fun index => done index || decide (index ∈ order)) tokens := by
  induction order generalizing done with
  | nil =>
      apply rules.render_congr
      intro index _
      simp
  | cons index rest ih =>
      obtain ⟨fresh, nodup⟩ := List.nodup_cons.mp nodup
      have later : ∀ other ∈ rest, Function.update done index true other = false := by
        intro other member
        have different : other ≠ index := by
          rintro rfl
          exact fresh member
        rw [Function.update_of_ne different]
        exact pending other (List.mem_cons_of_mem _ member)
      rw [List.foldl_cons, rules.replaceAll_render (pending index List.mem_cons_self) proper,
        ih nodup later]
      apply rules.render_congr
      intro other _
      by_cases same : other = index
      · subst same
        simp
      · simp [same]

end Rules

end BotBrew.Rewriting
