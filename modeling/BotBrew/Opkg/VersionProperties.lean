import Mathlib.Data.Char
import Mathlib.Data.List.Lex
import Mathlib.Data.List.TakeWhile
import BotBrew.Comparison.Lexicographic
import BotBrew.Opkg.Version

/-! `Version.compare` orders versions by their epochs, then by the alternating
runs of non-digits and digits of their two parts. -/

set_option autoImplicit false

namespace BotBrew.Opkg

open Comparison

/-- The alternating runs of a text: each run of non-digits, of which only the
first may be empty, with the number that follows it. -/
def runs (text : Text) : List (Text × Option Nat) :=
  match text with
  | [] => []
  | char :: rest =>
      (alpha (char :: rest), number (char :: rest)) :: runs (afterNumber (char :: rest))
termination_by text.length
decreasing_by exact afterNumber_cons_length char rest

/-- What the comparison sees of a run. -/
def component (run : Text × Option Nat) : Text ×ₗ Int := toLex (run.1, sentinel run.2)

/-- What the comparison sees of a text: its runs and then empty ones. -/
def key (text : Text) : Lex (ℕ → Text ×ₗ Int) :=
  padded (component ([], none)) ((runs text).map component)

theorem sentinel_injective : Function.Injective sentinel := by
  intro left right same
  cases left with
  | none =>
      cases right with
      | none => rfl
      | some number => simp [sentinel] at same
  | some number =>
      cases right with
      | none => simp [sentinel] at same
      | some number' => exact congrArg some (Int.ofNat.inj same)

theorem component_injective : Function.Injective component := by
  intro left right same
  have parts : (left.1, sentinel left.2) = (right.1, sentinel right.2) := toLex.injective same
  obtain ⟨alphas, numbers⟩ := Prod.mk.inj parts
  exact Prod.ext alphas (sentinel_injective numbers)

theorem int_none_iff {digits : Text} : int digits = none ↔ digits = [] := by
  unfold int
  split <;> simp_all

theorem run_ne_empty (char : Char) (rest : Text) :
    (alpha (char :: rest), number (char :: rest)) ≠ ([], none) := by
  intro empty
  obtain ⟨noAlpha, noNumber⟩ := Prod.mk.inj empty
  by_cases digit : char.isDigit
  · have digits := int_none_iff.mp noNumber
    simp [afterAlpha, digit] at digits
  · simp [alpha, digit] at noAlpha

theorem empty_notMem_runs (text : Text) : ([], none) ∉ runs text := by
  induction text using runs.induct with
  | case1 => simp [runs]
  | case2 char rest ih =>
      rw [runs, List.mem_cons, not_or]
      exact ⟨(run_ne_empty char rest).symm, ih⟩

theorem key_injective {left right : Text} (same : key left = key right) :
    runs left = runs right := by
  have free : ∀ text, component ([], none) ∉ (runs text).map component := by
    intro text member
    obtain ⟨run, inRuns, equal⟩ := List.mem_map.mp member
    exact empty_notMem_runs text (component_injective equal ▸ inRuns)
  exact component_injective.list_map (padded_injective (free left) (free right) same)

theorem key_eq (text : Text) :
    key text = prepend (component (alpha text, number text)) (key (afterNumber text)) := by
  cases text with
  | nil =>
      have unnumbered : number [] = none := rfl
      simpa [key, runs, alpha, afterNumber, afterAlpha, unnumbered] using padded_nil (component ([], none))
  | cons char rest =>
      unfold key
      rw [runs, List.map_cons, padded_cons]

theorem component_lt_of_alpha {left right : Text × Option Nat} (below : left.1 < right.1) :
    component left < component right :=
  Prod.Lex.toLex_lt_toLex.mpr (.inl below)

theorem component_lt_of_number {left right : Text × Option Nat} (same : left.1 = right.1)
    (below : sentinel left.2 < sentinel right.2) : component left < component right :=
  Prod.Lex.toLex_lt_toLex.mpr (.inr ⟨same, below⟩)

theorem versioncompare_sign (self ref : Text) :
    Sign (key self) (key ref) (Version._versioncompare self ref) := by
  induction self, ref using Version._versioncompare.induct with
  | case1 self ref above =>
      rw [Version._versioncompare, if_pos above, key_eq self, key_eq ref]
      exact .more (prepend_lt_of_head (component_lt_of_alpha above) _ _)
  | case2 self ref notAbove below =>
      rw [Version._versioncompare, if_neg notAbove, if_pos below, key_eq self, key_eq ref]
      exact .less (prepend_lt_of_head (component_lt_of_alpha below) _ _)
  | case3 self ref notAbove notBelow selfnum refnum above =>
      have alphas : alpha self = alpha ref := le_antisymm (not_lt.mp notAbove) (not_lt.mp notBelow)
      rw [Version._versioncompare, if_neg notAbove, if_neg notBelow, if_pos above, key_eq self,
        key_eq ref]
      exact .more (prepend_lt_of_head (component_lt_of_number alphas.symm above) _ _)
  | case4 self ref notAbove notBelow selfnum refnum notMore less =>
      have alphas : alpha self = alpha ref := le_antisymm (not_lt.mp notAbove) (not_lt.mp notBelow)
      rw [Version._versioncompare, if_neg notAbove, if_neg notBelow, if_neg notMore, if_pos less,
        key_eq self, key_eq ref]
      exact .less (prepend_lt_of_head (component_lt_of_number alphas less) _ _)
  | case5 self ref notAbove notBelow selfnum refnum notMore notLess ended =>
      have alphas : alpha self = alpha ref := le_antisymm (not_lt.mp notAbove) (not_lt.mp notBelow)
      have numbers : number self = number ref :=
        sentinel_injective (le_antisymm (not_lt.mp notMore) (not_lt.mp notLess))
      rw [Version._versioncompare, if_neg notAbove, if_neg notBelow, if_neg notMore,
        if_neg notLess, if_pos ended, key_eq self, key_eq ref, ended.1, ended.2, alphas, numbers]
      exact .same rfl
  | case6 self ref notAbove notBelow selfnum refnum notMore notLess more ih =>
      have alphas : alpha self = alpha ref := le_antisymm (not_lt.mp notAbove) (not_lt.mp notBelow)
      have numbers : number self = number ref :=
        sentinel_injective (le_antisymm (not_lt.mp notMore) (not_lt.mp notLess))
      rw [Version._versioncompare, if_neg notAbove, if_neg notBelow, if_neg notMore,
        if_neg notLess, if_neg more, key_eq self, key_eq ref, alphas, numbers]
      exact Sign.prepend (.same rfl) fun _ => ih

/-! Whole versions -/

def Line (text : Text) : Prop := text ≠ [] ∧ '\n' ∉ text

theorem takeWhile_line {text : Text} (line : Line text) : text.takeWhile (· != '\n') = text := by
  refine List.takeWhile_eq_self_iff.mpr fun char member => ?_
  have other : char ≠ '\n' := fun same => line.2 (same ▸ member)
  simp [other]

theorem dropWhile_line {text : Text} (line : Line text) : text.dropWhile (· != '\n') = [] := by
  refine List.dropWhile_eq_nil_iff.mpr fun char member => ?_
  have other : char ≠ '\n' := fun same => line.2 (same ▸ member)
  simp [other]

/-- The upstream part of a version and its revision, which may be empty. -/
def Version.parts (version : Version) : Text × Text :=
  match components version.version with
  | some (upstream, revision) => (upstream, revision.getD [])
  | none => ([], [])

theorem components_line {text : Text} (line : Line text) :
    ∃ upstream revision, components text = some (upstream, revision) := by
  unfold components
  rw [takeWhile_line line, dropWhile_line line]
  cases text with
  | nil => exact absurd rfl line.1
  | cons char rest => exact ⟨_, _, rfl⟩

/-- Splitting a line loses nothing, and no revision begins before the second part. -/
theorem splitRevision_spec (text : Text) :
    (splitRevision text).1 ++ (splitRevision text).2.getD [] = text ∧
      ∀ index < (splitRevision text).1.length, isRevision (text.drop index) = false := by
  induction text with
  | nil => simp [splitRevision]
  | cons char rest ih =>
      by_cases revision : isRevision (char :: rest)
      · simp [splitRevision, revision]
      · simp only [splitRevision, revision, Bool.false_eq_true, ↓reduceIte, List.cons_append, ih.1,
          List.length_cons, true_and]
        intro index before
        cases index with
        | zero => simpa using revision
        | succ index => exact ih.2 index (Nat.lt_of_succ_lt_succ before)

/-- Epochs come first, then upstream parts, then revisions. -/
noncomputable def Version.rank (version : Version) :
    ℕ ×ₗ (Lex (ℕ → Text ×ₗ Int) ×ₗ Lex (ℕ → Text ×ₗ Int)) :=
  toLex (version.epoch, toLex (key version.parts.1, key version.parts.2))

theorem Version.compare_sign {self ref : Version} (selfLine : Line self.version)
    (refLine : Line ref.version) :
    ∃ result, self.compare ref = some result ∧ Sign self.rank ref.rank result := by
  unfold Version.compare
  by_cases above : self.epoch > ref.epoch
  · exact ⟨1, if_pos above, .more (Prod.Lex.toLex_lt_toLex.mpr (.inl above))⟩
  by_cases below : self.epoch < ref.epoch
  · rw [if_neg above, if_pos below]
    exact ⟨-1, rfl, .less (Prod.Lex.toLex_lt_toLex.mpr (.inl below))⟩
  have epochs : self.epoch = ref.epoch := le_antisymm (not_lt.mp above) (not_lt.mp below)
  obtain ⟨selfUp, selfRev, selfGroups⟩ := components_line selfLine
  obtain ⟨refUp, refRev, refGroups⟩ := components_line refLine
  have selfParts : self.parts = (selfUp, selfRev.getD []) := by simp [Version.parts, selfGroups]
  have refParts : ref.parts = (refUp, refRev.getD []) := by simp [Version.parts, refGroups]
  have parts : Sign (toLex (key self.parts.1, key self.parts.2))
      (toLex (key ref.parts.1, key ref.parts.2)) _ :=
    .pair (versioncompare_sign self.parts.1 ref.parts.1)
      fun _ => versioncompare_sign self.parts.2 ref.parts.2
  have sign : Sign self.rank ref.rank _ := .pair (.same epochs) fun _ => parts
  rw [if_neg above, if_neg below]
  refine ⟨_, ?_, sign⟩
  simp only [selfGroups, refGroups, selfParts, refParts, Option.bind_eq_bind, Option.bind_some,
    ↓reduceIte]
  split <;> rfl

/-! Version strings -/

/-- A string on one line that does not begin with a colon or end with that of an epoch. -/
structure ValidVersion (text : Text) : Prop where
  line : Line text
  no_colon : text.head? ≠ some ':'
  no_bare_epoch : text.dropWhile Char.isDigit ≠ [':']

theorem parse_version_valid {text : Text} (valid : ValidVersion text) :
    ∃ version, parse_version text = some version ∧ Line version.version := by
  unfold parse_version
  split
  · rename_i rest colon
    have split : text.takeWhile Char.isDigit ++ ':' :: rest = text := by
      rw [← colon, List.takeWhile_append_dropWhile]
    have epoch : text.takeWhile Char.isDigit ≠ [] := by
      intro none
      rw [none] at split
      exact valid.no_colon (split ▸ rfl)
    have restLine : Line rest := by
      refine ⟨fun empty => valid.no_bare_epoch (empty ▸ colon), fun member => valid.line.2 ?_⟩
      rw [← split]
      simp [member]
    cases number : int (text.takeWhile Char.isDigit) with
    | none => exact absurd (int_none_iff.mp number) epoch
    | some epoch => exact ⟨_, rfl, (takeWhile_line restLine).symm ▸ restLine⟩
  · exact ⟨_, rfl, valid.line⟩

def compareTexts (self ref : Text) : Option Int := do
  let selfversion ← parse_version self
  let refversion ← parse_version ref
  selfversion.compare refversion

theorem compareTexts_sign {self ref : Text} (selfValid : ValidVersion self)
    (refValid : ValidVersion ref) :
    ∃ selfversion refversion result, parse_version self = some selfversion ∧
      parse_version ref = some refversion ∧ compareTexts self ref = some result ∧
      Sign selfversion.rank refversion.rank result := by
  obtain ⟨selfversion, selfParsed, selfLine⟩ := parse_version_valid selfValid
  obtain ⟨refversion, refParsed, refLine⟩ := parse_version_valid refValid
  obtain ⟨result, compared, sign⟩ := Version.compare_sign selfLine refLine
  refine ⟨selfversion, refversion, result, selfParsed, refParsed, ?_, sign⟩
  simp [compareTexts, selfParsed, refParsed, compared]

theorem rank_eq_iff {self ref : Version} :
    self.rank = ref.rank ↔ self.epoch = ref.epoch ∧ runs self.parts.1 = runs ref.parts.1 ∧
      runs self.parts.2 = runs ref.parts.2 := by
  constructor
  · intro same
    obtain ⟨epochs, parts⟩ := Prod.mk.inj (toLex.injective same)
    obtain ⟨upstreams, revisions⟩ := Prod.mk.inj (toLex.injective parts)
    exact ⟨epochs, key_injective upstreams, key_injective revisions⟩
  · rintro ⟨epochs, upstreams, revisions⟩
    simp only [Version.rank, key, epochs, upstreams, revisions]

end BotBrew.Opkg
