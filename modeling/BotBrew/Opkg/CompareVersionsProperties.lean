import Mathlib.Data.Prod.Lex
import BotBrew.Comparison.Lists
import BotBrew.Opkg.CompareVersions

/-! The order of versions in `opkg-compare-versions.c` -/

set_option autoImplicit false

namespace BotBrew.Opkg.CompareVersions

open Words Comparison

variable {target : Target} {val ref : List Byte}

/-! ## Characters -/

theorem Target.int_bounds (target : Target) (char : Byte) :
    -128 ≤ target.int char ∧ (isalpha char = true → 0 < target.int char) := by
  have below := char.isLt
  have number := BitVec.toInt_eq_toNat_cond char
  have letters : isalpha char = true → 65 ≤ char.toNat ∧ char.toNat ≤ 122 := by
    simp only [isalpha, Bool.or_eq_true, Bool.and_eq_true, decide_eq_true_eq]
    omega
  simp only [int]
  split
  · split at number <;> refine ⟨by omega, fun letter => ?_⟩ <;> have range := letters letter <;> omega
  · refine ⟨by omega, fun letter => ?_⟩
    have range := letters letter
    omega

theorem Target.order_pos (target : Target) (char : Byte) : 0 < target.order char := by
  obtain ⟨lower, letter⟩ := target.int_bounds char
  simp only [order]
  split
  case isTrue alpha => exact letter alpha
  case isFalse => omega

theorem Target.order_injective (target : Target) : Function.Injective target.order := by
  have back : ∀ char : Byte, BitVec.ofInt 8 (target.order char) = char := by
    intro char
    have again (number : Int) : BitVec.ofInt 8 (number + 256) = BitVec.ofInt 8 number := by
      apply BitVec.eq_of_toInt_eq
      simp only [BitVec.toInt_ofInt]
      exact Int.add_bmod_right number 256
    have plain : BitVec.ofInt 8 (target.int char) = char := by
      simp only [int]
      split
      · exact BitVec.ofInt_toInt
      · simp
    simp only [order]
    split
    · exact plain
    · rw [again, plain]
  exact Function.LeftInverse.injective back

theorem compareNondigits_sign (val ref : List Byte) :
    Sign (val.map target.order) (ref.map target.order) (compareNondigits target val ref).sign := by
  induction val generalizing ref with
  | nil =>
    cases ref with
    | nil => exact .same rfl
    | cons char ref =>
      have positive := target.order_pos char
      rw [compareNondigits, Int.sign_eq_neg_one_of_neg (by omega)]
      exact Sign.nil_cons
  | cons char val hypothesis =>
    cases ref with
    | nil =>
      rw [compareNondigits, Int.sign_eq_one_of_pos (target.order_pos char)]
      exact Sign.cons_nil
    | cons char' ref =>
      rw [compareNondigits]
      split
      case isTrue differ => exact (Sign.sub _ _).cons_of_ne differ
      case isFalse same =>
        simp only [List.map_cons, not_not.mp same]
        exact Sign.cons_iff.mpr (hypothesis ref)

theorem compareNondigits_eq_zero : compareNondigits target val ref = 0 ↔ val = ref := by
  rw [← Int.sign_eq_zero_iff_zero, (compareNondigits_sign val ref).eq_zero_iff]
  exact (List.map_injective_iff.mpr target.order_injective).eq_iff

/-! ## Pieces of a version -/

/-- What comes after a number: the end, a separator or anything else -/
def follow : List Byte → Nat
  | [] => 0
  | char :: _ => if char == 46 || char == 45 then 1 else 2

/-- What the outer loop reads in one round -/
structure Piece where
  nondigits : List Byte
  number : Nat
  follow : Nat
  deriving DecidableEq

def piece (text : List Byte) : Piece := ⟨nondigits text, digits (fromDigits text), follow (fromRest text)⟩

def pieces (text : List Byte) : List Piece :=
  if _ended : fromRest text = [] then [piece text] else piece text :: pieces (fromRest text)
termination_by text.length
decreasing_by exact fromRest_decreases _ended

def Piece.rank (target : Target) (piece : Piece) : List ℤ ×ₗ ℕ ×ₗ ℕ :=
  toLex (piece.nondigits.map target.order, toLex (piece.number, piece.follow))

/-- What the order of a version comes from -/
def key (target : Target) (text : List Byte) : List (List ℤ ×ₗ ℕ ×ₗ ℕ) := (pieces text).map (Piece.rank target)

theorem Piece.rank_injective (target : Target) : Function.Injective (Piece.rank target) := by
  intro left right same
  have parts := Prod.mk.inj (toLex.injective same)
  have numbers := Prod.mk.inj (toLex.injective parts.2)
  have texts := List.map_injective_iff.mpr target.order_injective parts.1
  cases left
  cases right
  exact Piece.mk.injEq .. |>.mpr ⟨texts, numbers⟩

theorem key_eq_iff : key target val = key target ref ↔ pieces val = pieces ref :=
  (List.map_injective_iff.mpr (Piece.rank_injective target)).eq_iff

/-! ## One round -/

theorem follow_eq_zero {text : List Byte} : follow text = 0 ↔ text = [] := by
  cases text with
  | nil => simp [follow]
  | cons char text => simp only [follow, reduceCtorEq, iff_false]; split <;> decide

theorem separates_eq (text : List Byte) : separates text = decide (follow text < 2) := by
  cases text with
  | nil => rfl
  | cons char text => simp only [separates, follow]; split <;> simp_all

theorem follow_le (text : List Byte) : follow text ≤ 2 := by
  cases text with
  | nil => decide
  | cons char text => simp only [follow]; split <;> decide

/-- A round decides by the text before the number, the number and what comes after it. -/
theorem verrevcmp_step (val ref : List Byte) : verrevcmp target val ref =
    if nondigits val ≠ nondigits ref then compareNondigits target (nondigits val) (nondigits ref)
    else if target.strtol (fromDigits val) ≠ target.strtol (fromDigits ref) then
      truncate (target.strtol (fromDigits val) - target.strtol (fromDigits ref))
    else if follow (fromRest val) < follow (fromRest ref) then -1
    else if follow (fromRest ref) < follow (fromRest val) then 1
    else if fromRest val = [] then 0
    else verrevcmp target (fromRest val) (fromRest ref) := by
  have valEnd := @follow_eq_zero (fromRest val)
  have refEnd := @follow_eq_zero (fromRest ref)
  have valBound := follow_le (fromRest val)
  have refBound := follow_le (fromRest ref)
  rw [verrevcmp]
  simp only [ne_eq, compareNondigits_eq_zero, separates_eq, Bool.and_eq_true, Bool.not_eq_true', decide_eq_true_eq,
    decide_eq_false_iff_not, ← valEnd, ← refEnd]
  refine if_congr Iff.rfl rfl (if_congr Iff.rfl rfl ?_)
  split_ifs <;> first | rfl | omega

theorem key_step (text : List Byte) :
    key target text = (piece text).rank target :: if fromRest text = [] then [] else key target (fromRest text) := by
  rw [key, pieces]
  split <;> rfl

/-! ## When the difference of two numbers is no `int` -/

/-- The number that decides is one of those whose difference has another sign as an `int`. -/
inductive Wraps : List Byte → List Byte → Prop where
  | here {val ref : List Byte} (same : nondigits val = nondigits ref)
      (wraps : (truncate ((piece val).number - (piece ref).number)).sign ≠
        ((piece val).number - (piece ref).number : Int).sign) : Wraps val ref
  | later {val ref : List Byte} (same : piece val = piece ref) (more : fromRest val ≠ [])
      (wraps : Wraps (fromRest val) (fromRest ref)) : Wraps val ref

/-- No number of a text is above a limit. -/
def Bounded (limit : Nat) (text : List Byte) : Prop := ∀ piece ∈ pieces text, piece.number ≤ limit

theorem Bounded.first {limit : Nat} {text : List Byte} (bounded : Bounded limit text) : (piece text).number ≤ limit := by
  refine bounded _ ?_
  rw [pieces]
  split <;> exact List.mem_cons_self

theorem Bounded.rest {limit : Nat} {text : List Byte} (bounded : Bounded limit text) (more : fromRest text ≠ []) :
    Bounded limit (fromRest text) := by
  intro later listed
  refine bounded later ?_
  rw [pieces, dif_neg more]
  exact List.mem_cons_of_mem _ listed

theorem Bounded.of_first {limit : Nat} {text : List Byte} (below : (piece text).number ≤ limit)
    (rest : fromRest text ≠ [] → Bounded limit (fromRest text)) : Bounded limit text := by
  intro found listed
  rw [pieces] at listed
  split at listed
  · exact List.mem_singleton.mp listed ▸ below
  · next more =>
    rcases List.mem_cons.mp listed with rfl | later
    · exact below
    · exact rest more found later

theorem Bounded.strtol {text : List Byte} (bounded : Bounded target.LONG_MAX text) :
    target.strtol (fromDigits text) = (piece text).number :=
  Nat.min_eq_left bounded.first

theorem rank_sign_nondigits (differ : nondigits val ≠ nondigits ref) :
    Sign ((piece val).rank target) ((piece ref).rank target)
      (compareNondigits target (nondigits val) (nondigits ref)).sign := by
  have sign := @compareNondigits_sign target (nondigits val) (nondigits ref)
  have decided : (compareNondigits target (nondigits val) (nondigits ref)).sign ≠ 0 := by
    simpa only [ne_eq, Int.sign_eq_zero_iff_zero, compareNondigits_eq_zero] using differ
  generalize (compareNondigits target (nondigits val) (nondigits ref)).sign = result at sign decided
  cases sign with
  | less below => exact .less (Prod.Lex.toLex_lt_toLex.mpr (.inl below))
  | same equal => exact absurd rfl decided
  | more above => exact .more (Prod.Lex.toLex_lt_toLex.mpr (.inl above))

theorem rank_sign_number (same : nondigits val = nondigits ref) (differ : (piece val).number ≠ (piece ref).number) :
    Sign ((piece val).rank target) ((piece ref).rank target) ((piece val).number - (piece ref).number : Int).sign := by
  have texts : (piece val).nondigits.map target.order = (piece ref).nondigits.map target.order := congrArg _ same
  rcases Nat.lt_or_gt_of_ne differ with below | above
  · rw [Int.sign_eq_neg_one_of_neg (by omega)]
    exact .less (Prod.Lex.toLex_lt_toLex.mpr (.inr ⟨texts, Prod.Lex.toLex_lt_toLex.mpr (.inl below)⟩))
  · rw [Int.sign_eq_one_of_pos (by omega)]
    exact .more (Prod.Lex.toLex_lt_toLex.mpr (.inr ⟨texts.symm, Prod.Lex.toLex_lt_toLex.mpr (.inl above)⟩))

theorem rank_lt_follow (same : nondigits val = nondigits ref) (numbers : (piece val).number = (piece ref).number)
    (below : follow (fromRest val) < follow (fromRest ref)) : (piece val).rank target < (piece ref).rank target :=
  Prod.Lex.toLex_lt_toLex.mpr (.inr ⟨congrArg (List.map target.order) same,
    Prod.Lex.toLex_lt_toLex.mpr (.inr ⟨numbers, below⟩)⟩)

theorem Wraps.nondigits_eq (wraps : Wraps val ref) : nondigits val = nondigits ref := by
  cases wraps with
  | here same => exact same
  | later same => exact congrArg Piece.nondigits same

/-- Where the numbers of a round are the same, the next round wraps. -/
theorem wraps_iff_rest (texts : nondigits val = nondigits ref) (numbers : (piece val).number = (piece ref).number) :
    Wraps val ref ↔ follow (fromRest val) = follow (fromRest ref) ∧ fromRest val ≠ [] ∧
      Wraps (fromRest val) (fromRest ref) := by
  constructor
  · intro wraps
    cases wraps with
    | here _ wraps => exact absurd (by rw [numbers, Int.sub_self]; decide) wraps
    | later same more wraps => exact ⟨congrArg Piece.follow same, more, wraps⟩
  · intro later
    have same : piece val = piece ref := Piece.mk.injEq .. |>.mpr ⟨texts, numbers, later.1⟩
    exact .later same later.2.1 later.2.2

theorem sign_nondigits (texts : nondigits val ≠ nondigits ref) :
    Sign (key target val) (key target ref) (verrevcmp target val ref).sign := by
  have differ : (piece val).rank target ≠ (piece ref).rank target := fun same =>
    texts (congrArg Piece.nondigits (Piece.rank_injective target same))
  rw [verrevcmp_step, if_pos texts, key_step val, key_step ref]
  exact (rank_sign_nondigits texts).cons_of_ne differ

/-- Where the numbers decide, the result is right if their difference keeps its sign. -/
theorem sign_number_iff (valBounded : Bounded target.LONG_MAX val) (refBounded : Bounded target.LONG_MAX ref)
    (texts : nondigits val = nondigits ref) (numbers : (piece val).number ≠ (piece ref).number) :
    Sign (key target val) (key target ref) (verrevcmp target val ref).sign ↔ ¬ Wraps val ref := by
  have heads := @rank_sign_number target _ _ texts numbers
  have differ : (piece val).rank target ≠ (piece ref).rank target := fun same =>
    numbers (congrArg Piece.number (Piece.rank_injective target same))
  rw [verrevcmp_step, valBounded.strtol, refBounded.strtol, if_neg (not_not.mpr texts), if_pos numbers, key_step val,
    key_step ref]
  constructor
  · intro sign wraps
    cases wraps with
    | here _ wraps => exact wraps (sign.unique (heads.cons_of_ne differ))
    | later same => exact numbers (congrArg Piece.number same)
  · intro free
    have sign : (truncate ((piece val).number - (piece ref).number)).sign =
        ((piece val).number - (piece ref).number : Int).sign := by
      by_contra wraps
      exact free (.here texts wraps)
    rw [sign]
    exact heads.cons_of_ne differ

/-- The result has the sign that it should have exactly if the number that decides does not wrap. -/
theorem verrevcmp_sign_iff (valBounded : Bounded target.LONG_MAX val) (refBounded : Bounded target.LONG_MAX ref) :
    Sign (key target val) (key target ref) (verrevcmp target val ref).sign ↔ ¬ Wraps val ref := by
  induction size : val.length using Nat.strong_induction_on generalizing val ref with
  | _ size hypothesis =>
    by_cases texts : nondigits val = nondigits ref
    case neg => exact iff_of_true (sign_nondigits texts) fun wraps => texts wraps.nondigits_eq
    by_cases numbers : (piece val).number = (piece ref).number
    case neg => exact sign_number_iff valBounded refBounded texts numbers
    rw [verrevcmp_step, valBounded.strtol, refBounded.strtol, key_step val, key_step ref, if_neg (not_not.mpr texts),
      if_neg (not_not.mpr numbers), wraps_iff_rest texts numbers]
    rcases Nat.lt_trichotomy (follow (fromRest val)) (follow (fromRest ref)) with below | equal | above
    · have less := @rank_lt_follow target _ _ texts numbers below
      rw [if_pos below]
      exact iff_of_true ((Sign.less less).cons_of_ne less.ne) fun wraps => below.ne wraps.1
    · have same : piece val = piece ref := Piece.mk.injEq .. |>.mpr ⟨texts, numbers, equal⟩
      rw [if_neg equal.not_lt, if_neg equal.not_gt, same, Sign.cons_iff]
      by_cases ended : fromRest val = []
      · have refEnded : fromRest ref = [] := follow_eq_zero.mp (equal ▸ follow_eq_zero.mpr ended)
        rw [if_pos ended, if_pos ended, if_pos refEnded]
        exact iff_of_true (.same rfl) fun wraps => wraps.2.1 ended
      · have refMore : fromRest ref ≠ [] := fun refEnded =>
          ended (follow_eq_zero.mp (equal.trans (follow_eq_zero.mpr refEnded)))
        rw [if_neg ended, if_neg ended, if_neg refMore,
          hypothesis _ (size ▸ fromRest_decreases ended) (valBounded.rest ended) (refBounded.rest refMore) rfl]
        exact not_congr ⟨fun wraps => ⟨equal, ended, wraps⟩, fun wraps => wraps.2.2⟩
    · have more := @rank_lt_follow target _ _ texts.symm numbers.symm above
      rw [if_neg above.not_gt, if_pos above]
      exact iff_of_true ((Sign.more more).cons_of_ne more.ne') fun wraps => above.ne' wraps.1

theorem truncate_small {number : Int} (least : -2 ^ 31 ≤ number) (below : number < 2 ^ 31) : truncate number = number :=
  Int.bmod_eq_of_le (by omega) (by omega)

def INT_MAX : Nat := 2 ^ 31 - 1

theorem Bounded.not_wraps (valBounded : Bounded INT_MAX val) (refBounded : Bounded INT_MAX ref) : ¬ Wraps val ref := by
  intro wraps
  induction wraps with
  | here same wraps =>
    have above := valBounded.first
    have above' := refBounded.first
    simp only [INT_MAX] at above above'
    exact wraps (by rw [truncate_small (by omega) (by omega)])
  | @later val ref same more wraps hypothesis =>
    have refMore : fromRest ref ≠ [] := by
      intro ended
      have follows : follow (fromRest val) = follow (fromRest ref) := congrArg Piece.follow same
      exact more (follow_eq_zero.mp (follows.trans (follow_eq_zero.mpr ended)))
    exact hypothesis (valBounded.rest more) (refBounded.rest refMore)

theorem Target.INT_MAX_le (target : Target) : INT_MAX ≤ target.LONG_MAX := by
  have least := target.least
  exact Nat.sub_le_sub_right (Nat.pow_le_pow_right (by decide) (by omega)) 1

theorem Bounded.mono {limit limit' : Nat} {text : List Byte} (bounded : Bounded limit text) (le : limit ≤ limit') :
    Bounded limit' text :=
  fun piece listed => (bounded piece listed).trans le

/-- Of versions whose numbers a `long` can hold, the result has the sign that it should have exactly if the number that
decides does not wrap. None does where a `long` is no longer than an `int`. -/
theorem verrevcmp_exact (valBounded : Bounded target.LONG_MAX val) (refBounded : Bounded target.LONG_MAX ref) :
    (Sign (key target val) (key target ref) (verrevcmp target val ref).sign ↔ ¬ Wraps val ref) ∧
      (target.long = 32 → ¬ Wraps val ref) := by
  refine ⟨verrevcmp_sign_iff valBounded refBounded, fun short => ?_⟩
  have limit : target.LONG_MAX = INT_MAX := by rw [Target.LONG_MAX, short]; rfl
  exact (limit ▸ valBounded : Bounded INT_MAX val).not_wraps (limit ▸ refBounded)

/-- A `long` of 64 bits and a `char` with a sign -/
def desktop : Target := ⟨64, by decide, true⟩

/-- Four billion is no version after zero. -/
theorem verrevcmp_exact_wrapped : ¬ Sign (key desktop (ascii "4294967296")) (key desktop (ascii "0"))
    (verrevcmp desktop (ascii "4294967296") (ascii "0")).sign := by
  have exact := @verrevcmp_exact desktop (ascii "4294967296") (ascii "0") (.of_first (by decide) (absurd rfl))
    (.of_first (by decide) (absurd rfl))
  exact exact.1.not.mpr (not_not.mpr (.here rfl (by decide)))

theorem verrevcmp_sign (valBounded : Bounded INT_MAX val) (refBounded : Bounded INT_MAX ref) :
    Sign (key target val) (key target ref) (verrevcmp target val ref).sign :=
  (verrevcmp_sign_iff (valBounded.mono target.INT_MAX_le) (refBounded.mono target.INT_MAX_le)).mpr
    (valBounded.not_wraps refBounded)

/-! ## Whole versions -/

/-- Epochs come first. -/
def versionrevision.rank (target : Target) (version : versionrevision) : ℕ ×ₗ List (List ℤ ×ₗ ℕ ×ₗ ℕ) :=
  toLex (version.epoch, key target version.version)

theorem rank_eq_iff {version refversion : versionrevision} : version.rank target = refversion.rank target ↔
    version.epoch = refversion.epoch ∧ pieces version.version = pieces refversion.version := by
  rw [versionrevision.rank, versionrevision.rank, toLex.injective.eq_iff, Prod.mk.injEq, key_eq_iff]

theorem verrevcmp_nil : verrevcmp target [] [] = 0 := by
  rw [verrevcmp_step]
  simp [fromRest, fromDigits]

theorem versioncompare_sign {version refversion : versionrevision} (bounded : Bounded INT_MAX version.version)
    (refBounded : Bounded INT_MAX refversion.version) (plain : version.revision = [])
    (refPlain : refversion.revision = []) :
    Sign (version.rank target) (refversion.rank target) (versioncompare target version refversion).sign := by
  simp only [versioncompare, plain, refPlain, verrevcmp_nil]
  rcases Nat.lt_trichotomy version.epoch refversion.epoch with below | equal | above
  · rw [if_neg below.not_gt, if_pos below]
    exact .less (Prod.Lex.toLex_lt_toLex.mpr (.inl below))
  · rw [if_neg equal.not_gt, if_neg equal.not_lt]
    have same : (if verrevcmp target version.version refversion.version ≠ 0 then
        verrevcmp target version.version refversion.version else 0) =
        verrevcmp target version.version refversion.version := by
      split
      · rfl
      · next zero => exact (not_not.mp zero).symm
    rw [same]
    have sign := @verrevcmp_sign target _ _ bounded refBounded
    generalize (verrevcmp target version.version refversion.version).sign = result at sign
    cases sign with
    | less below => exact .less (Prod.Lex.toLex_lt_toLex.mpr (.inr ⟨equal, below⟩))
    | same keys => exact .same (congrArg toLex (Prod.ext equal keys))
    | more above => exact .more (Prod.Lex.toLex_lt_toLex.mpr (.inr ⟨equal.symm, above⟩))
  · rw [if_pos above]
    exact .more (Prod.Lex.toLex_lt_toLex.mpr (.inl above))

theorem parseversion_plain {text : List Byte} {version : versionrevision}
    (parsed : parseversion target text = .ok version) : version.revision = [] := by
  unfold parseversion at parsed
  split at parsed
  · cases parsed
  · split at parsed
    · cases parsed
      rfl
    · simp only at parsed
      split at parsed
      · cases parsed
      · split at parsed
        · cases parsed
        · cases parsed
          rfl

/-- What an operator says. `<` and `>` allow the same version, too. -/
def Satisfies {α : Type*} [LT α] [LE α] (op : List Byte) (left right : α) : Prop :=
  (op = ascii "<=" ∨ op = ascii "<") ∧ left ≤ right ∨ (op = ascii ">=" ∨ op = ascii ">") ∧ right ≤ left ∨
    op = ascii "<<" ∧ left < right ∨ op = ascii ">>" ∧ right < left ∨ op = ascii "=" ∧ left = right

theorem satisfied_iff {α : Type*} [LinearOrder α] {left right : α} {result : Int} (sign : Sign left right result.sign) :
    (result ≤ 0 ↔ left ≤ right) ∧ (result ≥ 0 ↔ right ≤ left) ∧ (result < 0 ↔ left < right) ∧
      (result > 0 ↔ right < left) ∧ (result = 0 ↔ left = right) := by
  have nonneg := sign.nonneg_iff
  have zero := sign.eq_zero_iff
  rw [Int.sign_eq_zero_iff_zero] at zero
  rw [Int.sign_nonneg_iff] at nonneg
  have negative : result < 0 ↔ left < right := by rw [← not_le, nonneg, not_le]
  have positive : result > 0 ↔ right < left := by
    rw [lt_iff_le_and_ne, ← nonneg, ne_comm, ne_eq, ← zero]
    omega
  have atMost : result ≤ 0 ↔ left ≤ right := by rw [← not_lt, ← @not_lt α]; exact not_congr positive
  exact ⟨atMost, nonneg, negative, positive, zero⟩

theorem versionsatisfied3_iff {version refversion : versionrevision} (op : List Byte)
    (sign : Sign (version.rank target) (refversion.rank target) (versioncompare target version refversion).sign) :
    versionsatisfied3 target version refversion op = some true ↔
      Satisfies op (version.rank target) (refversion.rank target) := by
  obtain ⟨atMost, atLeast, less, more, same⟩ := satisfied_iff sign
  simp only [Satisfies, versionsatisfied3, ← atMost, ← atLeast, ← less, ← more, ← same]
  have distinct : [ascii "<=", ascii "<", ascii ">=", ascii ">", ascii "<<", ascii ">>", ascii "="].Nodup := by decide
  generalize ascii "<=" = notAfter, ascii "<" = below, ascii ">=" = notBefore, ascii ">" = above, ascii "<<" = before,
    ascii ">>" = after, ascii "=" = equal at distinct ⊢
  simp only [List.nodup_cons, List.mem_cons, List.not_mem_nil, or_false, not_or] at distinct
  obtain ⟨first, second, third, fourth, fifth, sixth, -, -⟩ := distinct
  split_ifs with chosen chosen chosen chosen chosen
  · rcases chosen with rfl | rfl <;> simp [*]
  · rcases chosen with rfl | rfl <;> simp [*]
  · subst chosen
    simp [*]
  · subst chosen
    simp [*]
  · subst chosen
    simp [*]
  · simp_all

theorem main_code {version refversion : CString} {ver ref : versionrevision}
    (parsed : parseversion target version.bytes = .ok ver) (refParsed : parseversion target refversion.bytes = .ok ref)
    (name op : CString) (argv : List CString) :
    (main target (name :: version :: op :: refversion :: argv)).code =
      if versionsatisfied3 target ver ref op.bytes = some true then 0 else 1 := by
  simp only [main, parsed, refParsed]
  cases versionsatisfied3 target ver ref op.bytes with
  | none => rfl
  | some satisfied => cases satisfied <;> rfl

/-- The exit code tells whether two versions are in the relation that the operator names, in one linear order of all
versions. Versions with the same pieces are the same in it. -/
theorem main_satisfies {version refversion : CString} {ver ref : versionrevision}
    (parsed : parseversion target version.bytes = .ok ver) (refParsed : parseversion target refversion.bytes = .ok ref)
    (bounded : Bounded INT_MAX ver.version) (refBounded : Bounded INT_MAX ref.version) (name op : CString)
    (argv : List CString) :
    ((main target (name :: version :: op :: refversion :: argv)).code = 0 ↔
        Satisfies op.bytes (ver.rank target) (ref.rank target)) ∧
      (main target (name :: version :: op :: refversion :: argv)).code ≤ 1 ∧
      (ver.rank target = ref.rank target ↔ ver.epoch = ref.epoch ∧ pieces ver.version = pieces ref.version) := by
  have sign : Sign (ver.rank target) (ref.rank target) (versioncompare target ver ref).sign :=
    versioncompare_sign bounded refBounded (parseversion_plain parsed) (parseversion_plain refParsed)
  rw [← versionsatisfied3_iff op.bytes sign, main_code parsed refParsed]
  refine ⟨?_, ?_, rank_eq_iff⟩ <;> split <;> simp [*]

theorem main_satisfies_small : (main desktop [⟨ascii "opkg-compare-versions", by decide⟩, ⟨ascii "2", by decide⟩,
    ⟨ascii "<<", by decide⟩, ⟨ascii "1:1", by decide⟩]).code = 0 := by
  have parsed : parseversion desktop (ascii "2") = .ok ⟨0, ascii "2", []⟩ := rfl
  have refParsed : parseversion desktop (ascii "1:1") = .ok ⟨1, ascii "1", []⟩ := rfl
  refine (@main_satisfies desktop ⟨ascii "2", by decide⟩ ⟨ascii "1:1", by decide⟩ _ _ parsed refParsed
    (.of_first (by decide) (absurd rfl)) (.of_first (by decide) (absurd rfl)) _ ⟨ascii "<<", by decide⟩ []).1.mpr ?_
  exact .inr (.inr (.inl ⟨rfl, Prod.Lex.toLex_lt_toLex.mpr (.inl (by decide))⟩))

end BotBrew.Opkg.CompareVersions
