import Mathlib.Data.Int.ConditionallyCompleteOrder
import BotBrew.Opkg.CompareVersionsProperties
import BotBrew.Opkg.VersionProperties

/-! `opkg-compare-versions.c` and `opkg.py` agree on the versions that packages usually have: numbers between dots, perhaps
with an epoch before them and a revision after them. -/

set_option autoImplicit false

namespace BotBrew.Opkg

open Words Comparison

/-- A run of digits -/
structure Digits where
  text : Text
  some_digit : text ≠ []
  digits : ∀ char ∈ text, char.isDigit = true

/-- The bytes of a text of ASCII -/
def bytes (text : Text) : List Byte := text.map fun char => BitVec.ofNat 8 char.toNat

theorem bytes_cons (char : Char) (text : Text) : bytes (char :: text) = BitVec.ofNat 8 char.toNat :: bytes text := rfl

theorem bytes_append (text text' : Text) : bytes (text ++ text') = bytes text ++ bytes text' := List.map_append

def Digits.value (number : Digits) : Nat := scan 10 0 (bytes number.text)

structure Release where
  epoch : Option Digits
  first : Digits
  others : List Digits
  revision : Option Digits

def dotted (others : List Digits) : Text := others.flatMap fun number => '.' :: number.text

def revisionText : Option Digits → Text
  | none => []
  | some number => '-' :: 'r' :: number.text

def epochText : Option Digits → Text
  | none => []
  | some number => number.text ++ [':']

def Release.version (release : Release) : Text :=
  release.first.text ++ (dotted release.others ++ revisionText release.revision)

def Release.text (release : Release) : Text := epochText release.epoch ++ release.version

def Release.numbers (release : Release) : List Digits :=
  release.epoch.toList ++ release.first :: release.others ++ release.revision.toList

/-- No revision is before every revision. -/
def revisionRank : Option Digits → Nat
  | none => 0
  | some number => number.value + 1

def epochRank : Option Digits → Nat
  | none => 0
  | some number => number.value

/-- The order of releases: by epoch, then by the numbers, then by revision -/
def Release.rank (release : Release) : ℕ ×ₗ ℕ ×ₗ List ℕ ×ₗ ℕ :=
  toLex (epochRank release.epoch, toLex (release.first.value, toLex (release.others.map Digits.value,
    revisionRank release.revision)))

/-! ## Digits -/

theorem digit_range {char : Char} (digit : char.isDigit = true) : 48 ≤ char.toNat ∧ char.toNat ≤ 57 := by
  simp only [Char.isDigit, ge_iff_le, Bool.and_eq_true, decide_eq_true_eq] at digit
  exact digit

theorem digit_toNat {char : Char} (digit : char.isDigit = true) : (BitVec.ofNat 8 char.toNat).toNat = char.toNat := by
  have range := digit_range digit
  rw [BitVec.toNat_ofNat, Nat.mod_eq_of_lt (by omega)]

theorem Digits.isdigit (number : Digits) : ∀ char ∈ bytes number.text, CompareVersions.isdigit char = true := by
  intro char listed
  obtain ⟨digit, found, rfl⟩ := List.mem_map.mp listed
  have range := digit_range (number.digits digit found)
  simp only [CompareVersions.isdigit, digit_toNat (number.digits digit found), Bool.and_eq_true, decide_eq_true_eq]
  exact range

/-- `int` and `strtol` read the same number. -/
theorem Digits.int_eq (number : Digits) : int number.text = some number.value := by
  have values : ∀ (text : Text) (start : Nat), (∀ char ∈ text, char.isDigit = true) →
      text.foldl (fun value digit => 10 * value + (digit.toNat - '0'.toNat)) start = scan 10 start (bytes text) := by
    intro text
    induction text with
    | nil => intro start _; rfl
    | cons char text hypothesis =>
      intro start digits
      have digit := digits char List.mem_cons_self
      have range := digit_range digit
      have value : digitValue (BitVec.ofNat 8 char.toNat) = char.toNat - 48 := by
        rw [digitValue, digit_toNat digit, if_pos range]
      rw [List.foldl_cons, hypothesis _ fun later listed => digits later (List.mem_cons_of_mem _ listed), bytes_cons, scan,
        value, if_pos (by omega), Nat.mul_comm]
      rfl
  rw [int, if_neg number.some_digit, values _ _ number.digits]
  rfl

/-- A text that no digit begins -/
def Delimited {α : Type*} (digit : α → Bool) (text : List α) : Prop := ∀ char ∈ text.head?, digit char = false

theorem Delimited.takeWhile {α : Type*} {digit : α → Bool} {text : List α} (delimited : Delimited digit text) :
    text.takeWhile digit = [] ∧ text.dropWhile digit = text := by
  cases text with
  | nil => exact ⟨rfl, rfl⟩
  | cons char text =>
    have other := delimited char rfl
    exact ⟨List.takeWhile_cons_of_neg (by simp [other]), List.dropWhile_cons_of_neg (by simp [other])⟩

theorem Delimited.nil {α : Type*} {digit : α → Bool} : Delimited digit [] := by
  intro char none
  cases none

theorem Delimited.cons {α : Type*} {digit : α → Bool} {char : α} {text : List α} (other : digit char = false) :
    Delimited digit (char :: text) := by
  intro first same
  cases same
  exact other

/-! ## The pieces in `opkg-compare-versions.c` -/

namespace CompareVersions

/-- A piece of a version is read from the text before a number, the number and what comes after it. -/
theorem piece_number {before rest : List Byte} (plain : ∀ char ∈ before, isdigit char = false) (number : Digits)
    (delimited : Delimited isdigit rest) :
    piece (before ++ (bytes number.text ++ rest)) = ⟨before, number.value, follow rest⟩ ∧
      fromRest (before ++ (bytes number.text ++ rest)) = rest := by
  obtain ⟨char, text, shape⟩ := List.exists_cons_of_ne_nil number.some_digit
  have first : isdigit (BitVec.ofNat 8 char.toNat) = true :=
    number.isdigit _ (by rw [shape]; exact List.mem_cons_self)
  have head : nondigits (before ++ (bytes number.text ++ rest)) = before ∧
      fromDigits (before ++ (bytes number.text ++ rest)) = bytes number.text ++ rest := by
    rw [nondigits, fromDigits, List.takeWhile_append_of_pos (by simpa using plain),
      List.dropWhile_append_of_pos (by simpa using plain), shape, bytes_cons, List.cons_append,
      List.takeWhile_cons_of_neg (by simp [first]), List.dropWhile_cons_of_neg (by simp [first]), List.append_nil]
    exact ⟨rfl, rfl⟩
  have tail : fromRest (before ++ (bytes number.text ++ rest)) = rest := by
    rw [fromRest, head.2, List.dropWhile_append_of_pos number.isdigit, delimited.takeWhile.2]
  refine ⟨?_, tail⟩
  rw [piece, head.1, head.2, tail, digits, List.takeWhile_append_of_pos number.isdigit, delimited.takeWhile.1,
    List.append_nil]
  rfl

/-- What comes after a number of a release -/
def tailFollow : List ℕ → ℕ → ℕ
  | [], 0 => 0
  | [], _ + 1 => 1
  | _ :: _, _ => 1

/-- The rest of a key after a number -/
def tailKey (target : Target) : List ℕ → ℕ → List (List ℤ ×ₗ ℕ ×ₗ ℕ)
  | [], 0 => []
  | [], revision + 1 => [toLex ([target.order 45, target.order 114], toLex (revision, 0))]
  | number :: others, revision =>
    toLex ([target.order 46], toLex (number, tailFollow others revision)) :: tailKey target others revision

variable {target : Target} {others : List Digits} {revision : Option Digits}

/-- What is after a number of a release -/
def tail (others : List Digits) (revision : Option Digits) : List Byte := bytes (dotted others ++ revisionText revision)

theorem tail_some (number : Digits) : tail [] (some number) = [45, 114] ++ (bytes number.text ++ []) := by
  rw [List.append_nil]
  rfl

theorem tail_cons (number : Digits) (others : List Digits) (revision : Option Digits) :
    tail (number :: others) revision = [46] ++ (bytes number.text ++ tail others revision) := by
  rw [tail, dotted, List.flatMap_cons, List.cons_append, List.cons_append, bytes_cons, List.append_assoc, bytes_append]
  rfl

theorem tail_delimited : Delimited isdigit (tail others revision) := by
  cases others with
  | nil =>
    cases revision with
    | none => exact .nil
    | some number => exact .cons rfl
  | cons number others => exact .cons rfl

theorem tail_follow : follow (tail others revision) = tailFollow (others.map Digits.value) (revisionRank revision) := by
  cases others with
  | nil =>
    cases revision with
    | none => rfl
    | some number => rfl
  | cons number others => rfl

theorem tail_key : (if tail others revision = [] then [] else key target (tail others revision)) =
    tailKey target (others.map Digits.value) (revisionRank revision) := by
  induction others with
  | nil =>
    cases revision with
    | none => rfl
    | some number =>
      obtain ⟨read, rest⟩ := @piece_number [45, 114] _ (by decide) number .nil
      rw [tail_some, if_neg (by simp), key_step, read, rest]
      rfl
  | cons number others hypothesis =>
    obtain ⟨read, rest⟩ := @piece_number [46] _ (by decide) number (@tail_delimited others revision)
    rw [tail_cons, if_neg (by simp), key_step, read, rest, hypothesis, tail_follow]
    rfl

theorem order_dash (target : Target) : target.order 45 < target.order 46 := by
  cases signed : target.signed <;> simp [Target.order, Target.int, isalpha, signed]

/-- Later numbers and revisions give a later rest of the key. -/
theorem tail_mono {numbers numbers' : List ℕ} {revision revision' : ℕ}
    (below : toLex (numbers, revision) < toLex (numbers', revision')) :
    toLex (tailFollow numbers revision, tailKey target numbers revision) <
      toLex (tailFollow numbers' revision', tailKey target numbers' revision') := by
  induction numbers generalizing numbers' with
  | nil =>
    cases numbers' with
    | nil =>
      have less : revision < revision' := ((Prod.Lex.toLex_lt_toLex.mp below).resolve_left (lt_irrefl _)).2
      cases revision with
      | zero =>
        cases revision' with
        | zero => exact absurd less (lt_irrefl _)
        | succ revision' => exact Prod.Lex.toLex_lt_toLex.mpr (.inl Nat.one_pos)
      | succ revision =>
        cases revision' with
        | zero => exact absurd less (Nat.not_lt_zero _)
        | succ revision' =>
          refine Prod.Lex.toLex_lt_toLex.mpr (.inr ⟨rfl, List.cons_lt_cons_iff.mpr (.inl ?_)⟩)
          exact Prod.Lex.toLex_lt_toLex.mpr (.inr ⟨rfl, Prod.Lex.toLex_lt_toLex.mpr (.inl (Nat.lt_of_succ_lt_succ less))⟩)
    | cons number' numbers' =>
      cases revision with
      | zero => exact Prod.Lex.toLex_lt_toLex.mpr (.inl Nat.one_pos)
      | succ revision =>
        refine Prod.Lex.toLex_lt_toLex.mpr (.inr ⟨rfl, List.cons_lt_cons_iff.mpr (.inl ?_)⟩)
        exact Prod.Lex.toLex_lt_toLex.mpr (.inl (List.cons_lt_cons_iff.mpr (.inl (order_dash target))))
  | cons number numbers hypothesis =>
    cases numbers' with
    | nil =>
      rcases Prod.Lex.toLex_lt_toLex.mp below with before | same
      · exact absurd before (List.not_lt_nil _)
      · exact absurd same.1 (List.cons_ne_nil _ _)
    | cons number' numbers' =>
      refine Prod.Lex.toLex_lt_toLex.mpr (.inr ⟨rfl, List.cons_lt_cons_iff.mpr ?_⟩)
      rcases toLex_cons_lt.mp below with less | ⟨rfl, later⟩
      · exact .inl (Prod.Lex.toLex_lt_toLex.mpr (.inr ⟨rfl, Prod.Lex.toLex_lt_toLex.mpr (.inl less)⟩))
      · rcases Prod.Lex.toLex_lt_toLex.mp (hypothesis later) with follows | ⟨follows, keys⟩
        · exact .inl (Prod.Lex.toLex_lt_toLex.mpr (.inr ⟨rfl, Prod.Lex.toLex_lt_toLex.mpr (.inr ⟨rfl, follows⟩)⟩))
        · exact .inr ⟨congrArg (fun follow => toLex ([target.order 46], toLex (number, follow))) follows, keys⟩

/-- Where a release is in the order of `opkg-compare-versions.c` -/
def place (target : Target) (rank : ℕ ×ₗ ℕ ×ₗ List ℕ ×ₗ ℕ) : ℕ ×ₗ List (List ℤ ×ₗ ℕ ×ₗ ℕ) :=
  let (epoch, numbers) := ofLex rank
  let (first, later) := ofLex numbers
  let (others, revision) := ofLex later
  toLex (epoch, toLex ([], toLex (first, tailFollow others revision)) :: tailKey target others revision)

theorem place_strictMono (target : Target) : StrictMono (place target) := by
  intro left right below
  obtain ⟨epoch, first, others, revision⟩ := left
  obtain ⟨epoch', first', others', revision'⟩ := right
  rcases Prod.Lex.toLex_lt_toLex.mp below with epochs | ⟨epochs, below⟩
  · exact Prod.Lex.toLex_lt_toLex.mpr (.inl epochs)
  refine Prod.Lex.toLex_lt_toLex.mpr (.inr ⟨epochs, List.cons_lt_cons_iff.mpr ?_⟩)
  rcases Prod.Lex.toLex_lt_toLex.mp below with firsts | ⟨firsts, below⟩
  · exact .inl (Prod.Lex.toLex_lt_toLex.mpr (.inr ⟨rfl, Prod.Lex.toLex_lt_toLex.mpr (.inl firsts)⟩))
  rcases Prod.Lex.toLex_lt_toLex.mp (@tail_mono target _ _ _ _ below) with follows | ⟨follows, keys⟩
  · exact .inl (Prod.Lex.toLex_lt_toLex.mpr (.inr ⟨rfl, Prod.Lex.toLex_lt_toLex.mpr (.inr ⟨firsts, follows⟩)⟩))
  · exact .inr ⟨congrArg₂ (fun number follow => toLex ([], toLex (number, follow))) firsts follows, keys⟩

/-- What `parseversion` gives for a release -/
def parsed (release : Release) : versionrevision := ⟨epochRank release.epoch, bytes release.version, []⟩

theorem parsed_rank (release : Release) : (parsed release).rank target = place target release.rank := by
  have version : bytes release.version = [] ++ (bytes release.first.text ++ tail release.others release.revision) := by
    rw [Release.version, bytes_append]
    rfl
  obtain ⟨read, rest⟩ := @piece_number [] _ nofun release.first (@tail_delimited release.others release.revision)
  have keys : key target (bytes release.version) = toLex ([], toLex (release.first.value,
      tailFollow (release.others.map Digits.value) (revisionRank release.revision))) ::
        tailKey target (release.others.map Digits.value) (revisionRank release.revision) := by
    rw [version, key_step, read, rest, tail_key, tail_follow]
    rfl
  exact congrArg (fun key => toLex (epochRank release.epoch, key)) keys

end CompareVersions

/-! ## What is in a release -/

theorem dotted_plain {others : List Digits} {char : Char} (listed : char ∈ dotted others) : char.isDigit = true ∨ char = '.' := by
  obtain ⟨number, _, inside⟩ := List.mem_flatMap.mp listed
  rcases List.mem_cons.mp inside with dot | digit
  · exact .inr dot
  · exact .inl (number.digits char digit)

theorem version_plain {release : Release} {char : Char} (listed : char ∈ release.version) :
    char.isDigit = true ∨ char = '.' ∨ char = '-' ∨ char = 'r' := by
  rcases List.mem_append.mp listed with first | later
  · exact .inl (release.first.digits char first)
  rcases List.mem_append.mp later with others | revision
  · exact (dotted_plain others).imp_right .inl
  cases shape : release.revision with
  | none => rw [shape] at revision; cases revision
  | some number =>
    rw [shape, revisionText, List.mem_cons, List.mem_cons] at revision
    rcases revision with dash | letter | digit
    · exact .inr (.inr (.inl dash))
    · exact .inr (.inr (.inr letter))
    · exact .inl (number.digits char digit)

theorem version_ne (release : Release) : release.version ≠ [] := by
  intro empty
  exact release.first.some_digit (List.append_eq_nil_iff.mp empty).1

namespace CompareVersions

variable {target : Target} {release : Release}

theorem isdigit_plain {char : Byte} (digit : isdigit char = true) :
    isspace char = false ∧ char ≠ 45 ∧ char ≠ 43 ∧ char ≠ colon := by
  revert char
  decide

theorem strtoul_number (number : Digits) (small : number.value < 2 ^ target.long) {rest : List Byte}
    (delimited : Delimited isdigit rest) : target.strtoul (bytes number.text ++ rest) = (number.value, rest) := by
  obtain ⟨char, text, shape⟩ := List.exists_cons_of_ne_nil number.some_digit
  have digit : isdigit (BitVec.ofNat 8 char.toNat) = true :=
    number.isdigit _ (by rw [shape]; exact List.mem_cons_self)
  obtain ⟨space, minus, plus, -⟩ := isdigit_plain digit
  have start : (bytes number.text ++ rest).dropWhile isspace = bytes number.text ++ rest := by
    rw [shape, bytes_cons, List.cons_append, List.dropWhile_cons_of_neg (by simp [space])]
  have head : (bytes number.text ++ rest).head? = some (BitVec.ofNat 8 char.toNat) := by
    rw [shape]
    rfl
  have run : (bytes number.text ++ rest).takeWhile isdigit = bytes number.text := by
    rw [List.takeWhile_append_of_pos number.isdigit, delimited.takeWhile.1, List.append_nil]
  have after : (bytes number.text ++ rest).dropWhile isdigit = rest := by
    rw [List.dropWhile_append_of_pos number.isdigit, delimited.takeWhile.2]
  have some_digit : bytes number.text ≠ [] := by
    rw [shape]
    exact List.cons_ne_nil _ _
  have signless : ¬ (some (BitVec.ofNat 8 char.toNat) = some 45 ∨ some (BitVec.ofNat 8 char.toNat) = some 43) := by
    simp only [Option.some.injEq, not_or]
    exact ⟨minus, plus⟩
  simp only [Target.strtoul, start, head, if_neg signless, run, if_neg some_digit, digits, after]
  exact (if_neg (Nat.not_le.mpr small)).trans (if_neg fun same => minus (Option.some.inj same))

theorem version_no_colon {char : Byte} (listed : char ∈ bytes release.version) : char ≠ colon := by
  obtain ⟨letter, inside, rfl⟩ := List.mem_map.mp listed
  rcases version_plain inside with digit | rfl | rfl | rfl
  · intro same
    have number := digit_toNat digit
    have range := digit_range digit
    rw [same] at number
    exact absurd (number ▸ range) (by decide)
  · decide
  · decide
  · decide

theorem parseversion_release (small : epochRank release.epoch < 2 ^ target.long) :
    parseversion target (bytes release.text) = .ok (parsed release) := by
  have some_version : bytes release.version ≠ [] := fun none => version_ne release (List.map_eq_nil_iff.mp none)
  cases epoch : release.epoch with
  | none =>
    have text : release.text = release.version := by rw [Release.text, epoch]; rfl
    have plain : (bytes release.version).dropWhile (· ≠ colon) = [] :=
      List.dropWhile_eq_nil_iff.mpr fun char listed => decide_eq_true (version_no_colon listed)
    simp only [parseversion, text, if_neg some_version, plain, parsed, epoch]
    rfl
  | some number =>
    have text : bytes release.text = bytes number.text ++ colon :: bytes release.version := by
      rw [Release.text, epoch, epochText, bytes_append, bytes_append, List.append_assoc]
      rfl
    have found : (bytes number.text ++ colon :: bytes release.version).dropWhile (· ≠ colon) =
        colon :: bytes release.version := by
      rw [List.dropWhile_append_of_pos fun char listed =>
        decide_eq_true (isdigit_plain (number.isdigit char listed)).2.2.2]
      rfl
    rw [epoch] at small
    have read := @strtoul_number target number small (colon :: bytes release.version) (.cons rfl)
    have some_text : bytes number.text ++ colon :: bytes release.version ≠ [] := by simp
    simp only [parseversion, text, if_neg some_text, found, read, ne_eq, not_true_eq_false, if_false, if_neg some_version,
      parsed, epoch]
    rfl

end CompareVersions

/-! ## The runs in `opkg.py` -/

/-- The rest of a key after a number -/
def dotKey : List ℕ → Lex (ℕ → Text ×ₗ Int)
  | [] => padded (component ([], none)) []
  | number :: others => prepend (component (['.'], some number)) (dotKey others)

def revisionKey : ℕ → Lex (ℕ → Text ×ₗ Int)
  | 0 => padded (component ([], none)) []
  | revision + 1 => prepend (component (['-', 'r'], some revision)) (padded (component ([], none)) [])

/-- A run is read from the text before a number, the number and what comes after it. -/
theorem key_number {before rest : Text} (plain : ∀ char ∈ before, char.isDigit = false) (number : Digits)
    (delimited : Delimited Char.isDigit rest) :
    key (before ++ (number.text ++ rest)) = prepend (component (before, some number.value)) (key rest) := by
  obtain ⟨char, text, shape⟩ := List.exists_cons_of_ne_nil number.some_digit
  have first : char.isDigit = true := number.digits char (by rw [shape]; exact List.mem_cons_self)
  have head : alpha (before ++ (number.text ++ rest)) = before ∧
      afterAlpha (before ++ (number.text ++ rest)) = number.text ++ rest := by
    rw [alpha, afterAlpha, List.takeWhile_append_of_pos (by simpa using plain),
      List.dropWhile_append_of_pos (by simpa using plain), shape, List.cons_append,
      List.takeWhile_cons_of_neg (by simp [first]), List.dropWhile_cons_of_neg (by simp [first]), List.append_nil]
    exact ⟨rfl, rfl⟩
  have tail : afterNumber (before ++ (number.text ++ rest)) = rest := by
    rw [afterNumber, head.2, List.dropWhile_append_of_pos number.digits, delimited.takeWhile.2]
  rw [key_eq, tail, head.1, BotBrew.Opkg.number, head.2, List.takeWhile_append_of_pos number.digits, delimited.takeWhile.1,
    List.append_nil, number.int_eq]

theorem dotted_delimited (others : List Digits) : Delimited Char.isDigit (dotted others) := by
  cases others with
  | nil => exact .nil
  | cons number others => exact .cons rfl

theorem key_dotted (others : List Digits) : key (dotted others) = dotKey (others.map Digits.value) := by
  induction others with
  | nil => rw [key, dotted, List.flatMap_nil, runs]; rfl
  | cons number others hypothesis =>
    have shape : dotted (number :: others) = ['.'] ++ (number.text ++ dotted others) := rfl
    rw [shape, key_number (by decide) number (dotted_delimited others), hypothesis]
    rfl

theorem key_revision (revision : Option Digits) : key (revisionText revision) = revisionKey (revisionRank revision) := by
  have empty : key [] = padded (component ([], none)) [] := by
    rw [key, runs]
    rfl
  cases revision with
  | none => exact empty
  | some number =>
    have shape : revisionText (some number) = ['-', 'r'] ++ (number.text ++ []) := by
      rw [List.append_nil]
      rfl
    rw [shape, key_number (by decide) number .nil, empty]
    rfl

theorem component_lt {text : Text} {number number' : ℕ} (below : number < number') :
    component (text, some number) < component (text, some number') :=
  @component_lt_of_number (text, some number) (text, some number') rfl (Int.ofNat_lt.mpr below)

theorem dotKey_strictMono : StrictMono dotKey := by
  intro numbers numbers' below
  induction numbers generalizing numbers' with
  | nil =>
    cases numbers' with
    | nil => exact absurd below (lt_irrefl _)
    | cons number' numbers' =>
      rw [dotKey, dotKey, padded_nil]
      exact prepend_lt_of_head (component_lt_of_alpha (List.nil_lt_cons _ _)) _ _
  | cons number numbers hypothesis =>
    cases numbers' with
    | nil => exact absurd below (List.not_lt_nil _)
    | cons number' numbers' =>
      rw [dotKey, dotKey]
      rcases List.cons_lt_cons_iff.mp below with less | ⟨rfl, later⟩
      · exact prepend_lt_of_head (component_lt less) _ _
      · exact prepend_lt_of_tail _ (hypothesis later)

theorem revisionKey_strictMono : StrictMono revisionKey := by
  intro revision revision' below
  cases revision' with
  | zero => exact absurd below (Nat.not_lt_zero _)
  | succ revision' =>
    cases revision with
    | zero =>
      rw [revisionKey, revisionKey, padded_nil]
      exact prepend_lt_of_head (component_lt_of_alpha (List.nil_lt_cons _ _)) _ _
    | succ revision =>
      exact prepend_lt_of_head (component_lt (Nat.lt_of_succ_lt_succ below)) _ _

/-- Where a release is in the order of `opkg.py` -/
noncomputable def position (rank : ℕ ×ₗ ℕ ×ₗ List ℕ ×ₗ ℕ) :
    ℕ ×ₗ (Lex (ℕ → Text ×ₗ Int) ×ₗ Lex (ℕ → Text ×ₗ Int)) :=
  let (epoch, numbers) := ofLex rank
  let (first, later) := ofLex numbers
  let (others, revision) := ofLex later
  toLex (epoch, toLex (prepend (component ([], some first)) (dotKey others), revisionKey revision))

theorem position_strictMono : StrictMono position := by
  intro left right below
  obtain ⟨epoch, first, others, revision⟩ := left
  obtain ⟨epoch', first', others', revision'⟩ := right
  rcases Prod.Lex.toLex_lt_toLex.mp below with epochs | ⟨epochs, below⟩
  · exact Prod.Lex.toLex_lt_toLex.mpr (.inl epochs)
  refine Prod.Lex.toLex_lt_toLex.mpr (.inr ⟨epochs, Prod.Lex.toLex_lt_toLex.mpr ?_⟩)
  rcases Prod.Lex.toLex_lt_toLex.mp below with firsts | ⟨firsts, below⟩
  · exact .inl (prepend_lt_of_head (component_lt firsts) _ _)
  rcases Prod.Lex.toLex_lt_toLex.mp below with numbers | ⟨numbers, revisions⟩
  · refine .inl ?_
    change first = first' at firsts
    rw [firsts]
    exact prepend_lt_of_tail _ (dotKey_strictMono numbers)
  · refine .inr ⟨?_, revisionKey_strictMono revisions⟩
    exact congrArg₂ (fun number others => prepend (component ([], some number)) (dotKey others)) firsts numbers

/-! ## Reading a release in `opkg.py` -/

theorem splitRevision_plain {text rest : Text} (plain : ∀ char ∈ text, char ≠ '-') :
    splitRevision (text ++ rest) = (text ++ (splitRevision rest).1, (splitRevision rest).2) := by
  induction text with
  | nil => rfl
  | cons char text hypothesis =>
    have other : isRevision (char :: (text ++ rest)) = false := by
      have dash := plain char List.mem_cons_self
      unfold isRevision
      split
      · rename_i same
        exact absurd (List.cons.inj same).1 dash
      · rfl
    rw [List.cons_append, splitRevision, other, hypothesis fun later listed => plain later (List.mem_cons_of_mem _ listed)]
    rfl

theorem splitRevision_revision (revision : Option Digits) : splitRevision (revisionText revision) =
    ([], revision.map fun number => '-' :: 'r' :: number.text) := by
  cases revision with
  | none => rfl
  | some number =>
    obtain ⟨char, text, shape⟩ := List.exists_cons_of_ne_nil number.some_digit
    rw [revisionText, splitRevision, shape, Option.map_some, shape]
    exact if_pos rfl

theorem digit_not {char other : Char} (digit : char.isDigit = true) (plain : other.isDigit = false) : char ≠ other := by
  intro same
  rw [same, plain] at digit
  cases digit

theorem version_line (release : Release) : Line release.version := by
  refine ⟨version_ne release, fun newline => ?_⟩
  rcases version_plain newline with digit | same | same | same
  · exact absurd digit (by decide)
  · exact absurd same (by decide)
  · exact absurd same (by decide)
  · exact absurd same (by decide)

theorem components_release (release : Release) : components release.version =
    some (release.first.text ++ dotted release.others, release.revision.map fun number => '-' :: 'r' :: number.text) := by
  obtain ⟨char, text, shape⟩ := List.exists_cons_of_ne_nil release.first.some_digit
  have line := version_line release
  have plain : ∀ letter ∈ text ++ dotted release.others, letter ≠ '-' := by
    intro letter listed
    rcases List.mem_append.mp listed with first | others
    · exact digit_not (release.first.digits letter (by rw [shape]; exact List.mem_cons_of_mem _ first)) (by decide)
    · rcases dotted_plain others with digit | rfl
      · exact digit_not digit (by decide)
      · decide
  have version : release.version = char :: ((text ++ dotted release.others) ++ revisionText release.revision) := by
    rw [Release.version, shape, List.append_assoc]
    rfl
  rw [components, takeWhile_line line, dropWhile_line line, version]
  simp only [splitRevision_plain plain, splitRevision_revision, List.append_nil, shape]
  rfl

theorem release_parts (release : Release) (epoch : Nat) :
    (Version.mk epoch release.version).parts = (release.first.text ++ dotted release.others, revisionText release.revision) := by
  rw [Version.parts, components_release]
  cases release.revision <;> rfl

theorem release_rank (release : Release) :
    (Version.mk (epochRank release.epoch) release.version).rank = position release.rank := by
  have upstream : key (release.first.text ++ dotted release.others) =
      prepend (component ([], some release.first.value)) (dotKey (release.others.map Digits.value)) := by
    rw [← key_dotted]
    exact @key_number [] _ nofun release.first (dotted_delimited release.others)
  rw [Version.rank, release_parts, upstream, key_revision]
  rfl

theorem tail_no_digit (others : List Digits) (revision : Option Digits) :
    Delimited Char.isDigit (dotted others ++ revisionText revision) := by
  cases others with
  | nil =>
    cases revision with
    | none => exact .nil
    | some number => exact .cons rfl
  | cons number others => exact .cons rfl

theorem tail_no_colon (others : List Digits) (revision : Option Digits) (rest : Text) :
    dotted others ++ revisionText revision ≠ ':' :: rest := by
  cases others with
  | nil =>
    cases revision with
    | none => exact nofun
    | some number => exact fun same => absurd (List.cons.inj same).1 (by decide)
  | cons number others => exact fun same => absurd (List.cons.inj same).1 (by decide)

theorem parse_version_release (release : Release) :
    parse_version release.text = some ⟨epochRank release.epoch, release.version⟩ := by
  cases epoch : release.epoch with
  | none =>
    have text : release.text = release.version := by rw [Release.text, epoch]; rfl
    have after : release.version.dropWhile Char.isDigit = dotted release.others ++ revisionText release.revision := by
      rw [Release.version, List.dropWhile_append_of_pos release.first.digits, (tail_no_digit _ _).takeWhile.2]
    rw [parse_version, text, after]
    split
    · next rest same => exact absurd same (tail_no_colon _ _ rest)
    · rfl
  | some number =>
    have text : release.text = number.text ++ ':' :: release.version := by
      rw [Release.text, epoch, epochText, List.append_assoc]
      rfl
    have colon : Delimited Char.isDigit (':' :: release.version) := .cons rfl
    rw [parse_version, text, List.dropWhile_append_of_pos number.digits, colon.takeWhile.2]
    simp only [List.takeWhile_append_of_pos number.digits, colon.takeWhile.1, List.append_nil, number.int_eq,
      takeWhile_line (version_line release)]
    rfl

theorem compareTexts_release (release other : Release) :
    ∃ result, compareTexts release.text other.text = some result ∧ Sign (position release.rank) (position other.rank) result := by
  obtain ⟨result, compared, sign⟩ := @Version.compare_sign ⟨epochRank release.epoch, release.version⟩
    ⟨epochRank other.epoch, other.version⟩ (version_line release) (version_line other)
  rw [release_rank, release_rank] at sign
  refine ⟨result, ?_, sign⟩
  rw [compareTexts, parse_version_release, parse_version_release]
  exact compared

/-! ## Agreement -/

/-- The numbers of a release that `opkg-compare-versions.c` reads without loss -/
def Release.Small (release : Release) : Prop := ∀ number ∈ release.numbers, number.value ≤ CompareVersions.INT_MAX

namespace CompareVersions

variable {target : Target} {release other : Release}

theorem tail_bounded {others : List Digits} {revision : Option Digits}
    (small : ∀ number ∈ others ++ revision.toList, number.value ≤ INT_MAX) : Bounded INT_MAX (tail others revision) := by
  induction others with
  | nil =>
    cases revision with
    | none => exact .of_first (by decide) (absurd rfl)
    | some number =>
      obtain ⟨read, rest⟩ := @piece_number [45, 114] _ (by decide) number .nil
      rw [tail_some]
      refine .of_first ?_ (absurd rest)
      rw [read]
      exact small number (List.mem_singleton_self _)
  | cons number others hypothesis =>
    obtain ⟨read, rest⟩ := @piece_number [46] _ (by decide) number (@tail_delimited others revision)
    rw [tail_cons]
    refine .of_first ?_ fun _ => ?_
    · rw [read]
      exact small number List.mem_cons_self
    · rw [rest]
      exact hypothesis fun later listed => small later (List.mem_cons_of_mem _ listed)

theorem release_bounded (small : release.Small) : Bounded INT_MAX (parsed release).version := by
  obtain ⟨read, rest⟩ := @piece_number [] _ nofun release.first (@tail_delimited release.others release.revision)
  have version : bytes release.version = [] ++ (bytes release.first.text ++ tail release.others release.revision) := by
    rw [Release.version, bytes_append]
    rfl
  rw [parsed, version]
  refine .of_first ?_ fun _ => ?_
  · rw [read]
    exact small release.first (by simp [Release.numbers])
  · rw [rest]
    refine tail_bounded fun number listed => small number ?_
    rw [Release.numbers, List.append_assoc]
    exact List.mem_append_right _ (List.mem_cons_of_mem _ listed)

theorem release_parsed (small : release.Small) : parseversion target (bytes release.text) = .ok (parsed release) := by
  refine parseversion_release ?_
  have room : 2 ^ 32 ≤ 2 ^ target.long := Nat.pow_le_pow_right (by decide) target.least
  cases epoch : release.epoch with
  | none => exact Nat.pow_pos (by decide)
  | some number =>
    have bound : number.value ≤ INT_MAX := small number (by simp [Release.numbers, epoch])
    exact lt_of_le_of_lt bound (lt_of_lt_of_le (by decide) room)

theorem satisfies_sign {α : Type*} [LinearOrder α] {left right : α} {result : Int} (op : List Byte)
    (sign : Sign left right result) : Satisfies op left right ↔ Satisfies op result 0 := by
  have idempotent : result.sign = result := by cases sign <;> rfl
  obtain ⟨atMost, atLeast, less, more, same⟩ := satisfied_iff (idempotent.symm ▸ sign)
  simp only [Satisfies, ← atMost, ← atLeast, ← less, ← more, ← same, ge_iff_le, gt_iff_lt]

/-- The exit code of `opkg-compare-versions` says of two releases what `opkg.py` does. -/
theorem versions_agree (small : release.Small) (otherSmall : other.Small) {version refversion : CString}
    (written : version.bytes = bytes release.text) (refWritten : refversion.bytes = bytes other.text)
    (name op : CString) : ∃ result, compareTexts release.text other.text = some result ∧
      ((main target [name, version, op, refversion]).code = 0 ↔ Satisfies op.bytes result 0) := by
  obtain ⟨result, compared, sign⟩ := compareTexts_release release other
  obtain ⟨order, ranked⟩ := Sign.exists release.rank other.rank
  obtain rfl : order = result := (ranked.map position_strictMono).unique sign
  have signs := @versioncompare_sign target _ _ (release_bounded small) (release_bounded otherSmall) rfl rfl
  have places : Sign ((parsed release).rank target) ((parsed other).rank target) order := by
    rw [parsed_rank, parsed_rank]
    exact ranked.map (place_strictMono target)
  refine ⟨order, compared, ?_⟩
  rw [main_code (by rw [written]; exact release_parsed small) (by rw [refWritten]; exact release_parsed otherSmall),
    ← satisfies_sign op.bytes places, ← versionsatisfied3_iff op.bytes signs]
  split <;> simp [*]

def one : Digits := ⟨['1'], by decide, by decide⟩

def ten : Digits := ⟨['1', '0'], by decide, by decide⟩

theorem versions_agree_ten : ∃ result, compareTexts "1.1-r10".toList "1.10".toList = some result ∧
    ((main desktop [⟨ascii "opkg-compare-versions", by decide⟩, ⟨ascii "1.1-r10", by decide⟩, ⟨ascii "<<", by decide⟩,
      ⟨ascii "1.10", by decide⟩]).code = 0 ↔ Satisfies (ascii "<<") result 0) := by
  have first : Release.Small ⟨none, one, [one], some ten⟩ := by
    simp only [Release.Small, Release.numbers]
    decide
  have second : Release.Small ⟨none, one, [ten], none⟩ := by
    simp only [Release.Small, Release.numbers]
    decide
  exact @versions_agree desktop ⟨none, one, [one], some ten⟩ ⟨none, one, [ten], none⟩ first second _ _ rfl rfl _
    ⟨ascii "<<", by decide⟩

end CompareVersions

end BotBrew.Opkg
