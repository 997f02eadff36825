import BotBrew.Text.Fields

/-! The words of an unquoted expansion, the output of a command, and `echo`. -/

set_option autoImplicit false

namespace BotBrew.Shell

/-- The characters of `IFS` -/
def isSeparator (char : Char) : Bool := char == ' ' || char == '\t' || char == '\n'

def isPattern (word : Text) : Bool := word.any fun char => char == '*' || char == '?' || char == '['

/-- The names that `*` leaves out -/
def isHidden (name : Text) : Bool := name.head? = some '.'

/-- What word splitting and pathname expansion make of a value. `glob` is the expansion of a
word with pattern characters. -/
def words (glob : Text → List Text) (value : Text) : List Text :=
  ((value.splitOnP isSeparator).filter fun word => word ≠ []).flatMap fun word =>
    if isPattern word then glob word else [word]

/-- `$(...)` drops the zero bytes and the newlines at the end. -/
def substitution (output : Text) : Text :=
  (output.filter fun char => char ≠ '\x00').rdropWhile (· == '\n')

def isEchoOption (word : Text) : Bool :=
  match word with
  | '-' :: flags => flags ≠ [] && flags.all fun char => char == 'n' || char == 'e' || char == 'E'
  | _ => false

/-- Whether the options ask for escapes: the last one of `e` and `E` counts. -/
def interprets (options : List Text) : Bool :=
  (options.flatten.filter fun char => char == 'e' || char == 'E').getLast? == some 'e'

/-- The value of at most so many digits, and what follows them. -/
def number (isDigit : Char → Bool) (base count : Nat) (text : Text) : Option Nat × Text :=
  let digits := (text.take count).takeWhile isDigit
  let value := digits.foldl (fun value digit => value * base +
    (if digit.isDigit then digit.toNat - '0'.toNat else digit.toLower.toNat - 'a'.toNat + 10)) 0
  (if digits = [] then none else some value, text.drop digits.length)

def isOctal (char : Char) : Bool := '0' ≤ char && char ≤ '7'

def isHex (char : Char) : Bool :=
  char.isDigit || ('a' ≤ char && char ≤ 'f') || ('A' ≤ char && char ≤ 'F')

/-- A digit escape shows its character, or itself where no digit follows. -/
def coded (kind : Char) (isDigit : Char → Bool) (base count : Nat) (rest : Text) : Text × Text :=
  match number isDigit base count rest with
  | (some value, rest) => ([Char.ofNat value], rest)
  | (none, _) => (['\\', kind], rest)

/-- What a backslash and a character show, and the rest; nothing for the end of the output. -/
def escape (kind : Char) (rest : Text) : Option (Text × Text) :=
  match kind with
  | 'a' => some (['\x07'], rest)
  | 'b' => some (['\x08'], rest)
  | 'c' => none
  | 'e' | 'E' => some (['\x1b'], rest)
  | 'f' => some (['\x0c'], rest)
  | 'n' => some (['\n'], rest)
  | 'r' => some (['\r'], rest)
  | 't' => some (['\t'], rest)
  | 'v' => some (['\x0b'], rest)
  | '\\' => some (['\\'], rest)
  | '0' =>
      let (value, rest) := number isOctal 8 3 rest
      some ([Char.ofNat (value.getD 0)], rest)
  | 'x' => some (coded kind isHex 16 2 rest)
  | 'u' => some (coded kind isHex 16 4 rest)
  | 'U' => some (coded kind isHex 16 8 rest)
  | _ => some (['\\', kind], rest)

/-- The output of `echo -e`, and whether `\c` has ended it. The bound is the length of the
text. -/
def interpretWithin : Nat → Text → Text × Bool
  | _, [] => ([], false)
  | 0, text => (text, false)
  | bound + 1, char :: rest =>
      if char = '\\' then
        match rest with
        | [] => ([char], false)
        | kind :: rest =>
            match escape kind rest with
            | none => ([], true)
            | some (shown, rest) =>
                let (others, ended) := interpretWithin bound rest
                (shown ++ others, ended)
      else
        let (others, ended) := interpretWithin bound rest
        (char :: others, ended)

/-- The `echo` of the shell -/
def echo (arguments : List Text) : Text :=
  let options := arguments.takeWhile isEchoOption
  let line := [' '].intercalate (arguments.dropWhile isEchoOption)
  let newline := if 'n' ∈ options.flatten then [] else ['\n']
  if interprets options then
    let (shown, ended) := interpretWithin line.length line
    if ended then shown else shown ++ newline
  else line ++ newline

/-- The words before pathname expansion -/
def pieces (value : Text) : List Text :=
  (value.splitOnP isSeparator).filter fun word => word ≠ []

/-- The names of files take the place of a pattern. -/
def Replaced (glob : Text → List Text) (value : Text) : Prop :=
  ∃ word ∈ pieces value, isPattern word = true ∧ glob word ≠ [word]

/-- The words stand one blank apart, and the first is no option of `echo`. -/
structure Spaced (value : Text) : Prop where
  blanks : [' '].intercalate (pieces value) = value
  option : ∀ word rest, pieces value = word :: rest → isEchoOption word = false

theorem words_pieces {glob : Text → List Text} {value : Text} (kept : ¬ Replaced glob value) :
    words glob value = pieces value := by
  have each : ∀ word ∈ pieces value, (if isPattern word then glob word else [word]) = [word] := by
    intro word member
    split
    · next pattern =>
        by_contra other
        exact kept ⟨word, member, pattern, other⟩
    · rfl
  show (pieces value).flatMap (fun word => if isPattern word then glob word else [word]) = _
  rw [List.flatMap_congr each, List.flatMap_singleton']

theorem pieces_free {value : Text} (free : ∀ char ∈ value, isSeparator char = false) :
    pieces value = if value = [] then [] else [value] := by
  unfold pieces
  rw [List.splitOnP_eq_singleton free]
  split
  · next empty =>
      subst empty
      rfl
  · next given => simp [given]

theorem pieces_append {before : Text} (free : ∀ char ∈ before, isSeparator char = false)
    {separator : Char} (blank : isSeparator separator = true) (rest : Text) :
    pieces (before ++ separator :: rest) = if before = [] then pieces rest
      else before :: pieces rest := by
  unfold pieces
  rw [List.splitOnP_append_cons_of_forall_mem free separator blank]
  split
  · next empty =>
      subst empty
      rfl
  · next given => simp [given]

theorem mem_pieces_free {value word : Text} (member : word ∈ pieces value) {char : Char}
    (inside : char ∈ word) : isSeparator char = false :=
  Text.splitOnP_free (List.mem_filter.mp member).1 inside

/-- Either nothing separates, or the first word ends at a separator. -/
theorem separator_induction {motive : Text → Prop}
    (free : ∀ value, (∀ char ∈ value, isSeparator char = false) → motive value)
    (separated : ∀ before separator rest, (∀ char ∈ before, isSeparator char = false) →
      isSeparator separator = true → motive rest → motive (before ++ separator :: rest))
    (value : Text) : motive value := by
  induction length : value.length using Nat.strong_induction_on generalizing value with
  | _ size ih =>
      cases after : value.dropWhile fun char => !isSeparator char with
      | nil =>
          apply free
          intro char member
          simpa using List.dropWhile_eq_nil_iff.mp after char member
      | cons separator rest =>
          have split := List.takeWhile_append_dropWhile (p := fun char => !isSeparator char)
            (l := value)
          rw [after] at split
          rw [← split]
          apply separated
          · intro char member
            simpa using List.mem_takeWhile_imp member
          · have first := List.head_dropWhile_not (fun char => !isSeparator char)
              (w := by rw [after]; exact List.cons_ne_nil _ _)
            simpa [after] using first
          · refine ih rest.length ?_ rest rfl
            rw [← length, ← split, List.length_append, List.length_cons]
            omega

theorem pieces_cons {char : Char} (visible : isSeparator char = false) (rest : Text) :
    ∃ word others, pieces (char :: rest) = (char :: word) :: others := by
  unfold pieces
  rw [List.splitOnP_cons_eq_if_modifyHead, if_neg (by simp [visible])]
  obtain ⟨word, others, shape⟩ := List.exists_cons_of_ne_nil
    (List.splitOnP_ne_nil isSeparator rest)
  refine ⟨word, others.filter fun word => word ≠ [], ?_⟩
  rw [shape]
  rfl

theorem intercalate_cons_length (word : Text) (rest : List Text) :
    ([' '].intercalate rest).length + word.length ≤
      ([' '].intercalate (word :: rest)).length := by
  cases rest with
  | nil => simp
  | cons second rest =>
      rw [List.intercalate_cons_cons]
      simp only [List.length_append]
      omega

theorem intercalate_append_cons (before : Text) {words : List Text} (nonempty : words ≠ []) :
    [' '].intercalate (before :: words) = before ++ ' ' :: [' '].intercalate words := by
  obtain ⟨word, rest, rfl⟩ := List.exists_cons_of_ne_nil nonempty
  rw [List.intercalate_cons_cons]
  simp

/-- Joining the words again keeps each other character, and no more separators than there were. -/
theorem pieces_count (keeps : Char → Bool) (value : Text) :
    ([' '].intercalate (pieces value)).countP (fun char => keeps char && !isSeparator char) =
        value.countP (fun char => keeps char && !isSeparator char) ∧
      ([' '].intercalate (pieces value)).countP isSeparator ≤ value.countP isSeparator := by
  induction value using separator_induction with
  | free value free =>
      rw [pieces_free free]
      split
      · next empty =>
          subst empty
          exact ⟨rfl, le_rfl⟩
      · rw [List.intercalate_singleton]
        exact ⟨rfl, le_rfl⟩
  | separated before separator rest free blank ih =>
      rw [pieces_append free blank]
      have none : before.countP isSeparator = 0 := by
        rw [List.countP_eq_zero]
        intro char member
        simp [free char member]
      split
      · next empty =>
          subst empty
          simp only [List.nil_append, List.countP_cons, blank, Bool.not_true, Bool.and_false]
          exact ⟨by simpa using ih.1, by simp; omega⟩
      · by_cases last : pieces rest = []
        · rw [last, List.intercalate_nil] at ih
          rw [last, List.intercalate_singleton]
          simp only [List.countP_append, List.countP_cons, blank, Bool.not_true, Bool.and_false]
          simp only [List.countP_nil] at ih
          constructor
          · simp [← ih.1]
          · omega
        · rw [intercalate_append_cons before last]
          simp only [List.countP_append, List.countP_cons, blank, Bool.not_true, Bool.and_false,
            show isSeparator ' ' = true from rfl, ih.1]
          exact ⟨trivial, by simp; omega⟩

/-- Where joining the words again keeps the separators, it keeps the value. -/
theorem intercalate_pieces {value : Text}
    (same : ([' '].intercalate (pieces value)).filter isSeparator = value.filter isSeparator) :
    [' '].intercalate (pieces value) = value := by
  induction value using separator_induction with
  | free value free =>
      rw [pieces_free free]
      split
      · next empty => exact empty.symm
      · exact List.intercalate_singleton
  | separated before separator rest free blank ih =>
      have none : before.filter isSeparator = [] := by
        rw [List.filter_eq_nil_iff]
        intro char member
        simp [free char member]
      have fewer := (pieces_count (fun _ => true) rest).2
      rw [List.countP_eq_length_filter, List.countP_eq_length_filter] at fewer
      rw [pieces_append free blank] at same ⊢
      rw [List.filter_append, none, List.filter_cons_of_pos blank, List.nil_append] at same
      split at same
      · have lengths := congrArg List.length same
        rw [List.length_cons] at lengths
        omega
      · next given =>
          rw [if_neg given]
          by_cases last : pieces rest = []
          · rw [last, List.intercalate_singleton, none] at same
            cases same
          · rw [intercalate_append_cons before last] at same ⊢
            rw [List.filter_append, none, List.filter_cons_of_pos (by rfl), List.nil_append] at same
            obtain ⟨rfl, others⟩ := List.cons.inj same
            rw [ih others]

theorem mem_intercalate {words : List Text} {char : Char}
    (member : char ∈ [' '].intercalate words) : char = ' ' ∨ ∃ word ∈ words, char ∈ word := by
  induction words with
  | nil => cases member
  | cons word rest ih =>
      cases rest with
      | nil =>
          rw [List.intercalate_singleton] at member
          exact .inr ⟨word, List.mem_singleton.mpr rfl, member⟩
      | cons second rest =>
          rw [List.intercalate_cons_cons] at member
          simp only [List.mem_append, List.mem_singleton] at member
          obtain (inside | rfl) | inside := member
          · exact .inr ⟨word, List.mem_cons_self, inside⟩
          · exact .inl rfl
          · exact (ih inside).imp_right fun ⟨word, listed, own⟩ =>
              ⟨word, List.mem_cons_of_mem _ listed, own⟩

theorem pieces_length (value : Text) :
    ([' '].intercalate (pieces value)).length ≤ value.length := by
  obtain ⟨others, separators⟩ := pieces_count (fun _ => true) value
  have split : ∀ text : Text, text.length = text.countP isSeparator +
      text.countP (fun char => true && !isSeparator char) := by
    intro text
    rw [List.length_eq_countP_add_countP isSeparator]
    simp
  rw [split value, split ([' '].intercalate (pieces value)), others]
  omega

theorem coded_length (kind : Char) (isDigit : Char → Bool) (base count : Nat) (rest : Text) :
    (coded kind isDigit base count rest).1.length + (coded kind isDigit base count rest).2.length ≤
      rest.length + 2 := by
  unfold coded number
  split
  · next value after shape =>
      have dropped := congrArg (fun result => result.2.length) shape
      simp only [List.length_drop] at dropped
      simp only [List.length_singleton]
      omega
  · simp only [List.length_cons, List.length_nil]
    omega

/-- What an escape shows is no longer than the escape. -/
theorem escape_length {kind : Char} {rest shown after : Text}
    (escaped : escape kind rest = some (shown, after)) :
    shown.length + after.length ≤ rest.length + 2 := by
  have single : ∀ char : Char, some ([char], rest) = some (shown, after) →
      shown.length + after.length ≤ rest.length + 2 := by
    rintro char same
    cases same
    simp only [List.length_singleton]
    omega
  have digits : ∀ kind isDigit base count,
      some (coded kind isDigit base count rest) = some (shown, after) →
        shown.length + after.length ≤ rest.length + 2 := by
    intro kind isDigit base count same
    have short := coded_length kind isDigit base count rest
    rwa [Option.some.inj same] at short
  unfold escape at escaped
  split at escaped
  case h_12 =>
    cases escaped
    simp only [List.length_singleton, List.length_drop]
    omega
  case h_16 =>
    cases escaped
    simp only [List.length_cons, List.length_nil]
    omega
  all_goals first
    | exact single _ escaped
    | exact digits _ _ _ _ escaped
    | cases escaped

theorem interpretWithin_length (bound : Nat) (text : Text) :
    (interpretWithin bound text).1.length ≤ text.length := by
  induction bound generalizing text with
  | zero =>
      cases text with
      | nil => exact le_rfl
      | cons char rest => exact le_rfl
  | succ bound ih =>
      cases text with
      | nil => exact le_rfl
      | cons char rest =>
          unfold interpretWithin
          split
          · cases rest with
            | nil => exact le_rfl
            | cons kind rest =>
                cases escaped : escape kind rest with
                | none => simp [escaped]
                | some result =>
                    obtain ⟨shown, after⟩ := result
                    have short := escape_length escaped
                    have others := ih after
                    simp only [escaped, List.length_append, List.length_cons]
                    omega
          · have others := ih rest
            simp only [List.length_cons]
            omega

theorem echo_length (arguments : List Text) :
    (echo arguments).length ≤
      ([' '].intercalate (arguments.dropWhile isEchoOption)).length + 1 := by
  have newline : ∀ quiet : Prop, [Decidable quiet] →
      (if quiet then [] else ['\n'] : Text).length ≤ 1 := by
    intro quiet _
    split
    · exact Nat.zero_le 1
    · exact le_rfl
  have last := newline ('n' ∈ (arguments.takeWhile isEchoOption).flatten)
  unfold echo
  simp only
  split
  · have short := interpretWithin_length
      ([' '].intercalate (arguments.dropWhile isEchoOption)).length
      ([' '].intercalate (arguments.dropWhile isEchoOption))
    split
    · omega
    · rw [List.length_append]
      omega
  · rw [List.length_append]
    omega

theorem intercalate_dropWhile_length (drops : Text → Bool) (arguments : List Text) :
    ([' '].intercalate (arguments.dropWhile drops)).length ≤ ([' '].intercalate arguments).length := by
  induction arguments with
  | nil => exact le_rfl
  | cons word rest ih =>
      have longer := intercalate_cons_length word rest
      rw [List.dropWhile_cons]
      split
      · omega
      · exact le_rfl

/-- Where the first argument is an option, what `echo` prints is shorter than the arguments. -/
theorem echo_option_length {word : Text} (option : isEchoOption word = true) (rest : List Text) :
    (echo (word :: rest)).length < ([' '].intercalate (word :: rest)).length := by
  have printed := echo_length (word :: rest)
  rw [List.dropWhile_cons_of_pos option] at printed
  have two : 2 ≤ word.length := by
    unfold isEchoOption at option
    split at option
    · next flags =>
        cases flags with
        | nil => cases option
        | cons flag flags =>
            simp only [List.length_cons]
            omega
    · cases option
  have longer : ([' '].intercalate (rest.dropWhile isEchoOption)).length + 2 ≤
      ([' '].intercalate (word :: rest)).length := by
    have dropped := intercalate_dropWhile_length isEchoOption rest
    have cons := intercalate_cons_length word rest
    omega
  omega

theorem substitution_length (output : Text) : (substitution output).length ≤ output.length :=
  (List.rdropWhile_prefix _ _).length_le.trans (List.length_filter_le _ _)

theorem substitution_line_eq {line : Text} (free : '\n' ∉ line) (text : '\x00' ∉ line) :
    substitution (line ++ ['\n']) = line := by
  have zeros : (line ++ ['\n']).filter (fun char => char ≠ '\x00') = line ++ ['\n'] := by
    rw [List.filter_eq_self]
    intro char member
    apply decide_eq_true
    rintro rfl
    obtain inside | newline := List.mem_append.mp member
    · exact text inside
    · revert newline
      decide
  unfold substitution
  rw [zeros, List.rdropWhile_concat_pos _ _ _ rfl, List.rdropWhile_eq_self_iff]
  intro nonempty newline
  exact free (beq_iff_eq.mp newline ▸ List.getLast_mem nonempty)

/-- Without an option in front, `echo` prints the arguments, which then stand on one line. -/
theorem echo_pieces {value : Text}
    (option : ∀ word rest, pieces value = word :: rest → isEchoOption word = false) :
    echo (pieces value) = [' '].intercalate (pieces value) ++ ['\n'] := by
  cases shape : pieces value with
  | nil => rfl
  | cons word rest =>
      have first := option word rest shape
      have none : (word :: rest).takeWhile isEchoOption = [] := by
        rw [List.takeWhile_cons, if_neg (by simp [first])]
      have all : (word :: rest).dropWhile isEchoOption = word :: rest :=
        List.dropWhile_cons_of_neg (by simp [first])
      unfold echo
      rw [none, all]
      rfl

theorem newline_not_mem_pieces (value : Text) : '\n' ∉ [' '].intercalate (pieces value) := by
  intro member
  obtain impossible | ⟨word, listed, inside⟩ := mem_intercalate member
  · revert impossible
    decide
  · have free := mem_pieces_free listed inside
    revert free
    decide

theorem zero_not_mem_pieces {value : Text} (text : '\x00' ∉ value) :
    '\x00' ∉ [' '].intercalate (pieces value) := by
  intro member
  obtain impossible | ⟨word, listed, inside⟩ := mem_intercalate member
  · revert impossible
    decide
  · exact text ((Text.mem_splitOnP_infix (List.mem_filter.mp listed).1).subset inside)

/-- What is printed of the words of a value is the value itself when they stand one blank apart
and no option is in front, and at no other time. -/
theorem echo_pieces_iff {value : Text} (text : '\x00' ∉ value) :
    substitution (echo (pieces value)) = value ↔ Spaced value := by
  have printed : ∀ option : ∀ word rest, pieces value = word :: rest → isEchoOption word = false,
      substitution (echo (pieces value)) = [' '].intercalate (pieces value) := by
    intro option
    rw [echo_pieces option,
      substitution_line_eq (newline_not_mem_pieces value) (zero_not_mem_pieces text)]
  constructor
  · intro same
    have option : ∀ word rest, pieces value = word :: rest → isEchoOption word = false := by
      intro word rest shape
      rw [Bool.eq_false_iff]
      intro option
      have shorter := echo_option_length option rest
      have cut := substitution_length (echo (pieces value))
      have joined := pieces_length value
      rw [same, shape] at cut
      rw [shape] at joined
      omega
    exact ⟨by rw [← printed option, same], option⟩
  · intro spaced
    rw [printed spaced.option, spaced.blanks]

end BotBrew.Shell
