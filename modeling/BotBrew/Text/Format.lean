import BotBrew.Text.Lines

/-! Python's `%` with a string at its left and a mapping of strings at its right.
The mapping itself is an argument that one conversion without a key may take.

A text is its bytes. A template that is no ASCII is a `unicode`, in which Python 2 puts
no `str` that is not ASCII. -/

set_option autoImplicit false

namespace BotBrew.Text

def isAscii (text : Text) : Bool := text.all fun char => char.toNat < 128

/-- The mapping, what `str` and `repr` print of it as a whole, and the largest width that
Python takes. -/
structure Environment where
  get : Text → Option Text
  shown : Text
  maxsize : Nat

/-- What a conversion takes: the mapping as a whole, or the value of a key. -/
structure Argument where
  value : Text
  keyed : Bool

/-- The key up to its closing parenthesis, where parentheses are balanced. -/
def closing : Nat → Text → Option (Text × Text)
  | _, [] => none
  | depth, char :: rest =>
      if char = ')' then
        match depth with
        | 0 => some ([], rest)
        | depth + 1 => (closing depth rest).map fun (key, rest) => (char :: key, rest)
      else
        (closing (if char = '(' then depth + 1 else depth) rest).map fun (key, rest) =>
          (char :: key, rest)

/-- The argument that a specifier leaves for its conversion, and what follows its key. Without a
key it is the one that is left from before. -/
def Environment.argument (env : Environment) (left : Option Argument) : Text → Option (Option Argument × Text)
  | '(' :: rest => do
      let (key, rest) ← closing 0 rest
      let value ← env.get key
      some (some { value := value, keyed := true }, rest)
  | rest => some (left, rest)

def decimalValue (text : Text) : Option Nat :=
  text.foldl (fun number digit => some (number.getD 0 * 10 + (digit.toNat - '0'.toNat))) none

/-- The digits of a number in front, and what follows them. `*` wants a number for which a
mapping of strings has none, and a number that is too big raises. -/
def digits (limit : Nat) (text : Text) : Option (Option Nat × Text) :=
  if text.head? = some '*' ∨ limit < (decimalValue (text.takeWhile Char.isDigit)).getD 0 then none
  else some (decimalValue (text.takeWhile Char.isDigit), text.dropWhile Char.isDigit)

def isFlag (char : Char) : Bool :=
  char == '#' || char == '0' || char == '-' || char == ' ' || char == '+'

def escaped (quote char : Char) : Text :=
  if char = '\n' then "\\n".toList
  else if char = '\r' then "\\r".toList
  else if char = '\t' then "\\t".toList
  else if char = '\\' ∨ char = quote then ['\\', char]
  else if char.toNat < 32 ∨ 127 ≤ char.toNat then
    '\\' :: 'x' :: (if char.toNat < 16 then ['0'] else []) ++ Nat.toDigits 16 char.toNat
  else [char]

/-- `repr` of a string -/
def quoted (value : Text) : Text :=
  let quote := if '\'' ∈ value ∧ '"' ∉ value then '"' else '\''
  quote :: value.flatMap (escaped quote) ++ [quote]

/-- The conversion of an argument. Every number conversion raises. -/
def Argument.converted (argument : Argument) (unicode : Bool) (precision : Option Nat) : Char → Option Text
  | 's' =>
      if unicode && !isAscii argument.value then none
      else some (match precision with
        | none => argument.value
        | some length => argument.value.take length)
  | 'r' =>
      let shown := if argument.keyed then quoted argument.value else argument.value
      some (match precision with
        | none => shown
        | some length => shown.take length)
  | 'c' => if argument.keyed ∧ argument.value.length = 1 then some argument.value else none
  | _ => none

/-- A conversion takes the argument, and there are not enough where one has taken it already.
`%%` takes none. -/
def converted (unicode : Bool) (left : Option Argument) (precision : Option Nat) :
    Char → Option (Text × Option Argument)
  | '%' => some (['%'], left)
  | kind => do
      let argument ← left
      let value ← argument.converted unicode precision kind
      some (value, none)

def padded (left : Bool) (width : Nat) (text : Text) : Text :=
  let blanks := List.replicate (width - text.length) ' '
  if left then text ++ blanks else blanks ++ text

/-- `INT_MAX` -/
def largestPrecision : Nat := 0x7fffffff

/-- `.` and a precision, where a missing number is zero -/
def precision : Text → Option (Option Nat × Text)
  | '.' :: rest => (digits largestPrecision rest).map fun (number, rest) => (some (number.getD 0), rest)
  | rest => some (none, rest)

def isLength (char : Char) : Bool := char == 'h' || char == 'l' || char == 'L'

/-- What a conversion leaves -/
structure Converted where
  value : Text
  left : Option Argument
  rest : Text

/-- What a `%` and the characters behind it become. -/
def Environment.conversion (env : Environment) (unicode : Bool) (left : Option Argument) (text : Text) :
    Option Converted := do
  let (left, spec) ← env.argument left text
  let (width, rest) ← digits env.maxsize (spec.dropWhile isFlag)
  let (length, rest) ← precision rest
  match if rest.head?.any isLength then rest.tail else rest with
  | [] => none
  | kind :: rest =>
      let (value, left) ← converted unicode left length kind
      some { value := padded ('-' ∈ spec.takeWhile isFlag) (width.getD 0) value, left := left, rest := rest }

/-- What is left of a template, where this argument is left. The bound is the length. -/
def Environment.formatWithin (env : Environment) (unicode : Bool) : Nat → Option Argument → Text → Option Text
  | _, _, [] => some []
  | 0, _, _ :: _ => none
  | bound + 1, left, char :: rest =>
      if char = '%' then do
        let result ← env.conversion unicode left rest
        let others ← env.formatWithin unicode bound result.left result.rest
        some (result.value ++ others)
      else (env.formatWithin unicode bound left rest).map (char :: ·)

def Environment.formatFrom (env : Environment) (unicode : Bool) (left : Option Argument) (template : Text) :
    Option Text :=
  env.formatWithin unicode template.length left template

/-- `template % env`, or nothing where it raises. The mapping itself is the first argument. -/
def Environment.format (env : Environment) (unicode : Bool) (template : Text) : Option Text :=
  env.formatFrom unicode (some { value := env.shown, keyed := false }) template

/-- `(template % env).encode('utf-8')`, which first decodes a `str` as ASCII -/
def Environment.encoded (env : Environment) (template : Text) : Option Text := do
  let text ← env.format (!isAscii template) template
  if isAscii template && !isAscii text then none else some text

theorem closing_shorter {depth : Nat} {text key rest : Text}
    (closed : closing depth text = some (key, rest)) : rest.length ≤ text.length := by
  induction text generalizing depth key rest with
  | nil => cases closed
  | cons char text ih =>
      have later : ∀ {depth : Nat} {key rest : Text},
          ((closing depth text).map fun (key, rest) => (char :: key, rest)) = some (key, rest) →
            rest.length ≤ (char :: text).length := by
        intro depth key rest found
        obtain ⟨⟨inner, tail⟩, closed, same⟩ := Option.map_eq_some_iff.mp found
        cases same
        exact (ih closed).trans (Nat.le_succ _)
      unfold closing at closed
      split at closed
      · split at closed
        · cases closed
          exact Nat.le_succ _
        · exact later closed
      · exact later closed

theorem argument_shorter {env : Environment} {left left' : Option Argument} {text rest : Text}
    (found : env.argument left text = some (left', rest)) : rest.length ≤ text.length := by
  unfold Environment.argument at found
  split at found
  · obtain ⟨⟨key, rest⟩, closed, found⟩ := Option.bind_eq_some_iff.mp found
    obtain ⟨value, _, found⟩ := Option.bind_eq_some_iff.mp found
    cases found
    exact (closing_shorter closed).trans (Nat.le_succ _)
  · cases found
    exact le_rfl

theorem digits_shorter {limit : Nat} {text rest : Text} {number : Option Nat}
    (found : digits limit text = some (number, rest)) : rest.length ≤ text.length := by
  unfold digits at found
  split at found
  · cases found
  · cases found
    exact List.length_dropWhile_le _ _

theorem precision_shorter {text rest : Text} {number : Option Nat}
    (found : precision text = some (number, rest)) : rest.length ≤ text.length := by
  unfold precision at found
  split at found
  · obtain ⟨⟨inner, tail⟩, digits, same⟩ := Option.map_eq_some_iff.mp found
    cases same
    exact (digits_shorter digits).trans (Nat.le_succ _)
  · cases found
    exact le_rfl

theorem conversion_shorter {env : Environment} {unicode : Bool} {left : Option Argument} {text : Text}
    {result : Converted} (found : env.conversion unicode left text = some result) : result.rest.length ≤ text.length := by
  unfold Environment.conversion at found
  obtain ⟨⟨argument, spec⟩, first, found⟩ := Option.bind_eq_some_iff.mp found
  obtain ⟨⟨width, afterWidth⟩, second, found⟩ := Option.bind_eq_some_iff.mp found
  obtain ⟨⟨length, afterLength⟩, third, found⟩ := Option.bind_eq_some_iff.mp found
  have shorter : afterLength.length ≤ text.length :=
    (precision_shorter third).trans ((digits_shorter second).trans
      ((List.length_dropWhile_le _ _).trans (argument_shorter first)))
  have last : (if afterLength.head?.any isLength then afterLength.tail else afterLength).length ≤
      text.length := by
    split
    · rw [List.length_tail]
      omega
    · exact shorter
  dsimp only at found
  generalize (if afterLength.head?.any isLength then afterLength.tail else afterLength) = others
    at found last
  cases others with
  | nil => cases found
  | cons kind others =>
      obtain ⟨converted, _, found⟩ := Option.bind_eq_some_iff.mp found
      cases found
      exact (Nat.le_succ _).trans last

theorem formatWithin_eq (env : Environment) (unicode : Bool) {bound : Nat} (left : Option Argument) {text : Text}
    (enough : text.length ≤ bound) :
    env.formatWithin unicode bound left text = env.formatFrom unicode left text := by
  have any : ∀ first second : Nat, ∀ left text, text.length ≤ first → text.length ≤ second →
      env.formatWithin unicode first left text = env.formatWithin unicode second left text := by
    intro first
    induction first with
    | zero =>
        intro second left text empty _
        rw [List.eq_nil_of_length_eq_zero (Nat.le_zero.mp empty)]
        cases second <;> rfl
    | succ first ih =>
        intro second left text enough also
        cases text with
        | nil => cases second <;> rfl
        | cons char rest =>
            cases second with
            | zero => cases also
            | succ second =>
                have shorter := Nat.le_of_succ_le_succ enough
                have alsoShorter := Nat.le_of_succ_le_succ also
                rw [Environment.formatWithin, Environment.formatWithin]
                split
                · cases found : env.conversion unicode left rest with
                  | none => rfl
                  | some result =>
                      have less := conversion_shorter found
                      simp only [Option.bind_eq_bind, Option.bind_some,
                        ih second result.left result.rest (less.trans shorter) (less.trans alsoShorter)]
                · rw [ih second left rest shorter alsoShorter]
  exact any _ _ left text enough le_rfl

/-- The bound is never reached: a conversion goes on behind what it has read. -/
theorem format_percent (env : Environment) (unicode : Bool) (left : Option Argument) (rest : Text) :
    env.formatFrom unicode left ('%' :: rest) = (env.conversion unicode left rest).bind fun result =>
      (env.formatFrom unicode result.left result.rest).map (result.value ++ ·) := by
  show (env.conversion unicode left rest).bind _ = _
  cases found : env.conversion unicode left rest with
  | none => rfl
  | some result =>
      show (env.formatWithin unicode rest.length result.left result.rest).bind _ =
        (env.formatFrom unicode result.left result.rest).map (result.value ++ ·)
      rw [formatWithin_eq env unicode result.left (conversion_shorter found)]
      cases env.formatFrom unicode result.left result.rest <;> rfl

example : (Environment.mk (fun _ => some ['v']) ['m'] largestPrecision).encoded "%(k)s%s".toList = none := by
  decide

example : (Environment.mk (fun _ => some ['v']) ['m'] largestPrecision).encoded "%s%(k)3s%%".toList =
    some "m  v%".toList := by decide

end BotBrew.Text
