import BotBrew.Words.Strings

/-! `opkg-compare-versions.c` -/

set_option autoImplicit false

namespace BotBrew.Opkg.CompareVersions

open Words

/-- What a compiler decides: the size of a `long`, and whether a `char` has a sign -/
structure Target where
  long : Nat
  least : 32 ≤ long
  signed : Bool

def Target.LONG_MAX (target : Target) : Nat := 2 ^ (target.long - 1) - 1

def isdigit (char : Byte) : Bool := 48 ≤ char.toNat && char.toNat ≤ 57

def isalpha (char : Byte) : Bool :=
  (65 ≤ char.toNat && char.toNat ≤ 90) || (97 ≤ char.toNat && char.toNat ≤ 122)

/-- A `char` as an `int` -/
def Target.int (target : Target) (char : Byte) : Int := if target.signed then char.toInt else char.toNat

/-- What a character that is no digit counts as: the letters come before all others. -/
def Target.order (target : Target) (char : Byte) : Int :=
  if isalpha char then target.int char else target.int char + 256

/-- The text before the first digit -/
def nondigits (text : List Byte) : List Byte := text.takeWhile fun char => !isdigit char

def fromDigits (text : List Byte) : List Byte := text.dropWhile fun char => !isdigit char

/-- The inner loop: the difference of the first two characters that differ. The end counts as zero. -/
def compareNondigits (target : Target) : List Byte → List Byte → Int
  | [], [] => 0
  | char :: _, [] => target.order char
  | [], char :: _ => -target.order char
  | char :: val, char' :: ref =>
    if target.order char ≠ target.order char' then target.order char - target.order char'
    else compareNondigits target val ref

/-- The value of the digits at the start -/
def digits (text : List Byte) : Nat := scan 10 0 (text.takeWhile isdigit)

/-- `strtol` of a text that starts with a digit or is empty -/
def Target.strtol (target : Target) (text : List Byte) : Nat := min (digits text) target.LONG_MAX

def fromRest (text : List Byte) : List Byte := (fromDigits text).dropWhile isdigit

/-- `strchr(".-", *text)`. The end of the text is found at the end of `".-"`. -/
def separates : List Byte → Bool
  | [] => true
  | char :: _ => char == 46 || char == 45

/-- A `long` as an `int` -/
def truncate (number : Int) : Int := number.bmod (2 ^ 32)

theorem fromRest_length (text : List Byte) : (fromRest text).length ≤ text.length :=
  Nat.le_trans (List.dropWhile_sublist _).length_le (List.dropWhile_sublist _).length_le

/-- Some of a text is read if there is any. -/
theorem fromRest_cons_length (char : Byte) (text : List Byte) :
    (fromRest (char :: text)).length < (char :: text).length := by
  have rest : ∀ test : Byte → Bool, (text.dropWhile test).length ≤ text.length :=
    fun test => (List.dropWhile_sublist test).length_le
  cases digit : isdigit char with
  | true =>
    have same : fromRest (char :: text) = text.dropWhile isdigit := by simp [fromRest, fromDigits, digit]
    simpa only [same, List.length_cons] using Nat.lt_succ_of_le (rest _)
  | false =>
    have same : fromRest (char :: text) = fromRest text := by simp [fromRest, fromDigits, digit]
    simpa only [same, List.length_cons] using Nat.lt_succ_of_le (fromRest_length text)

theorem fromRest_decreases {text : List Byte} (more : fromRest text ≠ []) : (fromRest text).length < text.length := by
  cases text with
  | nil => exact absurd rfl more
  | cons char text => exact fromRest_cons_length char text

def verrevcmp (target : Target) (val ref : List Byte) : Int :=
  let difference := compareNondigits target (nondigits val) (nondigits ref)
  if difference ≠ 0 then difference
  else
    let vl := target.strtol (fromDigits val)
    let rl := target.strtol (fromDigits ref)
    if vl ≠ rl then truncate (vl - rl)
    else if separates (fromRest val) && !separates (fromRest ref) then -1
    else if !separates (fromRest val) && separates (fromRest ref) then 1
    else if fromRest val = [] ∧ fromRest ref = [] then 0
    else if _ended : fromRest val = [] then -1
    else if fromRest ref = [] then 1
    else verrevcmp target (fromRest val) (fromRest ref)
termination_by val.length
decreasing_by exact fromRest_decreases _ended

structure versionrevision where
  epoch : Nat
  version : List Byte
  revision : List Byte

def versioncompare (target : Target) (version refversion : versionrevision) : Int :=
  if version.epoch > refversion.epoch then 1
  else if version.epoch < refversion.epoch then -1
  else
    let r := verrevcmp target version.version refversion.version
    if r ≠ 0 then r else verrevcmp target version.revision refversion.revision

/-- There is no result for an unknown operator. -/
def versionsatisfied3 (target : Target) (it ref : versionrevision) (op : List Byte) : Option Bool :=
  let r := versioncompare target it ref
  if op = ascii "<=" ∨ op = ascii "<" then some (r ≤ 0)
  else if op = ascii ">=" ∨ op = ascii ">" then some (r ≥ 0)
  else if op = ascii "<<" then some (r < 0)
  else if op = ascii ">>" then some (r > 0)
  else if op = ascii "=" then some (r = 0)
  else none

/-- `strtoul(text, &end, 10)` and the text from `end` -/
def Target.strtoul (target : Target) (text : List Byte) : Nat × List Byte :=
  let start := text.dropWhile isspace
  let unsigned := if start.head? = some 45 ∨ start.head? = some 43 then start.tail else start
  let value := digits unsigned
  if unsigned.takeWhile isdigit = [] then (0, text)
  else if 2 ^ target.long ≤ value then (2 ^ target.long - 1, unsigned.dropWhile isdigit)
  else if start.head? = some 45 then ((2 ^ target.long - value) % 2 ^ target.long, unsigned.dropWhile isdigit)
  else (value, unsigned.dropWhile isdigit)

def colon : Byte := 58

def parseversion (target : Target) (string : List Byte) : Except (List Byte) versionrevision :=
  if string = [] then .error (ascii "version string is empty")
  else
    match string.dropWhile (· ≠ colon) with
    | [] => .ok ⟨0, string, []⟩
    | found :: rest =>
      let (epoch, eepochcolon) := target.strtoul string
      if found :: rest ≠ eepochcolon then .error (ascii "epoch in version is not number")
      else if rest = [] then .error (ascii "nothing after colon in version number")
      else .ok ⟨epoch, rest, []⟩

structure Exit where
  code : Nat
  stderr : List Byte
  deriving DecidableEq

def usage (name : List Byte) : Exit := ⟨2, ascii "usage: " ++ name ++ ascii ": version op refversion\n"⟩

def invalid (text why : List Byte) : Exit :=
  ⟨2, ascii "Invalid version " ++ [96] ++ text ++ ascii "': " ++ why ++ ascii "\n"⟩

def main (target : Target) : List CString → Exit
  | _ :: version :: op :: refversion :: _ =>
    match parseversion target version.bytes with
    | .error why => invalid version.bytes why
    | .ok ver =>
      match parseversion target refversion.bytes with
      | .error why => invalid refversion.bytes why
      | .ok ref =>
        match versionsatisfied3 target ver ref op.bytes with
        | none => ⟨1, ascii "unknown operator: " ++ op.bytes⟩
        | some satisfied => ⟨if satisfied then 0 else 1, []⟩
  | name :: _ => usage name.bytes
  | [] => usage (ascii "(null)")

end BotBrew.Opkg.CompareVersions
