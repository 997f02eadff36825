import Mathlib.Data.List.Basic
import BotBrew.Text.Lines

/-! Version numbers of `opkg.py`. `none` is a Python exception. -/

set_option autoImplicit false

namespace BotBrew.Opkg

/-- `int(digits)` of a run of digits -/
def int (digits : Text) : Option Nat :=
  if digits = [] then none
  else some (digits.foldl (fun value digit => 10 * value + (digit.toNat - '0'.toNat)) 0)

structure Version where
  epoch : Nat
  version : Text
  deriving DecidableEq, Repr

/-- `([^0-9]*)` -/
def alpha (text : Text) : Text := text.takeWhile fun char => !char.isDigit

def afterAlpha (text : Text) : Text := text.dropWhile fun char => !char.isDigit

/-- `([0-9]*)`, which follows an `alpha` -/
def number (text : Text) : Option Nat := int ((afterAlpha text).takeWhile Char.isDigit)

def afterNumber (text : Text) : Text := (afterAlpha text).dropWhile Char.isDigit

/-- A missing number is smaller than every number. -/
def sentinel : Option Nat → Int
  | some number => number
  | none => -1

theorem afterNumber_length (text : Text) : (afterNumber text).length ≤ text.length :=
  Nat.le_trans (List.dropWhile_sublist _).length_le (List.dropWhile_sublist _).length_le

theorem afterNumber_cons_length (char : Char) (text : Text) :
    (afterNumber (char :: text)).length < (char :: text).length := by
  have rest : ∀ test : Char → Bool, (text.dropWhile test).length ≤ text.length :=
    fun test => (List.dropWhile_sublist test).length_le
  by_cases digit : char.isDigit
  · have same : afterNumber (char :: text) = text.dropWhile Char.isDigit := by
      simp [afterNumber, afterAlpha, digit]
    rw [same, List.length_cons]
    exact Nat.lt_succ_of_le (rest _)
  · have same : afterNumber (char :: text) = afterNumber text := by
      simp [afterNumber, afterAlpha, digit]
    rw [same, List.length_cons]
    exact Nat.lt_succ_of_le (afterNumber_length text)

/-- What is left after a step is empty, or one of the two texts got shorter. -/
theorem afterNumber_decreases {self ref : Text}
    (more : ¬ (afterNumber self = [] ∧ afterNumber ref = [])) :
    (afterNumber self).length + (afterNumber ref).length < self.length + ref.length := by
  have selfBound := afterNumber_length self
  have refBound := afterNumber_length ref
  cases self with
  | cons char text =>
      have shorter := afterNumber_cons_length char text
      omega
  | nil =>
      cases ref with
      | cons char text =>
          have shorter := afterNumber_cons_length char text
          omega
      | nil => exact absurd ⟨rfl, rfl⟩ more

/-- The components come from `(.+?)` and `(-r.+)`, so they have no newline. -/
def Version._versioncompare (selfversion refversion : Text) : Int :=
  if alpha refversion < alpha selfversion then 1
  else if alpha selfversion < alpha refversion then -1
  else
    let selfnum := sentinel (number selfversion)
    let refnum := sentinel (number refversion)
    if selfnum > refnum then 1
    else if selfnum < refnum then -1
    else if afterNumber selfversion = [] ∧ afterNumber refversion = [] then 0
    else Version._versioncompare (afterNumber selfversion) (afterNumber refversion)
termination_by selfversion.length + refversion.length
decreasing_by exact afterNumber_decreases ‹_›

/-- `-r.+` at the beginning of a line -/
def isRevision : Text → Bool
  | '-' :: 'r' :: _ :: _ => true
  | _ => false

/-- The shortest prefix of a line after which it ends or a revision begins. -/
def splitRevision : Text → Text × Option Text
  | [] => ([], none)
  | char :: rest =>
      if isRevision (char :: rest) then ([], some (char :: rest))
      else ((char :: (splitRevision rest).1), (splitRevision rest).2)

/-- The groups of `(.+?)(-r.+)?$`. The first one has at least one character,
`.` is no newline, and `$` also matches before a newline at the end. -/
def components (version : Text) : Option (Text × Option Text) :=
  match version.takeWhile (· != '\n'), version.dropWhile (· != '\n') with
  | char :: line, [] | char :: line, ['\n'] =>
      some (char :: (splitRevision line).1, (splitRevision line).2)
  | _, _ => none

def Version.compare (self ref : Version) : Option Int :=
  if self.epoch > ref.epoch then some 1
  else if self.epoch < ref.epoch then some (-1)
  else do
    let selfcomps ← components self.version
    let refcomps ← components ref.version
    let r := Version._versioncompare selfcomps.1 refcomps.1
    if r = 0 then
      some (Version._versioncompare (selfcomps.2.getD []) (refcomps.2.getD []))
    else some r

/-- The prefix `[0-9]*:` is the epoch; `(.*)` ends at a newline. -/
def parse_version (versionstr : Text) : Option Version :=
  match versionstr.dropWhile Char.isDigit with
  | ':' :: rest =>
      (int (versionstr.takeWhile Char.isDigit)).map fun epoch =>
        { epoch := epoch, version := rest.takeWhile (· != '\n') }
  | _ => some { epoch := 0, version := versionstr }

end BotBrew.Opkg
