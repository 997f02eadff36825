import Mathlib.Data.List.DropRight
import Mathlib.Data.List.TakeWhile

/-! Byte strings, their lines and the blanks around them. -/

set_option autoImplicit false

namespace BotBrew

/-- A byte string. -/
abbrev Text := List Char

namespace Text

/-- The bytes of a text are checked one by one, not every character there is. -/
instance decidableBAll (p : Char → Prop) [DecidablePred p] (text : List Char) : Decidable (∀ char ∈ text, p char) :=
  List.decidableBAll p text

instance : LawfulBEq Text := inferInstance

instance : LawfulBEq (List Text) := inferInstance

/-- What Python and its regular expressions take for a blank. -/
def isSpace (char : Char) : Bool :=
  char == ' ' || char == '\t' || char == '\n' || char == '\r' || char == '\x0b' || char == '\x0c'

def rstrip (text : Text) : Text := text.rdropWhile isSpace

def lstrip (text : Text) : Text := text.dropWhile isSpace

def strip (text : Text) : Text := lstrip (rstrip text)

/-- The lines of an open file, each with its newline. -/
def readlines : Text → List Text
  | [] => []
  | char :: text =>
      if char = '\n' then ['\n'] :: readlines text
      else
        match readlines text with
        | [] => [[char]]
        | line :: rest => (char :: line) :: rest

/-- The first line of a text and the other ones, without newlines. -/
def cut : Text → Text × List Text
  | [] => ([], [])
  | char :: text =>
      if char = '\n' then ([], (cut text).1 :: (cut text).2)
      else (char :: (cut text).1, (cut text).2)

def paste (first : Text) (rest : List Text) : Text := first ++ rest.flatMap fun line => '\n' :: line

theorem newline_notMem_cut (text : Text) :
    '\n' ∉ (cut text).1 ∧ ∀ line ∈ (cut text).2, '\n' ∉ line := by
  induction text with
  | nil => simp [cut]
  | cons char text ih =>
      by_cases newline : char = '\n'
      · simpa [cut, newline] using ih
      · simpa [cut, newline, Ne.symm newline] using ih

theorem cut_line {line : Text} (free : '\n' ∉ line) : cut line = (line, []) := by
  induction line with
  | nil => rfl
  | cons char line ih =>
      simp only [List.mem_cons, not_or] at free
      simp [cut, Ne.symm free.1, ih free.2]

theorem cut_append {line : Text} (free : '\n' ∉ line) (text : Text) :
    cut (line ++ '\n' :: text) = (line, (cut text).1 :: (cut text).2) := by
  induction line with
  | nil => simp [cut]
  | cons char line ih =>
      simp only [List.mem_cons, not_or] at free
      simp [cut, Ne.symm free.1, ih free.2]

theorem cut_paste {first : Text} {rest : List Text} (free : '\n' ∉ first)
    (restFree : ∀ line ∈ rest, '\n' ∉ line) : cut (paste first rest) = (first, rest) := by
  induction rest generalizing first with
  | nil => simpa [paste] using cut_line free
  | cons line rest ih =>
      have inner := ih (restFree line (by simp)) fun other member => restFree other (by simp [member])
      have shape : paste first (line :: rest) = first ++ '\n' :: paste line rest := by simp [paste]
      rw [shape, cut_append free, inner]

theorem readlines_line {line : Text} (free : '\n' ∉ line) (text : Text) :
    readlines (line ++ '\n' :: text) = (line ++ ['\n']) :: readlines text := by
  induction line with
  | nil => simp [readlines]
  | cons char line ih =>
      simp only [List.mem_cons, not_or] at free
      simp [readlines, Ne.symm free.1, ih free.2]

theorem readlines_lines {lines : List Text} (free : ∀ line ∈ lines, '\n' ∉ line) (text : Text) :
    readlines ((lines.flatMap fun line => line ++ ['\n']) ++ text) =
      lines.map (· ++ ['\n']) ++ readlines text := by
  induction lines with
  | nil => rfl
  | cons line rest ih =>
      have inner := ih fun other member => free other (by simp [member])
      simp only [List.flatMap_cons, List.append_assoc, List.cons_append, List.nil_append,
        List.map_cons]
      rw [readlines_line (free line (by simp)), inner]

theorem rstrip_concat_blank {char : Char} (blank : isSpace char) (text : Text) :
    rstrip (text ++ [char]) = rstrip text :=
  List.rdropWhile_concat_pos _ _ _ blank

theorem rstrip_concat_visible {char : Char} (visible : ¬ isSpace char) (text : Text) :
    rstrip (text ++ [char]) = text ++ [char] :=
  List.rdropWhile_concat_neg _ _ _ visible

theorem rstrip_append {char : Char} (visible : ¬ isSpace char) (before after : Text) :
    rstrip (before ++ char :: after) = before ++ char :: rstrip after := by
  induction after using List.reverseRecOn with
  | nil => exact rstrip_concat_visible visible before
  | append_singleton after last ih =>
      have shape : before ++ char :: (after ++ [last]) = (before ++ char :: after) ++ [last] := by
        simp
      rw [shape]
      by_cases blank : isSpace last
      · rw [rstrip_concat_blank blank, rstrip_concat_blank blank, ih]
      · rw [rstrip_concat_visible blank, rstrip_concat_visible blank, ← shape]

theorem rstrip_cons (char : Char) (text : Text) (shown : rstrip text ≠ []) :
    rstrip (char :: text) = char :: rstrip text := by
  induction text using List.reverseRecOn with
  | nil => exact absurd rfl shown
  | append_singleton text last ih =>
      rw [← List.cons_append]
      by_cases blank : isSpace last
      · rw [rstrip_concat_blank blank] at shown ⊢
        rw [rstrip_concat_blank blank]
        exact ih shown
      · rw [rstrip_concat_visible blank, rstrip_concat_visible blank, List.cons_append]

theorem lstrip_rstrip_cons {char : Char} (blank : isSpace char) (text : Text) :
    lstrip (rstrip (char :: text)) = strip text := by
  by_cases shown : rstrip text = []
  · have all : ∀ other ∈ char :: text, isSpace other = true := by
      intro other member
      rcases List.mem_cons.mp member with rfl | member
      · exact blank
      · exact List.rdropWhile_eq_nil_iff.mp shown other member
    have none : rstrip (char :: text) = [] := List.rdropWhile_eq_nil_iff.mpr all
    rw [strip, shown, none]
  · rw [rstrip_cons char text shown, strip, lstrip, lstrip, List.dropWhile_cons_of_pos blank]

theorem strip_subset {text : Text} {char : Char} (member : char ∈ strip text) : char ∈ text :=
  (List.rdropWhile_prefix _ _).subset ((List.dropWhile_sublist _).subset member)

theorem strip_strip (text : Text) : strip (strip text) = strip text := by
  have right : rstrip (strip text) = strip text := by
    refine List.rdropWhile_eq_self_iff.mpr fun nonempty blank => ?_
    have suffix : strip text <:+ rstrip text := List.dropWhile_suffix _
    rw [suffix.getLast nonempty] at blank
    exact List.rdropWhile_last_not _ _ _ blank
  rw [strip, right]
  exact List.dropWhile_idempotent _ _

end Text

end BotBrew
