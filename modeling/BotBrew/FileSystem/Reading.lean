import BotBrew.Text.Lines

/-! A file that is open for reading: its bytes and a position. -/

set_option autoImplicit false

namespace BotBrew.Reading

def target (length position : Nat) (offset whence : Int) : Option Int :=
  if whence = 0 then some offset
  else if whence = 1 then some (position + offset)
  else if whence = 2 then some (length + offset)
  else none

/-- `seek`. Where there is no such position it raises an `IOError`. -/
def seek (content : Text) (position : Nat) (offset whence : Int) : Option Nat :=
  (target content.length position offset whence).bind fun place => if place < 0 then none else some place.toNat

/-- The bytes that `read` returns: all that are left if the size is negative. -/
def read (content : Text) (position : Nat) (size : Int) : Text :=
  if size < 0 then content.drop position else (content.drop position).take size.toNat

def firstLine (text : Text) : Text :=
  text.takeWhile (· ≠ '\n') ++ (text.dropWhile (· ≠ '\n')).take 1

def readline (content : Text) (position : Nat) : Text := firstLine (content.drop position)

theorem seek_start (content : Text) (position place : Nat) : seek content position place 0 = some place := by
  simp [seek, target]

theorem seek_forward (content : Text) (position distance : Nat) :
    seek content position distance 1 = some (position + distance) := by
  have forward : ¬(position + distance : Int) < 0 := by omega
  have moved : (position + distance : Int).toNat = position + distance := by omega
  rw [seek, target, if_neg (by decide), if_pos rfl, Option.bind_some, if_neg forward, moved]

theorem firstLine_line {line : Text} (free : '\n' ∉ line) (rest : Text) :
    firstLine (line ++ '\n' :: rest) = line ++ ['\n'] := by
  have differs : ∀ char ∈ line, decide (char ≠ '\n') = true := by
    intro char member
    have other : char ≠ '\n' := by
      intro newline
      exact free (newline ▸ member)
    simpa using other
  rw [firstLine, List.takeWhile_append_of_pos differs, List.dropWhile_append_of_pos differs]
  simp

theorem readline_at {content before line : Text} {position : Nat} (rest : Text)
    (shape : content = before ++ (line ++ '\n' :: rest)) (place : before.length = position) (free : '\n' ∉ line) :
    readline content position = line ++ ['\n'] := by
  rw [readline, shape, ← place, List.drop_left, firstLine_line free]

theorem readline_end {content : Text} {position : Nat} (last : content.length ≤ position) :
    readline content position = [] := by
  rw [readline, List.drop_eq_nil_of_le last]
  rfl

theorem drop_part (before part after : Text) (position : Nat) :
    (before ++ part ++ after).drop (before.length + position) =
      part.drop position ++ after.drop (position - part.length) := by
  rw [List.append_assoc, List.drop_append, List.drop_eq_nil_of_le (Nat.le_add_right _ _), List.nil_append,
    Nat.add_sub_cancel_left, List.drop_append]

/-- A read in a part of a file returns what a read of the part alone does, exactly where it
asks for no more than the part has left, or there is nothing behind the part. -/
theorem read_part_iff (before part after : Text) (position : Nat) (size : Int) :
    read (before ++ part ++ after) (before.length + position) size = read part position size ↔
      size = 0 ∨ 0 ≤ size ∧ position + size ≤ part.length ∨ part.length + after.length ≤ max position part.length := by
  rw [read, read, drop_part]
  split
  case isTrue negative =>
    rw [List.append_right_eq_self, List.drop_eq_nil_iff]
    omega
  case isFalse =>
    rw [List.take_append, List.append_right_eq_self, List.take_eq_nil_iff, List.drop_eq_nil_iff, List.length_drop]
    omega

end BotBrew.Reading
