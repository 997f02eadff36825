import BotBrew.Words.Alignment
import BotBrew.Words.Strings

/-! The `newc` format of cpio archives: a header of hexadecimal numbers, a name and data for every member. -/

set_option autoImplicit false

namespace BotBrew.Archive

open Words

/-- A member, without the two numbers of its header that are sizes -/
structure Member where
  ino : Word
  mode : Word
  uid : Word
  gid : Word
  nlink : Word
  mtime : Word
  volmajor : Word
  volminor : Word
  devmajor : Word
  devminor : Word
  check : Word
  name : CString
  data : List Byte
  deriving DecidableEq

def magic : List Byte := ascii "070701"

def headerSize : Nat := 110

def trailerName : List Byte := ascii "TRAILER!!!"

/-- The numbers of the header, in their order -/
def Member.numbers (member : Member) : List Nat :=
  [member.ino.toNat, member.mode.toNat, member.uid.toNat, member.gid.toNat, member.nlink.toNat, member.mtime.toNat,
    member.data.length, member.volmajor.toNat, member.volminor.toNat, member.devmajor.toNat, member.devminor.toNat,
    member.name.bytes.length + 1, member.check.toNat]

def Member.header (member : Member) : List Byte := magic ++ member.numbers.flatMap (hex 8)

/-- A member from a multiple of four bytes to the next one -/
def Member.bytes (member : Member) : List Byte :=
  member.header ++ (member.name.bytes ++ 0 :: fill 4 (headerSize + member.name.bytes.length + 1) ++
    (member.data ++ fill 4 member.data.length))

/-! ## Reading -/

/-- So many bytes, if there are so many -/
def readBytes (count : Nat) (file : List Byte) : Option (List Byte × List Byte) :=
  if count ≤ file.length then some (file.take count, file.drop count) else none

def readNumber (file : List Byte) : Option (Nat × List Byte) := do
  let (digits, file) ← readBytes 8 file
  if digits.all fun char => digitValue char < 16 then some (scan 16 0 digits, file) else none

def readNumbers : Nat → List Byte → Option (List Nat × List Byte)
  | 0, file => some ([], file)
  | count + 1, file => do
    let (number, file) ← readNumber file
    let (numbers, file) ← readNumbers count file
    return (number :: numbers, file)

/-- A string with the zero at its end -/
def stringOf (bytes : List Byte) : Option CString :=
  if valid : 0 ∉ bytes.dropLast ∧ bytes.getLast? = some 0 then some ⟨bytes.dropLast, valid.1⟩ else none

/-- One member, and what is after it -/
def Member.read (file : List Byte) : Option (Member × List Byte) := do
  let (start, file) ← readBytes 6 file
  if start ≠ magic then none
  else
    let (numbers, file) ← readNumbers 13 file
    match numbers with
    | [ino, mode, uid, gid, nlink, mtime, filesize, volmajor, volminor, devmajor, devminor, namesize, check] => do
      let (name, file) ← readBytes namesize file
      let name ← stringOf name
      let (_, file) ← readBytes (fill 4 (headerSize + namesize)).length file
      let (data, file) ← readBytes filesize file
      let (_, file) ← readBytes (fill 4 filesize).length file
      return (⟨.ofNat 32 ino, .ofNat 32 mode, .ofNat 32 uid, .ofNat 32 gid, .ofNat 32 nlink, .ofNat 32 mtime,
        .ofNat 32 volmajor, .ofNat 32 volminor, .ofNat 32 devmajor, .ofNat 32 devminor, .ofNat 32 check, name, data⟩,
        file)
    | _ => none

/-- The members up to the trailer. No member is shorter than its header. -/
def readMembers : Nat → List Byte → Option (List Member)
  | 0, _ => none
  | fuel + 1, file => do
    let (member, file) ← Member.read file
    if member.name.bytes = trailerName then return []
    else
      let members ← readMembers fuel file
      return member :: members

def read (file : List Byte) : Option (List Member) := readMembers (file.length + 1) file

/-! ## What is written is read -/

/-- A member whose sizes fit their numbers -/
structure Member.Fits (member : Member) : Prop where
  data : member.data.length < 2 ^ 32
  name : member.name.bytes.length + 1 < 2 ^ 32

@[simp] theorem readBytes_append {item : List Byte} {count : Nat} (length : item.length = count) (after : List Byte) :
    readBytes count (item ++ after) = some (item, after) := by
  rw [readBytes, ← length, if_pos (by rw [List.length_append]; omega), List.take_left, List.drop_left]

theorem hex_digits (width number : Nat) : (hex width number).all fun char => digitValue char < 16 := by
  induction width generalizing number with
  | zero => rfl
  | succ width hypothesis =>
    have small := Nat.mod_lt number (show 0 < 16 by decide)
    rw [hex, List.all_append, hypothesis, List.all_cons, digit_reads small, List.all_nil]
    simpa using small

theorem readNumber_hex {number : Nat} (fits : number < 2 ^ 32) (after : List Byte) :
    readNumber (hex 8 number ++ after) = some (number, after) := by
  have digits : number < 16 ^ 8 := fits
  have value := scan_hex 8 number 0 []
  rw [List.append_nil, scan, Nat.zero_mul, Nat.zero_add, Nat.mod_eq_of_lt digits] at value
  rw [readNumber, readBytes_append (hex_length 8 number)]
  simp only [Option.bind_eq_bind, Option.bind_some, hex_digits, if_true, value]

theorem readNumbers_hex {numbers : List Nat} (fits : ∀ number ∈ numbers, number < 2 ^ 32) (after : List Byte) :
    readNumbers numbers.length (numbers.flatMap (hex 8) ++ after) = some (numbers, after) := by
  induction numbers with
  | nil => rfl
  | cons number numbers hypothesis =>
    rw [List.flatMap_cons, List.append_assoc, List.length_cons, readNumbers,
      readNumber_hex (fits number List.mem_cons_self)]
    have rest := hypothesis fun later member => fits later (List.mem_cons_of_mem _ member)
    simp only [Option.bind_eq_bind, Option.bind_some, rest]
    rfl

theorem stringOf_append (string : CString) : stringOf (string.bytes ++ [0]) = some string := by
  have before : (string.bytes ++ [0]).dropLast = string.bytes := List.dropLast_concat
  have last : (string.bytes ++ [0]).getLast? = some 0 := List.getLast?_concat
  unfold stringOf
  split
  case isTrue valid => exact congrArg some (by cases string; exact CString.mk.injEq .. |>.mpr before)
  case isFalse invalid => exact absurd ⟨by rw [before]; exact string.terminated, last⟩ invalid

theorem Member.numbers_fit {member : Member} (fits : member.Fits) : ∀ number ∈ member.numbers, number < 2 ^ 32 := by
  intro number found
  simp only [numbers, List.mem_cons, List.not_mem_nil, or_false] at found
  rcases found with rfl | rfl | rfl | rfl | rfl | rfl | rfl | rfl | rfl | rfl | rfl | rfl | rfl
  all_goals first
    | exact fits.data
    | exact fits.name
    | exact BitVec.isLt _

theorem Member.read_append {member : Member} (fits : member.Fits) (after : List Byte) :
    read (member.bytes ++ after) = some (member, after) := by
  have shape : member.bytes ++ after = magic ++ (member.numbers.flatMap (hex 8) ++ ((member.name.bytes ++ [0]) ++
      (fill 4 (headerSize + (member.name.bytes.length + 1)) ++
        (member.data ++ (fill 4 member.data.length ++ after))))) := by
    simp only [bytes, header, List.append_assoc, List.cons_append, List.nil_append, Nat.add_assoc]
  have numbers (after : List Byte) : readNumbers 13 (member.numbers.flatMap (hex 8) ++ after) =
      some (member.numbers, after) := readNumbers_hex (numbers_fit fits) after
  rw [shape, read, readBytes_append (show magic.length = 6 by decide)]
  simp only [Option.bind_eq_bind, Option.bind_some, ne_eq, not_true_eq_false, if_false, numbers]
  refine Option.bind_eq_some_iff.mpr ⟨_, readBytes_append (by rw [List.length_append]; rfl) _, ?_⟩
  refine Option.bind_eq_some_iff.mpr ⟨_, stringOf_append member.name, ?_⟩
  refine Option.bind_eq_some_iff.mpr ⟨_, readBytes_append rfl _, ?_⟩
  refine Option.bind_eq_some_iff.mpr ⟨_, readBytes_append rfl _, ?_⟩
  refine Option.bind_eq_some_iff.mpr ⟨_, readBytes_append rfl _, ?_⟩
  simp only [BitVec.ofNat_toNat, BitVec.setWidth_eq]
  rfl

theorem Member.bytes_positive (member : Member) : 0 < member.bytes.length := by
  rw [bytes, header, magic, List.length_append, List.length_append]
  have start : (ascii "070701").length = 6 := by decide
  omega

/-- Members and a trailer are read as the members before the first one that has the name of a trailer. -/
theorem read_archive {members : List Member} {trailer : Member} (fits : ∀ member ∈ members, member.Fits)
    (trailer_fits : trailer.Fits) (named : trailer.name.bytes = trailerName) (after : List Byte) :
    read (members.flatMap Member.bytes ++ trailer.bytes ++ after) =
      some (members.takeWhile fun member => member.name.bytes ≠ trailerName) := by
  have enough : ∀ fuel, members.length < fuel →
      readMembers fuel (members.flatMap Member.bytes ++ (trailer.bytes ++ after)) =
        some (members.takeWhile fun member => member.name.bytes ≠ trailerName) := by
    induction members with
    | nil =>
      intro fuel more
      obtain ⟨fuel, rfl⟩ := Nat.exists_eq_add_of_lt more
      rw [List.flatMap_nil, List.nil_append]
      exact Option.bind_eq_some_iff.mpr ⟨_, Member.read_append trailer_fits after, if_pos named⟩
    | cons member members hypothesis =>
      intro fuel more
      obtain ⟨fuel, rfl⟩ : ∃ less, fuel = less + 1 := ⟨fuel - 1, by omega⟩
      have rest := hypothesis (fun later found => fits later (List.mem_cons_of_mem _ found)) fuel
        (by rw [List.length_cons] at more; omega)
      rw [List.flatMap_cons, List.append_assoc]
      refine Option.bind_eq_some_iff.mpr ⟨_, Member.read_append (fits member List.mem_cons_self) _, ?_⟩
      by_cases ends : member.name.bytes = trailerName
      · rw [List.takeWhile_cons_of_neg (by simpa using ends)]
        exact if_pos ends
      · rw [List.takeWhile_cons_of_pos (by simpa using ends)]
        exact (if_neg ends).trans (Option.bind_eq_some_iff.mpr ⟨_, rest, rfl⟩)
  have count : members.length ≤ (members.flatMap Member.bytes).length := by
    clear enough fits
    induction members with
    | nil => exact Nat.zero_le _
    | cons member members hypothesis =>
      have positive := member.bytes_positive
      rw [List.flatMap_cons, List.length_append, List.length_cons]
      omega
  rw [read, List.append_assoc]
  exact enough _ (by rw [List.length_append]; omega)

end BotBrew.Archive
