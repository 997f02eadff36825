import BotBrew.FileSystem.Reading
import BotBrew.Opkg.Package
import BotBrew.Text.Fields

/-! `arfile.py`, and the archives that `ar` writes for `opkg-build`. -/

set_option autoImplicit false

namespace BotBrew.Arfile

open Reading

inductive Exception where
  | ioError (errno : Nat) (message : Text)
  | invalidArgument
  | index
  | value
  | assertion
  deriving DecidableEq

/-! ## `FileSection` -/

structure FileSection where
  offset : Nat
  size : Int
  deriving DecidableEq

def orInvalid (place : Option Nat) : Except Exception Nat :=
  match place with
  | some place => .ok place
  | none => .error .invalidArgument

def FileSection.seek (content : Text) (position : Nat) (self : FileSection) (offset whence : Int) :
    Except Exception Nat :=
  if whence = 0 then orInvalid (Reading.seek content position (offset + self.offset) whence)
  else if whence = 1 then orInvalid (Reading.seek content position offset whence)
  else if whence = 2 then orInvalid (Reading.seek content position (self.offset + self.size + offset) 0)
  else .error .assertion

def FileSection.tell (position : Nat) (self : FileSection) : Int := position - self.offset

/-- The size of the section is not asked for. -/
def FileSection.read (content : Text) (position : Nat) (_self : FileSection) (size : Int) : Text :=
  Reading.read content position size

/-! ## `ArFile` -/

/-- `position` is that of `self.f`. The last entry of a name in `directory` comes first. -/
structure ArFile where
  position : Nat
  directory : List (Text × List Text × Nat)
  directoryRead : Bool
  directoryOffset : Int

/-- `__init__`. `none` is an `AssertionError`. -/
def ArFile.init (content : Text) : Option ArFile :=
  if readline content 0 = "!<arch>\n".toList then some ⟨8, [], false, 8⟩ else none

def digits (word : Text) : Option Nat :=
  if word ≠ [] ∧ word.all Char.isDigit then some (Nat.ofDigitChars 10 word 0) else none

/-- `int` of a word without blanks -/
def integer : Text → Option Int
  | '-' :: word => (digits word).map fun number => -number
  | '+' :: word => (digits word).map fun number => number
  | word => (digits word).map fun number => number

/-- `l.replace('%', '').split()`, where `%` stands for the grave accent -/
def descriptor (line : Text) : List Text := Text.fields (line.filter (· ≠ '\x60'))

inductive Scanned where
  | found (place : FileSection)
  | absent
  | raised (exception : Exception)
  | running

def ArFile.enter (self : ArFile) (words : List Text) : ArFile :=
  { self with directory := ((words.headD []).dropLast, words, self.position) :: self.directory }

def sizeOf (words : List Text) : Except Exception Int :=
  match words[5]? with
  | none => .error .index
  | some word =>
    match integer word with
    | none => .error .value
    | some size => .ok size

/-- The rest of a round of the loop in `_scan`, after the line of a header was read -/
def scanMember (content fname line : Text) (next : ArFile → ArFile × Scanned) (self : ArFile) : ArFile × Scanned :=
  match sizeOf (descriptor line) with
  | .error exception => (self, .raised exception)
  | .ok size =>
    if ((descriptor line).headD []).dropLast = fname then
      ({ self.enter (descriptor line) with directoryOffset := self.position + size },
        .found ⟨self.position, size⟩)
    else
      match Reading.seek content self.position (if size % 2 = 0 then size else size + 1) 1 with
      | none => (self.enter (descriptor line), .raised .invalidArgument)
      | some place => next { self.enter (descriptor line) with position := place }

/-- The loop in `_scan` -/
def scan (content fname : Text) : Nat → ArFile → ArFile × Scanned
  | 0, self => (self, .running)
  | fuel + 1, self =>
    match readline content self.position with
    | [] => ({ self with directoryRead := true }, .absent)
    | ['\n'] =>
      match readline content (self.position + 1) with
      | [] => ({ self with position := self.position + 1 }, .absent)
      | line =>
        scanMember content fname line (scan content fname fuel)
          { self with position := self.position + 1 + line.length }
    | line =>
      scanMember content fname line (scan content fname fuel) { self with position := self.position + line.length }

inductive Opened where
  | section (place : FileSection)
  | raised (exception : Exception)
  | running

def notFound (fname : Text) : Opened := .raised (.ioError 2 ("AR member not found: ".toList ++ fname))

/-- `FileSection(self.f, ...)` seeks to the beginning of the section. -/
def ArFile.section (self : ArFile) (place : FileSection) : ArFile × Opened :=
  ({ self with position := place.offset }, .section place)

/-- What `open` makes of the end of `_scan` -/
def ArFile.scanned (fname : Text) (self : ArFile) : Scanned → ArFile × Opened
  | .found place => self.section place
  | .absent => (self, notFound fname)
  | .raised exception => (self, .raised exception)
  | .running => (self, .running)

def ArFile.open (content : Text) (self : ArFile) (fname : Text) : ArFile × Opened :=
  match self.directory.lookup fname with
  | some (words, offset) =>
    match sizeOf words with
    | .error exception => (self, .raised exception)
    | .ok size => self.section ⟨offset, size⟩
  | none =>
    if self.directoryRead then (self, notFound fname)
    else
      match Reading.seek content self.position self.directoryOffset 0 with
      | none => (self, .raised .invalidArgument)
      | some place =>
        ArFile.scanned fname (scan content fname (content.length + 1) { self with position := place }).1
          (scan content fname (content.length + 1) { self with position := place }).2

/-! ## What `ar` writes -/

/-- A field of a header. `ar` fills it with blanks. -/
def padded (width : Nat) (word : Text) : Text := word ++ List.replicate (width - word.length) ' '

/-- `%ld` -/
def signed (number : Int) : Text :=
  if number < 0 then '-' :: Opkg.decimal number.natAbs else Opkg.decimal number.natAbs

/-- A member whose numbers fit the fields of its header -/
structure Member where
  name : Text
  modified : Int
  owner : Nat
  group : Nat
  mode : Nat
  content : Text
  named : name ≠ [] ∧ name.length < 15 ∧ ∀ char ∈ name, Text.isSpace char = false ∧ char ≠ '\x60'
  modified_fits : (signed modified).length ≤ 12
  owner_fits : (Opkg.decimal owner).length ≤ 6
  group_fits : (Opkg.decimal group).length ≤ 6
  mode_fits : (Nat.toDigits 8 mode).length < 8
  size_fits : (Opkg.decimal content.length).length ≤ 10

def Member.header (member : Member) : Text :=
  padded 16 (member.name ++ ['/']) ++ padded 12 (signed member.modified) ++ padded 6 (Opkg.decimal member.owner) ++
    padded 6 (Opkg.decimal member.group) ++ padded 8 (Nat.toDigits 8 member.mode) ++
    padded 10 (Opkg.decimal member.content.length) ++ ['\x60']

/-- The newline that makes the size of a member even -/
def Member.padding (member : Member) : Text := if member.content.length % 2 = 0 then [] else ['\n']

def Member.archived (member : Member) : Text := member.header ++ '\n' :: (member.content ++ member.padding)

def magic : Text := "!<arch>\n".toList

def archive (members : List Member) : Text := magic ++ members.flatMap Member.archived

/-- A package file of `opkg-build` -/
structure PackageFile where
  binary : Member
  data : Member
  control : Member
  binary_name : binary.name = "debian-binary".toList
  data_name : data.name = "data.tar.gz".toList
  control_name : control.name = "control.tar.gz".toList

def PackageFile.members (package : PackageFile) : List Member := [package.binary, package.data, package.control]

def PackageFile.content (package : PackageFile) : Text := archive package.members

end BotBrew.Arfile
