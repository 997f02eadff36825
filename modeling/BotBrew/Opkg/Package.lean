import BotBrew.Opkg.Version

/-! `Package` of `opkg.py`: reading a control file and printing a stanza. -/

set_option autoImplicit false

namespace BotBrew.Opkg

open Text

def lower (text : Text) : Text := text.map Char.toLower

/-- `[\w-]` -/
def isNameChar (char : Char) : Bool := char.isAlphanum || char == '_' || char == '-'

/-- An open file: the lines to come, each with its newline. -/
abbrev File := List Text

/-- What `__getattr__` computes from the package file when it is asked to. -/
structure FileInfo where
  md5 : Text
  size : Nat
  hexdigest : md5 ≠ [] ∧ ∀ char ∈ md5, char.isAlphanum

/-- The instance dictionary `__dict__`, in which `none` is `None`. `md5` and `size`
are not in it until they are set. -/
structure Package where
  dict : Text → Option Text
  md5 : Option Text
  size : Option Nat
  file : Option FileInfo

/-- The names that `__init__` has set when it reads the control file. -/
def attributeNames : List Text :=
  ["package", "version", "parsed_version", "architecture", "maintainer", "source", "description",
    "depends", "provides", "replaces", "conflicts", "recommends", "suggests", "section",
    "filename_header", "file_list", "installed_size", "filename", "isdeb", "file_ext_opk",
    "homepage", "oe", "priority", "tags", "fn"].map String.toList

/-- `Package()` -/
def Package.empty : Package where
  dict name := if name = "version".toList then some "none".toList else none
  md5 := none
  size := none
  file := none

def Package.has_key (pkg : Package) (name : Text) : Bool :=
  name ∈ attributeNames || (name == "md5".toList && pkg.md5.isSome)

def Package.set (pkg : Package) (name value : Text) : Package :=
  if name = "md5".toList then { pkg with md5 := some value }
  else { pkg with dict := Function.update pkg.dict name (some value) }

/-- `re.match(r'([\w-]*?):\s*(.*)', line)` on a line without a newline -/
def header (line : Text) : Option (Text × Text) :=
  match line.dropWhile isNameChar with
  | ':' :: rest => some (line.takeWhile isNameChar, rest.dropWhile isSpace)
  | _ => none

/-- The inner loop: the value with the lines that go on with it, and the lines
from the one that ended it. -/
def continuation (value : Text) : File → Text × File
  | [] => (value, [])
  | line :: rest =>
      if line.head? = some ' ' then continuation (value ++ '\n' :: line) rest
      else (value, line :: rest)

/-- Set the field, or print that it is lost. A size that is no number raises. `int`
would also take a sign and blanks around it, which no index that is printed has. -/
def Package.field (pkg : Package) (name value : Text) : Option (Package × Text) :=
  if name = "size".toList then
    if value.all Char.isDigit then (int value).map fun size => ({ pkg with size := some size }, [])
    else none
  else if name = "md5sum".toList then some ({ pkg with md5 := some value }, [])
  else if pkg.has_key name then some (pkg.set name value, [])
  else some (pkg, "Lost field ".toList ++ name ++ ", ".toList ++ value ++ ['\n'])

theorem continuation_length (value : Text) (lines : File) :
    (continuation value lines).2.length ≤ lines.length := by
  induction lines generalizing value with
  | nil => exact le_rfl
  | cons line rest ih =>
      unfold continuation
      split
      · exact (ih _).trans (Nat.le_succ _)
      · exact le_rfl

/-- The package, what was printed, and the lines that were not read. -/
def Package.read_control (pkg : Package) : File → Option (Package × Text × File)
  | [] => some (pkg, [], [])
  | line :: rest =>
      match header (rstrip line) with
      | none => pkg.read_control rest
      | some (name, value) => do
          let (pkg, printed) ← pkg.field (lower name) (continuation value rest).1
          match _remaining : (continuation value rest).2 with
          | [] => some (pkg, printed, [])
          | next :: more =>
              -- one blank line is consumed at the end of the package
              if next.head? = some '\n' then some (pkg, printed, more)
              else do
                let (pkg, printed', more) ← pkg.read_control (next :: more)
                some (pkg, printed ++ printed', more)
termination_by lines => lines.length
decreasing_by
  · simp
  · have shorter := continuation_length value rest
    rw [_remaining] at shorter
    simpa using Nat.lt_succ_of_le shorter

/-- A file in the package directory: its name, the `control` in it and what
the file system and `md5` say about it. `opkg-build` puts no blank in the name. -/
structure PackageFile where
  basename : Text
  control : Text
  info : FileInfo
  named : basename ≠ [] ∧ ∀ char ∈ basename, isSpace char = false

/-- `Package(filename)`, and what it prints. -/
def Package.init (file : PackageFile) : Option (Package × Text) := do
  let named : Package :=
    { (Package.empty.set "filename".toList file.basename) with file := some file.info }
  let (pkg, printed, _) ← named.read_control (readlines file.control)
  some (pkg, printed)

/-- `str` of an attribute -/
def str (value : Option Text) : Text := value.getD "None".toList

def Package.version (pkg : Package) : Option Text := pkg.dict "version".toList

def Package.compare_version (self ref : Package) : Option Int := do
  let selfversion ← parse_version (← self.version)
  let refversion ← parse_version (← ref.version)
  selfversion.compare refversion

/-- `if value: out = out + label + ": %s\n" % value` -/
def shown (label : String) : Option Text → Text
  | none | some [] => []
  | some value => label.toList ++ ": ".toList ++ value ++ ['\n']

/-- The decimal digits of a number, as `%d` prints them -/
def decimal (number : Nat) : Text := Nat.toDigits 10 number

/-- `self.md5`, computed where it is missing -/
def Package.md5sum (pkg : Package) : Option Text := pkg.md5.or (pkg.file.map FileInfo.md5)

def Package.filesize (pkg : Package) : Nat := (pkg.size.or (pkg.file.map FileInfo.size)).getD 0

/-- `self.name` -/
def Package.self (pkg : Package) (name : String) : Option Text := pkg.dict name.toList

def Package.repr (pkg : Package) : Text :=
  List.flatten
    [shown "Package" (pkg.self "package"), shown "Version" (pkg.self "version"),
      shown "Depends" (pkg.self "depends"), shown "Provides" (pkg.self "provides"),
      shown "Replaces" (pkg.self "replaces"), shown "Conflicts" (pkg.self "conflicts"),
      shown "Suggests" (pkg.self "suggests"), shown "Recommends" (pkg.self "recommends"),
      shown "Section" (pkg.self "section"), shown "Architecture" (pkg.self "architecture"),
      shown "Maintainer" (pkg.self "maintainer"), shown "MD5Sum" pkg.md5sum,
      shown "Size" (if pkg.filesize = 0 then none else some (decimal pkg.filesize)),
      shown "InstalledSize" (pkg.self "installed_size"),
      shown "Filename" (pkg.self "filename"), shown "Source" (pkg.self "source"),
      shown "Description" (pkg.self "description"), shown "OE" (pkg.self "oe"),
      shown "HomePage" (pkg.self "homepage"), shown "Priority" (pkg.self "priority"),
      shown "Tags" (pkg.self "tags"), ['\n']]

end BotBrew.Opkg
