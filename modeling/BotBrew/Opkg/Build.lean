import BotBrew.Opkg.Buildyaml
import BotBrew.Shell.Words

/-! `opkg-build`: the checks of the control file and the name of the archive. -/

set_option autoImplicit false

namespace BotBrew.Opkg.Build

open Shell

/-- The package directory. `glob` is the pathname expansion in it. -/
structure Directory where
  control : Text
  regular : Text → Bool
  executable : Text → Bool
  conffiles : Option Text
  glob : Text → List Text

def lines (text : Text) : List Text := text.splitOnP (· == '\n')

/-- `s/^[^:]*:[[:space:]]*//` on a line -/
def opkg_extract_value (line : Text) : Text :=
  match line.dropWhile (· ≠ ':') with
  | [] => line
  | _ :: rest => rest.dropWhile Text.isSpace

/-- `grep "^$field:"`. A file with a zero byte is a binary one. -/
def grepField (control field : Text) : List Text :=
  let found := (lines control).filter fun line => field ++ [':'] <+: line
  if '\x00' ∈ control ∧ found ≠ [] then ["Binary file (standard input) matches".toList] else found

/-- `value` in `required_field` and `disallowed_field` -/
def fieldText (control field : Text) : Text :=
  substitution ((grepField control field).flatMap fun line => opkg_extract_value line ++ ['\n'])

/-- The output, or nothing where the status is 1 -/
def required_field (directory : Directory) (field : Text) : Option Text :=
  if fieldText directory.control field = [] then none
  else some (echo (words directory.glob (fieldText directory.control field)))

/-- Whether the status is 0 -/
def disallowed_field (directory : Directory) (field : Text) : Bool :=
  fieldText directory.control field = []

def sed (command : Text → Text) (text : Text) : Text :=
  ['\n'].intercalate ((lines text).map command)

def removeFirst (pattern : Text) : Text → Text
  | [] => []
  | char :: text =>
      if pattern <+: char :: text then (char :: text).drop pattern.length
      else char :: removeFirst pattern text

/-- `s/^.://g` -/
def removeEpoch (line : Text) : Text :=
  match line with
  | _ :: ':' :: rest => rest
  | _ => line

/-- `s/Version://; s/^.://g;` -/
def rewriteVersion (line : Text) : Text := removeEpoch (removeFirst "Version:".toList line)

structure Names where
  pkg : Text
  version : Text
  arch : Text
  deriving DecidableEq

/-- The status of the pipeline for the version is that of `sed`. -/
def names (directory : Directory) : Names where
  pkg := substitution ((required_field directory "Package".toList).getD [])
  version := substitution
    (sed rewriteVersion ((required_field directory "Version".toList).getD []))
  arch := substitution ((required_field directory "Architecture".toList).getD [])

def checked : List Text :=
  ["Package".toList, "Architecture".toList, "Maintainer".toList, "Description".toList,
    "Section".toList, "Priority".toList, "Source".toList]

/-- `[a-z0-9.+-]` -/
def isLegal (char : Char) : Bool :=
  char.isLower || char.isDigit || char == '.' || char == '+' || char == '-'

/-- `echo $pkg | grep '[^a-z0-9.+-]'` finds nothing. -/
def legalName (directory : Directory) : Bool :=
  (echo (words directory.glob (names directory).pkg)).all fun char => char == '\n' || isLegal char

def isNameChar (char : Char) : Bool := char != ':' && !Text.isSpace char

/-- `^\([^[:space:]][^:[:space:]]\+[[:space:]]\+\)[^:].*` -/
def isBad (line : Text) : Bool :=
  match line with
  | [] => false
  | first :: rest =>
      !Text.isSpace first && rest.takeWhile isNameChar ≠ [] &&
        match rest.dropWhile isNameChar with
        | [] => false
        | blank :: after =>
            Text.isSpace blank &&
              match after with
              | [] => false
              | next :: _ => next != ':'

def scripts : List Text :=
  ["preinst".toList, "postinst".toList, "prerm".toList, "postrm".toList].map ("CONTROL/".toList ++ ·)

def scriptsExecutable (directory : Directory) : Bool :=
  scripts.all fun script => !directory.regular script || directory.executable script

/-- `[ ! -f ./$cf ]`, which `[` takes for false when there are several words -/
def missing (directory : Directory) (cf : Text) : Bool :=
  match words directory.glob ("./".toList ++ cf) with
  | [path] => !directory.regular path
  | _ => false

def conffilesExist (directory : Directory) : Bool :=
  match directory.conffiles with
  | none => true
  | some conffiles => (words directory.glob (substitution conffiles)).all fun cf =>
      !missing directory cf

/-- Whether the status is 0 -/
def pkg_appears_sane (directory : Directory) : Bool :=
  checked.all (fun field => (required_field directory field).isSome) &&
    disallowed_field directory "Filename".toList && legalName directory &&
    !(lines directory.control).any isBad && scriptsExecutable directory && conffilesExist directory

/-- The directory for the archive, the pathname expansion in the temporary directory, and
whether `ar` with the words of `$pkg_file` and all the other commands succeed. -/
structure Archiver where
  dest_dir : Text
  glob : Text → List Text
  succeeds : List Text → Bool

structure Archive where
  names : Names
  path : Text
  deriving DecidableEq

def pkg_file (dest_dir : Text) (names : Names) : Text :=
  dest_dir ++ '/' :: names.pkg ++ '_' :: names.version ++ '_' :: names.arch ++ ".opk".toList

/-- `opkg-build -O`: the archive where the status is 0 -/
def opkg_build (directory : Directory) (archiver : Archiver) : Option Archive :=
  if pkg_appears_sane directory then
    match words archiver.glob (pkg_file archiver.dest_dir (names directory)) with
    | [] => none
    | path :: members =>
        if archiver.succeeds (path :: members) then some ⟨names directory, path⟩ else none
  else none

/-- `opkg-buildyaml` from the control file on, for the fields in their order -/
def opkg_buildyaml (OPKG_MAINTAINER : Option Text) (metadata : Metadata) (directory : Directory)
    (archiver : Archiver) : Option Archive :=
  opkg_build { directory with control := controlText (setMaintainer OPKG_MAINTAINER metadata) }
    archiver

/-- The value of a field without the blanks around it -/
def fieldValue (control field : Text) : Text :=
  ((fieldText control field).dropWhile isSeparator).rdropWhile isSeparator

/-- A line of the field that is not blank after the colon -/
def HasField (control field : Text) : Prop :=
  ∃ rest, field ++ ':' :: rest ∈ lines control ∧ ∃ char ∈ rest, Text.isSpace char = false

/-- A version without a number and a colon in front -/
def withoutEpoch (version : Text) : Text :=
  match version.dropWhile Char.isDigit with
  | ':' :: rest => if version.takeWhile Char.isDigit = [] then version else rest
  | _ => version

def mandatory : List Text := "Version".toList :: checked

/-- What a package has that leaves the packager. -/
structure Complete (control dest_dir : Text) (archive : Archive) : Prop where
  fields : ∀ field ∈ mandatory, HasField control field
  noFilename : ∀ line ∈ lines control, ¬ "Filename:".toList <+: line
  legal : ∀ char ∈ fieldValue control "Package".toList, isLegal char = true
  named : archive.names = ⟨fieldValue control "Package".toList,
    withoutEpoch (fieldValue control "Version".toList), fieldValue control "Architecture".toList⟩
  path : archive.path = pkg_file dest_dir archive.names

end BotBrew.Opkg.Build
