import Mathlib.Data.Char
import Mathlib.Data.List.Lex
import Mathlib.Data.List.Sort
import BotBrew.Opkg.Buildyaml
import BotBrew.Opkg.Packages

/-! The `Packages` text of `botbrew_make_repo_index`, and the reader for it. -/

set_option autoImplicit false

namespace BotBrew.Opkg

open Text

/-- `if not self.version: print 'No version for package %s' % self.package` -/
def Package.noVersion (pkg : Package) : Text :=
  match pkg.version with
  | none | some [] => "No version for package ".toList ++ pkg.name ++ ['\n']
  | some _ => []

/-- What `add_package` prints when it compares the versions. -/
def Packages.compared (packages : Packages) (pkg : Package) : Text :=
  pkg.noVersion ++ ((packages.lookup pkg.key).getD pkg).noVersion

def Packages.addFiles (packages : Packages) : List PackageFile → Option (Packages × Text)
  | [] => some (packages, [])
  | file :: files => do
      let (pkg, lost) ← Package.init file
      let compared := packages.compared pkg
      let (packages, _) ← packages.add_package pkg
      let (packages, printed) ← packages.addFiles files
      some (packages, lost ++ compared ++ printed)

/-- `names = packages.packages.keys(); names.sort()` -/
def Packages.names (packages : Packages) : List Text := packages.keys.insertionSort (· ≤ ·)

def Packages.entries (packages : Packages) : List Package := packages.names.filterMap packages.lookup

/-- `print pkg` -/
def Package.printed (pkg : Package) : Text := pkg.repr ++ ['\n']

/-- What `opkg-make-index . > Packages` leaves in the file. -/
def indexText (printed : Text) (packages : Packages) : Text :=
  printed ++ packages.entries.flatMap Package.printed

theorem read_control_length (size : Nat) (pkg pkg' : Package) (printed : Text) (lines rest : File)
    (bound : lines.length ≤ size)
    (ran : pkg.read_control lines = some (pkg', printed, rest)) :
    rest.length ≤ lines.length - 1 := by
  induction size generalizing pkg pkg' printed lines rest with
  | zero =>
      obtain rfl := List.length_eq_zero_iff.mp (Nat.le_zero.mp bound)
      rw [Package.read_control] at ran
      cases ran
      simp
  | succ size ih =>
      cases lines with
      | nil =>
          rw [Package.read_control] at ran
          cases ran
          simp
      | cons line lines =>
          have short : lines.length ≤ size := by simpa using bound
          rw [Package.read_control] at ran
          split at ran
          · have inner := ih _ _ _ _ _ short ran
            simp only [List.length_cons, Nat.add_sub_cancel]
            omega
          · rename_i name value _
            have more := continuation_length value lines
            obtain ⟨⟨middle, first⟩, -, ran⟩ := Option.bind_eq_some_iff.mp ran
            dsimp only at ran
            split at ran
            · cases ran
              simp
            · rename_i next others remaining
              rw [remaining] at more
              simp only [List.length_cons, Nat.add_sub_cancel] at more ⊢
              split at ran
              · cases ran
                omega
              · obtain ⟨⟨final, second, others'⟩, ran', shown⟩ := Option.bind_eq_some_iff.mp ran
                obtain ⟨-, -, rfl⟩ : _ ∧ _ ∧ others' = rest := by simpa using shown
                have inner := ih _ _ _ _ _ (by simpa using more.trans short) ran'
                simp only [List.length_cons, Nat.add_sub_cancel] at inner
                omega

/-- `pkg.get_package()` is a string with a character. -/
def Package.isNamed (pkg : Package) : Bool := (pkg.dict "package".toList).any (· ≠ [])

theorem read_control_decreases {pkg : Package} {printed : Text} {lines rest : File}
    (ran : Package.empty.read_control lines = some (pkg, printed, rest)) (named : pkg.isNamed) :
    rest.length < lines.length := by
  cases lines with
  | nil =>
      rw [Package.read_control] at ran
      cases ran
      exact absurd named (by decide)
  | cons line lines =>
      have shorter := read_control_length _ _ _ _ _ _ le_rfl ran
      simp only [List.length_cons, Nat.add_sub_cancel] at shorter ⊢
      omega

/-- The lines of the file are read package after package, up to one without a name. -/
def Packages.read_packages_file (packages : Packages) (lines : File) : Option Packages :=
  match _ran : Package.empty.read_control lines with
  | none => none
  | some (pkg, _, rest) =>
    if _named : pkg.isNamed then do
      let (packages, _) ← packages.add_package pkg
      packages.read_packages_file rest
    else some packages
termination_by lines.length
decreasing_by exact read_control_decreases _ran _named

/-- A package that `opkg-buildyaml` wrote and `opkg-build` took: it has the
required fields. `fn` and `md5` are attributes of `Package`, but no control fields. -/
structure Build where
  fields : Metadata
  file : PackageFile
  valid : fields.Valid
  written : file.control = controlText fields
  required : ∀ name ∈ ["Package", "Version", "Architecture"], ∃ value,
    (name.toList, value) ∈ fields ∧ strip (cut (cleaned value)).1 ≠ []
  internal : ∀ field ∈ fields, lower field.1 ≠ "fn".toList ∧ lower field.1 ≠ "md5".toList

end BotBrew.Opkg
