import Mathlib.Data.List.Infix
import BotBrew.Text.Fields

/-! The architectures that the `postinst` of `opkg.yml` registers in `arch.conf`. -/

set_option autoImplicit false

namespace BotBrew.Opkg.ArchConf

/-- `arch.conf.opkg-new` -/
def packaged : Text := "arch\tall\t\t10\narch\tany\t\t20\narch\tnoarch\t30\n".toList

/-- An argument that starts with a dash is an option, unless it is the dash alone. -/
def isOption (value : Text) : Bool := value.head? == some '-' && value != ['-']

section

/- What `grep -Fq OPTION arch.conf` answers: the name of the file is then the pattern,
and the standard input is searched. -/
variable (option : Text → Bool)

/-- `grep -Fq "$value" arch.conf` -/
def grep (value conf : Text) : Bool :=
  if isOption value then option value
  else (Text.lines conf).any fun line => decide (value <:+: line)

/-- `arch\t$value\t<priority>` -/
def archLine (value priority : Text) : Text := "arch\t".toList ++ value ++ '\t' :: priority

/-- `if ! grep -Fq "$value" arch.conf; then echo "arch\t$value\t<priority>" >> arch.conf; fi` -/
def register (conf : Text) (entry : Text × Text) : Text :=
  if grep option entry.1 conf then conf else conf ++ (archLine entry.1 entry.2 ++ ['\n'])

/-- What `getprop` prints for the three properties. -/
structure DeviceProperties where
  abi2 : Text
  abi : Text
  device : Text
  visible : ∀ value ∈ [abi2, abi, device], ∀ char ∈ value, Text.isSpace char = false

/-- `tr '[:upper:]' '[:lower:]'` -/
def lower (value : Text) : Text := value.map Char.toLower

def DeviceProperties.entries (props : DeviceProperties) : List (Text × Text) :=
  [(lower props.abi2, "100".toList), (lower props.abi, "110".toList),
    (lower props.device, "120".toList)]

def registerAll (conf : Text) (entries : List (Text × Text)) : Text :=
  entries.foldl (register option) conf

/-- `arch.conf` after the script. A file that is absent is taken from the package. -/
def postinst (props : DeviceProperties) (conf : Option Text) : Text :=
  registerAll option (conf.getD packaged) props.entries

end

/-- The line is `arch <value> <priority>`. -/
def isArchLine (value line : Text) : Bool :=
  match Text.fields line with
  | [word, name, _] => word == "arch".toList && name == value
  | _ => false

def archLines (value conf : Text) : List Text := (Text.lines conf).filter (isArchLine value)

/-- The registration of the claim: every value has its one line, no line is lost, and a
second run changes nothing. -/
structure Registers (option : Text → Bool) (props : DeviceProperties) (conf : Option Text) :
    Prop where
  one : ∀ entry ∈ props.entries, entry.1 ≠ [] → (archLines entry.1 (conf.getD [])).length ≤ 1 →
    (archLines entry.1 (postinst option props conf)).length = 1
  kept : (Text.lines (conf.getD [])).Sublist (Text.lines (postinst option props conf))
  again : postinst option props (some (postinst option props conf)) = postinst option props conf

/-- Where `grep` finds a value, the value has a line of its own; where it finds none,
the file is closed. -/
def Separate (option : Text → Bool) : Text → List (Text × Text) → Prop
  | _, [] => True
  | conf, entry :: rest =>
      (if grep option entry.1 conf then entry.1 ≠ [] → archLines entry.1 conf ≠ []
        else isOption entry.1 = false ∧ Text.Closed conf) ∧
      Separate option (register option conf entry) rest

end BotBrew.Opkg.ArchConf
