import BotBrew.Device.Ldimport

/-! The links of `unbootstrap.sh`, after any runs of `ldimport`. -/

set_option autoImplicit false

namespace BotBrew.Unbootstrap

open FileSystem Ldimport

section

variable (base : Prefix) (limit : Nat)

/-- The pattern `""|"%(PREFIX)s/lib/"*` -/
def isOwn (files : Files) (item : Text) : Bool :=
  match readlink files limit (systemLib ++ [item]) with
  | none => true
  | some link => base.isLibrary link

def removeLink (files : Files) (item : Text) : Files :=
  if isOwn base limit files item then unlink files (systemLib ++ [item]) else files

/-- The loop over `/system/lib/*` -/
def removeLinks (listing : Path → List Text) (files : Files) : Files :=
  (expand (listing systemLib)).foldl (removeLink base limit) files

def InPrefix (path : Path) : Prop := base.path <+: path ∨ data base.path <+: path

instance (path : Path) : Decidable (InPrefix base path) := inferInstanceAs (Decidable (_ ∨ _))

/-- A change of the prefix: of its libraries or of its mount. `fini.sh` is one, and so is the
removal of the data. -/
def Change (files after : Files) : Prop := ∀ path, ¬InPrefix base path → after path = files path

inductive Action where
  | change (after : Files)
  | ldimport (listing : Path → List Text)

def Action.run (files : Files) : Action → Files
  | .change after => after
  | .ldimport listing => (Ldimport.ldimport base limit listing files).1

/-- What the listings of `*` and the changes may be. -/
def Action.Allowed (files : Files) : Action → Prop
  | .change after => Change base files after
  | .ldimport listing => ∀ directory, ∀ name ∈ listing directory, Shell.isHidden name = false

def Allowed : List Action → Files → Prop
  | [], _ => True
  | action :: actions, files => action.Allowed base files ∧ Allowed actions (action.run base limit files)

def session (actions : List Action) (files : Files) : Files := actions.foldl (Action.run base limit) files

end

end BotBrew.Unbootstrap
