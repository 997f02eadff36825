import BotBrew.Digraph.Faithful
import BotBrew.Listing.Recipes
import BotBrew.Text.Fields

/-! `botbrew_graphbuild` and `botbrew_graphinstall`. -/

set_option autoImplicit false

namespace BotBrew.Listing

/-- `NAME_`: the name with each `-` and `.` replaced by `_` -/
def mangle (name : Text) : Text :=
  name.map fun char => if char = '-' ∨ char = '.' then '_' else char

/-- A statement of the digraph: `ident [label="label"];` or `source -> target;`. -/
inductive Statement where
  | node (ident label : Text)
  | edge (source target : Text)
  deriving DecidableEq

def Statement.asEdge : Statement → Option (Text × Text)
  | .node _ _ => none
  | .edge source target => some (source, target)

def edges (graph : List Statement) : List (Text × Text) := graph.filterMap Statement.asEdge

def Recipe.label (recipe : Recipe) (vars : Vars) : Text :=
  if vars.PACKAGE_VERSION ≠ "0".toList then recipe.name ++ '-' :: vars.PACKAGE_VERSION
  else recipe.name

def graphbuildFrom (vars : Vars) : List Recipe → List Statement
  | [] => []
  | recipe :: rest =>
      let vars := recipe.source vars
      .node (mangle recipe.name) (recipe.label vars) ::
        vars.PACKAGE_DEPEND.map (fun dep => .edge (mangle recipe.name) (mangle dep)) ++
        graphbuildFrom vars rest

def botbrew_graphbuild (book : Cookbook) : List Statement := graphbuildFrom .unset book.recipes

structure PackageFile where
  Package : Text
  Version : Text
  Section : Text
  Depends : Option Text

/-- `.replace(',',' ').split()` -/
def splitDepends (depends : Text) : List Text :=
  Text.fields (depends.map fun char => if char = ',' then ' ' else char)

/-- `if pkg['Section'] in ('libdevel','doc')` -/
def PackageFile.drawn (pkg : PackageFile) : Bool :=
  pkg.Section ≠ "libdevel".toList && pkg.Section ≠ "doc".toList

def PackageFile.statements (pkg : PackageFile) : List Statement :=
  if pkg.drawn then
    .node (mangle pkg.Package) (pkg.Package ++ '-' :: pkg.Version) ::
      (splitDepends (pkg.Depends.getD [])).map fun dep => .edge (mangle pkg.Package) (mangle dep)
  else []

def botbrew_graphinstall (files : List PackageFile) : List Statement :=
  files.flatMap PackageFile.statements

/-- The identifier of a name: that of the node of its recipe, or that of an edge
to it where it has none. -/
def Cookbook.ident (book : Cookbook) (name : Text) : Text :=
  match book.recipes.find? fun recipe => recipe.address = name with
  | some recipe => mangle recipe.name
  | none => mangle name

/-- A recipe has the other one in its own `PACKAGE_DEPEND`. -/
def Cookbook.Depends (book : Cookbook) (source target : Text) : Prop :=
  ∃ recipe ∈ book.recipes, recipe.address = source ∧ target ∈ recipe.own

def Cookbook.names (book : Cookbook) : Set Text :=
  { name | ∃ recipe ∈ book.recipes, name = recipe.address ∨ name ∈ recipe.own }

/-- The names that a `Depends` field lists: between its commas, up to a version
constraint or an alternative. -/
def namedIn (depends : Text) : List Text :=
  (depends.splitOnP (· == ',')).flatMap fun clause =>
    Text.fields (clause.takeWhile fun char => char ≠ '(' && char ≠ '|')

/-- A drawn package names the other one in its `Depends` field. -/
def DependsOn (files : List PackageFile) (source target : Text) : Prop :=
  ∃ pkg ∈ files, pkg.drawn = true ∧ pkg.Package = source ∧ target ∈ namedIn (pkg.Depends.getD [])

def packageNames (files : List PackageFile) : Set Text :=
  { name | ∃ pkg ∈ files, pkg.drawn = true ∧
    (name = pkg.Package ∨ name ∈ namedIn (pkg.Depends.getD [])) }

end BotBrew.Listing
