import BotBrew.Cookbook.BuildOrder
import BotBrew.Cookbook.FailureSoundness

/-! Sessions: `botbrew recipe` run again and again, on any recipes of a cookbook. -/

set_option autoImplicit false

namespace BotBrew.Cookbook

inductive Action where
  | build
  | package
  | clean
  | distclean
  | clobber
  deriving DecidableEq

def Action.name : Action → String
  | .build => "build"
  | .package => "package"
  | .clean => "clean"
  | .distclean => "distclean"
  | .clobber => "clobber"

/-- The world as a new run finds it, with a log of its own -/
def World.afresh (world : World) : World := { world with log := [] }

def World.since (world after : World) : World := { after with log := after.log ++ world.log }

/-- The world after runs of `botbrew recipe`, with the log of all of them -/
def session (site : Site) (fuel : Nat) : List (Dir × Action) → World → Option World
  | [], world => some world
  | (dir, action) :: rest, world =>
      (botbrew site fuel dir [action.name] world.afresh).bind fun ending =>
        session site fuel rest (world.since ending.2)

/-! What is packaged -/

def Event.beginsIn (dir : Dir) (event : Event) : Bool := event.begins && event.dir == dir

def Began (dir : Dir) (log : List Event) : Prop := ∃ event ∈ log, event.beginsIn dir

def lastBuild (dir : Dir) (log : List Event) : List Event := log.takeWhile fun event => !event.beginsIn dir

/-- What `opkg-buildyaml` finds in `dir` is the result of a build: `export/.d` is there, and the
last build, if there was one, created it and had no failure. -/
structure Finished (dir : Dir) (older : List Event) (tree : Tree) : Prop where
  marked : (tree exportMark).isSome
  completed : Began dir older → .touched dir 0 ∈ lastBuild dir older
  succeeded : ∀ code, .ran dir false code ∈ lastBuild dir older → code = 0

def PackagesFinished (log : List Event) : Prop :=
  ∀ newer dir item tree older, log = newer ++ .packaged dir item tree :: older → Finished dir older tree

/-- Only what has `export/.d` is packaged, and imported recipes do not fail. -/
def Action.Careful (site : Site) (dir : Dir) (world after : World) : Action → Prop
  | .build => ImportsSucceed dir after.log
  | .package =>
      site.HasRecipe dir → site.isDir [site.root, "repo"] → site.packages dir ≠ [] → Built world dir
  | _ => True

def CarefulSession (site : Site) (fuel : Nat) : List (Dir × Action) → World → Prop
  | [], _ => True
  | (dir, action) :: rest, world =>
      ∀ code after, botbrew site fuel dir [action.name] world.afresh = some (code, after) →
        action.Careful site dir world after ∧ CarefulSession site fuel rest (world.since after)

end BotBrew.Cookbook
