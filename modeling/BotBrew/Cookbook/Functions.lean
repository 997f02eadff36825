import BotBrew.Cookbook.Basic

/-! The shell functions of `botbrew` that a recipe run goes through.

A function is looked up by its name when it is called, as bash does, so a
recipe that redefines a name changes every later call of it in its subshell and
in the subshells below. -/

set_option autoImplicit false

namespace BotBrew.Cookbook

open Shell Shell.Script

/-- How the script calls a function: by its name, with arguments. -/
abbrev Call := String → List String → Script

def reading (script : Machine → Script) : Script :=
  fun errexit machine => script machine errexit machine

/-- `[ ... ]` in the current directory. -/
def test (condition : Vars → Tree → Bool) : Script :=
  simple fun machine =>
    (if condition machine.locals.env.vars (machine.world.tree machine.locals.cwd) then 0 else 1,
      machine)

/-- `type name` -/
def typeOf (name : String) : Script :=
  simple fun machine => (if (machine.locals.env.funs name).isSome then 0 else 127, machine)

def external (site : Site) (effect : Vars → Outcome → Tree → Tree) : Script :=
  simple fun machine =>
    let outcome := site.outcome machine.world.clock
    (outcome.code,
      { machine with
        world := machine.world.tick.update machine.locals.cwd
          (effect machine.locals.env.vars outcome) })

def mkdir (site : Site) : Script :=
  simple fun machine =>
    ((site.outcome machine.world.clock).code, { machine with world := machine.world.tick })

def touchPath (path : Path) (tree : Tree) : Tree :=
  Function.update tree path (some ((tree path).getD ""))

/-- `touch ${G_EXPORT}/.d` -/
def touchExport (site : Site) : Script :=
  reading fun machine =>
    let outcome := site.outcome machine.world.clock
    simple fun _ =>
      (outcome.code,
        { machine with
          world := (machine.world.tick.update machine.locals.cwd fun tree =>
            if outcome.code = 0 then
              touchPath [machine.locals.env.vars.scalar "G_EXPORT", ".d"] tree
            else tree).record (.touched machine.locals.cwd outcome.code) })

/-- `touch ${DST}/.import.${item}` -/
def touchImport (site : Site) (dst item : String) : Script :=
  external site fun _ outcome tree =>
    if outcome.code = 0 then touchPath [dst, ".import." ++ item] tree else tree

/-- What `cp -rlf <src>/* <dst>/` leaves: files below a visible name replace
those of the destination. A failing copy has done a part of them. -/
def copyTree (src dst : String) (outcome : Outcome) (exported into : Tree) : Tree
  | top :: first :: rest =>
      if top = dst ∧ visible first ∧ (outcome.code = 0 ∨ outcome.progress (first :: rest)) then
        (exported (src :: first :: rest)).or (into (top :: first :: rest))
      else into (top :: first :: rest)
  | path => into path

/-- `cp -rlf ${G_ROOT}/${G_COOKBOOK}/${item}/${G_EXPORT}/* ${DST}/` -/
def copyExport (site : Site) (dst item : String) : Script :=
  reading fun machine =>
    let outcome := site.outcome machine.world.clock
    let vars := machine.locals.env.vars
    let exported := machine.world.tree (vars.itemDir item)
    let copied := machine.world.tick.update machine.locals.cwd
      (copyTree (vars.scalar "G_EXPORT") dst outcome exported)
    simple fun _ =>
      (outcome.code,
        { machine with
          world := if outcome.code = 0 then
              copied.record (.copied machine.locals.cwd item exported)
            else copied })

def cd (site : Site) (target : Vars → Dir) : Script :=
  simple fun machine =>
    let dir := target machine.locals.env.vars
    if site.isDir dir then (0, { machine with locals := { machine.locals with cwd := dir } })
    else (1, machine)

def setVar (name : String) (value : Value) (locals : Locals) : Locals :=
  { locals with env := locals.env.set name value }

/-! botbrew_import -/

-- cp and touch, like the nested build, are not the last element of the list:
-- errexit is off in all of them, and only `return 1` reports a failure.
def importItem (site : Site) (call : Call) (dst item : String) : Script :=
  seq (setLocals (setVar "item" [item]))
    (ifElse (test fun _ tree => (tree [dst, ".import." ++ item]).isSome) pass
      (orIf
        (andIf
          (andIf
            (subshell (andIf (cd site fun vars => vars.itemDir item)
              (call "botbrew_recipe" ["build"])))
            (copyExport site dst item))
          (touchImport site dst item))
        (returnWith 1)))

def botbrew_import (site : Site) (call : Call) (args : List String) : Script :=
  reading fun machine =>
    let vars := machine.locals.env.vars
    let dst := if args.headD "" = "" then vars.scalar "G_IMPORT" else args.headD ""
    let dep := if args.headD "" = "" then vars "PACKAGE_DEPEND" else args.tail
    withLocals (fun locals => setVar "DEP" dep (setVar "DST" [dst] locals))
      (seq (mkdir site) (forEach dep (importItem site call dst)))

/-! botbrew_recipe -/

/-- The functions that `botbrew_recipe` unsets before it sources a recipe. -/
def hooks : List String :=
  ["botbrew_do_query", "botbrew_do_build", "botbrew_do_package", "botbrew_do_clean",
    "botbrew_do_distclean", "botbrew_do_clobber", "botbrew_do_isbuilt"]

/-- The assignments that `botbrew_recipe` makes before it sources a recipe. -/
def resetVars (cwd : Dir) (env : Env) : Env :=
  let pwd := "/".intercalate cwd
  let sysdir := pwd ++ "/" ++ env.vars.scalar "G_IMPORT_PREFIX"
  let exp_sysdir := pwd ++ "/" ++ env.vars.scalar "G_EXPORT_PREFIX"
  [("G_WORKDIR", [pwd]), ("G_SYSDIR", [sysdir]), ("G_BINDIR", [sysdir ++ "/bin"]),
    ("G_LIBDIR", [sysdir ++ "/lib"]), ("G_INCDIR", [sysdir ++ "/include"]),
    ("G_EXP_SYSDIR", [exp_sysdir]), ("G_EXP_BINDIR", [exp_sysdir ++ "/bin"]),
    ("G_EXP_LIBDIR", [exp_sysdir ++ "/lib"]), ("G_EXP_INCDIR", [exp_sysdir ++ "/include"]),
    ("PACKAGE_NAME", [""]), ("PACKAGE_VERSION", [""]), ("PACKAGE_DEPEND", []),
    ("G_BOTBREW", ["1"])].foldl (fun env row => env.set row.1 row.2) env

def reset (cwd : Dir) (env : Env) : Env :=
  hooks.foldl (fun env name => env.unset name) (resetVars cwd env)

/-- The loop that prints the dependencies, of which only the variable stays. -/
def listDepends (env : Env) : Env :=
  ((env.vars "PACKAGE_DEPEND").map fun item => ("i", [item])).foldl (fun env row => env.set row.1 row.2) env

/-- Reset, then source the recipe and print what it says of the package. -/
def enter (recipe : Recipe) (locals : Locals) : Locals :=
  { locals with env := listDepends (recipe.source locals.cwd (reset locals.cwd locals.env)) }

def dispatch (call : Call) (action : String) (args : List String) : Script :=
  ifElse (typeOf ("botbrew_do_" ++ action)) (call ("botbrew_do_" ++ action) args)
    (call ("_botbrew_do_" ++ action) args)

def actions : List String := ["query", "build", "package", "clean", "distclean", "clobber"]

def perform (call : Call) (action : String) (args : List String) : Script :=
  if action ∈ actions then
    seq
      (if action = "build" then
        ifElse (typeOf "botbrew_do_isbuilt")
          (ifElse (call "botbrew_do_isbuilt" args) (exitWith 0) pass)
          (ifElse (call "_botbrew_do_isbuilt" args) (exitWith 0) pass)
      else pass)
      -- the last command is the echo that reports success
      (seq (dispatch call action args) pass)
  else pass

def botbrew_recipe (site : Site) (call : Call) (args : List String) : Script :=
  reading fun machine =>
    match site.recipe machine.locals.cwd (machine.locals.env.vars.scalar "G_RECIPE") with
    | some recipe =>
        withLocals (setVar "PACKAGE_ACTION" [args.headD ""])
          (subshell (seq (setLocals (enter recipe)) (perform call (args.headD "") args.tail)))
    | none => returnWith 1

/-! The default action functions -/

def removeTops (tops : List String) (outcome : Outcome) (tree : Tree) : Tree
  | [] => tree []
  | top :: rest =>
      if top ∈ tops ∧ (outcome.code = 0 ∨ outcome.progress (top :: rest)) then none
      else tree (top :: rest)

/-- `rm -rf` of directories named by variables -/
def remove (site : Site) (names : List String) : Script :=
  external site fun vars outcome => removeTops (names.map vars.scalar) outcome

def _botbrew_do_isbuilt : Script :=
  ifElse (test fun vars tree => (tree [vars.scalar "G_EXPORT", ".d"]).isSome)
    (returnWith 0) (returnWith 1)

/-- `cat "${item}" | opkg-buildyaml "${CWD}"` -/
def buildyaml (site : Site) (cwd : Dir) (item : String) : Script :=
  simple fun machine =>
    ((site.outcome machine.world.clock).code,
      { machine with
        world := machine.world.tick.record (.packaged cwd item (machine.world.tree cwd)) })

def _botbrew_do_package (site : Site) : Script :=
  reading fun machine =>
    let cwd := machine.locals.cwd
    subshell (seq (setLocals (setVar "CWD" ["/".intercalate cwd]))
      (seq (cd site fun vars => [vars.scalar "G_ROOT", vars.scalar "G_REPO"])
        (forEach (site.packages cwd) (buildyaml site cwd))))

-- make works below the object directory
def _botbrew_do_clean (site : Site) : Script :=
  ifElse (test fun vars tree => (tree [vars.scalar "G_OBJECT", "Makefile"]).isSome)
    (external site fun vars outcome tree path =>
      if path.head? = some (vars.scalar "G_OBJECT") then site.make_clean vars outcome tree path
      else tree path)
    pass

def _botbrew_do_distclean (site : Site) : Script := remove site ["G_OBJECT", "G_IMPORT"]

def _botbrew_do_clobber (site : Site) : Script :=
  remove site ["G_SOURCE", "G_OBJECT", "G_IMPORT", "G_EXPORT"]

/-! Function bodies and calls -/

/-- Log the status of a command of a body, and apply its `|| true`. -/
def report (guarded : Bool) (command : Script) : Script :=
  guardedBy guarded fun errexit machine =>
    match command errexit machine with
    | none => none
    | some (flow, after) =>
        some (flow, record (.ran machine.locals.cwd guarded flow.status) after)

def runCommand (site : Site) (call : Call) : Command → Script
  | .external guarded effect => report guarded (external site effect.run)
  | .touchMark => report false (touchExport site)
  | .call guarded name args => report guarded (call name args)

def runCommands (site : Site) (call : Call) (commands : List Command) : Script :=
  match commands with
  | [] => pass
  | [command] => runCommand site call command
  | command :: rest => seq (runCommand site call command) (runCommands site call rest)

/-- Log the call and, unless the shell is left, the return of a function. -/
def logged (name : String) (body : Script) : Script := fun errexit machine =>
  match body errexit (record (.called machine.locals.cwd name) machine) with
  | none => none
  | some (.exit code, after) => some (.exit code, after)
  | some (flow, after) =>
      some (flow, record (.returned machine.locals.cwd name
        (after.world.tree machine.locals.cwd)) after)

def runFun (site : Site) (call : Call) (name : String) (args : List String) : Fun → Script
  | .body commands => logged name (runCommands site call commands)
  | .botbrew_import => logged name (botbrew_import site call args)
  | .botbrew_recipe => botbrew_recipe site call args
  | .do_query => pass
  | .do_build => pass
  | .do_package => _botbrew_do_package site
  | .do_clean => _botbrew_do_clean site
  | .do_distclean => _botbrew_do_distclean site
  | .do_clobber => _botbrew_do_clobber site
  | .do_isbuilt => _botbrew_do_isbuilt

/-- Call a function by its name. The fuel bounds the depth of calls. -/
def call (site : Site) : Nat → Call
  | 0, _, _ => fun _ _ => none
  | fuel + 1, name, args =>
      reading fun machine =>
        match machine.locals.env.funs name with
        | some body => function (runFun site (call site fuel) name args body)
        | none => simple fun machine => (127, machine)

/-- `botbrew recipe <args>` started in a directory: the exit status of the
script and the world it leaves. -/
def botbrew (site : Site) (fuel : Nat) (dir : Dir) (args : List String) (world : World) :
    Option (Status × World) :=
  (call site fuel "botbrew_recipe" args true ⟨⟨dir, site.env⟩, world⟩).map fun result =>
    (result.1.status, result.2.world)

end BotBrew.Cookbook
