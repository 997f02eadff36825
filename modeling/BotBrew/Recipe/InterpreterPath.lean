import BotBrew.Rewriting.Replace
import BotBrew.Shell.Words

/-! `botbrew_fix_interpreter_path` with only a target. -/

set_option autoImplicit false

namespace BotBrew.InterpreterPath

/-- The five queries, in the order of the script. -/
inductive Interpreter where
  | sh
  | python
  | localPython
  | perl
  | man
  deriving DecidableEq

def interpreters : List Interpreter := [.sh, .python, .localPython, .perl, .man]

def Interpreter.query : Interpreter → Text
  | .sh => "/bin/sh".toList
  | .python => "/usr/bin/python".toList
  | .localPython => "/usr/local/bin/python".toList
  | .perl => "/usr/bin/perl".toList
  | .man => "/usr/bin/man".toList

/-- What the operation puts in the place of the query. -/
def Interpreter.replacement : Interpreter → Text
  | .sh => "/system/bin/sh".toList
  | .python => "/botbrew/bin/python".toList
  | .localPython => "/botbrew/bin/python".toList
  | .perl => "/botbrew/bin/perl".toList
  | .man => "/botbrew/bin/man".toList

/-- `sed -e "$operation"` -/
def Interpreter.operation (interpreter : Interpreter) (content : Text) : Text :=
  Rewriting.replaceAll interpreter.query interpreter.replacement content

/-- The regular files, by the paths that the shell has for them. The scratch file `temp`
is not one of them. -/
abbrev Files := Text → Option Text

/-- `grep -I` takes a file with a zero byte for a binary one. -/
def isText (content : Text) : Bool := '\x00' ∉ content

/-- `grep -rlIF "$query" "$target"`, where the paths are what it visits below the target. -/
def grepList (paths : List Text) (files : Files) (interpreter : Interpreter) : List Text :=
  paths.filter fun path =>
    match files path with
    | some content => isText content && decide (interpreter.query <:+: content)
    | none => false

section

/- What pathname expansion makes of a word with pattern characters. -/
variable (glob : Text → List Text)

/-- The words of `$(...)` for a command that prints the lines. -/
def shellWords (lines : List Text) : List Text :=
  Shell.words glob (lines.flatMap fun line => line ++ ['\n'])

/-- `sed -e "$operation" "$file" > temp; cat temp > "$file"`. Where `sed` or `cat` fails,
the script stops. -/
def rewrite (interpreter : Interpreter) (files : Files) (word : Text) : Option Files :=
  if word = "temp".toList then none
  else
    match files word with
    | none => none
    | some content => some (Function.update files word (some (interpreter.operation content)))

/-- The loop over the words: the files, and whether the loop reached its end. -/
def rewriteWords (interpreter : Interpreter) (files : Files) : List Text → Files × Bool
  | [] => (files, true)
  | word :: rest =>
      match rewrite interpreter files word with
      | none => (files, false)
      | some next => rewriteWords interpreter next rest

variable (paths : List Text)

/-- `botbrew_fix_interpreter_path "$target" "$query" "$operation"` -/
def fixOne (files : Files) (interpreter : Interpreter) : Files × Bool :=
  rewriteWords interpreter files (shellWords glob (grepList paths files interpreter))

def fixAll (files : Files) : List Interpreter → Files × Bool
  | [] => (files, true)
  | interpreter :: rest =>
      match fixOne glob paths files interpreter with
      | (next, true) => fixAll next rest
      | (next, false) => (next, false)

/-- `botbrew_fix_interpreter_path "$target"` -/
def botbrew_fix_interpreter_path (files : Files) : Files × Bool :=
  fixAll glob paths files interpreters

end

def substituted (content : Text) : Text :=
  interpreters.foldl (fun content interpreter => interpreter.operation content) content

def expected (paths : List Text) (files : Files) : Files := fun path =>
  (files path).map fun content =>
    if path ∈ paths ∧ isText content then substituted content else content

/-- The rewriting is complete, does not depend on the order of the substitutions, and is
not undone or repeated by a second one. -/
structure Rewrites (glob : Text → List Text) (paths : List Text) (files : Files) : Prop where
  complete : botbrew_fix_interpreter_path glob paths files = (expected paths files, true)
  order : ∀ order : List Interpreter, order.Perm interpreters →
    fixAll glob paths files order = botbrew_fix_interpreter_path glob paths files
  again : botbrew_fix_interpreter_path glob paths (botbrew_fix_interpreter_path glob paths files).1 =
    ((botbrew_fix_interpreter_path glob paths files).1, true)

/-- No text file has `/bin/sh`, and for every other query the words that the shell makes of
the list of files are these files, or others that do not have the query. -/
structure Sane (glob : Text → List Text) (paths : List Text) (files : Files) : Prop where
  noShell : grepList paths files .sh = []
  listed : ∀ interpreter, ∀ path ∈ grepList paths files interpreter,
    path ∈ shellWords glob (grepList paths files interpreter)
  others : ∀ interpreter, ∀ word ∈ shellWords glob (grepList paths files interpreter),
    word ≠ "temp".toList ∧ ∃ content, files word = some content ∧
      (word ∈ grepList paths files interpreter ∨ ¬ interpreter.query <:+: content)

end BotBrew.InterpreterPath
