import BotBrew.Dictionary.Filling
import BotBrew.Opkg.Index

/-! `opkg-make-index -p Packages`: packages that have not changed are taken from the old index. -/

set_option autoImplicit false

namespace BotBrew.Opkg

open Text Dictionary

/-- A file that `glob` finds: the package, the names in its `data.tar.gz`, and its `st_mtime`, which is whole
or has a fraction. -/
structure Stamped where
  file : PackageFile
  members : List Text
  seconds : Nat
  whole : Bool

/-- The order in which a dictionary gives its keys -/
structure HashOrder where
  keys : List Text → List Text
  perm : ∀ names, (keys names).Perm names

/-- The files of the package directory and those of its `morgue` -/
structure Area where
  here : Text → Option Text
  morgue : Text → Option Text

def Area.rename (area : Area) (name : Text) : Area :=
  match area.here name with
  | none => area
  | some content =>
    { here := Function.update area.here name none, morgue := Function.update area.morgue name (some content) }

def Area.to_morgue (area : Area) (filename : Text) : Area :=
  (area.rename filename).rename (filename ++ ".asc".toList)

abbrev Stamps := AList fun _ : Text => Nat

/-- What the tool leaves behind: the files of `-p` and `-l`, and the package directory. -/
structure Disk where
  index : Option Text
  stamps : Option Text
  filelist : Option Text
  area : Area

structure MakeIndex.Options where
  pkg_dir : Text
  m : Bool
  s : Bool

/-- `old_pkg_hash`: the packages by their file names -/
def old_pkg_hash (order : HashOrder) (old : Packages) : AList fun _ : Option Text => Package :=
  fill ∅ ((order.keys old.keys).filterMap fun key =>
    (old.lookup key).map fun pkg => (pkg.self "filename", pkg))

/-- `l = l.strip(); s, f = l.split(" ", 1); pkgsStamps[f] = int(s)` -/
def readStamp (line : Text) : Option (Text × Nat) :=
  let line := strip line
  match line.dropWhile (· ≠ ' ') with
  | ' ' :: name => if (line.takeWhile (· ≠ ' ')).all Char.isDigit then
      (int (line.takeWhile (· ≠ ' '))).map fun seconds => (name, seconds)
    else none
  | _ => none

def readStamps (text : Text) : Option Stamps :=
  ((readlines text).mapM readStamp).map (fill ∅)

/-- `"%d %s\n" % (pkgsStamps[f], f)` -/
def stampLine (name : Text) (seconds : Nat) : Text := decimal seconds ++ ' ' :: name ++ ['\n']

def stampsText (order : HashOrder) (stamps : Stamps) : Text :=
  (order.keys stamps.keys).flatMap fun name => stampLine name ((stamps.lookup name).getD 0)

/-- What a run starts from: nothing, unless there is an index. -/
def Disk.read (order : HashOrder) (disk : Disk) : Option ((AList fun _ : Option Text => Package) × Stamps) :=
  match disk.index with
  | none => some (∅, ∅)
  | some text => do
      let old ← (∅ : Packages).read_packages_file (readlines text)
      let stamps ← match disk.stamps with
        | none => some ∅
        | some text => readStamps text
      some (old_pkg_hash order old, stamps)

namespace MakeIndex

/-- `*.opk`, `*.deb` and `*.ipk` -/
def matched (name : Text) : Bool :=
  name.head? ≠ some '.' && [".opk", ".deb", ".ipk"].any fun ending => ending.toList.isSuffixOf name

/-- The files that `glob` finds, in the order of their names -/
def files (dir : List Stamped) : List Stamped :=
  (dir.filter fun stamped => matched stamped.file.basename).insertionSort
    fun first second => first.file.basename ≤ second.file.basename

/-- The package of a file, and the file that it was read from, if it is not from the old index. -/
def choose (old : AList fun _ : Option Text => Package) (stamps : Stamps) (stamped : Stamped) :
    Option (Package × Option Stamped) :=
  let read := (Package.init stamped.file).map fun (pkg, _) => (pkg, some stamped)
  match old.lookup (some stamped.file.basename) with
  | none => read
  | some pkg =>
    if stamped.whole ∧ stamps.lookup stamped.file.basename = some stamped.seconds then some (pkg, none) else read

structure Loop where
  packages : Packages
  /-- The files that `fn` of the entries names -/
  fn : Text → Option Stamped
  stamps : Stamps
  area : Area
  /-- The file names that `-m` moves and `-s` prints -/
  surplus : List Text

/-- The file of the entry that a package may displace -/
def old_filename (packages : Packages) (pkg : Package) : Text :=
  ((packages.lookup pkg.key).bind fun entry => entry.self "filename").getD []

/-- The file that the index has no use for, after `add_package` returned `s` -/
def superfluous (old_filename basename : Text) (s : Nat) : List Text :=
  if s = 0 then (if old_filename = [] then [] else [old_filename]) else [basename]

/-- The loop after the package of a file was added, and `add_package` returned `s`. -/
def Loop.next (options : Options) (loop : Loop) (stamped : Stamped) (pkg : Package) (fn : Option Stamped)
    (packages : Packages) (s : Nat) : Loop :=
  let surplus := superfluous (old_filename loop.packages pkg) stamped.file.basename s
  { packages := packages
    fn := if s = 0 then Function.update loop.fn pkg.key fn else loop.fn
    stamps := loop.stamps.insert stamped.file.basename stamped.seconds
    area := if options.m then surplus.foldl Area.to_morgue loop.area else loop.area
    surplus := loop.surplus ++ surplus }

/-- The body of the loop over the files -/
def Loop.add (options : Options) (old : AList fun _ : Option Text => Package) (loop : Loop)
    (stamped : Stamped) : Option Loop := do
  -- `os.stat`
  let _ ← loop.area.here stamped.file.basename
  let (pkg, fn) ← choose old loop.stamps stamped
  let (packages, s) ← loop.packages.add_package pkg
  some (loop.next options stamped pkg fn packages s)

/-- `os.path.split(fn)[1]` -/
def tail (fn : Text) : Text := fn.rtakeWhile (· ≠ '/')

/-- `get_file_list` of an entry: nothing, if it has no `fn`. -/
def get_file_list (area : Area) : Option Stamped → Option (List Text)
  | none => some []
  | some stamped => (area.here stamped.file.basename).map fun _ =>
      stamped.members.map fun member => if "./".toList.isPrefixOf member then member else "./".toList ++ member

/-- The loop over the members of one package -/
def listFiles (name : Text) (files : AList fun _ : Text => Text) (members : List Text) :
    AList fun _ : Text => Text :=
  members.foldl (fun files fn =>
    if tail fn = [] then files
    else
      let entry := name ++ ':' :: fn
      files.insert (tail fn) (match files.lookup (tail fn) with
        | none => entry
        | some entries => entries ++ ',' :: entry)) files

def Loop.filelist (loop : Loop) : Option Text := do
  let files ← loop.packages.names.foldlM (fun files name => do
    let members ← get_file_list loop.area (loop.fn name)
    some (listFiles name files members)) (∅ : AList fun _ : Text => Text)
  some ((files.keys.insertionSort (· ≤ ·)).flatMap fun name =>
    name ++ ' ' :: (files.lookup name).getD [] ++ ['\n'])

/-- `print pkg_dir + "/" + filename` -/
def shownSurplus (pkg_dir : Text) (surplus : List Text) : Text :=
  surplus.flatMap fun filename => pkg_dir ++ '/' :: filename ++ ['\n']

/-- The loop over all files of the directory -/
def loop (order : HashOrder) (options : Options) (dir : List Stamped) (disk : Disk) : Option Loop := do
  let (old, stamps) ← disk.read order
  (files dir).foldlM (Loop.add options old)
    { packages := ∅, fn := fun _ => none, stamps := stamps, area := disk.area, surplus := [] }

/-- What is left behind, and what `-s` prints. -/
def run (order : HashOrder) (options : Options) (dir : List Stamped) (disk : Disk) : Option (Disk × Text) := do
  let loop ← loop order options dir disk
  let stamped := { disk with stamps := some (stampsText order loop.stamps), area := loop.area }
  if options.s then some (stamped, shownSurplus options.pkg_dir loop.surplus)
  else do
    let filelist ← loop.filelist
    some ({ stamped with index := some (indexText [] loop.packages), filelist := some filelist }, [])

end MakeIndex

end BotBrew.Opkg
