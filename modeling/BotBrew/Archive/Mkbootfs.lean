import BotBrew.Archive.FsConfig
import BotBrew.Words.Alignment
import Mathlib.Data.List.Lex

/-! `mkbootfs.c` -/

set_option autoImplicit false

namespace BotBrew.Archive.Mkbootfs

open Words

/-- Why a file does not get into the archive -/
inductive Trouble where
  | stat
  | openFile
  | allocate (size : Word)
  | readFile (size : Word)
  | readlink
  | unknown (mode : Word)

mutual
/-- What `lstat` and then `read`, `readdir` or `readlink` give -/
inductive Tree where
  | regular (permissions : BitVec 12) (content : List Byte)
  | directory (permissions : BitVec 12) (children : Forest)
  | closed (permissions : BitVec 12)
  | link (permissions : BitVec 12) (target : List Byte)
  | trouble (why : Trouble)

/-- The entries of a directory, in the order of `readdir` -/
inductive Forest where
  | nil
  | cons (name : CString) (tree : Tree) (rest : Forest)
end

def S_IFREG : Word := 0o100000
def S_IFDIR : Word := 0o040000
def S_IFLNK : Word := 0o120000

def modeOf (kind : Word) (permissions : BitVec 12) : Word := kind ||| permissions.setWidth 32

def S_ISDIR (mode : Word) : Bool := mode &&& 0o170000 = S_IFDIR

/-! ## The archive that is written -/

/-- What is printed so far, `total_size` and `next_inode` -/
structure Output where
  stdout : List Byte
  total_size : Nat
  next_inode : Word

def Output.initial : Output := ⟨[], 0, BitVec.ofNat 32 300000⟩

def Output.putchar (output : Output) : Output :=
  { output with stdout := output.stdout ++ [0], total_size := output.total_size + 1 }

/-- Zeros while `total_size` is no multiple of the size -/
def Output.align (output : Output) (size : Nat) : Output :=
  if _open_end : 0 < size ∧ output.total_size % size ≠ 0 then output.putchar.align size else output
termination_by (fill size output.total_size).length
decreasing_by
  rw [fill_succ _open_end.1 _open_end.2, List.length_cons]
  exact Nat.lt_succ_self _

def fix_stat (path : List Byte) (mode : Word) : Word := (fs_config path (S_ISDIR mode) mode).2.2

def strlen (bytes : List Byte) : Nat := (bytes.takeWhile (· ≠ 0)).length

/-- The numbers of the header and the name, and then the data, if the name is as long as it should be -/
def _eject (output : Output) (mode : Word) (out : CString) (data : List Byte) : Output × Bool :=
  let output := output.align 4
  let mode := fix_stat out.bytes mode
  let header := ascii "070701" ++ [output.next_inode.toNat, mode.toNat, 0, 0, 1, 0, data.length, 0, 0, 0, 0,
    out.bytes.length + 1, 0].flatMap (hex 8)
  let output : Output := {
    stdout := output.stdout ++ (header ++ out.bytes ++ [0])
    total_size := output.total_size + (6 + 8 * 13 + out.bytes.length + 1)
    next_inode := output.next_inode + 1 }
  if strlen out.bytes ≠ out.bytes.length then (output, false)
  else
    let output := output.align 4
    ({ output with stdout := output.stdout ++ data, total_size := output.total_size + data.length }, true)

def _eject_trailer (output : Output) : Output × Bool :=
  let (output, named) := _eject output 0 ⟨ascii "TRAILER!!!", by decide⟩ []
  (output.align 256, named)

/-! ## The walk -/

inductive Event where
  | eject (mode : Word) (out : CString) (data : List Byte)
  | die (why : List Byte)

/-- Whether the program ends -/
def Event.isDie : Event → Bool
  | .eject .. => false
  | .die _ => true

/-- `%d` -/
def decimal (word : Word) : List Byte := ascii (toString word.toInt)

def Trouble.why (path : List Byte) : Trouble → List Byte
  | stat => ascii "could not stat '" ++ path ++ ascii "'\n"
  | openFile => ascii "cannot open '" ++ path ++ ascii "' for read"
  | allocate size => ascii "cannot allocate " ++ decimal size ++ ascii " bytes"
  | readFile size => ascii "cannot read " ++ decimal size ++ ascii " bytes"
  | readlink => ascii "cannot read symlink '" ++ path ++ ascii "'"
  | unknown mode => ascii "Unknown '" ++ path ++ ascii "' (mode " ++ decimal mode ++ ascii ")?\n"

def cannotOpen (path : List Byte) : List Byte := ascii "cannot open directory '" ++ path ++ ascii "'"

/-- `strcmp(a, b) <= 0` -/
def notAfter (a b : CString) : Bool := a.bytes.map BitVec.toNat ≤ b.bytes.map BitVec.toNat

def kept (name : CString) : Bool := name.bytes.head? ≠ some 46 && name.bytes ≠ ascii "root"

def join (out name : CString) : CString where
  bytes := if out.bytes = [] then name.bytes else out.bytes ++ [47] ++ name.bytes
  terminated := by
    split
    · exact name.terminated
    · simp only [List.mem_append, List.mem_singleton, not_or]
      exact ⟨⟨out.terminated, by decide⟩, name.terminated⟩

/-- What each entry of a directory comes to, in the order of the names -/
def inOrder (entries : List (CString × List Event)) : List Event :=
  (entries.mergeSort fun a b => notAfter a.1 b.1).flatMap Prod.snd

mutual
def _archive (path : List Byte) (out : CString) : Tree → List Event
  | .regular permissions content => [.eject (modeOf S_IFREG permissions) out content]
  | .directory permissions children =>
    .eject (modeOf S_IFDIR permissions) out [] :: inOrder (entries path out children)
  | .closed permissions => [.eject (modeOf S_IFDIR permissions) out [], .die (cannotOpen path)]
  | .link permissions target => [.eject (modeOf S_IFLNK permissions) out (target.take 1024)]
  | .trouble why => [.die (why.why path)]

/-- The entries of a directory that are no dotfiles and not called `root` -/
def entries (path : List Byte) (out : CString) : Forest → List (CString × List Event)
  | .nil => []
  | .cons name tree rest =>
    if kept name then (name, _archive (path ++ [47] ++ name.bytes) (join out name) tree) :: entries path out rest
    else entries path out rest
end

def _archive_dir (path : List Byte) (out : CString) (children : Forest) : List Event := inOrder (entries path out children)

/-- The text before the first `=`, and what is after it -/
def split (arg : CString) : List Byte × CString :=
  (arg.bytes.takeWhile (· ≠ 61), ⟨(arg.bytes.dropWhile (· ≠ 61)).drop 1, fun found =>
    arg.terminated ((List.dropWhile_sublist _).mem (List.mem_of_mem_drop found))⟩)

/-- One argument: a directory, and where in the archive it goes -/
def archive (opendir : List Byte → Option Forest) (arg : CString) : List Event :=
  match opendir (split arg).1 with
  | none => [.die (cannotOpen (split arg).1)]
  | some children => _archive_dir (split arg).1 (split arg).2 children

/-- What is printed until the program ends, and the text of its error -/
structure Outcome where
  output : Output
  error : Option (List Byte)

def run (output : Output) : List Event → Outcome
  | [] => ⟨output, none⟩
  | .eject mode out data :: events =>
    match _eject output mode out data with
    | (output, true) => run output events
    | (output, false) => ⟨output, some (ascii "ACK!")⟩
  | .die why :: _ => ⟨output, some why⟩

structure Exit where
  code : Nat
  stdout : List Byte
  stderr : List Byte

def die (output : Output) (why : List Byte) : Exit := ⟨1, output.stdout, ascii "error: " ++ why ++ ascii "\n"⟩

def main (opendir : List Byte → Option Forest) (argv : List CString) : Exit :=
  if argv = [] then die .initial (ascii "no directories to process?!")
  else
    match run .initial (argv.flatMap (archive opendir)) with
    | ⟨output, some why⟩ => die output why
    | ⟨output, none⟩ =>
      match _eject_trailer output with
      | (output, true) => ⟨0, output.stdout, []⟩
      | (output, false) => die output (ascii "ACK!")

end BotBrew.Archive.Mkbootfs
