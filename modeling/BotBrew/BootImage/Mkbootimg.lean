import BotBrew.BootImage.Header
import BotBrew.Mincrypt.Sha

/-! `mkbootimg.c` -/

set_option autoImplicit false

namespace BotBrew.BootImage

open Words Mincrypt

/-- What can be read, by its name -/
abbrev Disk := List Byte → Option (List Byte)

/-- What the system decides -/
structure System where
  /-- Whether a file can be created, or emptied if it is there -/
  creates : List Byte → Bool
  /-- How much the `write` of this number takes, where it does not fail -/
  takes : Nat → Option Nat
  /-- Whether a file can be removed -/
  unlinks : List Byte → Bool
  strerror : List Byte
  /-- What is in the memory that becomes `ctx` -/
  ctx : SHA_CTX

namespace Mkbootimg

/-- The most that one `read` gives -/
def readLimit : Nat := 0x7ffff000

/-- The size of the file has to fit an `int`, and one `read` has to give all of it. -/
def load_file (disk : Disk) (fn : CString) : Option (List Byte) :=
  match disk fn.bytes with
  | none => none
  | some data =>
    if data.length < 2 ^ 31 then
      if min data.length readLimit = data.length then some data else none
    else none

inductive Failure where
  | usage
  | unsupported_page_size (pagesize : Word)
  | no_output
  | no_kernel
  | no_ramdisk
  | board_too_large
  | cmdline_too_large
  | could_not_load (kind : String) (fn : CString)
  | could_not_create (bootimg : CString)
  | failed_writing (bootimg : CString)

/-- What `usage` prints -/
def usage : List Byte :=
  ascii "usage: mkbootimg\n       --kernel <filename>\n       --ramdisk <filename>\n" ++
    ascii "       [ --second <2ndbootloader-filename> ]\n       [ --cmdline <kernel-commandline> ]\n" ++
    ascii "       [ --board <boardname> ]\n       [ --base <address> ]\n       [ --pagesize <pagesize> ]\n" ++
    ascii "       [ --ramdiskaddr <address> ]\n       -o|--output <filename>\n"

/-- `%d` -/
def decimal (word : Word) : List Byte := ascii (toString word.toInt)

def Failure.message (system : System) : Failure → List Byte
  | usage => Mkbootimg.usage
  | unsupported_page_size pagesize => ascii "error: unsupported page size " ++ decimal pagesize ++ ascii "\n"
  | no_output => ascii "error: no output filename specified\n" ++ Mkbootimg.usage
  | no_kernel => ascii "error: no kernel image specified\n" ++ Mkbootimg.usage
  | no_ramdisk => ascii "error: no ramdisk image specified\n" ++ Mkbootimg.usage
  | board_too_large => ascii "error: board name too large\n" ++ Mkbootimg.usage
  | cmdline_too_large => ascii "error: kernel commandline too large\n"
  | could_not_load kind fn => ascii "error: could not load " ++ ascii kind ++ ascii " '" ++ fn.bytes ++ ascii "'\n"
  | could_not_create bootimg => ascii "error: could not create '" ++ bootimg.bytes ++ ascii "'\n"
  | failed_writing bootimg =>
    ascii "error: failed writing '" ++ bootimg.bytes ++ ascii "': " ++ system.strerror ++ ascii "\n"

def Failure.code : Failure → Int
  | unsupported_page_size _ => -1
  | _ => 1

/-! ## The options -/

structure Options where
  kernel_fn : Option CString
  ramdisk_fn : Option CString
  second_fn : Option CString
  cmdline : CString
  bootimg : Option CString
  board : CString
  pagesize : Word
  kernel_addr : Word
  ramdisk_addr : Word
  second_addr : Word
  tags_addr : Word

def CString.empty : CString := ⟨[], List.not_mem_nil⟩

def Options.default : Options where
  kernel_fn := none
  ramdisk_fn := none
  second_fn := none
  cmdline := CString.empty
  bootimg := none
  board := CString.empty
  pagesize := 2048
  kernel_addr := 0x10008000
  ramdisk_addr := 0x11000000
  second_addr := 0x10F00000
  tags_addr := 0x10000100

def Options.base (options : Options) (base : Word) : Options :=
  { options with
    kernel_addr := base + 0x00008000
    ramdisk_addr := base + 0x01000000
    second_addr := base + 0x00F00000
    tags_addr := base + 0x00000100 }

/-- One turn of the loop over the arguments -/
def Options.set (options : Options) (arg val : CString) : Except Failure Options :=
  if arg.bytes = ascii "--output" ∨ arg.bytes = ascii "-o" then .ok { options with bootimg := some val }
  else if arg.bytes = ascii "--kernel" then .ok { options with kernel_fn := some val }
  else if arg.bytes = ascii "--ramdisk" then .ok { options with ramdisk_fn := some val }
  else if arg.bytes = ascii "--second" then .ok { options with second_fn := some val }
  else if arg.bytes = ascii "--cmdline" then .ok { options with cmdline := val }
  else if arg.bytes = ascii "--base" then .ok (options.base (strtoul val.bytes 16))
  else if arg.bytes = ascii "--ramdiskaddr" then .ok { options with ramdisk_addr := strtoul val.bytes 16 }
  else if arg.bytes = ascii "--board" then .ok { options with board := val }
  else if arg.bytes = ascii "--pagesize" then
    let pagesize := strtoul val.bytes 10
    if pagesize ≠ 2048 ∧ pagesize ≠ 4096 then .error (.unsupported_page_size pagesize)
    else .ok { options with pagesize := pagesize }
  else .error .usage

def Options.parse (options : Options) : List CString → Except Failure Options
  | [] => .ok options
  | [_] => .error .usage
  | arg :: val :: argv => do
    let options ← options.set arg val
    options.parse argv

/-- Options that have passed the checks -/
structure Job where
  options : Options
  bootimg : CString
  kernel_fn : CString
  ramdisk_fn : CString
  name_fits : options.board.bytes.length < BOOT_NAME_SIZE
  cmdline_fits : options.cmdline.bytes.length ≤ BOOT_ARGS_SIZE - 1

def Options.check (options : Options) : Except Failure Job :=
  match options.bootimg with
  | none => .error .no_output
  | some bootimg =>
    match options.kernel_fn with
    | none => .error .no_kernel
    | some kernel_fn =>
      match options.ramdisk_fn with
      | none => .error .no_ramdisk
      | some ramdisk_fn =>
        if name_fits : options.board.bytes.length < BOOT_NAME_SIZE then
          if cmdline_fits : options.cmdline.bytes.length ≤ BOOT_ARGS_SIZE - 1 then
            .ok ⟨options, bootimg, kernel_fn, ramdisk_fn, name_fits, cmdline_fits⟩
          else .error .cmdline_too_large
        else .error .board_too_large

/-! ## The image -/

/-- What is in the image besides its header -/
structure Parts where
  kernel : List Byte
  ramdisk : List Byte
  second : Option (List Byte)

def Parts.second_data (parts : Parts) : List Byte := parts.second.getD []

def load (disk : Disk) (kind : String) (fn : CString) : Except Failure (List Byte) :=
  match load_file disk fn with
  | none => .error (.could_not_load kind fn)
  | some data => .ok data

def load_ramdisk (disk : Disk) (ramdisk_fn : CString) : Except Failure (List Byte) :=
  if ramdisk_fn.bytes = ascii "NONE" then .ok [] else load disk "ramdisk" ramdisk_fn

def load_second (disk : Disk) : Option CString → Except Failure (Option (List Byte))
  | none => .ok none
  | some second_fn => (load disk "secondstage" second_fn).map some

def Job.load (job : Job) (disk : Disk) : Except Failure Parts := do
  let kernel ← Mkbootimg.load disk "kernel" job.kernel_fn
  let ramdisk ← load_ramdisk disk job.ramdisk_fn
  let second ← load_second disk job.options.second_fn
  return ⟨kernel, ramdisk, second⟩

/-- What the digest is taken of, piece by piece -/
def Parts.hashed (parts : Parts) : List (List Byte) :=
  [parts.kernel, memory (BitVec.ofNat 32 parts.kernel.length), parts.ramdisk,
    memory (BitVec.ofNat 32 parts.ramdisk.length), parts.second_data,
    memory (BitVec.ofNat 32 parts.second_data.length)]

def digest (system : System) (pieces : List (List Byte)) : List Byte :=
  (SHA_final generic (pieces.foldl generic.update (SHA_init system.ctx))).buf.take SHA_DIGEST_SIZE

theorem digest_fits (system : System) (pieces : List (List Byte)) : (digest system pieces).length ≤ 32 := by
  rw [digest, List.length_take]
  exact (Nat.min_le_left _ _).trans (by decide)

def Job.header (job : Job) (system : System) (parts : Parts) : boot_img_hdr where
  magic := Field.of BOOT_MAGIC (by decide)
  kernel_size := BitVec.ofNat 32 parts.kernel.length
  kernel_addr := job.options.kernel_addr
  ramdisk_size := BitVec.ofNat 32 parts.ramdisk.length
  ramdisk_addr := job.options.ramdisk_addr
  second_size := BitVec.ofNat 32 parts.second_data.length
  second_addr := job.options.second_addr
  tags_addr := job.options.tags_addr
  page_size := job.options.pagesize
  unused := Field.of [] (by decide)
  name := Field.of job.options.board.bytes job.name_fits.le
  cmdline := Field.of job.options.cmdline.bytes (job.cmdline_fits.trans (by decide))
  id := Field.of (digest system parts.hashed) (digest_fits system parts.hashed)

/-! ## Writing it -/

/-- The file that is open -/
structure Fd where
  content : List Byte
  writes : Nat

/-- `write(fd, data, ...) != size` is a failure, which leaves what was written. -/
def write (system : System) (fd : Fd) (data : List Byte) (size : Nat) : Except Fd Fd :=
  match system.takes fd.writes with
  | none => .error fd
  | some count =>
    let after : Fd := ⟨fd.content ++ data.take count, fd.writes + 1⟩
    if min count data.length = size then .ok after else .error after

def padding : List Byte := List.replicate 4096 0

def write_padding (system : System) (fd : Fd) (pagesize itemsize : Word) : Except Fd Fd :=
  let pagemask := pagesize - 1
  if itemsize &&& pagemask = 0 then .ok fd
  else
    let count := (pagesize - (itemsize &&& pagemask)).toNat
    write system fd (padding.take count) count

def writeImage (system : System) (hdr : boot_img_hdr) (parts : Parts) : Except Fd Fd := do
  let fd ← write system ⟨[], 0⟩ hdr.bytes headerSize
  let fd ← write_padding system fd hdr.page_size (BitVec.ofNat 32 headerSize)
  let fd ← write system fd parts.kernel hdr.kernel_size.toNat
  let fd ← write_padding system fd hdr.page_size hdr.kernel_size
  let fd ← write system fd parts.ramdisk hdr.ramdisk_size.toNat
  let fd ← write_padding system fd hdr.page_size hdr.ramdisk_size
  match parts.second with
  | none => return fd
  | some second_data =>
    let fd ← write system fd second_data hdr.second_size.toNat
    -- by the size of the ramdisk
    write_padding system fd hdr.page_size hdr.ramdisk_size

structure Outcome where
  code : Int
  stderr : List Byte
  disk : Disk

def Failure.outcome (system : System) (failure : Failure) (disk : Disk) : Outcome :=
  ⟨failure.code, failure.message system, disk⟩

/-- Everything before the output is opened -/
def prepare (disk : Disk) (argv : List CString) : Except Failure (Job × Parts) := do
  let options ← Options.default.parse argv
  let job ← options.check
  let parts ← job.load disk
  return (job, parts)

def main (system : System) (disk : Disk) (argv : List CString) : Outcome :=
  match prepare disk argv with
  | .error failure => failure.outcome system disk
  | .ok (job, parts) =>
    if system.creates job.bootimg.bytes then
      match writeImage system (job.header system parts) parts with
      | .error fd =>
        -- the status of `unlink` is not looked at
        let left := if system.unlinks job.bootimg.bytes then none else some fd.content
        (Failure.failed_writing job.bootimg).outcome system (Function.update disk job.bootimg.bytes left)
      | .ok fd => ⟨0, [], Function.update disk job.bootimg.bytes (some fd.content)⟩
    else (Failure.could_not_create job.bootimg).outcome system disk

end Mkbootimg

end BotBrew.BootImage
