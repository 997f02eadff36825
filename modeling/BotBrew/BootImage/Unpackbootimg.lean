import BotBrew.BootImage.Mkbootimg

/-! `unpackbootimg.c`. There is no result where the program goes on with a null pointer or with bytes that it has not
read. -/

set_option autoImplicit false

namespace BotBrew.BootImage.Unpackbootimg

open Words

/-- What `usage` prints -/
def usage : List Byte :=
  ascii "usage: unpackbootimg\n\t-i|--input boot.img\n\t[ -o|--output output_directory]\n" ++
    ascii "\t[ -p|--pagesize <size-in-hexadecimal> ]\n"

structure Options where
  directory : List Byte
  filename : Option CString
  pagesize : Word

def Options.default : Options := ⟨ascii "./", none, 0⟩

inductive Parsed where
  | options (options : Options)
  | usage
  | crashed

/-- The loop over the arguments. The last one may have no value. -/
def Options.parse (options : Options) : List CString → Parsed
  | [] => .options options
  | [arg] =>
    if arg.bytes = ascii "--input" ∨ arg.bytes = ascii "-i" then .options { options with filename := none }
    else if arg.bytes = ascii "--output" ∨ arg.bytes = ascii "-o" then
      .options { options with directory := ascii "(null)" }
    else if arg.bytes = ascii "--pagesize" ∨ arg.bytes = ascii "-p" then .crashed
    else .usage
  | arg :: val :: argv =>
    if arg.bytes = ascii "--input" ∨ arg.bytes = ascii "-i" then ({ options with filename := some val }).parse argv
    else if arg.bytes = ascii "--output" ∨ arg.bytes = ascii "-o" then
      ({ options with directory := val.bytes }).parse argv
    else if arg.bytes = ascii "--pagesize" ∨ arg.bytes = ascii "-p" then
      ({ options with pagesize := strtoul val.bytes 16 }).parse argv
    else .usage

def slash : Byte := 47

/-- `basename(path)` -/
def basename (path : List Byte) : List Byte :=
  let name := (path.reverse.dropWhile (· = slash)).takeWhile (· ≠ slash)
  if path = [] then ascii "."
  else if name = [] then ascii "/"
  else name.reverse

/-- `fread` of so many bytes -/
def fread (f : List Byte) (count : Nat) : Option (List Byte × List Byte) :=
  if count ≤ f.length then some (f.take count, f.drop count) else none

/-- What is left of the file. Here it does not matter how much of the padding is there. -/
def read_padding (f : List Byte) (itemsize pagesize : Word) : Option (List Byte) :=
  let pagemask := pagesize - 1
  if itemsize &&& pagemask = 0 then some f
  else if 0 < pagesize.toInt then some (f.drop (pagesize - (itemsize &&& pagemask)).toNat)
  else none

/-- The string at the start of some memory -/
def string (memory : List Byte) : Option (List Byte) :=
  if memory.contains 0 then some (memory.takeWhile (· ≠ 0)) else none

def PATH_MAX : Nat := 4096

/-- What is written next to the image's name -/
structure Unpacked where
  cmdline : List Byte
  base : Word
  page_size : Word
  kernel : List Byte
  ramdisk : List Byte

def stdout (unpacked : Unpacked) : List Byte :=
  ascii "BOARD_KERNEL_CMDLINE " ++ unpacked.cmdline ++ ascii "\nBOARD_KERNEL_BASE " ++ hex 8 unpacked.base.toNat ++
    ascii "\nBOARD_PAGE_SIZE " ++ hex 8 unpacked.page_size.toNat ++ ascii "\n"

/-- The files, in the order in which they are written -/
def Unpacked.files (unpacked : Unpacked) : List (List Byte × List Byte) :=
  [(ascii "-cmdline", unpacked.cmdline ++ ascii "\n"),
    (ascii "-base", hex 8 unpacked.base.toNat ++ ascii "\n"),
    (ascii "-pagesize", hex 8 unpacked.page_size.toNat ++ ascii "\n"),
    (ascii "-zImage", unpacked.kernel),
    (ascii "-ramdisk.gz", unpacked.ramdisk)]

def unpack (file : List Byte) (pagesize : Word) : Option Unpacked := do
  let (header, f) ← boot_img_hdr.read file
  let cmdline ← string (header.cmdline.bytes ++ header.id.bytes)
  let pagesize := if pagesize = 0 then header.page_size else pagesize
  let f ← read_padding f (BitVec.ofNat 32 headerSize) pagesize
  let (kernel, f) ← fread f header.kernel_size.toNat
  let f ← read_padding f header.kernel_size pagesize
  let (ramdisk, _) ← fread f header.ramdisk_size.toNat
  return ⟨cmdline, header.kernel_addr - 0x00008000, header.page_size, kernel, ramdisk⟩

def path (options : Options) (filename : CString) : List Byte :=
  options.directory ++ [slash] ++ basename filename.bytes

def writeFile (path : List Byte) (disk : Disk) (file : List Byte × List Byte) : Disk :=
  Function.update disk (path ++ file.1) (some file.2)

/-- What is printed, and the disk -/
def main (system : System) (disk : Disk) (argv : List CString) : Option (List Byte × Disk) :=
  match Options.default.parse argv with
  | .crashed => none
  | .usage => some (usage, disk)
  | .options options =>
    match options.filename with
    | none => some (usage, disk)
    | some filename => do
      let file ← disk filename.bytes
      let unpacked ← unpack file options.pagesize
      let path := path options filename
      if path.length + (ascii "-ramdisk.gz").length < PATH_MAX ∧
          unpacked.files.all fun file => system.creates (path ++ file.1) then
        some (stdout unpacked, unpacked.files.foldl (writeFile path) disk)
      else none

end BotBrew.BootImage.Unpackbootimg
