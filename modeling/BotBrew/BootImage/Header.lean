import BotBrew.Words.Strings

/-! `bootimg.h`: the header of a boot image. -/

set_option autoImplicit false

namespace BotBrew.BootImage

open Words

def BOOT_MAGIC : List Byte := ascii "ANDROID!"

def BOOT_MAGIC_SIZE : Nat := 8

def BOOT_NAME_SIZE : Nat := 16

def BOOT_ARGS_SIZE : Nat := 512

/-- An array of so many bytes -/
@[ext]
structure Field (size : Nat) where
  bytes : List Byte
  length_eq : bytes.length = size
  deriving DecidableEq

/-- What is copied to the start of a field of zeros -/
def Field.of {size : Nat} (bytes : List Byte) (fits : bytes.length ≤ size) : Field size where
  bytes := bytes ++ List.replicate (size - bytes.length) 0
  length_eq := by
    rw [List.length_append, List.length_replicate]
    omega

@[ext]
structure boot_img_hdr where
  magic : Field BOOT_MAGIC_SIZE
  kernel_size : Word
  kernel_addr : Word
  ramdisk_size : Word
  ramdisk_addr : Word
  second_size : Word
  second_addr : Word
  tags_addr : Word
  page_size : Word
  unused : Field 8
  name : Field BOOT_NAME_SIZE
  cmdline : Field BOOT_ARGS_SIZE
  id : Field 32
  deriving DecidableEq

/-- `sizeof(boot_img_hdr)` -/
def headerSize : Nat := 608

/-- The header in memory -/
def boot_img_hdr.bytes (hdr : boot_img_hdr) : List Byte :=
  hdr.magic.bytes ++ memory hdr.kernel_size ++ memory hdr.kernel_addr ++ memory hdr.ramdisk_size ++
    memory hdr.ramdisk_addr ++ memory hdr.second_size ++ memory hdr.second_addr ++ memory hdr.tags_addr ++
    memory hdr.page_size ++ hdr.unused.bytes ++ hdr.name.bytes ++ hdr.cmdline.bytes ++ hdr.id.bytes

/-- The first bytes of what is left of a file -/
def Field.read (size : Nat) (file : List Byte) : Option (Field size × List Byte) :=
  if enough : (file.take size).length = size then some (⟨file.take size, enough⟩, file.drop size) else none

def readWord (file : List Byte) : Option (Word × List Byte) :=
  (Field.read 4 file).map fun (field, file) => (BitVec.ofNat 32 (value field.bytes), file)

/-- The header at the start of a file, and what follows it -/
def boot_img_hdr.read (file : List Byte) : Option (boot_img_hdr × List Byte) := do
  let (magic, file) ← Field.read BOOT_MAGIC_SIZE file
  let (kernel_size, file) ← readWord file
  let (kernel_addr, file) ← readWord file
  let (ramdisk_size, file) ← readWord file
  let (ramdisk_addr, file) ← readWord file
  let (second_size, file) ← readWord file
  let (second_addr, file) ← readWord file
  let (tags_addr, file) ← readWord file
  let (page_size, file) ← readWord file
  let (unused, file) ← Field.read 8 file
  let (name, file) ← Field.read BOOT_NAME_SIZE file
  let (cmdline, file) ← Field.read BOOT_ARGS_SIZE file
  let (id, file) ← Field.read 32 file
  return ({
    magic, kernel_size, kernel_addr, ramdisk_size, ramdisk_addr, second_size, second_addr, tags_addr, page_size, unused,
    name, cmdline, id }, file)

theorem boot_img_hdr.bytes_length (hdr : boot_img_hdr) : hdr.bytes.length = headerSize := by
  simp only [bytes, List.length_append, memory_length, hdr.magic.length_eq, hdr.unused.length_eq, hdr.name.length_eq,
    hdr.cmdline.length_eq, hdr.id.length_eq]
  rfl

@[simp] theorem Field.read_append {size : Nat} (field : Field size) (rest : List Byte) :
    read size (field.bytes ++ rest) = some (field, rest) := by
  have taken : (field.bytes ++ rest).take size = field.bytes := List.take_left' field.length_eq
  have dropped : (field.bytes ++ rest).drop size = rest := List.drop_left' field.length_eq
  simp only [read, taken, dropped, field.length_eq, dite_true]

@[simp] theorem readWord_append (word : Word) (rest : List Byte) : readWord (memory word ++ rest) = some (word, rest) := by
  have field := Field.read_append ⟨memory word, memory_length word⟩ rest
  rw [readWord, field, Option.map_some]
  dsimp only
  rw [value_memory, BitVec.ofNat_toNat, BitVec.setWidth_eq]

theorem boot_img_hdr.read_append (hdr : boot_img_hdr) (rest : List Byte) : read (hdr.bytes ++ rest) = some (hdr, rest) := by
  simp only [bytes, List.append_assoc]
  refine Option.bind_eq_some_iff.mpr ⟨_, Field.read_append hdr.magic _, ?_⟩
  refine Option.bind_eq_some_iff.mpr ⟨_, readWord_append hdr.kernel_size _, ?_⟩
  refine Option.bind_eq_some_iff.mpr ⟨_, readWord_append hdr.kernel_addr _, ?_⟩
  refine Option.bind_eq_some_iff.mpr ⟨_, readWord_append hdr.ramdisk_size _, ?_⟩
  refine Option.bind_eq_some_iff.mpr ⟨_, readWord_append hdr.ramdisk_addr _, ?_⟩
  refine Option.bind_eq_some_iff.mpr ⟨_, readWord_append hdr.second_size _, ?_⟩
  refine Option.bind_eq_some_iff.mpr ⟨_, readWord_append hdr.second_addr _, ?_⟩
  refine Option.bind_eq_some_iff.mpr ⟨_, readWord_append hdr.tags_addr _, ?_⟩
  refine Option.bind_eq_some_iff.mpr ⟨_, readWord_append hdr.page_size _, ?_⟩
  refine Option.bind_eq_some_iff.mpr ⟨_, Field.read_append hdr.unused _, ?_⟩
  refine Option.bind_eq_some_iff.mpr ⟨_, Field.read_append hdr.name _, ?_⟩
  refine Option.bind_eq_some_iff.mpr ⟨_, Field.read_append hdr.cmdline _, ?_⟩
  exact Option.bind_eq_some_iff.mpr ⟨_, Field.read_append hdr.id _, rfl⟩

end BotBrew.BootImage
