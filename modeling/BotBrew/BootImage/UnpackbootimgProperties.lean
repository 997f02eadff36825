import BotBrew.BootImage.MkbootimgProperties
import BotBrew.BootImage.Unpackbootimg

/-! What `unpackbootimg` makes of an image that `mkbootimg` wrote. -/

set_option autoImplicit false

namespace BotBrew.BootImage

open Words Mkbootimg

variable {system : System} {disk : Disk} {argv : List CString} {options : Options} {job : Job} {parts : Parts}

/-! ## An image is read as it was written -/

namespace Unpackbootimg

theorem string_of {size : Nat} {bytes : List Byte} (terminated : 0 ∉ bytes) (shorter : bytes.length < size)
    (after : List Byte) : string ((Field.of bytes shorter.le : Field size).bytes ++ after) = some bytes := by
  obtain ⟨count, missing⟩ : ∃ count, size - bytes.length = count + 1 := ⟨size - bytes.length - 1, by omega⟩
  have plain : ∀ byte ∈ bytes, decide (byte ≠ 0) = true := fun byte member =>
    decide_eq_true fun zero => terminated (zero ▸ member)
  have shape : (Field.of bytes shorter.le : Field size).bytes ++ after =
      bytes ++ (0 :: (List.replicate count 0 ++ after)) := by
    show bytes ++ List.replicate (size - bytes.length) 0 ++ after = _
    rw [missing, List.replicate_succ, List.append_assoc, List.cons_append]
  rw [shape, string, if_pos (List.contains_iff_mem.mpr (List.mem_append_right _ List.mem_cons_self)), List.takeWhile_append_of_pos plain,
    List.takeWhile_cons_of_neg (by decide), List.append_nil]

theorem read_padding_fill {pagesize : Word} (supported : pagesize = 2048 ∨ pagesize = 4096) (itemsize : Word)
    (after : List Byte) : read_padding (fill pagesize.toNat itemsize.toNat ++ after) itemsize pagesize = some after := by
  have mask := pagemask_eq supported itemsize
  have positive : 0 < pagesize.toNat := by rcases supported with rfl | rfl <;> decide
  have signed : 0 < pagesize.toInt := by rcases supported with rfl | rfl <;> decide
  have inside := Nat.mod_lt itemsize.toNat positive
  have aligned : itemsize &&& (pagesize - 1) = 0 ↔ itemsize.toNat % pagesize.toNat = 0 := by
    rw [← mask, ← BitVec.toNat_inj]
    rfl
  rw [read_padding]
  simp only [aligned, signed, if_true]
  split
  case isTrue whole => rw [(fill_eq_nil_iff positive _).mpr (Nat.dvd_of_mod_eq_zero whole), List.nil_append]
  case isFalse open_page =>
    have count : (pagesize - (itemsize &&& (pagesize - 1))).toNat = pagesize.toNat - itemsize.toNat % pagesize.toNat := by
      rw [BitVec.toNat_sub_of_le (by rw [BitVec.le_def, mask]; exact inside.le), mask]
    have short : (pagesize.toNat - itemsize.toNat % pagesize.toNat) % pagesize.toNat =
        pagesize.toNat - itemsize.toNat % pagesize.toNat := Nat.mod_eq_of_lt (by omega)
    rw [count, fill, short, List.drop_left' List.length_replicate]

theorem fread_append {item : List Byte} {count : Nat} (length : count = item.length) (after : List Byte) :
    fread (item ++ after) count = some (item, after) := by
  rw [fread, length, if_pos (by rw [List.length_append]; omega), List.take_left, List.drop_left]

theorem unpack_image {hdr : boot_img_hdr} (describes : Describes hdr parts) {cmdline : List Byte}
    (terminated : 0 ∉ cmdline) (shorter : cmdline.length < BOOT_ARGS_SIZE)
    (given : hdr.cmdline = Field.of cmdline shorter.le) :
    unpack (image hdr parts) 0 =
      some ⟨cmdline, hdr.kernel_addr - 0x00008000, hdr.page_size, parts.kernel, parts.ramdisk⟩ := by
  have supported := describes.page_size
  rw [image, List.append_assoc hdr.bytes, List.append_assoc parts.kernel, List.append_assoc parts.ramdisk]
  refine Option.bind_eq_some_iff.mpr ⟨_, hdr.read_append _, ?_⟩
  refine Option.bind_eq_some_iff.mpr ⟨cmdline, by rw [given]; exact string_of terminated shorter _, ?_⟩
  refine Option.bind_eq_some_iff.mpr ⟨_, read_padding_fill supported (BitVec.ofNat 32 headerSize) _, ?_⟩
  refine Option.bind_eq_some_iff.mpr ⟨_, fread_append describes.kernel_size _, ?_⟩
  rw [← describes.kernel_size]
  refine Option.bind_eq_some_iff.mpr ⟨_, read_padding_fill supported hdr.kernel_size _, ?_⟩
  exact Option.bind_eq_some_iff.mpr ⟨_, fread_append describes.ramdisk_size _, rfl⟩

/-! ## The files that are left -/

theorem foldl_writeFile_other {path other : List Byte} {files : List (List Byte × List Byte)}
    (elsewhere : ∀ file ∈ files, other ≠ path ++ file.1) (disk : Disk) :
    files.foldl (writeFile path) disk other = disk other := by
  induction files generalizing disk with
  | nil => rfl
  | cons file files hypothesis =>
    rw [List.foldl_cons, hypothesis fun later member => elsewhere later (List.mem_cons_of_mem _ member), writeFile,
      Function.update_of_ne (elsewhere file List.mem_cons_self)]

theorem foldl_writeFile {files : List (List Byte × List Byte)} (distinct : (files.map Prod.fst).Nodup) (path : List Byte)
    (disk : Disk) {file : List Byte × List Byte} (member : file ∈ files) :
    files.foldl (writeFile path) disk (path ++ file.1) = some file.2 := by
  induction files generalizing disk with
  | nil => cases member
  | cons first files hypothesis =>
    rw [List.map_cons, List.nodup_cons] at distinct
    rw [List.foldl_cons]
    cases member with
    | head =>
      have elsewhere : ∀ later ∈ files, path ++ file.1 ≠ path ++ later.1 := fun later member same =>
        distinct.1 (List.append_cancel_left same ▸ List.mem_map_of_mem member)
      rw [foldl_writeFile_other elsewhere, writeFile, Function.update_self]
    | tail _ later => exact hypothesis distinct.2 _ later

theorem Unpacked.files_distinct (unpacked : Unpacked) : (unpacked.files.map Prod.fst).Nodup := by
  show [ascii "-cmdline", ascii "-base", ascii "-pagesize", ascii "-zImage", ascii "-ramdisk.gz"].Nodup
  decide +kernel

theorem basename_terminated {path : List Byte} (terminated : 0 ∉ path) : 0 ∉ basename path := by
  have inside : 0 ∉ (path.reverse.dropWhile (· = slash)).takeWhile (· ≠ slash) := fun member =>
    terminated (List.mem_reverse.mp ((List.dropWhile_sublist _).mem ((List.takeWhile_sublist _).mem member)))
  simp only [basename]
  split_ifs
  · decide
  · decide
  · rwa [List.mem_reverse]

end Unpackbootimg

/-! ## Packing, unpacking and packing again -/

open Unpackbootimg (slash basename basename_terminated PATH_MAX Unpacked unpack unpack_image stdout writeFile)

/-- The name of a file that was unpacked -/
def unpackedName (directory filename : CString) (ending : CString) : CString where
  bytes := directory.bytes ++ [slash] ++ basename filename.bytes ++ ending.bytes
  terminated := by
    simp only [List.mem_append, not_or, List.mem_singleton]
    exact ⟨⟨⟨directory.terminated, by decide⟩, basename_terminated filename.terminated⟩, ending.terminated⟩

/-- `unpackbootimg -i filename -o directory` -/
def unpackArguments (directory filename : CString) : List CString :=
  [⟨ascii "-i", by decide⟩, filename, outputOption, directory]

/-- `mkbootimg` over what was unpacked -/
def packArguments (directory filename cmdline base pagesize output : CString) : List CString :=
  [kernelOption, unpackedName directory filename ⟨ascii "-zImage", by decide⟩,
    ramdiskOption, unpackedName directory filename ⟨ascii "-ramdisk.gz", by decide⟩,
    ⟨ascii "--cmdline", by decide⟩, cmdline, ⟨ascii "--base", by decide⟩, base,
    ⟨ascii "--pagesize", by decide⟩, pagesize, outputOption, output]

/-- `%08x` of a word, as an argument -/
def hexArgument (word : Word) : CString := ⟨hex 8 word.toNat, hex_terminated 8 word.toNat⟩

/-- The base that the kernel's address comes from -/
def base (job : Job) : Word := job.options.kernel_addr - 0x00008000

theorem unpack_main {directory filename : CString} {file : List Byte} {unpacked : Unpacked}
    (there : disk filename.bytes = some file) (read : unpack file 0 = some unpacked)
    (short : (directory.bytes ++ [slash] ++ basename filename.bytes).length + 11 < PATH_MAX)
    (creates : ∀ fn, system.creates fn = true) :
    Unpackbootimg.main system disk (unpackArguments directory filename) =
      some (stdout unpacked, unpacked.files.foldl
        (writeFile (directory.bytes ++ [slash] ++ basename filename.bytes)) disk) := by
  have parsed : Unpackbootimg.Options.default.parse (unpackArguments directory filename) =
      .options ⟨directory.bytes, some filename, 0⟩ := by
    simp [unpackArguments, outputOption, Unpackbootimg.Options.parse, Unpackbootimg.Options.default, ascii]
  rw [Unpackbootimg.main, parsed]
  refine Option.bind_eq_some_iff.mpr ⟨file, there, Option.bind_eq_some_iff.mpr ⟨unpacked, read, ?_⟩⟩
  exact if_pos ⟨short, List.all_eq_true.mpr fun file _ => creates _⟩

theorem parse_cons {arg val : CString} {next : Options} (set : options.set arg val = .ok next) (argv : List CString) :
    options.parse (arg :: val :: argv) = next.parse argv := by
  rw [Options.parse, set]
  rfl

/-- The options that packing again gives -/
def packOptions (directory filename cmdline output : CString) (word pagesize : Word) : Options where
  kernel_fn := some (unpackedName directory filename ⟨ascii "-zImage", by decide⟩)
  ramdisk_fn := some (unpackedName directory filename ⟨ascii "-ramdisk.gz", by decide⟩)
  second_fn := none
  cmdline := cmdline
  bootimg := some output
  board := CString.empty
  pagesize := pagesize
  kernel_addr := word + 0x00008000
  ramdisk_addr := word + 0x01000000
  second_addr := word + 0x00F00000
  tags_addr := word + 0x00000100

theorem pack_parse {directory filename cmdline pagesize output : CString} {word : Word}
    (supported : strtoul pagesize.bytes 10 = 2048 ∨ strtoul pagesize.bytes 10 = 4096) :
    Options.default.parse (packArguments directory filename cmdline (hexArgument word) pagesize output) =
      .ok (packOptions directory filename cmdline output word (strtoul pagesize.bytes 10)) := by
  have number : strtoul (hexArgument word).bytes 16 = word := strtoul_hex word
  have accepted : ¬ (strtoul pagesize.bytes 10 ≠ 2048 ∧ strtoul pagesize.bytes 10 ≠ 4096) := by
    rwa [not_and_or, not_not, not_not]
  rw [packArguments, kernelOption, ramdiskOption, outputOption]
  rw [parse_cons (by rw [Options.set, if_neg (by decide), if_pos rfl])]
  rw [parse_cons (by rw [Options.set, if_neg (by decide), if_neg (by decide), if_pos rfl])]
  rw [parse_cons (by
    rw [Options.set, if_neg (by decide), if_neg (by decide), if_neg (by decide), if_neg (by decide), if_pos rfl])]
  rw [parse_cons (by
    rw [Options.set, if_neg (by decide), if_neg (by decide), if_neg (by decide), if_neg (by decide), if_neg (by decide),
      if_pos rfl, number])]
  rw [parse_cons (by
    rw [Options.set, if_neg (by decide), if_neg (by decide), if_neg (by decide), if_neg (by decide), if_neg (by decide),
      if_neg (by decide), if_neg (by decide), if_neg (by decide), if_pos rfl]
    exact if_neg accepted)]
  rw [parse_cons (by rw [Options.set, if_pos (Or.inr rfl)])]
  rfl

theorem packOptions_name_fits (directory filename cmdline output : CString) (word pagesize : Word) :
    (packOptions directory filename cmdline output word pagesize).board.bytes.length < BOOT_NAME_SIZE :=
  show 0 < 16 by decide

def packJob (directory filename cmdline output : CString) (word pagesize : Word)
    (cmdline_fits : cmdline.bytes.length ≤ BOOT_ARGS_SIZE - 1) : Job where
  options := packOptions directory filename cmdline output word pagesize
  bootimg := output
  kernel_fn := unpackedName directory filename ⟨ascii "-zImage", by decide⟩
  ramdisk_fn := unpackedName directory filename ⟨ascii "-ramdisk.gz", by decide⟩
  name_fits := packOptions_name_fits ..
  cmdline_fits := cmdline_fits

theorem load_there {fn : CString} {data : List Byte} (there : disk fn.bytes = some data) (limited : data.length ≤ readLimit)
    (kind : String) : load disk kind fn = .ok data := by
  have loaded : load_file disk fn = some data := by
    rw [load_file, there]
    dsimp only
    rw [if_pos (limited.trans_lt (by decide)), if_pos (Nat.min_eq_left limited)]
  rw [load, loaded]

theorem unpackedName_ne_none (directory filename : CString) :
    (unpackedName directory filename ⟨ascii "-ramdisk.gz", by decide⟩).bytes ≠ ascii "NONE" := by
  intro same
  have lengths := congrArg List.length same
  rw [unpackedName, List.length_append] at lengths
  have ending : (ascii "-ramdisk.gz").length = 11 := by decide
  have none : (ascii "NONE").length = 4 := by decide
  dsimp only at lengths
  omega

theorem pack_prepare {directory filename cmdline pagesize output : CString} {word : Word} {kernel ramdisk : List Byte}
    (kernel_there : disk (unpackedName directory filename ⟨ascii "-zImage", by decide⟩).bytes = some kernel)
    (ramdisk_there : disk (unpackedName directory filename ⟨ascii "-ramdisk.gz", by decide⟩).bytes = some ramdisk)
    (kernel_limit : kernel.length ≤ readLimit) (ramdisk_limit : ramdisk.length ≤ readLimit)
    (cmdline_fits : cmdline.bytes.length ≤ BOOT_ARGS_SIZE - 1)
    (supported : strtoul pagesize.bytes 10 = 2048 ∨ strtoul pagesize.bytes 10 = 4096) :
    prepare disk (packArguments directory filename cmdline (hexArgument word) pagesize output) =
      .ok (packJob directory filename cmdline output word (strtoul pagesize.bytes 10) cmdline_fits,
        ⟨kernel, ramdisk, none⟩) := by
  have checked : (packOptions directory filename cmdline output word (strtoul pagesize.bytes 10)).check =
      .ok (packJob directory filename cmdline output word (strtoul pagesize.bytes 10) cmdline_fits) := by
    rw [Options.check]
    exact (dif_pos (packOptions_name_fits ..)).trans (dif_pos cmdline_fits)
  have ramdisk_loaded : load_ramdisk disk (unpackedName directory filename ⟨ascii "-ramdisk.gz", by decide⟩) =
      .ok ramdisk := by
    rw [load_ramdisk, if_neg (unpackedName_ne_none directory filename), load_there ramdisk_there ramdisk_limit]
  have loaded : (packJob directory filename cmdline output word (strtoul pagesize.bytes 10) cmdline_fits).load disk =
      .ok ⟨kernel, ramdisk, none⟩ := by
    rw [Job.load, packJob, load_there kernel_there kernel_limit, ramdisk_loaded]
    rfl
  rw [prepare, pack_parse supported]
  show (Options.check _ >>= _) = _
  rw [checked]
  show (Job.load _ disk >>= _) = _
  rw [loaded]
  rfl

/-- Where nothing of an image is lost by unpacking it -/
structure Plain (job : Job) (parts : Parts) : Prop where
  ramdisk_addr : job.options.ramdisk_addr = base job + 0x01000000
  board : job.options.board.bytes = []
  second : parts.second = none ∨ parts.second = some [] ∧ job.options.pagesize.toNat ∣ parts.ramdisk.length

theorem boot_img_hdr.bytes_injective {hdr other : boot_img_hdr} (same : hdr.bytes = other.bytes) : hdr = other := by
  have read := hdr.read_append []
  rw [same, other.read_append []] at read
  exact (Prod.mk.inj (Option.some.inj read)).1.symm

theorem Field.of_empty {size : Nat} {string : CString} (fits : string.bytes.length ≤ size)
    (empty_fits : ([] : List Byte).length ≤ size)
    (same : (Field.of string.bytes fits : Field size) = Field.of [] empty_fits) : string.bytes = [] := by
  have bytes : string.bytes ++ List.replicate (size - string.bytes.length) 0 = List.replicate size 0 :=
    congrArg Field.bytes same
  apply List.eq_nil_iff_forall_not_mem.mpr
  intro byte member
  have zero : byte = 0 := List.eq_of_mem_replicate (bytes ▸ List.mem_append_left _ member)
  exact string.terminated (zero ▸ member)

theorem Field.of_congr {size : Nat} {bytes other : List Byte} (fits : bytes.length ≤ size)
    (other_fits : other.length ≤ size) (same : bytes = other) :
    (Field.of bytes fits : Field size) = Field.of other other_fits := by
  subst same
  rfl

theorem digest_eq (system other : System) (pieces : List (List Byte)) : digest system pieces = digest other pieces :=
  (Mincrypt.generic_correct.stream system.ctx pieces).trans (Mincrypt.generic_correct.stream other.ctx pieces).symm

section Again

variable {directory filename cmdline output : CString} {cmdline_fits : cmdline.bytes.length ≤ BOOT_ARGS_SIZE - 1}
  {system' : System}

/-- The header of the image that is packed again -/
theorem pack_header (sound : job.options.Sound) (plain : Plain job parts) (same_cmdline : job.options.cmdline = cmdline) :
    (packJob directory filename cmdline output (base job) job.options.pagesize cmdline_fits).header system'
        ⟨parts.kernel, parts.ramdisk, none⟩ = job.header system parts := by
  subst same_cmdline
  have second : [] = parts.second_data := by
    rcases plain.second with none | ⟨empty, _⟩
    · rw [Parts.second_data, none, Option.getD_none]
    · rw [Parts.second_data, empty, Option.getD_some]
  have hashed : (⟨parts.kernel, parts.ramdisk, none⟩ : Parts).hashed = parts.hashed := by
    rw [Parts.hashed, Parts.hashed, ← second]
    rfl
  have kernel_addr : base job + 0x00008000 = job.options.kernel_addr := by rw [base, BitVec.sub_add_cancel]
  have id : digest system' (⟨parts.kernel, parts.ramdisk, none⟩ : Parts).hashed = digest system parts.hashed := by
    rw [hashed, digest_eq]
  apply boot_img_hdr.ext
  case magic => rfl
  case kernel_size => rfl
  case kernel_addr => exact kernel_addr
  case ramdisk_size => rfl
  case ramdisk_addr => exact plain.ramdisk_addr.symm
  case second_size => exact congrArg (fun data : List Byte => BitVec.ofNat 32 data.length) second
  case second_addr => exact sound.second_addr.symm
  case tags_addr => exact sound.tags_addr.symm
  case page_size => rfl
  case unused => rfl
  case name => exact Field.of_congr (Nat.zero_le _) job.name_fits.le plain.board.symm
  case cmdline => rfl
  case id => exact Field.of_congr (digest_fits ..) (digest_fits ..) id

theorem image_header {hdr other : boot_img_hdr} {parts others : Parts} (same : image hdr parts = image other others) :
    hdr = other := by
  rw [image, image, List.append_assoc hdr.bytes, List.append_assoc other.bytes] at same
  exact boot_img_hdr.bytes_injective
    (List.append_inj same (hdr.bytes_length.trans other.bytes_length.symm)).1

/-- Packing again gives the same image exactly where nothing was lost. -/
theorem pack_image (prepared : prepare disk argv = .ok (job, parts)) (same_cmdline : job.options.cmdline = cmdline) :
    image ((packJob directory filename cmdline output (base job) job.options.pagesize cmdline_fits).header system'
        ⟨parts.kernel, parts.ramdisk, none⟩) ⟨parts.kernel, parts.ramdisk, none⟩ = image (job.header system parts) parts ↔
      Plain job parts := by
  obtain ⟨sound, limited⟩ := prepare_ok prepared
  have positive : 0 < job.options.pagesize.toNat := by rcases sound.pagesize with size | size <;> rw [size] <;> decide
  have aligned_iff := fill_eq_nil_iff positive parts.ramdisk.length
  constructor
  · intro same
    have header := image_header same
    have size : (BitVec.ofNat 32 0).toNat = (BitVec.ofNat 32 parts.second_data.length).toNat :=
      congrArg (fun hdr : boot_img_hdr => hdr.second_size.toNat) header
    rw [size_toNat limited.second] at size
    have second : parts.second_data = [] := List.length_eq_zero_iff.mp size.symm
    refine ⟨?_, ?_, ?_⟩
    · exact (congrArg boot_img_hdr.ramdisk_addr header).symm
    · exact Field.of_empty job.name_fits.le (Nat.zero_le _) (congrArg boot_img_hdr.name header).symm
    · cases given : parts.second with
      | none => exact Or.inl rfl
      | some second_data =>
        rw [Parts.second_data, given, Option.getD_some] at second
        subst second
        rw [header, image, image, given] at same
        have tail : [] = [] ++ fill job.options.pagesize.toNat parts.ramdisk.length :=
          List.append_cancel_left (List.append_cancel_left (List.append_cancel_left same))
        rw [List.nil_append] at tail
        exact Or.inr ⟨rfl, aligned_iff.mp tail.symm⟩
  · intro plain
    rw [pack_header sound plain same_cmdline, image, image]
    rcases plain.second with none | ⟨empty, aligned⟩
    · rw [none]
    · rw [empty]
      exact congrArg (fun tail => _ ++ (_ ++ (_ ++ ([] ++ tail)))) (aligned_iff.mpr aligned).symm

end Again

/-- What `unpackbootimg` finds in the image of a job -/
def Mkbootimg.Job.unpacked (job : Job) (parts : Parts) : Unpacked :=
  ⟨job.options.cmdline.bytes, base job, job.options.pagesize, parts.kernel, parts.ramdisk⟩

theorem unpack_prepared (prepared : prepare disk argv = .ok (job, parts)) (system : System) :
    unpack (image (job.header system parts) parts) 0 = some (job.unpacked parts) := by
  obtain ⟨sound, limited⟩ := prepare_ok prepared
  have shorter : job.options.cmdline.bytes.length < BOOT_ARGS_SIZE := by
    have fits := job.cmdline_fits
    rw [BOOT_ARGS_SIZE] at fits ⊢
    omega
  exact unpack_image (Job.header_describes sound limited) job.options.cmdline.terminated shorter rfl

/-- An image that `mkbootimg` has made comes apart into what it was made of, and `mkbootimg` puts it together again from
these files, the command line and the base: to the same image just if there was no second stage and no board name, and
the ramdisk had the address that comes from the base. -/
theorem unpack_of_pack (packed : (Mkbootimg.main system disk argv).code = 0) :
    ∃ job parts, prepare disk argv = .ok (job, parts) ∧
      ∀ {system' : System} {directory : CString},
        (directory.bytes ++ [slash] ++ basename job.bootimg.bytes).length + 11 < PATH_MAX →
        (∀ fn, system'.creates fn = true) →
        ∃ printed disk',
          Unpackbootimg.main system' (Mkbootimg.main system disk argv).disk (unpackArguments directory job.bootimg) =
            some (printed, disk') ∧
          (∀ file ∈ (job.unpacked parts).files,
            disk' (directory.bytes ++ [slash] ++ basename job.bootimg.bytes ++ file.1) = some file.2) ∧
          ∀ {pagesize output : CString}, strtoul pagesize.bytes 10 = job.options.pagesize →
            ∃ job', prepare disk' (packArguments directory job.bootimg job.options.cmdline (hexArgument (base job))
                pagesize output) = .ok (job', ⟨parts.kernel, parts.ramdisk, none⟩) ∧
              ∀ system'', image (job'.header system'' ⟨parts.kernel, parts.ramdisk, none⟩)
                  ⟨parts.kernel, parts.ramdisk, none⟩ = image (job.header system parts) parts ↔ Plain job parts := by
  obtain ⟨job, parts, prepared, written⟩ := main_image packed
  obtain ⟨sound, limited⟩ := prepare_ok prepared
  refine ⟨job, parts, prepared, ?_⟩
  intro system' directory short creates
  have there : (Mkbootimg.main system disk argv).disk job.bootimg.bytes =
      some (image (job.header system parts) parts) := by
    rw [written, Function.update_self]
  have files {file : List Byte × List Byte} (member : file ∈ (job.unpacked parts).files) :=
    Unpackbootimg.foldl_writeFile (job.unpacked parts).files_distinct
      (directory.bytes ++ [slash] ++ basename job.bootimg.bytes) (Mkbootimg.main system disk argv).disk member
  refine ⟨_, _, unpack_main there (unpack_prepared prepared system) short creates, fun file => files, ?_⟩
  intro pagesize output number
  have supported : strtoul pagesize.bytes 10 = 2048 ∨ strtoul pagesize.bytes 10 = 4096 := by
    rw [number]
    exact sound.pagesize
  have kernel_there : (ascii "-zImage", parts.kernel) ∈ (job.unpacked parts).files := by
    simp only [Unpacked.files, Job.unpacked, List.mem_cons, true_or, or_true]
  have ramdisk_there : (ascii "-ramdisk.gz", parts.ramdisk) ∈ (job.unpacked parts).files := by
    simp only [Unpacked.files, Job.unpacked, List.mem_cons, true_or, or_true]
  have again : prepare _ (packArguments directory job.bootimg job.options.cmdline (hexArgument (base job)) pagesize
      output) = _ :=
    pack_prepare (files kernel_there) (files ramdisk_there) limited.kernel limited.ramdisk job.cmdline_fits supported
  refine ⟨_, again, fun system'' => ?_⟩
  rw [number]
  exact pack_image prepared rfl

theorem main_small : (Mkbootimg.main smallSystem smallDisk smallArguments).code = 0 :=
  main_willing (fun _ => ⟨readLimit, rfl, Nat.le_refl _⟩) (fun _ => rfl) prepare_small

theorem small_plain : Plain smallJob ⟨[1, 2], [3], none⟩ := ⟨rfl, rfl, .inl rfl⟩

/-- Unpacked and packed again -/
theorem unpack_of_pack_small : ∃ printed disk' job',
    Unpackbootimg.main smallSystem (Mkbootimg.main smallSystem smallDisk smallArguments).disk
        (unpackArguments ⟨ascii "d", by decide⟩ smallJob.bootimg) = some (printed, disk') ∧
      prepare disk' (packArguments ⟨ascii "d", by decide⟩ smallJob.bootimg smallJob.options.cmdline
        (hexArgument (base smallJob)) ⟨ascii "2048", by decide⟩ ⟨ascii "o", by decide⟩) =
          .ok (job', ⟨[1, 2], [3], none⟩) ∧
      image (job'.header smallSystem ⟨[1, 2], [3], none⟩) ⟨[1, 2], [3], none⟩ =
        image (smallJob.header smallSystem ⟨[1, 2], [3], none⟩) ⟨[1, 2], [3], none⟩ := by
  obtain ⟨job, parts, prepared, unpacks⟩ := unpack_of_pack main_small
  have same := prepared.symm.trans prepare_small
  cases same
  obtain ⟨printed, disk', unpacked, _, packs⟩ :=
    @unpacks smallSystem ⟨ascii "d", by decide⟩ (by decide) (fun _ => rfl)
  obtain ⟨job', prepared', image_iff⟩ :=
    @packs ⟨ascii "2048", by decide⟩ ⟨ascii "o", by decide⟩ (by decide)
  exact ⟨printed, disk', job', unpacked, prepared', (image_iff smallSystem).mpr small_plain⟩

theorem parse_append {before : List CString} (pairs : 2 ∣ before.length) (after : List CString) :
    options.parse (before ++ after) = options.parse before >>= fun options => options.parse after := by
  induction options, before using Options.parse.induct with
  | case1 options => rfl
  | case2 options arg => simp at pairs
  | case3 options arg val before hypothesis =>
    rw [List.cons_append, List.cons_append, Options.parse, Options.parse]
    cases set : options.set arg val with
    | error failure => rfl
    | ok next => exact hypothesis next (by simpa using pairs)

def pagesizeOption : CString := ⟨ascii "--pagesize", by decide⟩

/-- The digits in front of the first letter of a word in hexadecimal are those of a page size. -/
def ReadsPagesize (word : Word) : Prop :=
  ∃ zeros, (hex 8 word.toNat).takeWhile decimalDigit = List.replicate zeros (digit 0) ++ ascii "2048" ∨
    (hex 8 word.toNat).takeWhile decimalDigit = List.replicate zeros (digit 0) ++ ascii "4096"

theorem set_pagesize_iff (options : Options) (word : Word) :
    (∃ next, options.set pagesizeOption (hexArgument word) = .ok next) ↔ ReadsPagesize word := by
  have first := @strtoul_hex_decimal word 2 0 4 8 (by decide) (by decide)
  have second := @strtoul_hex_decimal word 4 0 9 6 (by decide) (by decide)
  have set : options.set pagesizeOption (hexArgument word) =
      if strtoul (hex 8 word.toNat) 10 ≠ 2048 ∧ strtoul (hex 8 word.toNat) 10 ≠ 4096 then
        .error (.unsupported_page_size (strtoul (hex 8 word.toNat) 10))
      else .ok { options with pagesize := strtoul (hex 8 word.toNat) 10 } := by
    rw [Options.set, pagesizeOption, if_neg (by decide), if_neg (by decide), if_neg (by decide), if_neg (by decide),
      if_neg (by decide), if_neg (by decide), if_neg (by decide), if_neg (by decide), if_pos rfl]
    rfl
  rw [ReadsPagesize, exists_or, set]
  refine Iff.trans ?_ (or_congr first second)
  by_cases supported : strtoul (hex 8 word.toNat) 10 = 2048 ∨ strtoul (hex 8 word.toNat) 10 = 4096
  · rw [if_neg (by rwa [not_and_or, not_not, not_not])]
    exact iff_of_true ⟨_, rfl⟩ supported
  · rw [if_pos (not_or.mp supported)]
    exact iff_of_false (fun known => by cases known.choose_spec) supported

/-- An option that is refused ends the run before anything is done. -/
theorem main_refused {before : List CString} (pairs : 2 ∣ before.length) {arg val : CString}
    (refused : ∀ options : Options, ¬ ∃ next, options.set arg val = .ok next) (after : List CString) (system : System)
    (disk : Disk) :
    (Mkbootimg.main system disk (before ++ arg :: val :: after)).code ≠ 0 ∧
      (Mkbootimg.main system disk (before ++ arg :: val :: after)).disk = disk := by
  have failed : ∃ failure, prepare disk (before ++ arg :: val :: after) = .error failure := by
    rw [prepare, parse_append pairs]
    cases parsed : Options.default.parse before with
    | error failure => exact ⟨failure, rfl⟩
    | ok options =>
      cases set : options.set arg val with
      | ok next => exact absurd ⟨next, set⟩ (refused options)
      | error failure =>
        refine ⟨failure, ?_⟩
        rw [bind_value, Options.parse, set]
        rfl
  obtain ⟨failure, failed⟩ := failed
  rw [Mkbootimg.main, failed]
  exact ⟨failure.code_ne, rfl⟩

theorem pagesize_unread {word : Word} (supported : word = 2048 ∨ word = 4096) : ¬ ReadsPagesize word := by
  intro reads
  have set := (set_pagesize_iff Options.default word).mpr reads
  rcases supported with rfl | rfl
  · obtain ⟨next, set⟩ := set
    cases set
  · obtain ⟨next, set⟩ := set
    cases set

/-- `unpackbootimg` writes the page size of a header in hexadecimal, and `mkbootimg` takes the text just if the digits in
front of its first letter are those of a page size in decimal, which those of no image of its own are. -/
theorem unpacked_pagesize_refused (unpacked : Unpacked) :
    (ascii "-pagesize", (hexArgument unpacked.page_size).bytes ++ ascii "\n") ∈ unpacked.files ∧
      (∀ options : Options, (∃ next, options.set pagesizeOption (hexArgument unpacked.page_size) = .ok next) ↔
        ReadsPagesize unpacked.page_size) ∧
      (¬ ReadsPagesize unpacked.page_size → ∀ before : List CString, 2 ∣ before.length → ∀ after system disk,
        (Mkbootimg.main system disk
          (before ++ pagesizeOption :: hexArgument unpacked.page_size :: after)).code ≠ 0 ∧
        (Mkbootimg.main system disk
          (before ++ pagesizeOption :: hexArgument unpacked.page_size :: after)).disk = disk) ∧
      ∀ disk argv job parts, prepare disk argv = .ok (job, parts) → unpacked = job.unpacked parts →
        ¬ ReadsPagesize unpacked.page_size := by
  refine ⟨?_, fun options => set_pagesize_iff options _, fun unread before pairs after system disk => ?_,
    fun disk argv job parts prepared same => ?_⟩
  · simp only [Unpacked.files, hexArgument, List.mem_cons, true_or, or_true]
  · exact main_refused pairs (fun options known => unread ((set_pagesize_iff options _).mp known)) after system disk
  · subst same
    exact pagesize_unread (prepare_ok prepared).1.pagesize

theorem unpacked_pagesize_refused_small :
    (Mkbootimg.main smallSystem smallDisk (smallArguments ++ [pagesizeOption, hexArgument 2048])).code ≠ 0 ∧
      ∃ next, Options.default.set pagesizeOption (hexArgument 0x2048a) = .ok next := by
  obtain ⟨-, -, refuses, own⟩ := unpacked_pagesize_refused (smallJob.unpacked ⟨[1, 2], [3], none⟩)
  obtain ⟨-, takes, -, -⟩ := unpacked_pagesize_refused ⟨[], 0, 0x2048a, [], []⟩
  refine ⟨(refuses (own _ _ _ _ prepare_small rfl) smallArguments (by decide) [] smallSystem smallDisk).1, ?_⟩
  exact (takes Options.default).mpr ⟨3, .inl (by decide)⟩

end BotBrew.BootImage
