import BotBrew.BootImage.Mkbootimg
import BotBrew.Mincrypt.ShaProperties
import BotBrew.Words.Alignment

/-! The image that `mkbootimg` writes: its pages, its header and its digest. -/

set_option autoImplicit false

namespace BotBrew.BootImage.Mkbootimg

open Words Mincrypt Hashing

variable {system : System} {disk : Disk} {argv : List CString} {options next : Options} {job : Job} {parts : Parts}

/-! ## What has passed the checks -/

theorem bind_ok {ε α β : Type} {first : Except ε α} {rest : α → Except ε β} {result : β}
    (ok : (first >>= rest) = .ok result) : ∃ value, first = .ok value ∧ rest value = .ok result := by
  cases first with
  | error failure => cases ok
  | ok value => exact ⟨value, rfl, ok⟩

theorem bind_value {ε α β : Type} (value : α) (rest : α → Except ε β) : (Except.ok value >>= rest) = rest value := rfl

/-- What every option keeps, the whole command line keeps. -/
theorem Options.parse_keeps {P : Options → Prop}
    (step : ∀ {options next : Options} {arg val : CString}, P options → options.set arg val = .ok next → P next)
    (start : P options) (parsed : options.parse argv = .ok next) : P next := by
  induction options, argv using Options.parse.induct with
  | case1 options =>
    cases parsed
    exact start
  | case2 options arg => cases parsed
  | case3 options arg val argv hypothesis =>
    obtain ⟨after, set, rest⟩ := bind_ok parsed
    exact hypothesis after (step start set) rest

/-- The invariant of the options: `--base` sets all four addresses, and only that of the ramdisk is set elsewhere. -/
structure Options.Sound (options : Options) : Prop where
  pagesize : options.pagesize = 2048 ∨ options.pagesize = 4096
  second_addr : options.second_addr = options.kernel_addr - 0x00008000 + 0x00F00000
  tags_addr : options.tags_addr = options.kernel_addr - 0x00008000 + 0x00000100

theorem Options.default_sound : Options.default.Sound := ⟨Or.inl rfl, rfl, rfl⟩

@[simp] theorem Options.base_pagesize (options : Options) (base : Word) :
    (options.base base).pagesize = options.pagesize := by
  rw [Options.base]

theorem Options.base_sound (sound : options.Sound) (base : Word) : (options.base base).Sound := by
  constructor
  · rw [base_pagesize]
    exact sound.pagesize
  · simp only [Options.base, BitVec.add_sub_cancel]
  · simp only [Options.base, BitVec.add_sub_cancel]

theorem Options.set_sound {arg val : CString} (sound : options.Sound) (set : options.set arg val = .ok next) :
    next.Sound := by
  have kept := sound
  obtain ⟨pagesize, second_addr, tags_addr⟩ := sound
  simp only [Options.set] at set
  split_ifs at set with _ _ _ _ _ _ _ _ _ unsupported <;> cases set
  · exact ⟨pagesize, second_addr, tags_addr⟩
  · exact ⟨pagesize, second_addr, tags_addr⟩
  · exact ⟨pagesize, second_addr, tags_addr⟩
  · exact ⟨pagesize, second_addr, tags_addr⟩
  · exact ⟨pagesize, second_addr, tags_addr⟩
  · exact Options.base_sound kept _
  · exact ⟨pagesize, second_addr, tags_addr⟩
  · exact ⟨pagesize, second_addr, tags_addr⟩
  · rw [not_and_or, not_not, not_not] at unsupported
    exact ⟨unsupported, second_addr, tags_addr⟩

theorem Options.parse_sound (parsed : Options.default.parse argv = .ok options) : options.Sound :=
  parse_keeps set_sound default_sound parsed

theorem load_file_limit {fn : CString} {data : List Byte} (loaded : load_file disk fn = some data) :
    data.length ≤ readLimit := by
  rw [load_file] at loaded
  split at loaded
  case h_1 => cases loaded
  case h_2 =>
    split_ifs at loaded with _ whole
    cases loaded
    exact min_eq_left_iff.mp whole

theorem load_limit {kind : String} {fn : CString} {data : List Byte} (loaded : load disk kind fn = .ok data) :
    data.length ≤ readLimit := by
  rw [load] at loaded
  split at loaded
  case h_1 => cases loaded
  case h_2 file =>
    cases loaded
    exact load_file_limit file

/-- No part is larger than one `read` gives. -/
structure Parts.Limited (parts : Parts) : Prop where
  kernel : parts.kernel.length ≤ readLimit
  ramdisk : parts.ramdisk.length ≤ readLimit
  second : parts.second_data.length ≤ readLimit

theorem Job.load_limited (loaded : job.load disk = .ok parts) : parts.Limited := by
  obtain ⟨kernel, kernel_loaded, loaded⟩ := bind_ok loaded
  obtain ⟨ramdisk, ramdisk_loaded, loaded⟩ := bind_ok loaded
  obtain ⟨second, second_loaded, loaded⟩ := bind_ok loaded
  cases loaded
  refine ⟨load_limit kernel_loaded, ?_, ?_⟩
  · rw [load_ramdisk] at ramdisk_loaded
    split_ifs at ramdisk_loaded
    · cases ramdisk_loaded
      exact Nat.zero_le _
    · exact load_limit ramdisk_loaded
  · cases given : job.options.second_fn with
    | none =>
      rw [given] at second_loaded
      cases second_loaded
      exact Nat.zero_le _
    | some second_fn =>
      rw [given, load_second] at second_loaded
      cases file : Mkbootimg.load disk "secondstage" second_fn with
      | error failure => rw [file] at second_loaded; cases second_loaded
      | ok data =>
        rw [file] at second_loaded
        cases second_loaded
        exact load_limit file

theorem Options.check_options (checked : options.check = .ok job) : job.options = options := by
  unfold Options.check at checked
  repeat' split at checked
  all_goals cases checked
  rfl

theorem prepare_ok (prepared : prepare disk argv = .ok (job, parts)) : job.options.Sound ∧ parts.Limited := by
  obtain ⟨options, parsed, prepared⟩ := bind_ok prepared
  obtain ⟨checked, check, prepared⟩ := bind_ok prepared
  obtain ⟨loaded, load, prepared⟩ := bind_ok prepared
  cases prepared
  rw [Options.check_options check]
  exact ⟨Options.parse_sound parsed, Job.load_limited load⟩

/-! ## What is written -/

/-- The whole image -/
def image (hdr : boot_img_hdr) (parts : Parts) : List Byte :=
  hdr.bytes ++ fill hdr.page_size.toNat headerSize ++
    (parts.kernel ++ fill hdr.page_size.toNat parts.kernel.length ++
      (parts.ramdisk ++ fill hdr.page_size.toNat parts.ramdisk.length ++
        match parts.second with
        | none => []
        | some second_data => second_data ++ fill hdr.page_size.toNat parts.ramdisk.length))

variable {fd after : Fd}

/-- After these bytes the piece is written, or a beginning of it. -/
def Writes (before piece : List Byte) : Except Fd Fd → Prop
  | .ok after => after.content = before ++ piece
  | .error after => after.content <+: before ++ piece

theorem Writes.bind {before piece rest : List Byte} {first : Except Fd Fd} {next : Fd → Except Fd Fd}
    (writes : Writes before piece first)
    (continues : ∀ fd, fd.content = before ++ piece → Writes (before ++ piece) rest (next fd)) :
    Writes before (piece ++ rest) (first >>= next) := by
  cases first with
  | error after =>
    show after.content <+: _
    rw [← List.append_assoc]
    exact List.IsPrefix.trans writes (List.prefix_append _ _)
  | ok after =>
    have later := continues after writes
    show Writes before (piece ++ rest) (next after)
    cases ending : next after with
    | error fd =>
      rw [ending, Writes, List.append_assoc] at later
      exact later
    | ok fd =>
      rw [ending, Writes, List.append_assoc] at later
      exact later

theorem write_writes (system : System) (fd : Fd) (data : List Byte) :
    Writes fd.content data (write system fd data data.length) := by
  rw [write]
  cases system.takes fd.writes with
  | none => exact List.prefix_append _ _
  | some count =>
    dsimp only
    split
    case isTrue whole => exact congrArg (fd.content ++ ·) (List.take_of_length_le (min_eq_right_iff.mp whole))
    case isFalse => exact (List.prefix_append_right_inj _).mpr (List.take_prefix _ _)

/-- Every `write` takes as much as one can. -/
def Willing (system : System) : Prop := ∀ writes, ∃ count, system.takes writes = some count ∧ readLimit ≤ count

theorem write_willing (willing : Willing system) (fd : Fd) {data : List Byte} (limited : data.length ≤ readLimit) :
    ∃ after, write system fd data data.length = .ok after := by
  obtain ⟨count, takes, enough⟩ := willing fd.writes
  exact ⟨⟨fd.content ++ data.take count, fd.writes + 1⟩, by
    rw [write, takes]
    exact if_pos (Nat.min_eq_right (limited.trans enough))⟩

theorem pagemask_eq {pagesize : Word} (supported : pagesize = 2048 ∨ pagesize = 4096) (itemsize : Word) :
    (itemsize &&& (pagesize - 1)).toNat = itemsize.toNat % pagesize.toNat := by
  rcases supported with rfl | rfl
  · exact (BitVec.toNat_and ..).trans (Nat.and_two_pow_sub_one_eq_mod itemsize.toNat 11)
  · exact (BitVec.toNat_and ..).trans (Nat.and_two_pow_sub_one_eq_mod itemsize.toNat 12)

/-- The padding of an item is one `write` of what is missing, or none. -/
theorem write_padding_eq {pagesize : Word} (supported : pagesize = 2048 ∨ pagesize = 4096) (fd : Fd) (itemsize : Word) :
    write_padding system fd pagesize itemsize =
      if itemsize.toNat % pagesize.toNat = 0 then .ok fd
      else write system fd (fill pagesize.toNat itemsize.toNat) (fill pagesize.toNat itemsize.toNat).length := by
  have mask := pagemask_eq supported itemsize
  have size : pagesize.toNat = 2048 ∨ pagesize.toNat = 4096 := supported.imp (congrArg _) (congrArg _)
  have positive : 0 < pagesize.toNat := by omega
  have inside := Nat.mod_lt itemsize.toNat positive
  have aligned : itemsize &&& (pagesize - 1) = 0 ↔ itemsize.toNat % pagesize.toNat = 0 := by
    rw [← mask, ← BitVec.toNat_inj]
    rfl
  rw [write_padding]
  simp only [aligned]
  split
  · rfl
  · rename_i open_page
    have count : (pagesize - (itemsize &&& (pagesize - 1))).toNat = pagesize.toNat - itemsize.toNat % pagesize.toNat := by
      rw [BitVec.toNat_sub_of_le (by rw [BitVec.le_def, mask]; exact inside.le), mask]
    have short : (pagesize.toNat - itemsize.toNat % pagesize.toNat) % pagesize.toNat =
        pagesize.toNat - itemsize.toNat % pagesize.toNat := Nat.mod_eq_of_lt (by omega)
    rw [count, fill, short, List.length_replicate, padding, List.take_replicate, Nat.min_eq_left (by omega)]

theorem write_padding_writes {pagesize itemsize : Word} (supported : pagesize = 2048 ∨ pagesize = 4096)
    (system : System) (fd : Fd) :
    Writes fd.content (fill pagesize.toNat itemsize.toNat) (write_padding system fd pagesize itemsize) := by
  have positive : 0 < pagesize.toNat := by rcases supported with rfl | rfl <;> decide
  rw [write_padding_eq supported]
  split
  case isTrue aligned =>
    rw [(fill_eq_nil_iff positive itemsize.toNat).mpr (Nat.dvd_of_mod_eq_zero aligned)]
    exact (List.append_nil _).symm
  case isFalse => exact write_writes system fd _

theorem write_padding_willing {pagesize : Word} (willing : Willing system) (supported : pagesize = 2048 ∨ pagesize = 4096)
    (fd : Fd) (itemsize : Word) : ∃ after, write_padding system fd pagesize itemsize = .ok after := by
  rw [write_padding_eq supported]
  split
  · exact ⟨fd, rfl⟩
  · apply write_willing willing
    have size : pagesize.toNat = 2048 ∨ pagesize.toNat = 4096 := supported.imp (congrArg _) (congrArg _)
    have positive : 0 < pagesize.toNat := by omega
    have inside := Nat.mod_lt (pagesize.toNat - itemsize.toNat % pagesize.toNat) positive
    rw [fill, List.length_replicate, readLimit]
    omega

/-- A header with the sizes of the parts, and a page size that padding works for -/
structure Describes (hdr : boot_img_hdr) (parts : Parts) : Prop where
  page_size : hdr.page_size = 2048 ∨ hdr.page_size = 4096
  kernel_size : hdr.kernel_size.toNat = parts.kernel.length
  ramdisk_size : hdr.ramdisk_size.toNat = parts.ramdisk.length
  second_size : hdr.second_size.toNat = parts.second_data.length

theorem size_toNat {data : List Byte} (limited : data.length ≤ readLimit) :
    (BitVec.ofNat 32 data.length).toNat = data.length := by
  rw [BitVec.toNat_ofNat]
  exact Nat.mod_eq_of_lt (limited.trans_lt (by decide))

theorem Job.header_describes (sound : job.options.Sound) (limited : parts.Limited) :
    Describes (job.header system parts) parts :=
  ⟨sound.pagesize, size_toNat limited.kernel, size_toNat limited.ramdisk, size_toNat limited.second⟩

/-- The image is written piece by piece, as far as it is written at all. -/
theorem writeImage_writes {hdr : boot_img_hdr} (describes : Describes hdr parts) (system : System) :
    Writes [] (image hdr parts) (writeImage system hdr parts) := by
  have page_size := describes.page_size
  have padded (before : List Byte) (itemsize : Word) (fd : Fd) (content : fd.content = before) :
      Writes before (fill hdr.page_size.toNat itemsize.toNat) (write_padding system fd hdr.page_size itemsize) :=
    content ▸ write_padding_writes page_size system fd
  have written (before data : List Byte) (size : Nat) (same : size = data.length) (fd : Fd)
      (content : fd.content = before) : Writes before data (write system fd data size) := by
    rw [same, ← content]
    exact write_writes system fd data
  rw [image, List.append_assoc hdr.bytes, List.append_assoc parts.kernel, List.append_assoc parts.ramdisk]
  refine (written [] _ _ hdr.bytes_length.symm ⟨[], 0⟩ rfl).bind fun _ content => ?_
  refine (padded _ (BitVec.ofNat 32 headerSize) _ content).bind fun _ content => ?_
  refine (written _ _ _ describes.kernel_size _ content).bind fun _ content => ?_
  rw [← describes.kernel_size]
  refine (padded _ _ _ content).bind fun _ content => ?_
  refine (written _ _ _ describes.ramdisk_size _ content).bind fun _ content => ?_
  rw [← describes.ramdisk_size]
  refine (padded _ _ _ content).bind fun _ content => ?_
  have second_size := describes.second_size
  cases second : parts.second with
  | none => exact content.trans (List.append_nil _).symm
  | some second_data =>
    rw [Parts.second_data, second, Option.getD_some] at second_size
    exact (written _ _ _ second_size _ content).bind fun _ content => padded _ _ _ content

theorem writeImage_willing (willing : Willing system) {hdr : boot_img_hdr} (describes : Describes hdr parts)
    (limited : parts.Limited) : ∃ after, writeImage system hdr parts = .ok after := by
  have header_limit : hdr.bytes.length ≤ readLimit := by rw [hdr.bytes_length]; decide
  obtain ⟨header, header_written⟩ := write_willing willing ⟨[], 0⟩ header_limit
  obtain ⟨header_page, header_padded⟩ :=
    write_padding_willing willing describes.page_size header (BitVec.ofNat 32 headerSize)
  obtain ⟨kernel, kernel_written⟩ := write_willing willing header_page limited.kernel
  obtain ⟨kernel_pages, kernel_padded⟩ := write_padding_willing willing describes.page_size kernel hdr.kernel_size
  obtain ⟨ramdisk, ramdisk_written⟩ := write_willing willing kernel_pages limited.ramdisk
  obtain ⟨ramdisk_pages, ramdisk_padded⟩ := write_padding_willing willing describes.page_size ramdisk hdr.ramdisk_size
  rw [hdr.bytes_length] at header_written
  rw [← describes.kernel_size] at kernel_written
  rw [← describes.ramdisk_size] at ramdisk_written
  simp only [writeImage, header_written, header_padded, kernel_written, kernel_padded, ramdisk_written, ramdisk_padded,
    bind_value]
  cases second : parts.second with
  | none => exact ⟨ramdisk_pages, rfl⟩
  | some second_data =>
    have second_size := describes.second_size
    have second_limit := limited.second
    rw [Parts.second_data, second, Option.getD_some] at second_size second_limit
    obtain ⟨tail, tail_written⟩ := write_willing willing ramdisk_pages second_limit
    obtain ⟨tail_pages, tail_padded⟩ := write_padding_willing willing describes.page_size tail hdr.ramdisk_size
    exact ⟨tail_pages, by simp only [second_size, tail_written, bind_value, tail_padded]⟩

theorem Failure.code_ne (failure : Failure) : failure.code ≠ 0 := by
  cases failure <;> exact of_decide_eq_true rfl

/-- A run that ends well has written the whole image. -/
theorem main_image (success : (main system disk argv).code = 0) :
    ∃ job parts, prepare disk argv = .ok (job, parts) ∧
      (main system disk argv).disk =
        Function.update disk job.bootimg.bytes (some (image (job.header system parts) parts)) := by
  rw [main] at success ⊢
  cases prepared : prepare disk argv with
  | error failure => exact absurd (by rwa [prepared] at success) failure.code_ne
  | ok result =>
    obtain ⟨job, parts⟩ := result
    obtain ⟨sound, limited⟩ := prepare_ok prepared
    refine ⟨job, parts, rfl, ?_⟩
    rw [prepared] at success
    dsimp only at success ⊢
    split at success
    case isTrue creates =>
      rw [if_pos creates]
      have writes := writeImage_writes (@Job.header_describes system _ _ sound limited) system
      cases written : writeImage system (job.header system parts) parts with
      | error fd =>
        rw [written] at success
        exact absurd success (Failure.failed_writing job.bootimg).code_ne
      | ok after =>
        rw [written] at writes
        exact congrArg (fun content => Function.update disk job.bootimg.bytes (some content)) writes
    case isFalse => exact absurd success (Failure.could_not_create job.bootimg).code_ne

/-- A run that fails leaves the disk as it was, takes away the output that it had begun, or leaves what it had
written of it where it cannot take it away. -/
theorem main_failure (failed : (main system disk argv).code ≠ 0) :
    (main system disk argv).disk = disk ∨
      ∃ job parts left, prepare disk argv = .ok (job, parts) ∧
        (main system disk argv).disk = Function.update disk job.bootimg.bytes left ∧
        if system.unlinks job.bootimg.bytes then left = none
        else ∃ begun, left = some begun ∧ begun <+: image (job.header system parts) parts := by
  rw [main] at failed ⊢
  cases prepared : prepare disk argv with
  | error failure => exact Or.inl rfl
  | ok result =>
    obtain ⟨job, parts⟩ := result
    obtain ⟨sound, limited⟩ := prepare_ok prepared
    rw [prepared] at failed
    dsimp only at failed ⊢
    split
    case isTrue creates =>
      rw [if_pos creates] at failed
      have writes := writeImage_writes (@Job.header_describes system _ _ sound limited) system
      cases written : writeImage system (job.header system parts) parts with
      | error fd =>
        rw [written] at writes
        refine Or.inr ⟨job, parts, _, rfl, rfl, ?_⟩
        split
        · rfl
        · exact ⟨fd.content, rfl, writes⟩
      | ok after =>
        rw [written] at failed
        exact absurd rfl failed
    case isFalse => exact Or.inl rfl

theorem main_willing (willing : Willing system) (creates : ∀ fn, system.creates fn = true)
    (prepared : prepare disk argv = .ok (job, parts)) : (main system disk argv).code = 0 := by
  obtain ⟨sound, limited⟩ := prepare_ok prepared
  obtain ⟨after, written⟩ := writeImage_willing willing (@Job.header_describes system _ _ sound limited) limited
  rw [main, prepared]
  dsimp only
  rw [if_pos (creates _), written]

/-- Whatever the system calls do, there is the whole image at the end, or no output unless it cannot be removed, and
where nothing stands in its way the image is there. -/
theorem main_all_or_nothing (system : System) (disk : Disk) (argv : List CString) :
    ((main system disk argv).code = 0 →
        ∃ job parts, prepare disk argv = .ok (job, parts) ∧
          (main system disk argv).disk =
            Function.update disk job.bootimg.bytes (some (image (job.header system parts) parts))) ∧
      ((main system disk argv).code ≠ 0 →
        (main system disk argv).disk = disk ∨
          ∃ job parts left, prepare disk argv = .ok (job, parts) ∧
            (main system disk argv).disk = Function.update disk job.bootimg.bytes left ∧
            if system.unlinks job.bootimg.bytes then left = none
            else ∃ begun, left = some begun ∧ begun <+: image (job.header system parts) parts) ∧
      (Willing system → (∀ fn, system.creates fn = true) → (∃ job parts, prepare disk argv = .ok (job, parts)) →
        (main system disk argv).code = 0) :=
  ⟨main_image, main_failure, fun willing creates ⟨_, _, prepared⟩ => main_willing willing creates prepared⟩

/-! ## The pages -/

/-- The pages that an item takes, as `bootimg.h` counts them -/
def pages (page_size size : Nat) : Nat := (size + page_size - 1) / page_size

theorem fill_pages {page_size : Nat} (positive : 0 < page_size) (size : Nat) :
    size + (fill page_size size).length = page_size * pages page_size size := by
  have split := Nat.div_add_mod size page_size
  have inside := Nat.mod_lt size positive
  rw [fill, List.length_replicate, pages]
  rcases Nat.eq_zero_or_pos (size % page_size) with aligned | rest
  · have count : (size + page_size - 1) / page_size = size / page_size := by
      rw [show size + page_size - 1 = page_size * (size / page_size) + (page_size - 1) by omega,
        Nat.mul_add_div positive, Nat.div_eq_of_lt (show page_size - 1 < page_size by omega), Nat.add_zero]
    rw [aligned, Nat.sub_zero, Nat.mod_self, count]
    omega
  · have count : (size + page_size - 1) / page_size = size / page_size + 1 := by
      rw [show size + page_size - 1 = page_size * (size / page_size) + (page_size + (size % page_size - 1)) by omega,
        Nat.mul_add_div positive, Nat.add_div_left _ positive,
        Nat.div_eq_of_lt (show size % page_size - 1 < page_size by omega)]
    rw [Nat.mod_eq_of_lt (by omega), count, Nat.mul_add]
    omega

theorem header_page {hdr : boot_img_hdr} (supported : hdr.page_size = 2048 ∨ hdr.page_size = 4096) :
    (hdr.bytes ++ fill hdr.page_size.toNat headerSize).length = hdr.page_size.toNat := by
  have size : hdr.page_size.toNat = 2048 ∨ hdr.page_size.toNat = 4096 := supported.imp (congrArg _) (congrArg _)
  rw [List.length_append, hdr.bytes_length, fill, List.length_replicate]
  rcases size with same | same <;> rw [same] <;> rfl

/-- What is at a place of a file -/
def Holds (file : List Byte) (place : Nat) (item : List Byte) : Prop := (file.drop place).take item.length = item

theorem holds_middle {before item after : List Byte} {place : Nat} (length : before.length = place) :
    Holds (before ++ (item ++ after)) place item := by
  rw [Holds, List.drop_left' length, List.take_left]

theorem image_layout {hdr : boot_img_hdr} (supported : hdr.page_size = 2048 ∨ hdr.page_size = 4096) (parts : Parts) :
    Holds (image hdr parts) 0 hdr.bytes ∧
      Holds (image hdr parts) hdr.page_size.toNat parts.kernel ∧
      Holds (image hdr parts) (hdr.page_size.toNat * (1 + pages hdr.page_size.toNat parts.kernel.length)) parts.ramdisk ∧
      ∀ second_data, parts.second = some second_data →
        Holds (image hdr parts) (hdr.page_size.toNat * (1 + pages hdr.page_size.toNat parts.kernel.length +
          pages hdr.page_size.toNat parts.ramdisk.length)) second_data := by
  have first := header_page supported
  have positive : 0 < hdr.page_size.toNat := by rcases supported with same | same <;> rw [same] <;> decide
  have kernel := fill_pages positive parts.kernel.length
  have ramdisk := fill_pages positive parts.ramdisk.length
  rw [image]
  generalize hdr.page_size.toNat = page_size at *
  refine ⟨?_, ?_, ?_, ?_⟩
  · rw [List.append_assoc hdr.bytes]
    exact @holds_middle [] _ _ 0 rfl
  · rw [List.append_assoc parts.kernel]
    exact holds_middle first
  · rw [← List.append_assoc (hdr.bytes ++ _), List.append_assoc parts.ramdisk]
    apply holds_middle
    rw [List.length_append, first, List.length_append, kernel, Nat.mul_add, Nat.mul_one]
  · intro second_data second
    rw [second, ← List.append_assoc (hdr.bytes ++ _), ← List.append_assoc (hdr.bytes ++ _ ++ _)]
    apply holds_middle
    rw [List.length_append, List.length_append, first, List.length_append, kernel, List.length_append, ramdisk,
      Nat.mul_add, Nat.mul_add, Nat.mul_one]

/-- The second stage is followed by the zeros of the ramdisk. -/
theorem image_whole_pages {hdr : boot_img_hdr} (supported : hdr.page_size = 2048 ∨ hdr.page_size = 4096) (parts : Parts) :
    hdr.page_size.toNat ∣ (image hdr parts).length ↔
      ∀ second_data, parts.second = some second_data →
        second_data.length % hdr.page_size.toNat = parts.ramdisk.length % hdr.page_size.toNat := by
  have first := header_page supported
  have positive : 0 < hdr.page_size.toNat := by rcases supported with same | same <;> rw [same] <;> decide
  have kernel := fill_pages positive parts.kernel.length
  have ramdisk := fill_pages positive parts.ramdisk.length
  rw [image]
  generalize hdr.page_size.toNat = page_size at *
  rw [List.length_append, first, List.length_append, List.length_append, kernel, List.length_append, List.length_append,
    ramdisk, ← Nat.add_assoc, ← Nat.add_assoc]
  have front : page_size ∣ page_size + page_size * pages page_size parts.kernel.length +
      page_size * pages page_size parts.ramdisk.length :=
    Nat.dvd_add (Nat.dvd_add (Nat.dvd_refl _) (Nat.dvd_mul_right ..)) (Nat.dvd_mul_right ..)
  rw [Nat.dvd_add_right front]
  cases second : parts.second with
  | none => simp
  | some second_data =>
    have tail : parts.ramdisk.length + (fill page_size parts.ramdisk.length).length ≡ 0 [MOD page_size] := by
      rw [ramdisk]
      exact (Nat.modEq_zero_iff_dvd).mpr (Nat.dvd_mul_right ..)
    simp only [List.length_append, Option.some.injEq, forall_eq']
    constructor
    · intro whole
      exact Nat.ModEq.add_right_cancel' _ ((Nat.modEq_zero_iff_dvd.mpr whole).trans tail.symm)
    · intro same
      exact Nat.modEq_zero_iff_dvd.mp ((Nat.ModEq.add_right _ same).trans tail)

/-- Every part is at the start of a page, after the pages that `bootimg.h` counts. The file ends with a whole page if
there is no second stage, or one that goes as far into its last page as the ramdisk. -/
theorem prepare_layout (prepared : prepare disk argv = .ok (job, parts)) (system : System) :
    (let file := image (job.header system parts) parts
      let page := job.options.pagesize.toNat
      Holds file 0 (job.header system parts).bytes ∧
        Holds file page parts.kernel ∧
        Holds file (page * (1 + pages page parts.kernel.length)) parts.ramdisk ∧
        (∀ second_data, parts.second = some second_data →
          Holds file (page * (1 + pages page parts.kernel.length + pages page parts.ramdisk.length)) second_data) ∧
        (page ∣ file.length ↔
          ∀ second_data, parts.second = some second_data → second_data.length % page = parts.ramdisk.length % page)) := by
  obtain ⟨sound, limited⟩ := prepare_ok prepared
  have supported : (job.header system parts).page_size = 2048 ∨ (job.header system parts).page_size = 4096 :=
    sound.pagesize
  obtain ⟨header, kernel, ramdisk, second⟩ := image_layout supported parts
  exact ⟨header, kernel, ramdisk, second, image_whole_pages supported parts⟩

/-- A kernel of two bytes and a ramdisk of one -/
def smallDisk : Disk := fun fn => if fn = ascii "k" then some [1, 2] else if fn = ascii "r" then some [3] else none

def kernelOption : CString := ⟨ascii "--kernel", by decide⟩

def ramdiskOption : CString := ⟨ascii "--ramdisk", by decide⟩

def outputOption : CString := ⟨ascii "-o", by decide⟩

def smallArguments : List CString :=
  [kernelOption, ⟨ascii "k", by decide⟩, ramdiskOption, ⟨ascii "r", by decide⟩, outputOption, ⟨ascii "b", by decide⟩]

def smallJob : Job where
  options := { Options.default with
    kernel_fn := some ⟨ascii "k", by decide⟩
    ramdisk_fn := some ⟨ascii "r", by decide⟩
    bootimg := some ⟨ascii "b", by decide⟩ }
  bootimg := ⟨ascii "b", by decide⟩
  kernel_fn := ⟨ascii "k", by decide⟩
  ramdisk_fn := ⟨ascii "r", by decide⟩
  name_fits := by decide
  cmdline_fits := by decide

theorem prepare_small : prepare smallDisk smallArguments = .ok (smallJob, ⟨[1, 2], [3], none⟩) := rfl

/-- A system that refuses nothing -/
def smallSystem : System where
  creates _ := true
  takes _ := some readLimit
  unlinks _ := true
  strerror := []
  ctx := ⟨0, ⟨0, 0, 0, 0, 0⟩, List.replicate 64 0, rfl⟩

/-- A second stage of two bytes besides -/
def secondDisk : Disk := Function.update smallDisk (ascii "s") (some [4, 5])

def secondArguments : List CString := ⟨ascii "--second", by decide⟩ :: ⟨ascii "s", by decide⟩ :: smallArguments

def secondJob : Job where
  options := { smallJob.options with second_fn := some ⟨ascii "s", by decide⟩ }
  bootimg := smallJob.bootimg
  kernel_fn := smallJob.kernel_fn
  ramdisk_fn := smallJob.ramdisk_fn
  name_fits := smallJob.name_fits
  cmdline_fits := smallJob.cmdline_fits

theorem prepare_second : prepare secondDisk secondArguments = .ok (secondJob, ⟨[1, 2], [3], some [4, 5]⟩) := rfl

theorem prepare_layout_second :
    Holds (image (secondJob.header smallSystem ⟨[1, 2], [3], some [4, 5]⟩) ⟨[1, 2], [3], some [4, 5]⟩)
        (2048 * 3) [4, 5] ∧
      ¬ 2048 ∣ (image (secondJob.header smallSystem ⟨[1, 2], [3], some [4, 5]⟩) ⟨[1, 2], [3], some [4, 5]⟩).length := by
  obtain ⟨-, -, -, second, whole⟩ := prepare_layout prepare_second smallSystem
  refine ⟨second _ rfl, fun pages => ?_⟩
  exact absurd (whole.mp pages _ rfl) (by decide)

/-! ## The digest -/

theorem memory_size_injective {data other : List Byte} (limited : data.length ≤ readLimit)
    (other_limited : other.length ≤ readLimit)
    (same : memory (BitVec.ofNat 32 data.length) = memory (BitVec.ofNat 32 other.length)) :
    data.length = other.length := by
  have size := congrArg BitVec.toNat (memory_injective same)
  rwa [size_toNat limited, size_toNat other_limited] at size

/-- A part and its size at the end of a text can be told from what is before them. -/
theorem part_injective {before before' data other : List Byte} (limited : data.length ≤ readLimit)
    (other_limited : other.length ≤ readLimit)
    (same : before ++ (data ++ memory (BitVec.ofNat 32 data.length)) =
      before' ++ (other ++ memory (BitVec.ofNat 32 other.length))) : before = before' ∧ data = other := by
  rw [← List.append_assoc, ← List.append_assoc] at same
  obtain ⟨rest, sizes⟩ := List.append_inj' same (by rw [memory_length, memory_length])
  exact List.append_inj' rest (memory_size_injective limited other_limited sizes)

theorem hashed_injective {other : Parts} (limited : parts.Limited) (other_limited : other.Limited)
    (same : parts.hashed.flatten = other.hashed.flatten) :
    parts.kernel = other.kernel ∧ parts.ramdisk = other.ramdisk ∧ parts.second_data = other.second_data := by
  have split (parts : Parts) : parts.hashed.flatten =
      [] ++ (parts.kernel ++ memory (BitVec.ofNat 32 parts.kernel.length)) ++
        (parts.ramdisk ++ memory (BitVec.ofNat 32 parts.ramdisk.length)) ++
        (parts.second_data ++ memory (BitVec.ofNat 32 parts.second_data.length)) := by
    simp only [Parts.hashed, List.flatten_cons, List.flatten_nil, List.append_nil, List.nil_append, List.append_assoc]
  rw [split, split] at same
  obtain ⟨same, second⟩ := part_injective limited.second other_limited.second same
  obtain ⟨same, ramdisk⟩ := part_injective limited.ramdisk other_limited.ramdisk same
  obtain ⟨_, kernel⟩ := part_injective limited.kernel other_limited.kernel same
  exact ⟨kernel, ramdisk, second⟩

/-- The `id` of an image is the SHA-1 of a text that no other kernel, ramdisk and second stage have. -/
theorem header_id (prepared : prepare disk argv = .ok (job, parts)) (system : System) :
    (job.header system parts).id.bytes = Sha1.sha1 parts.hashed.flatten ++ List.replicate 12 0 ∧
      ∀ {disk' : Disk} {argv' : List CString} {job' : Job} {parts' : Parts},
        prepare disk' argv' = .ok (job', parts') → parts.hashed.flatten = parts'.hashed.flatten →
          parts.kernel = parts'.kernel ∧ parts.ramdisk = parts'.ramdisk ∧ parts.second_data = parts'.second_data := by
  constructor
  · have sha : digest system parts.hashed = Sha1.sha1 parts.hashed.flatten :=
      generic_correct.stream system.ctx parts.hashed
    have length : (Sha1.sha1 parts.hashed.flatten).length = 20 := rfl
    show digest system parts.hashed ++ List.replicate (32 - (digest system parts.hashed).length) 0 = _
    rw [sha, length]
  · intro disk' argv' job' parts' prepared' same
    exact hashed_injective (prepare_ok prepared).2 (prepare_ok prepared').2 same

theorem header_id_small :
    (smallJob.header smallSystem ⟨[1, 2], [3], none⟩).id.bytes =
      Sha1.sha1 [1, 2, 2, 0, 0, 0, 3, 1, 0, 0, 0, 0, 0, 0, 0] ++ List.replicate 12 0 :=
  (header_id prepare_small smallSystem).1

end BotBrew.BootImage.Mkbootimg
