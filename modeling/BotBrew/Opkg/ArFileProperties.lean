import BotBrew.Opkg.ArFile

/-! Sessions with an archive that `ar` wrote. -/

set_option autoImplicit false

namespace BotBrew.Arfile

open Reading

/-! ## Headers -/

/-- A header in which a blank follows each field that `split` has to tell from the next one -/
structure Member.Spaced (member : Member) : Prop where
  modified : (signed member.modified).length < 12
  owner : (Opkg.decimal member.owner).length < 6
  group : (Opkg.decimal member.group).length < 6

instance (member : Member) : Decidable member.Spaced :=
  decidable_of_iff ((signed member.modified).length < 12 ∧ (Opkg.decimal member.owner).length < 6 ∧
      (Opkg.decimal member.group).length < 6)
    ⟨fun ⟨modified, owner, group⟩ => ⟨modified, owner, group⟩, fun ⟨modified, owner, group⟩ => ⟨modified, owner, group⟩⟩

/-- A word that `split` gives back: not empty, without blanks and grave accents. -/
structure Plain (word : Text) : Prop where
  nonempty : word ≠ []
  visible : ∀ char ∈ word, Text.isSpace char = false
  unquoted : '\x60' ∉ word

theorem isDigit_visible {char : Char} (digit : char.isDigit = true) : Text.isSpace char = false ∧ char ≠ '\x60' := by
  constructor
  · cases blank : Text.isSpace char with
    | false => rfl
    | true =>
      simp only [Text.isSpace, Bool.or_eq_true, beq_iff_eq] at blank
      obtain ((((rfl | rfl) | rfl) | rfl) | rfl) | rfl := blank <;> exact absurd digit (by decide)
  · rintro rfl
    exact absurd digit (by decide)

theorem plain_digits {word : Text} (nonempty : word ≠ []) (digits : ∀ char ∈ word, char.isDigit = true) : Plain word where
  nonempty := nonempty
  visible char member := (isDigit_visible (digits char member)).1
  unquoted member := (isDigit_visible (digits _ member)).2 rfl

theorem plain_toDigits {base : Nat} (positive : 0 < base) (small : base ≤ 10) (number : Nat) :
    Plain (Nat.toDigits base number) :=
  plain_digits Nat.toDigits_ne_nil fun _ => Nat.isDigit_of_mem_toDigits positive small

theorem plain_decimal (number : Nat) : Plain (Opkg.decimal number) := plain_toDigits (by decide) le_rfl number

theorem Plain.cons {word : Text} (plain : Plain word) {char : Char} (visible : Text.isSpace char = false)
    (unquoted : char ≠ '\x60') : Plain (char :: word) where
  nonempty := List.cons_ne_nil _ _
  visible := List.forall_mem_cons.mpr ⟨visible, plain.visible⟩
  unquoted := by simp [plain.unquoted, Ne.symm unquoted]

theorem plain_signed (number : Int) : Plain (signed number) := by
  rw [signed]
  split
  · exact (plain_decimal _).cons (by decide) (by decide)
  · exact plain_decimal _

theorem Member.plain_name (member : Member) : Plain (member.name ++ ['/']) where
  nonempty := by simp
  visible char found := by
    obtain found | found := List.mem_append.mp found
    · exact (member.named.2.2 char found).1
    · obtain rfl := List.mem_singleton.mp found
      decide
  unquoted found := by
    obtain found | found := List.mem_append.mp found
    · exact (member.named.2.2 _ found).2 rfl
    · exact absurd (List.mem_singleton.mp found) (by decide)

theorem fields_blanks {word blanks : Text} (plain : Plain word) (nonempty : blanks ≠ [])
    (blank : ∀ char ∈ blanks, Text.isSpace char = true) (rest : Text) :
    Text.fields (word ++ (blanks ++ rest)) = word :: Text.fields rest := by
  cases blanks with
  | nil => exact absurd rfl nonempty
  | cons first blanks =>
    have skipped : Text.fields (blanks ++ rest) = Text.fields rest := by
      clear nonempty
      induction blanks with
      | nil => rfl
      | cons second blanks hypothesis =>
        have isBlank : Text.isSpace second = true := blank second (by simp)
        have split : Text.fields ([] ++ second :: (blanks ++ rest)) = _ := Text.fields_append isBlank [] (blanks ++ rest)
        rw [List.cons_append]
        rw [List.nil_append] at split
        rw [split, hypothesis]
        · rfl
        · intro char member
          apply blank
          simp only [List.mem_cons] at member ⊢
          tauto
    rw [List.cons_append, Text.fields_append (blank first (by simp)), Text.fields_word plain.nonempty plain.visible,
      skipped]
    rfl

theorem fields_padded {word : Text} (plain : Plain word) {width : Nat} (fits : word.length < width) (rest : Text) :
    Text.fields (padded width word ++ rest) = word :: Text.fields rest := by
  rw [padded, List.append_assoc]
  apply fields_blanks plain
  · rw [Ne, List.replicate_eq_nil_iff]
    omega
  · intro char member
    rw [List.eq_of_mem_replicate member]
    rfl

theorem fields_last {word : Text} (plain : Plain word) (width : Nat) :
    Text.fields (padded width word ++ ['\n']) = [word] := by
  have blank : ∀ char ∈ List.replicate (width - word.length) ' ' ++ ['\n'], Text.isSpace char = true := by
    intro char member
    obtain member | member := List.mem_append.mp member
    · rw [List.eq_of_mem_replicate member]
      rfl
    · rw [List.mem_singleton.mp member]
      rfl
  have blanks := fields_blanks plain (by simp) blank []
  rw [List.append_nil] at blanks
  rw [padded, List.append_assoc]
  exact blanks

def Member.words (member : Member) : List Text :=
  [member.name ++ ['/'], signed member.modified, Opkg.decimal member.owner, Opkg.decimal member.group,
    Nat.toDigits 8 member.mode, Opkg.decimal member.content.length]

theorem padded_unquoted {word : Text} (plain : Plain word) (width : Nat) :
    (padded width word).filter (· ≠ '\x60') = padded width word := by
  apply List.filter_eq_self.mpr
  intro char member
  rw [decide_eq_true_eq]
  rintro rfl
  obtain member | member := List.mem_append.mp member
  · exact plain.unquoted member
  · exact absurd (List.eq_of_mem_replicate member) (by decide)

theorem Member.descriptor_header (member : Member) (spaced : member.Spaced) :
    descriptor (member.header ++ ['\n']) = member.words := by
  have name : (member.name ++ ['/']).length < 16 := by
    rw [List.length_append]
    exact Nat.succ_lt_succ member.named.2.1
  have mode := plain_toDigits (by decide) (by decide : 8 ≤ 10) member.mode
  rw [descriptor, header]
  simp only [List.filter_append, padded_unquoted member.plain_name, padded_unquoted (plain_signed _),
    padded_unquoted (plain_decimal _), padded_unquoted mode, List.append_assoc]
  have last : ['\x60'].filter (· ≠ '\x60') ++ ['\n'].filter (· ≠ '\x60') = ['\n'] := by decide
  rw [last, fields_padded member.plain_name name, fields_padded (plain_signed _) spaced.modified,
    fields_padded (plain_decimal _) spaced.owner, fields_padded (plain_decimal _) spaced.group,
    fields_padded mode member.mode_fits, fields_last (plain_decimal _)]
  rfl

theorem digits_decimal (number : Nat) : digits (Opkg.decimal number) = some number := by
  have all : (Opkg.decimal number).all Char.isDigit = true :=
    List.all_eq_true.mpr fun _ => Nat.isDigit_of_mem_toDigits (by decide) le_rfl
  rw [digits, if_pos ⟨Nat.toDigits_ne_nil, all⟩]
  exact congrArg some Nat.ofDigitChars_ten_toDigits

theorem integer_decimal (number : Nat) : integer (Opkg.decimal number) = some (number : Int) := by
  have found := digits_decimal number
  cases shape : Opkg.decimal number with
  | nil => exact absurd shape Nat.toDigits_ne_nil
  | cons first rest =>
    have digit : first.isDigit = true :=
      Nat.isDigit_of_mem_toDigits (by decide) le_rfl (shape ▸ List.mem_cons_self)
    have minus : first ≠ '-' := by rintro rfl; exact absurd digit (by decide)
    have plus : first ≠ '+' := by rintro rfl; exact absurd digit (by decide)
    rw [shape] at found
    rw [integer, found]
    · rfl
    · simpa using minus
    · simpa using plus

theorem Member.sizeOf_words (member : Member) : sizeOf member.words = .ok (member.content.length : Int) := by
  have found : member.words[5]? = some (Opkg.decimal member.content.length) := rfl
  simp only [sizeOf, found, integer_decimal]

theorem Member.name_words (member : Member) : (member.words.headD []).dropLast = member.name := by
  simp [words]

theorem Plain.newline {word : Text} (plain : Plain word) : '\n' ∉ word :=
  fun member => absurd (plain.visible _ member) (by decide)

theorem newline_padded {word : Text} (plain : Plain word) (width : Nat) : '\n' ∉ padded width word := by
  intro member
  obtain member | member := List.mem_append.mp member
  · exact plain.newline member
  · exact absurd (List.eq_of_mem_replicate member) (by decide)

theorem Member.newline_header (member : Member) : '\n' ∉ member.header := by
  have mode := plain_toDigits (by decide) (by decide : 8 ≤ 10) member.mode
  simp only [header, List.mem_append, not_or]
  exact ⟨⟨⟨⟨⟨⟨newline_padded member.plain_name 16, newline_padded (plain_signed _) 12⟩, newline_padded (plain_decimal _) 6⟩,
    newline_padded (plain_decimal _) 6⟩, newline_padded mode 8⟩, newline_padded (plain_decimal _) 10⟩, by decide⟩

/-- A header and its newline are more than the newline of a padding. -/
theorem Member.header_line (member : Member) :
    ∃ first second rest, member.header ++ ['\n'] = first :: second :: rest := by
  have long : 2 ≤ (member.header ++ ['\n']).length := by
    simp only [header, List.length_append, List.length_singleton]
    omega
  cases shape : member.header ++ ['\n'] with
  | nil => simp [shape] at long
  | cons first tail =>
    cases tail with
    | nil => simp [shape] at long
    | cons second rest => exact ⟨first, second, rest, rfl⟩

/-! ## The scan -/

/-- Nothing, or the newline before the next header -/
def IsPadding (pad : Text) : Prop := pad = [] ∨ pad = ['\n']

theorem Member.isPadding (member : Member) : IsPadding member.padding := by
  rw [padding]
  split
  · exact .inl rfl
  · exact .inr rfl

variable {content fname before pad rest : Text} {member : Member} {self : ArFile}

theorem scan_round (fuel : Nat) (isPadding : IsPadding pad)
    (shape : content = before ++ (pad ++ (member.archived ++ rest))) (place : before.length = self.position) :
    scan content fname (fuel + 1) self =
      scanMember content fname (member.header ++ ['\n']) (scan content fname fuel)
        { self with position := self.position + pad.length + (member.header.length + 1) } := by
  obtain ⟨first, second, tail, line⟩ := member.header_line
  have length : (member.header ++ ['\n']).length = member.header.length + 1 := by simp
  obtain rfl | rfl := isPadding
  · have read : readline content self.position = member.header ++ ['\n'] :=
      readline_at (member.content ++ member.padding ++ rest) (by rw [shape, Member.archived]; simp) place
        member.newline_header
    rw [line] at read length ⊢
    simp only [scan, read, length]
    rfl
  · have newline : readline content self.position = [] ++ ['\n'] :=
      readline_at (member.archived ++ rest) shape place (by simp)
    have next : (before ++ ['\n']).length = self.position + 1 := by simp [place]
    have read : readline content (self.position + 1) = member.header ++ ['\n'] :=
      readline_at (member.content ++ member.padding ++ rest) (by rw [shape, Member.archived]; simp) next
        member.newline_header
    rw [line] at read length ⊢
    simp only [scan, newline, List.nil_append, read, length]
    rfl

theorem scan_end (fuel : Nat) (last : content.length ≤ self.position) :
    scan content fname (fuel + 1) self = ({ self with directoryRead := true }, .absent) := by
  simp only [scan, readline_end last]

/-- After the padding of the last member the loop is left by `break`. -/
theorem scan_break (fuel : Nat) (shape : content = before ++ ['\n']) (place : before.length = self.position) :
    scan content fname (fuel + 1) self = ({ self with position := self.position + 1 }, .absent) := by
  have newline : readline content self.position = [] ++ ['\n'] :=
    readline_at [] shape place (by simp)
  have last : content.length ≤ self.position + 1 := by simp [shape, place]
  simp only [scan, newline, List.nil_append, readline_end last]

def IsAt (content : Text) (member : Member) (offset : Nat) : Prop :=
  ∃ before after, content = before ++ member.content ++ after ∧ before.length = offset

/-- The cache has the headers of some members, with the offsets of their bytes. -/
structure Known (content : Text) (scanned : List Member) (directory : List (Text × List Text × Nat)) : Prop where
  present : ∀ member ∈ scanned, ∃ offset,
    directory.lookup member.name = some (member.words, offset) ∧ IsAt content member offset
  absent : ∀ name, (∀ member ∈ scanned, member.name ≠ name) → directory.lookup name = none

theorem Known.nil (content : Text) : Known content [] [] where
  present _ member := nomatch member
  absent _ _ := rfl

theorem Known.add {scanned : List Member} {directory : List (Text × List Text × Nat)} {offset : Nat}
    (known : Known content scanned directory) (fresh : ∀ other ∈ scanned, other.name ≠ member.name)
    (isAt : IsAt content member offset) :
    Known content (scanned ++ [member]) ((member.name, member.words, offset) :: directory) where
  present other found := by
    obtain found | found := List.mem_append.mp found
    · obtain ⟨place, cached, isThere⟩ := known.present other found
      exact ⟨place, by rw [List.lookup_cons, beq_false_of_ne (fresh other found), cached], isThere⟩
    · obtain rfl := List.mem_singleton.mp found
      exact ⟨offset, by rw [List.lookup_cons, beq_self_eq_true], isAt⟩
  absent name other := by
    have differs : name ≠ member.name := (other member (by simp)).symm
    rw [List.lookup_cons, beq_false_of_ne differs]
    exact known.absent name fun member found => other member (List.mem_append_left _ found)

/-- What is left to scan begins at some offset, or behind a padding. -/
def Resumes (content : Text) (rest : List Member) (offset : Int) : Prop :=
  ∃ before pad, content = before ++ (pad ++ rest.flatMap Member.archived) ∧ IsPadding pad ∧
    (before.length : Int) = offset

/-- The file after the headers of some members were read -/
structure Valid (content : Text) (members : List Member) (file : ArFile) (scanned rest : List Member) : Prop where
  split : members = scanned ++ rest
  known : Known content scanned file.directory
  resumes : file.directoryRead = false → Resumes content rest file.directoryOffset
  complete : file.directoryRead = true → rest = []

/-- The file after a round of the loop, before the bytes of the member -/
def ArFile.entered (self : ArFile) (member : Member) : ArFile :=
  { self with directory := (member.name, member.words, self.position) :: self.directory }

theorem scanMember_found (next : ArFile → ArFile × Scanned) (spaced : member.Spaced) :
    scanMember content member.name (member.header ++ ['\n']) next self =
      ({ self.entered member with directoryOffset := self.position + member.content.length },
        .found ⟨self.position, member.content.length⟩) := by
  simp only [scanMember, member.descriptor_header spaced, member.sizeOf_words, member.name_words, if_true,
    ArFile.enter, ArFile.entered]

theorem scanMember_skip (next : ArFile → ArFile × Scanned) (spaced : member.Spaced) (other : member.name ≠ fname) :
    scanMember content fname (member.header ++ ['\n']) next self =
      next { self.entered member with
        position := self.position + (member.content.length + member.padding.length) } := by
  have even : (if (member.content.length : Int) % 2 = 0 then (member.content.length : Int)
      else member.content.length + 1) = ((member.content.length + member.padding.length : Nat) : Int) := by
    rw [Member.padding]
    split <;> split
    · simp
    · omega
    · omega
    · simp
  simp only [scanMember, member.descriptor_header spaced, member.sizeOf_words, member.name_words, if_neg other, even,
    seek_forward, ArFile.enter, ArFile.entered]

theorem Member.archived_length (member : Member) :
    member.archived.length = member.header.length + 1 + (member.content.length + member.padding.length) := by
  simp [archived]
  omega

theorem isAt_archived (shape : content = before ++ (pad ++ (member.archived ++ rest)))
    (place : before.length = self.position) :
    IsAt content member (self.position + pad.length + (member.header.length + 1)) :=
  ⟨before ++ pad ++ (member.header ++ ['\n']), member.padding ++ rest, by simp [shape, Member.archived],
    by simp [place]; omega⟩

section

variable {scanned : List Member}

theorem fresh_of_distinct {first rest : List Member}
    (distinct : ((first ++ member :: rest).map Member.name).Nodup) : ∀ other ∈ first, other.name ≠ member.name := by
  intro other seen same
  rw [List.map_append] at distinct
  exact (List.nodup_append.mp distinct).2.2 _ (List.mem_map_of_mem seen) _ (by simp) same

theorem scan_skip (fuel : Nat) (isPadding : IsPadding pad)
    (shape : content = before ++ (pad ++ (member.archived ++ rest))) (place : before.length = self.position)
    (spaced : member.Spaced) (other : member.name ≠ fname) (known : Known content scanned self.directory)
    (fresh : ∀ other ∈ scanned, other.name ≠ member.name) :
    ∃ next : ArFile, scan content fname (fuel + 1) self = scan content fname fuel next ∧
      content = (before ++ pad ++ member.archived) ++ ([] ++ rest) ∧
      (before ++ pad ++ member.archived).length = next.position ∧
      Known content (scanned ++ [member]) next.directory ∧ next.directoryRead = self.directoryRead ∧
      next.directoryOffset = self.directoryOffset := by
  rw [scan_round fuel isPadding shape place, scanMember_skip _ spaced other]
  refine ⟨_, rfl, by simp [shape], ?_, known.add fresh (isAt_archived shape place), rfl, rfl⟩
  rw [List.length_append, List.length_append, member.archived_length, place]
  exact (Nat.add_assoc _ _ _).symm

theorem scan_found (first : List Member) (last : List Member) (fuel : Nat)
    (shape : content = before ++ (pad ++ (first ++ member :: last).flatMap Member.archived))
    (isPadding : IsPadding pad) (place : before.length = self.position)
    (known : Known content scanned self.directory) (unread : self.directoryRead = false)
    (distinct : ((scanned ++ (first ++ member :: last)).map Member.name).Nodup)
    (spaced : ∀ other ∈ first, other.Spaced) (found : member.Spaced) (enough : first.length < fuel) :
    ∃ (after : ArFile) (offset : Nat),
      scan content member.name fuel self = (after, .found ⟨offset, member.content.length⟩) ∧
        IsAt content member offset ∧ Known content (scanned ++ first ++ [member]) after.directory ∧
        after.directoryRead = false ∧ Resumes content last after.directoryOffset := by
  obtain ⟨fuel, rfl⟩ := Nat.exists_eq_add_of_le' (Nat.zero_lt_of_lt enough)
  induction first generalizing before pad self scanned fuel with
  | nil =>
    have shape : content = before ++ (pad ++ (member.archived ++ last.flatMap Member.archived)) := by
      simpa using shape
    have isAt := isAt_archived shape place
    rw [scan_round fuel isPadding shape place, scanMember_found _ found]
    refine ⟨_, _, rfl, isAt, ?_, unread, ?_⟩
    · rw [List.append_nil]
      exact known.add (fresh_of_distinct distinct) isAt
    · refine ⟨before ++ pad ++ (member.header ++ '\n' :: member.content), member.padding, ?_, member.isPadding, ?_⟩
      · simp [shape, Member.archived]
      · simp [place]
        omega
  | cons head first hypothesis =>
    have shape : content = before ++ (pad ++ (head.archived ++ (first ++ member :: last).flatMap Member.archived)) := by
      simpa using shape
    have later : ((scanned ++ [head] ++ (first ++ member :: last)).map Member.name).Nodup := by simpa using distinct
    have names : ∀ other ∈ scanned ++ head :: first, other.name ≠ member.name :=
      fresh_of_distinct (by simpa using distinct)
    have apart : ((scanned ++ head :: (first ++ member :: last)).map Member.name).Nodup := by simpa using distinct
    obtain ⟨next, same, shape, place, known, read, _⟩ :=
      scan_skip fuel isPadding shape place (spaced head (by simp)) (names head (by simp)) known
        (fresh_of_distinct apart)
    obtain ⟨fuel, rfl⟩ := Nat.exists_eq_add_of_le' (Nat.zero_lt_of_lt (Nat.lt_of_succ_lt_succ enough))
    rw [same]
    have result := hypothesis shape (.inl rfl) place known (read.trans unread) later
      (fun other seen => spaced other (List.mem_cons_of_mem _ seen)) fuel (Nat.lt_of_succ_lt_succ enough)
    simpa using result

theorem scan_absent (rest : List Member) (fuel : Nat)
    (shape : content = before ++ (pad ++ rest.flatMap Member.archived)) (isPadding : IsPadding pad)
    (goesOn : pad = [] ∨ rest ≠ []) (place : before.length = self.position)
    (known : Known content scanned self.directory)
    (distinct : ((scanned ++ rest).map Member.name).Nodup) (others : ∀ other ∈ rest, other.name ≠ fname)
    (spaced : ∀ other ∈ rest, other.Spaced) (enough : rest.length < fuel) :
    ∃ after : ArFile, scan content fname fuel self = (after, .absent) ∧
      Known content (scanned ++ rest) after.directory ∧ after.directoryRead = true := by
  obtain ⟨fuel, rfl⟩ := Nat.exists_eq_add_of_le' (Nat.zero_lt_of_lt enough)
  induction rest generalizing before pad self scanned fuel with
  | nil =>
    obtain rfl : pad = [] := goesOn.resolve_right (by simp)
    rw [scan_end fuel (by simp [shape, place])]
    exact ⟨_, rfl, by simpa using known, rfl⟩
  | cons head rest hypothesis =>
    have shape : content = before ++ (pad ++ (head.archived ++ rest.flatMap Member.archived)) := by simpa using shape
    obtain ⟨next, same, shape, place, known, _, _⟩ :=
      scan_skip fuel isPadding shape place (spaced head (by simp)) (others head (by simp)) known
        (fresh_of_distinct distinct)
    obtain ⟨fuel, rfl⟩ := Nat.exists_eq_add_of_le' (Nat.zero_lt_of_lt (Nat.lt_of_succ_lt_succ enough))
    rw [same]
    have result := hypothesis shape (.inl rfl) (.inl rfl) place known (by simpa using distinct)
      (fun other seen => others other (List.mem_cons_of_mem _ seen))
      (fun other seen => spaced other (List.mem_cons_of_mem _ seen)) fuel (Nat.lt_of_succ_lt_succ enough)
    simpa using result

end

/-! ## `open` -/

/-- The members whose headers have to be read before `open` can answer. -/
def reached (members : List Member) (fname : Text) : List Member :=
  members.takeWhile (·.name ≠ fname) ++ (members.dropWhile (·.name ≠ fname)).take 1

theorem reached_found {first : List Member} (others : ∀ other ∈ first, other.name ≠ member.name) (last : List Member) :
    reached (first ++ member :: last) member.name = first ++ [member] := by
  have passed : ∀ other ∈ first, decide (other.name ≠ member.name) = true :=
    fun other seen => decide_eq_true (others other seen)
  rw [reached, List.takeWhile_append_of_pos passed, List.dropWhile_append_of_pos passed]
  simp

theorem reached_absent {members : List Member} (others : ∀ other ∈ members, other.name ≠ fname) :
    reached members fname = members := by
  have passed : ∀ other ∈ members, decide (other.name ≠ fname) = true :=
    fun other seen => decide_eq_true (others other seen)
  rw [reached, List.takeWhile_eq_self_iff.mpr passed, List.dropWhile_eq_nil_iff.mpr passed]
  simp

/-- The cache and the place where the scan goes on are right. -/
def Consistent (content : Text) (members : List Member) (self : ArFile) : Prop :=
  ∃ scanned rest, Valid content members self scanned rest

theorem init_archive (members : List Member) :
    ∃ self, ArFile.init (archive members) = some self ∧ Consistent (archive members) members self := by
  refine ⟨⟨8, [], false, 8⟩, ?_, [], members, rfl, .nil _, ?_, nofun⟩
  · have shape : archive members = [] ++ ("!<arch>".toList ++ '\n' :: members.flatMap Member.archived) := rfl
    have read : readline (archive members) 0 = "!<arch>".toList ++ ['\n'] := readline_at _ shape rfl (by decide)
    rw [ArFile.init, read]
    exact if_pos rfl
  · exact fun _ => ⟨magic, [], by simp [archive], .inl rfl, rfl⟩

theorem Consistent.move {members : List Member} (consistent : Consistent content members self) (position : Nat) :
    Consistent content members { self with position := position } :=
  let ⟨scanned, rest, valid⟩ := consistent
  ⟨scanned, rest, valid.split, valid.known, valid.resumes, valid.complete⟩

theorem length_le_archived (rest : List Member) : rest.length ≤ (rest.flatMap Member.archived).length := by
  induction rest with
  | nil => exact Nat.le_refl _
  | cons member rest hypothesis =>
    rw [List.flatMap_cons, List.length_append, member.archived_length, List.length_cons]
    omega

theorem Resumes.enough {rest : List Member} {offset : Int} (resumes : Resumes content rest offset) :
    rest.length < content.length + 1 := by
  obtain ⟨before, pad, shape, _⟩ := resumes
  have long := length_le_archived rest
  simp only [shape, List.length_append]
  omega

theorem open_scan {place : Nat} {after : ArFile} {outcome : Scanned} (unknown : self.directory.lookup fname = none)
    (unread : self.directoryRead = false) (offset : (place : Int) = self.directoryOffset)
    (result : scan content fname (content.length + 1) { self with position := place } = (after, outcome)) :
    self.open content fname = ArFile.scanned fname after outcome := by
  have start : Reading.seek content self.position self.directoryOffset 0 = some place := by
    rw [← offset, seek_start]
  have notRead : ¬self.directoryRead = true := by simp [unread]
  simp only [ArFile.open, unknown, if_neg notRead, start, result]

theorem Consistent.open_member {members : List Member} (consistent : Consistent content members self)
    (distinct : (members.map Member.name).Nodup) (found : member ∈ members)
    (spaced : ∀ other ∈ reached members member.name, other.Spaced) :
    ∃ (after : ArFile) (offset : Nat),
      self.open content member.name = (after, .section ⟨offset, member.content.length⟩) ∧
        after.position = offset ∧ IsAt content member offset ∧ Consistent content members after := by
  obtain ⟨scanned, rest, valid⟩ := consistent
  obtain rfl := valid.split
  cases List.mem_append.mp found with
  | inl seen =>
    obtain ⟨offset, cached, isAt⟩ := valid.known.present member seen
    refine ⟨{ self with position := offset }, offset, ?_, rfl, isAt, ?_⟩
    · simp only [ArFile.open, cached, member.sizeOf_words, ArFile.section]
    · exact Consistent.move ⟨scanned, rest, valid⟩ offset
  | inr later =>
    obtain ⟨first, last, rfl⟩ := List.append_of_mem later
    have others : ∀ other ∈ scanned ++ first, other.name ≠ member.name :=
      fresh_of_distinct (by simpa using distinct)
    have unknown := valid.known.absent member.name fun other seen => others other (List.mem_append_left _ seen)
    have unread : self.directoryRead = false := by
      cases read : self.directoryRead with
      | false => rfl
      | true => simpa using valid.complete read
    have resumes := valid.resumes unread
    have enough := resumes.enough
    have shorter : first.length < content.length + 1 := by
      rw [List.length_append] at enough
      omega
    obtain ⟨before, pad, shape, isPadding, place⟩ := resumes
    have headers : reached (scanned ++ (first ++ member :: last)) member.name = scanned ++ first ++ [member] := by
      rw [← List.append_assoc]
      exact reached_found others last
    rw [headers] at spaced
    have there : before.length = ({ self with position := before.length } : ArFile).position := rfl
    obtain ⟨after, offset, result, isAt, known, still, resumes⟩ :=
      scan_found first last (content.length + 1) shape isPadding there valid.known unread distinct
        (fun other seen => spaced other (by simp [seen])) (spaced member (by simp)) shorter
    refine ⟨{ after with position := offset }, offset, ?_, rfl, isAt, ?_⟩
    · exact open_scan unknown unread place result
    · refine ⟨scanned ++ first ++ [member], last, by simp, known, fun _ => resumes, ?_⟩
      intro read
      exact absurd (still.symm.trans read) (by decide)

theorem Consistent.open_absent {members : List Member} (consistent : Consistent content members self)
    (distinct : (members.map Member.name).Nodup) (others : ∀ other ∈ members, other.name ≠ fname)
    (spaced : ∀ other ∈ members, other.Spaced) :
    ∃ after : ArFile, self.open content fname = (after, notFound fname) ∧ Consistent content members after := by
  obtain ⟨scanned, rest, valid⟩ := consistent
  obtain rfl := valid.split
  have unknown := valid.known.absent fname fun other seen => others other (List.mem_append_left _ seen)
  cases read : self.directoryRead with
  | true =>
    refine ⟨self, ?_, scanned, rest, valid⟩
    simp only [ArFile.open, unknown, read, if_true]
  | false =>
    have resumes := valid.resumes read
    have enough := resumes.enough
    obtain ⟨before, pad, shape, isPadding, place⟩ := resumes
    have there : before.length = ({ self with position := before.length } : ArFile).position := rfl
    by_cases goesOn : pad = [] ∨ rest ≠ []
    case pos =>
      obtain ⟨after, result, known, complete⟩ :=
        scan_absent rest (content.length + 1) shape isPadding goesOn there valid.known distinct
          (fun other later => others other (List.mem_append_right _ later))
          (fun other later => spaced other (List.mem_append_right _ later)) enough
      refine ⟨after, open_scan unknown read place result, scanned ++ rest, [], by simp, known, ?_, fun _ => rfl⟩
      intro unread
      exact absurd (complete.symm.trans unread) (by decide)
    case neg =>
      -- The last member was found before: only its padding is left.
      obtain ⟨padded, rfl⟩ : pad ≠ [] ∧ rest = [] := by simpa using goesOn
      obtain rfl : pad = ['\n'] := isPadding.resolve_left padded
      refine ⟨_, open_scan unknown read place (scan_break content.length shape there), ?_⟩
      exact Consistent.move ⟨scanned, [], valid⟩ _

end BotBrew.Arfile
