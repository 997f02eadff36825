import BotBrew.Opkg.Build
import BotBrew.Text.Fields

/-! When a package has its mandatory fields and its name once `opkg-build` has accepted it. -/

set_option autoImplicit false

namespace BotBrew.Opkg.Build

open Shell

theorem mem_substitution {output : Text} {char : Char} (member : char ∈ substitution output) :
    char ∈ output ∧ char ≠ '\x00' := by
  have inside := (List.rdropWhile_prefix _ _).subset member
  simpa using inside

theorem substitution_eq_nil_iff {output : Text} (free : '\x00' ∉ output) :
    substitution output = [] ↔ ∀ char ∈ output, char = '\n' := by
  unfold substitution
  rw [List.rdropWhile_eq_nil_iff]
  constructor
  · intro blank char member
    have visible : char ≠ '\x00' := fun zero => free (zero ▸ member)
    simpa using blank char (List.mem_filter.mpr ⟨member, by simpa using visible⟩)
  · intro blank char member
    simpa using blank char (List.mem_filter.mp member).1

theorem extract_line {field : Text} (noColon : ':' ∉ field) (rest : Text) :
    opkg_extract_value (field ++ ':' :: rest) = rest.dropWhile Text.isSpace := by
  have name : ∀ char ∈ field, decide (char ≠ ':') = true := by
    intro char member
    have other : char ≠ ':' := fun colon => noColon (colon ▸ member)
    exact decide_eq_true other
  have drop : (field ++ ':' :: rest).dropWhile (· ≠ ':') = ':' :: rest := by
    rw [List.dropWhile_append_of_pos name]
    simp
  rw [opkg_extract_value, drop]

theorem dropWhile_isSpace_eq_nil (text : Text) :
    text.dropWhile Text.isSpace = [] ↔ ¬ ∃ char ∈ text, Text.isSpace char = false := by
  rw [List.dropWhile_eq_nil_iff]
  simp

theorem extract_subset (line : Text) : opkg_extract_value line ⊆ line := by
  unfold opkg_extract_value
  cases drop : line.dropWhile (· ≠ ':') with
  | nil => exact List.Subset.refl _
  | cons colon rest =>
      have suffix : rest <:+ line :=
        (List.suffix_cons colon rest).trans (drop ▸ List.dropWhile_suffix _)
      exact fun _ member => suffix.subset ((List.dropWhile_suffix _).subset member)

theorem mem_extract {control line : Text} (text : '\x00' ∉ control) (member : line ∈ lines control)
    {char : Char} (inside : char ∈ opkg_extract_value line) : char ≠ '\n' ∧ char ≠ '\x00' := by
  have own := extract_subset line inside
  have free := Text.splitOnP_free member own
  constructor
  · simpa using free
  · rintro rfl
    exact text ((Text.mem_splitOnP_infix member).subset own)

/-- What the script reads for a field is not empty when a line has it. -/
theorem fieldText_ne_nil_iff {control field : Text} (text : '\x00' ∉ control)
    (noColon : ':' ∉ field) : fieldText control field ≠ [] ↔ HasField control field := by
  have found : grepField control field =
      (lines control).filter fun line => field ++ [':'] <+: line := by
    unfold grepField
    exact if_neg fun binary => text binary.1
  have shape : ∀ line, field ++ [':'] <+: line ↔ ∃ rest, field ++ ':' :: rest = line := by
    intro line
    simp [List.IsPrefix]
  unfold fieldText HasField
  rw [found, ne_eq, substitution_eq_nil_iff]
  · simp only [List.mem_flatMap, List.mem_filter, decide_eq_true_eq, List.mem_append,
      List.mem_singleton]
    constructor
    · intro some
      by_contra none
      apply some
      rintro char ⟨line, ⟨member, begins⟩, inside | rfl⟩
      · obtain ⟨rest, rfl⟩ := (shape line).mp begins
        rw [extract_line noColon] at inside
        have visible : ∃ char ∈ rest, Text.isSpace char = false := by
          by_contra blank
          rw [(dropWhile_isSpace_eq_nil rest).mpr blank] at inside
          cases inside
        exact absurd ⟨rest, member, visible⟩ none
      · rfl
    · rintro ⟨rest, member, visible⟩ blank
      have nonempty : rest.dropWhile Text.isSpace ≠ [] := fun empty =>
        (dropWhile_isSpace_eq_nil rest).mp empty visible
      obtain ⟨char, others, value⟩ := List.exists_cons_of_ne_nil nonempty
      have inside : char ∈ opkg_extract_value (field ++ ':' :: rest) := by
        rw [extract_line noColon, value]
        exact List.mem_cons_self
      have newline := blank char ⟨_, ⟨member, (shape _).mpr ⟨rest, rfl⟩⟩, .inl inside⟩
      exact (mem_extract text member inside).1 newline
  · intro zero
    obtain ⟨line, member, inside⟩ := List.mem_flatMap.mp zero
    obtain inside | newline := List.mem_append.mp inside
    · exact (mem_extract text (List.mem_filter.mp member).1 inside).2 rfl
    · revert newline
      decide

/-- The package passes every check that is made, and the commands succeed. -/
structure Accepted (directory : Directory) (archiver : Archiver) : Prop where
  fields : ∀ field ∈ checked, fieldText directory.control field ≠ []
  filename : fieldText directory.control "Filename".toList = []
  legal : ∀ char ∈ echo (words directory.glob (names directory).pkg),
    char = '\n' ∨ isLegal char = true
  lines : ∀ line ∈ lines directory.control, isBad line = false
  scripts : ∀ script ∈ scripts, directory.regular script = true → directory.executable script = true
  conffiles : conffilesExist directory = true
  commands : words archiver.glob (pkg_file archiver.dest_dir (names directory)) ≠ [] ∧
    archiver.succeeds (words archiver.glob (pkg_file archiver.dest_dir (names directory))) = true

theorem pkg_appears_sane_iff (directory : Directory) :
    pkg_appears_sane directory = true ↔
      (∀ field ∈ checked, fieldText directory.control field ≠ []) ∧
        fieldText directory.control "Filename".toList = [] ∧
        (∀ char ∈ echo (words directory.glob (names directory).pkg),
          char = '\n' ∨ isLegal char = true) ∧
        (∀ line ∈ Build.lines directory.control, isBad line = false) ∧
        (∀ script ∈ scripts, directory.regular script = true →
          directory.executable script = true) ∧ conffilesExist directory = true := by
  have required : ∀ field, (required_field directory field).isSome = true ↔
      fieldText directory.control field ≠ [] := by
    intro field
    unfold required_field
    split
    · simp [*]
    · simp [*]
  unfold pkg_appears_sane disallowed_field legalName scriptsExecutable
  simp only [Bool.and_eq_true, List.all_eq_true, required, Bool.not_eq_true', List.any_eq_false,
    Bool.or_eq_true, beq_iff_eq, decide_eq_true_eq, Bool.not_eq_true, and_assoc]
  have script : ∀ path, (directory.regular path = false ∨ directory.executable path = true) ↔
      (directory.regular path = true → directory.executable path = true) := by
    intro path
    cases directory.regular path <;> simp
  simp only [script]

theorem opkg_build_iff (directory : Directory) (archiver : Archiver) (archive : Archive) :
    opkg_build directory archiver = some archive ↔ Accepted directory archiver ∧
      (words archiver.glob (pkg_file archiver.dest_dir (names directory))).head? = some archive.path ∧
      archive.names = names directory := by
  unfold opkg_build
  constructor
  · intro built
    split at built
    · next sane =>
        obtain ⟨fields, filename, legal, bad, scripts, conffiles⟩ :=
          (pkg_appears_sane_iff directory).mp sane
        split at built
        · cases built
        · next path members shape =>
            split at built
            · next success =>
                cases built
                exact ⟨⟨fields, filename, legal, bad, scripts, conffiles,
                  by simp [shape], by rw [shape]; exact success⟩, by rw [shape]; rfl, rfl⟩
            · cases built
    · cases built
  · rintro ⟨accepted, head, same⟩
    rw [if_pos ((pkg_appears_sane_iff directory).mpr ⟨accepted.fields, accepted.filename,
      accepted.legal, accepted.lines, accepted.scripts, accepted.conffiles⟩)]
    obtain ⟨_, success⟩ := accepted.commands
    cases shape : words archiver.glob (pkg_file archiver.dest_dir (names directory)) with
    | nil =>
        rw [shape] at head
        cases head
    | cons path members =>
        rw [shape] at head success
        have last : path = archive.path := Option.some.inj head
        subst last
        simp only [success, if_true]
        rw [← same]

/-- A binary control file is refused for the name of its package. -/
theorem Accepted.text {directory : Directory} {archiver : Archiver}
    (accepted : Accepted directory archiver) : '\x00' ∉ directory.control := by
  intro binary
  have given := accepted.fields "Package".toList (by decide)
  have found : grepField directory.control "Package".toList =
      ["Binary file (standard input) matches".toList] := by
    unfold grepField
    apply if_pos
    refine ⟨binary, ?_⟩
    intro none
    apply given
    unfold fieldText grepField
    rw [none]
    simp [substitution]
  have value : fieldText directory.control "Package".toList =
      "Binary file (standard input) matches".toList := by
    unfold fieldText
    rw [found]
    decide
  have name : (names directory).pkg = "Binary file (standard input) matches".toList := by
    have required : required_field directory "Package".toList =
        some (echo (words directory.glob (fieldText directory.control "Package".toList))) :=
      if_neg given
    show substitution ((required_field directory "Package".toList).getD []) = _
    rw [required, value]
    rfl
  have illegal := accepted.legal 'B' (by
    rw [name]
    show 'B' ∈ "Binary file (standard input) matches\n".toList
    decide)
  revert illegal
  decide

/-- The version is one that the two rewrites take the epoch from: it is one digit at most, and
there is nothing else that they remove. -/
structure ShortEpoch (version : Text) : Prop where
  noLabel : ¬ "Version:".toList <:+: version
  digit : ∀ char rest, version = char :: ':' :: rest → char.isDigit = true
  short : ∀ digits rest, version = digits ++ ':' :: rest →
    (∀ char ∈ digits, char.isDigit = true) → digits.length ≤ 1

/-- The path of the archive by the fields of the control file -/
def controlPath (directory : Directory) (archiver : Archiver) : Text :=
  pkg_file archiver.dest_dir ⟨fieldValue directory.control "Package".toList,
    withoutEpoch (fieldValue directory.control "Version".toList),
    fieldValue directory.control "Architecture".toList⟩

/-- The version is there, no field `Filename` is blank, the three fields are written with
single blanks and no option of `echo`, the epoch is short, and the path has no blank. -/
structure Kept (directory : Directory) (archiver : Archiver) : Prop where
  version : HasField directory.control "Version".toList
  filename : ∀ rest, "Filename".toList ++ ':' :: rest ∈ lines directory.control →
    ∃ char ∈ rest, Text.isSpace char = false
  package : Spaced (fieldValue directory.control "Package".toList) ∧
    ¬ Replaced directory.glob (fieldValue directory.control "Package".toList)
  epoch : ¬ Replaced directory.glob (fieldValue directory.control "Version".toList) →
    Spaced (fieldValue directory.control "Version".toList) ∧
      ShortEpoch (fieldValue directory.control "Version".toList)
  architecture : ¬ Replaced directory.glob (fieldValue directory.control "Architecture".toList) →
    Spaced (fieldValue directory.control "Architecture".toList)
  path : ¬ Replaced archiver.glob (controlPath directory archiver) →
    ∀ char ∈ controlPath directory archiver, isSeparator char = false

/-- Where the names of files take the place of a pattern, they spell the same by chance. -/
structure Spelled (directory : Directory) (archiver : Archiver) : Prop where
  version : Replaced directory.glob (fieldValue directory.control "Version".toList) →
    substitution (sed rewriteVersion
        (echo (words directory.glob (fieldValue directory.control "Version".toList)))) =
      withoutEpoch (fieldValue directory.control "Version".toList)
  architecture : Replaced directory.glob (fieldValue directory.control "Architecture".toList) →
    substitution (echo (words directory.glob
        (fieldValue directory.control "Architecture".toList))) =
      fieldValue directory.control "Architecture".toList
  path : Replaced archiver.glob (controlPath directory archiver) →
    (words archiver.glob (controlPath directory archiver)).head? =
      some (controlPath directory archiver)

theorem required_some {directory : Directory} {field : Text}
    (given : fieldText directory.control field ≠ []) :
    required_field directory field = some (echo (words directory.glob
      (fieldText directory.control field))) := if_neg given

theorem words_cons {glob : Text → List Text} {char : Char} (blank : isSeparator char = true)
    (value : Text) : words glob (char :: value) = words glob value := by
  have split : (char :: value).splitOnP isSeparator = [] :: value.splitOnP isSeparator :=
    List.splitOnP_append_cons [] value blank
  unfold words
  rw [split]
  rfl

theorem words_concat {glob : Text → List Text} {char : Char} (blank : isSeparator char = true)
    (value : Text) : words glob (value ++ [char]) = words glob value := by
  have split : (value ++ [char]).splitOnP isSeparator = value.splitOnP isSeparator ++ [[]] :=
    List.splitOnP_append_cons value [] blank
  unfold words
  rw [split, List.filter_append]
  simp

theorem words_trim (glob : Text → List Text) (value : Text) :
    words glob ((value.dropWhile isSeparator).rdropWhile isSeparator) = words glob value := by
  have front : words glob (value.dropWhile isSeparator) = words glob value := by
    induction value with
    | nil => rfl
    | cons char value ih =>
        rw [List.dropWhile_cons]
        split
        · next blank => rw [ih, words_cons blank]
        · rfl
  rw [← front]
  generalize value.dropWhile isSeparator = rest
  induction rest using List.reverseRecOn with
  | nil => rfl
  | append_singleton rest char ih =>
      cases blank : isSeparator char with
      | true => rw [List.rdropWhile_concat_pos _ _ _ blank, ih, words_concat blank]
      | false => rw [List.rdropWhile_concat_neg _ _ _ (by simp [blank])]

theorem names_eq {directory : Directory} {archiver : Archiver}
    (accepted : Accepted directory archiver)
    (version : fieldText directory.control "Version".toList ≠ []) :
    names directory =
      ⟨substitution (echo (words directory.glob (fieldValue directory.control "Package".toList))),
        substitution (sed rewriteVersion
          (echo (words directory.glob (fieldValue directory.control "Version".toList)))),
        substitution (echo (words directory.glob
          (fieldValue directory.control "Architecture".toList)))⟩ := by
  have package := required_some (accepted.fields "Package".toList (by decide))
  have architecture := required_some (accepted.fields "Architecture".toList (by decide))
  simp only [names, required_some version, package, architecture, Option.getD_some, fieldValue,
    words_trim]

theorem removeFirst_of_not_infix {pattern text : Text} (absent : ¬ pattern <:+: text) :
    removeFirst pattern text = text := by
  induction text with
  | nil => rfl
  | cons char text ih =>
      have here : ¬ pattern <+: char :: text := fun found => absent found.isInfix
      have later : ¬ pattern <:+: text := fun found =>
        absent (found.trans (List.suffix_cons char text).isInfix)
      rw [removeFirst, if_neg here, ih later]

theorem removeFirst_count {pattern text : Text} (found : pattern <:+: text) (nonempty : pattern ≠ [])
    (char : Char) : (removeFirst pattern text).count char + pattern.count char = text.count char := by
  induction text with
  | nil => exact absurd (List.eq_nil_of_infix_nil found) nonempty
  | cons first text ih =>
      unfold removeFirst
      split
      · next here =>
          obtain ⟨rest, shape⟩ := here
          rw [← shape, List.drop_left, List.count_append, Nat.add_comm]
      · next missing =>
          have later := ih ((List.infix_cons_iff.mp found).resolve_left missing)
          rw [List.count_cons, List.count_cons]
          omega

theorem removeEpoch_count (line : Text) (char : Char) :
    (removeEpoch line).count char ≤ line.count char := by
  unfold removeEpoch
  split
  · exact (((List.suffix_cons _ _).trans (List.suffix_cons _ _)).sublist).count_le char
  · exact le_rfl

theorem withoutEpoch_digits {digits : Text} (numeric : ∀ char ∈ digits, char.isDigit = true)
    (nonempty : digits ≠ []) (rest : Text) : withoutEpoch (digits ++ ':' :: rest) = rest := by
  have drop : (digits ++ ':' :: rest).dropWhile Char.isDigit = ':' :: rest := by
    rw [List.dropWhile_append_of_pos numeric]
    rfl
  have take : (digits ++ ':' :: rest).takeWhile Char.isDigit ≠ [] := by
    rw [List.takeWhile_append_of_pos numeric]
    exact List.append_ne_nil_of_left_ne_nil nonempty _
  unfold withoutEpoch
  rw [drop]
  exact if_neg take

theorem withoutEpoch_cases (version : Text) :
    (∃ digits rest, version = digits ++ ':' :: rest ∧ digits ≠ [] ∧
        (∀ char ∈ digits, char.isDigit = true)) ∨ withoutEpoch version = version := by
  unfold withoutEpoch
  split
  · next rest shape =>
      split
      · exact .inr rfl
      · next given =>
          apply Or.inl
          refine ⟨version.takeWhile Char.isDigit, rest, ?_, given, fun char member =>
            List.mem_takeWhile_imp member⟩
          rw [← shape, List.takeWhile_append_dropWhile]
  · exact .inr rfl

theorem withoutEpoch_count (version : Text) :
    (withoutEpoch version).count 'V' = version.count 'V' := by
  obtain ⟨digits, rest, rfl, given, numeric⟩ | same := withoutEpoch_cases version
  · have none : digits.count 'V' = 0 := by
      apply List.count_eq_zero.mpr
      intro member
      have digit := numeric 'V' member
      revert digit
      decide
    rw [withoutEpoch_digits numeric given, List.count_append, none, List.count_cons]
    simp
  · rw [same]

/-- The label takes its `V` with it. -/
theorem rewriteVersion_label {line : Text} (found : "Version:".toList <:+: line) :
    (rewriteVersion line).count 'V' < line.count 'V' := by
  have removed := removeFirst_count found (by decide) 'V'
  have less := removeEpoch_count (removeFirst "Version:".toList line) 'V'
  have one : "Version:".toList.count 'V' = 1 := by decide
  unfold rewriteVersion
  omega

theorem removeEpoch_two {first second : Char} (digit : second.isDigit = true) (rest : Text) :
    removeEpoch (first :: second :: rest) = first :: second :: rest := by
  unfold removeEpoch
  split
  · next shape =>
      rw [(List.cons.inj (List.cons.inj shape).2).1] at digit
      exact absurd digit (by decide)
  · rfl

/-- Where something in front of a colon is removed that is no digit, there was no epoch. -/
theorem withoutEpoch_digit {char : Char} {rest : Text}
    (same : withoutEpoch (char :: ':' :: rest) = rest) : char.isDigit = true := by
  obtain ⟨digits, after, shape, given, numeric⟩ | kept := withoutEpoch_cases (char :: ':' :: rest)
  · obtain ⟨first, digits, rfl⟩ := List.exists_cons_of_ne_nil given
    rw [List.cons_append] at shape
    rw [(List.cons.inj shape).1]
    exact numeric first List.mem_cons_self
  · have lengths := congrArg List.length (same.symm.trans kept)
    simp only [List.length_cons] at lengths
    omega

theorem removeEpoch_iff (version : Text) : removeEpoch version = withoutEpoch version ↔
    (∀ char rest, version = char :: ':' :: rest → char.isDigit = true) ∧
      ∀ digits rest, version = digits ++ ':' :: rest → (∀ char ∈ digits, char.isDigit = true) →
        digits.length ≤ 1 := by
  constructor
  · intro same
    constructor
    · rintro char rest rfl
      exact withoutEpoch_digit same.symm
    · rintro digits rest rfl numeric
      rcases digits with _ | ⟨first, _ | ⟨second, digits⟩⟩
      · exact Nat.zero_le _
      · exact le_rfl
      · have second' := numeric second (List.mem_cons_of_mem _ List.mem_cons_self)
        have kept : removeEpoch (first :: second :: (digits ++ ':' :: rest)) =
            first :: second :: (digits ++ ':' :: rest) := removeEpoch_two second' _
        rw [withoutEpoch_digits numeric (List.cons_ne_nil _ _)] at same
        have lengths := congrArg List.length (kept.symm.trans same)
        simp only [List.length_cons, List.length_append] at lengths
        omega
  · rintro ⟨digit, short⟩
    obtain ⟨digits, rest, rfl, given, numeric⟩ | kept := withoutEpoch_cases version
    · have one : digits.length = 1 :=
        le_antisymm (short digits rest rfl numeric) (List.length_pos_of_ne_nil given)
      obtain ⟨first, rfl⟩ := List.length_eq_one_iff.mp one
      rw [withoutEpoch_digits numeric given]
      rfl
    · rw [kept]
      unfold removeEpoch
      split
      · next char rest =>
          have epoch : withoutEpoch ([char] ++ ':' :: rest) = rest :=
            withoutEpoch_digits (by simpa using digit char rest rfl) (by simp) rest
          rw [List.singleton_append, kept] at epoch
          have lengths := congrArg List.length epoch
          simp only [List.length_cons] at lengths
          omega
      · rfl

/-- On such versions the two rewrites remove the epoch, and on no others. -/
theorem rewriteVersion_iff (version : Text) :
    rewriteVersion version = withoutEpoch version ↔ ShortEpoch version := by
  constructor
  · intro same
    have noLabel : ¬ "Version:".toList <:+: version := by
      intro found
      have less := rewriteVersion_label found
      rw [same, withoutEpoch_count] at less
      exact lt_irrefl _ less
    rw [rewriteVersion, removeFirst_of_not_infix noLabel, removeEpoch_iff] at same
    exact ⟨noLabel, same.1, same.2⟩
  · rintro ⟨noLabel, digit, short⟩
    rw [rewriteVersion, removeFirst_of_not_infix noLabel, removeEpoch_iff]
    exact ⟨digit, short⟩

theorem sed_line {command : Text → Text} {line : Text} (free : '\n' ∉ line) :
    sed command (line ++ ['\n']) = command line ++ '\n' :: command [] := by
  have pieces : lines (line ++ ['\n']) = [line, []] := by
    unfold lines
    have other : ∀ char ∈ line, (char == '\n') = false := by
      intro char member
      exact beq_false_of_ne fun newline => free (newline ▸ member)
    rw [List.splitOnP_append_cons line [] rfl, List.splitOnP_eq_singleton other]
    rfl
  unfold sed
  rw [pieces, List.map_cons, List.map_cons, List.map_nil, List.intercalate_cons_cons,
    List.intercalate_singleton]
  simp

theorem intercalate_map_length {command : Text → Text}
    (shorter : ∀ line, (command line).length ≤ line.length) (texts : List Text) :
    (['\n'].intercalate (texts.map command)).length ≤ (['\n'].intercalate texts).length := by
  induction texts with
  | nil => exact le_rfl
  | cons line rest ih =>
      have here := shorter line
      cases rest with
      | nil =>
          rw [List.map_cons, List.map_nil, List.intercalate_singleton, List.intercalate_singleton]
          exact here
      | cons second rest =>
          rw [List.map_cons] at ih
          rw [List.map_cons, List.map_cons, List.intercalate_cons_cons, List.intercalate_cons_cons]
          simp only [List.length_append]
          omega

theorem sed_length {command : Text → Text}
    (shorter : ∀ line, (command line).length ≤ line.length) (text : Text) :
    (sed command text).length ≤ text.length := by
  have joined : ['\n'].intercalate (lines text) = text := List.intercalate_splitOn '\n'
  have each := intercalate_map_length shorter (lines text)
  rwa [joined] at each

theorem rewriteVersion_sublist (line : Text) : List.Sublist (rewriteVersion line) line := by
  have first : ∀ text, List.Sublist (removeFirst "Version:".toList text) text := by
    intro text
    induction text with
    | nil => exact List.Sublist.refl _
    | cons char text ih =>
        unfold removeFirst
        split
        · exact List.drop_sublist _ _
        · exact ih.cons_cons char
  refine List.Sublist.trans ?_ (first line)
  unfold rewriteVersion removeEpoch
  split
  · next char rest shape =>
      rw [shape]
      exact ((List.suffix_cons _ _).trans (List.suffix_cons _ _)).sublist
  · exact List.Sublist.refl _

theorem rewriteVersion_line {line : Text} (free : '\n' ∉ line) (text : '\x00' ∉ line) :
    substitution (sed rewriteVersion (line ++ ['\n'])) = rewriteVersion line := by
  have subset := (rewriteVersion_sublist line).subset
  rw [sed_line free]
  exact substitution_line_eq (fun member => free (subset member))
    fun member => text (subset member)

theorem withoutEpoch_separators (version : Text) :
    (withoutEpoch version).filter isSeparator = version.filter isSeparator := by
  obtain ⟨digits, rest, rfl, given, numeric⟩ | same := withoutEpoch_cases version
  · have none : digits.filter isSeparator = [] := by
      rw [List.filter_eq_nil_iff]
      intro char member blank
      have digit := numeric char member
      simp only [isSeparator, Bool.or_eq_true, beq_iff_eq] at blank
      obtain (rfl | rfl) | rfl := blank <;> revert digit <;> decide
    rw [withoutEpoch_digits numeric given, List.filter_append, none]
    rfl
  · rw [same]

theorem isEchoOption_head {word : Text} (option : isEchoOption word = true) :
    word.head? = some '-' := by
  unfold isEchoOption at option
  split at option
  · rfl
  · cases option

/-- An option of `echo` in front is no epoch. -/
theorem withoutEpoch_option {version word : Text} {rest : List Text}
    (shape : pieces version = word :: rest) (option : isEchoOption word = true) :
    withoutEpoch version = version := by
  obtain ⟨digits, after, rfl, given, numeric⟩ | same := withoutEpoch_cases version
  · obtain ⟨digit, digits, rfl⟩ := List.exists_cons_of_ne_nil given
    have number := numeric digit List.mem_cons_self
    have visible : isSeparator digit = false := by
      rw [Bool.eq_false_iff]
      intro blank
      simp only [isSeparator, Bool.or_eq_true, beq_iff_eq] at blank
      obtain (rfl | rfl) | rfl := blank <;> revert number <;> decide
    obtain ⟨first, others, begins⟩ := pieces_cons visible (digits ++ ':' :: after)
    rw [List.cons_append, begins] at shape
    have head := isEchoOption_head option
    rw [← (List.cons.inj shape).1] at head
    rw [Option.some.inj head] at number
    exact absurd number (by decide)
  · exact same

theorem rewriteVersion_separators {line : Text} (noLabel : ¬ "Version:".toList <:+: line)
    (visible : ∀ char ∈ line.head?, isSeparator char = false) :
    (rewriteVersion line).filter isSeparator = line.filter isSeparator := by
  rw [rewriteVersion, removeFirst_of_not_infix noLabel]
  unfold removeEpoch
  split
  · next char rest =>
      rw [List.filter_cons_of_neg (by simp [visible char rfl]),
        List.filter_cons_of_neg (by decide)]
  · rfl

theorem intercalate_pieces_head (value : Text) :
    ∀ char ∈ ([' '].intercalate (pieces value)).head?, isSeparator char = false := by
  cases shape : pieces value with
  | nil => simp
  | cons word rest =>
      have listed : word ∈ pieces value := shape ▸ List.mem_cons_self
      obtain ⟨first, others, rfl⟩ := List.exists_cons_of_ne_nil
        (by simpa using (List.mem_filter.mp listed).2 : word ≠ [])
      have begins : ([' '].intercalate ((first :: others) :: rest)).head? = some first := by
        cases rest with
        | nil => rw [List.intercalate_singleton, List.head?_cons]
        | cons second rest =>
            rw [List.intercalate_cons_cons]
            rfl
      intro char member
      rw [begins] at member
      rw [← Option.some.inj member]
      exact mem_pieces_free listed List.mem_cons_self

theorem pieces_label_count (value : Text) :
    ([' '].intercalate (pieces value)).count 'V' = value.count 'V' := by
  have visible : ∀ text : Text,
      text.countP (fun char => char == 'V' && !isSeparator char) = text.count 'V' := by
    intro text
    rw [List.count_eq_countP]
    apply List.countP_congr
    intro char _
    simp only [Bool.and_eq_true, beq_iff_eq, Bool.not_eq_true']
    exact ⟨And.left, fun label => ⟨label, label ▸ rfl⟩⟩
  rw [← visible, ← visible, (pieces_count (· == 'V') value).1]

/-- The words of a version name the archive without its epoch exactly when they stand one blank
apart, no option is in front and the epoch is short. -/
theorem epoch_iff {version : Text} (text : '\x00' ∉ version) :
    substitution (sed rewriteVersion (echo (pieces version))) = withoutEpoch version ↔
      Spaced version ∧ ShortEpoch version := by
  have printed : ∀ option : ∀ word rest, pieces version = word :: rest → isEchoOption word = false,
      substitution (sed rewriteVersion (echo (pieces version))) =
        rewriteVersion ([' '].intercalate (pieces version)) := by
    intro option
    rw [echo_pieces option,
      rewriteVersion_line (newline_not_mem_pieces version) (zero_not_mem_pieces text)]
  constructor
  · intro same
    have option : ∀ word rest, pieces version = word :: rest → isEchoOption word = false := by
      intro word rest shape
      rw [Bool.eq_false_iff]
      intro option
      have shorter := echo_option_length option rest
      have cut := substitution_length (sed rewriteVersion (echo (pieces version)))
      have edited := sed_length (fun line => (rewriteVersion_sublist line).length_le)
        (echo (pieces version))
      have joined := pieces_length version
      rw [same, withoutEpoch_option shape option] at cut
      rw [shape] at cut edited joined
      omega
    rw [printed option] at same
    -- One `V` fewer with the label, and one separator fewer with each superfluous blank.
    have noLabel : ¬ "Version:".toList <:+: [' '].intercalate (pieces version) := by
      intro found
      have less := rewriteVersion_label found
      rw [same, withoutEpoch_count, pieces_label_count] at less
      exact lt_irrefl _ less
    have blanks : [' '].intercalate (pieces version) = version := by
      apply intercalate_pieces
      rw [← rewriteVersion_separators noLabel (intercalate_pieces_head version), same,
        withoutEpoch_separators]
    rw [blanks] at same
    exact ⟨⟨blanks, option⟩, (rewriteVersion_iff version).mp same⟩
  · rintro ⟨spaced, short⟩
    rw [printed spaced.option, spaced.blanks]
    exact (rewriteVersion_iff version).mpr short

section

variable {directory : Directory} {archiver : Archiver}

theorem zero_not_mem_fieldValue (control field : Text) : '\x00' ∉ fieldValue control field := by
  intro member
  have inside : '\x00' ∈ fieldText control field :=
    (List.dropWhile_suffix _).subset ((List.rdropWhile_prefix _ _).subset member)
  exact (mem_substitution inside).2 rfl

theorem mandatory_text (accepted : Accepted directory archiver) {field : Text}
    (noColon : ':' ∉ field) :
    fieldText directory.control field ≠ [] ↔ HasField directory.control field :=
  fieldText_ne_nil_iff accepted.text noColon

theorem names_iff (accepted : Accepted directory archiver)
    (version : HasField directory.control "Version".toList) :
    names directory = ⟨fieldValue directory.control "Package".toList,
        withoutEpoch (fieldValue directory.control "Version".toList),
        fieldValue directory.control "Architecture".toList⟩ ↔
      substitution (echo (words directory.glob (fieldValue directory.control "Package".toList))) =
          fieldValue directory.control "Package".toList ∧
        substitution (sed rewriteVersion (echo (words directory.glob
            (fieldValue directory.control "Version".toList)))) =
          withoutEpoch (fieldValue directory.control "Version".toList) ∧
        substitution (echo (words directory.glob
            (fieldValue directory.control "Architecture".toList))) =
          fieldValue directory.control "Architecture".toList := by
  rw [names_eq accepted ((mandatory_text accepted (by decide)).mpr version)]
  exact Names.mk.injEq _ _ _ _ _ _ ▸ Iff.rfl

theorem pkg_file_ne_nil (dest_dir : Text) (names : Names) : pkg_file dest_dir names ≠ [] := by
  simp [pkg_file]

theorem head_path_iff {glob : Text → List Text} {path : Text} (kept : ¬ Replaced glob path)
    (given : path ≠ []) : (words glob path).head? = some path ↔
      ∀ char ∈ path, isSeparator char = false := by
  rw [words_pieces kept]
  constructor
  · intro head char inside
    exact mem_pieces_free (List.mem_of_head? head) inside
  · intro free
    rw [pieces_free free, if_neg given]
    rfl

theorem Accepted.complete (accepted : Accepted directory archiver) (kept : Kept directory archiver)
    (spelled : Spelled directory archiver) {archive : Archive}
    (built : opkg_build directory archiver = some archive) :
    Complete directory.control archiver.dest_dir archive := by
  obtain ⟨_, path, same⟩ := (opkg_build_iff directory archiver archive).mp built
  have package : substitution (echo (words directory.glob
      (fieldValue directory.control "Package".toList))) =
      fieldValue directory.control "Package".toList := by
    rw [words_pieces kept.package.2]
    exact (echo_pieces_iff (zero_not_mem_fieldValue _ _)).mpr kept.package.1
  have epoch : substitution (sed rewriteVersion (echo (words directory.glob
      (fieldValue directory.control "Version".toList)))) =
      withoutEpoch (fieldValue directory.control "Version".toList) := by
    by_cases replaced : Replaced directory.glob (fieldValue directory.control "Version".toList)
    · exact spelled.version replaced
    · rw [words_pieces replaced]
      exact (epoch_iff (zero_not_mem_fieldValue _ _)).mpr (kept.epoch replaced)
  have architecture : substitution (echo (words directory.glob
      (fieldValue directory.control "Architecture".toList))) =
      fieldValue directory.control "Architecture".toList := by
    by_cases replaced : Replaced directory.glob
        (fieldValue directory.control "Architecture".toList)
    · exact spelled.architecture replaced
    · rw [words_pieces replaced]
      exact (echo_pieces_iff (zero_not_mem_fieldValue _ _)).mpr (kept.architecture replaced)
  have named := (names_iff accepted kept.version).mpr ⟨package, epoch, architecture⟩
  constructor
  · intro field member
    obtain rfl | member := List.mem_cons.mp member
    · exact kept.version
    · have noColon : ∀ field ∈ checked, ':' ∉ field := by decide
      exact (mandatory_text accepted (noColon field member)).mp (accepted.fields field member)
  · rintro line member ⟨rest, rfl⟩
    have valued := kept.filename rest member
    have blank : ¬ HasField directory.control "Filename".toList := by
      rw [← mandatory_text accepted (by decide)]
      exact not_not.mpr accepted.filename
    exact blank ⟨rest, member, valued⟩
  · intro char member
    have legal := accepted.legal char
    rw [named, words_pieces kept.package.2, echo_pieces kept.package.1.option,
      kept.package.1.blanks] at legal
    obtain rfl | own := legal (List.mem_append_left _ member)
    · rw [← kept.package.1.blanks] at member
      exact absurd member (newline_not_mem_pieces _)
    · exact own
  · rw [same, named]
  · have head : (words archiver.glob (controlPath directory archiver)).head? =
        some (controlPath directory archiver) := by
      by_cases replaced : Replaced archiver.glob (controlPath directory archiver)
      · exact spelled.path replaced
      · exact (head_path_iff replaced (pkg_file_ne_nil _ _)).mpr (kept.path replaced)
    rw [named, show pkg_file archiver.dest_dir _ = controlPath directory archiver from rfl,
      head] at path
    rw [same, named]
    exact (Option.some.inj path).symm

theorem Complete.kept (accepted : Accepted directory archiver) {archive : Archive}
    (complete : Complete directory.control archiver.dest_dir archive)
    (built : opkg_build directory archiver = some archive) :
    Kept directory archiver ∧ Spelled directory archiver := by
  obtain ⟨_, path, same⟩ := (opkg_build_iff directory archiver archive).mp built
  have version := complete.fields "Version".toList List.mem_cons_self
  have named := complete.named
  rw [same] at named
  obtain ⟨package, epoch, architecture⟩ := (names_iff accepted version).mp named
  have unreplaced : ¬ Replaced directory.glob (fieldValue directory.control "Package".toList) := by
    rintro ⟨word, listed, pattern, -⟩
    obtain ⟨char, inside, special⟩ := List.any_eq_true.mp pattern
    have legal := complete.legal char
      ((Text.mem_splitOnP_infix (List.mem_filter.mp listed).1).subset inside)
    simp only [Bool.or_eq_true, beq_iff_eq] at special
    obtain (rfl | rfl) | rfl := special <;> revert legal <;> decide
  have head : (words archiver.glob (controlPath directory archiver)).head? =
      some (controlPath directory archiver) := by
    have written := complete.path
    rw [same, named] at written
    rw [named, written] at path
    exact path
  constructor
  · constructor
    · exact version
    · intro rest member
      exact absurd ⟨rest, rfl⟩ (complete.noFilename _ member)
    · rw [words_pieces unreplaced] at package
      exact ⟨(echo_pieces_iff (zero_not_mem_fieldValue _ _)).mp package, unreplaced⟩
    · intro kept
      rw [words_pieces kept] at epoch
      exact (epoch_iff (zero_not_mem_fieldValue _ _)).mp epoch
    · intro kept
      rw [words_pieces kept] at architecture
      exact (echo_pieces_iff (zero_not_mem_fieldValue _ _)).mp architecture
    · intro kept
      exact (head_path_iff kept (pkg_file_ne_nil _ _)).mp head
  · exact ⟨fun _ => epoch, fun _ => architecture, fun _ => head⟩

end

def versionless : Metadata :=
  [("Package".toList, "zlib".toList), ("Architecture".toList, "arm".toList),
    ("Maintainer".toList, "botbrew".toList), ("Description".toList, "Compression".toList),
    ("Section".toList, "libs".toList), ("Priority".toList, "optional".toList),
    ("Source".toList, "zlib-1.2.7.tar.gz".toList)]

def longEpoch : Metadata := ("Version".toList, "10:1.2.7".toList) :: versionless

def emptyDirectory : Directory where
  control := []
  regular _ := false
  executable _ := false
  conffiles := none
  glob word := [word]

def output : Archiver where
  dest_dir := "/out".toList
  glob word := [word]
  succeeds _ := true

end BotBrew.Opkg.Build
