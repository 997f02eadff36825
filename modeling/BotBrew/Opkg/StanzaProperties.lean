import BotBrew.Opkg.FieldProperties
import BotBrew.Opkg.Index

/-! The stanza of a package: when it is one, and what is read from it. -/

set_option autoImplicit false

namespace BotBrew.Opkg

open Text

def Trimmed (source : Text) : Prop := strip (cut source).1 = (cut source).1

/-- A value that was read from a control file, or has no blank. -/
def Shaped (value : Text) : Prop := ∃ source, Trimmed source ∧ unfolded source = value

theorem newline_notMem_strip (source : Text) : '\n' ∉ strip (cut source).1 :=
  fun member => (newline_notMem_cut source).1 (strip_subset member)

theorem shaped_unfolded (source : Text) : Shaped (unfolded source) := by
  have lines : cut (paste (strip (cut source).1) (cut source).2) =
      (strip (cut source).1, (cut source).2) :=
    cut_paste (newline_notMem_strip source) (newline_notMem_cut source).2
  refine ⟨paste (strip (cut source).1) (cut source).2, ?_, ?_⟩
  · rw [Trimmed, lines, strip_strip]
  · rw [unfolded, unfolded, lines, strip_strip]

theorem strip_visible {value : Text} (visible : ∀ char ∈ value, isSpace char = false) :
    strip value = value := by
  have right : rstrip value = value :=
    List.rdropWhile_eq_self_iff.mpr fun nonempty => by simp [visible _ (List.getLast_mem nonempty)]
  have left : lstrip value = value := by
    cases value with
    | nil => rfl
    | cons char rest => exact List.dropWhile_cons_of_neg (by simp [visible char])
  rw [strip, right, left]

theorem Shaped.of_visible {value : Text} (visible : ∀ char ∈ value, isSpace char = false) :
    Shaped value := by
  have free : '\n' ∉ value := fun member => absurd (visible _ member) (by decide)
  exact ⟨value, by rw [Trimmed, cut_line free, strip_visible visible],
    by simp [unfolded, cut_line free, strip_visible visible]⟩

/-- The labels of `__repr__` and the attributes printed under them, in its order. -/
def labels : List (String × String) :=
  [("Package", "package"), ("Version", "version"), ("Depends", "depends"),
    ("Provides", "provides"), ("Replaces", "replaces"), ("Conflicts", "conflicts"),
    ("Suggests", "suggests"), ("Recommends", "recommends"), ("Section", "section"),
    ("Architecture", "architecture"), ("Maintainer", "maintainer"), ("MD5Sum", "md5sum"),
    ("Size", "size"), ("InstalledSize", "installed_size"), ("Filename", "filename"),
    ("Source", "source"), ("Description", "description"), ("OE", "oe"), ("HomePage", "homepage"),
    ("Priority", "priority"), ("Tags", "tags")]

def Package.value (pkg : Package) (name : String) : Option Text :=
  if name = "md5sum" then pkg.md5sum
  else if name = "size" then
    if pkg.filesize = 0 then none else some (decimal pkg.filesize)
  else pkg.self name

def printedField (label : Text) : Option Text → Metadata
  | none | some [] => []
  | some value => [(label, value)]

/-- The fields that are printed: those with a value. -/
def Package.printedFields (pkg : Package) : Metadata :=
  labels.flatMap fun label => printedField label.1.toList (pkg.value label.2)

def stanzaText (fields : Metadata) : Text :=
  fields.flatMap fun field => field.1 ++ ": ".toList ++ field.2 ++ ['\n']

theorem shown_eq (label : String) (value : Option Text) :
    shown label value = stanzaText (printedField label.toList value) := by
  match value with
  | none => rfl
  | some [] => rfl
  | some (char :: rest) => simp [shown, stanzaText, printedField]

theorem repr_eq (pkg : Package) : pkg.repr = stanzaText pkg.printedFields ++ ['\n'] := by
  have each : pkg.repr =
      (labels.map fun label => shown label.1 (pkg.value label.2)).flatten ++ ['\n'] := by
    simp only [labels, List.map_cons, List.map_nil, List.flatten_cons, List.flatten_nil,
      List.append_assoc, Package.value, Package.repr, String.reduceEq, if_false,
      if_true, List.append_nil]
  rw [each, Package.printedFields, stanzaText, List.flatMap_assoc, List.flatMap_def]
  simp only [shown_eq, stanzaText]

def blank : Text := ['\n']

/-- Lines of a package, and then blank ones only. -/
structure IsStanza (block : File) : Prop where
  begun : block.takeWhile (· ≠ blank) ≠ []
  ended : block.dropWhile (· ≠ blank) ≠ []
  blanks : ∀ line ∈ block.dropWhile (· ≠ blank), line = blank

/-- The values that a stanza can hold: single lines, and one that goes on for
another line if it is the last one. Such a value has two newlines. -/
def Fits : List Text → Prop
  | [] => True
  | [value] => value.count '\n' ≤ 2
  | value :: rest => '\n' ∉ value ∧ Fits rest

def printedLines (label source : Text) : File :=
  (label ++ ": ".toList ++ strip (cut source).1 ++ ['\n']) ::
    (cut source).2.flatMap fun line => [' ' :: line ++ ['\n'], blank]

theorem readlines_printed {label : Text} (named : Named label) (source text : Text) :
    readlines (label ++ ": ".toList ++ unfolded source ++ '\n' :: text) =
      printedLines label source ++ readlines text := by
  obtain ⟨-, restFree⟩ := newline_notMem_cut source
  have headFree : '\n' ∉ label ++ ": ".toList ++ strip (cut source).1 := by
    simp [newline_notMem_name named, newline_notMem_strip source]
  have indented : ∀ line ∈ (cut source).2.flatMap fun line => [' ' :: line, []], '\n' ∉ line := by
    intro line member
    obtain ⟨source, inRest, shown⟩ := List.mem_flatMap.mp member
    simp only [List.mem_cons, List.not_mem_nil, or_false] at shown
    rcases shown with rfl | rfl
    · simp [restFree source inRest]
    · simp
  -- each newline is moved behind the line before it
  have shift : ∀ lines : List Text,
      (lines.flatMap fun line => '\n' :: ' ' :: line ++ ['\n']) ++ '\n' :: text =
        '\n' :: (((lines.flatMap fun line => [' ' :: line, []]).flatMap
          fun line => line ++ ['\n']) ++ text) := by
    intro lines
    induction lines with
    | nil => rfl
    | cons line lines ih =>
        simp only [List.flatMap_cons, List.append_assoc, List.cons_append, List.nil_append]
          at ih ⊢
        rw [ih]
  rw [unfolded, ← List.append_assoc, List.append_assoc, shift, readlines_line headFree,
    readlines_lines indented, printedLines]
  simp [List.map_flatMap, blank]

theorem count_unfolded (source : Text) :
    (unfolded source).count '\n' = 2 * (cut source).2.length := by
  obtain ⟨-, restFree⟩ := newline_notMem_cut source
  have first : (strip (cut source).1).count '\n' = 0 :=
    List.count_eq_zero.mpr (newline_notMem_strip source)
  rw [unfolded, List.count_append, first, Nat.zero_add]
  generalize (cut source).2 = rest at restFree
  induction rest with
  | nil => rfl
  | cons line rest ih =>
      have free : line.count '\n' = 0 := List.count_eq_zero.mpr (restFree line (by simp))
      have inner := ih fun other member => restFree other (by simp [member])
      rw [List.flatMap_cons, List.count_append, inner]
      simp [free]
      omega

theorem printedLines_head {label : Text} (named : Named label) (source : Text) :
    ∃ line rest, printedLines label source = line :: rest ∧ line ≠ blank ∧
      rest = (cut source).2.flatMap fun line => [' ' :: line ++ ['\n'], blank] := by
  refine ⟨_, _, rfl, ?_, rfl⟩
  intro same
  obtain ⟨nonempty, -⟩ := named
  cases label with
  | nil => exact nonempty rfl
  | cons char label => simp [blank] at same

def Separated (block : File) : Prop := ∀ line ∈ block.dropWhile (· ≠ blank), line = blank

theorem separated_visible {line : Text} (visible : line ≠ blank) (rest : File) :
    Separated (line :: rest) ↔ Separated rest := by
  simp [Separated, visible]

theorem separated_blank (rest : File) :
    Separated (blank :: rest) ↔ ∀ line ∈ rest, line = blank := by
  simp [Separated]

def printedBlock (sources : Metadata) : File :=
  sources.flatMap fun field => printedLines field.1 field.2

/-- The fields that are printed for these sources. -/
def Metadata.unfold (sources : Metadata) : Metadata :=
  sources.map fun field => (field.1, unfolded field.2)

theorem readlines_stanza {sources : Metadata} (named : ∀ field ∈ sources, Named field.1)
    (text : Text) :
    readlines (stanzaText sources.unfold ++ text) = printedBlock sources ++ readlines text := by
  induction sources with
  | nil => rfl
  | cons field rest ih =>
      have inner := ih fun other member => named other (by simp [member])
      have first := readlines_printed (named field (by simp)) field.2
        (stanzaText (Metadata.unfold rest) ++ text)
      simp only [stanzaText, Metadata.unfold, printedBlock, List.map_cons, List.flatMap_cons,
        List.append_assoc, List.cons_append, List.nil_append] at inner first ⊢
      rw [first, inner]

theorem separated_iff {sources : Metadata} (named : ∀ field ∈ sources, Named field.1) :
    Separated (printedBlock sources ++ [blank, blank]) ↔
      Fits (sources.unfold.map Prod.snd) := by
  induction sources with
  | nil => simp [printedBlock, Metadata.unfold, Fits, Separated]
  | cons field rest ih =>
      have namedRest : ∀ other ∈ rest, Named other.1 :=
        fun other member => named other (by simp [member])
      obtain ⟨line, more, shape, visible, moreShape⟩ :=
        printedLines_head (named field (by simp)) field.2
      have count := count_unfolded field.2
      have single : '\n' ∉ unfolded field.2 ↔ (cut field.2).2 = [] := by
        rw [← List.count_eq_zero, count, Nat.mul_eq_zero, List.length_eq_zero_iff]
        exact or_iff_right (by decide)
      have step : printedBlock (field :: rest) ++ [blank, blank] =
          line :: (more ++ (printedBlock rest ++ [blank, blank])) := by
        simp [printedBlock, shape]
      rw [step, separated_visible visible, moreShape]
      match lines : (cut field.2).2 with
      | [] =>
          simp only [List.flatMap_nil, List.nil_append, ih namedRest]
          cases rest with
          | nil => simp [Metadata.unfold, Fits, count, lines]
          | cons field' rest' => simp [Metadata.unfold, Fits, single.mpr lines]
      | [second] =>
          have indented : (' ' :: second ++ ['\n']) ≠ blank := by simp [blank]
          simp only [List.flatMap_cons, List.flatMap_nil, List.append_nil, List.cons_append,
            List.nil_append] at indented ⊢
          rw [separated_visible indented, separated_blank]
          cases rest with
          | nil => simp [Metadata.unfold, Fits, count, lines, printedBlock]
          | cons field' rest' =>
              obtain ⟨line', more', shape', visible', -⟩ :=
                printedLines_head (namedRest field' (by simp)) field'.2
              refine iff_of_false (fun all => visible' (all line' ?_)) fun fits => ?_
              · simp [printedBlock, shape']
              · have free := single.mp (by simpa [Metadata.unfold, Fits] using fits.1)
                rw [lines] at free
                cases free
      | second :: third :: others =>
          have indented : ∀ line : Text, ' ' :: line ++ ['\n'] ≠ blank := by simp [blank]
          refine iff_of_false (fun separated => ?_) fun fits => ?_
          · simp only [List.flatMap_cons, List.cons_append, List.nil_append] at separated indented
            rw [separated_visible (indented second), separated_blank] at separated
            exact indented third (separated _ (by simp))
          · cases rest with
            | nil =>
                have few : (unfolded field.2).count '\n' ≤ 2 := by
                  simpa [Metadata.unfold, Fits] using fits
                rw [count, lines, List.length_cons, List.length_cons] at few
                omega
            | cons field' rest' =>
                have free := single.mp (by simpa [Metadata.unfold, Fits] using fits.1)
                rw [lines] at free
                cases free

theorem isStanza_iff {sources : Metadata} (named : ∀ field ∈ sources, Named field.1)
    (nonempty : sources ≠ []) :
    IsStanza (printedBlock sources ++ [blank, blank]) ↔ Fits (sources.unfold.map Prod.snd) := by
  refine (Iff.intro (fun stanza => stanza.blanks) fun separated => ?_).trans (separated_iff named)
  cases sources with
  | nil => exact absurd rfl nonempty
  | cons field rest =>
      obtain ⟨line, more, shape, visible, -⟩ := printedLines_head (named field (by simp)) field.2
      refine ⟨?_, fun all => ?_, separated⟩
      · simp [printedBlock, shape, visible]
      · have every := List.dropWhile_eq_nil_iff.mp all blank (by simp)
        simp at every

/-- Where the values fit, the lines are those of a control file, up to a blank one
behind the last field. -/
theorem printedBlock_fits {sources : Metadata} (trimmed : ∀ field ∈ sources, Trimmed field.2)
    (fits : Fits (sources.unfold.map Prod.snd)) :
    ∃ extra, (extra = [] ∨ extra = [blank]) ∧
      printedBlock sources = sources.flatMap fieldLines ++ extra := by
  induction sources with
  | nil => exact ⟨[], Or.inl rfl, rfl⟩
  | cons field rest ih =>
      have head := trimmed field (by simp)
      have count := count_unfolded field.2
      have few : (cut field.2).2.length ≤ 1 := by
        cases rest with
        | nil =>
            have bound : (unfolded field.2).count '\n' ≤ 2 := by
              simpa [Metadata.unfold, Fits] using fits
            omega
        | cons field' rest' =>
            have free : '\n' ∉ unfolded field.2 := by simpa [Metadata.unfold, Fits] using fits.1
            rw [List.count_eq_zero.mpr free] at count
            omega
      rw [Trimmed] at head
      match lines : (cut field.2).2 with
      | [] =>
          have fitsRest : Fits (Metadata.unfold rest |>.map Prod.snd) := by
            cases rest with
            | nil => trivial
            | cons field' rest' => exact fits.2
          obtain ⟨extra, kind, inner⟩ := ih (fun other member => trimmed other (by simp [member])) fitsRest
          refine ⟨extra, kind, ?_⟩
          have first : printedLines field.1 field.2 = fieldLines field := by
            simp [printedLines, fieldLines, head, lines]
          rw [printedBlock] at inner ⊢
          rw [List.flatMap_cons, List.flatMap_cons, inner, first, List.append_assoc]
      | [second] =>
          cases rest with
          | nil =>
              exact ⟨[blank], Or.inr rfl, by simp [printedBlock, printedLines, fieldLines, head, lines]⟩
          | cons field' rest' =>
              have free : '\n' ∉ unfolded field.2 := by simpa [Metadata.unfold, Fits] using fits.1
              rw [List.count_eq_zero.mpr free, lines] at count
              cases count
      | _ :: _ :: _ =>
          rw [lines] at few
          simp at few

/-- What holds of a package whose control file `opkg-buildyaml` wrote. -/
structure Package.Indexed (pkg : Package) : Prop where
  shaped : ∀ name value, pkg.attr name = some value → Shaped value
  size : pkg.size = none
  info : ∃ info, pkg.file = some info
  installed_size : pkg.self "installed_size" = none
  required : ∀ name ∈ ["package", "version", "architecture"], ∃ value,
    pkg.self name = some value ∧ value ≠ []

theorem alphanum_visible {char : Char} (alphanum : char.isAlphanum = true) :
    isSpace char = false :=
  (isNameChar_visible (by simp [isNameChar, alphanum])).1

theorem decimal_digits (number : Nat) : ∀ char ∈ decimal number, char.isDigit = true :=
  fun _ member => Nat.isDigit_of_mem_toDigits (by decide) (by decide) member

theorem int_decimal (number : Nat) : int (decimal number) = some number := by
  have nonempty : decimal number ≠ [] := Nat.toDigits_ne_nil
  rw [int, if_neg nonempty]
  exact congrArg some (Nat.ofDigitChars_eq_foldl.symm.trans Nat.ofDigitChars_ten_toDigits)

theorem decimal_shaped (number : Nat) : Shaped (decimal number) :=
  Shaped.of_visible fun char member =>
    alphanum_visible (by simp [Char.isAlphanum, decimal_digits number char member])

theorem Package.Indexed.value_shaped {pkg : Package} (indexed : pkg.Indexed) {name : String}
    {value : Text} (found : pkg.value name = some value) : Shaped value := by
  rw [Package.value] at found
  split at found
  · rw [Package.md5sum] at found
    obtain ⟨info, file⟩ := indexed.info
    cases md5 : pkg.md5 with
    | some digest =>
        rw [md5, Option.some_or, Option.some.injEq] at found
        exact indexed.shaped "md5sum".toList value (by rw [attr_md5sum, md5, found])
    | none =>
        rw [md5, file, Option.none_or, Option.map_some, Option.some.injEq] at found
        subst found
        exact Shaped.of_visible fun char member => alphanum_visible (info.hexdigest.2 char member)
  · split at found
    · split at found
      · cases found
      · obtain rfl := Option.some.inj found
        exact decimal_shaped _
    · by_cases md5 : name.toList = "md5sum".toList
      · rename_i other _
        exact absurd (String.toList_inj.mp md5) other
      · exact indexed.shaped name.toList value (by rw [attr_of_ne md5]; exact found)

theorem mem_printedFields {pkg : Package} {field : Text × Text} :
    field ∈ pkg.printedFields ↔ ∃ label ∈ labels, field.1 = label.1.toList ∧
      pkg.value label.2 = some field.2 ∧ field.2 ≠ [] := by
  have single : ∀ (label : Text) (value : Option Text), field ∈ printedField label value ↔
      field.1 = label ∧ value = some field.2 ∧ field.2 ≠ [] := by
    intro label value
    match value with
    | none => simp [printedField]
    | some [] => simp +contextual [printedField, eq_comm]
    | some (char :: rest) =>
        obtain ⟨key, text⟩ := field
        simp only [printedField, List.mem_singleton, Prod.mk.injEq, Option.some.injEq]
        refine and_congr_right fun _ => ⟨?_, fun both => both.1.symm⟩
        rintro rfl
        exact ⟨rfl, by simp⟩
  simp only [Package.printedFields, List.mem_flatMap, single]

theorem sources_of_shaped {fields : Metadata} (shaped : ∀ field ∈ fields, Shaped field.2) :
    ∃ sources : Metadata, sources.unfold = fields ∧ ∀ field ∈ sources, Trimmed field.2 := by
  induction fields with
  | nil => exact ⟨[], rfl, by simp⟩
  | cons field rest ih =>
      obtain ⟨source, trimmed, same⟩ := shaped field (by simp)
      obtain ⟨sources, unfold, all⟩ := ih fun other member => shaped other (by simp [member])
      refine ⟨(field.1, source) :: sources, ?_, List.forall_mem_cons.mpr ⟨trimmed, all⟩⟩
      simp only [Metadata.unfold, List.map_cons, same] at unfold ⊢
      rw [unfold]

theorem printedFields_nodup (pkg : Package) : (pkg.printedFields.map Prod.fst).Nodup := by
  have sublist : ∀ names : List (String × String),
      ((names.flatMap fun label => printedField label.1.toList (pkg.value label.2)).map
        Prod.fst).Sublist (names.map fun label => label.1.toList) := by
    intro names
    induction names with
    | nil => exact List.Sublist.slnil
    | cons label names ih =>
        rw [List.flatMap_cons, List.map_append, List.map_cons]
        match pkg.value label.2 with
        | none => exact ih.cons _
        | some [] => exact ih.cons _
        | some (_ :: _) => exact ih.cons_cons _
  exact (sublist labels).nodup (by decide)

/-- What the reader gets from the stanza of a package. -/
structure Reread (entry read : Package) : Prop where
  known : ∀ label ∈ labels, Known (lower label.1.toList) →
    read.attr (lower label.1.toList) = (entry.value label.2).filter (· ≠ [])
  size : read.size = if entry.filesize = 0 then none else some entry.filesize
  file : read.file = none

theorem labels_named : ∀ label ∈ labels, Named label.1.toList := by
  unfold Named
  decide

theorem labels_sets : ∀ label ∈ labels, ∀ other ∈ labels,
    Sets other.1.toList (lower label.1.toList) → other = label := by
  unfold Sets Known
  decide

theorem labels_size : ∀ label ∈ labels, lower label.1.toList = "size".toList →
    label = ("Size", "size") := by
  decide

theorem labels_empty : ∀ label ∈ labels, label.2 ≠ "version" →
    Package.empty.attr (lower label.1.toList) = none := by
  decide

theorem value_size (pkg : Package) :
    pkg.value "size" = if pkg.filesize = 0 then none else some (decimal pkg.filesize) := by
  simp only [Package.value, String.reduceEq, if_false, if_true]

theorem printedFields_named (pkg : Package) : ∀ field ∈ pkg.printedFields, Named field.1 := by
  intro field member
  obtain ⟨label, inLabels, key, -⟩ := mem_printedFields.mp member
  exact key ▸ labels_named label inLabels

theorem unfold_named {sources : Metadata} (named : ∀ field ∈ sources.unfold, Named field.1) :
    ∀ field ∈ sources, Named field.1 :=
  fun field member => named (field.1, unfolded field.2) (List.mem_map_of_mem member)

theorem Package.Indexed.fields_reread {pkg : Package} (indexed : pkg.Indexed) {sources : Metadata}
    (printed : sources.unfold = pkg.printedFields) :
    ∃ read text, Package.empty.fields sources = some (read, text) ∧ Reread pkg read := by
  have onSources : ∀ field ∈ sources, (field.1, unfolded field.2) ∈ pkg.printedFields :=
    fun field member => printed ▸ List.mem_map_of_mem member
  have keys : (sources.map Prod.fst).Nodup := by
    have nodup := printedFields_nodup pkg
    rw [← printed] at nodup
    simpa [Metadata.unfold, Function.comp_def] using nodup
  have unique : ∀ field ∈ sources, ∀ other ∈ sources, other.1 = field.1 → other = field :=
    fun field member other member' same => List.inj_on_of_nodup_map keys member' member same
  have onLabels : ∀ label ∈ labels, ∀ value, pkg.value label.2 = some value → value ≠ [] →
      ∃ field ∈ sources, field.1 = label.1.toList ∧ unfolded field.2 = value := by
    intro label inLabels value found nonempty
    have member : (label.1.toList, value) ∈ sources.unfold :=
      printed ▸ mem_printedFields.mpr ⟨label, inLabels, rfl, found, nonempty⟩
    obtain ⟨field, inSources, same⟩ := List.mem_map.mp member
    exact ⟨field, inSources, Prod.mk.inj same⟩
  have sized : ∀ field ∈ sources, lower field.1 = "size".toList →
      pkg.filesize ≠ 0 ∧ unfolded field.2 = decimal pkg.filesize := by
    intro field member size
    obtain ⟨label, inLabels, key, value, -⟩ := mem_printedFields.mp (onSources field member)
    obtain rfl := labels_size label inLabels (key ▸ size)
    rw [value_size] at value
    split at value
    · cases value
    · exact ⟨‹_›, (Option.some.inj value).symm⟩
  have numeric : ∀ field ∈ sources, Numeric field.1 (unfolded field.2) := by
    intro field member size
    rw [(sized field member size).2]
    exact ⟨Nat.toDigits_ne_nil, List.all_eq_true.mpr (decimal_digits _)⟩
  obtain ⟨read, text, ran, loaded⟩ := fields_loaded numeric Package.empty
  refine ⟨read, text, ran, ⟨fun label inLabels known => ?_, ?_, loaded.file⟩⟩
  · have unset : (∀ value, pkg.value label.2 = some value → value = []) →
        read.attr (lower label.1.toList) = none := by
      intro empty
      rw [loaded.kept _ fun field member sets => ?_]
      · refine labels_empty label inLabels fun version => ?_
        obtain ⟨value, found, nonempty⟩ := indexed.required "version" (by simp)
        exact nonempty (empty value (by rw [version]; exact found))
      · obtain ⟨other, inLabels', key, value, nonempty⟩ :=
          mem_printedFields.mp (onSources field member)
        obtain rfl := labels_sets label inLabels other inLabels' (key ▸ sets)
        exact nonempty (empty _ value)
    match found : pkg.value label.2 with
    | none => exact unset fun value same => by rw [found] at same; cases same
    | some [] => exact unset fun value same => by rw [found] at same; cases same; rfl
    | some (char :: rest) =>
        obtain ⟨field, member, key, value⟩ := onLabels label inLabels _ found (by simp)
        have set := loaded.set field member (key ▸ known) fun other member' sets => ?_
        · rw [← key, set, value]
          rfl
        · refine unique field member other member' ?_
          obtain ⟨label', inLabels', key', -⟩ := mem_printedFields.mp (onSources other member')
          dsimp only at key'
          rw [key', key] at sets
          rw [key', key, labels_sets label inLabels label' inLabels' sets]
  · by_cases none : pkg.filesize = 0
    · rw [if_pos none]
      exact loaded.sizeKept fun field member size => (sized field member size).1 none
    · rw [if_neg none]
      have found : pkg.value "size" = some (decimal pkg.filesize) := by rw [value_size, if_neg none]
      obtain ⟨field, member, key, value⟩ := onLabels ("Size", "size") (by decide) _ found
        Nat.toDigits_ne_nil
      have size : lower field.1 = "size".toList := by
        rw [key]
        decide
      rw [loaded.size field member size fun other member' size' => ?_, value, int_decimal]
      refine unique field member other member' ?_
      obtain ⟨label', inLabels', key', -⟩ := mem_printedFields.mp (onSources other member')
      dsimp only at key'
      rw [key'] at size'
      rw [key', key, labels_size label' inLabels' size']

end BotBrew.Opkg
