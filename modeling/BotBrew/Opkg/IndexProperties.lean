import BotBrew.Opkg.ControlProperties
import BotBrew.Opkg.PackagesProperties
import BotBrew.Opkg.StanzaProperties

/-! When the index that `botbrew_make_repo_index` writes is read back as it was. -/

set_option autoImplicit false

namespace BotBrew.Opkg

open Text

/-- The attributes of a package that the index is to keep, beside its digest and size. -/
def compared : List String :=
  ["package", "version", "depends", "provides", "replaces", "conflicts", "suggests", "recommends",
    "section", "architecture", "maintainer", "filename", "source", "description", "homepage",
    "priority", "tags"]

structure SameFields (pkg other : Package) : Prop where
  attributes : ∀ name ∈ compared, pkg.self name = other.self name
  md5 : pkg.md5sum = other.md5sum
  size : pkg.filesize = other.filesize

structure Package.Filled (pkg : Package) : Prop where
  attributes : ∀ name ∈ compared, pkg.self name ≠ some []
  md5 : pkg.md5sum ≠ some []

theorem compared_labels : ∀ name ∈ compared, ∃ label ∈ labels, label.2 = name ∧
    lower label.1.toList = name.toList ∧ Known (lower label.1.toList) ∧
    name.toList ≠ "md5sum".toList ∧ name ≠ "md5sum" ∧ name ≠ "size" := by
  unfold Known
  decide

section Reread

variable {entry read : Package}

theorem Reread.self (reread : Reread entry read) {name : String} (listed : name ∈ compared) :
    read.self name = (entry.self name).filter (· ≠ []) := by
  obtain ⟨label, inLabels, rfl, key, known, noDigest, noMd5, noSize⟩ := compared_labels name listed
  have attr := reread.known label inLabels known
  rw [key, attr_of_ne noDigest, Package.value, if_neg noMd5, if_neg noSize] at attr
  exact attr

theorem Reread.md5sum (reread : Reread entry read) :
    read.md5sum = entry.md5sum.filter (· ≠ []) := by
  have attr := reread.known ("MD5Sum", "md5sum") (by decide) (by unfold Known; decide)
  have digest : lower "MD5Sum".toList = "md5sum".toList := by decide
  rw [digest, attr_md5sum, Package.value, if_pos rfl] at attr
  rw [Package.md5sum, attr, reread.file]
  exact Option.or_none

theorem Reread.filesize (reread : Reread entry read) : read.filesize = entry.filesize := by
  rw [Package.filesize, reread.size, reread.file]
  split
  · rename_i none
    rw [none]
    rfl
  · rfl

theorem filter_eq_self_iff {value : Option Text} :
    value = value.filter (· ≠ []) ↔ value ≠ some [] := by
  match value with
  | none => simp
  | some [] => simp [Option.filter]
  | some (char :: rest) => simp [Option.filter]

theorem Reread.sameFields_iff (reread : Reread entry read) :
    SameFields entry read ↔ entry.Filled := by
  constructor
  · intro same
    refine ⟨fun name listed => ?_, ?_⟩
    · exact filter_eq_self_iff.mp (reread.self listed ▸ same.attributes name listed)
    · exact filter_eq_self_iff.mp (reread.md5sum ▸ same.md5)
  · intro filled
    refine ⟨fun name listed => ?_, ?_, reread.filesize.symm⟩
    · rw [reread.self listed]
      exact filter_eq_self_iff.mpr (filled.attributes name listed)
    · rw [reread.md5sum]
      exact filter_eq_self_iff.mpr filled.md5

theorem Reread.required (reread : Reread entry read) (indexed : entry.Indexed) {name : String}
    (needed : name ∈ ["package", "version", "architecture"]) : read.self name = entry.self name := by
  have listed : name ∈ compared := by
    revert name
    decide
  obtain ⟨value, found, nonempty⟩ := indexed.required name needed
  rw [reread.self listed, found, Option.filter_some_pos (by simpa using nonempty)]

theorem Reread.isNamed (reread : Reread entry read) (indexed : entry.Indexed) :
    read.isNamed = true := by
  obtain ⟨value, found, nonempty⟩ := indexed.required "package" (by simp)
  have name := (reread.required indexed (by simp)).trans found
  have dict : read.dict "package".toList = some value := name
  rw [Package.isNamed, dict]
  simpa using nonempty

theorem Reread.key (reread : Reread entry read) (indexed : entry.Indexed) :
    read.key = entry.key := by
  have name : read.dict "package".toList = entry.dict "package".toList :=
    reread.required indexed (by simp : "package" ∈ _)
  have arch : read.dict "architecture".toList = entry.dict "architecture".toList :=
    reread.required indexed (by simp : "architecture" ∈ _)
  rw [Package.key, Package.key, Package.name, Package.name, Package.arch, Package.arch, name, arch]

theorem Reread.version (reread : Reread entry read) (indexed : entry.Indexed) :
    read.version = entry.version :=
  reread.required indexed (by simp : "version" ∈ _)

end Reread

theorem Package.Indexed.block {pkg : Package} (indexed : pkg.Indexed) :
    ∃ sources : Metadata, sources.unfold = pkg.printedFields ∧ sources ≠ [] ∧
      (∀ field ∈ sources, Trimmed field.2) ∧ (∀ field ∈ sources, Named field.1) ∧
      ∀ text, readlines (pkg.printed ++ text) =
        printedBlock sources ++ blank :: blank :: readlines text := by
  have shaped : ∀ field ∈ pkg.printedFields, Shaped field.2 := by
    intro field member
    obtain ⟨label, -, -, found, -⟩ := mem_printedFields.mp member
    exact indexed.value_shaped found
  obtain ⟨sources, unfold, trimmed⟩ := sources_of_shaped shaped
  have named : ∀ field ∈ sources, Named field.1 :=
    unfold_named (unfold ▸ printedFields_named pkg)
  refine ⟨sources, unfold, ?_, trimmed, named, fun text => ?_⟩
  · rintro rfl
    obtain ⟨value, found, nonempty⟩ := indexed.required "package" (by simp)
    have member : ("Package".toList, value) ∈ pkg.printedFields :=
      mem_printedFields.mpr ⟨("Package", "package"), by decide, rfl, found, nonempty⟩
    rw [← unfold] at member
    cases member
  · have lines := readlines_stanza named ('\n' :: '\n' :: text)
    rw [unfold] at lines
    simpa [Package.printed, repr_eq, readlines, blank] using lines

theorem Package.Indexed.isStanza_iff {pkg : Package} (indexed : pkg.Indexed) :
    IsStanza (readlines pkg.printed) ↔ Fits (pkg.printedFields.map Prod.snd) := by
  obtain ⟨sources, unfold, nonempty, -, named, lines⟩ := indexed.block
  have whole := lines []
  rw [List.append_nil] at whole
  rw [whole, ← unfold]
  exact BotBrew.Opkg.isStanza_iff named nonempty

theorem Package.Indexed.read_control {pkg : Package} (indexed : pkg.Indexed)
    (fits : Fits (pkg.printedFields.map Prod.snd)) (text : Text) :
    ∃ read printed blanks, (∀ line ∈ blanks, line = blank) ∧ Reread pkg read ∧
      Package.empty.read_control (readlines (pkg.printed ++ text)) =
        some (read, printed, blanks ++ readlines text) := by
  obtain ⟨sources, unfold, nonempty, trimmed, named, lines⟩ := indexed.block
  obtain ⟨extra, kind, shape⟩ := printedBlock_fits trimmed (unfold ▸ fits)
  obtain ⟨read, printed, ran, reread⟩ := indexed.fields_reread unfold
  have fields := fun more => read_control_fields named (Or.inr ⟨more, rfl⟩) nonempty Package.empty
  rw [lines, shape]
  rcases kind with rfl | rfl
  · refine ⟨read, printed, [blank], by simp, reread, ?_⟩
    rw [List.append_nil]
    exact (fields _).trans (by rw [ran]; rfl)
  · refine ⟨read, printed, [blank, blank], by simp, reread, ?_⟩
    rw [List.append_assoc]
    exact (fields _).trans (by rw [ran]; rfl)

theorem read_control_blanks {blanks : File} (all : ∀ line ∈ blanks, line = blank) (pkg : Package)
    (lines : File) : pkg.read_control (blanks ++ lines) = pkg.read_control lines := by
  induction blanks with
  | nil => rfl
  | cons line blanks ih =>
      obtain rfl := all line (by simp)
      have none : header (rstrip blank) = none := by decide
      rw [List.cons_append, Package.read_control, none]
      exact ih fun other member => all other (by simp [member])

namespace Packages

theorem read_packages_file_eq (packages : Packages) (lines : File) :
    packages.read_packages_file lines =
      match Package.empty.read_control lines with
      | none => none
      | some (pkg, _, rest) =>
          if pkg.isNamed then
            (packages.add_package pkg).bind fun result => result.1.read_packages_file rest
          else some packages := by
  rw [read_packages_file]
  split <;> rename_i ran <;> rw [ran]
  split <;> rename_i named <;> simp [named]

theorem read_packages_file_blanks {blanks : File} (all : ∀ line ∈ blanks, line = blank)
    (packages : Packages) (lines : File) :
    packages.read_packages_file (blanks ++ lines) = packages.read_packages_file lines := by
  rw [read_packages_file_eq, read_packages_file_eq, read_control_blanks all]

theorem add_package_new {packages : Packages} {pkg : Package} (absent : pkg.key ∉ packages) :
    (packages.add_package pkg).map Prod.fst =
      (pkg.compare_version pkg).map fun _ => packages.insert pkg.key pkg := by
  rw [add_package]
  simp only [absent, if_false, AList.lookup_insert, Option.bind_eq_bind, Option.bind_some]
  cases pkg.compare_version pkg with
  | none => rfl
  | some r =>
      simp only [Option.bind_some, Option.map_some]
      split <;> simp [AList.insert_insert]

/-- The entries were read and added to the dictionary. -/
structure ReadAs (packages : Packages) (entries : List Package) (packages' : Packages) : Prop where
  entry : ∀ entry ∈ entries, ∃ read, packages'.lookup entry.key = some read ∧ Reread entry read
  kept : ∀ key, (∀ entry ∈ entries, entry.key ≠ key) → packages'.lookup key = packages.lookup key

theorem read_entries {entries : List Package} (indexed : ∀ entry ∈ entries, entry.Indexed)
    (fits : ∀ entry ∈ entries, Fits (entry.printedFields.map Prod.snd))
    (distinct : (entries.map Package.key).Nodup) (packages : Packages)
    (absent : ∀ entry ∈ entries, entry.key ∉ packages) :
    ((packages.read_packages_file (readlines (entries.flatMap Package.printed))).isSome ↔
      ∀ entry ∈ entries, (entry.compare_version entry).isSome) ∧
    ∀ packages', packages.read_packages_file (readlines (entries.flatMap Package.printed)) =
      some packages' → ReadAs packages entries packages' := by
  induction entries generalizing packages with
  | nil =>
      have empty : Package.empty.read_control [] = some (Package.empty, [], []) := by
        rw [Package.read_control]
      have unnamed : Package.empty.isNamed = false := by decide
      have ran : packages.read_packages_file (readlines (List.flatMap Package.printed [])) =
          some packages := by
        rw [read_packages_file_eq, List.flatMap_nil, readlines, empty]
        simp [unnamed]
      rw [ran]
      refine ⟨by simp, fun packages' same => ?_⟩
      obtain rfl := Option.some.inj same
      exact ⟨by simp, fun _ _ => rfl⟩
  | cons entry rest ih =>
      have this := indexed entry (by simp)
      obtain ⟨read, printed, blanks, all, reread, ran⟩ :=
        this.read_control (fits entry (by simp)) (rest.flatMap Package.printed)
      have key := reread.key this
      have fresh : read.key ∉ packages := key ▸ absent entry (by simp)
      have same : read.compare_version read = entry.compare_version entry := by
        rw [Package.compare_version, Package.compare_version, reread.version this]
      have added := add_package_new fresh
      have step : packages.read_packages_file (readlines ((entry :: rest).flatMap Package.printed)) =
          (entry.compare_version entry).bind fun _ =>
            read_packages_file (packages.insert read.key read)
              (readlines (rest.flatMap Package.printed)) := by
        rw [read_packages_file_eq, List.flatMap_cons, ran]
        simp only [reread.isNamed this, if_true, read_packages_file_blanks all]
        have onward := congrArg (fun result => result.bind fun packages =>
          read_packages_file packages (readlines (rest.flatMap Package.printed))) added
        simpa only [Option.bind_map, Function.comp_def, same] using onward
      obtain ⟨head, tail⟩ := List.nodup_cons.mp distinct
      have apart : ∀ other ∈ rest, other.key ≠ entry.key :=
        fun other member equal => head (equal ▸ List.mem_map_of_mem member)
      have absentRest : ∀ other ∈ rest, other.key ∉ packages.insert read.key read := by
        intro other member present
        rcases (AList.mem_insert _).mp present with equal | present
        · exact apart other member (equal.trans key)
        · exact absent other (by simp [member]) present
      obtain ⟨decided, readAs⟩ := ih (fun other member => indexed other (by simp [member]))
        (fun other member => fits other (by simp [member])) tail (packages.insert read.key read) absentRest
      rw [step]
      cases comparable : entry.compare_version entry with
      | none => exact ⟨by simp [comparable], fun packages' ran => by cases ran⟩
      | some r =>
          rw [Option.bind_some]
          refine ⟨by simp [decided, comparable], fun packages' ran => ?_⟩
          have inner := readAs packages' ran
          refine ⟨fun other member => ?_, fun other outside => ?_⟩
          · rcases List.mem_cons.mp member with rfl | member
            · refine ⟨read, ?_, reread⟩
              rw [inner.kept _ apart, ← key, AList.lookup_insert]
            · exact inner.entry other member
          · rw [inner.kept other fun entry member => outside entry (by simp [member]),
              AList.lookup_insert_ne fun equal => outside entry (by simp) (key ▸ equal.symm)]

end Packages

theorem toLower_underscore {char : Char} (same : char.toLower = '_') : char = '_' := by
  unfold Char.toLower at same
  split at same
  · rename_i upper
    have val := congrArg (fun c : Char => c.val.toNat) same
    simp only [UInt32.toNat_add, UInt32.toNat_sub, ge_iff_le, UInt32.le_iff_toNat_le] at val upper
    simp at val upper
    omega
  · exact same

theorem Build.no_underscore (build : Build) {field : Text × Text} (member : field ∈ build.fields) :
    '_' ∉ lower field.1 := by
  intro inName
  obtain ⟨char, inKey, same⟩ := List.mem_map.mp inName
  have kind := (build.valid.keys field member).2 char inKey
  rw [toLower_underscore same] at kind
  exact absurd kind (by decide)

theorem initial_visible {file : PackageFile} {name value : Text}
    (found : file.initial.attr name = some value) : ∀ char ∈ value, isSpace char = false := by
  have dict : file.initial.dict =
      Function.update Package.empty.dict "filename".toList (some file.basename) := by
    rw [PackageFile.initial, set_of_ne (by decide)]
  have md5 : file.initial.md5 = none := by
    rw [PackageFile.initial, set_of_ne (by decide)]
    rfl
  rw [Package.attr, dict, md5] at found
  split at found
  · cases found
  · by_cases filename : name = "filename".toList
    · rw [filename, Function.update_self, Option.some.injEq] at found
      exact found ▸ file.named.2
    · rw [Function.update_of_ne filename] at found
      simp only [Package.empty] at found
      split at found
      · obtain rfl := Option.some.inj found
        decide
      · cases found

theorem Build.unique (build : Build) {field : Text × Text} (member : field ∈ build.fields) :
    ∀ other ∈ build.fields.clean, Sets other.1 (lower field.1) →
      other = (field.1, cleaned field.2) := by
  intro other member' sets
  obtain ⟨source, inFields, rfl⟩ := List.mem_map.mp member'
  have same : lower source.1 = lower field.1 :=
    sets.2.resolve_right fun both => (build.internal source inFields).2 both.1
  rw [List.inj_on_of_nodup_map build.valid.distinct inFields member same]

theorem Build.init (build : Build) :
    ∃ pkg lost, Package.init build.file = some (pkg, lost) ∧ pkg.Indexed ∧
      (lost = [] ↔ ∀ field ∈ build.fields, Known (lower field.1)) := by
  have onClean : ∀ field ∈ build.fields.clean, ∃ source ∈ build.fields, field.1 = source.1 := by
    intro field member
    obtain ⟨source, inFields, rfl⟩ := List.mem_map.mp member
    exact ⟨source, inFields, rfl⟩
  have noSize : ∀ field ∈ build.fields.clean, lower field.1 ≠ "size".toList := by
    intro field member
    obtain ⟨source, inFields, key⟩ := onClean field member
    exact key ▸ build.valid.no_size source inFields
  have noMd5 : ∀ field ∈ build.fields.clean, lower field.1 ≠ "md5".toList := by
    intro field member
    obtain ⟨source, inFields, key⟩ := onClean field member
    exact key ▸ (build.internal source inFields).2
  obtain ⟨pkg, lost, ran, fields, loaded⟩ :=
    init_loaded (fun _ member => build.valid.named member) build.valid.no_size build.written
  refine ⟨pkg, lost, ran, ⟨fun name value found => ?_, ?_, ?_, ?_, fun name needed => ?_⟩, ?_⟩
  · rcases loaded.values name with same | ⟨field, -, same⟩
    · exact Shaped.of_visible (initial_visible (same ▸ found))
    · rw [same] at found
      exact Option.some.inj found ▸ shaped_unfolded field.2
  · exact loaded.sizeKept noSize
  · exact ⟨build.file.info, loaded.file⟩
  · have unset := loaded.kept "installed_size".toList fun field member sets => by
      obtain ⟨source, inFields, key⟩ := onClean field member
      refine build.no_underscore inFields ?_
      rw [← key, sets.2.resolve_right (by simp)]
      decide
    rw [attr_of_ne (by decide), attr_of_ne (by decide)] at unset
    exact unset.trans rfl
  · have label : ∀ name ∈ ["package", "version", "architecture"],
        ∃ label ∈ ["Package", "Version", "Architecture"], lower label.toList = name.toList ∧
          name.toList ≠ "md5sum".toList ∧ Known name.toList := by
      unfold Known
      decide
    obtain ⟨key, listed, same, noDigest, known⟩ := label name needed
    obtain ⟨value, member, nonempty⟩ := build.required key listed
    have set := loaded.set (key.toList, cleaned value) (List.mem_map_of_mem member)
      (by rw [same]; exact known) (build.unique member)
    dsimp only at set
    rw [same, attr_of_ne noDigest] at set
    refine ⟨_, set, ?_⟩
    simp [unfolded, nonempty]
  · rw [fields_printed fields noMd5 noSize]
    exact ⟨fun all field member => all (field.1, cleaned field.2) (List.mem_map_of_mem member),
      fun all field member => by
        obtain ⟨source, inFields, key⟩ := onClean field member
        exact key ▸ all source inFields⟩

namespace Packages

variable {packages packages' : Packages}

def Keyed (packages : Packages) : Prop :=
  ∀ key entry, packages.lookup key = some entry → entry.key = key

theorem mem_names {key : Text} : key ∈ packages.names ↔ key ∈ packages := by
  rw [names, List.mem_insertionSort]
  exact AList.mem_keys.symm

theorem mem_entries {entry : Package} :
    entry ∈ packages.entries ↔ ∃ key, packages.lookup key = some entry := by
  rw [entries, List.mem_filterMap]
  refine ⟨fun ⟨key, _, found⟩ => ⟨key, found⟩, fun ⟨key, found⟩ => ⟨key, mem_names.mpr ?_, found⟩⟩
  exact AList.lookup_isSome.mp (by rw [found]; rfl)

theorem Keyed.entries_keys (keyed : packages.Keyed) :
    packages.entries.map Package.key = packages.names := by
  have each : ∀ names : List Text, (∀ key ∈ names, key ∈ packages) →
      (names.filterMap packages.lookup).map Package.key = names := by
    intro names present
    induction names with
    | nil => rfl
    | cons key names ih =>
        obtain ⟨entry, found⟩ :=
          Option.isSome_iff_exists.mp (AList.lookup_isSome.mpr (present key (by simp)))
        rw [List.filterMap_cons_some (f := fun key => packages.lookup key) found, List.map_cons,
          keyed key entry found, ih fun other member => present other (by simp [member])]
  exact each packages.names fun key member => mem_names.mp member

theorem Keyed.entries_nodup (keyed : packages.Keyed) :
    (packages.entries.map Package.key).Nodup := by
  rw [keyed.entries_keys]
  exact (List.perm_insertionSort _ _).nodup_iff.mpr packages.nodupKeys

theorem add_package_entry {pkg : Package} {s : Nat}
    (added : packages.add_package pkg = some (packages', s)) {key : Text} {entry : Package}
    (found : packages'.lookup key = some entry) :
    packages.lookup key = some entry ∨ (entry = pkg ∧ key = pkg.key) := by
  have inserted : ∀ packages : Packages, (packages.insert pkg.key pkg).lookup key = some entry →
      packages.lookup key = some entry ∨ (entry = pkg ∧ key = pkg.key) := by
    intro packages found
    by_cases same : key = pkg.key
    · rw [same, AList.lookup_insert, Option.some.injEq] at found
      exact Or.inr ⟨found.symm, same⟩
    · rw [AList.lookup_insert_ne same] at found
      exact Or.inl found
  have first : (if pkg.key ∈ packages then packages else packages.insert pkg.key pkg).lookup key =
      some entry → packages.lookup key = some entry ∨ (entry = pkg ∧ key = pkg.key) := by
    intro found
    split at found
    · exact Or.inl found
    · exact inserted packages found
  obtain ⟨current, -, added⟩ := Option.bind_eq_some_iff.mp added
  obtain ⟨r, -, added⟩ := Option.bind_eq_some_iff.mp added
  split at added
  · cases added
    rcases inserted _ found with found | both
    · exact first found
    · exact Or.inr both
  · cases added
    exact first found

theorem addFiles_builds {builds : List Build} {printed : Text}
    (indexed : ∀ key entry, packages.lookup key = some entry → entry.Indexed ∧ entry.key = key)
    (ran : packages.addFiles (builds.map Build.file) = some (packages', printed)) :
    (∀ key entry, packages'.lookup key = some entry → entry.Indexed ∧ entry.key = key) ∧
      (printed = [] ↔ ∀ build ∈ builds, ∀ field ∈ build.fields, Known (lower field.1)) := by
  have versioned : ∀ pkg : Package, pkg.Indexed → pkg.noVersion = [] := by
    intro pkg this
    obtain ⟨value, found, nonempty⟩ := this.required "version" (by simp)
    have version : pkg.version = some value := found
    rw [Package.noVersion, version]
    cases value with
    | nil => exact absurd rfl nonempty
    | cons char rest => rfl
  induction builds generalizing packages printed with
  | nil =>
      cases ran
      exact ⟨indexed, by simp⟩
  | cons build rest ih =>
      obtain ⟨pkg, lost, init, this, silent⟩ := build.init
      rw [List.map_cons, addFiles, init, Option.bind_eq_bind, Option.bind_some] at ran
      obtain ⟨⟨middle, s⟩, added, ran⟩ := Option.bind_eq_some_iff.mp ran
      obtain ⟨⟨final, more⟩, ranRest, shown⟩ := Option.bind_eq_some_iff.mp ran
      obtain ⟨rfl, rfl⟩ : final = packages' ∧ lost ++ packages.compared pkg ++ more = printed := by
        simpa using shown
      have indexedMiddle : ∀ key entry, middle.lookup key = some entry →
          entry.Indexed ∧ entry.key = key := by
        intro key entry found
        rcases add_package_entry added found with found | ⟨rfl, rfl⟩
        · exact indexed key entry found
        · exact ⟨this, rfl⟩
      have quiet : packages.compared pkg = [] := by
        rw [Packages.compared, versioned pkg this]
        cases found : packages.lookup pkg.key with
        | none => exact versioned pkg this
        | some current => exact versioned current (indexed _ _ found).1
      obtain ⟨entries, rest⟩ := ih indexedMiddle ranRest
      refine ⟨entries, ?_⟩
      rw [quiet, List.append_nil, List.append_eq_nil_iff, silent, rest, List.forall_mem_cons]

end Packages

/-- The index has one stanza for each package and nothing else, and it is read back. -/
structure ParsesBack (packages : Packages) (text : Text) : Prop where
  nothingElse : text = packages.entries.flatMap Package.printed
  stanzas : ∀ entry ∈ packages.entries, IsStanza (readlines entry.printed)
  read : ∃ packages', (∅ : Packages).read_packages_file (readlines text) = some packages' ∧
    (∀ key, key ∈ packages' ↔ key ∈ packages) ∧
    ∀ key entry, packages.lookup key = some entry →
      ∃ read, packages'.lookup key = some read ∧ SameFields entry read

structure Package.Printable (pkg : Package) : Prop where
  lines : Fits (pkg.printedFields.map Prod.snd)
  filled : pkg.Filled
  comparable : (pkg.compare_version pkg).isSome

theorem index_parsesBack (builds : List Build) (packages : Packages) (printed : Text)
    (ran : (∅ : Packages).addFiles (builds.map Build.file) = some (packages, printed)) :
    ParsesBack packages (indexText printed packages) ↔
      (∀ build ∈ builds, ∀ field ∈ build.fields, Known (lower field.1)) ∧
        ∀ entry ∈ packages.entries, entry.Printable := by
  have none : ∀ key entry, (∅ : Packages).lookup key = some entry →
      entry.Indexed ∧ entry.key = key := fun key entry found => by simp at found
  obtain ⟨found, silent⟩ := Packages.addFiles_builds none ran
  have keyed : packages.Keyed := fun key entry lookup => (found key entry lookup).2
  have indexed : ∀ entry ∈ packages.entries, entry.Indexed := by
    intro entry member
    obtain ⟨key, lookup⟩ := Packages.mem_entries.mp member
    exact (found key entry lookup).1
  have absent : ∀ entry ∈ packages.entries, entry.key ∉ (∅ : Packages) :=
    fun _ _ => AList.notMem_empty _
  have quiet : indexText printed packages = packages.entries.flatMap Package.printed ↔
      printed = [] := by
    simp [indexText]
  have reads := fun fits => Packages.read_entries indexed fits keyed.entries_nodup ∅ absent
  constructor
  · intro parses
    have text := quiet.mp parses.nothingElse
    have fits : ∀ entry ∈ packages.entries, Fits (entry.printedFields.map Prod.snd) :=
      fun entry member => (indexed entry member).isStanza_iff.mp (parses.stanzas entry member)
    obtain ⟨comparable, readAs⟩ := reads fits
    obtain ⟨packages', ran', -, same⟩ := parses.read
    rw [quiet.mpr text] at ran'
    refine ⟨silent.mp text, fun entry member => ⟨fits entry member, ?_, ?_⟩⟩
    · obtain ⟨key, lookup⟩ := Packages.mem_entries.mp member
      obtain ⟨read, lookup', sameFields⟩ := same key entry lookup
      obtain ⟨read', lookup'', reread⟩ := (readAs packages' ran').entry entry member
      rw [keyed key entry lookup, lookup'] at lookup''
      obtain rfl := Option.some.inj lookup''
      exact reread.sameFields_iff.mp sameFields
    · exact comparable.mp (by rw [ran']; rfl) entry member
  · rintro ⟨known, printable⟩
    have text := quiet.mpr (silent.mpr known)
    obtain ⟨comparable, readAs⟩ := reads fun entry member => (printable entry member).lines
    obtain ⟨packages', ran'⟩ := Option.isSome_iff_exists.mp
      (comparable.mpr fun entry member => (printable entry member).comparable)
    have read := readAs packages' ran'
    refine ⟨text, fun entry member => ?_, packages', text ▸ ran', fun key => ?_, ?_⟩
    · exact (indexed entry member).isStanza_iff.mpr (printable entry member).lines
    · constructor
      · intro present
        by_contra missing
        have outside : ∀ entry ∈ packages.entries, entry.key ≠ key := by
          rintro entry member rfl
          exact missing (Packages.mem_names.mp (keyed.entries_keys ▸ List.mem_map_of_mem member))
        have lookup := read.kept key outside
        rw [AList.lookup_empty] at lookup
        exact AList.lookup_eq_none.mp lookup present
      · intro present
        obtain ⟨entry, lookup⟩ := Option.isSome_iff_exists.mp (AList.lookup_isSome.mpr present)
        obtain ⟨read', lookup', -⟩ := read.entry entry (Packages.mem_entries.mpr ⟨key, lookup⟩)
        rw [keyed key entry lookup] at lookup'
        exact AList.lookup_isSome.mp (by rw [lookup']; rfl)
    · intro key entry lookup
      have member := Packages.mem_entries.mpr ⟨key, lookup⟩
      obtain ⟨read', lookup', reread⟩ := read.entry entry member
      rw [keyed key entry lookup] at lookup'
      exact ⟨read', lookup', reread.sameFields_iff.mpr (printable entry member).filled⟩

theorem addFiles_single (build : Build) {pkg : Package} {lost text : Text}
    (loaded : build.file.initial.fields build.fields.clean = some (pkg, lost))
    (version : pkg.version = some text) (valid : ValidVersion text) :
    ∃ packages printed, (∅ : Packages).addFiles ([build].map Build.file) =
      some (packages, printed) ∧ pkg ∈ packages.entries := by
  have init : Package.init build.file = some (pkg, lost) :=
    (init_controlText (fun _ member => build.valid.named member) build.written).trans loaded
  obtain ⟨selfversion, refversion, r, parsed, parsed', compared, -⟩ := compareTexts_sign valid valid
  have same : pkg.compare_version pkg = some r := by
    simpa [Package.compare_version, compareTexts, version] using compared
  have added := Packages.add_package_new (AList.notMem_empty pkg.key)
  rw [same, Option.map_some, Option.map_eq_some_iff] at added
  obtain ⟨⟨packages, s⟩, added, rfl⟩ := added
  refine ⟨AList.insert pkg.key pkg ∅, lost ++ (∅ : Packages).compared pkg, ?_,
    Packages.mem_entries.mpr ⟨pkg.key, AList.lookup_insert _⟩⟩
  simp [Packages.addFiles, init, added]

def described (rest : Metadata) : Metadata :=
  [("Package".toList, "zlib".toList), ("Version".toList, "1.2.7-r0".toList),
    ("Architecture".toList, "arm".toList),
    ("Description".toList, "Compression library\nIn two lines".toList)] ++ rest

theorem described_required (rest : Metadata) : ∀ name ∈ ["Package", "Version", "Architecture"],
    ∃ value, (name.toList, value) ∈ described rest ∧ strip (cut (cleaned value)).1 ≠ [] := by
  simp only [List.forall_mem_cons]
  refine ⟨⟨"zlib".toList, ?_, by decide⟩, ⟨"1.2.7-r0".toList, ?_, by decide⟩,
    ⟨"arm".toList, ?_, by decide⟩, fun _ member => by cases member⟩ <;> simp [described]

def describedBuild : Build where
  fields := described []
  file := zlibFile (described [])
  valid := ⟨by decide, by decide, by decide⟩
  written := rfl
  required := described_required []
  internal := by decide

def priorityBuild : Build where
  fields := described [("Priority".toList, "optional".toList)]
  file := zlibFile (described [("Priority".toList, "optional".toList)])
  valid := ⟨by decide, by decide, by decide⟩
  written := rfl
  required := described_required _
  internal := by decide

theorem describedVersion_valid : ValidVersion "1.2.7-r0".toList :=
  ⟨⟨by decide, by decide⟩, by decide, by decide⟩

theorem index_parsesBack_described :
    ∃ packages printed,
      (∅ : Packages).addFiles ([describedBuild].map Build.file) = some (packages, printed) ∧
      (ParsesBack packages (indexText printed packages) ↔
        (∀ build ∈ [describedBuild], ∀ field ∈ build.fields, Known (lower field.1)) ∧
          ∀ entry ∈ packages.entries, entry.Printable) := by
  have version : (describedBuild.file.initial.fields describedBuild.fields.clean).map
      (fun result => result.1.version) = some (some "1.2.7-r0".toList) := by decide +kernel
  obtain ⟨⟨pkg, lost⟩, loaded, version⟩ := Option.map_eq_some_iff.mp version
  obtain ⟨packages, printed, ran, -⟩ := addFiles_single describedBuild loaded version
    describedVersion_valid
  exact ⟨packages, printed, ran, index_parsesBack [describedBuild] packages printed ran⟩

/-- The second line of the description ends the stanza before the priority. -/
theorem index_splits_stanza :
    ∃ packages printed,
      (∅ : Packages).addFiles ([priorityBuild].map Build.file) = some (packages, printed) ∧
      ¬ ParsesBack packages (indexText printed packages) := by
  have shape : (priorityBuild.file.initial.fields priorityBuild.fields.clean).map
      (fun result => (result.1.version, result.1.printedFields.map Prod.snd)) =
      some (some "1.2.7-r0".toList, ["zlib", "1.2.7-r0", "arm", "d41d8cd98f00b204e9800998ecf8427e",
        "88064", "zlib_1.2.7-r0_armel.opk", "Compression library\n In two lines\n",
        "optional"].map String.toList) := by
    decide +kernel
  obtain ⟨⟨pkg, lost⟩, loaded, shape⟩ := Option.map_eq_some_iff.mp shape
  obtain ⟨version, values⟩ := Prod.mk.inj shape
  obtain ⟨packages, printed, ran, member⟩ := addFiles_single priorityBuild loaded version
    describedVersion_valid
  refine ⟨packages, printed, ran, fun parses => ?_⟩
  have none : ∀ key entry, (∅ : Packages).lookup key = some entry →
      entry.Indexed ∧ entry.key = key := fun key entry found => by simp at found
  obtain ⟨key, lookup⟩ := Packages.mem_entries.mp member
  have indexed := ((Packages.addFiles_builds none ran).1 key pkg lookup).1
  have fits := indexed.isStanza_iff.mp (parses.stanzas pkg member)
  dsimp only at values
  rw [values] at fits
  simp [Fits] at fits

end BotBrew.Opkg
