import BotBrew.Dictionary.Filling
import BotBrew.Opkg.IndexProperties

/-! What the packages of an index that is read back have in common with those that were written to it. -/

set_option autoImplicit false

namespace BotBrew.Opkg

open Text Dictionary

/-- Two packages that no index tells apart -/
structure Package.Alike (pkg other : Package) : Prop where
  same : SameFields pkg other
  repr : pkg.repr = other.repr

namespace Package.Alike

variable {pkg other third : Package}

theorem refl (pkg : Package) : pkg.Alike pkg := ⟨⟨fun _ _ => rfl, rfl, rfl⟩, rfl⟩

theorem self_eq (alike : pkg.Alike other) {name : String} (listed : name ∈ compared) :
    other.self name = pkg.self name :=
  (alike.same.attributes name listed).symm

theorem version (alike : pkg.Alike other) : other.version = pkg.version :=
  alike.self_eq (by simp [compared] : "version" ∈ compared)

theorem filename (alike : pkg.Alike other) : other.self "filename" = pkg.self "filename" :=
  alike.self_eq (by simp [compared])

theorem name (alike : pkg.Alike other) : other.name = pkg.name :=
  congrArg str (alike.self_eq (by simp [compared] : "package" ∈ compared))

theorem arch (alike : pkg.Alike other) : other.arch = pkg.arch :=
  congrArg str (alike.self_eq (by simp [compared] : "architecture" ∈ compared))

theorem key (alike : pkg.Alike other) : other.key = pkg.key := by
  rw [Package.key, Package.key, alike.name, alike.arch]

theorem compare_version {pkg' other' : Package} (alike : pkg.Alike other) (alike' : pkg'.Alike other') :
    other.compare_version other' = pkg.compare_version pkg' := by
  rw [Package.compare_version, Package.compare_version, alike.version, alike'.version]

end Package.Alike

/-- Dictionaries with the same keys, and packages under them that no index tells apart -/
structure Packages.Alike (packages others : Packages) : Prop where
  mem : ∀ key, key ∈ packages ↔ key ∈ others
  entry : ∀ key pkg other, packages.lookup key = some pkg → others.lookup key = some other → pkg.Alike other

namespace Packages.Alike

variable {packages others : Packages} {pkg other : Package} {key : Text}

theorem refl (packages : Packages) : packages.Alike packages := by
  refine ⟨fun _ => Iff.rfl, fun key pkg other lookup lookup' => ?_⟩
  rw [lookup, Option.some.injEq] at lookup'
  exact lookup' ▸ .refl pkg

theorem lookup_isSome (alike : packages.Alike others) :
    (packages.lookup key).isSome = (others.lookup key).isSome := by
  rw [Bool.eq_iff_iff, AList.lookup_isSome, AList.lookup_isSome]
  exact alike.mem key

theorem found (alike : packages.Alike others) (lookup : packages.lookup key = some pkg) :
    ∃ other, others.lookup key = some other ∧ pkg.Alike other := by
  have present := @lookup_isSome _ _ key alike
  rw [lookup, Option.isSome_some, eq_comm, Option.isSome_iff_exists] at present
  obtain ⟨other, lookup'⟩ := present
  exact ⟨other, lookup', alike.entry key pkg other lookup lookup'⟩

theorem found' (alike : packages.Alike others) (lookup : others.lookup key = some other) :
    ∃ pkg, packages.lookup key = some pkg ∧ pkg.Alike other := by
  have present := @lookup_isSome _ _ key alike
  rw [lookup, Option.isSome_some, Option.isSome_iff_exists] at present
  obtain ⟨pkg, lookup'⟩ := present
  exact ⟨pkg, lookup', alike.entry key pkg other lookup' lookup⟩

theorem names (alike : packages.Alike others) : packages.names = others.names :=
  sorted_keys_congr alike.mem

theorem insert (alike : packages.Alike others) (both : pkg.Alike other) :
    Packages.Alike (AList.insert pkg.key pkg packages) (AList.insert other.key other others) := by
  rw [both.key]
  refine ⟨fun key => ?_, fun key first second lookup lookup' => ?_⟩
  · rw [AList.mem_insert, AList.mem_insert, alike.mem]
  · by_cases same : key = pkg.key
    · rw [same, AList.lookup_insert, Option.some.injEq] at lookup lookup'
      exact lookup ▸ lookup' ▸ both
    · rw [AList.lookup_insert_ne same] at lookup lookup'
      exact alike.entry key first second lookup lookup'

theorem filename (alike : packages.Alike others) :
    ((others.lookup key).bind fun entry => entry.self "filename") =
      (packages.lookup key).bind fun entry => entry.self "filename" := by
  cases lookup : packages.lookup key with
  | none =>
    have missing := @lookup_isSome _ _ key alike
    rw [lookup, Option.isSome_none, eq_comm, Option.isSome_eq_false_iff, Option.isNone_iff_eq_none] at missing
    rw [missing]
  | some pkg =>
    obtain ⟨other, lookup', both⟩ := alike.found lookup
    rw [lookup', Option.bind_some, Option.bind_some, both.filename]

/-- A package is taken into both or into neither. -/
theorem add_package (alike : packages.Alike others) (both : pkg.Alike other) {packages' : Packages} {s : ℕ}
    (added : packages.add_package pkg = some (packages', s)) :
    ∃ others', others.add_package other = some (others', s) ∧ packages'.Alike others' := by
  have first : Packages.Alike (if pkg.key ∈ packages then packages else AList.insert pkg.key pkg packages)
      (if other.key ∈ others then others else AList.insert other.key other others) := by
    by_cases present : pkg.key ∈ packages
    · rw [if_pos present, if_pos (both.key ▸ (alike.mem _).mp present)]
      exact alike
    · rw [if_neg present, if_neg fun present' => present ((alike.mem _).mpr (both.key ▸ present'))]
      exact alike.insert both
  obtain ⟨current, lookup, added⟩ := Option.bind_eq_some_iff.mp added
  obtain ⟨r, compared, added⟩ := Option.bind_eq_some_iff.mp added
  obtain ⟨current', lookup', same⟩ := first.found lookup
  rw [← both.key] at lookup'
  simp only [Packages.add_package, lookup', both.compare_version same, compared, Option.bind_eq_bind, Option.bind_some]
  split at added
  · cases added
    exact ⟨_, if_pos (by assumption), first.insert both⟩
  · cases added
    exact ⟨_, if_neg (by assumption), first⟩

/-- The packages printed from both are the same text. -/
theorem printed (alike : packages.Alike others) :
    packages.entries.flatMap Package.printed = others.entries.flatMap Package.printed := by
  rw [Packages.entries, Packages.entries, alike.names]
  induction others.names with
  | nil => rfl
  | cons key keys hypothesis =>
    cases lookup : packages.lookup key with
    | none =>
      have lookup' : others.lookup key = none := by
        rw [← Option.isNone_iff_eq_none, ← Option.not_isSome, ← alike.lookup_isSome, lookup]
        rfl
      simp only [List.filterMap_cons, lookup, lookup', hypothesis]
    | some pkg =>
      obtain ⟨other, lookup', both⟩ := alike.found lookup
      simp only [List.filterMap_cons, lookup, lookup', List.flatMap_cons, hypothesis, Package.printed, both.repr]

end Packages.Alike

/-! ## Reading a stanza -/

theorem printedField_filter (label : Text) (value : Option Text) :
    printedField label (value.filter (· ≠ [])) = printedField label value := by
  match value with
  | none => rfl
  | some [] => rfl
  | some (char :: rest) => rfl

/-- The labels of the attributes that are read under their own names -/
theorem labels_read : ∀ label ∈ labels, label.2 = "md5sum" ∨ label.2 = "size" ∨ label.2 = "installed_size" ∨
    (lower label.1.toList = label.2.toList ∧ Known (lower label.1.toList) ∧
      label.2.toList ≠ "md5sum".toList ∧ label.2 ≠ "md5sum" ∧ label.2 ≠ "size") := by
  unfold Known
  decide

theorem labels_installed_size : ∀ label ∈ labels, lower label.1.toList ≠ "installed_size".toList := by
  decide

/-- A field of another name leaves the entry of the dictionary. -/
theorem fields_dict {fields : Metadata} {pkg pkg' : Package} {printed : Text}
    (ran : pkg.fields fields = some (pkg', printed)) {name : Text}
    (unset : ∀ field ∈ fields, lower field.1 ≠ name) : pkg'.dict name = pkg.dict name := by
  induction fields generalizing pkg pkg' printed with
  | nil =>
    cases ran
    rfl
  | cons field rest hypothesis =>
    obtain ⟨⟨middle, first⟩, ranFirst, ran⟩ := Option.bind_eq_some_iff.mp ran
    obtain ⟨⟨final, more⟩, ranRest, shown⟩ := Option.bind_eq_some_iff.mp ran
    obtain ⟨rfl, -⟩ : final = pkg' ∧ _ := by simpa using shown
    have other := unset field List.mem_cons_self
    rw [hypothesis ranRest fun later member => unset later (List.mem_cons_of_mem field member)]
    unfold Package.field at ranFirst
    split at ranFirst
    · split at ranFirst
      · obtain ⟨size, -, same⟩ := Option.map_eq_some_iff.mp ranFirst
        cases same
        rfl
      · cases ranFirst
    · split at ranFirst
      · cases ranFirst
        rfl
      · split at ranFirst
        · cases ranFirst
          unfold Package.set
          split
          · rfl
          · exact Function.update_of_ne other.symm ..
        · cases ranFirst
          rfl

section Stanza

variable {pkg read : Package}

theorem Reread.printedFields (reread : Reread pkg read) (indexed : pkg.Indexed)
    (unset : read.self "installed_size" = none) : read.printedFields = pkg.printedFields := by
  refine List.flatMap_congr fun label member => ?_
  rcases labels_read label member with md5 | size | installed | ⟨key, known, noDigest, noMd5, noSize⟩
  · rw [md5, Package.value, Package.value, if_pos rfl, if_pos rfl, reread.md5sum, printedField_filter]
  · rw [size, value_size, value_size, reread.filesize]
  · rw [installed, Package.value, Package.value]
    simp only [String.reduceEq, if_false, unset, indexed.installed_size]
  · have attr := reread.known label member known
    rw [key, attr_of_ne noDigest] at attr
    rw [← printedField_filter _ (pkg.value label.2), ← attr, Package.value, if_neg noMd5, if_neg noSize]
    rfl

theorem readlines_blanks (gap : ℕ) (text : Text) :
    readlines (List.replicate gap '\n' ++ text) = List.replicate gap blank ++ readlines text := by
  induction gap with
  | zero => rfl
  | succ gap hypothesis =>
    rw [List.replicate_succ, List.replicate_succ, List.cons_append, readlines, hypothesis]
    rfl

/-- A stanza is read as the package that it was printed from, however many blank lines follow. -/
theorem Package.Indexed.read_stanza (indexed : pkg.Indexed) (printable : pkg.Printable) (gap : ℕ) (text : Text) :
    ∃ read printed blanks, (∀ line ∈ blanks, line = blank) ∧ read.isNamed = true ∧ pkg.Alike read ∧
      Package.empty.read_control (readlines (pkg.repr ++ List.replicate gap '\n' ++ text)) =
        some (read, printed, blanks ++ readlines text) := by
  obtain ⟨sources, unfold, nonempty, trimmed, named, -⟩ := indexed.block
  obtain ⟨extra, kind, shape⟩ := printedBlock_fits trimmed (unfold ▸ printable.lines)
  obtain ⟨read, printed, ran, reread⟩ := indexed.fields_reread unfold
  have unset : read.self "installed_size" = none := by
    refine (fields_dict ran fun field member same => ?_).trans rfl
    have printedField : (field.1, unfolded field.2) ∈ pkg.printedFields := unfold ▸ List.mem_map_of_mem member
    obtain ⟨label, inLabels, key, -⟩ := mem_printedFields.mp printedField
    exact labels_installed_size label inLabels (key ▸ same)
  have alike : pkg.Alike read := by
    refine ⟨reread.sameFields_iff.mpr printable.filled, ?_⟩
    rw [repr_eq, repr_eq, reread.printedFields indexed unset]
  have lines : readlines (pkg.repr ++ List.replicate gap '\n' ++ text) =
      sources.flatMap fieldLines ++ (extra ++ blank :: (List.replicate gap blank ++ readlines text)) := by
    have stanza := readlines_stanza named ('\n' :: (List.replicate gap '\n' ++ text))
    rw [unfold, shape] at stanza
    rw [repr_eq, List.append_assoc, List.append_assoc, List.singleton_append, stanza, readlines, readlines_blanks,
      List.append_assoc]
    rfl
  have fields := fun more => read_control_fields named (Or.inr ⟨more, rfl⟩) nonempty Package.empty
  have replicated : ∀ line ∈ List.replicate gap blank, line = blank := fun line member =>
    (List.mem_replicate.mp member).2
  rcases kind with rfl | rfl
  · refine ⟨read, printed, List.replicate gap blank, replicated, reread.isNamed indexed, alike, ?_⟩
    rw [lines]
    exact (fields _).trans (by rw [ran]; rfl)
  · refine ⟨read, printed, blank :: List.replicate gap blank, ?_, reread.isNamed indexed, alike, ?_⟩
    · exact List.forall_mem_cons.mpr ⟨rfl, replicated⟩
    · rw [lines]
      exact (fields _).trans (by rw [ran]; rfl)

end Stanza

/-! ## Reading an index -/

/-- The stanzas of the packages, with as many newlines behind each of them -/
def stanzas (gap : ℕ) (entries : List Package) : Text :=
  entries.flatMap fun entry => entry.repr ++ List.replicate gap '\n'

/-- What an index is written from: packages under their keys, which their stanzas hold. -/
structure Packages.Faithful (packages : Packages) : Prop where
  keyed : packages.Keyed
  indexed : ∀ key entry, packages.lookup key = some entry → entry.Indexed
  printable : ∀ key entry, packages.lookup key = some entry → entry.Printable

namespace Packages

theorem read_stanzas {entries : List Package} (gap : ℕ) (indexed : ∀ entry ∈ entries, entry.Indexed)
    (printable : ∀ entry ∈ entries, entry.Printable) (distinct : (entries.map Package.key).Nodup)
    (packages : Packages) (absent : ∀ entry ∈ entries, entry.key ∉ packages) :
    ∃ packages', packages.read_packages_file (readlines (stanzas gap entries)) = some packages' ∧
      (∀ entry ∈ entries, ∃ read, packages'.lookup entry.key = some read ∧ entry.Alike read) ∧
      ∀ key, (∀ entry ∈ entries, entry.key ≠ key) → packages'.lookup key = packages.lookup key := by
  induction entries generalizing packages with
  | nil =>
    have empty : Package.empty.read_control [] = some (Package.empty, [], []) := by
      rw [Package.read_control]
    have unnamed : Package.empty.isNamed = false := by decide
    refine ⟨packages, ?_, fun _ member => absurd member List.not_mem_nil, fun _ _ => rfl⟩
    rw [read_packages_file_eq, stanzas, List.flatMap_nil, readlines, empty]
    simp [unnamed]
  | cons entry rest hypothesis =>
    have head := printable entry List.mem_cons_self
    obtain ⟨read, printed, blanks, all, named, alike, ran⟩ :=
      (indexed entry List.mem_cons_self).read_stanza head gap (stanzas gap rest)
    have fresh : read.key ∉ packages := alike.key ▸ absent entry List.mem_cons_self
    obtain ⟨result, comparable⟩ := Option.isSome_iff_exists.mp head.comparable
    have added := add_package_new fresh
    rw [alike.compare_version alike, comparable, Option.map_some, Option.map_eq_some_iff] at added
    obtain ⟨⟨middle, s⟩, added, rfl⟩ := added
    obtain ⟨apart, distinctRest⟩ := List.nodup_cons.mp distinct
    have apart : ∀ other ∈ rest, other.key ≠ entry.key :=
      fun other member equal => apart (equal ▸ List.mem_map_of_mem member)
    have absentRest : ∀ other ∈ rest, other.key ∉ AList.insert read.key read packages := by
      intro other member present
      cases (AList.mem_insert _).mp present with
      | inl equal => exact apart other member (equal.trans alike.key)
      | inr present => exact absent other (List.mem_cons_of_mem entry member) present
    obtain ⟨packages', ranRest, found, kept⟩ :=
      hypothesis (fun other member => indexed other (List.mem_cons_of_mem entry member))
        (fun other member => printable other (List.mem_cons_of_mem entry member)) distinctRest _ absentRest
    refine ⟨packages', ?_, fun other member => ?_, fun key outside => ?_⟩
    · rw [read_packages_file_eq, stanzas, List.flatMap_cons, ← stanzas, ran]
      simp only [named, if_true, added, Option.bind_some, read_packages_file_blanks all, ranRest]
    · cases member with
      | head => exact ⟨read, by rw [kept _ apart, ← alike.key, AList.lookup_insert], alike⟩
      | tail _ member => exact found other member
    · have other := outside entry List.mem_cons_self
      rw [kept key fun later member => outside later (List.mem_cons_of_mem entry member), alike.key,
        AList.lookup_insert_ne other.symm]

/-- An index is read as a dictionary that no index tells apart from the one it was written from. -/
theorem Faithful.read {packages : Packages} (faithful : packages.Faithful) (gap : ℕ) :
    ∃ packages', (∅ : Packages).read_packages_file (readlines (stanzas gap packages.entries)) =
      some packages' ∧ packages.Alike packages' := by
  have indexed : ∀ entry ∈ packages.entries, entry.Indexed := fun entry member =>
    have ⟨key, lookup⟩ := mem_entries.mp member
    faithful.indexed key entry lookup
  have printable : ∀ entry ∈ packages.entries, entry.Printable := fun entry member =>
    have ⟨key, lookup⟩ := mem_entries.mp member
    faithful.printable key entry lookup
  obtain ⟨packages', ran, found, kept⟩ := read_stanzas gap indexed printable faithful.keyed.entries_nodup ∅
    fun _ _ => AList.notMem_empty _
  have each : ∀ key pkg, packages.lookup key = some pkg →
      ∃ read, packages'.lookup key = some read ∧ pkg.Alike read := by
    intro key pkg lookup
    have member := mem_entries.mpr ⟨key, lookup⟩
    exact faithful.keyed key pkg lookup ▸ found pkg member
  refine ⟨packages', ran, fun key => ?_, fun key pkg other lookup lookup' => ?_⟩
  · constructor
    · intro present
      obtain ⟨pkg, lookup⟩ := Option.isSome_iff_exists.mp (AList.lookup_isSome.mpr present)
      obtain ⟨read, lookup', -⟩ := each key pkg lookup
      exact AList.lookup_isSome.mp (lookup' ▸ rfl)
    · intro present
      by_contra missing
      have outside : ∀ entry ∈ packages.entries, entry.key ≠ key := by
        intro entry member same
        obtain ⟨under, lookup⟩ := mem_entries.mp member
        have here := faithful.keyed under entry lookup
        exact missing (same ▸ here ▸ AList.lookup_isSome.mp (lookup ▸ rfl))
      have lookup := kept key outside
      rw [AList.lookup_empty] at lookup
      exact AList.lookup_eq_none.mp lookup present
  · obtain ⟨read, found, alike⟩ := each key pkg lookup
    rw [found, Option.some.injEq] at lookup'
    exact lookup' ▸ alike

end Packages

end BotBrew.Opkg
