import BotBrew.Opkg.FieldProperties

/-! Reading back the control file that `opkg-buildyaml` writes. -/

set_option autoImplicit false

namespace BotBrew.Opkg

open Text

theorem Metadata.Valid.named {metadata : Metadata} (valid : metadata.Valid) {field : Text × Text}
    (member : field ∈ metadata) : Named field.1 := by
  obtain ⟨nonempty, chars⟩ := valid.keys field member
  refine ⟨nonempty, fun char inKey => ?_⟩
  have kind := chars char inKey
  simp only [Bool.or_eq_true] at kind
  rcases kind with kind | kind <;> simp [isNameChar, kind]

def Metadata.clean (fields : Metadata) : Metadata :=
  fields.map fun field => (field.1, cleaned field.2)

def readBack (value : Text) : Text := unfolded (cleaned value)

theorem controlText_eq {fields : Metadata} (nonempty : fields ≠ []) :
    controlText fields = fields.clean.flatMap fun field => fieldText field ++ ['\n'] := by
  induction fields with
  | nil => exact absurd rfl nonempty
  | cons field rest ih =>
      cases rest with
      | nil => simp [controlText, Metadata.clean, controlField, fieldText]
      | cons field' rest' =>
          have inner := ih (by simp)
          simp only [controlText, List.map_cons, List.intercalate_cons_cons, List.append_assoc,
            List.flatMap_cons, Metadata.clean] at inner ⊢
          rw [inner]
          simp [controlField, fieldText]

theorem Metadata.clean_named {fields : Metadata} (named : ∀ field ∈ fields, Named field.1) :
    ∀ field ∈ fields.clean, Named field.1 := by
  intro field member
  obtain ⟨source, inFields, rfl⟩ := List.mem_map.mp member
  exact named source inFields

theorem read_control_controlText {fields : Metadata} (named : ∀ field ∈ fields, Named field.1)
    (pkg : Package) :
    pkg.read_control (readlines (controlText fields)) =
      (pkg.fields fields.clean).map fun (pkg, printed) => (pkg, printed, []) := by
  cases fields with
  | nil =>
      have lines : readlines (controlText []) = [['\n']] := by decide
      have blank : header (rstrip ['\n']) = none := by decide
      rw [lines, Package.read_control, blank, Package.read_control]
      rfl
  | cons field rest =>
      have named' := Metadata.clean_named named
      have lines := readlines_fields named' []
      rw [List.append_nil, ← controlText_eq (by simp)] at lines
      rw [lines]
      exact read_control_fields named' (Or.inl rfl) (by simp [Metadata.clean]) pkg

def PackageFile.initial (file : PackageFile) : Package :=
  { (Package.empty.set "filename".toList file.basename) with file := some file.info }

theorem init_controlText {fields : Metadata} (named : ∀ field ∈ fields, Named field.1)
    {file : PackageFile} (written : file.control = controlText fields) :
    Package.init file = file.initial.fields fields.clean := by
  simp only [Package.init, PackageFile.initial, written, read_control_controlText named]
  cases Package.fields _ fields.clean <;> rfl

theorem init_loaded {fields : Metadata} (named : ∀ field ∈ fields, Named field.1)
    (noSize : ∀ field ∈ fields, lower field.1 ≠ "size".toList)
    {file : PackageFile} (written : file.control = controlText fields) :
    ∃ pkg printed, Package.init file = some (pkg, printed) ∧
      file.initial.fields fields.clean = some (pkg, printed) ∧
      Loaded file.initial pkg fields.clean := by
  have numeric : ∀ field ∈ fields.clean, Numeric field.1 (unfolded field.2) := by
    intro field member size
    obtain ⟨source, inFields, rfl⟩ := List.mem_map.mp member
    exact absurd size (noSize source inFields)
  obtain ⟨pkg, printed, ran, loaded⟩ := fields_loaded numeric file.initial
  exact ⟨pkg, printed, (init_controlText named written).trans ran, ran, loaded⟩

/-- The lines of a value of the mapping, with the space that `opkg-buildyaml`
puts before all but the first. -/
def indentedLines (value : Text) : List Text :=
  strip (cut (cleaned value)).1 :: (cut (cleaned value)).2.map (' ' :: ·)

def lines (text : Text) : List Text := (cut text).1 :: (cut text).2

theorem cut_readBack (value : Text) :
    cut (readBack value) = (strip (cut (cleaned value)).1,
      (cut (cleaned value)).2.flatMap fun line => [' ' :: line, []]) := by
  obtain ⟨firstFree, restFree⟩ := newline_notMem_cut (cleaned value)
  have shape : readBack value = paste (strip (cut (cleaned value)).1)
      ((cut (cleaned value)).2.flatMap fun line => [' ' :: line, []]) := by
    simp [readBack, unfolded, paste, List.flatMap_assoc]
  rw [shape]
  refine cut_paste (fun member => firstFree (strip_subset member)) fun line member => ?_
  obtain ⟨source, inRest, shown⟩ := List.mem_flatMap.mp member
  simp only [List.mem_cons, List.not_mem_nil, or_false] at shown
  rcases shown with rfl | rfl
  · simp [restFree source inRest]
  · simp

/-- The value that was read has the lines of the mapping's value. Between them
there may be empty ones if there are more than two. -/
structure ReadsBack (value read : Text) : Prop where
  first : (lines read).head? = (indentedLines value).head?
  rest : (lines read).tail.filter (· ≠ []) = (indentedLines value).tail
  exact : (indentedLines value).length ≤ 2 →
    lines (read.rdropWhile (· == '\n')) = indentedLines value

theorem readsBack (value : Text) : ReadsBack value (readBack value) where
  first := by simp [lines, indentedLines, cut_readBack]
  rest := by
    simp only [lines, indentedLines, cut_readBack, List.tail_cons]
    induction (cut (cleaned value)).2 with
    | nil => rfl
    | cons line rest ih => simpa using ih
  exact short := by
    obtain ⟨firstFree, restFree⟩ := newline_notMem_cut (cleaned value)
    have headFree : '\n' ∉ strip (cut (cleaned value)).1 :=
      fun member => firstFree (strip_subset member)
    have lineFree : ∀ {text : Text}, '\n' ∉ text → text.rdropWhile (· == '\n') = text := by
      intro text free
      refine List.rdropWhile_eq_self_iff.mpr fun nonempty newline => free ?_
      exact beq_iff_eq.mp newline ▸ List.getLast_mem nonempty
    simp only [indentedLines, lines, readBack, unfolded] at short ⊢
    generalize rest : (cut (cleaned value)).2 = others at restFree short ⊢
    cases others with
    | nil =>
        simp only [List.flatMap_nil, List.append_nil, lineFree headFree, cut_line headFree,
          List.map_nil]
    | cons line later =>
        obtain rfl : later = [] := by simpa using short
        have free : '\n' ∉ ' ' :: line := by simp [restFree line (by simp)]
        have kept : ((strip (cut (cleaned value)).1 ++ '\n' :: ' ' :: line) ++ ['\n']).rdropWhile
            (· == '\n') = strip (cut (cleaned value)).1 ++ '\n' :: ' ' :: line := by
          rw [List.rdropWhile_concat_pos _ _ _ (by simp)]
          refine List.rdropWhile_eq_self_iff.mpr fun nonempty newline => free ?_
          rw [List.getLast_append_of_ne_nil _ (by simp), List.getLast_cons (by simp)] at newline
          exact beq_iff_eq.mp newline ▸ List.getLast_mem (by simp)
        simp only [List.flatMap_cons, List.flatMap_nil, List.append_nil, List.cons_append] at kept ⊢
        rw [← List.cons_append, ← List.cons_append, ← List.append_assoc, kept, cut_append headFree,
          cut_line free]
        rfl

/-- What the packager and the indexer make of the fields of a mapping. -/
structure RoundTrip (fields : Metadata) (initial read : Package) : Prop where
  kept : ∀ field ∈ fields, Known (lower field.1) →
    (∀ other ∈ fields, Sets other.1 (lower field.1) → other = field) →
    ∃ value, read.attr (lower field.1) = some value ∧ ReadsBack field.2 value
  untouched : ∀ name, (∀ field ∈ fields, ¬ Sets field.1 name) →
    read.attr name = initial.attr name

theorem setMaintainer_keys {metadata : Metadata} (valid : metadata.Valid)
    (OPKG_MAINTAINER : Option Text) {field : Text × Text}
    (member : field ∈ setMaintainer OPKG_MAINTAINER metadata) :
    Named field.1 ∧ lower field.1 ≠ "size".toList := by
  cases OPKG_MAINTAINER with
  | none => exact ⟨valid.named member, valid.no_size field member⟩
  | some maintainer =>
      have maintainerKey : Named "Maintainer".toList ∧ lower "Maintainer".toList ≠ "size".toList :=
        ⟨⟨by decide, by decide⟩, by decide⟩
      rcases List.mem_cons.mp member with rfl | member
      · exact maintainerKey
      · have inMapping := (List.mem_filter.mp member).1
        exact ⟨valid.named inMapping, valid.no_size field inMapping⟩

def zlib : Metadata :=
  [("Package".toList, "zlib".toList), ("Version".toList, "1.2.7-r0".toList),
    ("Description".toList, "A compression library\nin two lines\n".toList)]

def zlibFile (fields : Metadata) : PackageFile where
  basename := "zlib_1.2.7-r0_armel.opk".toList
  control := controlText fields
  info := { md5 := "d41d8cd98f00b204e9800998ecf8427e".toList, size := 88064, hexdigest := by decide }
  named := by decide

theorem zlib_valid : zlib.Valid := ⟨by decide, by decide, by decide⟩

/-- Every key of the mapping is read back, whichever it is. -/
def KeepsEvery (fields : Metadata) (read : Package) : Prop :=
  ∀ field ∈ fields, ∃ value, read.attr (lower field.1) = some value ∧
    lines (value.rdropWhile (· == '\n')) = indentedLines field.2

def essential : Metadata := ("Essential".toList, "yes".toList) :: zlib

end BotBrew.Opkg
