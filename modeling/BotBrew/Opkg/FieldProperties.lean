import BotBrew.Opkg.Buildyaml

/-! What `read_control` makes of printed fields. -/

set_option autoImplicit false

namespace BotBrew.Opkg

open Text

/-- A key that the header expression matches whole. -/
def Named (key : Text) : Prop := key ≠ [] ∧ ∀ char ∈ key, isNameChar char = true

theorem isNameChar_visible {char : Char} (name : isNameChar char = true) :
    isSpace char = false ∧ char ≠ ':' ∧ char ≠ '\n' ∧ char ≠ ' ' := by
  refine ⟨?_, ?_, ?_, ?_⟩
  · by_contra blank
    simp only [isSpace, Bool.not_eq_false, Bool.or_eq_true, beq_iff_eq] at blank
    rcases blank with ((((rfl | rfl) | rfl) | rfl) | rfl) | rfl <;> exact absurd name (by decide)
  all_goals rintro rfl; exact absurd name (by decide)

/-- What `read_control` makes of a value: the newline of a line that goes on with
it stays where it was. -/
def unfolded (value : Text) : Text :=
  strip (cut value).1 ++ (cut value).2.flatMap fun line => '\n' :: ' ' :: line ++ ['\n']

def fieldText (field : Text × Text) : Text := field.1 ++ ": ".toList ++ folded field.2

def fieldLines (field : Text × Text) : File :=
  (field.1 ++ ": ".toList ++ (cut field.2).1 ++ ['\n']) ::
    (cut field.2).2.map fun line => ' ' :: line ++ ['\n']

theorem folded_eq (value : Text) :
    folded value = (cut value).1 ++ (cut value).2.flatMap fun line => '\n' :: ' ' :: line := by
  induction value with
  | nil => rfl
  | cons char value ih =>
      have step : folded (char :: value) =
          (if char = '\n' then ['\n', ' '] else [char]) ++ folded value := rfl
      rw [step, ih]
      by_cases newline : char = '\n' <;> simp [cut, newline]

theorem newline_notMem_name {key : Text} (named : Named key) : '\n' ∉ key :=
  fun member => (isNameChar_visible (named.2 _ member)).2.2.1 rfl

theorem readlines_field {field : Text × Text} (named : Named field.1) (text : Text) :
    readlines (fieldText field ++ '\n' :: text) = fieldLines field ++ readlines text := by
  obtain ⟨firstFree, restFree⟩ := newline_notMem_cut field.2
  have keyFree := newline_notMem_name named
  have headFree : '\n' ∉ field.1 ++ ": ".toList ++ (cut field.2).1 := by
    simp [keyFree, firstFree]
  have indented : ∀ line ∈ (cut field.2).2.map (' ' :: ·), '\n' ∉ line := by
    intro line member
    obtain ⟨line, inRest, rfl⟩ := List.mem_map.mp member
    simp [restFree line inRest]
  -- the newline of each line is the one before the next
  have shift : ∀ lines : List Text,
      (lines.flatMap fun line => '\n' :: ' ' :: line) ++ '\n' :: text =
        '\n' :: (((lines.map (' ' :: ·)).flatMap fun line => line ++ ['\n']) ++ text) := by
    intro lines
    induction lines with
    | nil => rfl
    | cons line lines ih =>
        simp only [List.flatMap_cons, List.map_cons, List.append_assoc, List.cons_append, ih,
          List.nil_append]
  rw [fieldText, folded_eq, ← List.append_assoc, List.append_assoc, shift,
    readlines_line headFree, readlines_lines indented, fieldLines]
  simp

theorem header_field {field : Text × Text} (named : Named field.1) :
    header (rstrip (field.1 ++ ": ".toList ++ (cut field.2).1 ++ ['\n'])) =
      some (field.1, strip (cut field.2).1) := by
  have shape : field.1 ++ ": ".toList ++ (cut field.2).1 ++ ['\n'] =
      (field.1 ++ ':' :: ' ' :: (cut field.2).1) ++ ['\n'] := by simp
  have stripped : rstrip (field.1 ++ ':' :: ' ' :: (cut field.2).1) =
      field.1 ++ ':' :: rstrip (' ' :: (cut field.2).1) :=
    rstrip_append (by decide) _ _
  have colon : isNameChar ':' = false := by decide
  rw [shape, rstrip_concat_blank (by decide), stripped, header,
    List.dropWhile_append_of_pos named.2, List.takeWhile_append_of_pos named.2,
    List.dropWhile_cons_of_neg (by simp [colon]), List.takeWhile_cons_of_neg (by simp [colon])]
  have blank : isSpace ' ' = true := by decide
  have value := lstrip_rstrip_cons blank (cut field.2).1
  simp only [List.append_nil, Option.some.injEq, Prod.mk.injEq, true_and]
  exact value

/-- The lines after a field do not go on with its value. -/
def Stops (lines : File) : Prop := ∀ line ∈ lines.head?, line.head? ≠ some ' '

theorem continuation_stops {lines : File} (stops : Stops lines) (value : Text) :
    continuation value lines = (value, lines) := by
  cases lines with
  | nil => rfl
  | cons line rest =>
      have other : ¬ line.head? = some ' ' := stops line (by simp)
      rw [continuation, if_neg other]

theorem continuation_lines (lines : List Text) (value : Text) {next : File} (stops : Stops next) :
    continuation value (lines.map (fun line => ' ' :: line ++ ['\n']) ++ next) =
      (value ++ lines.flatMap fun line => '\n' :: ' ' :: line ++ ['\n'], next) := by
  induction lines generalizing value with
  | nil => simpa using continuation_stops stops value
  | cons line lines ih =>
      have indented : (' ' :: line ++ ['\n']).head? = some ' ' := rfl
      simp only [List.map_cons, List.cons_append] at ih ⊢
      rw [continuation, if_pos (by simp), ih]
      simp

def Package.fields (pkg : Package) : Metadata → Option (Package × Text)
  | [] => some (pkg, [])
  | field :: rest => do
      let (pkg, printed) ← pkg.field (lower field.1) (unfolded field.2)
      let (pkg, more) ← pkg.fields rest
      some (pkg, printed ++ more)

theorem read_control_field {field : Text × Text} (named : Named field.1) (pkg : Package)
    {next : File} (stops : Stops next) :
    pkg.read_control (fieldLines field ++ next) = (do
      let (pkg, printed) ← pkg.field (lower field.1) (unfolded field.2)
      match next with
      | [] => some (pkg, printed, [])
      | line :: more =>
          if line.head? = some '\n' then some (pkg, printed, more)
          else do
            let (pkg, printed', more) ← pkg.read_control (line :: more)
            some (pkg, printed ++ printed', more)) := by
  have goesOn := continuation_lines (cut field.2).2 (strip (cut field.2).1)
    stops
  rw [fieldLines, List.cons_append, Package.read_control, header_field named]
  simp only [goesOn, unfolded]
  cases ran : pkg.field (lower field.1) _ with
  | none => rfl
  | some result =>
      obtain ⟨pkg, printed⟩ := result
      cases next with
      | nil =>
          simp only [Option.bind_eq_bind, Option.bind_some]
          split
          · rfl
          · rename_i remaining
            rw [goesOn] at remaining
            cases remaining
      | cons line more =>
          simp only [Option.bind_eq_bind, Option.bind_some]
          split
          · rename_i remaining
            rw [goesOn] at remaining
            cases remaining
          · rename_i remaining
            rw [goesOn] at remaining
            cases remaining
            rfl

theorem fieldLines_head {field : Text × Text} (named : Named field.1) :
    ∃ char text lines, fieldLines field = (char :: text) :: lines ∧ char ≠ ' ' ∧ char ≠ '\n' := by
  obtain ⟨key, value⟩ := field
  cases key with
  | nil => exact absurd rfl named.1
  | cons char key =>
      have name := isNameChar_visible (named.2 char (by simp))
      exact ⟨char, _, _, rfl, name.2.2.2, name.2.2.1⟩

theorem stops_fields {fields : Metadata} (named : ∀ field ∈ fields, Named field.1) {next : File}
    (stops : Stops next) : Stops (fields.flatMap fieldLines ++ next) := by
  cases fields with
  | nil => exact stops
  | cons field rest =>
      obtain ⟨char, text, lines, shape, space, _⟩ := fieldLines_head (named field (by simp))
      intro line head
      simp only [List.flatMap_cons, shape, List.cons_append, List.head?_cons,
        Option.mem_some_iff] at head
      subst head
      simpa using space

def afterFields : File → File
  | [] => []
  | _ :: more => more

theorem read_control_fields {fields : Metadata} (named : ∀ field ∈ fields, Named field.1)
    {next : File} (ends : next = [] ∨ ∃ more, next = ['\n'] :: more) (nonempty : fields ≠ [])
    (pkg : Package) :
    pkg.read_control (fields.flatMap fieldLines ++ next) =
      (pkg.fields fields).map fun (pkg, printed) => (pkg, printed, afterFields next) := by
  have stops : Stops next := by
    rcases ends with rfl | ⟨more, rfl⟩ <;> simp [Stops]
  induction fields generalizing pkg with
  | nil => exact absurd rfl nonempty
  | cons field rest ih =>
      have namedRest : ∀ field ∈ rest, Named field.1 := fun other member => named other (by simp [member])
      rw [List.flatMap_cons, List.append_assoc,
        read_control_field (named field (by simp)) pkg (stops_fields namedRest stops),
        Package.fields]
      cases ran : pkg.field (lower field.1) (unfolded field.2) with
      | none => rfl
      | some result =>
          obtain ⟨pkg, printed⟩ := result
          cases rest with
          | nil =>
              rcases ends with rfl | ⟨more, rfl⟩ <;>
                simp [Package.fields, afterFields]
          | cons field' rest' =>
              obtain ⟨char, text, lines, shape, _, newline⟩ := fieldLines_head (namedRest field' (by simp))
              have inner := ih namedRest (by simp) pkg
              simp only [List.flatMap_cons, shape, List.cons_append, List.append_assoc] at inner ⊢
              simp only [Option.bind_eq_bind, Option.bind_some, List.head?_cons, Option.some.injEq,
                newline, if_false, inner]
              cases pkg.fields (field' :: rest') <;> rfl

theorem readlines_fields {fields : Metadata} (named : ∀ field ∈ fields, Named field.1)
    (text : Text) :
    readlines ((fields.flatMap fun field => fieldText field ++ ['\n']) ++ text) =
      fields.flatMap fieldLines ++ readlines text := by
  induction fields with
  | nil => rfl
  | cons field rest ih =>
      have inner := ih fun other member => named other (by simp [member])
      simp only [List.flatMap_cons, List.append_assoc, List.cons_append, List.nil_append]
      rw [readlines_field (named field (by simp)), inner]

def Package.attr (pkg : Package) (name : Text) : Option Text :=
  if name = "md5sum".toList then pkg.md5 else pkg.dict name

def Known (name : Text) : Prop := name ∈ attributeNames ∨ name = "md5sum".toList

/-- A field of this key sets the attribute. `MD5` sets `md5`, too, once it is there. -/
def Sets (key name : Text) : Prop :=
  Known name ∧ (lower key = name ∨ (lower key = "md5".toList ∧ name = "md5sum".toList))

theorem attr_md5sum (pkg : Package) : pkg.attr "md5sum".toList = pkg.md5 := if_pos rfl

theorem attr_of_ne {name : Text} (differs : name ≠ "md5sum".toList) (pkg : Package) :
    pkg.attr name = pkg.dict name :=
  if_neg differs

theorem set_md5 (pkg : Package) (value : Text) :
    pkg.set "md5".toList value = { pkg with md5 := some value } :=
  if_pos rfl

theorem set_of_ne {name : Text} (differs : name ≠ "md5".toList) (pkg : Package) (value : Text) :
    pkg.set name value = { pkg with dict := Function.update pkg.dict name (some value) } :=
  if_neg differs

theorem Known.not_md5 {name : Text} (known : Known name) : name ≠ "md5".toList := by
  rintro rfl
  exact absurd known (by unfold Known; decide)

def Numeric (key value : Text) : Prop :=
  lower key = "size".toList → value ≠ [] ∧ value.all Char.isDigit = true

structure Updated (pkg pkg' : Package) (key value : Text) : Prop where
  known : Known (lower key) → pkg'.attr (lower key) = some value
  kept : ∀ name, ¬ Sets key name → pkg'.attr name = pkg.attr name
  values : ∀ name, pkg'.attr name = pkg.attr name ∨ pkg'.attr name = some value
  size : pkg'.size = if lower key = "size".toList then int value else pkg.size
  file : pkg'.file = pkg.file

theorem field_updated (pkg : Package) {key value : Text} (numeric : Numeric key value) :
    ∃ pkg' printed, pkg.field (lower key) value = some (pkg', printed) ∧
      Updated pkg pkg' key value := by
  by_cases size : lower key = "size".toList
  · obtain ⟨nonempty, digits⟩ := numeric size
    have unknown : ¬ Known (lower key) := by
      rw [size]
      unfold Known
      decide
    refine ⟨{ pkg with size := int value }, [], ?_, fun known => absurd known unknown,
      fun _ _ => rfl, fun _ => Or.inl rfl, by rw [if_pos size], rfl⟩
    rw [Package.field, if_pos size, if_pos digits]
    simp [int, nonempty]
  suffices ∃ pkg' printed, pkg.field (lower key) value = some (pkg', printed) ∧
      (Known (lower key) → pkg'.attr (lower key) = some value) ∧
      (∀ name, ¬ Sets key name → pkg'.attr name = pkg.attr name) ∧
      (∀ name, pkg'.attr name = pkg.attr name ∨ pkg'.attr name = some value) ∧
      pkg'.size = pkg.size ∧ pkg'.file = pkg.file by
    obtain ⟨pkg', printed, ran, known, kept, values, sizeKept, file⟩ := this
    exact ⟨pkg', printed, ran, known, kept, values, by rw [if_neg size, sizeKept], file⟩
  rw [Package.field, if_neg size]
  generalize named : lower key = keyword at *
  have differs : Known keyword → ∀ name, ¬ Sets key name → name ≠ keyword := by
    rintro known name other rfl
    exact other ⟨known, Or.inl named⟩
  have differs' : keyword = "md5".toList → ∀ name, ¬ Sets key name → name ≠ "md5sum".toList := by
    rintro md5 name other rfl
    exact other ⟨Or.inr rfl, Or.inr ⟨named.trans md5, rfl⟩⟩
  by_cases md5sum : keyword = "md5sum".toList
  · subst md5sum
    refine ⟨_, _, if_pos rfl, fun _ => attr_md5sum _, fun name other => ?_, fun name => ?_, rfl, rfl⟩
    · have apart := differs (Or.inr rfl) name other
      rw [attr_of_ne apart, attr_of_ne apart]
    · by_cases same : name = "md5sum".toList
      · subst same
        exact Or.inr (attr_md5sum _)
      · exact Or.inl (by rw [attr_of_ne same, attr_of_ne same])
  rw [if_neg md5sum]
  by_cases present : pkg.has_key keyword = true
  · rw [if_pos present]
    by_cases md5 : keyword = "md5".toList
    · subst md5
      refine ⟨_, _, rfl, fun known => absurd rfl known.not_md5, fun name other => ?_,
        fun name => ?_, ?_, ?_⟩
      · rw [set_md5, attr_of_ne (differs' rfl name other), attr_of_ne (differs' rfl name other)]
      · by_cases same : name = "md5sum".toList
        · subst same
          exact Or.inr (by rw [set_md5, attr_md5sum])
        · exact Or.inl (by rw [set_md5, attr_of_ne same, attr_of_ne same])
      · rw [set_md5]
      · rw [set_md5]
    · have known : Known keyword := by
        simp only [Package.has_key, Bool.or_eq_true, decide_eq_true_eq, Bool.and_eq_true,
          beq_iff_eq] at present
        exact Or.inl (present.resolve_right fun both => md5 both.1)
      refine ⟨_, _, rfl, fun _ => ?_, fun name other => ?_, fun name => ?_, ?_, ?_⟩
      · rw [attr_of_ne md5sum, set_of_ne md5]
        exact Function.update_self ..
      · have kept : Function.update pkg.dict keyword (some value) name = pkg.dict name :=
          Function.update_of_ne (differs known name other) ..
        simp only [set_of_ne md5, Package.attr, kept]
      · rw [set_of_ne md5]
        by_cases same : name = keyword
        · subst same
          rw [attr_of_ne md5sum]
          exact Or.inr (Function.update_self ..)
        · have kept : Function.update pkg.dict keyword (some value) name = pkg.dict name :=
            Function.update_of_ne same ..
          simp only [Package.attr, kept, true_or]
      · rw [set_of_ne md5]
      · rw [set_of_ne md5]
  · refine ⟨_, _, if_neg present, fun known => ?_, fun _ _ => rfl, fun _ => Or.inl rfl, rfl, rfl⟩
    rcases known with known | known
    · exact absurd (by simp [Package.has_key, known]) present
    · exact absurd known md5sum

/-- An attribute has the value of the field that sets it, or its first one. -/
structure Loaded (pkg pkg' : Package) (fields : Metadata) : Prop where
  set : ∀ field ∈ fields, Known (lower field.1) →
    (∀ other ∈ fields, Sets other.1 (lower field.1) → other = field) →
    pkg'.attr (lower field.1) = some (unfolded field.2)
  kept : ∀ name, (∀ field ∈ fields, ¬ Sets field.1 name) → pkg'.attr name = pkg.attr name
  values : ∀ name, pkg'.attr name = pkg.attr name ∨
    ∃ field ∈ fields, pkg'.attr name = some (unfolded field.2)
  size : ∀ field ∈ fields, lower field.1 = "size".toList →
    (∀ other ∈ fields, lower other.1 = "size".toList → other = field) →
    pkg'.size = int (unfolded field.2)
  sizeKept : (∀ field ∈ fields, lower field.1 ≠ "size".toList) → pkg'.size = pkg.size
  file : pkg'.file = pkg.file

theorem fields_loaded {fields : Metadata}
    (numeric : ∀ field ∈ fields, Numeric field.1 (unfolded field.2)) (pkg : Package) :
    ∃ pkg' printed, pkg.fields fields = some (pkg', printed) ∧ Loaded pkg pkg' fields := by
  induction fields generalizing pkg with
  | nil =>
      have none : ∀ field, field ∉ ([] : Metadata) := fun _ => List.not_mem_nil
      exact ⟨pkg, [], rfl, ⟨fun _ member => absurd member (none _), fun _ _ => rfl,
        fun _ => Or.inl rfl, fun _ member => absurd member (none _), fun _ => rfl, rfl⟩⟩
  | cons field rest ih =>
      obtain ⟨middle, printed, first, updated⟩ := field_updated pkg (numeric field (by simp))
      obtain ⟨pkg', more, ran, loaded⟩ :=
        ih (fun other member => numeric other (by simp [member])) middle
      refine ⟨pkg', printed ++ more, by simp [Package.fields, first, ran], ?_⟩
      refine ⟨?_, ?_, ?_, ?_, ?_, loaded.file.trans updated.file⟩
      · intro target member known unique
        by_cases later : target ∈ rest
        · exact loaded.set target later known fun other inRest => unique other (by simp [inRest])
        · obtain rfl : target = field := by simpa [later] using member
          rw [loaded.kept _ fun other inRest sets => ?_, updated.known known]
          obtain rfl := unique other (by simp [inRest]) sets
          exact later inRest
      · intro name unset
        rw [loaded.kept name fun other member => unset other (by simp [member]),
          updated.kept name (unset field (by simp))]
      · intro name
        rcases loaded.values name with same | ⟨other, member, same⟩
        · rcases updated.values name with before | set
          · exact Or.inl (same.trans before)
          · exact Or.inr ⟨field, by simp, same.trans set⟩
        · exact Or.inr ⟨other, by simp [member], same⟩
      · intro target member size unique
        by_cases later : target ∈ rest
        · exact loaded.size target later size fun other inRest => unique other (by simp [inRest])
        · obtain rfl : target = field := by simpa [later] using member
          rw [loaded.sizeKept fun other inRest sizeToo => ?_, updated.size, if_pos size]
          obtain rfl := unique other (by simp [inRest]) sizeToo
          exact later inRest
      · intro none
        rw [loaded.sizeKept fun other member => none other (by simp [member]), updated.size,
          if_neg (none field (by simp))]

theorem field_printed {pkg pkg' : Package} {name value printed : Text}
    (ran : pkg.field name value = some (pkg', printed)) (noMd5 : name ≠ "md5".toList)
    (noSize : name ≠ "size".toList) : printed = [] ↔ Known name := by
  rw [Package.field, if_neg noSize] at ran
  by_cases md5sum : name = "md5sum".toList
  · rw [if_pos md5sum] at ran
    cases ran
    exact iff_of_true rfl (Or.inr md5sum)
  rw [if_neg md5sum] at ran
  have key : pkg.has_key name = true ↔ Known name := by
    simp only [Package.has_key, Bool.or_eq_true, decide_eq_true_eq, Bool.and_eq_true, beq_iff_eq]
    exact or_congr Iff.rfl (iff_of_false (fun both => noMd5 both.1) md5sum)
  rw [← key]
  by_cases present : pkg.has_key name = true
  · rw [if_pos present] at ran
    cases ran
    exact iff_of_true rfl present
  · rw [if_neg present] at ran
    cases ran
    exact iff_of_false (by simp) present

theorem fields_printed {fields : Metadata} {pkg pkg' : Package} {printed : Text}
    (ran : pkg.fields fields = some (pkg', printed))
    (noMd5 : ∀ field ∈ fields, lower field.1 ≠ "md5".toList)
    (noSize : ∀ field ∈ fields, lower field.1 ≠ "size".toList) :
    printed = [] ↔ ∀ field ∈ fields, Known (lower field.1) := by
  induction fields generalizing pkg pkg' printed with
  | nil =>
      cases ran
      simp
  | cons field rest ih =>
      obtain ⟨⟨middle, first⟩, ranFirst, ran⟩ := Option.bind_eq_some_iff.mp ran
      obtain ⟨⟨final, more⟩, ranRest, shown⟩ := Option.bind_eq_some_iff.mp ran
      obtain ⟨-, rfl⟩ : _ ∧ first ++ more = printed := by simpa using shown
      have head := field_printed ranFirst (noMd5 field (by simp)) (noSize field (by simp))
      have tail := ih ranRest (fun other member => noMd5 other (by simp [member]))
        fun other member => noSize other (by simp [member])
      rw [List.append_eq_nil_iff, head, tail, List.forall_mem_cons]

end BotBrew.Opkg
