import BotBrew.Opkg.ArchConf

/-! When the `postinst` registers each value with one line of its own. -/

set_option autoImplicit false

namespace BotBrew.Opkg.ArchConf

open Text (fields Closed isSpace)

variable {option : Text → Bool}

/-- What the script appends: a word without blanks and its priority. -/
structure Valid (entry : Text × Text) : Prop where
  value : ∀ char ∈ entry.1, isSpace char = false
  priority : ∀ char ∈ entry.2, isSpace char = false
  given : entry.2 ≠ []

theorem Valid.free {entry : Text × Text} (valid : Valid entry) :
    '\n' ∉ archLine entry.1 entry.2 := by
  intro member
  have newline : isSpace '\n' = true := by decide
  simp only [archLine, List.append_assoc, List.mem_append, List.mem_cons] at member
  obtain arch | value | tab | priority := member
  · exact absurd arch (by decide)
  · rw [valid.value _ value] at newline
    cases newline
  · cases tab
  · rw [valid.priority _ priority] at newline
    cases newline

theorem Valid.joinedFields {entry : Text × Text} (valid : Valid entry) (before : Text) :
    fields (before ++ archLine entry.1 entry.2) =
      fields (before ++ "arch".toList) ++ (fields entry.1 ++ [entry.2]) := by
  have tab : isSpace '\t' = true := by decide
  have shape : before ++ archLine entry.1 entry.2 =
      (before ++ "arch".toList) ++ '\t' :: (entry.1 ++ '\t' :: entry.2) := by
    unfold archLine
    simp
  rw [shape, Text.fields_append tab, Text.fields_append tab,
    Text.fields_word valid.given valid.priority]

theorem Valid.lineFields {entry : Text × Text} (valid : Valid entry) :
    fields (archLine entry.1 entry.2) = "arch".toList :: (fields entry.1 ++ [entry.2]) := by
  have whole := valid.joinedFields []
  have arch : Text.fields "arch".toList = ["arch".toList] :=
    Text.fields_word (by decide) (by decide)
  rw [List.nil_append, List.nil_append, arch] at whole
  exact whole

theorem isArchLine_iff (value line : Text) :
    isArchLine value line = true ↔ ∃ priority, fields line = ["arch".toList, value, priority] := by
  unfold isArchLine
  constructor
  · intro found
    split at found
    · rename_i word name priority shape
      obtain ⟨arch, same⟩ := Bool.and_eq_true_iff.mp found
      exact ⟨priority, by rw [shape, eq_of_beq arch, eq_of_beq same]⟩
    · cases found
  · rintro ⟨priority, shape⟩
    rw [shape]
    simp

theorem infix_of_isArchLine {value line : Text} (arch : isArchLine value line = true) :
    value <:+: line := by
  obtain ⟨priority, shape⟩ := (isArchLine_iff value line).mp arch
  exact Text.mem_fields_infix (by rw [shape]; simp)

theorem Valid.ownLine {entry : Text × Text} (valid : Valid entry) (nonempty : entry.1 ≠ []) :
    isArchLine entry.1 (archLine entry.1 entry.2) = true := by
  rw [isArchLine_iff, valid.lineFields, Text.fields_word nonempty valid.value]
  exact ⟨entry.2, rfl⟩

/-- What is appended to a line makes it a line for no other value. -/
theorem Valid.otherLine {entry : Text × Text} (valid : Valid entry) {value : Text}
    (different : value ≠ entry.1) (nonempty : entry.1 ≠ []) (before : Text) :
    isArchLine value (before ++ archLine entry.1 entry.2) = false := by
  rw [Bool.eq_false_iff]
  intro arch
  obtain ⟨priority, shape⟩ := (isArchLine_iff _ _).mp arch
  rw [valid.joinedFields, Text.fields_word nonempty valid.value] at shape
  cases first : Text.fields (before ++ "arch".toList) with
  | nil =>
      rw [first] at shape
      have length := congrArg List.length shape
      simp at length
  | cons word rest =>
      rw [first] at shape
      cases rest with
      | nil =>
          simp only [List.singleton_append, List.cons.injEq] at shape
          exact different shape.2.1.symm
      | cons next rest =>
          have length := congrArg List.length shape
          simp at length

theorem Valid.emptyLine {entry : Text × Text} (valid : Valid entry) {value : Text}
    (empty : entry.1 = []) : isArchLine value (archLine entry.1 entry.2) = false := by
  have none : Text.fields entry.1 = [] := by
    rw [empty]
    rfl
  rw [Bool.eq_false_iff]
  intro arch
  obtain ⟨priority, shape⟩ := (isArchLine_iff _ _).mp arch
  rw [valid.lineFields, none] at shape
  have length := congrArg List.length shape
  simp at length

theorem archLines_eq_nil {value conf : Text} :
    archLines value conf = [] ↔ ∀ line ∈ Text.lines conf, isArchLine value line = false := by
  unfold archLines
  rw [List.filter_eq_nil_iff]
  simp

theorem grep_iff {value : Text} (plain : isOption value = false) (conf : Text) :
    grep option value conf = true ↔ ∃ line ∈ Text.lines conf, value <:+: line := by
  unfold grep
  rw [plain]
  simp

theorem grep_option {value : Text} (given : isOption value = true) (conf : Text) :
    grep option value conf = option value := by
  unfold grep
  rw [if_pos given]

theorem plain_of_missing {value conf : Text} (answers : isOption value = true → option value = true)
    (missing : grep option value conf = false) : isOption value = false := by
  cases given : isOption value with
  | false => rfl
  | true =>
      rw [grep_option given, answers given] at missing
      cases missing

theorem missing_archLines {value conf : Text} (plain : isOption value = false)
    (missing : grep option value conf = false) : archLines value conf = [] := by
  rw [archLines_eq_nil]
  intro line member
  rw [Bool.eq_false_iff]
  intro arch
  have found : grep option value conf = true := (grep_iff plain conf).mpr
    ⟨line, member, infix_of_isArchLine arch⟩
  rw [missing] at found
  cases found

theorem missing_empty {conf : Text} (missing : grep option [] conf = false) : Text.lines conf = [] := by
  cases shape : Text.lines conf with
  | nil => rfl
  | cons line rest =>
      have found : grep option [] conf = true := (grep_iff rfl conf).mpr
        ⟨line, by rw [shape]; simp, List.nil_infix⟩
      rw [missing] at found
      cases found

theorem register_found {conf : Text} {entry : Text × Text} (found : grep option entry.1 conf = true) :
    register option conf entry = conf := if_pos found

theorem register_missing {conf : Text} {entry : Text × Text}
    (missing : grep option entry.1 conf = false) :
    register option conf entry = conf ++ (archLine entry.1 entry.2 ++ ['\n']) := by
  unfold register
  rw [missing]
  rfl

theorem closed_newline (text : Text) : Closed (text ++ ['\n']) := by
  simp [Closed]

theorem closed_register {conf : Text} (closed : Closed conf) (entry : Text × Text) :
    Closed (register option conf entry) := by
  unfold register
  split
  · exact closed
  · rw [← List.append_assoc]
    exact closed_newline _

theorem lines_register {conf : Text} {entry : Text × Text} (valid : Valid entry)
    (closed : Closed conf) (missing : grep option entry.1 conf = false) :
    Text.lines (register option conf entry) = Text.lines conf ++ [archLine entry.1 entry.2] := by
  rw [register_missing missing, Text.lines_append_of_closed closed valid.free]

theorem register_line {conf : Text} {entry : Text × Text} (valid : Valid entry) {value : Text}
    (held : ∃ line ∈ Text.lines conf, value <:+: line) :
    ∃ line ∈ Text.lines (register option conf entry), value <:+: line := by
  cases grepped : grep option entry.1 conf with
  | true => rwa [register_found grepped]
  | false =>
      obtain ⟨line, member, inside⟩ := held
      by_cases closed : Closed conf
      · rw [lines_register valid closed grepped]
        exact ⟨line, List.mem_append_left _ member, inside⟩
      · obtain ⟨before, last, nonempty, shape, joined⟩ :=
          Text.lines_append_of_not_closed closed valid.free
        rw [register_missing grepped, joined]
        rw [shape] at member
        obtain earlier | final := List.mem_append.mp member
        · exact ⟨line, List.mem_append_left _ earlier, inside⟩
        · rw [List.mem_singleton.mp final] at inside
          exact ⟨_, List.mem_append_right _ (List.mem_singleton.mpr rfl),
            inside.trans (List.prefix_append _ _).isInfix⟩

theorem grep_register {conf : Text} {entry : Text × Text} (valid : Valid entry) {value : Text}
    (found : grep option value conf = true) :
    grep option value (register option conf entry) = true := by
  cases given : isOption value with
  | true => rwa [grep_option given] at found ⊢
  | false =>
      rw [grep_iff given] at found ⊢
      exact register_line valid found

theorem grep_registerAll {entries : List (Text × Text)} (valid : ∀ entry ∈ entries, Valid entry)
    {value conf : Text} (found : grep option value conf = true) :
    grep option value (registerAll option conf entries) = true := by
  induction entries generalizing conf with
  | nil => exact found
  | cons entry rest ih =>
      exact ih (fun other member => valid other (List.mem_cons_of_mem _ member))
        (grep_register (valid entry (by simp)) found)

theorem grep_self {conf : Text} {entry : Text × Text} (valid : Valid entry)
    (plain : isOption entry.1 = false) : grep option entry.1 (register option conf entry) = true := by
  cases grepped : grep option entry.1 conf with
  | true => rwa [register_found grepped]
  | false =>
      have inLine : entry.1 <:+: archLine entry.1 entry.2 := by
        refine ⟨"arch\t".toList, '\t' :: entry.2, ?_⟩
        simp [archLine]
      rw [grep_iff plain]
      by_cases closed : Closed conf
      · rw [lines_register valid closed grepped]
        exact ⟨_, List.mem_append_right _ (List.mem_singleton.mpr rfl), inLine⟩
      · obtain ⟨before, last, nonempty, shape, joined⟩ :=
          Text.lines_append_of_not_closed closed valid.free
        rw [register_missing grepped, joined]
        exact ⟨_, List.mem_append_right _ (List.mem_singleton.mpr rfl),
          inLine.trans (List.suffix_append _ _).isInfix⟩

theorem archLines_register {conf : Text} {entry : Text × Text} (valid : Valid entry)
    (closed : Closed conf) {value : Text} (different : value ≠ entry.1) :
    archLines value (register option conf entry) = archLines value conf := by
  cases grepped : grep option entry.1 conf with
  | true => rw [register_found grepped]
  | false =>
      have noLine : isArchLine value (archLine entry.1 entry.2) = false := by
        by_cases empty : entry.1 = []
        · exact valid.emptyLine empty
        · exact valid.otherLine different empty []
      unfold archLines
      rw [lines_register valid closed grepped, List.filter_append]
      simp [noLine]

theorem archLines_register_self {conf : Text} {entry : Text × Text} (valid : Valid entry)
    (closed : Closed conf) (nonempty : entry.1 ≠ []) (plain : isOption entry.1 = false)
    (missing : grep option entry.1 conf = false) :
    archLines entry.1 (register option conf entry) = [archLine entry.1 entry.2] := by
  have none := missing_archLines plain missing
  unfold archLines at none ⊢
  rw [lines_register valid closed missing, List.filter_append, none]
  simp [valid.ownLine nonempty]

/-- A value that is found without a line of its own never gets one. -/
theorem archLines_register_nil {conf : Text} {entry : Text × Text} (valid : Valid entry)
    {value : Text} (found : grep option value conf = true) (none : archLines value conf = []) :
    archLines value (register option conf entry) = [] := by
  by_cases same : value = entry.1
  · rwa [register_found (same ▸ found)]
  · by_cases closed : Closed conf
    · rwa [archLines_register valid closed same]
    · cases grepped : grep option entry.1 conf with
      | true => rwa [register_found grepped]
      | false =>
          obtain ⟨before, last, nonempty, shape, joined⟩ :=
            Text.lines_append_of_not_closed closed valid.free
          have given : entry.1 ≠ [] := by
            intro empty
            rw [empty] at grepped
            have noLines := missing_empty grepped
            rw [shape] at noLines
            simp at noLines
          rw [archLines_eq_nil] at none ⊢
          rw [register_missing grepped, joined]
          intro line member
          obtain earlier | final := List.mem_append.mp member
          · exact none line (by rw [shape]; exact List.mem_append_left _ earlier)
          · rw [List.mem_singleton.mp final]
            exact valid.otherLine same given last

theorem archLines_registerAll_nil {entries : List (Text × Text)}
    (valid : ∀ entry ∈ entries, Valid entry) {value conf : Text}
    (found : grep option value conf = true) (none : archLines value conf = []) :
    archLines value (registerAll option conf entries) = [] := by
  induction entries generalizing conf with
  | nil => exact none
  | cons entry rest ih =>
      have first : Valid entry := valid entry (by simp)
      exact ih (fun other member => valid other (List.mem_cons_of_mem _ member))
        (grep_register first found) (archLines_register_nil first found none)

/-- Lines are only added to a closed file, each for a value that was not found. -/
theorem lines_registerAll {entries : List (Text × Text)} (valid : ∀ entry ∈ entries, Valid entry)
    {conf : Text} (closed : Closed conf) :
    ∃ added, Text.lines (registerAll option conf entries) = Text.lines conf ++ added ∧
      ∀ line ∈ added, ∃ entry ∈ entries, line = archLine entry.1 entry.2 ∧
        grep option entry.1 conf = false := by
  induction entries generalizing conf with
  | nil => exact ⟨[], by rw [List.append_nil]; rfl, by simp⟩
  | cons entry rest ih =>
      have first : Valid entry := valid entry (by simp)
      obtain ⟨added, shape, justified⟩ :=
        ih (fun other member => valid other (List.mem_cons_of_mem _ member))
          (closed_register closed entry)
      have tail : ∀ line ∈ added, ∃ other ∈ entry :: rest, line = archLine other.1 other.2 ∧
          grep option other.1 conf = false := by
        intro line member
        obtain ⟨other, inside, same, missing⟩ := justified line member
        refine ⟨other, List.mem_cons_of_mem _ inside, same, ?_⟩
        cases grepped : grep option other.1 conf with
        | false => rfl
        | true =>
            rw [grep_register first grepped] at missing
            cases missing
      cases grepped : grep option entry.1 conf with
      | true =>
          refine ⟨added, ?_, tail⟩
          rw [register_found grepped] at shape
          show Text.lines (registerAll option (register option conf entry) rest) = _
          rw [register_found grepped, shape]
      | false =>
          refine ⟨archLine entry.1 entry.2 :: added, ?_, ?_⟩
          · show Text.lines (registerAll option (register option conf entry) rest) = _
            rw [shape, lines_register first closed grepped, List.append_assoc]
            rfl
          · intro line member
            obtain rfl | member := List.mem_cons.mp member
            · exact ⟨entry, by simp, rfl, grepped⟩
            · exact tail line member

/-- A value with a line of its own is found, unless it is an option. -/
theorem Separate.archLines {entries : List (Text × Text)} (valid : ∀ entry ∈ entries, Valid entry)
    {conf : Text} (separate : Separate option conf entries) {value : Text}
    (own : archLines value conf ≠ []) :
    archLines value (registerAll option conf entries) = archLines value conf := by
  induction entries generalizing conf with
  | nil => rfl
  | cons entry rest ih =>
      have first : Valid entry := valid entry (by simp)
      obtain ⟨here, later⟩ := separate
      have same : ArchConf.archLines value (register option conf entry) =
          ArchConf.archLines value conf := by
        cases grepped : grep option entry.1 conf with
        | true => rw [register_found grepped]
        | false =>
            rw [grepped] at here
            obtain ⟨plain, closed⟩ := here
            apply archLines_register first closed
            rintro rfl
            exact own (missing_archLines plain grepped)
      have final := ih (fun other member => valid other (List.mem_cons_of_mem _ member)) later
        (by rwa [same])
      exact final.trans same

theorem Separate.one {entries : List (Text × Text)} (valid : ∀ entry ∈ entries, Valid entry)
    {conf : Text} (separate : Separate option conf entries) :
    ∀ entry ∈ entries, entry.1 ≠ [] → (ArchConf.archLines entry.1 conf).length ≤ 1 →
      (ArchConf.archLines entry.1 (registerAll option conf entries)).length = 1 := by
  induction entries generalizing conf with
  | nil => simp
  | cons entry rest ih =>
      have first : Valid entry := valid entry (by simp)
      have tail : ∀ other ∈ rest, Valid other := fun other member =>
        valid other (List.mem_cons_of_mem _ member)
      obtain ⟨here, later⟩ := separate
      have own : entry.1 ≠ [] → (ArchConf.archLines entry.1 conf).length ≤ 1 →
          (ArchConf.archLines entry.1 (registerAll option conf (entry :: rest))).length = 1 := by
        intro nonempty atMost
        show (ArchConf.archLines entry.1
          (registerAll option (register option conf entry) rest)).length = 1
        cases grepped : grep option entry.1 conf with
        | true =>
            rw [grepped] at here
            have held := here nonempty
            rw [register_found grepped] at later ⊢
            rw [later.archLines tail held]
            exact Nat.le_antisymm atMost (List.length_pos_iff.mpr held)
        | false =>
            rw [grepped] at here
            have single := archLines_register_self first here.2 nonempty here.1 grepped
            rw [later.archLines tail (by rw [single]; simp), single]
            rfl
      intro other member nonempty atMost
      obtain rfl | inside := List.mem_cons.mp member
      · exact own nonempty atMost
      · by_cases same : other.1 = entry.1
        · rw [same] at nonempty atMost ⊢
          exact own nonempty atMost
        · apply ih tail later other inside nonempty
          cases grepped : grep option entry.1 conf with
          | true => rwa [register_found grepped]
          | false =>
              rw [grepped] at here
              rwa [archLines_register first here.2 same]

theorem Separate.kept {entries : List (Text × Text)} (valid : ∀ entry ∈ entries, Valid entry)
    {conf : Text} (separate : Separate option conf entries) :
    Text.lines conf <+: Text.lines (registerAll option conf entries) := by
  induction entries generalizing conf with
  | nil => exact List.prefix_rfl
  | cons entry rest ih =>
      have first : Valid entry := valid entry (by simp)
      obtain ⟨here, later⟩ := separate
      apply List.IsPrefix.trans _ (ih (fun other member =>
        valid other (List.mem_cons_of_mem _ member)) later)
      cases grepped : grep option entry.1 conf with
      | true =>
          simp only [register_found grepped, List.prefix_rfl]
      | false =>
          rw [grepped] at here
          rw [lines_register first here.2 grepped]
          exact List.prefix_append _ _

theorem Separate.found {entries : List (Text × Text)} (valid : ∀ entry ∈ entries, Valid entry)
    {conf : Text} (separate : Separate option conf entries) :
    ∀ entry ∈ entries, grep option entry.1 (registerAll option conf entries) = true := by
  induction entries generalizing conf with
  | nil => simp
  | cons entry rest ih =>
      have tail : ∀ other ∈ rest, Valid other := fun other member =>
        valid other (List.mem_cons_of_mem _ member)
      obtain ⟨here, later⟩ := separate
      intro other member
      obtain rfl | inside := List.mem_cons.mp member
      · apply grep_registerAll tail
        cases grepped : grep option other.1 conf with
        | true => rwa [register_found grepped]
        | false =>
            rw [grepped] at here
            exact grep_self (valid other (by simp)) here.1
      · exact ih tail later other inside

theorem registerAll_found {entries : List (Text × Text)} {conf : Text}
    (found : ∀ entry ∈ entries, grep option entry.1 conf = true) :
    registerAll option conf entries = conf := by
  induction entries with
  | nil => rfl
  | cons entry rest ih =>
      show registerAll option (register option conf entry) rest = conf
      rw [register_found (found entry (by simp))]
      exact ih fun other member => found other (List.mem_cons_of_mem _ member)

theorem length_registerAll (option : Text → Bool) (entries : List (Text × Text)) (conf : Text) :
    conf.length ≤ (registerAll option conf entries).length := by
  induction entries generalizing conf with
  | nil => exact Nat.le_refl _
  | cons entry rest ih =>
      apply Nat.le_trans _ (ih (register option conf entry))
      unfold register
      split
      · exact Nat.le_refl _
      · simp

/-- A run that changes nothing finds every value. -/
theorem found_of_registerAll {entries : List (Text × Text)} {conf : Text}
    (same : registerAll option conf entries = conf) :
    ∀ entry ∈ entries, grep option entry.1 conf = true := by
  induction entries with
  | nil => simp
  | cons entry rest ih =>
      cases grepped : grep option entry.1 conf with
      | false =>
          have longer := length_registerAll option rest (register option conf entry)
          have whole : registerAll option (register option conf entry) rest = conf := same
          rw [whole, register_missing grepped] at longer
          simp only [List.length_append, List.length_singleton] at longer
          omega
      | true =>
          have whole : registerAll option (register option conf entry) rest = conf := same
          rw [register_found grepped] at whole
          intro other member
          obtain rfl | inside := List.mem_cons.mp member
          · exact grepped
          · exact ih whole other inside

/-- A line that is appended to an unfinished last line is the end of that line. -/
theorem lines_lost {entry : Text × Text} {rest : List (Text × Text)}
    (valid : ∀ other ∈ entry :: rest, Valid other)
    (answers : ∀ other ∈ entry :: rest, isOption other.1 = true → option other.1 = true)
    {conf : Text} (missing : grep option entry.1 conf = false) (unclosed : ¬ Closed conf) :
    ¬ (Text.lines conf).Sublist (Text.lines (registerAll option conf (entry :: rest))) := by
  obtain ⟨before, last, nonempty, shape, joined⟩ :=
    Text.lines_append_of_not_closed unclosed (valid entry (by simp)).free
  have written : register option conf entry = conf ++ (archLine entry.1 entry.2 ++ ['\n']) :=
    register_missing missing
  have closed : Closed (register option conf entry) := by
    rw [written, ← List.append_assoc]
    exact closed_newline _
  obtain ⟨added, final, justified⟩ := lines_registerAll
    (fun other member => valid other (List.mem_cons_of_mem _ member)) closed
  intro kept
  have whole : Text.lines (registerAll option conf (entry :: rest)) =
      before ++ ((last ++ archLine entry.1 entry.2) :: added) := by
    show Text.lines (registerAll option (register option conf entry) rest) = _
    rw [final, written, joined, List.append_assoc]
    rfl
  rw [whole, shape, List.append_sublist_append_left, List.singleton_sublist] at kept
  obtain same | later := List.mem_cons.mp kept
  · have length := congrArg List.length same
    simp [archLine] at length
  · obtain ⟨other, member, rfl, notFound⟩ := justified _ later
    have plain := plain_of_missing (answers other (List.mem_cons_of_mem _ member)) notFound
    have found : grep option other.1 (register option conf entry) = true := by
      rw [grep_iff plain, written, joined]
      refine ⟨_, List.mem_append_right _ (List.mem_singleton.mpr rfl), ?_⟩
      refine ⟨"arch\t".toList, '\t' :: other.2 ++ archLine entry.1 entry.2, ?_⟩
      simp [archLine]
    rw [found] at notFound
    cases notFound

theorem separate_of_registers {entries : List (Text × Text)}
    (valid : ∀ entry ∈ entries, Valid entry)
    (answers : ∀ entry ∈ entries, isOption entry.1 = true → option entry.1 = true) {conf : Text}
    (one : ∀ entry ∈ entries, entry.1 ≠ [] → (archLines entry.1 conf).length ≤ 1 →
      (archLines entry.1 (registerAll option conf entries)).length = 1)
    (kept : (Text.lines conf).Sublist (Text.lines (registerAll option conf entries))) :
    Separate option conf entries := by
  induction entries generalizing conf with
  | nil => trivial
  | cons entry rest ih =>
      have first : Valid entry := valid entry (by simp)
      have tail : ∀ other ∈ rest, Valid other := fun other member =>
        valid other (List.mem_cons_of_mem _ member)
      have tailAnswers := fun other member => answers other (List.mem_cons_of_mem entry member)
      unfold Separate
      cases grepped : grep option entry.1 conf with
      | true =>
          constructor
          · rw [if_pos rfl]
            intro nonempty none
            have final := one entry (by simp) nonempty (by rw [none]; exact Nat.zero_le 1)
            rw [archLines_registerAll_nil valid grepped none] at final
            cases final
          · have whole : registerAll option conf (entry :: rest) =
                registerAll option (register option conf entry) rest := rfl
            rw [whole, register_found grepped] at one kept
            rw [register_found grepped]
            exact ih tail tailAnswers
              (fun other member => one other (List.mem_cons_of_mem _ member)) kept
      | false =>
          have plain := plain_of_missing (answers entry (by simp)) grepped
          have closed : Closed conf := by
            by_contra unclosed
            exact lines_lost valid answers grepped unclosed kept
          refine ⟨by rw [if_neg Bool.false_ne_true]; exact ⟨plain, closed⟩, ?_⟩
          apply ih tail tailAnswers
          · intro other member nonempty atMost
            by_cases same : other.1 = entry.1
            · rw [same] at nonempty ⊢
              have none := missing_archLines plain grepped
              exact one entry (by simp) nonempty (by rw [none]; exact Nat.zero_le 1)
            · rw [archLines_register first closed same] at atMost
              exact one other (List.mem_cons_of_mem _ member) nonempty atMost
          · have still : Closed (register option conf entry) := closed_register closed entry
            obtain ⟨added, final, -⟩ := lines_registerAll tail still
            rw [final]
            exact List.sublist_append_left _ _

theorem isSpace_toLower {char : Char} (visible : isSpace char = false) :
    isSpace char.toLower = false := by
  have isUpper : char.isUpper = decide ('A'.val ≤ char.val ∧ char.val ≤ 'Z'.val) := rfl
  by_cases upper : char.isUpper
  case neg =>
    have same : char.toLower = char := by
      unfold Char.toLower
      rw [dif_neg]
      simpa [isUpper] using upper
    rwa [same]
  case pos =>
    have bounds : 65 ≤ char.val.toNat ∧ char.val.toNat ≤ 90 := by
      simpa [isUpper, UInt32.le_iff_toNat_le] using upper
    have value : char.toLower.val.toNat = char.val.toNat + 32 := by
      unfold Char.toLower
      rw [dif_pos (by simpa [isUpper] using upper)]
      have offset : ('a'.val - 'A'.val).toNat = 32 := by decide
      rw [UInt32.toNat_add, offset]
      omega
    have different : ∀ blank : Char, blank.val.toNat ≤ 32 → char.toLower ≠ blank := by
      rintro blank small rfl
      omega
    simp [isSpace, different]

theorem DeviceProperties.valid (props : DeviceProperties) :
    ∀ entry ∈ props.entries, Valid entry := by
  have visible : ∀ value ∈ [props.abi2, props.abi, props.device], ∀ char ∈ lower value,
      isSpace char = false := by
    intro value member char inside
    obtain ⟨own, given, rfl⟩ := List.mem_map.mp inside
    exact isSpace_toLower (props.visible value member own given)
  have priorities : (∀ char ∈ "100".toList, isSpace char = false) ∧
      (∀ char ∈ "110".toList, isSpace char = false) ∧
        ∀ char ∈ "120".toList, isSpace char = false := by decide
  intro entry member
  simp only [DeviceProperties.entries, List.mem_cons, List.not_mem_nil, or_false] at member
  obtain rfl | rfl | rfl := member
  · exact ⟨visible _ (by simp), priorities.1, by simp⟩
  · exact ⟨visible _ (by simp), priorities.2.1, by simp⟩
  · exact ⟨visible _ (by simp), priorities.2.2, by simp⟩

theorem packaged_fields :
    (Text.lines packaged).map fields =
      [["arch", "all", "10"], ["arch", "any", "20"], ["arch", "noarch", "30"]].map
        (List.map String.toList) := by
  decide

theorem packaged_one (value : Text) : (archLines value packaged).length ≤ 1 := by
  have names : ((Text.lines packaged).map fields).Pairwise fun first second => first[1]? ≠ second[1]? := by
    rw [packaged_fields]
    decide
  have apart : (Text.lines packaged).Pairwise fun first second =>
      ¬ (isArchLine value first = true ∧ isArchLine value second = true) := by
    apply (List.pairwise_map.mp names).imp
    rintro first second different ⟨arch, arch'⟩
    obtain ⟨priority, shape⟩ := (isArchLine_iff _ _).mp arch
    obtain ⟨priority', shape'⟩ := (isArchLine_iff _ _).mp arch'
    apply different
    rw [shape, shape']
    rfl
  have none : (archLines value packaged).Pairwise fun _ _ => False := by
    unfold archLines
    rw [List.pairwise_filter]
    exact apart.imp fun never first second => never ⟨first, second⟩
  cases shape : archLines value packaged with
  | nil => exact Nat.zero_le 1
  | cons first rest =>
      cases rest with
      | nil => exact Nat.le_refl 1
      | cons second rest =>
          rw [shape] at none
          exact False.elim ((List.pairwise_cons.mp none).1 second (by simp))

theorem packaged_closed : Closed packaged := by decide

theorem postinst_registers (option : Text → Bool) (props : DeviceProperties)
    (conf : Option Text) :
    Registers option props conf ↔ Separate option (conf.getD packaged) props.entries := by
  have valid := props.valid
  constructor
  · rintro ⟨one, kept, again⟩
    have found := found_of_registerAll again
    have answers : ∀ entry ∈ props.entries, isOption entry.1 = true → option entry.1 = true := by
      intro entry member given
      have answered := found entry member
      rwa [grep_option given] at answered
    cases conf with
    | none =>
        apply separate_of_registers valid answers
        · intro entry member nonempty atMost
          exact one entry member nonempty (Nat.zero_le 1)
        · obtain ⟨added, final, -⟩ := lines_registerAll valid packaged_closed
          rw [Option.getD_none, final]
          exact List.sublist_append_left _ _
    | some conf => exact separate_of_registers valid answers one kept
  · intro separate
    have found := separate.found valid
    constructor
    · intro entry member nonempty atMost
      apply separate.one valid entry member nonempty
      cases conf with
      | none => exact packaged_one entry.1
      | some conf => exact atMost
    · cases conf with
      | none => exact List.nil_sublist _
      | some conf => exact (separate.kept valid).sublist
    · exact registerAll_found found

/-- `armeabi` is found in the line of `armeabi-v7a`. -/
def overlapping : DeviceProperties where
  abi2 := "armeabi-v7a".toList
  abi := "armeabi".toList
  device := []
  visible := by decide

theorem postinst_overlap : ¬ Registers (fun _ => false) overlapping none := by
  intro registers
  have final := registers.one ("armeabi".toList, "110".toList) (by decide) (by decide) (by decide)
  exact absurd final (by decide +kernel)

end BotBrew.Opkg.ArchConf
