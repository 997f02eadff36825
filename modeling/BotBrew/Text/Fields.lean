import BotBrew.Text.Lines

/-! The lines of a file as `grep` sees them, and the fields of a line. -/

set_option autoImplicit false

namespace BotBrew.Text

/-- The lines without their newlines. The last one may lack it in the text. -/
def lines : Text → List Text
  | [] => []
  | char :: text =>
      if char = '\n' then [] :: lines text
      else
        match lines text with
        | [] => [[char]]
        | line :: rest => (char :: line) :: rest

/-- The text is empty or ends with a newline. -/
def Closed (text : Text) : Prop := ∀ last ∈ text.getLast?, last = '\n'

instance (text : Text) : Decidable (Closed text) := Option.decidableForallMem text.getLast?

def fields (line : Text) : List Text := (line.splitOnP isSpace).filter fun word => word ≠ []

theorem lines_line {line : Text} (free : '\n' ∉ line) (text : Text) :
    lines (line ++ '\n' :: text) = line :: lines text := by
  induction line with
  | nil => simp [lines]
  | cons char line ih =>
      simp only [List.mem_cons, not_or] at free
      simp [lines, Ne.symm free.1, ih free.2]

theorem lines_unclosed {line : Text} (free : '\n' ∉ line) (nonempty : line ≠ []) :
    lines line = [line] := by
  induction line with
  | nil => exact absurd rfl nonempty
  | cons char line ih =>
      simp only [List.mem_cons, not_or] at free
      cases line with
      | nil => simp [lines, Ne.symm free.1]
      | cons second line =>
          rw [lines, if_neg (Ne.symm free.1), ih free.2 (List.cons_ne_nil _ _)]

/-- A text is closed lines and what stands after the last newline. -/
theorem exists_lines (text : Text) :
    ∃ (closed : List Text) (last : Text),
      text = (closed.flatMap fun line => line ++ ['\n']) ++ last ∧
        (∀ line ∈ closed, '\n' ∉ line) ∧ '\n' ∉ last := by
  induction text with
  | nil => exact ⟨[], [], rfl, by simp, by simp⟩
  | cons char text ih =>
      obtain ⟨closed, last, shape, free, lastFree⟩ := ih
      by_cases newline : char = '\n'
      · subst newline
        exact ⟨[] :: closed, last, by simp [shape], by simpa using free, lastFree⟩
      · cases closed with
        | nil => exact ⟨[], char :: last, by simp [shape], by simp, by simp [lastFree, Ne.symm newline]⟩
        | cons line rest =>
            refine ⟨(char :: line) :: rest, last, by simp [shape], ?_, lastFree⟩
            intro other member
            obtain rfl | member := List.mem_cons.mp member
            · simpa [Ne.symm newline] using free line (by simp)
            · exact free other (List.mem_cons_of_mem _ member)

theorem lines_closed {closed : List Text} (free : ∀ line ∈ closed, '\n' ∉ line) (text : Text) :
    lines ((closed.flatMap fun line => line ++ ['\n']) ++ text) = closed ++ lines text := by
  induction closed with
  | nil => rfl
  | cons line rest ih =>
      have inner := ih fun other member => free other (List.mem_cons_of_mem _ member)
      simp only [List.flatMap_cons, List.append_assoc, List.cons_append, List.nil_append]
      rw [lines_line (free line (by simp)), inner]

theorem closed_flatMap (closed : List Text) :
    Closed (closed.flatMap fun line => line ++ ['\n']) := by
  induction closed using List.reverseRecOn with
  | nil => simp [Closed]
  | append_singleton rest line ih => simp [Closed, List.flatMap_append]

theorem lines_append_of_closed {text : Text} (closed : Closed text) {line : Text}
    (free : '\n' ∉ line) : lines (text ++ (line ++ ['\n'])) = lines text ++ [line] := by
  obtain ⟨before, last, rfl, beforeFree, lastFree⟩ := exists_lines text
  have empty : last = [] := by
    cases shape : last.getLast? with
    | none => exact List.getLast?_eq_none_iff.mp shape
    | some char =>
        have newline := closed char (by simp [List.getLast?_append, shape])
        exact absurd (newline ▸ List.mem_of_getLast? shape) lastFree
  subst empty
  rw [List.append_nil, lines_closed beforeFree, lines_line free]
  have only := lines_closed beforeFree []
  rw [List.append_nil] at only
  rw [only]
  simp [lines]

theorem lines_append_of_not_closed {text : Text} (unclosed : ¬ Closed text) {line : Text}
    (free : '\n' ∉ line) :
    ∃ before last, last ≠ [] ∧ lines text = before ++ [last] ∧
      lines (text ++ (line ++ ['\n'])) = before ++ [last ++ line] := by
  obtain ⟨before, last, rfl, beforeFree, lastFree⟩ := exists_lines text
  have nonempty : last ≠ [] := by
    rintro rfl
    rw [List.append_nil] at unclosed
    exact unclosed (closed_flatMap before)
  refine ⟨before, last, nonempty, ?_, ?_⟩
  · rw [lines_closed beforeFree, lines_unclosed lastFree nonempty]
  · have joined : '\n' ∉ last ++ line := by simp [lastFree, free]
    rw [List.append_assoc, lines_closed beforeFree, ← List.append_assoc last,
      lines_line joined []]
    rfl

theorem fields_append {blank : Char} (isBlank : isSpace blank) (first second : Text) :
    fields (first ++ blank :: second) = fields first ++ fields second := by
  unfold fields
  rw [List.splitOnP_append_cons _ _ isBlank, List.filter_append]

theorem fields_word {word : Text} (nonempty : word ≠ []) (visible : ∀ char ∈ word, isSpace char = false) :
    fields word = [word] := by
  unfold fields
  rw [List.splitOnP_eq_singleton visible]
  simp [nonempty]

theorem exists_field {line : Text} {char : Char} (member : char ∈ line)
    (visible : isSpace char = false) : ∃ word ∈ fields line, char ∈ word := by
  induction length : line.length using Nat.strong_induction_on generalizing line with
  | _ size ih =>
      by_cases blanks : ∃ blank ∈ line, isSpace blank = true
      · obtain ⟨blank, inside, isBlank⟩ := blanks
        obtain ⟨first, second, rfl⟩ := List.append_of_mem inside
        rw [fields_append isBlank]
        have shorter : first.length < size ∧ second.length < size := by
          rw [← length, List.length_append, List.length_cons]
          omega
        obtain left | right := List.mem_append.mp member
        · obtain ⟨word, given, own⟩ := ih _ shorter.1 left rfl
          exact ⟨word, List.mem_append_left _ given, own⟩
        · obtain rfl | right := List.mem_cons.mp right
          · rw [visible] at isBlank
            cases isBlank
          · obtain ⟨word, given, own⟩ := ih _ shorter.2 right rfl
            exact ⟨word, List.mem_append_right _ given, own⟩
      · have all : ∀ other ∈ line, isSpace other = false := by
          intro other inside
          rw [Bool.eq_false_iff]
          exact fun isBlank => blanks ⟨other, inside, isBlank⟩
        rw [fields_word (List.ne_nil_of_mem member) all]
        exact ⟨line, List.mem_singleton.mpr rfl, member⟩

theorem splitOnP_infix {separator : Char → Bool} {text first : Text} {rest : List Text}
    (shape : text.splitOnP separator = first :: rest) :
    first <+: text ∧ ∀ word ∈ rest, word <:+: text := by
  induction text generalizing first rest with
  | nil =>
      rw [List.splitOnP_nil] at shape
      cases shape
      exact ⟨List.prefix_rfl, by simp⟩
  | cons char text ih =>
      rw [List.splitOnP_cons_eq_if_modifyHead] at shape
      split_ifs at shape with blank
      · obtain ⟨rfl, rfl⟩ := List.cons.inj shape
        refine ⟨List.nil_prefix, ?_⟩
        intro word member
        cases inner : text.splitOnP separator with
        | nil => exact absurd inner (List.splitOnP_ne_nil _ _)
        | cons own others =>
            rw [inner] at member
            obtain ⟨first, others⟩ := ih inner
            obtain rfl | member := List.mem_cons.mp member
            · exact first.isInfix.trans (List.suffix_cons _ _).isInfix
            · exact (others word member).trans (List.suffix_cons _ _).isInfix
      · cases inner : text.splitOnP separator with
        | nil => exact absurd inner (List.splitOnP_ne_nil _ _)
        | cons own others =>
            rw [inner] at shape
            obtain ⟨rfl, rfl⟩ := List.cons.inj shape
            obtain ⟨first, others⟩ := ih inner
            refine ⟨List.cons_prefix_cons.mpr ⟨rfl, first⟩, ?_⟩
            exact fun word member => (others word member).trans (List.suffix_cons _ _).isInfix

theorem splitOnP_free {separator : Char → Bool} {text word : Text}
    (member : word ∈ text.splitOnP separator) {char : Char} (inside : char ∈ word) :
    separator char = false := by
  induction text generalizing word with
  | nil =>
      rw [List.splitOnP_nil, List.mem_singleton] at member
      subst member
      cases inside
  | cons first text ih =>
      rw [List.splitOnP_cons_eq_if_modifyHead] at member
      cases blank : separator first with
      | true =>
          rw [if_pos blank] at member
          obtain rfl | member := List.mem_cons.mp member
          · cases inside
          · exact ih member inside
      | false =>
          rw [if_neg (by simp [blank])] at member
          cases shape : text.splitOnP separator with
          | nil => exact absurd shape (List.splitOnP_ne_nil _ _)
          | cons own others =>
              rw [shape] at member ih
              obtain rfl | member := List.mem_cons.mp member
              · obtain rfl | inside := List.mem_cons.mp inside
                · exact blank
                · exact ih List.mem_cons_self inside
              · exact ih (List.mem_cons_of_mem _ member) inside

theorem mem_splitOnP_infix {separator : Char → Bool} {text word : Text}
    (member : word ∈ text.splitOnP separator) : word <:+: text := by
  cases shape : text.splitOnP separator with
  | nil => exact absurd shape (List.splitOnP_ne_nil _ _)
  | cons first rest =>
      rw [shape] at member
      obtain ⟨prefixed, others⟩ := splitOnP_infix shape
      obtain rfl | member := List.mem_cons.mp member
      · exact prefixed.isInfix
      · exact others word member

theorem mem_fields_infix {line word : Text} (member : word ∈ fields line) : word <:+: line :=
  mem_splitOnP_infix (List.mem_filter.mp member).1

end BotBrew.Text
