import BotBrew.Agcc.Command

/-! What `agcc.bash` makes of its arguments. -/

set_option autoImplicit false

namespace BotBrew.Agcc

/-- An argument as the loop takes it: a mode flag, `-o` with its operand (`none` at
the end of the list), or any other one. -/
inductive Word where
  | mode (mode : Mode)
  | out (operand : Option Text)
  | arg (text : Text)
  deriving DecidableEq

def words : List Text → List Word
  | [] => []
  | arg :: rest =>
      match modeFlag arg with
      | some mode => .mode mode :: words rest
      | none =>
          if arg = "-o".toList then
            match rest with
            | [] => [.out none]
            | out :: rest => .out (some out) :: words rest
          else .arg arg :: words rest

def Word.passed : Word → List Text
  | .arg text =>
      if text = "-r".toList then ["-Wl,-r".toList, "-Wl,-arch,arm".toList]
      else if isWarning text || isOptimization text then []
      else [text]
  | _ => []

def passed (args : List Text) : List Text := (words args).flatMap Word.passed

def Word.isMode : Word → Bool
  | .mode _ => true
  | _ => false

def Word.modeOf : Word → Option Mode
  | .mode flag => some flag
  | _ => none

def modes (args : List Text) : List Mode := (words args).filterMap Word.modeOf

def Word.outOf : Word → Option (Option Text)
  | .out operand => some operand
  | _ => none

def outs (args : List Text) : List (Option Text) := (words args).filterMap Word.outOf

def loopWords (env : Settings) (state : Parsed) : List Word → Except Outcome Parsed
  | [] => .ok state
  | .mode mode :: rest => loopWords env { state with MODE := mode } rest
  | .out none :: _ => .error (.fail "-o requires an argument")
  | .out (some out) :: rest =>
      if state.OUT ≠ [] then .error (.fail "duplicate -o argument")
      else loopWords env { state with OUT := out } rest
  | .arg text :: rest =>
      if text = "-r".toList then
        loopWords env { state with
          ARGS := state.ARGS ++ ["-Wl,-r".toList, "-Wl,-arch,arm".toList] } rest
      else if isAgcc text then .error (agccOption env text)
      else loopWords env (other state text) rest

theorem words_mode {arg : Text} {mode : Mode} (found : modeFlag arg = some mode)
    (rest : List Text) : words (arg :: rest) = .mode mode :: words rest := by
  rw [words.eq_def]
  simp only [found]

theorem words_arg {arg : Text} (found : modeFlag arg = none) (noOut : arg ≠ "-o".toList)
    (rest : List Text) : words (arg :: rest) = .arg arg :: words rest := by
  rw [words.eq_def]
  simp only [found]
  rw [if_neg noOut]

theorem words_out (out : Text) (rest : List Text) :
    words ("-o".toList :: out :: rest) = .out (some out) :: words rest := by
  rw [words.eq_def]
  have found : modeFlag "-o".toList = none := by decide
  simp only [found, if_true]

theorem loop_eq (env : Settings) (state : Parsed) (args : List Text) :
    loop env state args = loopWords env state (words args) := by
  fun_induction loop env state args with
  | case1 => rfl
  | case2 state arg rest mode found ih =>
      rw [words_mode found, loopWords]
      exact ih
  | case3 state rest found ih =>
      rw [words_arg found (by decide), loopWords, if_pos rfl]
      exact ih
  | case4 state found => rfl
  | case5 state out rest given =>
      rw [words_out, loopWords, if_pos given]
  | case6 state out rest given found noR ih =>
      rw [words_out, loopWords, if_neg given]
      exact ih
  | case7 state arg rest found noR noOut agcc =>
      rw [words_arg found noOut, loopWords, if_neg noR, if_pos agcc]
  | case8 state arg rest found noR noOut agcc ih =>
      rw [words_arg found noOut, loopWords, if_neg noR, if_neg agcc]
      exact ih

def Word.text : Word → Option Text
  | .arg text => some text
  | _ => none

/-- The arguments are none of the script's own options. -/
def Plain (args : List Text) : Prop := ∀ text ∈ (words args).filterMap Word.text, ¬ isAgcc text

instance (args : List Text) : Decidable (Plain args) :=
  inferInstanceAs (Decidable (∀ text ∈ (words args).filterMap Word.text, ¬ isAgcc text))

variable {env : Settings}

theorem other_mode (state : Parsed) (mode : Mode) (text : Text) :
    other { state with MODE := mode } text = { other state text with MODE := mode } := by
  unfold other
  split_ifs <;> rfl

theorem loopWords_mode (state : Parsed) (mode : Mode) {list : List Word}
    (noMode : ∀ word ∈ list, word.isMode = false) :
    loopWords env { state with MODE := mode } list =
      (loopWords env state list).map fun final => { final with MODE := mode } := by
  induction list generalizing state with
  | nil => rfl
  | cons word rest ih =>
      have tail : ∀ word ∈ rest, word.isMode = false := fun other member => noMode other (by simp [member])
      cases word with
      | mode flag => exact absurd (noMode (.mode flag) (by simp)) (by simp [Word.isMode])
      | out operand =>
          cases operand with
          | none => rfl
          | some out =>
              rw [loopWords, loopWords]
              split
              · rfl
              · exact ih { state with OUT := out } tail
      | arg text =>
          rw [loopWords, loopWords]
          split_ifs
          · exact ih { state with ARGS := _ } tail
          · rfl
          · rw [other_mode]
            exact ih _ tail

def lastMode (flags : List Mode) : Mode := flags.getLastD .DEFAULT

theorem loopWords_modes (state : Parsed) (list : List Word) :
    loopWords env state list =
      (loopWords env state (list.filter fun word => !word.isMode)).map fun final =>
        { final with MODE := (list.filterMap Word.modeOf).getLastD state.MODE } := by
  induction list generalizing state with
  | nil => rfl
  | cons word rest ih =>
      cases word with
      | mode flag =>
          have noMode : ∀ word ∈ rest.filter fun word => !word.isMode, word.isMode = false := by
            intro word member
            simpa using (List.mem_filter.mp member).2
          have kept : (Word.mode flag :: rest).filter (fun word => !word.isMode) =
              rest.filter fun word => !word.isMode := rfl
          have flags : (Word.mode flag :: rest).filterMap Word.modeOf =
              flag :: rest.filterMap Word.modeOf := rfl
          rw [loopWords, ih, loopWords_mode state flag noMode, kept, flags, List.getLastD_cons]
          cases loopWords env state (rest.filter fun word => !word.isMode) <;> rfl
      | out operand =>
          have kept : (Word.out operand :: rest).filter (fun word => !word.isMode) =
              .out operand :: rest.filter fun word => !word.isMode := rfl
          have flags : (Word.out operand :: rest).filterMap Word.modeOf =
              rest.filterMap Word.modeOf := rfl
          rw [kept, flags]
          cases operand with
          | none => rfl
          | some out =>
              rw [loopWords, loopWords]
              split
              · rfl
              · exact ih { state with OUT := out }
      | arg text =>
          have kept : (Word.arg text :: rest).filter (fun word => !word.isMode) =
              .arg text :: rest.filter fun word => !word.isMode := rfl
          have flags : (Word.arg text :: rest).filterMap Word.modeOf =
              rest.filterMap Word.modeOf := rfl
          have same : (other state text).MODE = state.MODE := by
            unfold other
            split_ifs <;> rfl
          rw [kept, flags, loopWords, loopWords]
          split_ifs
          · exact ih { state with ARGS := _ }
          · rfl
          · rw [ih, same]

def Word.operand : Word → Option Text
  | .out operand => operand
  | _ => none

def Word.kept : Word → Option Text
  | .arg text =>
      if text = "-r".toList ∨ isWarning text ∨ isOptimization text then none else some text
  | _ => none

/-- What the loop leaves for words that it accepts. -/
def after (state : Parsed) (list : List Word) : Parsed :=
  { MODE := (list.filterMap Word.modeOf).getLastD state.MODE
    OUT := (list.filterMap Word.operand).getLastD state.OUT
    WARN := state.WARN || (list.filterMap Word.text).any isWarning
    OPT := state.OPT || (list.filterMap Word.text).any isOptimization
    ARGS := state.ARGS ++ list.flatMap Word.passed
    SRC := state.SRC || (list.filterMap Word.kept).any isSource
    STD := ((list.filterMap Word.kept).filter fun text => !isSource text && isStd text).getLastD
      state.STD }

theorem getLastD_append {α : Type} (first second : List α) (default : α) :
    (first ++ second).getLastD default = second.getLastD (first.getLastD default) := by
  induction first generalizing default with
  | nil => rfl
  | cons head tail ih => rw [List.cons_append, List.getLastD_cons, List.getLastD_cons, ih]

theorem after_cons (state : Parsed) (word : Word) (rest : List Word) :
    after state (word :: rest) = after (after state [word]) rest := by
  have split : word :: rest = [word] ++ rest := rfl
  rw [split]
  simp only [after, List.filterMap_append, List.any_append, List.flatMap_append,
    List.filter_append, getLastD_append, Bool.or_assoc, List.append_assoc]

theorem not_isOptimization {text : Text} (warning : isWarning text = true) :
    isOptimization text = false := by
  cases text with
  | nil => rfl
  | cons head tail =>
      cases tail with
      | nil => simp [isOptimization, List.isPrefixOf]
      | cons second tail =>
          simp [isWarning, List.isPrefixOf] at warning
          simp [isOptimization, List.isPrefixOf, ← warning.2]

theorem after_single (state : Parsed) (word : Word) :
    after state [word] =
      { MODE := word.modeOf.getD state.MODE
        OUT := word.operand.getD state.OUT
        WARN := state.WARN || word.text.any isWarning
        OPT := state.OPT || word.text.any isOptimization
        ARGS := state.ARGS ++ word.passed
        SRC := state.SRC || word.kept.any isSource
        STD := (word.kept.filter fun text => !isSource text && isStd text).getD state.STD } := by
  unfold after
  cases mode : word.modeOf <;> cases operand : word.operand <;> cases text : word.text <;>
    cases kept : word.kept <;> simp only [List.filterMap_cons, List.filterMap_nil, mode, operand,
      text, kept, List.flatMap_cons, List.flatMap_nil, List.append_nil, List.any_cons,
      List.any_nil, Bool.or_false, Option.any_some, Option.any_none, Option.filter_none,
      List.filter_nil] <;>
    (try rfl)
  all_goals
    rename_i value
    cases found : !isSource value && isStd value <;> simp [Option.filter, found]

theorem kept_of {text : Text} (noR : text ≠ "-r".toList) (warning : isWarning text = false)
    (optimization : isOptimization text = false) :
    (Word.arg text).kept = some text ∧ (Word.arg text).passed = [text] := by
  have keep : ¬ (text = "-r".toList ∨ isWarning text = true ∨ isOptimization text = true) := by
    rintro (r | found | found)
    · exact noR r
    · rw [warning] at found
      cases found
    · rw [optimization] at found
      cases found
  constructor
  · exact if_neg keep
  · show (if text = "-r".toList then _ else _) = _
    rw [if_neg noR, warning, optimization]
    rfl

theorem dropped_of {text : Text} (noR : text ≠ "-r".toList)
    (dropped : isWarning text = true ∨ isOptimization text = true) :
    (Word.arg text).kept = none ∧ (Word.arg text).passed = [] := by
  constructor
  · exact if_pos (Or.inr dropped)
  · show (if text = "-r".toList then _ else _) = _
    rw [if_neg noR, if_pos (by simpa using dropped)]

theorem other_after (state : Parsed) {text : Text} (noR : text ≠ "-r".toList) :
    other state text = after state [.arg text] := by
  rw [after_single]
  unfold other
  cases warning : isWarning text with
  | true =>
      have optimization := not_isOptimization warning
      obtain ⟨kept, passed⟩ := dropped_of noR (Or.inl warning)
      simp [kept, passed, Word.modeOf, Word.operand, Word.text, warning, optimization]
  | false =>
      cases optimization : isOptimization text with
      | true =>
          obtain ⟨kept, passed⟩ := dropped_of noR (Or.inr optimization)
          simp [kept, passed, Word.modeOf, Word.operand, Word.text, warning, optimization]
      | false =>
          obtain ⟨kept, passed⟩ := kept_of noR warning optimization
          cases source : isSource text <;> cases std : isStd text <;>
            simp [kept, passed, Word.modeOf, Word.operand, Word.text, Option.filter, warning,
              optimization, source, std]

theorem loopWords_after {state final : Parsed} {list : List Word}
    (ran : loopWords env state list = .ok final) : final = after state list := by
  induction list generalizing state with
  | nil =>
      cases ran
      simp [after]
  | cons word rest ih =>
      rw [after_cons]
      cases word with
      | mode flag =>
          rw [loopWords] at ran
          rw [ih ran, after_single]
          simp [Word.modeOf, Word.operand, Word.text, Word.kept, Word.passed]
      | out operand =>
          cases operand with
          | none => cases ran
          | some out =>
              rw [loopWords] at ran
              split at ran
              · cases ran
              · rw [ih ran, after_single]
                simp [Word.modeOf, Word.operand, Word.text, Word.kept, Word.passed]
      | arg text =>
          rw [loopWords] at ran
          split_ifs at ran with r agcc
          · have kept : (Word.arg text).kept = none := if_pos (Or.inl r)
            have passed : (Word.arg text).passed = ["-Wl,-r".toList, "-Wl,-arch,arm".toList] :=
              if_pos r
            have plain : isWarning text = false ∧ isOptimization text = false := by
              rw [r]
              decide
            rw [ih ran, after_single, kept, passed]
            simp [-String.reduceToList, Word.modeOf, Word.operand, Word.text, plain]
          · rw [ih ran, other_after state r]

/-- Every `-o` has an operand, and none comes after one that has set `OUT`. -/
def Accepted : Text → List (Option Text) → Prop
  | _, [] => True
  | _, none :: _ => False
  | given, some out :: rest => given = [] ∧ Accepted out rest

theorem loopWords_accepted (state : Parsed) {list : List Word}
    (plain : ∀ text ∈ list.filterMap Word.text, ¬ isAgcc text) :
    (∃ final, loopWords env state list = .ok final) ↔
      Accepted state.OUT (list.filterMap Word.outOf) := by
  induction list generalizing state with
  | nil => exact ⟨fun _ => trivial, fun _ => ⟨state, rfl⟩⟩
  | cons word rest ih =>
      have tail : ∀ text ∈ rest.filterMap Word.text, ¬ isAgcc text := by
        intro text member
        apply plain text
        cases found : word.text with
        | none => rwa [List.filterMap_cons_none found]
        | some own =>
            rw [List.filterMap_cons_some found]
            exact List.mem_cons_of_mem own member
      cases word with
      | mode flag => exact ih { state with MODE := flag } tail
      | out operand =>
          have outs : (Word.out operand :: rest).filterMap Word.outOf =
              operand :: rest.filterMap Word.outOf := rfl
          rw [outs]
          cases operand with
          | none =>
              constructor
              · rintro ⟨final, ran⟩
                cases ran
              · exact False.elim
          | some out =>
              rw [loopWords]
              split
              case isTrue given =>
                constructor
                · rintro ⟨final, ran⟩
                  cases ran
                · intro accepted
                  exact absurd accepted.1 given
              case isFalse given =>
                rw [ih _ tail]
                exact ⟨fun accepted => ⟨not_not.mp given, accepted⟩, And.right⟩
      | arg text =>
          have outs : (Word.arg text :: rest).filterMap Word.outOf =
              rest.filterMap Word.outOf := rfl
          have same : (other state text).OUT = state.OUT := by
            unfold other
            split_ifs <;> rfl
          rw [outs, loopWords]
          split
          · exact ih { state with ARGS := _ } tail
          · rw [if_neg (plain text (by simp [Word.text])), ih _ tail, same]

theorem words_append {first : List Text} (closed : none ∉ outs first) (second : List Text) :
    words (first ++ second) = words first ++ words second := by
  unfold outs at closed
  fun_induction words first with
  | case1 => rfl
  | case2 arg rest mode found ih =>
      rw [List.cons_append, words_mode found, ih closed, List.cons_append]
  | case3 found => exact absurd (by simp [Word.outOf]) closed
  | case4 out rest found ih =>
      have tail : none ∉ (words rest).filterMap Word.outOf := by
        intro member
        exact closed (List.mem_cons_of_mem _ member)
      rw [List.cons_append, List.cons_append, words_out, ih tail, List.cons_append]
  | case5 arg rest found noOut ih =>
      rw [List.cons_append, words_arg found noOut, ih closed, List.cons_append]

/-- An argument that the script knows nothing about. -/
structure PassesThrough (arg : Text) : Prop where
  mode : modeFlag arg = none
  out : arg ≠ "-o".toList
  relocatable : arg ≠ "-r".toList
  warning : isWarning arg = false
  optimization : isOptimization arg = false

theorem passed_passesThrough {arg : Text} (known : PassesThrough arg) (rest : List Text) :
    passed (arg :: rest) = arg :: passed rest := by
  unfold passed
  rw [words_arg known.mode known.out, List.flatMap_cons,
    (kept_of known.relocatable known.warning known.optimization).2]
  rfl

/-- Options whose operand is the next argument. -/
def separate : List Text := ["-Xlinker", "-x", "-MF", "-include"].map String.toList

theorem separate_passesThrough {option : Text} (listed : option ∈ separate) :
    PassesThrough option := by
  simp only [separate, List.map_cons, List.map_nil, List.mem_cons, List.not_mem_nil, or_false]
    at listed
  obtain rfl | rfl | rfl | rfl := listed <;>
    exact ⟨by decide, by decide, by decide, by decide, by decide⟩

/-- The `-o` pair: `OUT` is the operand of the last `-o`. -/
def outPair (args : List Text) : List Text :=
  let out := ((outs args).filterMap id).getLastD []
  if out = [] then [] else ["-o".toList, out]

/-- The last `-std` option, or the script's own. -/
def stdOption (env : Settings) (args : List Text) : Text :=
  (((words args).filterMap Word.kept).filter fun text => !isSource text && isStd text).getLastD
    env.STD

theorem parse_accepted {args : List Text} (nonempty : args ≠ []) (plain : Plain args)
    (accepted : Accepted [] (outs args)) :
    parse env args = .ok (after env.start (words args)) := by
  unfold parse
  rw [if_neg nonempty, loop_eq]
  obtain ⟨final, ran⟩ := (loopWords_accepted env.start plain).mpr accepted
  rw [ran, loopWords_after ran]

theorem operands_eq (args : List Text) :
    (words args).filterMap Word.operand = (outs args).filterMap id := by
  unfold outs
  rw [List.filterMap_filterMap]
  congr 1
  funext word
  cases word <;> rfl

theorem outPair_eq (env : Settings) (args : List Text) :
    (if (after env.start (words args)).OUT = [] then []
      else ["-o".toList, (after env.start (words args)).OUT]) = outPair args := by
  have given : (after env.start (words args)).OUT = ((outs args).filterMap id).getLastD [] := by
    unfold after
    rw [operands_eq]
    rfl
  rw [given]
  rfl

end BotBrew.Agcc
