import BotBrew.Recipe.InterpreterPath

/-! When the rewriting of interpreter paths is complete and idempotent. -/

set_option autoImplicit false

namespace BotBrew.InterpreterPath

open Rewriting (Token replaceAll)

/-- The five patterns do not touch one another. -/
def rules : Rewriting.Rules Interpreter Char where
  all := interpreters
  complete interpreter := by cases interpreter <;> decide
  pattern := Interpreter.query
  replacement := Interpreter.replacement
  nonempty := by decide
  distinct := by decide +kernel
  changed := by decide +kernel
  inner := by decide +kernel
  replaced := by decide +kernel

theorem clean {interpreter : Interpreter} (noShell : interpreter ≠ .sh) :
    rules.Clean interpreter := by
  unfold Rewriting.Rules.Clean
  cases interpreter with
  | sh => exact absurd rfl noShell
  | python => decide +kernel
  | localPython => decide +kernel
  | perl => decide +kernel
  | man => decide +kernel

variable {glob : Text → List Text} {paths : List Text}

/-- The files after some of the replacements have been made in each of them. -/
def Stage (initial : Files) (done : Text → Interpreter → Bool) (files : Files) : Prop :=
  ∀ path, files path = (initial path).map fun content =>
    rules.render (done path) (rules.tokens content)

theorem stage_start (files : Files) : Stage files (fun _ _ => false) files := by
  intro path
  cases files path with
  | none => rfl
  | some content => exact congrArg some (rules.tokens_spec content).1.symm

theorem zero_mem_render (done : Interpreter → Bool) (tokens : List (Token Interpreter Char)) :
    '\x00' ∈ rules.render done tokens ↔ Token.char '\x00' ∈ tokens := by
  have noZero : ∀ found, '\x00' ∉ rules.word done found := by
    intro found
    unfold Rewriting.Rules.word
    split <;> cases found <;> decide
  induction tokens with
  | nil => simp [Rewriting.Rules.render]
  | cons token tokens ih =>
      cases token with
      | char value =>
          rw [Rewriting.Rules.render, List.mem_cons, List.mem_cons]
          simp [ih]
      | hit found =>
          rw [Rewriting.Rules.render, List.mem_append, List.mem_cons]
          simp [ih, noZero found]

theorem isText_render (done : Interpreter → Bool) (content : Text) :
    isText (rules.render done (rules.tokens content)) = isText content := by
  have same := zero_mem_render (fun _ => false) (rules.tokens content)
  rw [(rules.tokens_spec content).1] at same
  exact decide_eq_decide.mpr (not_congr ((zero_mem_render _ _).trans same.symm))

theorem mem_grepList {files : Files} {interpreter : Interpreter} {path : Text} :
    path ∈ grepList paths files interpreter ↔
      path ∈ paths ∧ ∃ content, files path = some content ∧ isText content = true ∧
        interpreter.query <:+: content := by
  unfold grepList
  rw [List.mem_filter]
  cases files path with
  | none => simp
  | some content => simp

theorem mem_tokens_iff (content : Text) (interpreter : Interpreter) :
    interpreter.query <:+: content ↔ Token.hit interpreter ∈ rules.tokens content := by
  obtain ⟨same, proper⟩ := rules.tokens_spec content
  have found : rules.pattern interpreter <:+: rules.render (fun _ => false) (rules.tokens content) ↔
      Token.hit interpreter ∈ rules.tokens content := rules.infix_render rfl proper
  rw [same] at found
  exact found

theorem grepList_stage {initial files : Files} {done : Text → Interpreter → Bool}
    (stage : Stage initial done files) {interpreter : Interpreter}
    (pending : ∀ path, done path interpreter = false) :
    grepList paths files interpreter = grepList paths initial interpreter := by
  apply List.filter_congr
  intro path _
  rw [stage path]
  cases initial path with
  | none => rfl
  | some content =>
      have proper := (rules.tokens_spec content).2
      have own : interpreter.query <:+: content ↔ Token.hit interpreter ∈ rules.tokens content :=
        mem_tokens_iff content interpreter
      have same : interpreter.query <:+: rules.render (done path) (rules.tokens content) ↔
          interpreter.query <:+: content :=
        (rules.infix_render (pending path) proper).trans own.symm
      simp only [Option.map_some, isText_render, same]

def Reachable (files : Files) (word : Text) : Prop :=
  word ≠ "temp".toList ∧ ∃ content, files word = some content

theorem reachable_stage {initial files : Files} {done : Text → Interpreter → Bool}
    (stage : Stage initial done files) (word : Text) :
    Reachable files word ↔ Reachable initial word := by
  apply and_congr Iff.rfl
  rw [stage word]
  cases initial word with
  | none => simp
  | some content => simp

theorem rewrite_some {interpreter : Interpreter} {files : Files} {word : Text}
    (reachable : Reachable files word) :
    ∃ content, files word = some content ∧ rewrite interpreter files word =
      some (Function.update files word (some (interpreter.operation content))) := by
  obtain ⟨scratch, content, found⟩ := reachable
  apply Exists.intro content
  rw [rewrite, if_neg scratch, found]
  exact ⟨rfl, rfl⟩

theorem rewrite_none {interpreter : Interpreter} {files : Files} {word : Text}
    (unreachable : ¬ Reachable files word) : rewrite interpreter files word = none := by
  unfold rewrite
  split
  · rfl
  · next scratch =>
      split
      · rfl
      · next content found => exact absurd ⟨scratch, content, found⟩ unreachable

theorem reachable_update {files : Files} {word : Text} {content : Text}
    (found : files word = some content) (next other : Text) :
    Reachable (Function.update files word (some next)) other ↔ Reachable files other := by
  apply and_congr Iff.rfl
  cases Decidable.eq_or_ne other word with
  | inl same =>
      subst same
      rw [Function.update_self, found]
      simp
  | inr different => rw [Function.update_of_ne different]

theorem rewriteWords_ok (interpreter : Interpreter) (files : Files) (words : List Text) :
    (rewriteWords interpreter files words).2 = true ↔ ∀ word ∈ words, Reachable files word := by
  induction words generalizing files with
  | nil => simp [rewriteWords]
  | cons word rest ih =>
      rw [List.forall_mem_cons]
      cases Classical.em (Reachable files word) with
      | inl reachable =>
          obtain ⟨content, found, next⟩ := rewrite_some reachable
          rw [rewriteWords, next]
          simp only [ih, reachable_update found, reachable, true_and]
      | inr unreachable =>
          rw [rewriteWords, rewrite_none unreachable]
          simp [unreachable]

theorem rewriteWords_content {interpreter : Interpreter} {files : Files} {words : List Text}
    (reachable : ∀ word ∈ words, Reachable files word) (path : Text) :
    (rewriteWords interpreter files words).1 path =
      (files path).map interpreter.operation^[words.count path] := by
  induction words generalizing files with
  | nil => simp [rewriteWords]
  | cons word rest ih =>
      obtain ⟨content, found, next⟩ := rewrite_some (reachable word List.mem_cons_self)
      have later : ∀ other ∈ rest,
          Reachable (Function.update files word (some (interpreter.operation content))) other :=
        fun other member => (reachable_update found _ other).mpr
          (reachable other (List.mem_cons_of_mem _ member))
      rw [rewriteWords, next]
      show (rewriteWords interpreter _ rest).1 path = _
      rw [ih later]
      cases Decidable.eq_or_ne path word with
      | inl same =>
          subst same
          rw [Function.update_self, List.count_cons_self, found, Option.map_some, Option.map_some,
            Function.iterate_succ_apply]
      | inr different =>
          rw [Function.update_of_ne different, List.count_cons_of_ne different.symm]

def words (glob : Text → List Text) (paths : List Text) (files : Files)
    (interpreter : Interpreter) : List Text :=
  shellWords glob (grepList paths files interpreter)

theorem words_nil {files : Files} {interpreter : Interpreter}
    (nothing : grepList paths files interpreter = []) : words glob paths files interpreter = [] := by
  rw [words, nothing]
  rfl

theorem iterate_operation {interpreter : Interpreter} (noShell : interpreter ≠ .sh)
    {done : Interpreter → Bool} (pending : done interpreter = false) (content : Text) (count : Nat) :
    interpreter.operation^[count + 1] (rules.render done (rules.tokens content)) =
      rules.render (Function.update done interpreter true) (rules.tokens content) := by
  have proper := (rules.tokens_spec content).2
  induction count with
  | zero => exact rules.replaceAll_render pending proper
  | succ count ih =>
      rw [Function.iterate_succ_apply', ih]
      exact rules.replaceAll_done (Function.update_self _ _ _) (clean noShell) proper

def marked (interpreter : Interpreter) (words : List Text) (done : Text → Interpreter → Bool) :
    Text → Interpreter → Bool :=
  fun path => if path ∈ words then Function.update (done path) interpreter true else done path

theorem rewriteWords_stage {initial files : Files} {done : Text → Interpreter → Bool}
    (stage : Stage initial done files) {interpreter : Interpreter} {words : List Text}
    (noShell : interpreter = .sh → words = []) (pending : ∀ path, done path interpreter = false)
    (reachable : ∀ word ∈ words, Reachable files word) :
    Stage initial (marked interpreter words done) (rewriteWords interpreter files words).1 := by
  intro path
  rw [rewriteWords_content reachable, stage path, marked]
  cases initial path with
  | none => rfl
  | some content =>
      rw [Option.map_some, Option.map_some, Option.map_some]
      apply congrArg some
      cases Decidable.em (path ∈ words) with
      | inl member =>
          have other : interpreter ≠ .sh := by
            intro shell
            rw [noShell shell] at member
            cases member
          obtain ⟨count, counted⟩ := Nat.exists_eq_succ_of_ne_zero
            (List.count_pos_iff.mpr member).ne'
          rw [if_pos member, counted]
          exact iterate_operation other (pending path) content count
      | inr absent =>
          rw [if_neg absent, List.count_eq_zero.mpr absent]
          rfl

def finished (glob : Text → List Text) (paths : List Text) (initial : Files)
    (order : List Interpreter) (done : Text → Interpreter → Bool) : Text → Interpreter → Bool :=
  fun path interpreter => done path interpreter ||
    (decide (interpreter ∈ order) && decide (path ∈ words glob paths initial interpreter))

/-- When no text file has `/bin/sh`, the substitutions reach their end when all the words
are files, and each of them has then been made in the files of its words. -/
theorem fixAll_stage (glob : Text → List Text) {initial files : Files} {done : Text → Interpreter → Bool}
    (noShell : grepList paths initial .sh = []) {order : List Interpreter} (nodup : order.Nodup)
    (stage : Stage initial done files)
    (pending : ∀ path, ∀ interpreter ∈ order, done path interpreter = false) :
    ((fixAll glob paths files order).2 = true ↔
        ∀ interpreter ∈ order, ∀ word ∈ words glob paths initial interpreter,
          Reachable initial word) ∧
      ((fixAll glob paths files order).2 = true →
        Stage initial (finished glob paths initial order done) (fixAll glob paths files order).1) := by
  induction order generalizing files done with
  | nil =>
      constructor
      · simp [fixAll]
      · intro _
        have none : finished glob paths initial [] done = done := by
          funext path interpreter
          simp [finished]
        rw [none]
        exact stage
  | cons interpreter rest ih =>
      obtain ⟨fresh, nodup⟩ := List.nodup_cons.mp nodup
      have now : ∀ path, done path interpreter = false :=
        fun path => pending path interpreter List.mem_cons_self
      have same : shellWords glob (grepList paths files interpreter) =
          words glob paths initial interpreter := by rw [words, grepList_stage stage now]
      have reach : (∀ word ∈ words glob paths initial interpreter, Reachable files word) ↔
          ∀ word ∈ words glob paths initial interpreter, Reachable initial word :=
        forall₂_congr fun word _ => reachable_stage stage word
      have one : (fixOne glob paths files interpreter).2 = true ↔
          ∀ word ∈ words glob paths initial interpreter, Reachable initial word := by
        rw [fixOne, same, rewriteWords_ok, reach]
      cases result : fixOne glob paths files interpreter with
      | mk next ok =>
          rw [result] at one
          rw [List.forall_mem_cons, fixAll, result]
          cases ok with
          | false =>
              constructor
              · constructor
                · intro impossible
                  cases impossible
                · intro all
                  exact absurd (one.mpr all.1) Bool.false_ne_true
              · intro impossible
                cases impossible
          | true =>
              have shell : interpreter = .sh → words glob paths initial interpreter = [] := by
                rintro rfl
                exact words_nil noShell
              have after : Stage initial (marked interpreter (words glob paths initial interpreter) done)
                  next := by
                have moved := rewriteWords_stage stage shell now (reach.mpr (one.mp rfl))
                rw [← same] at moved
                rw [fixOne] at result
                rw [result, same] at moved
                exact moved
              have later : ∀ path, ∀ other ∈ rest,
                  marked interpreter (words glob paths initial interpreter) done path other = false := by
                intro path other member
                have different : other ≠ interpreter := by
                  rintro rfl
                  exact fresh member
                have before := pending path other (List.mem_cons_of_mem _ member)
                unfold marked
                split
                · rw [Function.update_of_ne different, before]
                · exact before
              obtain ⟨ok, reached⟩ := ih nodup after later
              constructor
              · simp only [ok]
                exact ⟨fun others => ⟨one.mp rfl, others⟩, And.right⟩
              · intro ended
                have final := reached ended
                intro path
                rw [final path]
                cases initial path with
                | none => rfl
                | some content =>
                    rw [Option.map_some, Option.map_some]
                    apply congrArg some
                    apply rules.render_congr
                    intro other _
                    unfold finished marked
                    cases Decidable.eq_or_ne other interpreter with
                    | inl equal =>
                        subst equal
                        by_cases member : path ∈ words glob paths initial other <;> simp [member, fresh]
                    | inr different =>
                        by_cases member : path ∈ words glob paths initial interpreter <;>
                          simp [member, different]

theorem interpreters_nodup : interpreters.Nodup := by decide

theorem mem_interpreters (interpreter : Interpreter) : interpreter ∈ interpreters :=
  rules.complete interpreter

theorem substituted_eq (content : Text) :
    substituted content = rules.render (fun _ => true) (rules.tokens content) := by
  obtain ⟨same, proper⟩ := rules.tokens_spec content
  have all : interpreters.foldl
      (fun text index => replaceAll (rules.pattern index) (rules.replacement index) text)
      (rules.render (fun _ => false) (rules.tokens content)) = _ :=
    rules.replaceAll_order interpreters_nodup (fun _ _ => rfl) proper
  rw [same] at all
  refine Eq.trans all (rules.render_congr ?_)
  intro interpreter _
  simp [mem_interpreters]

theorem expected_stage (paths : List Text) (files : Files) {path content : Text}
    (found : files path = some content) :
    expected paths files path = some (rules.render
      (fun _ => decide (path ∈ paths) && isText content) (rules.tokens content)) := by
  rw [expected, found, Option.map_some, substituted_eq]
  apply congrArg some
  by_cases inside : path ∈ paths
  · cases text : isText content with
    | false => simp [(rules.tokens_spec content).1]
    | true => simp [inside]
  · simp [inside, (rules.tokens_spec content).1]

theorem Sane.stage {files : Files} (sane : Sane glob paths files) {final : Files}
    (stage : Stage files (finished glob paths files interpreters fun _ _ => false) final) :
    final = expected paths files := by
  funext path
  rw [stage path]
  cases found : files path with
  | none => rw [expected, found]; rfl
  | some content =>
      rw [expected_stage paths files found, Option.map_some]
      apply congrArg some
      apply rules.render_congr
      intro interpreter occurs
      have query := (mem_tokens_iff content interpreter).mpr occurs
      have same : path ∈ words glob paths files interpreter ↔ path ∈ paths ∧ isText content = true := by
        constructor
        · intro member
          obtain ⟨_, other, own, listed | missing⟩ := sane.others interpreter path member
          · obtain ⟨inside, other, own, text, _⟩ := mem_grepList.mp listed
            rw [found] at own
            cases own
            exact ⟨inside, text⟩
          · rw [found] at own
            cases own
            exact absurd query missing
        · rintro ⟨inside, text⟩
          exact sane.listed interpreter path (mem_grepList.mpr ⟨inside, content, found, text, query⟩)
      simp [finished, mem_interpreters, same]

theorem Sane.reachable {files : Files} (sane : Sane glob paths files) (interpreter : Interpreter) :
    ∀ word ∈ words glob paths files interpreter, Reachable files word := by
  intro word member
  obtain ⟨scratch, content, found, _⟩ := sane.others interpreter word member
  exact ⟨scratch, content, found⟩

theorem Sane.run {files : Files} (sane : Sane glob paths files) {order : List Interpreter}
    (permuted : order.Perm interpreters) :
    fixAll glob paths files order = (expected paths files, true) := by
  have nodup : order.Nodup := permuted.nodup_iff.mpr interpreters_nodup
  have stages := fixAll_stage glob sane.noShell nodup (stage_start files) fun _ _ _ => rfl
  have ended : (fixAll glob paths files order).2 = true :=
    stages.1.mpr fun interpreter _ => sane.reachable interpreter
  have final := stages.2 ended
  have same : finished glob paths files order (fun _ _ => false) =
      finished glob paths files interpreters fun _ _ => false := by
    funext path interpreter
    simp [finished, permuted.mem_iff]
  rw [same] at final
  exact Prod.ext (sane.stage final) ended

theorem Sane.nothing {files : Files} (sane : Sane glob paths files) (interpreter : Interpreter) :
    grepList paths (expected paths files) interpreter = [] := by
  apply List.eq_nil_iff_forall_not_mem.mpr
  intro path member
  obtain ⟨inside, final, found, text, query⟩ := mem_grepList.mp member
  cases initial : files path with
  | none =>
      rw [expected, initial] at found
      cases found
  | some content =>
      rw [expected_stage paths files initial] at found
      cases found
      rw [isText_render] at text
      apply rules.not_infix_render _ (rules.tokens_spec content).2 query
      intro occurs
      have own := (mem_tokens_iff content interpreter).mpr occurs
      have listed := mem_grepList.mpr ⟨inside, content, initial, text, own⟩
      constructor
      · simp [inside, text]
      · apply clean
        rintro rfl
        rw [sane.noShell] at listed
        cases listed

theorem fixAll_nothing {files : Files} (order : List Interpreter)
    (nothing : ∀ interpreter, grepList paths files interpreter = []) :
    fixAll glob paths files order = (files, true) := by
  induction order with
  | nil => rfl
  | cons interpreter rest ih =>
      have stays : fixOne glob paths files interpreter = (files, true) := by
        rw [fixOne, nothing]
        rfl
      rw [fixAll, stays]
      exact ih

theorem Sane.rewrites {files : Files} (sane : Sane glob paths files) :
    Rewrites glob paths files := by
  have run : botbrew_fix_interpreter_path glob paths files = (expected paths files, true) :=
    sane.run (List.Perm.refl _)
  constructor
  · exact run
  · intro order permuted
    rw [sane.run permuted, run]
  · rw [run]
    exact fixAll_nothing interpreters sane.nothing

theorem iterate_keeps {interpreter : Interpreter} (noShell : interpreter ≠ .sh)
    (done : Interpreter → Bool) (content : Text) (count : Nat) :
    ∃ next, interpreter.operation^[count] (rules.render done (rules.tokens content)) =
      rules.render next (rules.tokens content) ∧ next .sh = done .sh := by
  have proper := (rules.tokens_spec content).2
  cases count with
  | zero => exact ⟨done, rfl, rfl⟩
  | succ count =>
      cases state : done interpreter with
      | false =>
          exact ⟨_, iterate_operation noShell state content count,
            Function.update_of_ne noShell.symm _ _⟩
      | true =>
          refine ⟨done, ?_, rfl⟩
          have fixed : interpreter.operation (rules.render done (rules.tokens content)) =
              rules.render done (rules.tokens content) :=
            rules.replaceAll_done state (clean noShell) proper
          exact Function.iterate_fixed fixed _

theorem fixOne_content {files next : Files} {interpreter : Interpreter}
    (ended : fixOne glob paths files interpreter = (next, true)) (path : Text) :
    next path = (files path).map
      interpreter.operation^[(words glob paths files interpreter).count path] := by
  rw [fixOne] at ended
  have reachable := (rewriteWords_ok interpreter files _).mp (congrArg Prod.snd ended)
  have content : (rewriteWords interpreter files _).1 path = _ := rewriteWords_content reachable path
  rw [ended] at content
  exact content

theorem fixAll_cons {files final : Files} {interpreter : Interpreter} {rest : List Interpreter}
    (ended : fixAll glob paths files (interpreter :: rest) = (final, true)) :
    ∃ next, fixOne glob paths files interpreter = (next, true) ∧
      fixAll glob paths next rest = (final, true) := by
  unfold fixAll at ended
  split at ended
  · next next equation => exact ⟨next, equation, ended⟩
  · cases congrArg Prod.snd ended

theorem fixAll_keeps (P : Text → Prop) {order : List Interpreter}
    (keeps : ∀ interpreter ∈ order, ∀ content count,
      P content → P (interpreter.operation^[count] content))
    {files final : Files} (ended : fixAll glob paths files order = (final, true)) {path content : Text}
    (found : files path = some content) (holds : P content) :
    ∃ last, final path = some last ∧ P last := by
  induction order generalizing files content with
  | nil =>
      cases ended
      exact ⟨content, found, holds⟩
  | cons interpreter rest ih =>
      obtain ⟨next, first, others⟩ := fixAll_cons ended
      have after := fixOne_content first path
      rw [found, Option.map_some] at after
      exact ih (fun other member => keeps other (List.mem_cons_of_mem _ member)) others after
        (keeps interpreter List.mem_cons_self _ _ holds)

def others : List Interpreter := [.python, .localPython, .perl, .man]

theorem others_noShell : ∀ interpreter ∈ others, interpreter ≠ .sh := by decide

/-- A file with `/bin/sh` has to be among the words. -/
theorem Rewrites.listed_shell {files : Files} (rewrites : Rewrites glob paths files) {path : Text}
    (listed : path ∈ grepList paths files .sh) : path ∈ words glob paths files .sh := by
  by_contra absent
  obtain ⟨inside, content, found, text, query⟩ := mem_grepList.mp listed
  have ended := rewrites.complete
  unfold botbrew_fix_interpreter_path interpreters at ended
  obtain ⟨next, first, rest⟩ := fixAll_cons ended
  have after := fixOne_content first path
  rw [List.count_eq_zero.mpr absent, found, Option.map_some, Function.iterate_zero, id] at after
  have start : ∃ done, content = rules.render done (rules.tokens content) ∧ done .sh = false :=
    ⟨fun _ => false, (rules.tokens_spec content).1.symm, rfl⟩
  have keeps : ∀ interpreter ∈ others, ∀ text count,
      (∃ done, text = rules.render done (rules.tokens content) ∧ done .sh = false) →
        ∃ done, interpreter.operation^[count] text = rules.render done (rules.tokens content) ∧
          done .sh = false := by
    rintro interpreter member text count ⟨done, rfl, pending⟩
    obtain ⟨next, same, kept⟩ := iterate_keeps (others_noShell interpreter member) done content count
    exact ⟨next, same, kept.trans pending⟩
  obtain ⟨last, final, done, shape, pending⟩ := fixAll_keeps _ keeps rest after start
  rw [expected_stage paths files found, Option.some_inj] at final
  rw [shape] at final
  have agree := rules.render_injective final ((mem_tokens_iff content .sh).mp query)
  simp [inside, text, pending] at agree

theorem operation_eq (interpreter : Interpreter) (content : Text) :
    interpreter.operation content =
      rules.render (Function.update (fun _ => false) interpreter true) (rules.tokens content) := by
  obtain ⟨same, proper⟩ := rules.tokens_spec content
  have pending : (fun _ : Interpreter => false) interpreter = false := rfl
  have step : interpreter.operation (rules.render (fun _ => false) (rules.tokens content)) = _ :=
    rules.replaceAll_render pending proper
  rw [same] at step
  exact step

def OnlyShell (content : Text) : Prop :=
  ∀ interpreter : Interpreter, interpreter ≠ .sh → ¬ interpreter.query <:+: content

theorem OnlyShell.fixed {content : Text} (only : OnlyShell content) {interpreter : Interpreter}
    (noShell : interpreter ≠ .sh) (count : Nat) : interpreter.operation^[count] content = content := by
  apply Function.iterate_fixed
  rw [operation_eq]
  refine Eq.trans (rules.render_congr ?_) (rules.tokens_spec content).1
  intro other occurs
  have different : other ≠ interpreter := by
    rintro rfl
    exact only other noShell ((mem_tokens_iff content other).mpr occurs)
  exact Function.update_of_ne different _ _

theorem length_render_le (tokens : List (Token Interpreter Char)) :
    (rules.render (fun _ => false) tokens).length ≤
      (rules.render (Function.update (fun _ => false) .sh true) tokens).length := by
  induction tokens with
  | nil => rfl
  | cons token tokens ih =>
      cases token with
      | char value =>
          rw [Rewriting.Rules.render, Rewriting.Rules.render]
          simpa using ih
      | hit found =>
          rw [Rewriting.Rules.render, Rewriting.Rules.render, List.length_append, List.length_append]
          have word : (rules.word (fun _ => false) found).length ≤
              (rules.word (Function.update (fun _ => false) .sh true) found).length := by
            cases found <;> decide +kernel
          omega

theorem length_render_lt {tokens : List (Token Interpreter Char)} (occurs : Token.hit .sh ∈ tokens) :
    (rules.render (fun _ => false) tokens).length <
      (rules.render (Function.update (fun _ => false) .sh true) tokens).length := by
  obtain ⟨before, after, rfl⟩ := List.append_of_mem occurs
  have first := length_render_le before
  have last := length_render_le after
  have word : (rules.word (fun _ => false) Interpreter.sh).length <
      (rules.word (Function.update (fun _ => false) .sh true) Interpreter.sh).length := by
    decide +kernel
  rw [rules.render_append, rules.render_append, Rewriting.Rules.render, Rewriting.Rules.render]
  simp only [List.length_append]
  omega

/-- Replacing `/bin/sh` again and again makes the text longer and longer. -/
theorem OnlyShell.iterate {content : Text} (only : OnlyShell content)
    (query : Interpreter.sh.query <:+: content) (count : Nat) :
    OnlyShell (Interpreter.sh.operation^[count] content) ∧
      Interpreter.sh.query <:+: Interpreter.sh.operation^[count] content ∧
      content.length + count ≤ (Interpreter.sh.operation^[count] content).length := by
  induction count with
  | zero => exact ⟨only, query, le_rfl⟩
  | succ count ih =>
      rw [Function.iterate_succ_apply']
      obtain ⟨only, query, longer⟩ := ih
      generalize Interpreter.sh.operation^[count] content = text at only query longer ⊢
      obtain ⟨same, proper⟩ := rules.tokens_spec text
      have occurs := (mem_tokens_iff text .sh).mp query
      have more := length_render_lt occurs
      rw [same] at more
      rw [operation_eq]
      refine ⟨?_, ?_, by omega⟩
      · intro interpreter noShell found
        have pending : Function.update (fun _ => false) Interpreter.sh true interpreter = false :=
          Function.update_of_ne noShell _ _
        exact only interpreter noShell
          ((mem_tokens_iff text interpreter).mpr ((rules.infix_render pending proper).mp found))
      · have inside : Interpreter.sh.query <:+:
            rules.word (Function.update (fun _ => false) .sh true) .sh := by
          show _ <:+: Interpreter.sh.replacement
          exact ⟨"/system".toList, [], by decide⟩
        exact inside.trans (rules.word_infix_render _ occurs)

theorem expected_shell {files : Files} {path : Text} (listed : path ∈ grepList paths files .sh) :
    ∃ content, expected paths files path = some content ∧ OnlyShell content ∧
      Interpreter.sh.query <:+: content := by
  obtain ⟨inside, content, found, text, query⟩ := mem_grepList.mp listed
  have occurs := (mem_tokens_iff content .sh).mp query
  have proper := (rules.tokens_spec content).2
  have value := expected_stage paths files found
  refine ⟨_, value, ?_, ?_⟩
  · intro interpreter noShell
    have gone : (decide (path ∈ paths) && isText content) = true := by simp [inside, text]
    exact rules.not_infix_render (fun _ => ⟨gone, clean noShell⟩) proper
  · have word : Interpreter.sh.query <:+:
        rules.word (fun _ => decide (path ∈ paths) && isText content) .sh := by
      rw [Rewriting.Rules.word, if_pos (by simp [inside, text])]
      exact ⟨"/system".toList, [], by decide⟩
    exact word.trans (rules.word_infix_render _ occurs)

theorem grepList_expected (paths : List Text) (files : Files) :
    grepList paths (expected paths files) .sh = grepList paths files .sh := by
  apply List.filter_congr
  intro path member
  cases found : files path with
  | none =>
      rw [expected, found]
      rfl
  | some content =>
      cases text : isText content with
      | false =>
          have kept : expected paths files path = some content := by
            rw [expected, found]
            simp [text]
          rw [kept]
      | true =>
          have proper := (rules.tokens_spec content).2
          have value := expected_stage paths files found
          have same : Interpreter.sh.query <:+: rules.render
              (fun _ => decide (path ∈ paths) && isText content) (rules.tokens content) ↔
              Interpreter.sh.query <:+: content := by
            constructor
            · intro inside
              by_contra absent
              have none : Token.hit .sh ∉ rules.tokens content :=
                fun occurs => absent ((mem_tokens_iff content .sh).mpr occurs)
              exact rules.not_infix_render (fun occurs => absurd occurs none) proper inside
            · intro query
              obtain ⟨last, final, _, inside⟩ := expected_shell
                (mem_grepList.mpr ⟨member, content, found, text, query⟩)
              rw [value] at final
              cases final
              exact inside
          rw [value]
          simp only [isText_render, same]

/-- A text file with `/bin/sh` grows with every run. -/
theorem Rewrites.noShell {files : Files} (rewrites : Rewrites glob paths files) :
    grepList paths files .sh = [] := by
  apply List.eq_nil_iff_forall_not_mem.mpr
  intro path listed
  have member := rewrites.listed_shell listed
  obtain ⟨content, found, only, query⟩ := expected_shell listed
  have ended := rewrites.again
  rw [rewrites.complete] at ended
  unfold botbrew_fix_interpreter_path interpreters at ended
  obtain ⟨next, first, rest⟩ := fixAll_cons ended
  have after := fixOne_content first path
  have same : words glob paths (expected paths files) .sh = words glob paths files .sh := by
    rw [words, grepList_expected, words]
  rw [same, show (expected paths files, true).1 path = some content from found,
    Option.map_some] at after
  obtain ⟨onlyAfter, _, longer⟩ := only.iterate query ((words glob paths files .sh).count path)
  have keeps : ∀ interpreter ∈ others, ∀ text count,
      OnlyShell text ∧ content.length < text.length →
        OnlyShell (interpreter.operation^[count] text) ∧
          content.length < (interpreter.operation^[count] text).length := by
    rintro interpreter inside text count ⟨only, longer⟩
    rw [only.fixed (others_noShell interpreter inside)]
    exact ⟨only, longer⟩
  have positive := List.count_pos_iff.mpr member
  obtain ⟨last, final, _, grown⟩ := fixAll_keeps _ keeps rest after ⟨onlyAfter, by omega⟩
  rw [show (expected paths files, true).1 path = some content from found] at final
  cases final
  exact absurd grown (Nat.lt_irrefl _)

theorem Rewrites.sane {files : Files} (rewrites : Rewrites glob paths files) :
    Sane glob paths files := by
  have stages := fixAll_stage glob rewrites.noShell interpreters_nodup (stage_start files)
    fun _ _ _ => rfl
  have ended : fixAll glob paths files interpreters = (expected paths files, true) :=
    rewrites.complete
  rw [ended] at stages
  have reachable := stages.1.mp rfl
  have final := stages.2 rfl
  -- A query that occurs has been replaced exactly in the text files of the tree.
  have agree : ∀ interpreter path content, files path = some content →
      interpreter.query <:+: content →
        decide (path ∈ words glob paths files interpreter) =
          (decide (path ∈ paths) && isText content) := by
    intro interpreter path content found query
    have same : expected paths files path = _ := final path
    rw [expected_stage paths files found, found, Option.map_some, Option.some_inj] at same
    have equal := rules.render_injective same ((mem_tokens_iff content interpreter).mp query)
    simpa [finished, mem_interpreters] using equal.symm
  constructor
  · exact rewrites.noShell
  · intro interpreter path listed
    obtain ⟨inside, content, found, text, query⟩ := mem_grepList.mp listed
    have equal := agree interpreter path content found query
    simp only [inside, text, decide_true, Bool.and_self, decide_eq_true_eq] at equal
    exact equal
  · intro interpreter word member
    obtain ⟨scratch, content, found⟩ := reachable interpreter (mem_interpreters _) word member
    refine ⟨scratch, content, found, ?_⟩
    by_cases query : interpreter.query <:+: content
    · have equal := agree interpreter word content found query
      have own : word ∈ words glob paths files interpreter := member
      simp only [own, decide_true] at equal
      obtain ⟨inside, text⟩ := (Bool.and_eq_true _ _).mp equal.symm
      exact .inl (mem_grepList.mpr ⟨of_decide_eq_true inside, content, found, text, query⟩)
    · exact .inr query

def shellScript : Files := fun path =>
  if path = "tree/run".toList then some "#!/bin/sh".toList else none

end BotBrew.InterpreterPath
