import Mathlib.Data.List.Forall2
import Mathlib.Data.Set.Pairwise.Basic
import BotBrew.Listing.Graph

/-! When the printed digraphs show the dependency relations. -/

set_option autoImplicit false

namespace BotBrew.Listing

/-- What `mangle` takes for one character -/
def AlikeChar (first second : Char) : Prop :=
  first = second ∨ first ∈ ['-', '.', '_'] ∧ second ∈ ['-', '.', '_']

/-- Names that differ in nothing but `-`, `.` and `_`. -/
def Alike : Text → Text → Prop := List.Forall₂ AlikeChar

theorem mangle_eq_iff (first second : Text) : mangle first = mangle second ↔ Alike first second := by
  have char (first second : Char) :
      (if first = '-' ∨ first = '.' then '_' else first) =
        (if second = '-' ∨ second = '.' then '_' else second) ↔ AlikeChar first second := by
    simp only [AlikeChar, List.mem_cons, List.not_mem_nil, or_false]
    split_ifs <;> grind
  rw [mangle, mangle, Alike, ← List.forall₂_eq_eq_eq, List.forall₂_map_left_iff,
    List.forall₂_map_right_iff]
  simp only [char]

theorem injOn_mangle {Name : Type} (names : Set Name) (text : Name → Text) :
    Set.InjOn (fun name => mangle (text name)) names ↔
      names.Pairwise fun first second => ¬ Alike (text first) (text second) := by
  constructor
  · intro distinct first inside second other different alike
    exact different (distinct inside other ((mangle_eq_iff _ _).mpr alike))
  · intro apart first inside second other same
    by_contra different
    exact apart inside other different ((mangle_eq_iff _ _).mp same)

theorem slash_mem_mangle (name : Text) : '/' ∈ mangle name ↔ '/' ∈ name := by
  unfold mangle
  rw [List.mem_map]
  constructor
  · rintro ⟨char, member, same⟩
    split_ifs at same with mangled
    · cases same
    · rwa [← same]
  · intro member
    exact ⟨'/', member, by decide⟩

theorem Recipe.slash_mem_address (recipe : Recipe) :
    '/' ∈ recipe.address ↔ recipe.parent ≠ none := by
  unfold address
  cases recipe.parent with
  | none => simp [recipe.name_free]
  | some parent => simp

theorem Cookbook.ident_recipe (book : Cookbook) {recipe : Recipe} (listed : recipe ∈ book.recipes) :
    book.ident recipe.address = mangle recipe.name := by
  unfold ident
  cases found : book.recipes.find? fun other => other.address = recipe.address with
  | none =>
      have never := List.find?_eq_none.mp found recipe listed
      simp at never
  | some other =>
      have same : other.address = recipe.address := by simpa using List.find?_some found
      rw [book.unique (List.mem_of_find?_eq_some found) listed same]

theorem Cookbook.ident_flat (book : Cookbook) {name : Text}
    (flat : ∀ recipe ∈ book.recipes, recipe.address = name → recipe.parent = none) :
    book.ident name = mangle name := by
  unfold ident
  cases found : book.recipes.find? fun other => other.address = name with
  | none => rfl
  | some other =>
      have same : other.address = name := by simpa using List.find?_some found
      have top := flat other (List.mem_of_find?_eq_some found) same
      rw [← same, Recipe.address, top]

theorem edges_append (first second : List Statement) :
    edges (first ++ second) = edges first ++ edges second := List.filterMap_append

theorem edges_node (ident label : Text) (rest : List Statement) :
    edges (.node ident label :: rest) = edges rest := rfl

theorem edges_map (source : Text) (deps : List Text) :
    edges (deps.map fun dep => .edge source (mangle dep)) =
      deps.map fun dep => (source, mangle dep) := by
  induction deps with
  | nil => rfl
  | cons dep rest ih => exact congrArg (List.cons (source, mangle dep)) ih

theorem mem_edges_graphbuildFrom (vars : Vars) (recipes : List Recipe) (edge : Text × Text) :
    edge ∈ edges (graphbuildFrom vars recipes) ↔
      ∃ before recipe after, recipes = before ++ recipe :: after ∧
        ∃ dep ∈ (recipe.source (sourceAll vars before)).PACKAGE_DEPEND,
          edge = (mangle recipe.name, mangle dep) := by
  induction recipes generalizing vars with
  | nil => simp [graphbuildFrom, edges]
  | cons recipe rest ih =>
      have step : edges (graphbuildFrom vars (recipe :: rest)) =
          ((recipe.source vars).PACKAGE_DEPEND.map fun dep => (mangle recipe.name, mangle dep)) ++
            edges (graphbuildFrom (recipe.source vars) rest) := by
        rw [graphbuildFrom, List.cons_append, edges_node, edges_append, edges_map]
      rw [step, List.mem_append, ih, List.mem_map]
      constructor
      · rintro (⟨dep, member, rfl⟩ | ⟨before, other, after, rfl, dep, member, rfl⟩)
        · exact ⟨[], recipe, rest, rfl, dep, member, rfl⟩
        · exact ⟨recipe :: before, other, after, rfl, dep, member, rfl⟩
      · rintro ⟨before, other, after, shape, dep, member, rfl⟩
        cases before with
        | nil =>
            obtain ⟨rfl, rfl⟩ := List.cons.inj shape
            exact Or.inl ⟨dep, member, rfl⟩
        | cons first before =>
            obtain ⟨rfl, rfl⟩ := List.cons.inj shape
            exact Or.inr ⟨before, other, after, rfl, dep, member, rfl⟩

theorem mem_edges_graphbuild (book : Cookbook) (edge : Text × Text) :
    edge ∈ edges (botbrew_graphbuild book) ↔
      ∃ before recipe after, book.recipes = before ++ recipe :: after ∧
        ∃ dep ∈ recipe.depend.getD (leaked before), edge = (mangle recipe.name, mangle dep) := by
  unfold botbrew_graphbuild
  rw [mem_edges_graphbuildFrom]
  simp only [Recipe.source, sourceAll_depend, leaked, Vars.unset]

/-- The name that is drawn: for a recipe two levels down, that of its own directory -/
def Cookbook.drawn (book : Cookbook) (name : Text) : Text :=
  ((book.recipes.find? fun recipe => recipe.address = name).map Recipe.name).getD name

theorem Cookbook.ident_drawn (book : Cookbook) : book.ident = fun name => mangle (book.drawn name) := by
  funext name
  unfold ident drawn
  cases book.recipes.find? fun recipe => recipe.address = name <;> rfl

/-- What the digraph needs from the cookbook: names that are not drawn alike, no dependency
on a recipe two levels down, and an empty `PACKAGE_DEPEND` for a recipe that assigns none. -/
structure Cookbook.Separate (book : Cookbook) : Prop where
  apart : book.names.Pairwise fun first second => ¬ Alike (book.drawn first) (book.drawn second)
  flat : ∀ recipe ∈ book.recipes, ∀ dep ∈ recipe.own, ∀ other ∈ book.recipes,
    other.address = dep → other.parent = none
  assigned : ∀ before recipe after, book.recipes = before ++ recipe :: after →
    recipe.depend = none → leaked before = []

theorem Cookbook.Separate.depend {book : Cookbook} (separate : book.Separate)
    {before after : List Recipe} {recipe : Recipe} (shape : book.recipes = before ++ recipe :: after) :
    recipe.depend.getD (leaked before) = recipe.own := by
  cases given : recipe.depend with
  | none =>
      rw [Recipe.own_none given, separate.assigned before recipe after shape given]
      rfl
  | some depend =>
      rw [Recipe.own_some given]
      rfl

theorem Cookbook.injOn_ident (book : Cookbook) : Set.InjOn book.ident book.names ↔
    book.names.Pairwise fun first second => ¬ Alike (book.drawn first) (book.drawn second) := by
  rw [book.ident_drawn, injOn_mangle]

theorem Cookbook.address_mem_names {book : Cookbook} {recipe : Recipe}
    (listed : recipe ∈ book.recipes) : recipe.address ∈ book.names :=
  ⟨recipe, listed, Or.inl rfl⟩

theorem Cookbook.own_mem_names {book : Cookbook} {recipe : Recipe} {dep : Text}
    (listed : recipe ∈ book.recipes) (member : dep ∈ recipe.own) : dep ∈ book.names :=
  ⟨recipe, listed, Or.inr member⟩

theorem mem_of_split {α : Type} {list before after : List α} {item : α}
    (shape : list = before ++ item :: after) : item ∈ list := by
  rw [shape]
  simp

theorem Cookbook.Separate.faithful {book : Cookbook} (separate : book.Separate) :
    Digraph.Faithful book.names book.Depends book.ident (edges (botbrew_graphbuild book)) := by
  constructor
  · exact book.injOn_ident.mpr separate.apart
  · intro edge
    rw [mem_edges_graphbuild]
    constructor
    · rintro ⟨before, recipe, after, shape, dep, member, rfl⟩
      have listed := mem_of_split shape
      rw [separate.depend shape] at member
      refine ⟨recipe.address, dep, ⟨recipe, listed, rfl, member⟩, ?_⟩
      rw [book.ident_recipe listed, book.ident_flat (separate.flat recipe listed dep member)]
    · rintro ⟨source, target, ⟨recipe, listed, rfl, member⟩, rfl⟩
      obtain ⟨before, after, shape⟩ := List.append_of_mem listed
      refine ⟨before, recipe, after, shape, target, ?_, ?_⟩
      · rwa [separate.depend shape]
      · rw [book.ident_recipe listed, book.ident_flat (separate.flat recipe listed target member)]

section

variable {book : Cookbook}
  (faithful : Digraph.Faithful book.names book.Depends book.ident (edges (botbrew_graphbuild book)))

include faithful

/-- An edge that starts at the node of a recipe is one of that recipe's own dependencies. -/
theorem own_of_edge {recipe : Recipe} (listed : recipe ∈ book.recipes) {target : Text}
    (printed : (mangle recipe.name, target) ∈ edges (botbrew_graphbuild book)) :
    ∃ dep ∈ recipe.own, target = book.ident dep := by
  obtain ⟨source, dep, ⟨other, otherListed, rfl, member⟩, same⟩ := (faithful.edges _).mp printed
  obtain ⟨sameSource, sameTarget⟩ := Prod.mk.inj same
  rw [← book.ident_recipe listed] at sameSource
  have address := faithful.distinct (Cookbook.address_mem_names listed)
    (Cookbook.address_mem_names otherListed) sameSource
  rw [book.unique listed otherListed address]
  exact ⟨dep, member, sameTarget⟩

theorem assigned_of_faithful {before after : List Recipe} {recipe : Recipe}
    (shape : book.recipes = before ++ recipe :: after) (given : recipe.depend = none) :
    leaked before = [] := by
  apply List.eq_nil_iff_forall_not_mem.mpr
  intro dep member
  have printed : (mangle recipe.name, mangle dep) ∈ edges (botbrew_graphbuild book) :=
    (mem_edges_graphbuild book _).mpr
      ⟨before, recipe, after, shape, dep, by rw [given]; exact member, rfl⟩
  obtain ⟨own, inside, -⟩ := own_of_edge faithful (mem_of_split shape) printed
  rw [Recipe.own_none given] at inside
  cases inside

theorem flat_of_faithful {recipe other : Recipe} (listed : recipe ∈ book.recipes)
    (otherListed : other ∈ book.recipes) (member : other.address ∈ recipe.own) :
    other.parent = none := by
  by_contra nested
  -- the edge to the node of the nested recipe can only come from a name without a slash
  have drawn : (mangle recipe.name, mangle other.name) ∈ edges (botbrew_graphbuild book) := by
    rw [faithful.edges]
    refine ⟨recipe.address, other.address, ⟨recipe, listed, rfl, member⟩, ?_⟩
    rw [book.ident_recipe listed, book.ident_recipe otherListed]
  obtain ⟨before, source, after, shape, dep, printed, same⟩ := (mem_edges_graphbuild book _).mp drawn
  obtain ⟨sameSource, sameTarget⟩ := Prod.mk.inj same
  have sourceListed := mem_of_split shape
  rw [← book.ident_recipe listed, ← book.ident_recipe sourceListed] at sameSource
  have own : dep ∈ recipe.own := by
    have one := book.unique listed sourceListed (faithful.distinct
      (Cookbook.address_mem_names listed) (Cookbook.address_mem_names sourceListed) sameSource)
    rw [← one] at printed
    cases given : recipe.depend with
    | none =>
        rw [Recipe.own_none given] at member
        cases member
    | some depend =>
        rw [given] at printed
        rwa [Recipe.own_some given]
  have noSlash : '/' ∉ dep := by
    rw [← slash_mem_mangle, ← sameTarget, slash_mem_mangle]
    exact other.name_free
  have top : ∀ named ∈ book.recipes, named.address = dep → named.parent = none := by
    intro named _ address
    by_contra deep
    rw [← address, named.slash_mem_address] at noSlash
    exact noSlash deep
  have target : book.ident dep = book.ident other.address := by
    rw [book.ident_flat top, ← sameTarget, book.ident_recipe otherListed]
  have address := faithful.distinct (Cookbook.own_mem_names listed own)
    (Cookbook.address_mem_names otherListed) target
  exact nested (top other otherListed address.symm)

end

theorem botbrew_graphbuild_faithful (book : Cookbook) :
    Digraph.Faithful book.names book.Depends book.ident (edges (botbrew_graphbuild book)) ↔
      book.Separate := by
  constructor
  · intro faithful
    refine ⟨book.injOn_ident.mp faithful.distinct, ?_, ?_⟩
    · rintro recipe listed dep member other otherListed rfl
      exact flat_of_faithful faithful listed otherListed member
    · intro before recipe after shape given
      exact assigned_of_faithful faithful shape given
  · exact Cookbook.Separate.faithful

theorem mem_edges_graphinstall (files : List PackageFile) (edge : Text × Text) :
    edge ∈ edges (botbrew_graphinstall files) ↔
      ∃ pkg ∈ files, pkg.drawn = true ∧ ∃ dep ∈ splitDepends (pkg.Depends.getD []),
        edge = (mangle pkg.Package, mangle dep) := by
  unfold botbrew_graphinstall
  induction files with
  | nil => simp [edges]
  | cons pkg rest ih =>
      rw [List.flatMap_cons, edges_append, List.mem_append, ih]
      have own : edge ∈ edges pkg.statements ↔ pkg.drawn = true ∧
          ∃ dep ∈ splitDepends (pkg.Depends.getD []), edge = (mangle pkg.Package, mangle dep) := by
        unfold PackageFile.statements
        cases drawn : pkg.drawn with
        | false => simp [edges]
        | true =>
            rw [if_pos rfl, edges_node, edges_map, List.mem_map]
            simp only [true_and, eq_comm]
      rw [own]
      simp only [List.exists_mem_cons_iff]

theorem mem_namedIn {depends name : Text} (member : name ∈ namedIn depends) :
    '(' ∉ name ∧ '|' ∉ name := by
  obtain ⟨clause, -, inside⟩ := List.mem_flatMap.mp member
  have kept := (Text.mem_fields_infix inside).subset
  constructor
  · intro bracket
    exact absurd (List.mem_takeWhile_imp (kept bracket)) (by decide)
  · intro bar
    exact absurd (List.mem_takeWhile_imp (kept bar)) (by decide)

theorem splitDepends_eq (depends : Text) :
    splitDepends depends = (depends.splitOnP (· == ',')).flatMap Text.fields := by
  induction length : depends.length using Nat.strong_induction_on generalizing depends with
  | _ size ih =>
      by_cases comma : ',' ∈ depends
      · obtain ⟨first, second, rfl⟩ := List.append_of_mem comma
        have blank : Text.isSpace ' ' = true := by decide
        have shorter : first.length < size ∧ second.length < size := by
          rw [← length, List.length_append, List.length_cons]
          omega
        have left := ih _ shorter.1 first rfl
        have right := ih _ shorter.2 second rfl
        have joined : splitDepends (first ++ ',' :: second) =
            splitDepends first ++ splitDepends second := by
          unfold splitDepends
          rw [List.map_append, List.map_cons, if_pos rfl, Text.fields_append blank]
        rw [joined, left, right, List.splitOnP_append_cons _ _ (by simp), List.flatMap_append]
      · have whole : depends.splitOnP (· == ',') = [depends] :=
          List.splitOnP_eq_singleton fun char member => by
            rw [beq_eq_false_iff_ne]
            rintro rfl
            exact comma member
        have same : (depends.map fun char => if char = ',' then ' ' else char) = depends := by
          have kept : ∀ char ∈ depends, (if char = ',' then ' ' else char) = id char := by
            intro char member
            apply if_neg
            rintro rfl
            exact comma member
          rw [List.map_congr_left kept, List.map_id]
        rw [whole]
        unfold splitDepends
        rw [same]
        simp

theorem namedIn_eq {depends : Text} (noBracket : '(' ∉ depends) (noBar : '|' ∉ depends) :
    namedIn depends = splitDepends depends := by
  rw [splitDepends_eq]
  apply List.flatMap_congr
  intro clause member
  have inside : clause ⊆ depends := by
    cases shape : depends.splitOnP (· == ',') with
    | nil => exact absurd shape (List.splitOnP_ne_nil _ _)
    | cons first rest =>
        rw [shape] at member
        obtain ⟨start, others⟩ := Text.splitOnP_infix shape
        obtain rfl | member := List.mem_cons.mp member
        · exact start.subset
        · exact (others clause member).subset
  have whole : clause.takeWhile (fun char => char ≠ '(' && char ≠ '|') = clause := by
    rw [List.takeWhile_eq_self_iff]
    intro char given
    have noBracket' : char ≠ '(' := by
      rintro rfl
      exact noBracket (inside given)
    have noBar' : char ≠ '|' := by
      rintro rfl
      exact noBar (inside given)
    simp [noBracket', noBar']
  rw [whole]

theorem exists_word {depends : Text} {char : Char} (member : char ∈ depends)
    (visible : Text.isSpace char = false) (noComma : char ≠ ',') :
    ∃ word ∈ splitDepends depends, char ∈ word := by
  apply Text.exists_field _ visible
  exact List.mem_map.mpr ⟨char, member, if_neg noComma⟩

theorem mangle_subset {name : Text} {char : Char} (dash : char ≠ '-') (dot : char ≠ '.')
    (underscore : char ≠ '_') : char ∈ mangle name ↔ char ∈ name := by
  unfold mangle
  rw [List.mem_map]
  constructor
  · rintro ⟨own, member, rfl⟩
    split_ifs at underscore ⊢ with mangled
    · exact absurd rfl underscore
    · exact member
  · intro member
    exact ⟨char, member, by simp [dash, dot]⟩

theorem botbrew_graphinstall_faithful (files : List PackageFile) :
    Digraph.Faithful (packageNames files) (DependsOn files) mangle
        (edges (botbrew_graphinstall files)) ↔
      ((packageNames files).Pairwise fun first second => ¬ Alike first second) ∧
        ∀ pkg ∈ files, pkg.drawn = true →
          '(' ∉ pkg.Depends.getD [] ∧ '|' ∉ pkg.Depends.getD [] := by
  constructor
  · intro faithful
    have plain : ∀ char : Char, Text.isSpace char = false → char ≠ ',' → char ≠ '-' → char ≠ '.' →
        char ≠ '_' → (∀ depends name, name ∈ namedIn depends → char ∉ name) →
        ∀ pkg ∈ files, pkg.drawn = true → char ∉ pkg.Depends.getD [] := by
      intro char visible noComma dash dot underscore never pkg listed drawn member
      obtain ⟨word, listedWord, inside⟩ := exists_word member visible noComma
      have printed := (mem_edges_graphinstall files _).mpr ⟨pkg, listed, drawn, word, listedWord, rfl⟩
      obtain ⟨source, target, ⟨other, -, -, -, named⟩, same⟩ := (faithful.edges _).mp printed
      have words : mangle word = mangle target := (Prod.mk.inj same).2
      rw [← mangle_subset dash dot underscore, words, mangle_subset dash dot underscore] at inside
      exact never _ _ named inside
    refine ⟨(injOn_mangle _ id).mp faithful.distinct, ?_⟩
    intro pkg listed drawn
    constructor
    · exact plain '(' (by decide) (by decide) (by decide) (by decide) (by decide)
        (fun _ _ named => (mem_namedIn named).1) pkg listed drawn
    · exact plain '|' (by decide) (by decide) (by decide) (by decide) (by decide)
        (fun _ _ named => (mem_namedIn named).2) pkg listed drawn
  · rintro ⟨apart, plain⟩
    refine ⟨(injOn_mangle _ id).mpr apart, ?_⟩
    intro edge
    rw [mem_edges_graphinstall]
    constructor
    · rintro ⟨pkg, listed, drawn, dep, member, rfl⟩
      obtain ⟨noBracket, noBar⟩ := plain pkg listed drawn
      rw [← namedIn_eq noBracket noBar] at member
      exact ⟨pkg.Package, dep, ⟨pkg, listed, drawn, rfl, member⟩, rfl⟩
    · rintro ⟨source, target, ⟨pkg, listed, drawn, rfl, member⟩, rfl⟩
      obtain ⟨noBracket, noBar⟩ := plain pkg listed drawn
      rw [namedIn_eq noBracket noBar] at member
      exact ⟨pkg, listed, drawn, target, member, rfl⟩

theorem botbrew_graphs_faithful (book : Cookbook) (files : List PackageFile) :
    (Digraph.Faithful book.names book.Depends book.ident (edges (botbrew_graphbuild book)) ↔
        book.Separate) ∧
      (Digraph.Faithful (packageNames files) (DependsOn files) mangle
          (edges (botbrew_graphinstall files)) ↔
        ((packageNames files).Pairwise fun first second => ¬ Alike first second) ∧
          ∀ pkg ∈ files, pkg.drawn = true →
            '(' ∉ pkg.Depends.getD [] ∧ '|' ∉ pkg.Depends.getD []) :=
  ⟨botbrew_graphbuild_faithful book, botbrew_graphinstall_faithful files⟩

/-- The second recipe assigns no dependencies and is drawn with those of the first. -/
def leaking : Cookbook where
  recipes :=
    [{ parent := none, name := "app".toList, version := some "1.0".toList,
       depend := some ["lib".toList], name_free := by decide },
     { parent := none, name := "tool".toList, version := some "1.0".toList,
       depend := none, name_free := by decide }]
  distinct := by decide

theorem botbrew_graphbuild_leaks :
    ¬ Digraph.Faithful leaking.names leaking.Depends leaking.ident
      (edges (botbrew_graphbuild leaking)) := by
  rw [botbrew_graphbuild_faithful]
  intro separate
  exact absurd (separate.assigned [_] _ [] rfl rfl) (by decide)

end BotBrew.Listing
