import Mathlib.Logic.Relation

/-! Makefiles with phony and file targets, and the orders in which `make` may run them. -/

set_option autoImplicit false

namespace BotBrew.Make

structure Rule (Name Command : Type) where
  target : Name
  prerequisites : List Name
  commands : List Command

structure Makefile (Name Command : Type) where
  phony : List Name
  rules : List (Rule Name Command)

variable {Name Command : Type} (file : Makefile Name Command)

def Requires (target prerequisite : Name) : Prop :=
  ∃ rule ∈ file.rules, rule.target = target ∧ prerequisite ∈ rule.prerequisites

def Runs (target : Name) (command : Command) : Prop :=
  ∃ rule ∈ file.rules, rule.target = target ∧ command ∈ rule.commands

/-- A target is made if it is phony, if its file is missing, or if one of its
prerequisites is made. -/
inductive Made (present : Name → Prop) : Name → Prop where
  | phony {target} : target ∈ file.phony → Made present target
  | missing {target} : ¬ present target → Made present target
  | stale {target prerequisite} :
      Requires file target prerequisite → Made present prerequisite → Made present target

/-- An order in which `make goal` may make its targets. -/
structure Order (present : Name → Prop) (goal : Name) (log : List Name) : Prop where
  once : log.Nodup
  made : ∀ target, target ∈ log ↔
    Relation.ReflTransGen (Requires file) goal target ∧ Made file present target
  after : ∀ target prerequisite before rest, log = before ++ target :: rest →
    Relation.TransGen (Requires file) target prerequisite → prerequisite ∉ rest

end BotBrew.Make
