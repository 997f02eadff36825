import Mathlib.Data.Set.Function

/-! What it means for a drawn graph to show a relation. -/

set_option autoImplicit false

namespace BotBrew.Digraph

variable {Name Ident : Type}

/-- Distinct names have distinct identifiers, and the edges are those of the relation. -/
structure Faithful (names : Set Name) (relation : Name → Name → Prop) (ident : Name → Ident)
    (edges : List (Ident × Ident)) : Prop where
  distinct : Set.InjOn ident names
  edges : ∀ edge, edge ∈ edges ↔ ∃ source target, relation source target ∧
    edge = (ident source, ident target)

end BotBrew.Digraph
