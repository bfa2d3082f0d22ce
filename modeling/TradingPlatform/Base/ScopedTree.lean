import Mathlib.Data.List.Basic

/-! # Trees with scoped declarations

A labelled tree in which every node may declare names. A name is in scope in the
node that declares it and below, in the declarations that follow it, and under a
recursive list in its own declaration too. `occurrences` lists the labels, each
with the names in scope at its node.
-/

namespace TradingPlatform.Base

mutual

inductive Tree (α : Type) where
  | node (label : α) (recursive : Bool) (declarations : Declarations α) (children : Forest α)

inductive Forest (α : Type) where
  | nil
  | cons (head : Tree α) (tail : Forest α)

inductive Declarations (α : Type) where
  | nil
  | cons (name : String) (body : Tree α) (rest : Declarations α)

end

variable {α : Type}

def Tree.label : Tree α → α
  | .node label _ _ _ => label

def Forest.ofList : List (Tree α) → Forest α
  | [] => .nil
  | t :: ts => .cons t (ofList ts)

/-- The names a list declares. -/
def Declarations.names : Declarations α → List String
  | .nil => []
  | .cons name _ rest => name :: rest.names

/-! ## Every node -/

mutual

def Tree.labels : Tree α → List α
  | .node label _ declarations children => label :: (declarations.labels ++ children.labels)

def Forest.labels : Forest α → List α
  | .nil => []
  | .cons head tail => head.labels ++ tail.labels

def Declarations.labels : Declarations α → List α
  | .nil => []
  | .cons _ body rest => body.labels ++ rest.labels

end

mutual

/-- Every name declared anywhere in the tree. -/
def Tree.declared : Tree α → List String
  | .node _ _ declarations children => declarations.declared ++ children.declared

def Forest.declared : Forest α → List String
  | .nil => []
  | .cons head tail => head.declared ++ tail.declared

def Declarations.declared : Declarations α → List String
  | .nil => []
  | .cons name body rest => name :: (body.declared ++ rest.declared)

end

/-! ## Scopes -/

structure Occurrence (α : Type) where
  label : α
  scope : List String
  deriving DecidableEq

mutual

def Tree.occurrences (scope : List String) : Tree α → List (Occurrence α)
  | .node label recursive declarations children =>
      ⟨label, declarations.names ++ scope⟩ ::
        (declarations.occurrences recursive scope ++
          children.occurrences (declarations.names ++ scope))

def Forest.occurrences (scope : List String) : Forest α → List (Occurrence α)
  | .nil => []
  | .cons head tail => head.occurrences scope ++ tail.occurrences scope

def Declarations.occurrences (recursive : Bool) (scope : List String) :
    Declarations α → List (Occurrence α)
  | .nil => []
  | .cons name body rest =>
      body.occurrences (if recursive then name :: scope else scope) ++
        rest.occurrences recursive (name :: scope)

end

mutual

/-- The occurrences are the nodes. -/
theorem Tree.map_occurrences (scope : List String) (t : Tree α) :
    (t.occurrences scope).map (·.label) = t.labels := by
  cases t with
  | node label recursive declarations children =>
      rw [Tree.occurrences, Tree.labels, List.map_cons, List.map_append,
        declarations.map_occurrences, children.map_occurrences]

theorem Forest.map_occurrences (scope : List String) (f : Forest α) :
    (f.occurrences scope).map (·.label) = f.labels := by
  cases f with
  | nil => rfl
  | cons head tail =>
      rw [Forest.occurrences, Forest.labels, List.map_append, head.map_occurrences,
        tail.map_occurrences]

theorem Declarations.map_occurrences (recursive : Bool) (scope : List String)
    (d : Declarations α) : (d.occurrences recursive scope).map (·.label) = d.labels := by
  cases d with
  | nil => rfl
  | cons name body rest =>
      rw [Declarations.occurrences, Declarations.labels, List.map_append,
        body.map_occurrences, rest.map_occurrences]

end

theorem Tree.mem_labels {t : Tree α} {o : Occurrence α} {scope : List String}
    (h : o ∈ t.occurrences scope) : o.label ∈ t.labels := by
  rw [← t.map_occurrences scope]
  exact List.mem_map_of_mem h

theorem Declarations.names_subset (d : Declarations α) : d.names ⊆ d.declared := by
  cases d with
  | nil => exact List.nil_subset _
  | cons name body rest =>
      rw [Declarations.names, Declarations.declared]
      have hrest := rest.names_subset
      grind

mutual

/-- A name in scope comes from outside the tree or is declared somewhere in it. -/
theorem Tree.scope_subset {t : Tree α} {o : Occurrence α} {scope : List String}
    (h : o ∈ t.occurrences scope) : o.scope ⊆ scope ++ t.declared := by
  cases t with
  | node label recursive declarations children =>
      have hnames := declarations.names_subset
      rw [Tree.occurrences, List.mem_cons, List.mem_append] at h
      rcases h with rfl | h | h
      · rw [Tree.declared]
        grind
      · have hscope := Declarations.scope_subset h
        rw [Tree.declared]
        grind
      · have hscope := Forest.scope_subset h
        rw [Tree.declared]
        grind

theorem Forest.scope_subset {f : Forest α} {o : Occurrence α} {scope : List String}
    (h : o ∈ f.occurrences scope) : o.scope ⊆ scope ++ f.declared := by
  cases f with
  | nil => cases h
  | cons head tail =>
      rw [Forest.occurrences, List.mem_append] at h
      rw [Forest.declared]
      rcases h with h | h
      · have hscope := Tree.scope_subset h
        grind
      · have hscope := Forest.scope_subset h
        grind

theorem Declarations.scope_subset {d : Declarations α} {recursive : Bool} {o : Occurrence α}
    {scope : List String} (h : o ∈ d.occurrences recursive scope) :
    o.scope ⊆ scope ++ d.declared := by
  cases d with
  | nil => cases h
  | cons name body rest =>
      rw [Declarations.occurrences, List.mem_append] at h
      rw [Declarations.declared]
      rcases h with h | h
      · have hscope := Tree.scope_subset h
        cases recursive <;> grind
      · have hscope := Declarations.scope_subset h
        grind

end

end TradingPlatform.Base
