import TradingPlatform.Console.SqlValidator

/-! # Where the tables of an accepted query come from

An unqualified name resolves to a common table expression in scope, or else to a
table of the database; a qualified one always names a table of the database.
Names are compared up to `fold`, the identity or a change of case.
-/

namespace TradingPlatform.Console

open Base

inductive Target where
  | cte (name : String)
  | stored (ref : TableRef)
  deriving DecidableEq, Repr

/-- The table a node names; one that calls a table function names none. -/
def NodeKind.reference : NodeKind → Option TableRef
  | .table ref => if ref.name = "" then none else some ref
  | _ => none

theorem mem_reference {kind : NodeKind} {ref : TableRef} :
    ref ∈ kind.reference ↔ kind = .table ref ∧ ref.name ≠ "" := by
  unfold NodeKind.reference
  grind

section Resolution

variable (fold : String → String)

def resolve (scope : List String) (ref : TableRef) : Target :=
  if ref.schema = "" ∧ ref.catalog = "" then
    (scope.find? fun name => fold name = fold ref.name).elim (.stored ref) .cte
  else .stored ref

/-- A common table expression, or an unqualified table of the dataset. -/
def Allowed (allowed : List String) : Target → Prop
  | .cte _ => True
  | .stored ref =>
      ref.schema = "" ∧ ref.catalog = "" ∧ ∃ table ∈ allowed, fold table = fold ref.name

/-- Every table reference of the query resolves to something allowed. -/
def TouchesOnly (allowed : List String) (expression : Expr) : Prop :=
  ∀ o ∈ expression.occurrences [], ∀ ref ∈ o.label.reference,
    Allowed fold allowed (resolve fold o.scope ref)

/-- A reference with the name of a common table expression of the query is unqualified, and has
one of that name in scope unless it names a table of the dataset. -/
def SharedNamesScoped (allowed : List String) (expression : Expr) : Prop :=
  ∀ o ∈ expression.occurrences [], ∀ ref ∈ o.label.reference,
    ref.name ∈ expression.declared → ref.schema = "" ∧ ref.catalog = "" ∧
      ((∃ name ∈ o.scope, fold name = fold ref.name) ∨
        ∃ table ∈ allowed, fold table = fold ref.name)

instance (allowed : List String) (target : Target) : Decidable (Allowed fold allowed target) :=
  match target with
  | .cte _ => inferInstanceAs (Decidable True)
  | .stored _ => inferInstanceAs (Decidable (_ ∧ _ ∧ _))

instance (allowed : List String) (expression : Expr) :
    Decidable (TouchesOnly fold allowed expression) :=
  inferInstanceAs (Decidable (∀ _ ∈ _, _))

instance (allowed : List String) (expression : Expr) :
    Decidable (SharedNamesScoped fold allowed expression) :=
  inferInstanceAs (Decidable (∀ _ ∈ _, _))

variable {fold} {allowed : List String}

theorem allowed_resolve_iff {scope : List String} {ref : TableRef} :
    Allowed fold allowed (resolve fold scope ref) ↔ ref.schema = "" ∧ ref.catalog = "" ∧
      ((∃ name ∈ scope, fold name = fold ref.name) ∨
        ∃ table ∈ allowed, fold table = fold ref.name) := by
  unfold resolve
  by_cases hunqualified : ref.schema = "" ∧ ref.catalog = ""
  · rw [if_pos hunqualified]
    cases hfind : scope.find? fun name => fold name = fold ref.name with
    | none =>
        have hnone : ¬ ∃ name ∈ scope, fold name = fold ref.name := by
          simpa using List.find?_eq_none.mp hfind
        simp only [Option.elim_none, Allowed, hnone, false_or]
    | some name =>
        have hname : fold name = fold ref.name := by simpa using List.find?_some hfind
        have hscoped : ∃ name ∈ scope, fold name = fold ref.name :=
          ⟨name, List.mem_of_find?_eq_some hfind, hname⟩
        simp only [Option.elim_some, Allowed, hscoped, hunqualified, true_or, and_self]
  · rw [if_neg hunqualified, Allowed]
    grind

/-- An accepted query touches only its dataset exactly when its shared names are scoped. -/
theorem accepted_touchesOnly_iff {parse : String → Except String (List (Option Expr))}
    {query dataset : String} {expression : Expr}
    (known : datasetTables.lookup dataset = some allowed)
    (parsed : parse query = .ok [some expression])
    (accepted : validate parse query dataset = .ok ()) :
    TouchesOnly fold allowed expression ↔ SharedNamesScoped fold allowed expression := by
  obtain ⟨allowed', expression', hknown, hparsed, hvalid⟩ := validate_ok accepted
  obtain rfl : allowed = allowed' := by
    rw [known] at hknown
    exact Option.some.inj hknown
  obtain rfl : expression = expression' := by
    rw [parsed] at hparsed
    cases hparsed
    rfl
  constructor
  · intro htouches o ho ref href _
    exact allowed_resolve_iff.mp (htouches o ho ref href)
  · intro hscoped o ho ref href
    rw [allowed_resolve_iff]
    by_cases hshared : ref.name ∈ expression.declared
    · exact hscoped o ho ref href hshared
    · have ⟨hlabel, hname⟩ := mem_reference.mp href
      have hmem := Base.Tree.mem_labels ho
      rw [hlabel] at hmem
      have ⟨hschema, hcatalog, hlisted⟩ := validateExpression_ok hvalid hmem hname hshared
      exact ⟨hschema, hcatalog, Or.inr ⟨ref.name, hlisted, rfl⟩⟩

end Resolution

/-- The table check refuses no query whose references all resolve, names compared exactly. -/
theorem checkTables_of_touchesOnly {allowed : List String} {expression : Expr}
    (h : TouchesOnly id allowed expression) (dataset : String) :
    checkTables dataset allowed (extractTablesWithSchema expression) = .ok () := by
  rw [checkTables_ok]
  intro ref href
  have ⟨hmem, hname, hfresh⟩ := mem_extractTables.mp href
  rw [← expression.map_occurrences [], List.mem_map] at hmem
  obtain ⟨o, ho, hlabel⟩ := hmem
  have ⟨hschema, hcatalog, hwhere⟩ :=
    allowed_resolve_iff.mp (h o ho ref (mem_reference.mpr ⟨hlabel, hname⟩))
  rcases hwhere with ⟨name, hscope, rfl⟩ | ⟨table, hlisted, rfl⟩
  · have hdeclared := Base.Tree.scope_subset ho hscope
    exact absurd hdeclared hfresh
  · exact ⟨hschema, hcatalog, hlisted⟩

/-! ## Queries with one common table expression -/

def tables (refs : List TableRef) : Forest NodeKind :=
  .ofList (refs.map fun ref => .node (.table ref) false .nil .nil)

def selectFrom (refs : List TableRef) : Expr := .node .select false .nil (tables refs)

/-- `WITH x AS (SELECT * FROM crsp_daily) SELECT * FROM ...` -/
def withX (refs : List TableRef) : Expr :=
  .node .select false (.cons "x" (selectFrom [⟨"crsp_daily", "", ""⟩]) .nil) (tables refs)

/-- `SELECT * FROM (WITH x AS (SELECT * FROM crsp_daily) SELECT * FROM x), x` -/
def xOutside : Expr :=
  .node .select false .nil
    (.cons (.node .other false .nil (.cons (withX [⟨"x", "", ""⟩]) .nil)) (tables [⟨"x", "", ""⟩]))

theorem scoped_x_touchesOnly :
    validate (fun _ => .ok [some (withX [⟨"x", "", ""⟩])])
        "WITH x AS (SELECT * FROM crsp_daily) SELECT * FROM x" "crsp" = .ok () ∧
      TouchesOnly id ["crsp_daily", "crsp_monthly"] (withX [⟨"x", "", ""⟩]) := by
  have accepted : validate (fun _ => .ok [some (withX [⟨"x", "", ""⟩])])
      "WITH x AS (SELECT * FROM crsp_daily) SELECT * FROM x" "crsp" = .ok () := by
    decide +kernel
  exact ⟨accepted, (accepted_touchesOnly_iff rfl rfl accepted).mpr (by decide +kernel)⟩

/-- A qualified name passes, and so does one outside the block that declares it. -/
theorem x_escapes_scope :
    (validate (fun _ => .ok [some (withX [⟨"x", "other", ""⟩])])
        "WITH x AS (SELECT * FROM crsp_daily) SELECT * FROM other.x" "crsp" = .ok () ∧
      ¬ TouchesOnly id ["crsp_daily", "crsp_monthly"] (withX [⟨"x", "other", ""⟩])) ∧
    (validate (fun _ => .ok [some xOutside])
        "SELECT * FROM (WITH x AS (SELECT * FROM crsp_daily) SELECT * FROM x), x" "crsp" = .ok () ∧
      ¬ TouchesOnly id ["crsp_daily", "crsp_monthly"] xOutside) := by
  decide +kernel

end TradingPlatform.Console
