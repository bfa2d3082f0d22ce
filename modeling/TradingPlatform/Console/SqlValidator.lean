import TradingPlatform.Base.ScopedTree
import TradingPlatform.Base.Text

/-! # The validator of the dataset explorer

A parsed query is a tree whose nodes may carry a `WITH` list. The validator walks
all its nodes; it walks them depth first here, which decides no more than which
of several refusals is reported.
-/

namespace TradingPlatform.Console

open Base

def datasetTables : List (String × List String) :=
  [("crsp", ["crsp_daily", "crsp_monthly"]),
    ("compustat", ["compustat_annual", "compustat_quarterly"]),
    ("fama_french", ["ff_factors_daily", "ff_factors_monthly"]),
    ("taq", ["taq_trades", "taq_quotes"]),
    ("alpaca_sip", ["alpaca_sip_daily", "alpaca_sip_corp_actions"])]

def blockedFunctions : List String :=
  ["read_*", "parquet_scan", "csv_scan", "json_scan", "sqlite_scan", "sqlite_attach",
    "excel_scan", "iceberg_scan", "delta_scan", "glob", "list_files", "httpfs_*", "s3_*",
    "http_*", "azure_*", "gcs_*", "postgres_*", "mysql_*", "duckdb_*"]

/-! ## Query trees -/

/-- A part that is not given is empty. -/
structure TableRef where
  name : String
  schema : String
  catalog : String
  deriving DecidableEq, Repr

/-- The statements a read-only query may not contain. -/
inductive Operation where
  | insert | update | delete | merge
  | create | drop | alter
  | grant | revoke | transaction | command
  | copy | loadData | attach | detach | pragma | set | use
  deriving DecidableEq, Repr

inductive NodeKind where
  | select
  | setOperation
  | withClause
  /-- A table; one that calls a table function has no name. -/
  | table (ref : TableRef)
  /-- A function call, by its name in lower case. -/
  | func (name : String)
  | operation (op : Operation)
  | other
  deriving DecidableEq, Repr

/-- The declarations of a node are its common table expressions. -/
abbrev Expr := Base.Tree NodeKind

/-! ## Checks -/

def isSelectStatement : Expr → Bool
  | .node .select _ _ _ | .node .setOperation _ _ _ => true
  | .node .withClause _ _ (.cons this _) => this.label ∈ [.select, .setOperation]
  | _ => false

def hasDisallowedOperations (expression : Expr) : Bool :=
  expression.labels.any fun kind => kind matches .operation _

/-- A blocked name that ends in a star blocks every name it is a prefix of. -/
def isBlockedFunction (name : String) : Bool :=
  blockedFunctions.any fun blocked =>
    if blocked.toList.getLast? = some '*' then
      blocked.toList.dropLast.isPrefixOf name.toList
    else name = blocked

def firstBlockedFunction (expression : Expr) : Option String :=
  expression.labels.findSome? fun
    | .func name => if isBlockedFunction name then some name else none
    | _ => none

def cteNames (expression : Expr) : List String := expression.declared.filter (· ≠ "")

/-- The tables that are checked: those without the name of any common table expression. -/
def extractTablesWithSchema (expression : Expr) : List TableRef :=
  expression.labels.filterMap fun
    | .table ref => if ref.name = "" ∨ ref.name ∈ cteNames expression then none else some ref
    | _ => none

def checkTable (allowedDataset : String) (allowedTables : List String) (ref : TableRef) :
    Except String Unit :=
  if ref.schema ≠ "" ∨ ref.catalog ≠ "" then
    let qualified :=
      if ref.catalog ≠ "" then s!"{ref.catalog}.{ref.schema}.{ref.name}"
      else s!"{ref.schema}.{ref.name}"
    .error s!"Schema-qualified tables not allowed: {qualified}"
  else if ref.name ∉ allowedTables then
    .error s!"Table '{ref.name}' is not allowed for dataset '{allowedDataset}'"
  else .ok ()

def checkTables (allowedDataset : String) (allowedTables : List String) :
    List TableRef → Except String Unit
  | [] => .ok ()
  | ref :: rest =>
      match checkTable allowedDataset allowedTables ref with
      | .error message => .error message
      | .ok () => checkTables allowedDataset allowedTables rest

def validateExpression (allowedDataset : String) (allowedTables : List String)
    (expression : Expr) : Except String Unit :=
  if isSelectStatement expression = false then .error "Only SELECT statements are allowed"
  else if hasDisallowedOperations expression then
    .error "Only read-only SELECT statements are allowed"
  else match firstBlockedFunction expression with
    | some name => .error s!"Blocked function usage detected: {name}"
    | none => checkTables allowedDataset allowedTables (extractTablesWithSchema expression)

/-- The parser answers with a statement list, in which a statement may be missing, or with the
text of a parse error. -/
def validate (parse : String → Except String (List (Option Expr)))
    (query allowedDataset : String) : Except String Unit :=
  if strip query = "" then .error "Query cannot be empty"
  else match datasetTables.lookup allowedDataset with
    | none => .error s!"Unknown dataset: {allowedDataset}"
    | some allowedTables =>
        match parse query with
        | .error exc => .error s!"Invalid SQL: {exc}"
        | .ok [none] => .error "Failed to parse query"
        | .ok [some expression] => validateExpression allowedDataset allowedTables expression
        | .ok _ => .error "Multi-statement queries are not allowed"

/-! ## What acceptance says -/

theorem checkTable_ok (dataset : String) {allowed : List String} {ref : TableRef} :
    checkTable dataset allowed ref = .ok () ↔
      ref.schema = "" ∧ ref.catalog = "" ∧ ref.name ∈ allowed := by
  unfold checkTable
  grind

theorem checkTables_ok {dataset : String} {allowed : List String} {refs : List TableRef} :
    checkTables dataset allowed refs = .ok () ↔
      ∀ ref ∈ refs, ref.schema = "" ∧ ref.catalog = "" ∧ ref.name ∈ allowed := by
  induction refs with
  | nil => exact iff_of_true rfl fun _ h => absurd h List.not_mem_nil
  | cons ref refs ih =>
      rw [List.forall_mem_cons, ← ih, ← checkTable_ok dataset, checkTables]
      cases checkTable dataset allowed ref with
      | error message => simp
      | ok _ => simp

theorem mem_cteNames {expression : Expr} {name : String} :
    name ∈ cteNames expression ↔ name ∈ expression.declared ∧ name ≠ "" := by
  rw [cteNames, List.mem_filter, decide_eq_true_eq]

theorem mem_extractTables {expression : Expr} {ref : TableRef} :
    ref ∈ extractTablesWithSchema expression ↔
      .table ref ∈ expression.labels ∧ ref.name ≠ "" ∧ ref.name ∉ expression.declared := by
  rw [extractTablesWithSchema, List.mem_filterMap]
  constructor
  · rintro ⟨kind, hkind, hsome⟩
    split at hsome
    · rename_i found
      split at hsome
      · cases hsome
      · rename_i hskip
        cases hsome
        rw [mem_cteNames] at hskip
        grind
    · cases hsome
  · rintro ⟨hmem, hname, hfresh⟩
    refine ⟨.table ref, hmem, if_neg ?_⟩
    rw [mem_cteNames]
    grind

/-- Each table of an accepted tree is unqualified and listed, or shares its name with a common
table expression. -/
theorem validateExpression_ok {dataset : String} {allowed : List String} {expression : Expr}
    (accepted : validateExpression dataset allowed expression = .ok ()) {ref : TableRef}
    (hmem : .table ref ∈ expression.labels) (hname : ref.name ≠ "")
    (hfresh : ref.name ∉ expression.declared) :
    ref.schema = "" ∧ ref.catalog = "" ∧ ref.name ∈ allowed := by
  unfold validateExpression at accepted
  split at accepted
  · cases accepted
  · split at accepted
    · cases accepted
    · split at accepted
      · cases accepted
      · exact checkTables_ok.mp accepted ref (mem_extractTables.mpr ⟨hmem, hname, hfresh⟩)

/-- An accepted query parses to one tree, which is accepted for a known dataset. -/
theorem validate_ok {parse : String → Except String (List (Option Expr))}
    {query dataset : String} (accepted : validate parse query dataset = .ok ()) :
    ∃ allowed expression, datasetTables.lookup dataset = some allowed ∧
      parse query = .ok [some expression] ∧
      validateExpression dataset allowed expression = .ok () := by
  unfold validate at accepted
  split at accepted
  · cases accepted
  · split at accepted
    · cases accepted
    · rename_i allowed hallowed
      split at accepted
      · cases accepted
      · cases accepted
      · rename_i expression hparse
        exact ⟨allowed, expression, hallowed, hparse, accepted⟩
      · cases accepted

end TradingPlatform.Console
