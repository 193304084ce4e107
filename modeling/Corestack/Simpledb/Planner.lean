import Mathlib.Algebra.Group.Int.Defs
import Corestack.Simpledb.Execution

/-!
# From a statement to a plan (`Parser`, `LogicalPlan`)

Statements on one table, as the trees that Zql makes of them: where clauses
are taken apart into filters and joins, names are resolved, and the plan is
put together. Subqueries, aggregates and groups are left out; a join on a
single table ends in an error, whatever the optimizer makes of it first.
-/

namespace Corestack.Simpledb

open Lib

/-! ## Trees -/

/-- The type of a `ZConstant`. -/
inductive ZType where
  | unknown
  | columnName
  | null
  | number
  | string
deriving DecidableEq, Repr

inductive ZExp where
  | const (type : ZType) (value : JString)
  | expr (operator : JString) (operands : List ZExp)

structure ZSelectItem where
  table : Option JString
  column : JString

structure ZQuery where
  table : JString
  tableAlias : Option JString
  select : List ZSelectItem
  where_ : Option ZExp
  orderBy : Option (JString × Bool)

structure ZDelete where
  table : JString
  where_ : Option ZExp

/-- A table of the catalog. -/
structure HeapTable where
  name : JString
  td : TupleDesc

/-! ## Names -/

abbrev dot : UInt16 := 46

/-- A string cut at its dots. -/
def cutDots : JString → List JString
  | [] => [[]]
  | c :: s =>
    if c = dot then [] :: cutDots s
    else
      match cutDots s with
      | [] => [[c]]
      | part :: parts => (c :: part) :: parts

/-- `split("[.]")`: empty parts at the end are dropped, unless there was
nothing to split. -/
def splitDots (s : JString) : List JString :=
  let parts := cutDots s
  if parts.length = 1 then parts else (parts.reverse.dropWhile (· = [])).reverse

structure LogicalFilterNode where
  tableAlias : JString
  p : PredOp
  c : JString
  fieldQuantifiedName : JString
deriving DecidableEq, Repr

structure LogicalJoinNode where
  t1Alias : JString
  t2Alias : JString
  f1 : JString
  f2 : JString
  p : PredOp
deriving DecidableEq, Repr

/-- A plan with its one scan. -/
structure LogicalPlan where
  tableAlias : JString
  td : TupleDesc
  filters : List LogicalFilterNode
  joins : List LogicalJoinNode
  selectList : List JString
  orderBy : Option (JString × Bool)

/-- `fieldNameToIndex`: the first field of a name. -/
def fieldNameToIndex (names : List JString) (name : JString) : Option Nat :=
  names.findIdx? (· = name)

def LogicalPlan.names (lp : LogicalPlan) : List JString :=
  lp.td.map fun item => lp.tableAlias ++ dot :: item.fieldName

/-- The part of `disambiguateName` for a name without a table. -/
def findTable (lp : LogicalPlan) (name : JString) : Except DbErr JString :=
  if name = jstr "*" then .ok name
  else
    match fieldNameToIndex (lp.td.map TDItem.fieldName) name with
    | some _ => .ok (lp.tableAlias ++ dot :: name)
    | none => .error (.unknownField name)

def disambiguateName (lp : LogicalPlan) (name : JString) : Except DbErr JString :=
  let fields := splitDots name
  if fields.length = 2 ∧ fields[0]? ≠ some (jstr "null") then .ok name
  else if 2 < fields.length then .error (.invalidReference name)
  else findTable lp (if fields.length = 2 then fields[1]?.getD [] else name)

/-- The two parts of a name that was disambiguated. -/
def qualifiedParts (lp : LogicalPlan) (name : JString) : Except DbErr (JString × JString) := do
  let name ← disambiguateName lp name
  match splitDots name with
  | table :: field :: _ => return (table, field)
  | _ => .error .indexOutOfBounds

def addFilter (lp : LogicalPlan) (field : JString) (p : PredOp) (constantValue : JString) :
    Except DbErr LogicalPlan := do
  let (table, pureField) ← qualifiedParts lp field
  return { lp with filters := lp.filters ++ [⟨table, p, constantValue, table ++ dot :: pureField⟩] }

def addJoin (lp : LogicalPlan) (field1 field2 : JString) (p : PredOp) :
    Except DbErr LogicalPlan := do
  let (t1, f1) ← qualifiedParts lp field1
  let (t2, f2) ← qualifiedParts lp field2
  if t1 = t2 then .error .sameTableJoin
  else return { lp with joins := lp.joins ++ [⟨t1, t2, f1, f2, p⟩] }

def addProjectField (lp : LogicalPlan) (item : ZSelectItem) : Except DbErr LogicalPlan := do
  let fname ← disambiguateName lp (item.table.getD (jstr "null") ++ dot :: item.column)
  let fname := if fname = jstr "*" then jstr "null.*" else fname
  return { lp with selectList := lp.selectList ++ [fname] }

/-! ## Where clauses -/

def getOp (s : JString) : Except DbErr PredOp :=
  if s = jstr "=" then .ok .equals
  else if s = jstr ">" then .ok .greaterThan
  else if s = jstr ">=" then .ok .greaterThanOrEq
  else if s = jstr "<" then .ok .lessThan
  else if s = jstr "<=" then .ok .lessThanOrEq
  else if s = jstr "LIKE" then .ok .like
  else if s = jstr "~" then .ok .like
  else if s = jstr "<>" then .ok .notEquals
  else if s = jstr "!=" then .ok .notEquals
  else .error (.unknownPredicate s)

/-- The branch of `processExpression` for a comparison. The column may stand
on either side; the operator is taken as it is. -/
def processComparison (lp : LogicalPlan) (operator : JString) :
    List ZExp → Except DbErr LogicalPlan
  | [a, b] => do
      let op ← getOp operator
      match a, b with
      | .const type1 value1, .const type2 value2 =>
        if type1 = .columnName ∧ type2 = .columnName then addJoin lp value1 value2 op
        else if type1 = .columnName then addFilter lp value1 op value2
        else addFilter lp value2 op value1
      | _, _ => .error .notSimple
  | _ => .error .notBinary

mutual

def processExpression (lp : LogicalPlan) : ZExp → Except DbErr LogicalPlan
  | .const _ _ => .error .classCast
  | .expr operator operands =>
    if operator = jstr "AND" then processOperands lp operands
    else if operator = jstr "OR" then .error .orUnsupported
    else processComparison lp operator operands

/-- The loop over the operands of AND. -/
def processOperands (lp : LogicalPlan) : List ZExp → Except DbErr LogicalPlan
  | [] => .ok lp
  | .const _ _ :: _ => .error .nestedUnsupported
  | .expr operator operands :: es => do
      let lp ← processExpression lp (.expr operator operands)
      processOperands lp es

end

/-! ## Constants -/

def digitValue (c : UInt16) : Option Nat :=
  if 48 ≤ c ∧ c ≤ 57 then some (c.toNat - 48) else none

def parseDigits (s : JString) : Option Nat :=
  if s = [] then none else s.foldlM (fun v c => (digitValue c).map (v * 10 + ·)) 0

/-- `Integer.parseInt`, for ASCII digits. -/
def parseInt (s : JString) : Option Int :=
  let v : Option Int :=
    match s with
    | 45 :: ds => (parseDigits ds).map fun v => -(v : Int)
    | 43 :: ds => (parseDigits ds).map Int.ofNat
    | ds => (parseDigits ds).map Int.ofNat
  v.filter fun v => -(2 ^ 31) ≤ v ∧ v < 2 ^ 31

/-- The constant of a filter, made of the type of the column. -/
def constantField (type : FieldType) (c : JString) : Except DbErr Field :=
  match type with
  | .int =>
    match parseInt c with
    | none => .error (.numberFormat c)
    | some v => .ok (.int v)
  | .string => .ok (.string (c.take stringLen))

/-! ## Plans -/

/-- One round of the loop over the filters. -/
def placeFilter (env : Env) (lp : LogicalPlan) (placed : Plan × Nat) (lf : LogicalFilterNode) :
    Except DbErr (Plan × Nat) :=
  if lf.tableAlias ≠ lp.tableAlias then .error (.unknownTable lf.tableAlias)
  else
    match fieldNameToIndex lp.names lf.fieldQuantifiedName with
    | none => .error (.unknownField lf.fieldQuantifiedName)
    | some i =>
      match lp.td[i]? with
      | none => .error .noSuchElement
      | some item => do
          let f ← constantField item.fieldType lf.c
          if env.estimates placed.2 lf.p f then
            return (.filter ⟨i, lf.p, f⟩ placed.1, placed.2 + 1)
          else .error .noStatistics

/-- The loop over the select list. A `*` runs through the fields with the
counter of the loop itself. -/
def outFields (names : List JString) (selectList : List JString) :
    Nat → Nat → List Nat → Except DbErr (List Nat)
  | 0, _, _ => .error .stuck
  | n + 1, i, out =>
    match selectList[i]? with
    | none => .ok out
    | some fname =>
      if fname = jstr "null.*" then
        outFields names selectList n (names.length + 1) (out ++ List.range names.length)
      else
        match fieldNameToIndex names fname with
        | none => .error (.unknownField fname)
        | some id => outFields names selectList n (i + 1) (out ++ [id])

def physicalPlan (env : Env) (n : Nat) (lp : LogicalPlan) : Except DbErr Plan := do
  let (node, _) ← lp.filters.foldlM (placeFilter env lp) (.scan, 0)
  match lp.joins with
  | lj :: _ => .error (.unknownTable lj.t1Alias)
  | [] => do
      let out ← outFields lp.names lp.selectList n 0 []
      match lp.orderBy with
      | none => return .project out node
      | some (field, asc) =>
        match fieldNameToIndex lp.names field with
        | none => .error .noSuchElement
        | some i => return .project out (.orderBy i asc node)

/-! ## Statements -/

def queryWhere (lp : LogicalPlan) : Option ZExp → Except DbErr LogicalPlan
  | none => .ok lp
  | some (.const _ _) => .error .nestedUnsupported
  | some wx => processExpression lp wx

def deleteWhere (lp : LogicalPlan) : Option ZExp → Except DbErr LogicalPlan
  | none => .ok lp
  | some wx => processExpression lp wx

def addOrderBy (lp : LogicalPlan) : Option (JString × Bool) → Except DbErr LogicalPlan
  | none => .ok lp
  | some (field, asc) => do
      let field ← disambiguateName lp field
      return { lp with orderBy := some (field, asc) }

def parseQueryLogicalPlan (t : HeapTable) (q : ZQuery) : Except DbErr LogicalPlan :=
  if q.table ≠ t.name then .error (.unknownTable q.table)
  else do
    let lp : LogicalPlan := ⟨q.tableAlias.getD q.table, t.td, [], [], [], none⟩
    let lp ← queryWhere lp q.where_
    let lp ← q.select.foldlM addProjectField lp
    addOrderBy lp q.orderBy

/-- `handleQueryStatement` and the execution of its query. -/
def runSelect (env : Env) (n : Nat) (t : HeapTable) (q : ZQuery) (w : Store t.td) :
    Except DbErr (List Tuple × Store t.td) := do
  let lp ← parseQueryLogicalPlan t q
  let plan ← physicalPlan env n lp
  plan.execute env n w

/-- `handleDeleteStatement` and the execution of its query. -/
def runDelete (env : Env) (n : Nat) (t : HeapTable) (s : ZDelete) (w : Store t.td) :
    Except DbErr (List Tuple × Store t.td) :=
  if s.table ≠ t.name then .error (.unknownTable s.table)
  else do
    let lp : LogicalPlan := ⟨s.table, t.td, [], [], [], none⟩
    let lp ← deleteWhere lp s.where_
    let lp ← addProjectField lp ⟨some (jstr "null"), jstr "*"⟩
    let plan ← physicalPlan env n lp
    executeDelete env n plan w

end Corestack.Simpledb
