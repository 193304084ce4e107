import Corestack.Simpledb.Planner

/-!
# What a where clause does

A where clause as it is written: nested conjunctions of comparisons between
a column and a constant, in either order. The plan that is made of it keeps
the rows for which every comparison holds with the column put first. For a
comparison that has the constant first this is the meaning of the reversed
operator, so the two agree on a table exactly if none of its rows tells
them apart.
-/

namespace Corestack.Simpledb

open List Lib

/-! ## Clauses -/

/-- A column by its name, with or without the name of its table. -/
structure ColumnRef where
  qualifier : Option JString
  name : JString
  name_ne : name ≠ []
  name_noDot : dot ∉ name
  qualifier_noDot : ∀ q ∈ qualifier, dot ∉ q

def ColumnRef.text (r : ColumnRef) : JString :=
  match r.qualifier with
  | none => r.name
  | some q => q ++ dot :: r.name

/-- A number of digits, or a string that fits into a field. -/
inductive Const where
  | int (text : JString) (ne : text ≠ []) (digits : ∀ c ∈ text, 48 ≤ c ∧ c ≤ 57)
  | string (text : JString) (fits : text.length ≤ stringLen)

def Const.text : Const → JString
  | .int text _ _ => text
  | .string text _ => text

def Const.zType : Const → ZType
  | .int _ _ _ => .number
  | .string _ _ => .string

/-- The number that decimal digits denote. -/
def decimal (text : JString) : Nat := text.foldl (fun v c => v * 10 + (c.toNat - 48)) 0

def Const.value : Const → Field
  | .int text _ _ => .int (decimal text)
  | .string text _ => .string text

structure Comparison where
  column : ColumnRef
  op : CompOp
  const : Const
  constFirst : Bool

inductive Clause where
  | compare (c : Comparison)
  | and (cs : List Clause)

def CompOp.text : CompOp → JString
  | .eq => jstr "="
  | .bangEq => jstr "!="
  | .angles => jstr "<>"
  | .lt => jstr "<"
  | .le => jstr "<="
  | .gt => jstr ">"
  | .ge => jstr ">="

def Comparison.tree (c : Comparison) : ZExp :=
  let column := ZExp.const .columnName c.column.text
  let const := ZExp.const c.const.zType c.const.text
  .expr c.op.text (if c.constFirst then [const, column] else [column, const])

mutual

def Clause.tree : Clause → ZExp
  | .compare c => c.tree
  | .and cs => .expr (jstr "AND") (Clause.trees cs)

def Clause.trees : List Clause → List ZExp
  | [] => []
  | c :: cs => c.tree :: Clause.trees cs

end

mutual

def Clause.comparisons : Clause → List Comparison
  | .compare c => [c]
  | .and cs => Clause.allComparisons cs

def Clause.allComparisons : List Clause → List Comparison
  | [] => []
  | c :: cs => c.comparisons ++ Clause.allComparisons cs

end

section Meaning

variable (td : TupleDesc) (tableAlias : JString)

/-- The column that a name stands for, in a table under an alias. -/
def ColumnRef.index (r : ColumnRef) : Option Nat :=
  if ∀ q ∈ r.qualifier, q = tableAlias then fieldNameToIndex (td.map TDItem.fieldName) r.name
  else none

/-- The comparison holds for a row as it is written. -/
def Comparison.holds (c : Comparison) (row : List Field) : Bool :=
  match (c.column.index td tableAlias).bind (row[·]?) with
  | none => false
  | some v => if c.constFirst then c.op.holds c.const.value v else c.op.holds v c.const.value

/-- Every comparison holds as it is written. -/
def Clause.holds (clause : Clause) (row : List Field) : Bool :=
  clause.comparisons.all fun c => c.holds td tableAlias row

/-- The comparison with its column put first, under the same operator. -/
def Comparison.turned (c : Comparison) : Comparison := { c with constFirst := false }

/-- Every comparison holds with its column put first. -/
def Clause.holdsTurned (clause : Clause) (row : List Field) : Bool :=
  clause.comparisons.all fun c => c.turned.holds td tableAlias row

/-- Each comparison is between a column of the table and a constant of its
type. -/
def Clause.Typed (clause : Clause) : Prop :=
  ∀ c ∈ clause.comparisons, ∃ i item, c.column.index td tableAlias = some i ∧ td[i]? = some item ∧
    item.fieldType = c.const.value.type

end Meaning

/-! ## The filters of a clause -/

theorem getOp_text (op : CompOp) : getOp op.text = .ok op.pred := by
  cases op <;> rfl

/-- The filter that a comparison adds, whichever side its column is on. -/
def addComparison (lp : LogicalPlan) (c : Comparison) : Except DbErr LogicalPlan :=
  addFilter lp c.column.text c.op.pred c.const.text

theorem processExpression_comparison (lp : LogicalPlan) (c : Comparison) :
    processExpression lp c.tree = addComparison lp c := by
  obtain ⟨column, op, const, constFirst⟩ := c
  have hand : op.text ≠ jstr "AND" := by cases op <;> decide
  have hor : op.text ≠ jstr "OR" := by cases op <;> decide
  have htype : const.zType ≠ .columnName := by cases const <;> simp [Const.zType]
  cases constFirst <;>
    simp only [Comparison.tree, processExpression, hand, hor, processComparison, getOp_text, htype,
      addComparison, if_true, if_false, and_false, false_and, Bool.false_eq_true] <;>
    rfl

mutual

theorem processExpression_tree (lp : LogicalPlan) :
    (clause : Clause) →
      processExpression lp clause.tree = clause.comparisons.foldlM addComparison lp
  | .compare c => by
    rw [Clause.tree, Clause.comparisons, processExpression_comparison, foldlM_cons]
    cases addComparison lp c <;> rfl
  | .and cs => by
    rw [Clause.tree, Clause.comparisons, processExpression, if_pos rfl]
    exact processOperands_trees lp cs

theorem processOperands_trees (lp : LogicalPlan) :
    (cs : List Clause) →
      processOperands lp (Clause.trees cs) = (Clause.allComparisons cs).foldlM addComparison lp
  | [] => rfl
  | c :: cs => by
    have hexpr : processOperands lp (c.tree :: Clause.trees cs) = (do
        let lp ← processExpression lp c.tree
        processOperands lp (Clause.trees cs)) := by
      cases c with
      | compare c => rw [Clause.tree, Comparison.tree, processOperands]
      | and cs => rw [Clause.tree, processOperands]
    rw [Clause.trees, Clause.allComparisons, foldlM_append, hexpr,
      processExpression_tree lp c]
    exact bind_congr fun lp => processOperands_trees lp cs

end

/-! ## Names -/

variable {s : JString}

theorem cutDots_noDot (h : dot ∉ s) : cutDots s = [s] := by
  induction s with
  | nil => rfl
  | cons c s ih =>
    rw [mem_cons, not_or] at h
    rw [cutDots, if_neg (Ne.symm h.1), ih h.2]

variable {a : JString}

theorem cutDots_append (h : dot ∉ a) (b : JString) : cutDots (a ++ dot :: b) = a :: cutDots b := by
  induction a with
  | nil => rw [nil_append, cutDots, if_pos rfl]
  | cons c a ih =>
    rw [mem_cons, not_or] at h
    rw [cons_append, cutDots, if_neg (Ne.symm h.1), ih h.2]

theorem noDot_of_mem_cutDots {part : JString} (h : part ∈ cutDots s) : dot ∉ part := by
  induction s generalizing part with
  | nil =>
    rw [cutDots, mem_singleton] at h
    simp [h]
  | cons c s ih =>
    rw [cutDots] at h
    split at h
    · rcases mem_cons.mp h with rfl | h
      · simp
      · exact ih h
    · rename_i hc
      split at h
      · rw [mem_singleton] at h
        simp [h, Ne.symm hc]
      · rename_i first parts hcut
        rw [hcut] at ih
        rcases mem_cons.mp h with rfl | h
        · rw [mem_cons, not_or]
          exact ⟨Ne.symm hc, ih (by simp)⟩
        · exact ih (by simp [h])

theorem noDot_of_mem_splitDots {part : JString} (h : part ∈ splitDots s) : dot ∉ part := by
  unfold splitDots at h
  dsimp only at h
  split at h
  · exact noDot_of_mem_cutDots h
  · rw [mem_reverse] at h
    exact noDot_of_mem_cutDots (mem_reverse.mp ((dropWhile_sublist _).subset h))

theorem splitDots_noDot (h : dot ∉ s) : splitDots s = [s] := by
  rw [splitDots, cutDots_noDot h]
  rfl

variable {b : JString}

theorem splitDots_append (ha : dot ∉ a) (hb : dot ∉ b) (hne : b ≠ []) :
    splitDots (a ++ dot :: b) = [a, b] := by
  rw [splitDots, cutDots_append ha, cutDots_noDot hb]
  simp [hne]

theorem field_of_splitDots {field : JString} {rest : List JString} (hb : dot ∉ b) (hne : b ≠ [])
    (h : splitDots (a ++ dot :: b) = a :: field :: rest) : field = b := by
  have ha : dot ∉ a := noDot_of_mem_splitDots (h ▸ mem_cons_self)
  rw [splitDots_append ha hb hne] at h
  simp only [List.cons.injEq] at h
  exact h.2.1.symm

variable {lp : LogicalPlan} {name : JString}

theorem findTable_ok {field : JString} (h : findTable lp field = .ok name) :
    name = jstr "*" ∨ name = lp.tableAlias ++ dot :: field := by
  unfold findTable at h
  split at h
  · exact .inl (Except.ok.inj h ▸ by assumption)
  · split at h
    · exact .inr (Except.ok.inj h).symm
    · cases h

variable {r : ColumnRef}

theorem disambiguateName_text (h : disambiguateName lp r.text = .ok name) :
    (∃ q, dot ∉ q ∧ name = q ++ dot :: r.name) ∨ name = jstr "*" ∨
      name = lp.tableAlias ++ dot :: r.name := by
  obtain ⟨qualifier, rname, hne, hdot, hq⟩ := r
  cases qualifier with
  | none =>
    simp only [disambiguateName, ColumnRef.text, splitDots_noDot hdot] at h
    exact .inr (findTable_ok h)
  | some q =>
    simp only [disambiguateName, ColumnRef.text, splitDots_append (hq q rfl) hdot hne]
      at h
    split at h
    · exact .inl ⟨q, hq q rfl, (Except.ok.inj h).symm⟩
    · exact .inr (findTable_ok h)

theorem qualifiedParts_ok {table field : JString}
    (h : qualifiedParts lp r.text = .ok (table, field)) (htable : table = lp.tableAlias) :
    field = r.name := by
  obtain ⟨name, hname, hparts⟩ := except_bind_ok.mp h
  split at hparts
  · rename_i hsplit
    cases hparts
    rcases disambiguateName_text hname with ⟨q, hq, rfl⟩ | rfl | rfl
    · rw [splitDots_append hq r.name_noDot r.name_ne] at hsplit
      simp only [List.cons.injEq] at hsplit
      exact hsplit.2.1.symm
    · cases hsplit
    · rw [htable] at hsplit
      exact field_of_splitDots r.name_noDot r.name_ne hsplit
  · cases hparts

/-! ## Filters in the plan -/

/-- The node that stands for a comparison. -/
structure NodeFor (tableAlias : JString) (c : Comparison) (node : LogicalFilterNode) : Prop where
  op : node.p = c.op.pred
  const : node.c = c.const.text
  name : node.tableAlias = tableAlias →
    node.fieldQuantifiedName = tableAlias ++ dot :: c.column.name

theorem addComparison_ok {lp' : LogicalPlan} {c : Comparison} (h : addComparison lp c = .ok lp') :
    ∃ node, NodeFor lp.tableAlias c node ∧ lp' = { lp with filters := lp.filters ++ [node] } := by
  obtain ⟨⟨table, field⟩, hparts, hret⟩ := except_bind_ok.mp h
  cases hret
  refine ⟨_, ⟨rfl, rfl, fun htable => ?_⟩, rfl⟩
  have htable' : table = lp.tableAlias := htable
  simp only [htable', qualifiedParts_ok hparts htable']

theorem foldlM_addComparison_ok {cs : List Comparison} :
    ∀ {lp lp' : LogicalPlan}, cs.foldlM addComparison lp = .ok lp' →
      ∃ nodes, List.Forall₂ (NodeFor lp.tableAlias) cs nodes ∧
        lp' = { lp with filters := lp.filters ++ nodes } := by
  induction cs with
  | nil =>
    intro lp lp' h
    cases h
    exact ⟨[], .nil, by simp⟩
  | cons c cs ih =>
    intro lp lp' h
    obtain ⟨lp₁, hc, hcs⟩ := except_bind_ok.mp h
    obtain ⟨node, hnode, rfl⟩ := addComparison_ok hc
    obtain ⟨nodes, hnodes, rfl⟩ := ih hcs
    exact ⟨node :: nodes, .cons hnode hnodes, by simp⟩

theorem digitValue_of_digit {c : UInt16} (h : 48 ≤ c ∧ c ≤ 57) :
    digitValue c = some (c.toNat - 48) := if_pos h

theorem parseDigits_digits {text : JString} (hne : text ≠ []) (h : ∀ c ∈ text, 48 ≤ c ∧ c ≤ 57) :
    parseDigits text = some (decimal text) := by
  have hfold : ∀ (s : JString) (v : Nat), (∀ c ∈ s, 48 ≤ c ∧ c ≤ 57) →
      s.foldlM (fun v c => (digitValue c).map (v * 10 + ·)) v =
        some (s.foldl (fun v c => v * 10 + (c.toNat - 48)) v) := by
    intro s
    induction s with
    | nil => exact fun _ _ => rfl
    | cons c s ih =>
      intro v hs
      rw [foldlM_cons, digitValue_of_digit (hs c (by simp))]
      exact ih _ fun c hc => hs c (by simp [hc])
  rw [parseDigits, if_neg hne]
  exact hfold text 0 h

theorem parseInt_digits {text : JString} {v : Int} (hne : text ≠ [])
    (h : ∀ c ∈ text, 48 ≤ c ∧ c ≤ 57) (hv : parseInt text = some v) : v = decimal text := by
  have hplain : parseInt text = ((parseDigits text).map Int.ofNat).filter
      fun v => -(2 ^ 31) ≤ v ∧ v < 2 ^ 31 := by
    unfold parseInt
    split
    · exact absurd (h 45 (by simp)).1 (by decide)
    · exact absurd (h 43 (by simp)).1 (by decide)
    · rfl
  rw [hplain, parseDigits_digits hne h, Option.map_some, Option.filter_eq_some_iff] at hv
  exact (Option.some.inj hv.1).symm

theorem constantField_ok {const : Const} {type : FieldType} {f : Field}
    (htype : type = const.value.type) (h : constantField type const.text = .ok f) :
    f = const.value := by
  subst htype
  cases const with
  | int text hne hdigits =>
    simp only [Const.value, Const.text, Field.type, constantField] at h ⊢
    split at h
    · cases h
    · rename_i v hv
      cases h
      rw [parseInt_digits hne hdigits hv]
  | string text hfits =>
    simp only [Const.value, Const.text, Field.type, constantField, take_of_length_le hfits] at h
    exact (Except.ok.inj h).symm

theorem fieldNameToIndex_names (lp : LogicalPlan) (name : JString) :
    fieldNameToIndex lp.names (lp.tableAlias ++ dot :: name) =
      fieldNameToIndex (lp.td.map TDItem.fieldName) name := by
  simp only [fieldNameToIndex, LogicalPlan.names, List.findIdx?_map]
  congr 1
  funext item
  simp

section Place

variable {td : TupleDesc} {env : Env} {lp : LogicalPlan}

variable {c : Comparison} {i : Nat}

/-- The predicate of a filter tests the comparison with its column first: the
operator is taken over as it is also if the constant was written first. -/
theorem filter_eq_turned (hi : c.column.index lp.td lp.tableAlias = some i) (t : Tuple) :
    Predicate.filter ⟨i, c.op.pred, c.const.value⟩ t =
      c.turned.holds lp.td lp.tableAlias t.fields := by
  simp only [Predicate.filter, Comparison.holds, Comparison.turned, hi, Option.bind_some,
    compare_pred]
  cases t.fields[i]? <;> rfl

theorem placeFilter_ok {node : LogicalFilterNode} {placed placed' : Plan × Nat} {item : TDItem}
    (hnode : NodeFor lp.tableAlias c node) (hi : c.column.index lp.td lp.tableAlias = some i)
    (hitem : lp.td[i]? = some item) (htype : item.fieldType = c.const.value.type)
    (h : placeFilter env lp placed node = .ok placed') :
    placed'.1 = .filter ⟨i, c.op.pred, c.const.value⟩ placed.1 := by
  unfold placeFilter at h
  split at h
  · cases h
  · rename_i htable
    rw [hnode.name (not_not.mp htable), fieldNameToIndex_names] at h
    have hindex : fieldNameToIndex (lp.td.map TDItem.fieldName) c.column.name = some i := by
      unfold ColumnRef.index at hi
      split at hi
      · exact hi
      · cases hi
    simp only [hindex, hitem, hnode.const, hnode.op] at h
    obtain ⟨f, hf, hret⟩ := except_bind_ok.mp h
    rw [constantField_ok htype hf] at hret
    split at hret
    · cases hret
      rfl
    · cases hret

variable {cs : List Comparison}

/-- The filters of a clause keep the rows for which every comparison holds
with its column first. -/
theorem foldlM_placeFilter_ok {nodes : List LogicalFilterNode}
    (hnodes : List.Forall₂ (NodeFor lp.tableAlias) cs nodes)
    (htyped : ∀ c ∈ cs, ∃ i item, c.column.index lp.td lp.tableAlias = some i ∧
      lp.td[i]? = some item ∧ item.fieldType = c.const.value.type) (pages : List (HeapPage td)) :
    ∀ {placed placed' : Plan × Nat}, nodes.foldlM (placeFilter env lp) placed = .ok placed' →
      placed'.1.denote pages = (placed.1.denote pages).filter fun t =>
        cs.all fun c => c.turned.holds lp.td lp.tableAlias t.fields := by
  induction hnodes with
  | nil =>
    intro placed placed' h
    cases h
    simp
  | cons hnode hnodes ih =>
    rename_i c node cs nodes
    intro placed placed' h
    obtain ⟨placed₁, hplace, hrest⟩ := except_bind_ok.mp h
    obtain ⟨i, item, hi, hitem, htype⟩ := htyped c (by simp)
    have hplan := placeFilter_ok hnode hi hitem htype hplace
    rw [ih (fun c hc => htyped c (by simp [hc])) hrest, hplan, Plan.denote, filter_filter]
    refine filter_congr fun t _ => ?_
    rw [filter_eq_turned hi, all_cons, Bool.and_comm]

/-- The plan delivers these rows, with the columns of the select list. The
filters pass what every comparison lets through, whatever their order. -/
theorem physicalPlan_ok {n : Nat} {plan : Plan} (h : physicalPlan env n lp = .ok plan)
    (hnodes : List.Forall₂ (NodeFor lp.tableAlias) cs lp.filters)
    (htyped : ∀ c ∈ cs, ∃ i item, c.column.index lp.td lp.tableAlias = some i ∧
      lp.td[i]? = some item ∧ item.fieldType = c.const.value.type) (pages : List (HeapPage td)) :
    ∃ out, outFields lp.names lp.selectList n 0 [] = .ok out ∧
      (plan.denote pages).Perm (((tableRows pages).filter fun t =>
        cs.all fun c => c.turned.holds lp.td lp.tableAlias t.fields).map (projectTuple out)) := by
  obtain ⟨⟨node, k⟩, hfilters, hrest⟩ := except_bind_ok.mp h
  have hnode := foldlM_placeFilter_ok hnodes htyped pages hfilters
  simp only [Plan.denote] at hnode
  dsimp only at hrest
  split at hrest
  · cases hrest
  · obtain ⟨out, hout, hrest⟩ := except_bind_ok.mp hrest
    refine ⟨out, hout, ?_⟩
    split at hrest
    · cases hrest
      rw [Plan.denote, hnode]
    · split at hrest
      · cases hrest
      · cases hrest
        rw [Plan.denote, Plan.denote, hnode]
        exact (mergeSort_perm _ _).map _

end Place

/-! ## Statements -/

section Statements

variable {env : Env} {n : Nat} {t : HeapTable} {clause : Clause} {w w' : Store t.td}
  {ts : List Tuple}

/-- The name that the columns of a query may be qualified with. -/
def ZQuery.scanAlias (q : ZQuery) : JString := q.tableAlias.getD q.table

/-- The columns that the select list of a query names, whatever its where
clause and its order are. -/
def ZQuery.columns (n : Nat) (t : HeapTable) (q : ZQuery) : Except DbErr (List Nat) := do
  let lp ← q.select.foldlM addProjectField ⟨q.scanAlias, t.td, [], [], [], none⟩
  outFields lp.names lp.selectList n 0 []

/-- What a query returned are these rows, with the columns of its select
list, in some order. -/
def Returns (n : Nat) (t : HeapTable) (q : ZQuery) (ts rows : List Tuple) : Prop :=
  ∃ out, q.columns n t = .ok out ∧ ts.Perm (rows.map (projectTuple out))

theorem addProjectField_keeps {items : List ZSelectItem} :
    ∀ {lp lp' : LogicalPlan}, items.foldlM addProjectField lp = .ok lp' →
      lp'.tableAlias = lp.tableAlias ∧ lp'.td = lp.td ∧ lp'.filters = lp.filters := by
  induction items with
  | nil =>
    intro lp lp' h
    cases h
    exact ⟨rfl, rfl, rfl⟩
  | cons item items ih =>
    intro lp lp' h
    obtain ⟨lp₁, hitem, hitems⟩ := except_bind_ok.mp h
    obtain ⟨fname, -, hret⟩ := except_bind_ok.mp hitem
    cases hret
    obtain ⟨halias, htd, hfilters⟩ := ih hitems
    exact ⟨halias, htd, hfilters⟩

theorem addProjectField_filters {items : List ZSelectItem} (filters : List LogicalFilterNode)
    (joins : List LogicalJoinNode) :
    ∀ {lp lp' : LogicalPlan}, items.foldlM addProjectField lp = .ok lp' →
      items.foldlM addProjectField { lp with filters := filters, joins := joins } =
        .ok { lp' with filters := filters, joins := joins } := by
  induction items with
  | nil =>
    intro lp lp' h
    cases h
    rfl
  | cons item items ih =>
    intro lp lp' h
    obtain ⟨lp₁, hitem, hitems⟩ := except_bind_ok.mp h
    obtain ⟨fname, hname, hret⟩ := except_bind_ok.mp hitem
    cases hret
    refine except_bind_ok.mpr ⟨_, except_bind_ok.mpr ⟨fname, hname, rfl⟩, ?_⟩
    exact ih hitems

variable {lp : LogicalPlan}

theorem processExpression_ok {lp' : LogicalPlan} (hfilters : lp.filters = [])
    (h : processExpression lp clause.tree = .ok lp') :
    lp'.tableAlias = lp.tableAlias ∧ lp'.td = lp.td ∧ lp'.selectList = lp.selectList ∧
      lp'.orderBy = lp.orderBy ∧
      List.Forall₂ (NodeFor lp.tableAlias) clause.comparisons lp'.filters := by
  rw [processExpression_tree] at h
  obtain ⟨nodes, hnodes, rfl⟩ := foldlM_addComparison_ok h
  refine ⟨rfl, rfl, rfl, rfl, ?_⟩
  simpa only [hfilters, nil_append] using hnodes

variable {q : ZQuery}

theorem parseQueryLogicalPlan_ok (n : Nat) (hwhere : q.where_ = some clause.tree)
    (h : parseQueryLogicalPlan t q = .ok lp) :
    lp.tableAlias = q.scanAlias ∧ lp.td = t.td ∧
      List.Forall₂ (NodeFor q.scanAlias) clause.comparisons lp.filters ∧
      q.columns n t = outFields lp.names lp.selectList n 0 [] := by
  unfold parseQueryLogicalPlan at h
  split at h
  · cases h
  · obtain ⟨lp₁, hclause, h⟩ := except_bind_ok.mp h
    obtain ⟨lp₂, hselect, h⟩ := except_bind_ok.mp h
    have hprocess :
        processExpression ⟨q.scanAlias, t.td, [], [], [], none⟩ clause.tree = .ok lp₁ := by
      rw [hwhere] at hclause
      cases clause with
      | compare c => exact hclause
      | and cs => exact hclause
    obtain ⟨halias, htd, hselectList, horder, hnodes⟩ := processExpression_ok rfl hprocess
    obtain ⟨halias', htd', hfilters⟩ := addProjectField_keeps hselect
    have hlp : lp.tableAlias = lp₂.tableAlias ∧ lp.td = lp₂.td ∧ lp.filters = lp₂.filters ∧
        lp.selectList = lp₂.selectList := by
      unfold addOrderBy at h
      split at h
      · cases h
        exact ⟨rfl, rfl, rfl, rfl⟩
      · obtain ⟨field, -, hret⟩ := except_bind_ok.mp h
        cases hret
        exact ⟨rfl, rfl, rfl, rfl⟩
    refine ⟨hlp.1.trans (halias'.trans halias), hlp.2.1.trans (htd'.trans htd), ?_, ?_⟩
    · rw [hlp.2.2.1, hfilters]
      exact hnodes
    · have hplain := addProjectField_filters [] [] hselect
      have hstart : { lp₁ with filters := [], joins := [] } =
          (⟨q.scanAlias, t.td, [], [], [], none⟩ : LogicalPlan) := by
        rw [halias, htd, hselectList, horder]
      rw [hstart] at hplain
      rw [ZQuery.columns, hplain, LogicalPlan.names, hlp.1, hlp.2.1, hlp.2.2.2]
      rfl

theorem runSelect_returns (hwhere : q.where_ = some clause.tree)
    (htyped : clause.Typed t.td q.scanAlias) (h : runSelect env n t q w = .ok (ts, w')) :
    w'.pages = w.pages ∧ Returns n t q ts ((tableRows w.pages).filter fun r =>
      clause.holdsTurned t.td q.scanAlias r.fields) := by
  obtain ⟨lp, hparse, h⟩ := except_bind_ok.mp h
  obtain ⟨plan, hplan, hexec⟩ := except_bind_ok.mp h
  obtain ⟨halias, htd, hnodes, hcolumns⟩ := parseQueryLogicalPlan_ok n hwhere hparse
  obtain ⟨rfl, hpages⟩ := Plan.execute_ok hexec
  obtain ⟨tableAlias, td, filters, joins, selectList, orderBy⟩ := lp
  obtain rfl : tableAlias = q.scanAlias := halias
  obtain rfl : td = t.td := htd
  obtain ⟨out, hout, hperm⟩ := physicalPlan_ok hplan hnodes htyped w.pages
  exact ⟨hpages, out, hcolumns.trans hout, hperm⟩

theorem runDelete_leaves {s : ZDelete} (hwhere : s.where_ = some clause.tree)
    (htyped : clause.Typed t.td s.table) (h : runDelete env n t s w = .ok (ts, w')) :
    w'.pages = withoutRows w.pages (clause.holdsTurned t.td s.table) := by
  unfold runDelete at h
  split at h
  · cases h
  · obtain ⟨lp₁, hclause, h⟩ := except_bind_ok.mp h
    obtain ⟨lp, hselect, h⟩ := except_bind_ok.mp h
    obtain ⟨plan, hplan, hexec⟩ := except_bind_ok.mp h
    rw [hwhere] at hclause
    obtain ⟨halias, htd, -, -, hnodes⟩ := processExpression_ok rfl hclause
    obtain ⟨fname, -, hret⟩ := except_bind_ok.mp hselect
    cases hret
    obtain ⟨tableAlias, td, filters, joins, selectList, orderBy⟩ := lp₁
    obtain rfl : tableAlias = s.table := halias
    obtain rfl : td = t.td := htd
    obtain ⟨out, -, hperm⟩ := physicalPlan_ok hplan hnodes htyped w.pages
    rw [(executeDelete_ok hexec).1]
    refine foldl_clearSlot_eq fun rid => ?_
    simp only [hperm.mem_iff, mem_map, mem_filter]
    constructor
    · rintro ⟨_, ⟨r, ⟨hr, hholds⟩, rfl⟩, hrid⟩
      exact ⟨r, hr, hholds, hrid⟩
    · rintro ⟨r, hr, hholds, hrid⟩
      exact ⟨_, ⟨r, ⟨hr, hholds⟩, rfl⟩, hrid⟩

theorem returns_iff {test test' : Tuple → Bool}
    (h : Returns n t q ts ((tableRows w.pages).filter test)) :
    Returns n t q ts ((tableRows w.pages).filter test') ↔
      ∀ r ∈ tableRows w.pages, test r = test' r := by
  constructor
  · rintro ⟨out', -, hperm'⟩ r hr
    obtain ⟨out, -, hperm⟩ := h
    -- a row keeps its record through any choice of columns
    have hrecord : ∀ {p : Tuple → Bool} {o : List Nat},
        ts.Perm (((tableRows w.pages).filter p).map (projectTuple o)) →
          (p r = true ↔ r.recordId ∈ ts.map Tuple.recordId) := by
      intro p o hp
      rw [(hp.map Tuple.recordId).mem_iff, map_map, mem_map]
      constructor
      · exact fun hpr => ⟨r, mem_filter.mpr ⟨hr, hpr⟩, rfl⟩
      · rintro ⟨r', hr', hrid⟩
        obtain ⟨hr', hpr'⟩ := mem_filter.mp hr'
        rwa [eq_of_recordId_eq hr' hr hrid] at hpr'
    exact Bool.eq_iff_iff.mpr ((hrecord hperm).trans (hrecord hperm').symm)
  · intro hagree
    rwa [← filter_congr hagree]

end Statements

/-- Whatever the table holds and whichever accesses fail: a select that
executes returns the rows for which the clause holds as written, with the
columns of its select list, and a delete that executes leaves the others,
exactly if no row tells the clause from the one with every column put
first. -/
theorem where_means_iff (env : Env) (n : Nat) (t : HeapTable) (clause : Clause) (w w' : Store t.td)
    (ts : List Tuple) :
    (∀ q : ZQuery, q.where_ = some clause.tree → clause.Typed t.td q.scanAlias →
      runSelect env n t q w = .ok (ts, w') →
        (Returns n t q ts ((tableRows w.pages).filter fun r =>
            clause.holds t.td q.scanAlias r.fields) ↔
          ∀ r ∈ tableRows w.pages, clause.holdsTurned t.td q.scanAlias r.fields =
            clause.holds t.td q.scanAlias r.fields)) ∧
      ∀ s : ZDelete, s.where_ = some clause.tree → clause.Typed t.td s.table →
        runDelete env n t s w = .ok (ts, w') →
          (w'.pages = withoutRows w.pages (clause.holds t.td s.table) ↔
            ∀ r ∈ tableRows w.pages, clause.holdsTurned t.td s.table r.fields =
              clause.holds t.td s.table r.fields) := by
  constructor
  · intro q hwhere htyped hrun
    exact returns_iff (runSelect_returns hwhere htyped hrun).2
  · intro s hwhere htyped hrun
    rw [runDelete_leaves hwhere htyped hrun]
    exact withoutRows_eq_iff

/-! ## Clauses that mean what they say -/

/-- The operators that do not care for the order of their operands. -/
def CompOp.symmetric : CompOp → Bool
  | .eq | .bangEq | .angles => true
  | _ => false

variable {op : CompOp}

theorem CompOp.means_comm {α : Type} [LT α] [DecidableLT α] [DecidableEq α]
    (h : op.symmetric = true) (a b : α) : op.means a b = op.means b a := by
  cases op with
  | eq => exact decide_eq_decide.mpr eq_comm
  | bangEq | angles => exact decide_eq_decide.mpr ne_comm
  | lt => cases h
  | le => cases h
  | gt => cases h
  | ge => cases h

theorem CompOp.holds_comm (h : op.symmetric = true) (a b : Field) :
    op.holds a b = op.holds b a := by
  cases a <;> cases b
  · exact CompOp.means_comm h _ _
  · rfl
  · rfl
  · exact CompOp.means_comm h _ _

/-- No comparison of order has its constant first. -/
theorem Clause.holdsTurned_eq {clause : Clause}
    (h : ∀ c ∈ clause.comparisons, c.constFirst = false ∨ c.op.symmetric = true) (td : TupleDesc)
    (tableAlias : JString) (row : List Field) :
    clause.holdsTurned td tableAlias row = clause.holds td tableAlias row := by
  have hsame : ∀ c ∈ clause.comparisons,
      c.turned.holds td tableAlias row = c.holds td tableAlias row := by
    intro c hc
    simp only [Comparison.holds, Comparison.turned, Bool.false_eq_true, if_false]
    rcases h c hc with hfirst | hsym
    · rw [hfirst]
      rfl
    · simp only [CompOp.holds_comm hsym c.const.value, ite_self]
  rw [Clause.holdsTurned, Clause.holds, Bool.eq_iff_iff, all_eq_true, all_eq_true]
  exact forall₂_congr fun c hc => by rw [hsame c hc]

/-! ## A small table -/

def calmEnv : Env := ⟨fun _ => true, fun _ _ _ => true⟩

def smallTable : HeapTable := ⟨jstr "t", [⟨.int, jstr "a"⟩, ⟨.string, jstr "b"⟩]⟩

def smallRow (a : Int) (b : String) : Row smallTable.td := ⟨[.int a, .string (jstr b)], rfl⟩

def smallStore : Store smallTable.td :=
  ⟨[[some (smallRow 3 "x"), none, some (smallRow 7 "x")], [some (smallRow 9 "y")]], 0⟩

def columnA : ColumnRef := ⟨none, jstr "a", by decide, by decide, by simp⟩
def columnB : ColumnRef := ⟨some (jstr "t"), jstr "b", by decide, by decide, by decide⟩

def five : Const := .int (jstr "5") (by decide) (by simp [jstr])

/-- The clause a > 5 AND 'x' = t.b. -/
def plainClause : Clause :=
  .and [.compare ⟨columnA, .gt, five, false⟩,
    .compare ⟨columnB, .eq, .string (jstr "x") (by decide), true⟩]

/-- The clause 5 < a. -/
def fiveFirst : Clause := .compare ⟨columnA, .lt, five, true⟩

def selectAll (clause : Clause) : ZQuery :=
  ⟨jstr "t", none, [⟨none, jstr "*"⟩], some clause.tree, none⟩

def deleteAll (clause : Clause) : ZDelete := ⟨jstr "t", some clause.tree⟩

/-- Where no comparison of order has its constant first. -/
theorem small_where_means :
    (∃ ts w', runSelect calmEnv 9 smallTable (selectAll plainClause) smallStore = .ok (ts, w') ∧
      Returns 9 smallTable (selectAll plainClause) ts ((tableRows smallStore.pages).filter fun r =>
        plainClause.holds smallTable.td (jstr "t") r.fields)) ∧
    ∃ ts w', runDelete calmEnv 9 smallTable (deleteAll plainClause) smallStore = .ok (ts, w') ∧
      w'.pages = withoutRows smallStore.pages (plainClause.holds smallTable.td (jstr "t")) := by
  have htyped : plainClause.Typed smallTable.td (jstr "t") := by
    intro c hc
    simp only [plainClause, Clause.comparisons, Clause.allComparisons, cons_append,
      nil_append, mem_cons, not_mem_nil, or_false] at hc
    rcases hc with rfl | rfl
    · exact ⟨0, _, by rfl, rfl, rfl⟩
    · exact ⟨1, _, by rfl, rfl, rfl⟩
  have hplain : ∀ c ∈ plainClause.comparisons, c.constFirst = false ∨ c.op.symmetric = true := by
    simp [plainClause, Clause.comparisons, Clause.allComparisons, CompOp.symmetric]
  have hagree : ∀ r ∈ tableRows smallStore.pages,
      plainClause.holdsTurned smallTable.td (jstr "t") r.fields =
        plainClause.holds smallTable.td (jstr "t") r.fields :=
    fun r _ => Clause.holdsTurned_eq hplain _ _ _
  have hselect :
      ∃ out, runSelect calmEnv 9 smallTable (selectAll plainClause) smallStore = .ok out :=
    ⟨_, by rfl⟩
  have hdelete :
      ∃ out, runDelete calmEnv 9 smallTable (deleteAll plainClause) smallStore = .ok out :=
    ⟨_, by rfl⟩
  obtain ⟨⟨ts, w⟩, hselect⟩ := hselect
  obtain ⟨⟨ts', w'⟩, hdelete⟩ := hdelete
  exact ⟨⟨ts, w, hselect, ((where_means_iff calmEnv 9 smallTable plainClause smallStore w ts).1
      (selectAll plainClause) rfl htyped hselect).mpr hagree⟩, ts', w', hdelete,
    ((where_means_iff calmEnv 9 smallTable plainClause smallStore w' ts').2
      (deleteAll plainClause) rfl htyped hdelete).mpr hagree⟩

/-- The clause 5 < a returns the row with 3 and not those with 7 and 9, and
deletes it. -/
theorem constant_first_reversed :
    (∃ ts w', runSelect calmEnv 9 smallTable (selectAll fiveFirst) smallStore = .ok (ts, w') ∧
      ts.map Tuple.fields = [[.int 3, .string (jstr "x")]] ∧
      ¬ Returns 9 smallTable (selectAll fiveFirst) ts ((tableRows smallStore.pages).filter fun r =>
        fiveFirst.holds smallTable.td (jstr "t") r.fields)) ∧
    ∃ ts w', runDelete calmEnv 9 smallTable (deleteAll fiveFirst) smallStore = .ok (ts, w') ∧
      w'.pages = [[none, none, some (smallRow 7 "x")], [some (smallRow 9 "y")]] ∧
      w'.pages ≠ withoutRows smallStore.pages (fiveFirst.holds smallTable.td (jstr "t")) := by
  have hselect : runSelect calmEnv 9 smallTable (selectAll fiveFirst) smallStore =
      .ok ([⟨[.int 3, .string (jstr "x")], some ⟨0, 0⟩⟩], ⟨smallStore.pages, 2⟩) := by
    rfl
  have hdelete : runDelete calmEnv 9 smallTable (deleteAll fiveFirst) smallStore =
      .ok ([⟨[.int 1], none⟩],
        ⟨[[none, none, some (smallRow 7 "x")], [some (smallRow 9 "y")]], 3⟩) := by
    rfl
  refine ⟨⟨_, _, hselect, rfl, ?_⟩, _, _, hdelete, rfl, by decide⟩
  rintro ⟨out, -, hperm⟩
  have hlen := hperm.length_eq
  cases hlen

end Corestack.Simpledb
