import Corestack.Simpledb.Reported

/-!
# What a select prints, and its status (`Query.execute`)

A select prints how it is planned, the plan as a tree and its result as a
table, all of it to the stream in which `execute` then looks for lines that
tell of a failure. None of the lines that the program words can be taken for
one. A row of the result can, and what decides it is the value in the first
column alone, because no failure message has a tab in it.
-/

namespace Corestack.Simpledb

open List Lib

/-! ## The printed table -/

/-- The name of a field: a name from the catalog behind the alias of its
table. The catalog is cut at blanks and an alias is an identifier, so there
is no blank and no line break in it. -/
abbrev FieldName := { name : List Char // '\n' ∉ name ∧ ' ' ∉ name }

/-- `Aggregator.Op`. -/
inductive AggregateOp where
  | min
  | max
  | sum
  | avg
  | count
  | sumCount
  | scAvg

def AggregateOp.text : AggregateOp → List Char
  | .min => "min".toList
  | .max => "max".toList
  | .sum => "sum".toList
  | .avg => "avg".toList
  | .count => "count".toList
  | .sumCount => "sum_count".toList
  | .scAvg => "sc_avg".toList

/-- A column of a result: a field of a table, or an aggregate over one, which
`Aggregate.getTupleDesc` names like `count (t.a)`. -/
inductive ColumnName where
  | field (name : FieldName)
  | aggregate (op : AggregateOp) (name : FieldName)

def ColumnName.text : ColumnName → List Char
  | .field name => name.val
  | .aggregate op name => op.text ++ " (".toList ++ (name.val ++ ")".toList)

/-- A value in a result. Strings come from inserts, one line each. -/
inductive Value where
  | int (v : Int)
  | string (s : List Char) (oneLine : '\n' ∉ s)

def Value.text : Value → List Char
  | .int v => if v < 0 then '-' :: Nat.toDigits 10 v.natAbs else Nat.toDigits 10 v.natAbs
  | .string s _ => s

def rowText : List Value → List Char
  | [] => []
  | [v] => v.text
  | v :: vs => v.text ++ '\t' :: rowText vs

def tableText (columns : List ColumnName) (rows : List (List Value)) : List (List Char) :=
  let names := columns.flatMap fun name => name.text ++ ['\t']
  [names, List.replicate (names.length + columns.length * 4) '-'] ++ rows.map rowText ++
    ["\n ".toList ++ Nat.toDigits 10 rows.length ++ " rows.".toList]

/-! ## The plan -/

/-- The operators of a plan as `QueryPlanVisualizer` words them, up to the
bracket. -/
def nodeStarts : List (List Char) :=
  ["⨝(", "⨝(hash)(", "σ(", "π(", "o(", "g(", "scan(", "min(", "max(", "sum(", "avg(", "count(",
    "sum_count(", "sc_avg("].map String.toList

/-- A line of the plan tree. The texts of the operators stand between blanks
and the bars that join them; what the line begins with is one of these. -/
inductive TreeLine where
  | empty
  | bar (c : Char) (hc : c ∈ [' ', '|', '_']) (rest : Name)
  | node (start : List Char) (hstart : start ∈ nodeStarts) (rest : Name)

def TreeLine.text : TreeLine → List Char
  | .empty => []
  | .bar c _ rest => c :: rest.val
  | .node start _ rest => start ++ rest.val

/-- What a select prints that no exception interrupts. -/
structure SelectOutput where
  plan : List PlanLine
  tree : List TreeLine
  columns : List ColumnName
  rows : List (List Value)

def SelectOutput.lines (o : SelectOutput) : List (List Char) :=
  o.plan.map PlanLine.text ++ ["The query plan is:".toList] ++ o.tree.map TreeLine.text ++
    tableText o.columns o.rows

/-- The status that `execute` returns for a select that prints `o`. -/
def Session.selectStatus {T : Type} (getId : T → Name) (σ : Session T) (tid : T)
    (o : SelectOutput) : Option Status :=
  let σ' := (σ.execute getId (.ok (.work .query)) tid).finish (.query o.lines [])
  if σ.inUserTrans then σ'.status else (σ'.completed getId).status

/-! ## Lines that cannot be taken for a failure -/

theorem hasErrorLine_oneLine {line : List Char} (h : '\n' ∉ line) :
    hasErrorLine line = isErrorLine line := by
  rw [hasErrorLine, splitOn_eq_singleton h, any_cons, any_nil, Bool.or_false]

theorem TreeLine.hasErrorLine_text (line : TreeLine) : hasErrorLine line.text = false := by
  cases line with
  | empty => rfl
  | bar c hc rest =>
    refine @hasErrorLine_plain [c] rest.val ?_ rest.2
    simp only [mem_cons, not_mem_nil, or_false] at hc
    rcases hc with rfl | rfl | rfl <;> rfl
  | node start hstart rest =>
    have hplain : ∀ start ∈ nodeStarts, plainStart start = true := by decide +kernel
    exact hasErrorLine_plain (hplain start hstart) rest.2

/-- A prefix without the separator is a prefix of the first field or of
nothing. -/
theorem isPrefixOf_field {pre : List Char} {c : Char} (h : c ∉ pre) (v rest : List Char) :
    pre.isPrefixOf (v ++ c :: rest) = pre.isPrefixOf v := by
  induction pre generalizing v with
  | nil => rfl
  | cons a pre ih =>
    rw [mem_cons, not_or] at h
    cases v with
    | nil => simp [List.isPrefixOf, Ne.symm h.1]
    | cons b v => simp only [cons_append, List.isPrefixOf, ih h.2]

theorem isErrorLine_field (v rest : List Char) :
    isErrorLine (v ++ '\t' :: rest) = isErrorLine v := by
  have hsep : ∀ pre ∈ errorLinePrefixes, '\t' ∉ pre := by decide +kernel
  rw [Bool.eq_iff_iff, isErrorLine, isErrorLine, any_eq_true, any_eq_true]
  exact exists_congr fun pre => and_congr_right fun hpre => by
    rw [isPrefixOf_field (hsep pre hpre)]

theorem isErrorLine_word {v : List Char} (h : ' ' ∉ v) : isErrorLine v = false := by
  have hblank : ∀ pre ∈ errorLinePrefixes, ' ' ∈ pre := by decide +kernel
  refine any_eq_false.mpr fun pre hpre hv => h ?_
  have hpref := isPrefixOf_iff_prefix.mp hv
  exact hpref.subset (hblank pre hpre)

theorem ColumnName.oneLine_text (name : ColumnName) : '\n' ∉ name.text := by
  cases name with
  | field name => exact name.2.1
  | aggregate op name =>
    have hop : '\n' ∉ op.text ++ " (".toList := by cases op <;> decide +kernel
    simp only [ColumnName.text, mem_append, not_or]
    exact ⟨not_or.mp (mem_append.not.mp hop), name.2.1, by decide +kernel⟩

theorem ColumnName.isErrorLine_text (name : ColumnName) : isErrorLine name.text = false := by
  cases name with
  | field name => exact isErrorLine_word name.2.2
  | aggregate op name =>
    rw [← hasErrorLine_oneLine (oneLine_text _)]
    have hplain : plainStart (op.text ++ " (".toList) = true := by cases op <;> decide +kernel
    refine hasErrorLine_plain hplain ?_
    rw [mem_append, not_or]
    exact ⟨name.2.1, by decide +kernel⟩

theorem hasErrorLine_header (columns : List ColumnName) :
    hasErrorLine (columns.flatMap fun name => name.text ++ ['\t']) = false := by
  have hline : '\n' ∉ columns.flatMap fun name => name.text ++ ['\t'] := by
    intro hmem
    obtain ⟨name, -, hmem⟩ := mem_flatMap.mp hmem
    rcases mem_append.mp hmem with hmem | hmem
    · exact name.oneLine_text hmem
    · exact absurd (mem_singleton.mp hmem) (by decide)
  rw [hasErrorLine_oneLine hline]
  cases columns with
  | nil => rfl
  | cons name columns =>
    rw [flatMap_cons, append_assoc, singleton_append, isErrorLine_field, name.isErrorLine_text]

theorem notMem_text (v : Value) : '\n' ∉ v.text := by
  have hdigits : ∀ n : Nat, '\n' ∉ Nat.toDigits 10 n := fun n h =>
    absurd (Nat.isDigit_of_mem_toDigits (by decide) (by decide) h) (by decide)
  cases v with
  | int v =>
    simp only [Value.text]
    split
    · rw [mem_cons, not_or]
      exact ⟨by decide, hdigits _⟩
    · exact hdigits _
  | string s oneLine => exact oneLine

theorem notMem_rowText (row : List Value) : '\n' ∉ rowText row := by
  induction row with
  | nil => exact not_mem_nil
  | cons v row ih =>
    cases row with
    | nil => exact notMem_text v
    | cons w row =>
      rw [rowText, mem_append, mem_cons, not_or, not_or]
      · exact ⟨notMem_text v, by decide, ih⟩
      · exact cons_ne_nil w row

theorem hasErrorLine_rowText (row : List Value) :
    hasErrorLine (rowText row) = false ↔ ∀ v ∈ row.head?, isErrorLine v.text = false := by
  rw [hasErrorLine_oneLine (notMem_rowText row)]
  cases row with
  | nil => exact ⟨fun _ v hv => absurd hv (Option.not_mem_none v), fun _ => rfl⟩
  | cons v row =>
    have hfirst : isErrorLine (rowText (v :: row)) = isErrorLine v.text := by
      cases row with
      | nil => rfl
      | cons w row => exact isErrorLine_field v.text (rowText (w :: row))
    rw [hfirst, List.head?_cons]
    exact ⟨fun h u hu => Option.some.inj hu ▸ h, fun h => h v rfl⟩

theorem hasErrorLine_tableText (columns : List ColumnName) (rows : List (List Value)) :
    (∀ line ∈ tableText columns rows, hasErrorLine line = false) ↔
      ∀ row ∈ rows, ∀ v ∈ row.head?, isErrorLine v.text = false := by
  have hrule : ∀ n, hasErrorLine (List.replicate n '-') = false := by
    intro n
    rw [hasErrorLine_oneLine (by simp), isErrorLine_word (by simp)]
  have htrailer : hasErrorLine ("\n ".toList ++ Nat.toDigits 10 rows.length ++ " rows.".toList) =
      false := by
    have hdigits : '\n' ∉ Nat.toDigits 10 rows.length ++ " rows.".toList := by
      rw [mem_append, not_or]
      exact ⟨fun h => absurd (Nat.isDigit_of_mem_toDigits (by decide) (by decide) h) (by decide),
        by decide⟩
    rw [append_assoc]
    show hasErrorLine ([] ++ '\n' :: ([' '] ++ _)) = false
    rw [hasErrorLine_cut, hasErrorLine_plain (by rfl) hdigits]
    rfl
  simp only [tableText, forall_mem_append, forall_mem_cons, forall_mem_map,
    not_mem_nil, false_implies, implies_true, and_true, hasErrorLine_header, hrule, htrailer,
    true_and, hasErrorLine_rowText]

theorem SelectOutput.clean_iff (o : SelectOutput) :
    (∀ line ∈ o.lines, hasErrorLine line = false) ↔
      ∀ row ∈ o.rows, ∀ v ∈ row.head?, isErrorLine v.text = false := by
  have htitle : hasErrorLine "The query plan is:".toList = false := by rfl
  simp only [SelectOutput.lines, forall_mem_append, forall_mem_cons, forall_mem_map,
    not_mem_nil, false_implies, implies_true, and_true, true_and, htitle,
    PlanLine.hasErrorLine_text, TreeLine.hasErrorLine_text, hasErrorLine_tableText]

/-! ## The status -/

theorem Session.status_ok_iff {T : Type} {σ : Session T} (h : σ.lastStatementFailure = none) :
    (σ.returns false).status = some .ok ↔ σ.captured.Clean := by
  refine ⟨fun hok => ⟨?_, fun line hline => ?_⟩, Session.status_returns_clean⟩
  · by_contra herr
    rw [Session.status_returns_failed (Or.inr (Or.inl herr)), h] at hok
    cases hok
  · rw [← Bool.not_eq_true]
    intro hbad
    rw [Session.status_returns_failed (Or.inr (Or.inr ⟨line, hline, hbad⟩)), h] at hok
    cases hok

/-- A select that no exception interrupts is reported as successful exactly
if no row of its result has a failure message at the beginning of the first
column. -/
theorem Session.select_reported_ok_iff {T : Type} (getId : T → Name) (σ : Session T) (tid : T)
    (o : SelectOutput) :
    σ.selectStatus getId tid o = some .ok ↔
      ∀ row ∈ o.rows, ∀ v ∈ row.head?, isErrorLine v.text = false := by
  rw [← o.clean_iff]
  cases huser : σ.inUserTrans with
  | true =>
    simp only [selectStatus, execute, reset, finish, huser, if_true]
    rw [Session.status_ok_iff rfl]
    simp [Captured.Clean, Captured.print, Captured.empty]
  | false =>
    have hstarted : hasErrorLine ("Started a new transaction tid = ".toList ++ getId tid) = false :=
      hasErrorLine_plain (by rfl) (getId tid).2
    have hcommitted : hasErrorLine ("Transaction ".toList ++ getId tid ++ " committed.".toList) =
        false := hasErrorLine_transaction (getId tid) (by rfl) (by decide)
    simp only [selectStatus, execute, reset, started, finish, println, huser, completed,
      Bool.false_eq_true, if_false]
    rw [Session.status_ok_iff rfl]
    simp only [Captured.Clean, Captured.print, Captured.println, Captured.empty,
      forall_mem_append, forall_mem_cons, not_mem_nil, false_implies,
      implies_true, and_true, true_and, hstarted, hcommitted, nil_append]

/-- One row with one value, which begins like a failure message. -/
def misleadingOutput : SelectOutput :=
  ⟨[], [], [.field ⟨"t.name".toList, by decide, by decide⟩],
    [[.string "Invalid SQL expression".toList (by decide)]]⟩

theorem Session.select_of_message_fails :
    (Session.start : Session Nat).selectStatus (fun _ => ⟨"0".toList, by decide⟩) 0
      misleadingOutput = some .error := by
  decide +kernel

end Corestack.Simpledb
