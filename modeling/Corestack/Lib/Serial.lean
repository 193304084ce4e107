import Mathlib.Data.List.Induction
import Mathlib.Tactic.Tauto

/-!
# Histories of a serializable store

A store that runs transactions serializably and all-or-nothing is described
by the committed transactions in their serial order: each read of a
committed transaction returned what the query gives on the rows of the
transactions before it and on its own rows so far. The order is not the
order of the commits: a transaction may be put anywhere it is valid.
-/

namespace Corestack.Lib

variable {ι Row Query Answer : Type}

/-- A read, and the rows its own transaction had written before it. -/
structure Read (Row Query Answer : Type) where
  own : List Row
  query : Query
  answer : Answer

/-- What a transaction read and wrote. -/
structure Txn (Row Query Answer : Type) where
  reads : List (Read Row Query Answer)
  writes : List Row

def Txn.start : Txn Row Query Answer := ⟨[], []⟩

/-- A committed transaction, and who it was of. -/
structure Done (ι Row Query Answer : Type) where
  pid : ι
  txn : Txn Row Query Answer

/-- The rows of a history over the rows there were. -/
def rowsOf (base : List Row) (h : List (Done ι Row Query Answer)) : List Row :=
  base ++ h.flatMap fun d => d.txn.writes

/-- Every read of every transaction is what it has to be at its place. -/
def Serial (eval : Query → List Row → Answer) (base : List Row)
    (h : List (Done ι Row Query Answer)) : Prop :=
  ∀ pre d post, h = pre ++ d :: post → ∀ r ∈ d.txn.reads,
    r.answer = eval r.query (rowsOf base pre ++ r.own)

/-- `d` takes a place in the history. -/
def Commits (eval : Query → List Row → Answer) (base : List Row)
    (h : List (Done ι Row Query Answer)) (d : Done ι Row Query Answer)
    (h' : List (Done ι Row Query Answer)) : Prop :=
  Serial eval base h' ∧ ∃ pre post, h = pre ++ post ∧ h' = pre ++ d :: post

variable {eval : Query → List Row → Answer} {base : List Row}
  {h h' : List (Done ι Row Query Answer)} {d : Done ι Row Query Answer}

theorem Serial.nil : Serial eval base ([] : List (Done ι Row Query Answer)) := by
  intro pre d post heq
  simp at heq

theorem Serial.singleton (hd : ∀ r ∈ d.txn.reads, r.answer = eval r.query (base ++ r.own)) :
    Serial eval base [d] := by
  intro pre e post heq r hr
  cases pre with
  | nil =>
    cases heq
    simpa [rowsOf] using hd r hr
  | cons a pre => simp at heq

theorem Commits.serial (hc : Commits eval base h d h') : Serial eval base h' := hc.1

theorem Commits.mem_iff (hc : Commits eval base h d h') (e : Done ι Row Query Answer) :
    e ∈ h' ↔ e = d ∨ e ∈ h := by
  obtain ⟨-, pre, post, rfl, rfl⟩ := hc
  simp only [List.mem_append, List.mem_cons]
  tauto

theorem mem_rowsOf {r : Row} : r ∈ rowsOf base h ↔ r ∈ base ∨ ∃ d ∈ h, r ∈ d.txn.writes := by
  simp [rowsOf]

theorem mem_rowsOf_mono (hsub : ∀ d ∈ h, d ∈ h') {r : Row} (hr : r ∈ rowsOf base h) :
    r ∈ rowsOf base h' := by
  rw [mem_rowsOf] at hr ⊢
  rcases hr with hr | ⟨d, hd, hr⟩
  · exact .inl hr
  · exact .inr ⟨d, hsub d hd, hr⟩

/-- A property of the rows that every transaction of the history keeps, if
what it read was true, holds of the rows of the history. -/
theorem Serial.rows_keep {I : List Row → Prop} (hs : Serial eval base h) (hbase : I base)
    (hstep : ∀ rows, I rows → ∀ d ∈ h,
      (∀ r ∈ d.txn.reads, r.answer = eval r.query (rows ++ r.own)) → I (rows ++ d.txn.writes)) :
    I (rowsOf base h) := by
  induction h using List.reverseRecOn with
  | nil => simpa [rowsOf] using hbase
  | append_singleton pre d ih =>
    have hpre : Serial eval base pre := fun a e b heq =>
      hs a e (b ++ [d]) (by rw [heq]; simp)
    have hrows : rowsOf base (pre ++ [d]) = rowsOf base pre ++ d.txn.writes := by
      simp [rowsOf]
    rw [hrows]
    refine hstep _ (ih hpre fun rows hI e he => hstep rows hI e ?_) d (by simp) (hs pre d [] rfl)
    exact List.mem_append_left _ he

end Corestack.Lib
