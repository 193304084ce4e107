import Corestack.Lib.Cursor
import Corestack.Simpledb.Field

/-!
# Operators over a heap file (`HeapFile`, `HeapPage`, `execution`)

A transaction sees the pages of a heap file as slots that hold a row or
nothing. Any access to a page may fail, since its lock may be refused. A
plan is a scan under filters, a sort and a projection, each with the
lookahead of `Operator`, and it delivers the rows that a simple reading of
the plan gives.
-/

namespace Corestack.Simpledb

open List Lib

/-! ## Rows and pages -/

structure TDItem where
  fieldType : FieldType
  fieldName : JString
deriving DecidableEq, Repr

abbrev TupleDesc := List TDItem

/-- The fields of a row have the types of its table. -/
structure Row (td : TupleDesc) where
  fields : List Field
  typed : fields.map Field.type = td.map TDItem.fieldType
deriving DecidableEq

/-- `RecordId`: a slot of a page of the file. -/
structure RecordId where
  page : Nat
  slot : Nat
deriving DecidableEq, Repr

structure Tuple where
  fields : List Field
  recordId : Option RecordId
deriving DecidableEq, Repr

/-- The slots of a `HeapPage`; one that `isSlotUsed` denies is none. -/
abbrev HeapPage (td : TupleDesc) := List (Option (Row td))

inductive DbErr where
  | aborted
  | io
  | noSuchElement
  | notAMember
  | slotEmpty
  | nestedUnsupported
  | orUnsupported
  | notBinary
  | notSimple
  | unknownPredicate (op : JString)
  | unknownTable (name : JString)
  | unknownField (name : JString)
  | invalidReference (name : JString)
  | sameTableJoin
  | indexOutOfBounds
  | numberFormat (text : JString)
  | classCast
  | noStatistics
  | stuck
deriving DecidableEq, Repr

/-- What the statement cannot influence: which accesses to a page succeed,
and for which filters the optimizer has an estimate. -/
structure Env where
  fate : Nat → Bool
  estimates : Nat → PredOp → Field → Bool

/-- The file as the transaction sees it, and the accesses so far. -/
structure Store (td : TupleDesc) where
  pages : List (HeapPage td)
  clock : Nat
deriving DecidableEq

section Scan

variable {td : TupleDesc} (env : Env)

def getPage (w : Store td) (pageNo : Nat) : Except DbErr (HeapPage td × Store td) :=
  if env.fate w.clock then
    match w.pages[pageNo]? with
    | none => .error .io
    | some page => .ok (page, { w with clock := w.clock + 1 })
  else .error .aborted

def tuplesFrom (pageNo : Nat) : Nat → HeapPage td → List Tuple
  | _, [] => []
  | slot, none :: page => tuplesFrom pageNo (slot + 1) page
  | slot, some row :: page => ⟨row.fields, some ⟨pageNo, slot⟩⟩ :: tuplesFrom pageNo (slot + 1) page

/-- `HeapPage.iterator`: a list made when it is asked for. -/
def pageTuples (pageNo : Nat) (page : HeapPage td) : List Tuple := tuplesFrom pageNo 0 page

/-- `HeapFileIterator`. -/
structure ScanState where
  pageNo : Nat
  tupleIt : Option (List Tuple)

def scanOpen (w : Store td) : Except DbErr (Store td × ScanState) := do
  let (page, w) ← getPage env w 0
  return (w, ⟨0, some (pageTuples 0 page)⟩)

/-- The loop of `hasNext`, with the number of pages behind the current one. -/
def scanAdvance : Nat → Store td → Nat → Except DbErr (Bool × Store td × ScanState)
  | 0, w, pageNo => .ok (false, w, ⟨pageNo, some []⟩)
  | k + 1, w, pageNo => do
      let (page, w) ← getPage env w (pageNo + 1)
      match pageTuples (pageNo + 1) page with
      | [] => scanAdvance k w (pageNo + 1)
      | t :: ts => return (true, w, ⟨pageNo + 1, some (t :: ts)⟩)

def scanHasNext (w : Store td) (s : ScanState) : Except DbErr (Bool × Store td × ScanState) :=
  match s.tupleIt with
  | none => .ok (false, w, s)
  | some (_ :: _) => .ok (true, w, s)
  | some [] => scanAdvance env (w.pages.length - (s.pageNo + 1)) w s.pageNo

def scanNext (w : Store td) (s : ScanState) : Except DbErr (Tuple × Store td × ScanState) := do
  let (has, w, s) ← scanHasNext env w s
  match has, s.tupleIt with
  | true, some (t :: ts) => return (t, w, { s with tupleIt := some ts })
  | _, _ => .error .noSuchElement

def scanCursor : Cursor DbErr (Store td) ScanState Tuple := ⟨scanHasNext env, scanNext env⟩

/-- `BufferPool.deleteTuple` for a heap file. -/
def deleteTuple (t : Tuple) (w : Store td) : Except DbErr (Store td) :=
  match t.recordId with
  | none => .error .notAMember
  | some rid => do
      let (page, w) ← getPage env w rid.page
      match page[rid.slot]? with
      | some (some _) => return { w with pages := w.pages.set rid.page (page.set rid.slot none) }
      | _ => .error .slotEmpty

end Scan

/-! ## Plans -/

structure Predicate where
  field : Nat
  op : PredOp
  operand : Field
deriving DecidableEq, Repr

def Predicate.filter (p : Predicate) (t : Tuple) : Bool :=
  match t.fields[p.field]? with
  | none => false
  | some v => v.compare p.op p.operand

/-- The tuple that `Project.fetchNext` makes. -/
def projectTuple (outFieldIds : List Nat) (t : Tuple) : Tuple :=
  ⟨outFieldIds.filterMap fun i => t.fields[i]?, t.recordId⟩

/-- `TupleComparator.compare`, as the order it gives. -/
def orderLe (field : Nat) (asc : Bool) (t t' : Tuple) : Bool :=
  match t.fields[field]?, t'.fields[field]? with
  | some v, some v' =>
    v.compare .equals v' || (if asc then ! v.compare .greaterThan v' else v.compare .greaterThan v')
  | _, _ => true

inductive Plan where
  | scan
  | filter (p : Predicate) (child : Plan)
  | orderBy (field : Nat) (asc : Bool) (child : Plan)
  | project (outFieldIds : List Nat) (child : Plan)
deriving DecidableEq, Repr

namespace Plan

/-- What the iterators of a plan remember, each `Operator` with its cache. -/
def State : Plan → Type
  | .scan => ScanState
  | .filter _ child => Option Tuple × child.State
  | .orderBy _ _ _ => Option Tuple × List Tuple
  | .project _ child => Option Tuple × child.State

variable {td : TupleDesc} (env : Env) (n : Nat)

def listFetch (w : Store td) : List Tuple → Except DbErr (Option Tuple × Store td × List Tuple)
  | [] => .ok (none, w, [])
  | t :: ts => .ok (some t, w, ts)

/-- The iterators of a plan, with fuel `n` for their loops. -/
def cursor : (p : Plan) → Cursor DbErr (Store td) p.State Tuple
  | .scan => scanCursor env
  | .filter p child => operator .noSuchElement ((cursor child).find .stuck p.filter n)
  | .orderBy _ _ _ => operator .noSuchElement listFetch
  | .project out child => operator .noSuchElement ((cursor child).fetchMap (projectTuple out))

def start : (p : Plan) → Store td → Except DbErr (Store td × p.State)
  | .scan, w => scanOpen env w
  | .filter _ child, w => do
      let (w, s) ← start child w
      return (w, (none, s))
  | .orderBy field asc child, w => do
      let (w, s) ← start child w
      let (ts, w, _) ← (cursor env n child).each .stuck (fun _ w => .ok w) n w s
      return (w, (none, ts.mergeSort (orderLe field asc)))
  | .project _ child, w => do
      let (w, s) ← start child w
      return (w, (none, s))

/-- The loop of `Query.execute`, from `start` to the last tuple. -/
def execute (p : Plan) (w : Store td) : Except DbErr (List Tuple × Store td) := do
  let (w, s) ← start env n p w
  let (ts, w, _) ← (cursor env n p).each .stuck (fun _ w => .ok w) n w s
  return (ts, w)

end Plan

/-! ## The operator that deletes -/

section Delete

variable {td : TupleDesc} (env : Env) (n : Nat)

/-- `Delete.fetchNext`: the first call deletes what its child delivers and
counts it. -/
def deleteFetch (child : Plan) (w : Store td) (s : Bool × child.State) :
    Except DbErr (Option Tuple × Store td × Bool × child.State) :=
  if s.1 then .ok (none, w, s)
  else do
    let (ts, w, s) ← (child.cursor env n).each .stuck (deleteTuple env) n w s.2
    return (some ⟨[.int ts.length], none⟩, w, (true, s))

/-- `Query.execute` on a `Delete`. -/
def executeDelete (child : Plan) (w : Store td) : Except DbErr (List Tuple × Store td) := do
  let (w, s) ← child.start env n w
  let (ts, w, _) ← (operator .noSuchElement (deleteFetch env n child)).each .stuck
    (fun _ w => .ok w) n w (none, (false, s))
  return (ts, w)

end Delete

/-! ## What a plan delivers -/

section Contracts

variable {td : TupleDesc} {env : Env} {n : Nat}

def rowsFrom : Nat → List (HeapPage td) → List Tuple
  | _, [] => []
  | i, page :: pages => pageTuples i page ++ rowsFrom (i + 1) pages

def tableRows (pages : List (HeapPage td)) : List Tuple := rowsFrom 0 pages

/-- A plan read on the rows of the table. -/
def Plan.denote (pages : List (HeapPage td)) : Plan → List Tuple
  | .scan => tableRows pages
  | .filter p child => (child.denote pages).filter p.filter
  | .orderBy field asc child => (child.denote pages).mergeSort (orderLe field asc)
  | .project out child => (child.denote pages).map (projectTuple out)

def OnPages (pageNo : Nat) (t : Tuple) : Prop := ∃ rid, t.recordId = some rid ∧ rid.page ≤ pageNo

def scanContract : Contract (List (HeapPage td)) ScanState Tuple where
  Inv := fun s => ∀ ts ∈ s.tupleIt, ∀ t ∈ ts, OnPages s.pageNo t
  rest := fun pages s =>
    match s.tupleIt with
    | none => []
    | some ts => ts ++ rowsFrom (s.pageNo + 1) (pages.drop (s.pageNo + 1))
  Past := fun s => OnPages s.pageNo

variable {w w' : Store td} {pageNo : Nat} {page : HeapPage td}

theorem getPage_ok (h : getPage env w pageNo = .ok (page, w')) :
    w'.pages = w.pages ∧ w.pages[pageNo]? = some page := by
  unfold getPage at h
  split at h
  · split at h
    · cases h
    · cases h
      exact ⟨rfl, by assumption⟩
  · cases h

theorem onPages_tuplesFrom (pageNo : Nat) :
    ∀ (page : HeapPage td) (slot : Nat), ∀ t ∈ tuplesFrom pageNo slot page, OnPages pageNo t
  | [], _, t, ht => by cases ht
  | none :: page, slot, t, ht => onPages_tuplesFrom pageNo page (slot + 1) t ht
  | some row :: page, slot, t, ht => by
    rcases mem_cons.mp ht with rfl | ht
    · exact ⟨_, rfl, Nat.le_refl _⟩
    · exact onPages_tuplesFrom pageNo page (slot + 1) t ht

variable {s s' : ScanState}

theorem later_scan (h : s.pageNo ≤ s'.pageNo) (hinv : (@scanContract td).Inv s') :
    (@scanContract td).Later s s' where
  inv := hinv
  past := fun _ ⟨rid, hrid, hle⟩ => ⟨rid, hrid, hle.trans h⟩

variable {pages : List (HeapPage td)}

theorem rowsFrom_drop {i : Nat} (h : pages[i]? = some page) :
    rowsFrom i (pages.drop i) = pageTuples i page ++ rowsFrom (i + 1) (pages.drop (i + 1)) := by
  obtain ⟨hi, rfl⟩ := List.getElem?_eq_some_iff.mp h
  rw [drop_eq_getElem_cons hi, rowsFrom]

theorem scanAdvance_ok {k : Nat} :
    ∀ {w w' : Store td} {pageNo : Nat} {b : Bool} {s' : ScanState},
      w.pages.length - (pageNo + 1) = k → scanAdvance env k w pageNo = .ok (b, w', s') →
      w'.pages = w.pages ∧ (@scanContract td).Later ⟨pageNo, some []⟩ s' ∧
        scanContract.rest w.pages s' = scanContract.rest w.pages ⟨pageNo, some []⟩ ∧
        (b = true ↔ ∃ t ts, s'.tupleIt = some (t :: ts)) ∧
        (b = false → scanContract.rest w.pages s' = []) := by
  induction k with
  | zero =>
    intro w w' pageNo b s' hk hrun
    cases hrun
    refine ⟨rfl, later_scan (Nat.le_refl _) (by rintro _ ⟨⟩; simp), rfl, by simp, fun _ => ?_⟩
    simp only [scanContract, nil_append,
      drop_eq_nil_of_le (show w.pages.length ≤ pageNo + 1 by omega)]
    rfl
  | succ k ih =>
    intro w w' pageNo b s' hk hrun
    obtain ⟨⟨page, w₁⟩, hget, hrun⟩ := except_bind_ok.mp hrun
    obtain ⟨hpages, hpage⟩ := getPage_ok hget
    have hrows := rowsFrom_drop hpage
    have hinv : (@scanContract td).Inv ⟨pageNo + 1, some (pageTuples (pageNo + 1) page)⟩ := by
      rintro _ ⟨⟩
      exact onPages_tuplesFrom _ page 0
    have hlater := later_scan (s := ⟨pageNo, some []⟩) (Nat.le_succ _) hinv
    dsimp only at hrun
    split at hrun
    · rename_i hnil
      rw [hnil] at hrows hlater
      have hk' : w₁.pages.length - (pageNo + 1 + 1) = k := by rw [hpages]; omega
      obtain ⟨hw', hl, hrest, hb, hfalse⟩ := ih hk' hrun
      rw [hpages] at hw' hrest hfalse
      refine ⟨hw', hlater.trans hl, hrest.trans ?_, hb, hfalse⟩
      exact hrows.symm
    · rename_i t ts hcons
      cases hrun
      rw [hcons] at hrows hlater
      refine ⟨hpages, hlater, ?_, by simp, by simp⟩
      exact hrows.symm

theorem scanHasNext_ok {b : Bool} (hs : (@scanContract td).Inv s)
    (hrun : scanHasNext env w s = .ok (b, w', s')) :
    w'.pages = w.pages ∧ (@scanContract td).Later s s' ∧
      scanContract.rest w.pages s' = scanContract.rest w.pages s ∧
      (b = true ↔ ∃ t ts, s'.tupleIt = some (t :: ts)) ∧
      (b = false → scanContract.rest w.pages s' = []) := by
  obtain ⟨pageNo, it⟩ := s
  match it, hs, hrun with
  | none, hs, hrun =>
    cases hrun
    exact ⟨rfl, .refl hs, rfl, by simp, fun _ => rfl⟩
  | some (t :: ts), hs, hrun =>
    cases hrun
    exact ⟨rfl, .refl hs, rfl, by simp, by simp⟩
  | some [], hs, hrun => exact scanAdvance_ok rfl hrun

theorem scan_meets : (@scanCursor td env).Meets Store.pages scanContract where
  hasNext := by
    intro w s b w' s' hs hrun
    obtain ⟨hpages, hlater, hrest, hb, hfalse⟩ := scanHasNext_ok hs hrun
    refine ⟨hpages, hlater, hrest, ?_⟩
    cases b with
    | false => simpa [hrest] using hfalse rfl
    | true =>
      obtain ⟨t, ts, hit⟩ := hb.mp rfl
      rw [← hrest]
      simp [scanContract, hit]
  next := by
    intro w s t w' s' hs hrun
    obtain ⟨⟨b, w₁, s₁⟩, hhas, hrun⟩ := except_bind_ok.mp hrun
    obtain ⟨hpages, hlater, hrest, -, -⟩ := scanHasNext_ok hs hhas
    dsimp only at hrun
    split at hrun
    · rename_i hit
      cases hrun
      have hinv := hlater.inv _ hit
      refine ⟨hpages, hlater.trans (later_scan (Nat.le_refl _) ?_), ?_, hinv _ (by simp)⟩
      · rintro _ ⟨⟩ t ht
        exact hinv t (by simp [ht])
      · rw [← hrest]
        simp only [scanContract, hit, cons_append]
    · cases hrun

def listContract : Contract (List (HeapPage td)) (List Tuple) Tuple where
  Inv := fun _ => True
  rest := fun _ ts => ts
  Past := fun _ _ => True

theorem list_fetches : Fetches (@Plan.listFetch td) Store.pages listContract where
  fetch := by
    intro w s o w' s' _ hrun
    cases s with
    | nil =>
      cases hrun
      exact ⟨rfl, .refl trivial, rfl, fun _ => rfl, by simp⟩
    | cons t ts =>
      cases hrun
      exact ⟨rfl, ⟨trivial, fun _ h => h⟩, rfl, by simp, fun _ _ => trivial⟩

def Plan.contract : (p : Plan) → Contract (List (HeapPage td)) p.State Tuple
  | .scan => scanContract
  | .filter p child => (child.contract.filter p.filter).cached
  | .orderBy _ _ _ => listContract.cached
  | .project out child => (child.contract.map (projectTuple out)).cached

theorem Plan.meets : (p : Plan) → (@Plan.cursor td env n p).Meets Store.pages p.contract
  | .scan => scan_meets
  | .filter p child => operator_meets (Cursor.find_fetches child.meets p.filter n)
  | .orderBy _ _ _ => operator_meets list_fetches
  | .project _ child => operator_meets (Cursor.fetchMap_fetches child.meets _)

variable {ts : List Tuple}

/-- Reading a plan to its end delivers what is left of it, in order, and
leaves the pages alone. -/
theorem Plan.reads (p : Plan) {s s' : p.State} {m : Nat} (hs : (@Plan.contract td p).Inv s)
    (hrun : (p.cursor env n).each .stuck (fun _ w => .ok w) m w s = .ok (ts, w', s')) :
    ts = p.contract.rest w.pages s ∧ w'.pages = w.pages := by
  obtain ⟨hts, hpages⟩ := @Cursor.each_ok _ _ _ _ _ .stuck _ _ _ p.meets _ (fun v _ => v)
    (by rintro x w w' ⟨⟩; rfl) (fun _ _ => rfl) _ _ _ _ _ _ hs hrun
  refine ⟨hts, hpages.trans ?_⟩
  exact foldl_fixed _

/-- A plan that was opened has everything to deliver that it denotes. -/
theorem Plan.start_ok : (p : Plan) → {w w' : Store td} → {s : p.State} →
    p.start env n w = .ok (w', s) → w'.pages = w.pages ∧ (@Plan.contract td p).Inv s ∧
      p.contract.rest w.pages s = p.denote w.pages
  | .scan, w, w', s, hrun => by
    obtain ⟨⟨page, w₁⟩, hget, hret⟩ := except_bind_ok.mp hrun
    obtain ⟨hpages, hpage⟩ := getPage_ok hget
    cases hret
    refine ⟨hpages, ?_, ?_⟩
    · rintro _ ⟨⟩
      exact onPages_tuplesFrom 0 page 0
    · exact (rowsFrom_drop hpage).symm
  | .filter p child, w, w', s, hrun => by
    obtain ⟨⟨w₁, s₁⟩, hstart, hret⟩ := except_bind_ok.mp hrun
    obtain ⟨hpages, hinv, hrest⟩ := child.start_ok hstart
    cases hret
    exact ⟨hpages, ⟨hinv, by simp⟩, congrArg (List.filter p.filter) hrest⟩
  | .orderBy field asc child, w, w', s, hrun => by
    obtain ⟨⟨w₁, s₁⟩, hstart, hrun₁⟩ := except_bind_ok.mp hrun
    obtain ⟨⟨ts, w₂, s₂⟩, heach, hret⟩ := except_bind_ok.mp hrun₁
    obtain ⟨hpages, hinv, hrest⟩ := child.start_ok hstart
    cases hret
    obtain ⟨hts, hpages'⟩ := child.reads hinv heach
    rw [hpages] at hts hpages'
    exact ⟨hpages', ⟨trivial, by simp⟩,
      congrArg (fun ts => ts.mergeSort (orderLe field asc)) (hts.trans hrest)⟩
  | .project out child, w, w', s, hrun => by
    obtain ⟨⟨w₁, s₁⟩, hstart, hret⟩ := except_bind_ok.mp hrun
    obtain ⟨hpages, hinv, hrest⟩ := child.start_ok hstart
    cases hret
    exact ⟨hpages, ⟨hinv, by simp⟩, congrArg (List.map (projectTuple out)) hrest⟩

/-- A plan delivers what it denotes. Opening it leaves everything to deliver,
and reading to the end delivers what is left. -/
theorem Plan.execute_ok {p : Plan} (hrun : p.execute env n w = .ok (ts, w')) :
    ts = p.denote w.pages ∧ w'.pages = w.pages := by
  obtain ⟨⟨w₁, s₁⟩, hstart, hrun⟩ := except_bind_ok.mp hrun
  obtain ⟨⟨ts', w₂, s₂⟩, heach, hret⟩ := except_bind_ok.mp hrun
  obtain ⟨hpages, hinv, hrest⟩ := p.start_ok hstart
  cases hret
  obtain ⟨hts, hpages'⟩ := p.reads hinv heach
  rw [hpages] at hts hpages'
  exact ⟨hts.trans hrest, hpages'⟩

/-! ## What a deletion leaves -/

def clearSlot (pages : List (HeapPage td)) (t : Tuple) : List (HeapPage td) :=
  match t.recordId with
  | none => pages
  | some rid => pages.modify rid.page fun page => page.set rid.slot none

variable {t : Tuple}

theorem deleteTuple_ok (h : deleteTuple env t w = .ok w') : w'.pages = clearSlot w.pages t := by
  unfold deleteTuple at h
  split at h
  · cases h
  · rename_i rid hrid
    obtain ⟨⟨page, w₁⟩, hget, hret⟩ := except_bind_ok.mp h
    obtain ⟨hpages, hpage⟩ := getPage_ok hget
    dsimp only at hret
    split at hret
    · cases hret
      simp only [clearSlot, hrid, hpages, modify_eq_set_getElem?, hpage]
      rfl
    · cases hret

theorem rest_clearSlot : (p : Plan) → {s : p.State} → {t : Tuple} → (pages : List (HeapPage td)) →
    (@Plan.contract td p).Past s t → p.contract.rest (clearSlot pages t) s = p.contract.rest pages s
  | .scan, s, t, pages, ⟨rid, hrid, hle⟩ => by
    have hdrop : (clearSlot pages t).drop (s.pageNo + 1) = pages.drop (s.pageNo + 1) := by
      simp only [clearSlot, hrid]
      exact drop_modify_of_lt _ _ _ _ (Nat.lt_succ_of_le hle)
    simp only [Plan.contract, scanContract, hdrop]
  | .filter p child, (o, s), t, pages, hpast =>
    congrArg (fun ts => o.toList ++ ts.filter p.filter) (rest_clearSlot child pages hpast)
  | .orderBy _ _ _, _, _, _, _ => rfl
  | .project out child, (o, s), t, pages, ⟨x, hx, hxt⟩ => by
    have hclear : clearSlot pages t = clearSlot pages x := by
      simp only [clearSlot, ← hxt, projectTuple]
    rw [hclear]
    exact congrArg (fun ts => o.toList ++ ts.map (projectTuple out)) (rest_clearSlot child pages hx)

variable {child : Plan}

theorem deleteFetch_ok {s : child.State} {o : Option Tuple} {s' : Bool × child.State}
    (hs : (@Plan.contract td child).Inv s)
    (hrun : deleteFetch env n child w (false, s) = .ok (o, w', s')) :
    w'.pages = (child.contract.rest w.pages s).foldl clearSlot w.pages ∧ s'.1 = true ∧
      o = some ⟨[.int (child.contract.rest w.pages s).length], none⟩ := by
  obtain ⟨⟨ts, w₁, s₁⟩, heach, hret⟩ := except_bind_ok.mp hrun
  cases hret
  obtain ⟨hts, hpages⟩ := @Cursor.each_ok _ _ _ _ _ .stuck _ _ _ child.meets (deleteTuple env)
    clearSlot deleteTuple_ok (fun _ hpast => rest_clearSlot child _ hpast) _ _ _ _ _ _ hs heach
  rw [← hts]
  exact ⟨hpages, rfl, rfl⟩

/-- A deletion clears the slots of what its child denotes on the pages as
they were, and returns how many those are. -/
theorem executeDelete_ok (hrun : executeDelete env n child w = .ok (ts, w')) :
    w'.pages = (child.denote w.pages).foldl clearSlot w.pages ∧
      ts = [⟨[.int (child.denote w.pages).length], none⟩] := by
  obtain ⟨⟨w₁, s₁⟩, hstart, hrun₁⟩ := except_bind_ok.mp hrun
  obtain ⟨⟨ts', w₂, s₂⟩, heach, hret⟩ := except_bind_ok.mp hrun₁
  obtain ⟨hpages, hinv, hrest⟩ := child.start_ok hstart
  cases hret
  cases n with
  | zero => cases heach
  | succ m =>
    -- the first round of the loop deletes, the second finds nothing more
    obtain ⟨⟨b, w₃, s₃⟩, hhas, heach⟩ := except_bind_ok.mp heach
    obtain ⟨⟨o, w₄, called, s₄⟩, hfetch, hret⟩ := except_bind_ok.mp hhas
    obtain ⟨hw₄, hcalled, ho⟩ := deleteFetch_ok hinv hfetch
    rw [hpages, hrest] at hw₄ ho
    obtain rfl : called = true := hcalled
    subst ho
    cases hret
    obtain ⟨⟨x, w₅, s₅⟩, hnext, heach⟩ := except_bind_ok.mp heach
    cases hnext
    obtain ⟨w₆, hact, heach⟩ := except_bind_ok.mp heach
    cases hact
    obtain ⟨⟨xs, w₇, s₇⟩, hlast, hret⟩ := except_bind_ok.mp heach
    cases hret
    cases m with
    | zero => cases hlast
    | succ m =>
      cases hlast
      exact ⟨hw₄, rfl⟩

/-! ## Rows and slots -/

def slotAt (pages : List (HeapPage td)) (rid : RecordId) : Option (Option (Row td)) :=
  pages[rid.page]?.bind fun page => page[rid.slot]?

theorem mem_tuplesFrom (page : HeapPage td) :
    ∀ slot, t ∈ tuplesFrom pageNo slot page ↔
      ∃ j row, page[j]? = some (some row) ∧ t = ⟨row.fields, some ⟨pageNo, slot + j⟩⟩ := by
  induction page with
  | nil => simp [tuplesFrom]
  | cons o page ih =>
    intro slot
    have hmem : t ∈ tuplesFrom pageNo slot (o :: page) ↔
        (∃ row, o = some row ∧ t = ⟨row.fields, some ⟨pageNo, slot⟩⟩) ∨
          t ∈ tuplesFrom pageNo (slot + 1) page := by
      cases o <;> simp [tuplesFrom]
    rw [hmem, ih]
    constructor
    · rintro (⟨row, rfl, rfl⟩ | ⟨j, row, hj, rfl⟩)
      · exact ⟨0, row, rfl, rfl⟩
      · exact ⟨j + 1, row, hj, by rw [Nat.add_assoc, Nat.add_comm 1]⟩
    · rintro ⟨j, row, hj, rfl⟩
      cases j with
      | zero => exact .inl ⟨row, by simpa using hj, rfl⟩
      | succ j => exact .inr ⟨j, row, hj, by rw [Nat.add_assoc, Nat.add_comm 1]⟩

theorem mem_rowsFrom (pages : List (HeapPage td)) :
    ∀ i, t ∈ rowsFrom i pages ↔ ∃ k j row, slotAt pages ⟨k, j⟩ = some (some row) ∧
      t = ⟨row.fields, some ⟨i + k, j⟩⟩ := by
  induction pages with
  | nil => simp [rowsFrom, slotAt]
  | cons page pages ih =>
    intro i
    rw [rowsFrom, mem_append, pageTuples, mem_tuplesFrom, ih]
    constructor
    · rintro (⟨j, row, hj, rfl⟩ | ⟨k, j, row, hj, rfl⟩)
      · exact ⟨0, j, row, hj, by rw [Nat.zero_add, Nat.add_zero]⟩
      · exact ⟨k + 1, j, row, hj, by rw [Nat.add_assoc, Nat.add_comm 1]⟩
    · rintro ⟨k, j, row, hj, rfl⟩
      cases k with
      | zero => exact .inl ⟨j, row, hj, by rw [Nat.zero_add, Nat.add_zero]⟩
      | succ k => exact .inr ⟨k, j, row, hj, by rw [Nat.add_assoc, Nat.add_comm 1]⟩

theorem mem_tableRows :
    t ∈ tableRows pages ↔
      ∃ rid row, slotAt pages rid = some (some row) ∧ t = ⟨row.fields, some rid⟩ := by
  rw [tableRows, mem_rowsFrom]
  constructor
  · rintro ⟨k, j, row, hj, rfl⟩
    exact ⟨⟨k, j⟩, row, hj, by rw [Nat.zero_add]⟩
  · rintro ⟨⟨k, j⟩, row, hj, rfl⟩
    exact ⟨k, j, row, hj, by rw [Nat.zero_add]⟩

theorem eq_of_recordId_eq {t' : Tuple} (ht : t ∈ tableRows pages) (ht' : t' ∈ tableRows pages)
    (h : t.recordId = t'.recordId) : t = t' := by
  obtain ⟨rid, row, hrow, rfl⟩ := mem_tableRows.mp ht
  obtain ⟨rid', row', hrow', rfl⟩ := mem_tableRows.mp ht'
  obtain rfl : rid = rid' := Option.some.inj h
  rw [hrow] at hrow'
  cases hrow'
  rfl

theorem slotAt_clearSlot (pages : List (HeapPage td)) (t : Tuple) (rid : RecordId) :
    slotAt (clearSlot pages t) rid =
      if t.recordId = some rid then (slotAt pages rid).map fun _ => none else slotAt pages rid := by
  obtain ⟨fields, recordId⟩ := t
  obtain ⟨i, j⟩ := rid
  cases recordId with
  | none => simp [clearSlot]
  | some r =>
    obtain ⟨i', j'⟩ := r
    simp only [clearSlot, slotAt, List.getElem?_modify, Option.some.injEq, RecordId.mk.injEq]
    cases pages[i]? with
    | none => simp
    | some page =>
      by_cases hi : i' = i
      · by_cases hj : j' = j
        · subst hi hj
          simp only [and_self, if_true, Option.map_eq_map, Option.map_some, Option.bind_some,
            List.getElem?_set_self']
          rfl
        · simp [hi, hj]
      · simp [hi]

theorem slotAt_foldl_clearSlot (rid : RecordId) (ts : List Tuple) :
    ∀ pages : List (HeapPage td), slotAt (ts.foldl clearSlot pages) rid =
      if ∃ t ∈ ts, t.recordId = some rid then (slotAt pages rid).map fun _ => none
      else slotAt pages rid := by
  induction ts with
  | nil => simp
  | cons t ts ih =>
    intro pages
    rw [foldl_cons, ih, slotAt_clearSlot]
    by_cases ht : t.recordId = some rid
    · cases slotAt pages rid <;> simp [ht]
    · simp [ht]

theorem length_foldl_clearSlot (ts : List Tuple) :
    ∀ pages : List (HeapPage td), (ts.foldl clearSlot pages).length = pages.length := by
  induction ts with
  | nil => exact fun _ => rfl
  | cons t ts ih =>
    intro pages
    rw [foldl_cons, ih, clearSlot]
    split
    · rfl
    · exact length_modify _ _ _

theorem pages_ext {pages' : List (HeapPage td)} (hlen : pages.length = pages'.length)
    (h : ∀ rid, slotAt pages rid = slotAt pages' rid) : pages = pages' := by
  refine ext_getElem hlen fun i hi hi' => ext_getElem? fun j => ?_
  have hij := h ⟨i, j⟩
  simpa only [slotAt, List.getElem?_eq_getElem hi, List.getElem?_eq_getElem hi',
    Option.bind_some] using hij

/-- The pages without the rows that pass a test. -/
def withoutRows (pages : List (HeapPage td)) (test : List Field → Bool) : List (HeapPage td) :=
  pages.map fun page => page.map fun o => o.filter fun row => ! test row.fields

theorem slotAt_withoutRows (pages : List (HeapPage td)) (test : List Field → Bool)
    (rid : RecordId) : slotAt (withoutRows pages test) rid =
      (slotAt pages rid).map fun o => o.filter fun row => ! test row.fields := by
  simp only [slotAt, withoutRows, List.getElem?_map]
  cases pages[rid.page]? with
  | none => rfl
  | some page => exact List.getElem?_map ..

variable {test : List Field → Bool}

theorem foldl_clearSlot_eq
    (h : ∀ rid, (∃ t ∈ ts, t.recordId = some rid) ↔
      ∃ t ∈ tableRows pages, test t.fields = true ∧ t.recordId = some rid) :
    ts.foldl clearSlot pages = withoutRows pages test := by
  refine pages_ext ?_ fun rid => ?_
  · rw [length_foldl_clearSlot, withoutRows, length_map]
  · rw [slotAt_foldl_clearSlot, slotAt_withoutRows]
    simp only [h rid]
    cases hslot : slotAt pages rid with
    | none => split <;> rfl
    | some o => cases o with
      | none => split <;> rfl
      | some row =>
        have hrow : (∃ t ∈ tableRows pages, test t.fields = true ∧ t.recordId = some rid) ↔
            test row.fields = true := by
          constructor
          · rintro ⟨t, ht, htest, hrid⟩
            rwa [eq_of_recordId_eq ht (mem_tableRows.mpr ⟨rid, row, hslot, rfl⟩) hrid] at htest
          · exact fun htest => ⟨_, mem_tableRows.mpr ⟨rid, row, hslot, rfl⟩, htest, rfl⟩
        simp only [hrow, Option.map_some]
        cases htest : test row.fields <;> simp [Option.filter, htest]

theorem withoutRows_eq_iff {test' : List Field → Bool} :
    withoutRows pages test = withoutRows pages test' ↔
      ∀ t ∈ tableRows pages, test t.fields = test' t.fields := by
  constructor
  · intro h t ht
    obtain ⟨rid, row, hslot, rfl⟩ := mem_tableRows.mp ht
    have hrid := congrArg (fun pages => slotAt pages rid) h
    simp only [slotAt_withoutRows, hslot, Option.map_some, Option.some.injEq, Option.filter] at hrid
    cases htest : test row.fields <;> cases htest' : test' row.fields <;>
      simp [htest, htest'] at hrid ⊢
  · intro h
    refine pages_ext (by simp only [withoutRows, length_map]) fun rid => ?_
    rw [slotAt_withoutRows, slotAt_withoutRows]
    cases hslot : slotAt pages rid with
    | none => rfl
    | some o => cases o with
      | none => rfl
      | some row =>
        have hrow : test row.fields = test' row.fields :=
          h _ (mem_tableRows.mpr ⟨rid, row, hslot, rfl⟩)
        simp only [Option.map_some, Option.filter, hrow]

end Contracts

end Corestack.Simpledb
