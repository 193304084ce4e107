import Corestack.Simpledb.Database

/-!
# Sessions (`Parser.java`, `StatementSession.java`)

A session runs one statement at a time. `processNextStatement` catches
nearly everything that a statement can throw, and prints; whether the
statement failed is then read off from what was printed. In between three
variables say which transaction is open.

The sessions of one server take turns at the steps of `Database`. What the
code of an insert, a delete or a select does with the pages is left open:
any calls of the buffer pool that such a statement can make, in any order,
until it comes to its end or throws. A select changes no page.
-/

namespace Corestack.Simpledb

open Function Lib

/-- What a statement can throw, with the message. `other` are the unchecked
exceptions and errors. -/
inductive Throwable where
  | parsingException (message : List Char)
  | parseException (message : List Char)
  | tokenMgrError (message : List Char)
  | transactionAborted
  | dbException (message : List Char)
  | ioException (message : List Char)
  | other (message : List Char)
deriving DecidableEq

def Throwable.getMessage : Throwable → List Char
  | .parsingException m | .parseException m | .tokenMgrError m | .dbException m | .ioException m
  | .other m => m
  | .transactionAborted => "null".toList

def Throwable.toText : Throwable → List Char
  | .parsingException m => "simpledb.ParsingException: ".toList ++ m
  | .parseException m => "Zql.ParseException: ".toList ++ m
  | .tokenMgrError m => "Zql.TokenMgrError: ".toList ++ m
  | .transactionAborted => "simpledb.transaction.TransactionAbortedException".toList
  | .dbException m => "simpledb.common.DbException: ".toList ++ m
  | .ioException m => "java.io.IOException: ".toList ++ m
  | .other m => m

/-- What the catch of the inner `try` throws in place of what it caught. -/
def Throwable.rethrown : Throwable → Throwable
  | .parsingException m => .parsingException (Throwable.parsingException m).toText
  | .parseException m => .parsingException (Throwable.parseException m).toText
  | .tokenMgrError m => .tokenMgrError m
  | a => .dbException a.getMessage

/-- The statements that are run inside a transaction. `other` is everything
that the parser accepts and does not handle. -/
inductive Work where
  | insert
  | delete
  | query
  | other
deriving DecidableEq

inductive TransactStmt where
  | commit
  | rollback
  | setTransaction
  | other
deriving DecidableEq

inductive Statement where
  | transact (s : TransactStmt)
  | work (w : Work)
deriving DecidableEq

/-! ## What is printed -/

/-- A name in a statement or in the catalog. It has no line break. -/
abbrev Name := { name : List Char // '\n' ∉ name }

/-- What the planner prints, a line each. -/
inductive PlanLine where
  | addScan (name : Name)
  | addJoin (field1 field2 : Name)
  | addSubplanJoin (field : Name)
  | addProjectField (field : Name)
  | withAggregator (op : Name)
  | groupBy (field : Name)
  | aggregate (field aggFun : Name)

def PlanLine.text : PlanLine → List Char
  | .addScan name => "Added scan of table ".toList ++ name
  | .addJoin field1 field2 => "Added join between ".toList ++ field1 ++ " and ".toList ++ field2
  | .addSubplanJoin field => "Added subplan join on ".toList ++ field
  | .addProjectField field => "Added select list field ".toList ++ field
  | .withAggregator op => "\t with aggregator ".toList ++ op
  | .groupBy field => "GROUP BY FIELD : ".toList ++ field
  | .aggregate field aggFun =>
    "Aggregate field is ".toList ++ field ++ ", agg fun is : ".toList ++ aggFun

/-- What `Query.execute` prints for an insert or a delete: a table with one
nameless column and the number of rows changed. -/
def countTable (count : Nat) : List (List Char) :=
  ["null\t".toList, List.replicate 9 '-', Nat.toDigits 10 count, "\n 1 rows.".toList]

/-- What a statement that comes to its end has printed. A select prints what
is in the tables, and a stack trace if its plan cannot be shown. -/
inductive Printed where
  | update (plan : List PlanLine) (count : Nat)
  | query (out err : List (List Char))
  | unsupported (statement : List Char)

def Printed.Fits : Work → Printed → Prop
  | .insert, .update .. => True
  | .delete, .update .. => True
  | .query, .query .. => True
  | .other, .unsupported .. => True
  | _, _ => False

/-- The two captured streams, as the texts that were printed with a line
break after each. -/
structure Captured where
  out : List (List Char)
  err : List (List Char)

namespace Captured

def empty : Captured := ⟨[], []⟩

def println (c : Captured) (line : List Char) : Captured := { c with out := c.out ++ [line] }

def printStackTrace (c : Captured) (e : Throwable) : Captured :=
  { c with err := c.err ++ [e.toText] }

def print (c : Captured) : Printed → Captured
  | .update plan count => { c with out := c.out ++ plan.map PlanLine.text ++ countTable count }
  | .query out err => ⟨c.out ++ out, c.err ++ err⟩
  | .unsupported statement =>
    c.println ("Can't parse ".toList ++ statement ++
      "\n -- parser only handles SQL transactions, insert, delete, and select statements".toList)

def stdout (c : Captured) : List Char := c.out.flatMap (· ++ ['\n'])

end Captured

def errorLinePrefixes : List (List Char) := ["Invalid SQL expression".toList, "Can't parse ".toList]

def isErrorLine (line : List Char) : Bool := errorLinePrefixes.any (·.isPrefixOf line)

def hasErrorLine (text : List Char) : Bool := (text.splitOn '\n').any isErrorLine

/-! ## One session -/

/-- `StatementSession.Status`. -/
inductive Status where
  | ok
  | error
  | retry
deriving DecidableEq

/-- Where the thread of the session is: between statements, inside the inner
`try`, in `commit` or `abort` on the way out of it, in a `COMMIT` or a
`ROLLBACK`, or in `close`. -/
inductive Phase (T : Type) where
  | ready
  | body (w : Work)
  | committing
  | aborting (a : Throwable)
  | commit
  | rollback
  | closing (tid : T)
  | closed

/-- The variables of a `Parser` with what `StatementSession` keeps around
it. `status` is what the last call of `execute` returned. -/
structure Session (T : Type) where
  curtrans : Option T
  inUserTrans : Bool
  lastStatementFailure : Option Throwable
  captured : Captured
  phase : Phase T
  status : Option Status

namespace Session

variable {T : Type} (getId : T → Name)

def start : Session T := ⟨none, false, none, .empty, .ready, none⟩

def println (σ : Session T) (line : List Char) : Session T :=
  { σ with captured := σ.captured.println line }

/-- The end of `execute`. -/
def returns (σ : Session T) (threw : Bool) : Session T :=
  { σ with
    phase := .ready
    status := some <|
      if threw || !σ.captured.err.isEmpty || hasErrorLine σ.captured.stdout then
        if σ.lastStatementFailure = some .transactionAborted then .retry else .error
      else .ok }

/-- The outer catches of `processNextStatement`, and the catch of `execute`
for what is left. -/
def caught (σ : Session T) (e : Throwable) : Session T :=
  let failed := { σ with lastStatementFailure := σ.lastStatementFailure.or (some e) }
  match e with
  | .ioException _ | .dbException _ =>
    { failed with captured := σ.captured.printStackTrace e }.returns false
  | .parsingException m =>
    (failed.println ("Invalid SQL expression: \n \t".toList ++ m)).returns false
  | .parseException _ | .tokenMgrError _ =>
    (failed.println ("Invalid SQL expression: \n \t ".toList ++ e.toText)).returns false
  | .transactionAborted | .other _ =>
    (σ.println ("ERROR: ".toList ++ e.toText)).returns true

def started (σ : Session T) (tid : T) : Session T :=
  { σ with curtrans := some tid }.println
    ("Started a new transaction tid = ".toList ++ getId tid)

/-- `handleTransactStatement`, up to the call of `commit` or `abort`. `tid`
is the number of the transaction that is begun, if one is. -/
def handleTransactStatement (σ : Session T) (tid : T) : TransactStmt → Session T
  | .commit =>
    match σ.curtrans with
    | none => σ.caught (.parsingException "No transaction is currently running".toList)
    | some _ => { σ with phase := .commit }
  | .rollback =>
    match σ.curtrans with
    | none => σ.caught (.parsingException "No transaction is currently running".toList)
    | some _ => { σ with phase := .rollback }
  | .setTransaction =>
    match σ.curtrans with
    | some _ =>
      σ.caught (.parsingException
        "Can't start new transactions until current transaction has been committed or rolledback.".toList)
    | none => { σ.started getId tid with inUserTrans := true }.returns false
  | .other => σ.caught (.parsingException "Unsupported operation".toList)

/-- The session as a statement finds it. -/
def reset (σ : Session T) : Session T :=
  { σ with lastStatementFailure := none, captured := .empty, status := none }

/-- `execute` until the statement is read and its transaction begun. -/
def execute (σ : Session T) (read : Except Throwable Statement) (tid : T) : Session T :=
  match read with
  | .error e => σ.reset.caught e
  | .ok (.transact s) => σ.reset.handleTransactStatement getId tid s
  | .ok (.work w) =>
    if σ.inUserTrans then { σ.reset with phase := .body w }
    else { σ.reset.started getId tid with phase := .body w }

def begins (σ : Session T) : Except Throwable Statement → Bool
  | .ok (.transact .setTransaction) => σ.curtrans.isNone
  | .ok (.work _) => !σ.inUserTrans
  | _ => false

def finish (σ : Session T) (printed : Printed) : Session T :=
  let σ := { σ with captured := σ.captured.print printed }
  if σ.inUserTrans then σ.returns false else { σ with phase := .committing }

def thrown (σ : Session T) (out err : List (List Char)) (a : Throwable) : Session T :=
  { σ with
    captured := ⟨σ.captured.out ++ out, σ.captured.err ++ err⟩
    lastStatementFailure := some a
    phase := .aborting a }

def completed (σ : Session T) : Session T :=
  match σ.phase, σ.curtrans with
  | .committing, some tid =>
    { σ.println ("Transaction ".toList ++ getId tid ++ " committed.".toList) with
      curtrans := none }.returns false
  | .aborting a, some tid =>
    { σ.println ("Transaction ".toList ++ getId tid ++
        " aborted because of unhandled error".toList) with
      curtrans := none
      inUserTrans := false }.caught a.rethrown
  | .commit, some tid =>
    { σ.println ("Transaction ".toList ++ getId tid ++ " committed.".toList) with
      curtrans := none
      inUserTrans := false }.returns false
  | .rollback, some tid =>
    { σ.println ("Transaction ".toList ++ getId tid ++ " aborted.".toList) with
      curtrans := none
      inUserTrans := false }.returns false
  | .closing _, _ => { σ with phase := .closed }
  | _, _ => σ

def close (σ : Session T) : Session T :=
  match σ.curtrans with
  | none => { σ with phase := .closed }
  | some tid => { σ with curtrans := none, phase := .closing tid }

/-- The transaction that the session has to do with. -/
def owned (σ : Session T) : Option T :=
  match σ.phase with
  | .closing tid => some tid
  | _ => σ.curtrans

end Session

/-! ## All of them -/

namespace Event

variable {T P D : Type} [DecidableEq T]

def Reads (t : T) : Event T P D → Prop
  | .getPage u _ _ | .acquire u | .interrupt u | .fetch u | .fail u | .leave u => u = t
  | _ => False

def Writes (t : T) : Event T P D → Prop
  | .modify u _ _ | .markDirty u | .unsafeReleasePage u | .createPage u _ => u = t
  | _ => False

/-- The steps of `commit`, with who is in the buffer pool. -/
def Commits (t : T) (m : Monitor T P) : Event T P D → Prop
  | .complete u | .release u | .logCommit u => u = t
  | .logUpdate _ | .writePage => ∃ logged, m = .flush (some t) logged
  | _ => False

def Aborts (t : T) (m : Monitor T P) : Event T P D → Prop
  | .logAbort u | .appendAbort u | .discard u => u = t
  | .restorePage _ => m = .rollback t
  | _ => False

end Event

/-- What a session calls for its transaction. -/
def Phase.Calls {T P D : Type} (t : T) (m : Monitor T P) : Phase T → Event T P D → Prop
  | .body .insert, e | .body .delete, e => e.Reads t ∨ e.Writes t
  | .body .query, e => e.Reads t
  | .committing, e | .commit, e => e.Commits t m
  | .aborting _, e | .rollback, e | .closing _, e => e.Aborts t m
  | _, _ => False

structure Server (I T P D : Type) where
  db : Database T P D
  sessions : I → Session T

inductive ServerEvent (I T P D : Type) where
  | evictPage (pid : P)
  | execute (i : I) (read : Except Throwable Statement) (tid : T)
  | call (i : I) (e : Event T P D)
  | finish (i : I) (printed : Printed)
  | thrown (i : I) (out err : List (List Char)) (a : Throwable)
  | completed (i : I)
  | close (i : I)

namespace Server

variable {I T P D : Type}

def start (files : P → Option D) : Server I T P D := ⟨.opened files, fun _ => .start⟩

variable [DecidableEq I] [DecidableEq T] [DecidableEq P] (getId : T → Name)

def Allowed (s : Server I T P D) : ServerEvent I T P D → Prop
  | .evictPage p => s.db.Allowed (.evictPage p)
  | .execute i read tid => (s.sessions i).phase = .ready ∧
      ((s.sessions i).begins read = true → s.db.Allowed (.start tid))
  | .call i e => s.db.Allowed e ∧
      ∃ t, (s.sessions i).owned = some t ∧ (s.sessions i).phase.Calls t s.db.monitor e
  | .finish i printed => ∃ w t, (s.sessions i).phase = .body w ∧ printed.Fits w ∧
      (s.sessions i).curtrans = some t ∧ s.db.stage t = .idle
  | .thrown i _ _ _ => ∃ w t, (s.sessions i).phase = .body w ∧
      (s.sessions i).curtrans = some t ∧ (s.db.stage t = .idle ∨ s.db.stage t = .failed)
  | .completed i => ∃ t, (s.sessions i).owned = some t ∧
      match (s.sessions i).phase with
      | .committing | .commit => s.db.stage t = .committed
      | .aborting _ | .rollback | .closing _ => s.db.stage t = .aborted
      | _ => False
  | .close i => (s.sessions i).phase = .ready

/-- The step that an event is for the database. -/
def dbEvent (s : Server I T P D) : ServerEvent I T P D → Option (Event T P D)
  | .evictPage p => some (.evictPage p)
  | .execute i read tid => if (s.sessions i).begins read then some (.start tid) else none
  | .call _ e => some e
  | _ => none

def session (s : Server I T P D) : ServerEvent I T P D → I → Session T
  | .execute i read tid =>
    update s.sessions i ((s.sessions i).execute getId read tid)
  | .finish i printed => update s.sessions i ((s.sessions i).finish printed)
  | .thrown i out err a => update s.sessions i ((s.sessions i).thrown out err a)
  | .completed i => update s.sessions i ((s.sessions i).completed getId)
  | .close i => update s.sessions i (s.sessions i).close
  | _ => s.sessions

def step [Inhabited D] (s : Server I T P D) (e : ServerEvent I T P D) : Server I T P D where
  db := match s.dbEvent e with
    | some e => s.db.step e
    | none => s.db
  sessions := s.session getId e

inductive Run [Inhabited D] : Server I T P D → List (ServerEvent I T P D) → Server I T P D → Prop
  | nil (s : Server I T P D) : Run s [] s
  | snoc {s₀ s : Server I T P D} {es : List (ServerEvent I T P D)} {e : ServerEvent I T P D}
      (hrun : Run s₀ es s) (he : s.Allowed e) : Run s₀ (es ++ [e]) (s.step getId e)

end Server

def ServerEvent.change {I T P D : Type} : ServerEvent I T P D → Option (Change T P D)
  | .call _ e => e.change
  | _ => none

def Server.changes {I T P D : Type} (es : List (ServerEvent I T P D)) : List (Change T P D) :=
  es.filterMap ServerEvent.change

end Corestack.Simpledb
