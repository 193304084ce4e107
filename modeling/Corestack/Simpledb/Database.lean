import Corestack.Lib.Effects
import Corestack.Simpledb.Locking
import Corestack.Simpledb.LogFile

/-!
# Transactions over the buffer pool (`BufferPool.java`, `Transaction.java`)

A page is in up to four places: its file, the pool, the hands of a thread
that got it from the pool, and the log. The threads take turns at what is
atomic. That is a `synchronized` block of the lock manager or of the log, a
page written to its file, and a change of a page in hand. The blocks of the
buffer pool write several pages to disk, so they are cut at every write,
and `monitor` says who is inside.

Pages and their contents are left open; what `insertTuple` and
`deleteTuple` of a heap page do is a function on contents. The default
contents are those of an empty page.
-/

namespace Corestack.Simpledb

open Function Lib

/-- A page object, with the transaction that has it dirty and the contents
of its last `setBeforeImage`. -/
structure Frame (T D : Type) where
  data : D
  dirty : Option T
  before : D
deriving DecidableEq

/-- Where the thread of a transaction is. A thread that got a page keeps the
permission it asked for and whether it had held a lock on the page before,
which `HeapFile.insertTuple` asks. -/
inductive Stage (T P D : Type) where
  | unstarted
  | idle
  | acquiring (pid : P) (exclusive heldBefore : Bool)
  | granted (pid : P) (exclusive heldBefore : Bool)
  | page (pid : P) (exclusive heldBefore : Bool) (frame : Frame T D)
  -- the page has been changed and is not marked dirty yet
  | changed (pid : P) (frame : Frame T D)
  -- an exception is on its way up to the caller, who aborts
  | failed
  | committing
  -- the locks are given back, the commit is not logged yet
  | released
  | committed
  | rollingBack
  -- the abort is logged, the pages are not discarded yet
  | aborting
  | aborted

namespace Stage

variable {T P D : Type}

def hand : Stage T P D → Option (P × Frame T D)
  | .page p _ _ frame => some (p, frame)
  | .changed p frame => some (p, frame)
  | _ => none

/-- How a call of `getPage` goes on after a round of `acquire`. -/
def afterRound (p : P) (x held : Bool) : LockManager.Outcome → Stage T P D
  | .granted => .granted p x held
  | .waiting => .acquiring p x held
  | .deadlock => .failed

/-- The transaction has begun and still has its locks. -/
def live : Stage T P D → Bool
  | .unstarted | .released | .committed | .aborted => false
  | _ => true

/-- `BufferPool.transactionComplete` has made the changes permanent. -/
def durable : Stage T P D → Bool
  | .released | .committed => true
  | _ => false

end Stage

/-- Who is in a `synchronized` method of the buffer pool that writes pages:
`flushAllPages`, the flushing of a commit, or a rollback. `logged` is the
page whose update is logged and which is written next. -/
inductive Monitor (T P : Type) where
  | free
  | flush (tid : Option T) (logged : Option P)
  | rollback (tid : T)
deriving DecidableEq

structure Database (T P D : Type) where
  threads : Threads T P
  pages : P → Option (Frame T D)
  files : P → Option D
  log : LogFile T P D
  stage : T → Stage T P D
  monitor : Monitor T P

inductive Event (T P D : Type) where
  | start (tid : T)
  -- a call of `getPage`, a round of its `acquire`, and its synchronized block
  | getPage (tid : T) (pid : P) (exclusive : Bool)
  | acquire (tid : T)
  | interrupt (tid : T)
  | fetch (tid : T)
  | fail (tid : T)
  | evictPage (pid : P)
  -- `insertTuple` and `deleteTuple`
  | modify (tid : T) (pid : P) (change : D → D)
  | markDirty (tid : T)
  | leave (tid : T)
  | unsafeReleasePage (tid : T)
  | createPage (tid : T) (pid : P)
  -- `flushAllPages`, and the two halves of `flushPage`
  | flushAllPages
  | logUpdate (pid : P)
  | writePage
  | flushed
  | logCheckpoint
  -- `commit`
  | complete (tid : T)
  | release (tid : T)
  | logCommit (tid : T)
  -- `abort`
  | logAbort (tid : T)
  | restorePage (pid : P)
  | appendAbort (tid : T)
  | discard (tid : T)

def onePageFile : Nat → Option Nat := fun p => if p = 0 then some 0 else none

namespace Database

variable {T P D : Type}

/-- A new process on the page files, with no records in the log. -/
def opened (files : P → Option D) : Database T P D where
  threads := Threads.start
  pages _ := none
  files := files
  log := ⟨[], none, false, ∅⟩
  stage _ := .unstarted
  monitor := .free

variable [DecidableEq T] [DecidableEq P]

def setStage (s : Database T P D) (t : T) (st : Stage T P D) : Database T P D :=
  { s with stage := update s.stage t st }

/-- No page in the pool is dirty, or none of the transaction's. -/
def Flushed (s : Database T P D) : Option T → Prop
  | none => ∀ p, (s.pages p).all fun frame => frame.dirty = none
  | some t => ∀ p, (s.pages p).all fun frame => frame.dirty ≠ some t

/-- The page is one that whoever is flushing still has to write. -/
def ToFlush (s : Database T P D) (p : P) : Bool :=
  match s.monitor, s.pages p with
  | .flush tid none, some frame =>
    match frame.dirty with
    | none => false
    | some u => tid = none ∨ tid = some u
  | _, _ => false

/-- Every page that the transaction had logged is back in its file, and not
in the pool. -/
def RolledBack (s : Database T P D) (t : T) : Prop :=
  ∀ p, (s.log.beforeImages t p).isSome → s.files p = s.log.beforeImages t p ∧ (s.pages p).isNone

/-- What the thread of a transaction does next is up to its program; these
are the steps the code can take. -/
def Allowed (s : Database T P D) : Event T P D → Prop
  | .start t => (s.stage t matches .unstarted)
  | .getPage t _ _ => (s.stage t matches .idle | .page ..)
  | .acquire t => (s.stage t matches .acquiring ..)
  | .interrupt t => (s.stage t matches .acquiring ..)
  | .fetch t => (s.stage t matches .granted ..) ∧ s.monitor = .free
  | .fail t => (s.stage t matches .granted .. | .page ..)
  | .evictPage p => (s.pages p).any (fun frame => frame.dirty = none) ∧ s.monitor = .free
  | .modify t p _ => (s.stage t matches .page _ true _ _) ∧
      (s.stage t).hand.any fun (q, _) => q = p
  | .markDirty t => (s.stage t matches .changed ..) ∧ s.monitor = .free
  | .leave t => (s.stage t matches .page ..)
  | .unsafeReleasePage t => (s.stage t matches .page _ false false _)
  | .createPage t p => (s.stage t matches .idle) ∧ (s.files p).isNone
  | .flushAllPages => s.monitor = .free
  | .logUpdate p => s.ToFlush p
  | .writePage => (s.monitor matches .flush _ (some _))
  | .flushed => s.monitor = .flush none none ∧ s.Flushed none
  | .logCheckpoint => s.monitor = .flush none none ∧ s.Flushed none
  | .complete t => (s.stage t matches .idle) ∧ s.monitor = .free
  | .release t => s.monitor = .flush (some t) none ∧ s.Flushed (some t)
  | .logCommit t => (s.stage t matches .released)
  | .logAbort t => (s.stage t matches .idle | .failed) ∧ s.monitor = .free
  | .restorePage p => match s.monitor with
      | .rollback t => (s.log.beforeImages t p).isSome
      | _ => False
  | .appendAbort t => s.monitor = .rollback t ∧ s.RolledBack t
  | .discard t => (s.stage t matches .aborting) ∧ s.monitor = .free

/-- The synchronized block of `getPage`, without the eviction. A page that
is not in its file cannot be read. -/
def fetch (s : Database T P D) (t : T) (p : P) (exclusive heldBefore : Bool) :
    Database T P D :=
  match s.pages p with
  | some frame => s.setStage t (.page p exclusive heldBefore frame)
  | none =>
    match s.files p with
    | none => s.setStage t .failed
    | some data =>
      { s with
        pages := update s.pages p (some ⟨data, none, data⟩)
        stage := update s.stage t
          (.page p exclusive heldBefore ⟨data, none, data⟩) }

def step [Inhabited D] (s : Database T P D) : Event T P D → Database T P D
  | .start t => { s.setStage t .idle with log := s.log.logXactionBegin t }
  | .getPage t p x => s.setStage t (.acquiring p x (s.threads.manager.holdsLock t p))
  | .acquire t =>
    match s.stage t with
    | .acquiring p x held =>
      { s with
        threads := s.threads.step (.round t p x)
        stage := update s.stage t
          (.afterRound p x held (s.threads.manager.acquireRound t p x).1) }
    | _ => s
  | .interrupt t => { s.setStage t .failed with threads := s.threads.step (.interrupt t) }
  | .fetch t =>
    match s.stage t with
    | .granted p x held => s.fetch t p x held
    | _ => s
  | .fail t => s.setStage t .failed
  | .evictPage p => { s with pages := update s.pages p none }
  | .modify t _ change =>
    match s.stage t with
    | .page p _ _ frame =>
      -- the page in the pool, if it is still there, is the one in hand
      { s with
        pages := update s.pages p
          ((s.pages p).map fun pooled => { pooled with data := change frame.data })
        stage := update s.stage t
          (.changed p { frame with data := change frame.data }) }
    | _ => s
  | .markDirty t =>
    match s.stage t with
    | .changed p frame =>
      { s.setStage t .idle with
        pages := update s.pages p (some { frame with dirty := some t }) }
    | _ => s
  | .leave t => s.setStage t .idle
  | .unsafeReleasePage t =>
    match s.stage t with
    | .page p _ _ _ => { s.setStage t .idle with threads := s.threads.step (.release t p) }
    | _ => s
  | .createPage _ p => { s with files := update s.files p (some default) }
  | .flushAllPages => { s with monitor := .flush none none }
  | .logUpdate p =>
    match s.monitor, s.pages p with
    | .flush tid _, some frame =>
      match frame.dirty with
      | some u =>
        { s with
          log := s.log.logWrite u p frame.before frame.data
          monitor := .flush tid (some p) }
      | none => s
    | _, _ => s
  | .writePage =>
    match s.monitor with
    | .flush tid (some p) =>
      match s.pages p with
      | some frame =>
        { s with
          files := update s.files p (some frame.data)
          pages := update s.pages p (some { frame with dirty := none })
          monitor := .flush tid none }
      | none => s
    | _ => s
  | .flushed => { s with monitor := .free }
  | .logCheckpoint =>
    { s with log := s.log.preAppend.appendCheckpoint.logTruncate, monitor := .free }
  | .complete t => { s.setStage t .committing with monitor := .flush (some t) none }
  | .release t =>
    { s.setStage t .released with
      pages := fun p =>
        if s.threads.manager.pagesHeldBy t p then
          (s.pages p).map fun frame => { frame with before := frame.data }
        else s.pages p
      threads := s.threads.step (.releaseAll t)
      monitor := .free }
  | .logCommit t => { s.setStage t .committed with log := s.log.logCommit t }
  | .logAbort t =>
    { s.setStage t .rollingBack with log := s.log.preAppend, monitor := .rollback t }
  | .restorePage p =>
    match s.monitor with
    | .rollback t =>
      match s.log.beforeImages t p with
      | some image =>
        { s with
          pages := update s.pages p none
          files := update s.files p (some image) }
      | none => s
    | _ => s
  | .appendAbort t =>
    { s.setStage t .aborting with log := s.log.appendAbort t, monitor := .free }
  | .discard t =>
    { s.setStage t .aborted with
      pages := fun p => if s.threads.manager.pagesHeldBy t p then none else s.pages p
      threads := s.threads.step (.releaseAll t) }

/-! ## Runs -/

/-- Events that happen one after the other, each allowed and meeting `Q` in
the state it happens in. -/
inductive Run [Inhabited D] (Q : Database T P D → Event T P D → Prop) (s₀ : Database T P D) :
    List (Event T P D) → Database T P D → Prop
  | nil : Run Q s₀ [] s₀
  | snoc {es : List (Event T P D)} {s : Database T P D} {e : Event T P D}
      (hrun : Run Q s₀ es s) (he : s.Allowed e) (hq : Q s e) : Run Q s₀ (es ++ [e]) (s.step e)

end Database

/-- The change of a page that an event is. -/
def Event.change {T P D : Type} : Event T P D → Option (Change T P D)
  | .modify t p f => some ⟨t, p, f⟩
  | _ => none

def changes {T P D : Type} (es : List (Event T P D)) : List (Change T P D) :=
  es.filterMap Event.change

end Corestack.Simpledb
