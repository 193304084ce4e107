import Mathlib.Data.List.AList
import Mathlib.Data.List.Induction
import Mathlib.Logic.Function.Basic

/-!
# The log, as records (`LogFile.java`)

The log file is a header and a sequence of records. A position in it is
the number of a record here, not an offset in bytes. Whether an existing
log is recovered from or thrown away is decided late: the first record
that is appended before `recover` was called throws it away.

Pages and their contents are left open. A page image in the log is the
number of the page with its contents.
-/

namespace Corestack.Simpledb

/-- A checkpoint lists the transactions under way with their first
records. -/
inductive LogRecord (T P D : Type) where
  | abort (tid : T)
  | commit (tid : T)
  | update (tid : T) (pid : P) (before after : D)
  | begin (tid : T)
  | checkpoint (active : List (T × Nat))

/-- `checkpoint` is the header: the position of the last checkpoint. -/
structure LogFile (T P D : Type) where
  records : List (LogRecord T P D)
  checkpoint : Option Nat
  recoveryUndecided : Bool
  tidToFirstLogRecord : AList fun _ : T => Nat

variable {T P D : Type} [DecidableEq T] [DecidableEq P]

namespace LogRecord

def isCommit (t : T) : LogRecord T P D → Bool
  | .commit u => u = t
  | _ => false

/-- An update of the page: who made it, and the images. -/
def updateOf (p : P) : LogRecord T P D → Option (T × D × D)
  | .update t q before after => if q = p then some (t, before, after) else none
  | _ => none

/-- The earlier image of an update of the page by the transaction. -/
def imageOf (t : T) (p : P) : LogRecord T P D → Option D
  | .update u q before _ => if u = t ∧ q = p then some before else none
  | _ => none

/-- The image that `recover` writes for a record: the later one of an update
whose transaction committed, the earlier one of any other. -/
def recovered (committed : T → Bool) : LogRecord T P D → Option (P × D)
  | .update t p before after => some (p, if committed t then after else before)
  | _ => none

/-- The record in a log that `n` records in front of it were cut from. -/
def moved (n : Nat) : LogRecord T P D → LogRecord T P D
  | .checkpoint active => .checkpoint (active.map fun (t, k) => (t, k - n))
  | r => r

end LogRecord

namespace LogFile

def append (l : LogFile T P D) (r : LogRecord T P D) : LogFile T P D :=
  { l with records := l.records ++ [r] }

def preAppend (l : LogFile T P D) : LogFile T P D :=
  if l.recoveryUndecided then
    { l with records := [], checkpoint := none, recoveryUndecided := false }
  else l

/-- A second `BEGIN` of one transaction is refused. -/
def logXactionBegin (l : LogFile T P D) (tid : T) : LogFile T P D :=
  match l.tidToFirstLogRecord.lookup tid with
  | some _ => l
  | none =>
    let l := l.preAppend
    { l.append (.begin tid) with
      tidToFirstLogRecord := l.tidToFirstLogRecord.insert tid l.records.length }

def logWrite (l : LogFile T P D) (tid : T) (pid : P) (before after : D) : LogFile T P D :=
  l.preAppend.append (.update tid pid before after)

def logCommit (l : LogFile T P D) (tid : T) : LogFile T P D :=
  let l := l.preAppend
  { l.append (.commit tid) with tidToFirstLogRecord := l.tidToFirstLogRecord.erase tid }

/-- The record that `logAbort` writes after the rollback. -/
def appendAbort (l : LogFile T P D) (tid : T) : LogFile T P D :=
  let l := l.preAppend
  { l.append (.abort tid) with tidToFirstLogRecord := l.tidToFirstLogRecord.erase tid }

/-- The images `rollback` restores: of each page, the first that the
transaction logged (`putIfAbsent`). -/
def beforeImages (l : LogFile T P D) (tid : T) (p : P) : Option D :=
  match l.tidToFirstLogRecord.lookup tid with
  | none => none
  | some firstRecord => (l.records.drop firstRecord).findSome? fun r => r.imageOf tid p

/-- The transactions that `recover` takes for committed. -/
def committed (l : LogFile T P D) (tid : T) : Bool := l.records.any fun r => r.isCommit tid

/-- Page images written to the files one after the other (`restorePages`).
No page of the pool survives it. -/
def restorePages (images : List (P × D)) (files : P → Option D) : P → Option D :=
  images.foldl (fun files (p, image) => Function.update files p (some image)) files

/-- `recover`: the page files that it leaves. -/
def recover (l : LogFile T P D) (files : P → Option D) : P → Option D :=
  restorePages (l.records.filterMap (LogRecord.recovered l.committed)) files

/-- The first records of the transactions that have a `BEGIN` in the log, as
`logTruncate` puts them back. -/
def firstRecords (records : List (LogRecord T P D)) (first : AList fun _ : T => Nat) :
    AList fun _ : T => Nat :=
  records.zipIdx.foldl
    (fun first (r, i) =>
      match r with
      | .begin t => first.insert t i
      | _ => first)
    first

/-- `logTruncate`: what comes before the checkpoint and the first record of
every transaction listed there is dropped. -/
def logTruncate (l : LogFile T P D) : LogFile T P D :=
  match l.checkpoint with
  | none => l
  | some cpLoc =>
    let active := match l.records[cpLoc]? with
      | some (.checkpoint active) => active
      | _ => []
    let minLogRecord := (active.map Prod.snd).foldl min cpLoc
    let records := (l.records.drop minLogRecord).map (LogRecord.moved minLogRecord)
    { l with
      records := records
      checkpoint := some (cpLoc - minLogRecord)
      tidToFirstLogRecord := firstRecords records l.tidToFirstLogRecord }

/-- `logCheckpoint` without the flushing of the pages that comes first. -/
def appendCheckpoint (l : LogFile T P D) : LogFile T P D :=
  { l.append (.checkpoint (l.tidToFirstLogRecord.entries.map fun e => (e.1, e.2))) with
    checkpoint := some l.records.length }

/-! ## What recovery makes of a page -/

/-- The image that the last update of the page leaves it with. -/
def lastImage (committed : T → Bool) (records : List (LogRecord T P D)) (p : P) : Option D :=
  (records.filterMap (LogRecord.updateOf p)).getLast?.map fun (t, before, after) =>
    if committed t then after else before

omit [DecidableEq T] in
theorem restorePages_recovered (committed : T → Bool) (records : List (LogRecord T P D))
    (files : P → Option D) (p : P) :
    restorePages (records.filterMap (LogRecord.recovered committed)) files p =
      (lastImage committed records p).or (files p) := by
  induction records using List.reverseRecOn with
  | nil => rfl
  | append_singleton rs r ih =>
    unfold restorePages lastImage at ih ⊢
    rw [List.filterMap_append, List.filterMap_append, List.foldl_append]
    cases r with
    | update t q before after =>
      by_cases hq : q = p
      · simp [LogRecord.recovered, LogRecord.updateOf, hq]
      · simpa [LogRecord.recovered, LogRecord.updateOf, hq, Ne.symm hq] using ih
    | _ => simpa [LogRecord.recovered, LogRecord.updateOf, List.filterMap_cons] using ih

/-- A page is left as the last update of it says, or as it was. That an
earlier recovery was cut short after any number of records does not show. -/
theorem recover_page (l : LogFile T P D) (files : P → Option D) (k : Nat) (p : P) :
    let done := (l.records.take k).filterMap (LogRecord.recovered l.committed)
    l.recover (restorePages done files) p = (lastImage l.committed l.records p).or (files p) := by
  intro done
  rw [recover, restorePages_recovered, restorePages_recovered]
  cases hlast : lastImage l.committed l.records p with
  | some image => rfl
  | none =>
    -- no update of the page in the log, so none among the first records
    have hnone : (l.records.take k).filterMap (LogRecord.updateOf p) = [] := by
      simp only [lastImage, Option.map_eq_none_iff, List.getLast?_eq_none_iff,
        List.filterMap_eq_nil_iff] at hlast ⊢
      exact fun r hr => hlast r (List.mem_of_mem_take hr)
    simp [lastImage, hnone]

end LogFile

end Corestack.Simpledb
