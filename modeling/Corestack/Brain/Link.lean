import Corestack.Lib.Prog
import Corestack.Brain.Store

/-!
# The link to the store

libballotbrain makes four kinds of calls: it writes a log line, opens a
store connection, sends a statement and reads the reply, and closes the
connection. It never has two connections open at a time.

`World` is what these calls act on: the committed tables, the server's
side of the open connection and the log. Each call to the store meets a
`Fate`, chosen freely for every call, so that a run is a run under some
pattern of failures.
-/

namespace Corestack.Brain

open Lib Db

inductive Op where
  | log (line : Bytes)
  | connect
  | exec (sql : Stmt) (cap : Nat)
  | close
deriving DecidableEq

/-- `connect` reports whether there is a connection, `exec` returns what
`db_socket_exec` does: the status and the body. -/
@[reducible] def Reply : Op → Type
  | .log _ => Unit
  | .connect => Bool
  | .exec _ _ => DbStatus × Bytes
  | .close => Unit

abbrev BrainM := Prog Op Reply BbErr

/-- What happens to a call to the store. `answer`: it is carried out and
answered. `refuse`: it is answered with an error, whether or not the open
transaction is aborted. `deadlock`: the transaction is aborted and the
answer asks for a retry. `lost`: the client sees an I/O failure or passes
its deadline, and the statement may or may not have been carried out. -/
inductive Fate where
  | answer
  | refuse (aborts : Bool)
  | deadlock
  | lost (late applied : Bool)
deriving DecidableEq

/-- The environment of a run: the lines printed around results, the fate of
the `n`-th call, whether a commit without an answer may have taken effect,
and whether lines left unread by one statement stay on the connection for
the next one (as on a socket) or every statement reads its own reply. -/
structure Env where
  chatter : Chatter
  fate : Nat → Fate
  lostCommitApplies : Bool
  keepsUnread : Bool

/-- The open connection: a failure that sticks to it, the tables as the
open transaction sees them, and the lines not read yet. -/
structure Session where
  failed : Option DbStatus
  txn : Option Tables
  unread : List Bytes

structure World where
  tables : Tables
  session : Option Session
  clock : Nat
  log : List Bytes

/-- The server's answer to a statement: the committed tables, the open
transaction, the lines printed and the end line. -/
structure Answer where
  tables : Tables
  txn : Option Tables
  lines : List Bytes
  mark : Bytes

section Server

variable (c : Chatter) (n : Nat)

def refused (sql : Stmt) (db : Tables) (txn : Option Tables) : Answer :=
  ⟨db, txn, c.refusal n sql, dbMarkError⟩

def deadlocked (sql : Stmt) (db : Tables) : Answer :=
  ⟨db, none, c.refusal n sql, dbMarkRetry⟩

/-- A statement that was carried out is reported as failed when a line it
printed looks like an error message. -/
def done (sql : Stmt) (db : Tables) (txn : Option Tables) (rows : Option (List (List Bytes))) :
    Answer :=
  let lines := match rows with
    | some rows => selectLines c n sql rows
    | none => c.before n sql ++ c.after n sql
  ⟨db, txn, lines, if lines.any isErrorLine then dbMarkError else dbMarkOk⟩

/-- A statement carried out by the session's parser. Outside a transaction
it is its own transaction. -/
def serve (sql : Stmt) (db : Tables) (txn : Option Tables) : Answer :=
  match sql, txn with
  | .setTransaction, none => done c n sql db (some db) none
  | .commit, some t => done c n sql t none none
  | .rollback, some _ => done c n sql db none none
  | .setTransaction, some _ | .commit, none | .rollback, none => refused c n sql db txn
  | _, none =>
    match db.write sql with
    | none => refused c n sql db none
    | some t' => done c n sql t' none (db.query sql)
  | _, some t =>
    match t.write sql with
    | none => refused c n sql db none
    | some t' => done c n sql db (some t') (t.query sql)

end Server

/-- The server's side of a lost statement: no answer comes, and the tables
are as if it had been carried out, or as before. -/
def serveLost (env : Env) (n : Nat) (applied : Bool) (sql : Stmt) (db : Tables)
    (txn : Option Tables) : Tables × Option Tables :=
  if applied ∧ (sql = .commit → env.lostCommitApplies) then
    let a := serve env.chatter n sql db txn
    (a.tables, a.txn)
  else (db, txn)

/-- Read the next reply off a connection that has `lines` to read. -/
def readReply (env : Env) (cap : Nat) (lines : List Bytes) : (DbStatus × Bytes) × List Bytes :=
  match dbWireResponse cap lines [] with
  | some (st, body, rest) => ((st, body), if env.keepsUnread then rest else [])
  | none => ((.io, []), [])

def exec (env : Env) (sql : Stmt) (cap : Nat) (w : World) : (DbStatus × Bytes) × World :=
  match w.session with
  | none => ((.io, []), w)
  | some s =>
    match s.failed with
    | some st => ((st, []), w)
    | none =>
      if breaksLine sql.text then ((.error, []), w)
      else
        let n := w.clock
        let reply (a : Answer) : (DbStatus × Bytes) × World :=
          let (r, rest) := readReply env cap (s.unread ++ a.lines ++ [a.mark])
          (r, { w with tables := a.tables, session := some ⟨none, a.txn, rest⟩,
                       clock := n + 1 })
        match env.fate n with
        | .answer => reply (serve env.chatter n sql w.tables s.txn)
        | .refuse aborts =>
          reply (refused env.chatter n sql w.tables (if aborts then none else s.txn))
        | .deadlock => reply (deadlocked env.chatter n sql w.tables)
        | .lost late applied =>
          let st := if late then .timeout else .io
          let (db, txn) := serveLost env n applied sql w.tables s.txn
          ((st, []), { w with tables := db, session := some ⟨some st, txn, s.unread⟩,
                              clock := n + 1 })

/-- The handler of a run. Closing a connection rolls back what is open. -/
def handle (env : Env) : (op : Op) → World → Reply op × World
  | .log line, w => ((), { w with log := w.log ++ [line] })
  | .connect, w =>
    if env.fate w.clock = .answer then
      (true, { w with session := some ⟨none, none, []⟩, clock := w.clock + 1 })
    else (false, { w with clock := w.clock + 1 })
  | .exec sql cap, w => exec env sql cap w
  | .close, w => ((), { w with session := none })

end Corestack.Brain
