import Corestack.Lib.Interleave
import Corestack.Lib.Serial
import Corestack.Db.Reply
import Corestack.Core.Auth

/-!
# Accounts (`libtetrisauth/lib/account.c`, `lib/hex.c`)

`account_login` and `account_register` as programs whose calls are those to
the random generator, to PBKDF2, to the semaphore and to the database, and
what these calls may do when any number of processes make them. A statement
is its parts, not its text: the names in it are folded, so there is nothing
in them to quote.
-/

namespace Corestack.Core

open Lib Db

/-! ## Hex -/

def hexNibble (c : UInt8) : Option UInt8 :=
  if 48 ≤ c && c ≤ 57 then some (c - 48)
  else if 97 ≤ c && c ≤ 102 then some (c - 97 + 10)
  else none

/-- The loop of `hex_decode`. -/
def hexPairs : Bytes → Option Bytes
  | hi :: lo :: rest =>
    match hexNibble hi, hexNibble lo, hexPairs rest with
    | some hi, some lo, some out => some ((hi <<< 4 ||| lo) :: out)
    | _, _, _ => none
  | [_] => none
  | [] => some []

def hexDecode (s : Bytes) (cap : Nat) : Option Bytes :=
  if s.length % 2 ≠ 0 ∨ cap < s.length / 2 then none else hexPairs s

/-! ## The account table -/

/-- A row of `TETRISAUTH_DB_TABLE`. -/
structure Row where
  id : Int
  name : Bytes
  salt : Bytes
  digest : Bytes
  iters : Int
  created : Int
deriving DecidableEq

/-- The numbers are such as an `int` column can hold. -/
def Row.Ints (r : Row) : Prop := IsInt32 r.id ∧ IsInt32 r.iters

/-- The selects that are sent: `max(id)`, `id` by name, and
`id, salt, digest, iters` by name. -/
inductive Query where
  | maxId
  | idOf (name : Bytes)
  | loginOf (name : Bytes)
deriving DecidableEq

/-- The rows a select returns, each as the texts of its fields. There is no
row for the maximum of an empty table. -/
def Query.eval : Query → List Row → List (List Bytes)
  | .maxId, rows => (rows.map (·.id)).max?.toList.map fun v => [fmtInt v]
  | .idOf name, rows => (rows.filter (·.name = name)).map fun r => [fmtInt r.id]
  | .loginOf name, rows =>
    (rows.filter (·.name = name)).map fun r => [fmtInt r.id, r.salt, r.digest, fmtInt r.iters]

inductive Stmt where
  | setTransaction
  | select (q : Query)
  | insert (row : Row)
  | commit
  | rollback
deriving DecidableEq

/-! ## The programs -/

/-- The calls: random bytes for a salt, a PBKDF2 derivation, the clock, the
registration semaphore, and a database connection. -/
inductive AccountCallOp where
  | randBytes
  | pbkdf2 (pass salt : Bytes) (iters : Int)
  | time
  | acquire
  | release
  | connect
  | exec (sql : Stmt)
  | close
deriving DecidableEq

@[reducible] def AccountReply : AccountCallOp → Type
  | .randBytes => Option (Vector UInt8 16)
  | .pbkdf2 _ _ _ => Option (Vector UInt8 32)
  | .time => Int
  | .acquire => Bool
  | .release => Unit
  | .connect => Bool
  | .exec _ => DbStatus × Bytes
  | .close => Unit

abbrev AccountM := Prog AccountCallOp AccountReply Empty

def randBytes : AccountM (Option (Vector UInt8 16)) := Prog.request AccountCallOp.randBytes
def pbkdf2 (pass salt : Bytes) (iters : Int) : AccountM (Option (Vector UInt8 32)) :=
  Prog.request (AccountCallOp.pbkdf2 pass salt iters)
def time : AccountM Int := Prog.request AccountCallOp.time
def regAcquire : AccountM Bool := Prog.request AccountCallOp.acquire
def regRelease : AccountM Unit := Prog.request AccountCallOp.release
def connOpen : AccountM Bool := Prog.request AccountCallOp.connect
def dbSocketExec (sql : Stmt) : AccountM (DbStatus × Bytes) :=
  Prog.request (AccountCallOp.exec sql)
def dbSocketClose : AccountM Unit := Prog.request AccountCallOp.close

def passwordHash (pass saltHex : Bytes) (iters : Int) : AccountM (Option Bytes) :=
  if iters < 1 then pure none
  else match hexDecode saltHex 16 with
    | none | some [] => pure none
    | some salt => do
        let digest ← pbkdf2 pass salt iters
        pure (digest.map fun d => hexEncode d.toList)

/-- `db_next_id`, from the first field of the first row if there is one. -/
def nextIdOf (rows : List (List Bytes)) : Option Int :=
  match rows with
  | [] => some 1
  | [] :: _ => none
  | (f :: _) :: _ =>
    if f.length = 0 ∨ 32 ≤ f.length then none
    else
      let (v, rest) := strtol (cText f)
      if rest ≠ [] then none else some (if v < 0 then 1 else v + 1)

/-- `db_next_id`. `none` is `-1`. -/
def dbNextId (body : Bytes) : Option Int :=
  match dbRowCount body with
  | none => none
  | some 0 => nextIdOf []
  | some _ =>
    match dbRowFields body 0 with
    | none => none
    | some fields => nextIdOf [fields]

/-- The fields of a user row that `account_login` goes on with. -/
structure LoginRow where
  uid : Int
  salt : Bytes
  digest : Bytes
  iters : Int

/-- `copy_text` into a buffer of 32 bytes, read back as a C string. -/
def copyText (s : Bytes) : Option Bytes :=
  if s.length = 0 ∨ 32 ≤ s.length then none else some (cText s)

/-- `parse_login_db_result`: the status it returns when that is not 200. -/
def parseLoginDbResult (st : DbStatus) (body : Bytes) : Except Nat LoginRow :=
  if st ≠ .ok then .error 500
  else match dbRowCount body with
    | none => .error 500
    | some 0 => .error 404
    | some _ =>
      match dbRowFields body 0 with
      | some [f0, f1, f2, f3] =>
        if f1.length ≠ 32 ∨ f2.length ≠ 64 then .error 500
        else match copyText f0, copyText f3 with
          | some id, some text =>
            let iters := toInt32 (strtol text).1
            if iters < 1 then .error 500 else .ok ⟨(strtol id).1, f1, f2, iters⟩
          | _, _ => .error 500
      | _ => .error 500

/-- What an account function returns, and the id it stores on success. -/
abbrev Outcome := Nat × Option Int

/-- The query of `account_login`, sent once more after a `DB_RETRY`. -/
def loginQuery (name : Bytes) : AccountM (DbStatus × Bytes) := do
  let first ← dbSocketExec (.select (.loginOf name))
  if first.1 = .retry then dbSocketExec (.select (.loginOf name)) else pure first

def accountLogin (name : UserName) (c : Acc) : AccountM Outcome := do
  let conn ← connOpen
  if !conn then pure (500, none)
  else
    let reply ← loginQuery name.val
    dbSocketClose
    match parseLoginDbResult reply.1 reply.2 with
    | .error status => pure (status, none)
    | .ok row => do
        let want ← passwordHash c.pass row.salt row.iters
        match want with
        | none => pure (500, none)
        | some want =>
          if want.take 64 = row.digest.take 64 then pure (200, some row.uid)
          else pure (401, none)

/-- What `register_txn` leaves: its status, and `*taken` or else `*id`. -/
inductive TxnResult where
  | failed (st : DbStatus)
  | taken
  | added (id : Int)
deriving DecidableEq

def registerTxn (name salt digest : Bytes) (iters : Int) : AccountM TxnResult := do
  let begun ← dbSocketExec .setTransaction
  if begun.1 ≠ .ok then pure (.failed begun.1)
  else
    let max ← dbSocketExec (.select .maxId)
    if max.1 ≠ .ok then pure (.failed max.1)
    else match dbNextId max.2 with
      | none => pure (.failed .error)
      | some next => do
          let named ← dbSocketExec (.select (.idOf name))
          if named.1 ≠ .ok then pure (.failed named.1)
          else match dbRowCount named.2 with
            | none => pure (.failed .error)
            | some (_ + 1) => do
                let _ ← dbSocketExec .rollback
                pure .taken
            | some 0 => do
                let now ← time
                let inserted ← dbSocketExec (.insert ⟨next, name, salt, digest, iters, now⟩)
                if inserted.1 ≠ .ok then pure (.failed inserted.1)
                else
                  let committed ← dbSocketExec .commit
                  if committed.1 ≠ .ok then pure (.failed committed.1)
                  else pure (.added next)

/-- The attempts of `account_register`: another one after each `DB_RETRY`. -/
def registerLoop (name salt digest : Bytes) (iters : Int) : Nat → AccountM Outcome
  | 0 => pure (500, none)
  | n + 1 => do
      let result ← registerTxn name salt digest iters
      match result with
      | .failed .retry => registerLoop name salt digest iters n
      | .failed _ => pure (500, none)
      | .taken => pure (409, none)
      | .added id => pure (200, some id)

/-- `account_register`; `iters` is `auth_pbkdf2_iters`. -/
def accountRegister (iters : Int) (name : UserName) (c : Acc) : AccountM Outcome :=
  if c.pass.length < 8 ∨ 128 < c.pass.length then pure (400, none)
  else do
    let salt ← randBytes
    match salt with
    | none => pure (500, none)
    | some salt => do
        let saltHex := hexEncode salt.toList
        let digest ← passwordHash c.pass saltHex iters
        match digest with
        | none => pure (500, none)
        | some digest => do
            let sem ← regAcquire
            if !sem then pure (500, none)
            else
              let conn ← connOpen
              if !conn then do
                regRelease
                pure (500, none)
              else
                let result ← registerLoop name.val saltHex digest iters 3
                dbSocketClose
                regRelease
                pure result

/-- What `auth_handler` does with the method and the body of a frame: the
name is folded first. -/
def accountProgram (iters : Int) (op : AccountOp) (c : Acc) : AccountM Outcome :=
  match userNameFold c.user with
  | none => pure (400, none)
  | some name =>
    match op with
    | .login => accountLogin name c
    | .register => accountRegister iters name c

/-! ## What the calls may do -/

abbrev AccountTxn := Txn Row Query (List (List Bytes))
abbrev AccountDone (ι : Type) := Done ι Row Query (List (List Bytes))

/-- A connection: the failure that sticks to it and its open transaction. -/
structure Conn where
  failed : Option DbStatus
  txn : Option AccountTxn

/-- The database, the semaphore and the connections. `serial` is the
history of the committed transactions over the table `base` there was at
the start; `orphans` are transactions whose COMMIT was sent on a connection
that broke and may still be carried out. `seen` is not a part of the system:
it records what the table was when the process last made a select outside
of a transaction, if it did. -/
structure World (ι : Type) where
  serial : List (AccountDone ι)
  orphans : List (AccountDone ι)
  conns : ι → Option Conn
  holder : Option ι
  seen : ι → Option (List Row)

def World.start {ι : Type} : World ι := ⟨[], [], fun _ => none, none, fun _ => none⟩

def World.table {ι : Type} (base : List Row) (w : World ι) : List Row := rowsOf base w.serial

/-- What is read of a reply is what was selected. -/
def Faithful (rows : List (List Bytes)) (body : Bytes) : Prop :=
  ∀ n, dbRowCount body = some n →
    n = rows.length ∧ ∀ i < n, dbRowFields body i = rows[i]?

section Calls

variable {ι : Type} [DecidableEq ι] (base : List Row) (p : ι)

def World.setConn (w : World ι) (c : Option Conn) : World ι :=
  { w with conns := Function.update w.conns p c }

/-- A statement is carried out. A select in a transaction is answered from
the committed rows of some of the transactions in the history, which
`Commits` then has to agree with; outside of one it is its own transaction,
as every statement is. -/
inductive Executes : Stmt → Option AccountTxn → World ι → Option AccountTxn → World ι →
    List (List Bytes) → Prop
  | begin {w : World ι} : Executes .setTransaction none w (some .start) w []
  | read {w : World ι} {t : AccountTxn} {q : Query} {h : List (AccountDone ι)}
      (hsub : h.Sublist w.serial) :
      Executes (.select q) (some t) w
        (some ⟨t.reads ++ [⟨t.writes, q, q.eval (rowsOf base h ++ t.writes)⟩], t.writes⟩) w
        (q.eval (rowsOf base h ++ t.writes))
  | readAlone {w : World ι} {q : Query} :
      Executes (.select q) none w none
        { w with seen := Function.update w.seen p (some (w.table base)) } (q.eval (w.table base))
  | insert {w : World ι} {t : AccountTxn} {row : Row} (hrow : row.Ints) :
      Executes (.insert row) (some t) w (some ⟨t.reads, t.writes ++ [row]⟩) w []
  | insertAlone {w : World ι} {row : Row} {h : List (AccountDone ι)} (hrow : row.Ints)
      (hc : Commits Query.eval base w.serial ⟨p, ⟨[], [row]⟩⟩ h) :
      Executes (.insert row) none w none { w with serial := h } []
  | commit {w : World ι} {t : AccountTxn} {h : List (AccountDone ι)}
      (hc : Commits Query.eval base w.serial ⟨p, t⟩ h) :
      Executes .commit (some t) w none { w with serial := h } []
  | rollback {w : World ι} {t : AccountTxn} : Executes .rollback (some t) w none w []

/-- `db_socket_exec` on an open connection. The statement is answered, or
refused with an error (carried out or not, the transaction kept or
aborted), or it is the victim of a deadlock, whose transaction is aborted;
or the connection is lost, with the statement carried out or not, or a
COMMIT still underway. On a connection that is lost nothing is sent. -/
inductive Exec (sql : Stmt) : Conn → World ι → DbStatus × Bytes → World ι → Prop
  | dead {c : Conn} {w : World ι} {st : DbStatus} (hf : c.failed = some st) :
      Exec sql c w (st, []) w
  | answered {c : Conn} {w w' : World ι} {t' : Option AccountTxn} {rows : List (List Bytes)}
      {body : Bytes} (hf : c.failed = none) (hx : Executes base p sql c.txn w t' w' rows)
      (hb : Faithful rows body) : Exec sql c w (.ok, body) (w'.setConn p (some ⟨none, t'⟩))
  | refused {c : Conn} {w w' : World ι} {t' : Option AccountTxn} {body : Bytes}
      (hf : c.failed = none)
      (hx : (w' = w ∧ (t' = c.txn ∨ t' = none)) ∨
        ∃ rows, Executes base p sql c.txn w t' w' rows) :
      Exec sql c w (.error, body) (w'.setConn p (some ⟨none, t'⟩))
  | deadlock {c : Conn} {w : World ι} {body : Bytes} (hf : c.failed = none) :
      Exec sql c w (.retry, body) (w.setConn p (some ⟨none, none⟩))
  | lost {c : Conn} {w w' : World ι} {t' : Option AccountTxn} {body : Bytes} {st : DbStatus}
      (hf : c.failed = none) (hst : st = .io ∨ st = .timeout)
      (hx : (w' = w ∧ t' = c.txn) ∨ (∃ rows, Executes base p sql c.txn w t' w' rows) ∨
        ∃ t, sql = .commit ∧ c.txn = some t ∧ t' = none ∧
          w' = { w with orphans := ⟨p, t⟩ :: w.orphans }) :
      Exec sql c w (st, body) (w'.setConn p (some ⟨some st, t'⟩))

end Calls

/-- What each call may do; `kdf` is PBKDF2-HMAC-SHA256. -/
inductive Acts {ι : Type} [DecidableEq ι] (kdf : Bytes → Bytes → Int → Vector UInt8 32)
    (base : List Row) (p : ι) :
    (op : AccountCallOp) → World ι → AccountReply op → World ι → Prop
  | randBytes {w : World ι} (r : Option (Vector UInt8 16)) : Acts kdf base p .randBytes w r w
  | pbkdf2 {w : World ι} {pass salt : Bytes} {iters : Int} {r : Option (Vector UInt8 32)}
      (hr : r = none ∨ r = some (kdf pass salt iters)) :
      Acts kdf base p (.pbkdf2 pass salt iters) w r w
  | time {w : World ι} (now : Int) : Acts kdf base p .time w now w
  | acquired {w : World ι} (hfree : w.holder = none) :
      Acts kdf base p .acquire w true { w with holder := some p }
  | gaveUp {w : World ι} : Acts kdf base p .acquire w false w
  | release {w : World ι} : Acts kdf base p .release w () { w with holder := none }
  | connected {w : World ι} : Acts kdf base p .connect w true (w.setConn p (some ⟨none, none⟩))
  | unreachable {w : World ι} : Acts kdf base p .connect w false w
  | exec {w w' : World ι} {sql : Stmt} {c : Conn} {r : DbStatus × Bytes}
      (hc : w.conns p = some c) (hx : Exec base p sql c w r w') :
      Acts kdf base p (.exec sql) w r w'
  | close {w : World ι} : Acts kdf base p .close w () (w.setConn p none)

/-- A COMMIT that was underway is carried out, or dropped. -/
inductive Settles {ι : Type} (base : List Row) : World ι → World ι → Prop
  | applied {w : World ι} {d : AccountDone ι} {h a b : List (AccountDone ι)}
      (ho : w.orphans = a ++ d :: b) (hc : Commits Query.eval base w.serial d h) :
      Settles base w { w with serial := h, orphans := a ++ b }
  | dropped {w : World ι} {d : AccountDone ι} {a b : List (AccountDone ι)}
      (ho : w.orphans = a ++ d :: b) : Settles base w { w with orphans := a ++ b }

/-- The rules of the account system. -/
def accountRules {ι : Type} [DecidableEq ι] (kdf : Bytes → Bytes → Int → Vector UInt8 32)
    (base : List Row) : Rules AccountCallOp AccountReply (World ι) ι :=
  ⟨Acts kdf base, Settles base⟩

end Corestack.Core
