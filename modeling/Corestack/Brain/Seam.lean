import Corestack.Brain.Link

/-!
# The DB seam (`db.c`, `txn.c`)

Every command of libballotbrain to the store, as statements and parsed
replies. A function that returns a `bb_result_t` and fills an out-parameter
on success is a program that returns the value or fails with the code.
-/

namespace Corestack.Brain

open Lib Db

/-! ## Primitive calls -/

/-- `txnConn` is `txn_conn != NULL`. -/
structure BbCtx where
  txnConn : Bool
deriving DecidableEq

/-- One formatted line; the newline is left out. -/
def bbLog (line : Bytes) : BrainM Unit := .request (Op.log line)

def dbSocketOpen : BrainM Bool := .request Op.connect

def dbSocketExec (sql : Stmt) (cap : Nat) : BrainM (DbStatus × Bytes) :=
  .request (Op.exec sql cap)

def dbSocketClose : BrainM Unit := .request Op.close

def bodyMax : Nat := 16384

def mapStatus : DbStatus → Except BbErr Unit
  | .ok => .ok ()
  | .retry => .error .retry
  | _ => .error .db

/-- `exec_stmt`: the body, or the mapped status. -/
def execStmt (sql : Stmt) (cap : Nat) : BrainM Bytes := do
  let (st, body) ← dbSocketExec sql cap
  match mapStatus st with
  | .ok () => return body
  | .error e => .fail e

/-! ## Small helpers -/

/-- `unsafe`: a TAB, CR or LF would shift the fields of every reply the
text is printed in. -/
def unsafeField (s : Bytes) : Bool := s.any fun c => c = tab || c = lf || c = cr

def fieldInt (f : Bytes) : Int := atoi (CStr.copy 24 f).val

def parseState (text : Bytes) : Option BbState :=
  if text = bytes "DRAFT" then some .draft
  else if text = bytes "OPEN" then some .opened
  else if text = bytes "CLOSED" then some .closed
  else if text = bytes "PUBLISHED" then some .published
  else none

/-- `id_seq`: the number behind the last dash, 0 if there is none. -/
def idSeq (id : Bytes) : Int :=
  match (split 45 id).reverse with
  | last :: _ :: _ =>
    let (v, rest) := strtol last
    if rest ≠ [] ∨ v < 0 then 0 else toInt32 v
  | _ => 0

/-! ## Commands -/

/-- `bb_db_cmd_t`, with the fields each operation reads. -/
inductive BbDbCmd where
  | insertElection (id : Id) (config : BbConfig)
  | updateState (id : Id) (newState : BbState)
  | appendBallot (id : Id) (row : BbBallotHash)
  | markSuperseded (id : Id) (hash : Hash)
  | nonceMark (id : Id) (nonce : Nonce)
  | setOwner (id : Id) (cert : CertName) (hash : Hash) (version : Int)
  | getElection (id : Id)
  | getTally (id : Id)
  | getHashes (id : Id)
  | findHash (id : Id) (hash : Hash)
  | nonceSeen (id : Id) (nonce : Nonce)
  | getPriorBallot (id : Id) (cert : CertName)

/-- `bb_db_result_t`, zeroed before every command. -/
structure BbDbResult where
  found : Bool := false
  election : BbElection := default
  row : BbBallotHash := default
  tally : Fin bbMaxOptions → Nat := fun _ => 0
  hashes : List BbBallotHash := []

def opIsWrite : BbDbCmd → Bool
  | .insertElection .. | .updateState .. | .appendBallot .. | .markSuperseded ..
  | .nonceMark .. | .setOwner .. => true
  | _ => false

/-- The line `log_cmd` writes. The voter's name is in none of them. -/
def logCmd : BbDbCmd → Bytes
  | .insertElection id _ =>
    bytes "[db] insert into election(id, title, state) values ('" ++ id.val
      ++ bytes "', ?, 'DRAFT')"
  | .getElection id =>
    bytes "[db] select * from election where id = '" ++ id.val ++ bytes "'"
  | .updateState id newState =>
    bytes "[db] election '" ++ id.val ++ bytes "': state -> '" ++ bbStateStr newState
      ++ bytes "' (delete + reinsert, no UPDATE in SimpleDB)"
  | .appendBallot id row =>
    bytes "[db] insert into ballot(election_id, hash, option_index, version, superseded) "
      ++ bytes "values ('" ++ id.val ++ bytes "', '" ++ row.hash.val ++ bytes "', "
      ++ fmtInt row.optionIndex ++ bytes ", " ++ fmtInt row.version ++ bytes ", "
      ++ fmtInt row.superseded ++ bytes ")"
  | .markSuperseded id hash =>
    bytes "[db] ballot '" ++ hash.val ++ bytes "' in '" ++ id.val
      ++ bytes "': superseded -> 1 (delete + reinsert)"
  | .nonceMark id nonce =>
    bytes "[db] insert into nonce(election_id, nonce) values ('" ++ id.val ++ bytes "', '"
      ++ nonce.val ++ bytes "')"
  | .setOwner id _ hash version =>
    bytes "[db] ballot_owner('" ++ id.val ++ bytes "', cert=?) -> hash='" ++ hash.val
      ++ bytes "' version=" ++ fmtInt version
  | .getTally id =>
    bytes "[db] select option_index from ballot where election_id = '" ++ id.val
      ++ bytes "' and superseded = 0"
  | .getHashes id =>
    bytes "[db] select hash, option_index from ballot where election_id = '" ++ id.val
      ++ bytes "' and superseded = 0"
  | .findHash id hash =>
    bytes "[db] select 1 from ballot where election_id = '" ++ id.val ++ bytes "' and hash = '"
      ++ hash.val ++ bytes "' and superseded = 0"
  | .nonceSeen id nonce =>
    bytes "[db] select 1 from nonce where election_id = '" ++ id.val ++ bytes "' and nonce = '"
      ++ nonce.val ++ bytes "'"
  | .getPriorBallot id _ =>
    bytes "[db] select hash, version from ballot_owner where election_id = '" ++ id.val
      ++ bytes "' and cert=?"

/-! ## Writes -/

/-- The option rows from index `i` on. -/
def insertOptions (id : Id) : Nat → List OptionName → BrainM Unit
  | _, [] => return ()
  | i, o :: os =>
    if unsafeField o.val then .fail .db
    else do
      let _ ← execStmt (.insertOption id (fmtInt i) o) 0
      insertOptions id (i + 1) os

def insertEligibles (id : Id) : List CertName → BrainM Unit
  | [] => return ()
  | c :: cs =>
    if unsafeField c.val then .fail .db
    else do
      let _ ← execStmt (.insertEligible id c) 0
      insertEligibles id cs

def runInsertElection (id : Id) (cfg : BbConfig) : BrainM Unit :=
  if unsafeField id.val || unsafeField cfg.title.val || unsafeField cfg.openTime.val
      || unsafeField cfg.closeTime.val then .fail .db
  else do
    let _ ← execStmt (.insertElection (fmtInt (idSeq id.val)) id cfg.title .draft
      cfg.openTime cfg.closeTime) 0
    insertOptions id 0 cfg.options
    insertEligibles id cfg.eligible

/-- The row of `select seq, title, open_time, close_time`, cut to the
buffers it is copied into. -/
def readCarried (body : Bytes) : Option (Bytes × Title × Time × Time) :=
  match dbRowCount body with
  | none | some 0 => none
  | some _ =>
    match dbRowFields body 0 with
    | some (f₀ :: f₁ :: f₂ :: f₃ :: _) =>
      some ((CStr.copy 24 f₀).val, CStr.copy _ f₁, CStr.copy _ f₂, CStr.copy _ f₃)
    | _ => none

def runUpdateState (id : Id) (newState : BbState) : BrainM Unit := do
  let body ← execStmt (.selectCarried id) bodyMax
  match readCarried body with
  | none => .fail .db
  | some (seq, title, openTime, closeTime) =>
    let _ ← execStmt (.deleteElection id) 0
    let _ ← execStmt (.insertElection seq id title newState openTime closeTime) 0
    return ()

def runAppendBallot (id : Id) (row : BbBallotHash) : BrainM Unit := do
  let _ ← execStmt (.insertBallot id row.hash (fmtInt row.optionIndex) (fmtInt row.version)
    (fmtInt row.superseded)) 0
  return ()

/-- The first row of `select option_index, version`, as text. -/
def readMarked (body : Bytes) : Option (Bytes × Bytes) :=
  match dbRowCount body with
  | none | some 0 => none
  | some _ =>
    match dbRowFields body 0 with
    | some (f₀ :: f₁ :: _) => some ((CStr.copy 24 f₀).val, (CStr.copy 24 f₁).val)
    | _ => none

def runMarkSuperseded (id : Id) (hash : Hash) : BrainM Unit := do
  let body ← execStmt (.selectBallot id hash) bodyMax
  match readMarked body with
  | none => .fail .db
  | some (opt, ver) =>
    let _ ← execStmt (.deleteBallot id hash) 0
    let _ ← execStmt (.insertBallot id hash opt ver (bytes "1")) 0
    return ()

def runNonceMark (id : Id) (nonce : Nonce) : BrainM Unit := do
  let _ ← execStmt (.insertNonce id nonce) 0
  return ()

def runSetOwner (id : Id) (cert : CertName) (hash : Hash) (version : Int) : BrainM Unit := do
  let _ ← execStmt (.deleteOwner id cert) 0
  let _ ← execStmt (.insertOwner id cert hash (fmtInt version)) 0
  return ()

/-! ## Reads -/

/-- The election row. `ok none` when there is none. -/
def readElection (body : Bytes) : Except BbErr (Option BbElection) :=
  match dbRowCount body with
  | none => .error .db
  | some 0 => .ok none
  | some _ =>
    match dbRowFields body 0 with
    | some (_ :: f₁ :: f₂ :: f₃ :: f₄ :: f₅ :: _) =>
      match parseState (CStr.copy 16 f₃).val with
      | none => .error .db
      | some state => .ok <| some { (default : BbElection) with
          id := CStr.copy _ f₁, title := CStr.copy _ f₂, state := state,
          openTime := CStr.copy _ f₄, closeTime := CStr.copy _ f₅ }
    | _ => .error .db

/-- Put one option row at the index it states. -/
def placeOption (body : Bytes) (options : Fin bbMaxOptions → OptionName) (i : Nat) :
    Fin bbMaxOptions → OptionName :=
  match dbRowFields body i with
  | some (f₀ :: f₁ :: _) =>
    let idx := fieldInt f₀
    fun j => if (j : Int) = idx then CStr.copy _ f₁ else options j
  | _ => options

def readOptions (body : Bytes) (e : BbElection) : BbElection :=
  let orows := (dbRowCount body).getD 0
  { e with options := (List.range orows).foldl (placeOption body) e.options,
           optionCount := min orows bbMaxOptions }

def readEligible (body : Bytes) (e : BbElection) : BbElection :=
  let erows := (dbRowCount body).getD 0
  { e with eligible := (List.range (min erows bbMaxVoters)).map fun i =>
      match dbRowFields body i with
      | some (f :: _) => CStr.copy _ f
      | _ => default }

def runGetElection (id : Id) : BrainM BbDbResult := do
  let body ← execStmt (.selectElection id) bodyMax
  match readElection body with
  | .error e => .fail e
  | .ok none => return {}
  | .ok (some e) =>
    let body ← execStmt (.selectOptions id) bodyMax
    let e := readOptions body e
    let body ← execStmt (.selectEligible id) bodyMax
    return { found := true, election := readEligible body e }

/-- Count one row of the tally. -/
def countOption (body : Bytes) (tally : Fin bbMaxOptions → Nat) (i : Nat) :
    Fin bbMaxOptions → Nat :=
  match dbRowFields body i with
  | some (f :: _) =>
    let idx := fieldInt f
    fun j => if (j : Int) = idx then tally j + 1 else tally j
  | _ => tally

def readTally (body : Bytes) : Fin bbMaxOptions → Nat :=
  (List.range ((dbRowCount body).getD 0)).foldl (countOption body) fun _ => 0

def runGetTally (id : Id) : BrainM BbDbResult := do
  let body ← execStmt (.selectTally id) bodyMax
  return { tally := readTally body }

/-- Row `i` of `select hash, option_index, version, superseded`. -/
def readHashRow (body : Bytes) (i : Nat) : Option BbBallotHash :=
  match dbRowFields body i with
  | some (f₀ :: f₁ :: f₂ :: f₃ :: _) =>
    some ⟨CStr.copy _ f₀, fieldInt f₁, fieldInt f₂, fieldInt f₃⟩
  | _ => none

def readHashes (body : Bytes) : List BbBallotHash :=
  ((List.range ((dbRowCount body).getD 0)).filterMap (readHashRow body)).take bbMaxVoters

def runGetHashes (id : Id) : BrainM BbDbResult := do
  let body ← execStmt (.selectHashes id) bodyMax
  return { hashes := readHashes body }

def runFindHash (id : Id) (hash : Hash) : BrainM BbDbResult := do
  let body ← execStmt (.selectHash id hash) bodyMax
  match dbRowCount body with
  | none | some 0 => return {}
  | some _ =>
    match readHashRow body 0 with
    | none => .fail .db
    | some row => return { found := true, row := row }

def runNonceSeen (id : Id) (nonce : Nonce) : BrainM BbDbResult := do
  let body ← execStmt (.selectNonce id nonce) bodyMax
  return { found := 0 < (dbRowCount body).getD 0 }

/-- The row of `select hash, version`. `ok none` when there is none. -/
def readPrior (body : Bytes) : Except BbErr (Option (Hash × Int)) :=
  match dbRowCount body with
  | none | some 0 => .ok none
  | some _ =>
    match dbRowFields body 0 with
    | some (f₀ :: f₁ :: _) => .ok (some (CStr.copy _ f₀, fieldInt f₁))
    | _ => .error .db

def runGetPriorBallot (id : Id) (cert : CertName) : BrainM BbDbResult := do
  let body ← execStmt (.selectOwner id cert) bodyMax
  match readPrior body with
  | .error e => .fail e
  | .ok none => return {}
  | .ok (some (hash, version)) =>
    return { found := true, row := { (default : BbBallotHash) with hash, version } }

/-! ## Running a command -/

def runOp : BbDbCmd → BrainM BbDbResult
  | .insertElection id cfg => do runInsertElection id cfg; return {}
  | .updateState id newState => do runUpdateState id newState; return {}
  | .appendBallot id row => do runAppendBallot id row; return {}
  | .markSuperseded id hash => do runMarkSuperseded id hash; return {}
  | .nonceMark id nonce => do runNonceMark id nonce; return {}
  | .setOwner id cert hash version => do runSetOwner id cert hash version; return {}
  | .getElection id => runGetElection id
  | .getTally id => runGetTally id
  | .getHashes id => runGetHashes id
  | .findHash id hash => runFindHash id hash
  | .nonceSeen id nonce => runNonceSeen id nonce
  | .getPriorBallot id cert => runGetPriorBallot id cert

/-- What stands between `open` and `close` of `one_shot_attempt`. -/
def oneShotBody (cmd : BbDbCmd) : BrainM BbDbResult :=
  if opIsWrite cmd then do
    let r ← (do let _ ← execStmt .setTransaction 0; runOp cmd : BrainM BbDbResult).attempt
    match r with
    | .ok out => do
        let _ ← execStmt .commit 0
        return out
    | .error e =>
      if e = .retry then .fail e
      else do
        let _ ← dbSocketExec .rollback 0
        .fail e
  else runOp cmd

/-- `one_shot_attempt`: the connection is closed whatever happened on it. -/
def oneShotAttempt (cmd : BbDbCmd) : BrainM BbDbResult := do
  if ← dbSocketOpen then
    let r ← (oneShotBody cmd).attempt
    dbSocketClose
    match r with
    | .ok out => return out
    | .error e => .fail e
  else .fail .db

/-- The attempts of `db_exec` on connections of its own. -/
def oneShot (cmd : BbDbCmd) : Nat → BrainM BbDbResult
  | 0 => .fail .db
  | n + 1 => do
      match ← (oneShotAttempt cmd).attempt with
      | .ok out => return out
      | .error e => if e = .retry then oneShot cmd n else .fail e

def selfRetryAttempts : Nat := 3

def dbExec (ctx : BbCtx) (cmd : BbDbCmd) : BrainM BbDbResult := do
  bbLog (logCmd cmd)
  if ctx.txnConn then runOp cmd else oneShot cmd selfRetryAttempts

/-! ## Transactions (`txn.c`) -/

def bbDbBegin (ctx : BbCtx) : BrainM BbCtx :=
  if ctx.txnConn then .fail .db
  else do
    if ← dbSocketOpen then
      match ← (execStmt .setTransaction 0).attempt with
      | .ok _ => return ⟨true⟩
      | .error e => do
          dbSocketClose
          .fail e
    else .fail .db

def bbDbCommit (ctx : BbCtx) : BrainM (Except BbErr Unit × BbCtx) :=
  if ctx.txnConn then do
    let r ← (execStmt .commit 0).attempt
    dbSocketClose
    return (r.map fun _ => (), ⟨false⟩)
  else return (.error .db, ctx)

def bbDbRollback (ctx : BbCtx) : BrainM BbCtx :=
  if ctx.txnConn then do
    let _ ← dbSocketExec .rollback 0
    dbSocketClose
    return ⟨false⟩
  else return ctx

end Corestack.Brain
