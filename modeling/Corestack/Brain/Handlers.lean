import Corestack.Brain.Seam

/-!
# The handlers of libballotbrain

`handlers.c` with what it calls: the crypto seam (`crypto.c`), the
lifecycle (`lifecycle.c`), config validation (`config.c`) and id
allocation (`ballotbrain.c`).
-/

namespace Corestack.Brain

open Lib Db

/-! ## The crypto seam (`crypto.c`) -/

def hexDigit (n : UInt32) : UInt8 :=
  if n < 10 then 48 + n.toUInt8 else 87 + n.toUInt8

/-- The digits of `hash_from_seed` from a generator state on. -/
def hashDigits (state : UInt32) : Nat → Bytes
  | 0 => []
  | k + 1 =>
    let state := state * 1103515245 + 12345
    hexDigit ((state >>> 16) &&& 15) :: hashDigits state k

def hashFromSeed (seed : UInt32) : Bytes :=
  hashDigits (seed * 2654435761 + 1) (bbHashLen - 1)

def fold (s : Bytes) : UInt32 := s.foldl (fun h c => h * 33 + c.toUInt32) 5381

/-- The hash on the receipt of a ballot. -/
def receiptHash (nonce : Nonce) (version : Int) : Hash :=
  CStr.copy _ (hashFromSeed (fold nonce.val ^^^ UInt32.ofInt version * 2246822519))

/-- The receipt of a ballot. The time is a constant for now. -/
def receiptOf (b : BbBallot) (version : Int) : BbReceipt :=
  ⟨receiptHash b.nonce version, CStr.copy _ (bytes "1970-01-01T00:00:00Z")⟩

def bbVerifyCert (cert : CertName) : BrainM BbCertStatus :=
  if cert.val = [] then return .invalid
  else do
    bbLog (bytes "[cert] verify '" ++ cert.val ++ bytes "' (placeholder -> VALID)")
    return .valid

def BbBallot.option (b : BbBallot) : Int :=
  if b.payloadLen > 0 then ((b.payload 0).toNat : Int) else 0

def bbDecryptBallot (b : BbBallot) : BrainM Int := do
  bbLog (bytes "[crypto] decrypt ballot (placeholder, nonce=" ++ b.nonce.val ++ bytes ")")
  return b.option

def bbIssueReceipt (b : BbBallot) (version : Int) : BrainM BbReceipt := do
  let receipt := receiptOf b version
  bbLog (bytes "[crypto] issue receipt v" ++ fmtInt version ++ bytes " -> " ++ receipt.hash.val
    ++ bytes " (placeholder)")
  return receipt

/-! ## Lifecycle and configuration -/

/-- The legal chain DRAFT, OPEN, CLOSED, PUBLISHED. -/
def bbIsLegalTransition : BbState → BbState → Bool
  | .draft, dst => dst = .opened
  | .opened, dst => dst = .closed
  | .closed, dst => dst = .published
  | .published, _ => false

def strGt : Bytes → Bytes → Bool
  | [], _ => false
  | _ :: _, [] => true
  | a :: s, b :: t => if a = b then strGt s t else b < a

def bbValidateConfig (cfg : BbConfig) : Except BbErr Unit :=
  if cfg.title.val = [] then .error .configTitle
  else if cfg.options.length < 2 then .error .configOptions
  else if ¬ strGt cfg.closeTime.val cfg.openTime.val then .error .configTime
  else .ok ()

def bbTransitionState (ctx : BbCtx) (eid : Id) (dst : BbState) : BrainM Unit := do
  let res ← dbExec ctx (.getElection eid)
  if ¬ res.found then .fail .notFound
  else if ¬ bbIsLegalTransition res.election.state dst then do
    bbLog (bytes "[lifecycle] reject " ++ bbStateStr res.election.state ++ bytes " -> "
      ++ bbStateStr dst ++ bytes " on '" ++ eid.val ++ bytes "'")
    .fail .illegalTransition
  else do
    let _ ← dbExec ctx (.updateState eid dst)
    return ()

/-! ## Id allocation (`ballotbrain.c`) -/

/-- The next number after the reply to `select max(seq)`: 100 unless the
reply holds a number that is not negative. -/
def nextSeq (body : Bytes) : Int :=
  match dbRowCount body with
  | none | some 0 => 100
  | some _ =>
    match dbRowFields body 0 with
    | some (f :: _) =>
      let (v, rest) := strtol (CStr.copy 24 f).val
      if rest = [] ∧ 0 ≤ v then toInt32 (toInt32 v + 1) else 100
    | _ => 100

/-- `bb_alloc_id` never fails: without an answer the id is E-100. -/
def bbAllocId : BrainM Id := do
  if ← dbSocketOpen then
    let (st, body) ← dbSocketExec .selectMaxSeq 4096
    dbSocketClose
    return CStr.copy _ (bytes "E-" ++ fmtInt (if st = .ok then nextSeq body else 100))
  else return CStr.copy _ (bytes "E-" ++ fmtInt 100)

/-! ## Handlers -/

def loadElection (ctx : BbCtx) (eid : Id) : BrainM BbElection := do
  let res ← dbExec ctx (.getElection eid)
  if res.found then return res.election else .fail .notFound

/-- The id of a new election: the desired one if it is free, or a fresh one
if none (the empty string) is given. -/
def chooseId (ctx : BbCtx) (desired : Id) : BrainM Id :=
  if desired.val ≠ [] then do
    match ← (loadElection ctx desired).attempt with
    | .ok _ => do
        bbLog (bytes "[create] rejected: id '" ++ desired.val ++ bytes "' already exists")
        .fail .configIdTaken
    | .error e => if e = .notFound then return desired else .fail e
  else bbAllocId

def bbCreateElection (ctx : BbCtx) (cfg : BbConfig) (desired : Id) : BrainM Id :=
  match bbValidateConfig cfg with
  | .error e => do
      bbLog (bytes "[create] rejected config (err=" ++ fmtInt e.code ++ bytes ")")
      .fail e
  | .ok () => do
      let id ← chooseId ctx desired
      let _ ← dbExec ctx (.insertElection id cfg)
      return id

def bbCheckEligibility (e : BbElection) (cert : CertName) : Bool :=
  e.eligible.any fun name => name.val = cert.val

/-- The refusal both handlers log: the name presented, then the list. -/
def logNotEligible (tag : Bytes) (eid : Id) (cert : CertName) (e : BbElection) : BrainM Unit := do
  bbLog (tag ++ bytes " '" ++ eid.val ++ bytes "': cert [" ++ cert.val ++ bytes "] not on the "
    ++ fmtInt e.eligible.length ++ bytes "-entry eligible list")
  logList 0 e.eligible
where
  logList : Nat → List CertName → BrainM Unit
    | _, [] => return ()
    | i, name :: names => do
        bbLog (tag ++ bytes "   eligible[" ++ fmtInt i ++ bytes "] = [" ++ name.val ++ bytes "]")
        logList (i + 1) names

/-- The election, and how the lookup of the voter's ballot ended: with its
version if there is one. The election is handed out before the lookup. -/
def bbJoin (ctx : BbCtx) (eid : Id) (cert : CertName) :
    BrainM (BbElection × Except BbErr (Option Int)) := do
  let election ← loadElection ctx eid
  match ← bbVerifyCert cert with
  | .invalid => .fail .certInvalid
  | .expired => .fail .certExpired
  | .notEligible => .fail .notEligible
  | .valid =>
    if ¬ bbCheckEligibility election cert then do
      logNotEligible (bytes "[join]") eid cert election
      .fail .notEligible
    else if election.state ≠ .opened then do
      bbLog (bytes "[join] '" ++ eid.val ++ bytes "' is " ++ bbStateStr election.state
        ++ bytes ", not OPEN")
      .fail .notOpen
    else do
      let prior ← (dbExec ctx (.getPriorBallot eid cert)).attempt
      return (election, prior.map fun res => if res.found then some res.row.version else none)

/-- What `record_ballot_locked` checks before it turns to the ballots. -/
def recordGate (ctx : BbCtx) (eid : Id) (b : BbBallot) : BrainM Int := do
  let election ← loadElection ctx eid
  if election.state = .closed ∨ election.state = .published then .fail .closed
  else if election.state ≠ .opened then .fail .notOpen
  else if ¬ bbCheckEligibility election b.certName then do
    logNotEligible (bytes "[cast]") eid b.certName election
    .fail .notEligible
  else do
    let option ← bbDecryptBallot b
    if option < 0 ∨ (election.optionCount : Int) ≤ option then .fail .badOption
    else return option

/-- What `record_ballot_locked` reads before it issues a receipt: the option
and the voter's prior ballot. -/
def recordChecks (ctx : BbCtx) (eid : Id) (b : BbBallot) : BrainM (Int × BbDbResult) := do
  let option ← recordGate ctx eid b
  let seen ← dbExec ctx (.nonceSeen eid b.nonce)
  if seen.found then .fail .replay
  else do
    let prior ← dbExec ctx (.getPriorBallot eid b.certName)
    return (option, prior)

/-- The version a ballot gets after what was found before. -/
def nextVersion (prior : BbDbResult) : Int :=
  if prior.found then toInt32 (prior.row.version + 1) else 1

/-- Supersede the prior version, so only the latest ballot is counted. -/
def supersedePrior (ctx : BbCtx) (eid : Id) (prior : BbDbResult) : BrainM Unit :=
  if prior.found then do
    let _ ← dbExec ctx (.markSuperseded eid prior.row.hash)
    return ()
  else return ()

/-- What `record_ballot_locked` does from the receipt on. -/
def recordWrites (ctx : BbCtx) (eid : Id) (b : BbBallot) (option : Int) (prior : BbDbResult) :
    BrainM BbReceipt := do
  let version := nextVersion prior
  let receipt ← bbIssueReceipt b version
  let _ ← dbExec ctx (.appendBallot eid ⟨receipt.hash, option, version, 0⟩)
  supersedePrior ctx eid prior
  let _ ← dbExec ctx (.setOwner eid b.certName receipt.hash version)
  let _ ← dbExec ctx (.nonceMark eid b.nonce)
  return receipt

/-- `record_ballot_locked`, as far as its result goes. -/
def recordBallotLocked (ctx : BbCtx) (eid : Id) (b : BbBallot) : BrainM BbReceipt := do
  let (option, prior) ← recordChecks ctx eid b
  recordWrites ctx eid b option prior

/-- `record_ballot_locked` with its out-parameter. The receipt is in it from
the moment it is issued, whether or not the ballot is then recorded. -/
def recordBallotLockedOut (ctx : BbCtx) (eid : Id) (b : BbBallot) (out : BbReceipt) :
    BrainM (Except BbErr BbReceipt × BbReceipt) := do
  match ← (recordChecks ctx eid b).attempt with
  | .error e => return (.error e, out)
  | .ok (option, prior) => do
      let r ← (recordWrites ctx eid b option prior).attempt
      return (r, receiptOf b (nextVersion prior))

def bbTxnAttempts : Nat := 3

/-- The attempts of `bb_record_ballot`, with the result of the one before
and what stands in the out-parameter. -/
def recordAttempts (ctx : BbCtx) (eid : Id) (b : BbBallot) :
    Nat → BbErr → BbReceipt → BrainM (Except BbErr BbReceipt × BbReceipt × BbCtx)
  | 0, r, out => return (.error r, out, ctx)
  | n + 1, _, out => do
      match ← (bbDbBegin ctx).attempt with
      | .error e => return (.error e, out, ctx)
      | .ok ctx' => do
          let (r, out) ← recordBallotLockedOut ctx' eid b out
          match r with
          | .error e => do
              let ctx ← bbDbRollback ctx'
              if e = .retry then recordAttempts ctx eid b n e out
              else return (.error e, out, ctx)
          | .ok receipt => do
              let (r, ctx) ← bbDbCommit ctx'
              match r with
              | .error e =>
                if e = .retry then recordAttempts ctx eid b n e out
                else return (.error e, out, ctx)
              | .ok () => return (.ok receipt, out, ctx)

/-- The result, the out-parameter and the context afterwards. -/
def bbRecordBallot (ctx : BbCtx) (eid : Id) (b : BbBallot) (out : BbReceipt) :
    BrainM (Except BbErr BbReceipt × BbReceipt × BbCtx) :=
  recordAttempts ctx eid b bbTxnAttempts .db out

def bbPublishResults (ctx : BbCtx) (eid : Id) : BrainM Unit :=
  bbTransitionState ctx eid .published

def fetchResults (ctx : BbCtx) (eid : Id) (e : BbElection) : BrainM BbResults := do
  let tallyRes ← dbExec ctx (.getTally eid)
  let hashRes ← dbExec ctx (.getHashes eid)
  return { title := e.title, optionCount := e.optionCount,
           tally := fun i => if i < e.optionCount then tallyRes.tally i else 0,
           options := fun i => if i < e.optionCount then e.options i else default,
           hashes := hashRes.hashes.take bbMaxVoters }

def bbGetResults (ctx : BbCtx) (eid : Id) (cert : CertName) : BrainM BbResults := do
  let election ← loadElection ctx eid
  if election.state ≠ .published then .fail .notPublished
  else if ¬ bbCheckEligibility election cert then .fail .notEligible
  else fetchResults ctx eid election

def bbGetResultsAdmin (ctx : BbCtx) (eid : Id) : BrainM BbResults := do
  let election ← loadElection ctx eid
  if election.state ≠ .published then .fail .notPublished
  else fetchResults ctx eid election

/-- The live row with a hash, and the name of the option it chose. -/
def bbLookupHash (ctx : BbCtx) (eid : Id) (hash : Hash) :
    BrainM (BbBallotHash × OptionName) := do
  let election ← loadElection ctx eid
  let res ← dbExec ctx (.findHash eid hash)
  if ¬ res.found then .fail .notFound
  else
    let idx := res.row.optionIndex
    return (res.row,
      if h : 0 ≤ idx ∧ idx < election.optionCount ∧ idx < bbMaxOptions then
        election.options ⟨idx.toNat, by omega⟩
      else default)

end Corestack.Brain
