import Corestack.Core.Htttp
import Corestack.Client.Message
import Corestack.Brain.Store

/-!
# The wire mapping of requests and responses (`libballotclient/codec.c`)

A message carries its operation as the method, the election in the path and
everything else as `key=value` lines in the body.
-/

namespace Corestack.Client

open Lib Corestack.Core Db Brain

/-! ## Names -/

def opNames : List (BclOp × Bytes) :=
  [(.join, bytes "JOIN"), (.cast, bytes "CAST"), (.update, bytes "UPDATE"),
    (.results, bytes "RESULTS"), (.check, bytes "CHECK"), (.create, bytes "CREATE"),
    (.opening, bytes "OPEN"), (.closing, bytes "CLOSE"), (.publish, bytes "PUBLISH"),
    (.adminResults, bytes "ADMIN_RESULTS"), (.adminCheck, bytes "ADMIN_CHECK"),
    (.adminNextId, bytes "ADMIN_NEXT_ID")]

def methodFromOp (op : BclOp) : Option Bytes := (opNames.find? fun e => e.1 = op).map (·.2)

def opFromMethod (m : Bytes) : Option BclOp := (opNames.find? fun e => e.2 = m).map (·.1)

/-- `RESULT_NAMES`. There is no name for `BB_ERR_RETRY`. -/
def resultNames : List (Option BbErr × Bytes) :=
  [(none, bytes "BB_OK"),
    (some .configTitle, bytes "BB_ERR_CONFIG_TITLE"),
    (some .configOptions, bytes "BB_ERR_CONFIG_OPTIONS"),
    (some .configTime, bytes "BB_ERR_CONFIG_TIME"),
    (some .configIdTaken, bytes "BB_ERR_CONFIG_ID_TAKEN"),
    (some .illegalTransition, bytes "BB_ERR_ILLEGAL_TRANSITION"),
    (some .notOpen, bytes "BB_ERR_NOT_OPEN"),
    (some .closed, bytes "BB_ERR_CLOSED"),
    (some .notPublished, bytes "BB_ERR_NOT_PUBLISHED"),
    (some .notEligible, bytes "BB_ERR_NOT_ELIGIBLE"),
    (some .certInvalid, bytes "BB_ERR_CERT_INVALID"),
    (some .certExpired, bytes "BB_ERR_CERT_EXPIRED"),
    (some .badOption, bytes "BB_ERR_BAD_OPTION"),
    (some .replay, bytes "BB_ERR_REPLAY"),
    (some .decrypt, bytes "BB_ERR_DECRYPT"),
    (some .notFound, bytes "BB_ERR_NOT_FOUND"),
    (some .notJoined, bytes "BB_ERR_NOT_JOINED"),
    (some .db, bytes "BB_ERR_DB"),
    (some .notImplemented, bytes "BB_ERR_NOT_IMPLEMENTED")]

def nameFromResult (r : Option BbErr) : Option Bytes :=
  (resultNames.find? fun e => e.1 = r).map (·.2)

def resultFromName (s : Bytes) : Option (Option BbErr) :=
  (resultNames.find? fun e => e.2 = s).map (·.1)

def stateFromName (s : Bytes) : Option BbState :=
  [BbState.draft, .opened, .closed, .published].find? fun st => bbStateStr st = s

/-! ## Hex -/

def hexNibble (c : UInt8) : Option UInt8 :=
  if 48 ≤ c && c ≤ 57 then some (c - 48)
  else if 97 ≤ c && c ≤ 102 then some (c - 97 + 10)
  else if 65 ≤ c && c ≤ 70 then some (c - 65 + 10)
  else none

/-- The loop of `hex_decode` from byte `i` on. What is decoded before a bad
digit stays in the array. -/
def hexLoop {n : Nat} : Nat → Bytes → (Fin n → UInt8) → (Fin n → UInt8) × Option Nat
  | i, hi :: lo :: hex, out =>
    match hexNibble hi, hexNibble lo with
    | some h, some l =>
      hexLoop (i + 1) hex fun j => if (j : Nat) = i then h * 16 + l else out j
    | _, _ => (out, none)
  | i, _, out => (out, some i)

def hexDecode {n : Nat} (hex : Bytes) (out : Fin n → UInt8) : (Fin n → UInt8) × Option Nat :=
  if hex.length % 2 ≠ 0 ∨ n < hex.length / 2 then (out, none) else hexLoop 0 hex out

/-! ## The body -/

def codecBodyMax : Nat := 8192

/-- `body_append`: formatted text behind the body so far. It has to fit and
must not bring line breaks of its own. -/
def bodyAppend (body text : Bytes) : Option Bytes :=
  if codecBodyMax - body.length ≤ text.length then none
  else if cr ∈ text ∨ lf ∈ text.dropLast then none
  else some (body ++ text)

/-- One line of `body_for_each`: what stands before and behind its first
equals sign, cut to the buffers. -/
def lineKv (line : Bytes) : Option (Bytes × Bytes) :=
  let line := if line.getLast? = some cr then line.dropLast else line
  let key := line.takeWhile (· ≠ 61)
  match line.drop key.length with
  | [] => none
  | _ :: val => if key = [] then none else some ((CStr.copy 64 key).val, (CStr.copy 320 val).val)

/-- The pairs `body_for_each` hands out. -/
def bodyKvs (body : Bytes) : List (Bytes × Bytes) := (split lf body).filterMap lineKv

/-! ## Requests -/

/-- `path_election_id`: `sscanf(path, "/election/%15[^/]", out)`. -/
def pathElectionId (path : Bytes) : Option Id :=
  if (bytes "/election/").isPrefixOf path then
    let id := (path.drop (bytes "/election/").length).takeWhile (· ≠ 47)
    if id = [] then none else some (CStr.copy _ id)
  else none

def addOption (cfg : BbConfig) (v : Bytes) : BbConfig :=
  if h : cfg.options.length < bbMaxOptions then
    { cfg with options := cfg.options ++ [CStr.copy _ v],
               options_le := by rw [List.length_append]; exact h }
  else cfg

def addEligible (cfg : BbConfig) (v : Bytes) : BbConfig :=
  if h : cfg.eligible.length < bbMaxVoters then
    { cfg with eligible := cfg.eligible ++ [CStr.copy _ v],
               eligible_le := by rw [List.length_append]; exact h }
  else cfg

def createKv (req : BclRequest) (kv : Bytes × Bytes) : BclRequest :=
  let (k, v) := kv
  if k = bytes "election_id" then { req with electionId := CStr.copy _ v }
  else if k = bytes "title" then { req with config := { req.config with title := CStr.copy _ v } }
  else if k = bytes "open_time" then
    { req with config := { req.config with openTime := CStr.copy _ v } }
  else if k = bytes "close_time" then
    { req with config := { req.config with closeTime := CStr.copy _ v } }
  else if k = bytes "option" then { req with config := addOption req.config v }
  else if k = bytes "eligible" then { req with config := addEligible req.config v }
  else req

/-- The ballot and `got_payload`. -/
def ballotKv (c : BbBallot × Bool) (kv : Bytes × Bytes) : BbBallot × Bool :=
  let (ballot, gotPayload) := c
  let (k, v) := kv
  if k = bytes "nonce" then ({ ballot with nonce := CStr.copy _ v }, gotPayload)
  else if k = bytes "payload" then
    match hexDecode v ballot.payload with
    | (payload, some n) => ({ ballot with payload, payloadLen := n }, true)
    | (payload, none) => ({ ballot with payload }, gotPayload)
  else (ballot, gotPayload)

def hashKv (hash : Hash) (kv : Bytes × Bytes) : Hash :=
  if kv.1 = bytes "hash" then CStr.copy _ kv.2 else hash

/-- The ballot in a body. There has to be a payload. -/
def readBallot (body : Bytes) (ballot : BbBallot) : Option BbBallot :=
  match (bodyKvs body).foldl ballotKv (ballot, false) with
  | (ballot, true) => some ballot
  | (_, false) => none

/-- The hash in a body. It must not be empty. -/
def readHash (body : Bytes) : Option Hash :=
  let hash := (bodyKvs body).foldl hashKv default
  if hash.val = [] then none else some hash

def bclDecodeRequest (http : HtttpRequest) : Option BclRequest := do
  let op ← opFromMethod http.method.val
  let cert : CertName := match htttpHeaderGet http.headers (bytes "Cert-Name") with
    | some value => CStr.copy _ value.val
    | none => default
  let req : BclRequest := { BclRequest.of op with certName := cert }
  match op with
  | .create => some ((bodyKvs http.body).foldl createKv req)
  | .adminNextId => some req
  | .opening | .closing | .publish | .join | .results | .adminResults =>
    let id ← pathElectionId http.path.val
    return { req with electionId := id }
  | .cast | .update =>
    let id ← pathElectionId http.path.val
    let ballot ← readBallot http.body { req.ballot with certName := cert }
    return { req with electionId := id, ballot }
  | .check | .adminCheck =>
    let id ← pathElectionId http.path.val
    let hash ← readHash http.body
    return { req with electionId := id, hash }

def field (key : String) (val : Bytes) : Bytes := bytes key ++ bytes "=" ++ val ++ [lf]

/-- The path of a request. The election comes last or before a word that is
never looked at. -/
def requestPath (req : BclRequest) : Bytes :=
  match req.op with
  | .create => bytes "/election"
  | .opening | .closing | .publish | .join | .results | .adminResults =>
    bytes "/election/" ++ req.electionId.val
  | .cast | .update => bytes "/election/" ++ req.electionId.val ++ bytes "/ballot"
  | .check | .adminCheck => bytes "/election/" ++ req.electionId.val ++ bytes "/check"
  | .adminNextId => bytes "/election/next-id"

/-- The payload of a ballot, up to its length. -/
def payloadBytes (b : BbBallot) : Bytes := (List.ofFn b.payload).take b.payloadLen

/-- The texts of the body, in the order they are appended. A payload longer
than its array is refused by `hex_encode`. -/
def requestPieces (req : BclRequest) : Option (List Bytes) :=
  match req.op with
  | .create => some
      ((if req.electionId.val ≠ [] then [field "election_id" req.electionId.val] else []) ++
        [field "title" req.config.title.val, field "open_time" req.config.openTime.val,
          field "close_time" req.config.closeTime.val] ++
        req.config.options.map (fun o => field "option" o.val) ++
        req.config.eligible.map fun e => field "eligible" e.val)
  | .cast | .update =>
    if bbCiphertextMax < req.ballot.payloadLen then none
    else some [field "nonce" req.ballot.nonce.val,
      field "payload" (hexEncode (payloadBytes req.ballot))]
  | .check | .adminCheck => some [field "hash" req.hash.val]
  | .opening | .closing | .publish | .join | .results | .adminResults | .adminNextId => some []

/-- The header that carries the name on the certificate, if there is one. -/
def requestHeaders (cert : CertName) : Option (List HtttpHeader) :=
  if cert.val = [] then some []
  else (htttpHeaderSet [] (bytes "Cert-Name") cert.val).toOption

/-- The bytes of the request, if they fit into `cap`. -/
def bclEncodeRequest (req : BclRequest) (cap : Nat) : Option Bytes := do
  let method ← methodFromOp req.op
  let pieces ← requestPieces req
  let body ← pieces.foldlM bodyAppend []
  let headers ← requestHeaders req.certName
  if h : headers.length ≤ htttpMaxHeaders then
    (htttpSerializeRequest
      ⟨CStr.copy _ method, CStr.copy _ (requestPath req), headers, body, h⟩ cap).toOption
  else none

/-! ## Responses -/

def bclHttpStatus : Option BbErr → Nat
  | none => 200
  | some .configTitle | some .configOptions | some .configTime | some .badOption
  | some .decrypt => 400
  | some .notEligible | some .certInvalid | some .certExpired => 403
  | some .notFound => 404
  | some .illegalTransition | some .notOpen | some .closed | some .notPublished
  | some .replay | some .notJoined | some .configIdTaken => 409
  | some .db | some .notImplemented | some .retry => 500

/-- The indices in use of an array with a count. -/
def inUse (count : Nat) : List (Fin bbMaxOptions) :=
  (List.finRange bbMaxOptions).takeWhile fun i => (i : Nat) < count

/-- The tally line, entry by entry. -/
def tallyPieces (tally : Fin bbMaxOptions → Nat) (count : Nat) : List Bytes :=
  bytes "tally=" ::
    (inUse count).map (fun i => (if i = 0 then [] else bytes ",") ++ fmtInt (tally i))
    ++ [[lf]]

def rowText (h : BbBallotHash) : Bytes :=
  h.hash.val ++ bytes "," ++ fmtInt h.optionIndex ++ bytes "," ++ fmtInt h.version ++ bytes ","
    ++ fmtInt h.superseded

def boolInt (b : Bool) : Int := if b then 1 else 0

/-- The texts behind the status line, in the order they are appended. -/
def responsePieces (op : BclOp) (resp : BclResponse) : List Bytes :=
  match op with
  | .create | .adminNextId =>
    if resp.election.id.val ≠ [] then [field "election_id" resp.election.id.val] else []
  | .opening | .closing | .publish => []
  | .join =>
    if resp.election.id.val ≠ [] then
      [field "election_id" resp.election.id.val, field "title" resp.election.title.val,
        field "state" (bbStateStr resp.election.state),
        field "open_time" resp.election.openTime.val,
        field "close_time" resp.election.closeTime.val,
        field "has_prior_ballot" (fmtInt (boolInt resp.hasPriorBallot)),
        field "prior_ballot_version" (fmtInt resp.priorBallotVersion)] ++
      (inUse resp.election.optionCount).map fun i =>
        field "option" (resp.election.options i).val
    else []
  | .cast | .update =>
    if resp.receipt.hash.val ≠ [] then
      [field "hash" resp.receipt.hash.val, field "issued_at" resp.receipt.issuedAt.val]
    else []
  | .results | .adminResults =>
    [field "election_id" resp.election.id.val, field "title" resp.election.title.val,
      field "tally_count" (fmtInt resp.optionCount)] ++
    (if 0 < resp.optionCount then
      tallyPieces resp.tally resp.optionCount ++
        (inUse resp.optionCount).map fun i => field "result_option" (resp.options i).val
    else []) ++
    [field "hash_count" (fmtInt resp.hashes.length)] ++
    resp.hashes.map fun h => field "row" (rowText h)
  | .check | .adminCheck =>
    field "found" (fmtInt (boolInt resp.found)) ::
      if resp.found then
        [field "found_option" (fmtInt resp.foundOption),
          field "found_option_name" resp.foundOptionName.val]
      else []

def responseBody (op : BclOp) (resp : BclResponse) : Option Bytes := do
  let sname ← nameFromResult resp.status
  (field "status" sname :: responsePieces op resp).foldlM bodyAppend []

/-- The bytes of the response, if they fit into `cap`. -/
def bclEncodeResponse (now : Tm) (op : BclOp) (resp : BclResponse) (cap : Nat) :
    Option Bytes := do
  let body ← responseBody op resp
  match htttpSerializeResponse now ⟨bclHttpStatus resp.status, [], body, Nat.zero_le _⟩ cap with
  | .ok out => return out
  | .error _ => none

/-- `bcl_response_t` as the decoder fills it: numbers are whatever arrived. -/
structure BclDecoded where
  status : Option BbErr
  election : BbElection
  hasPriorBallot : Int
  priorBallotVersion : Int
  receipt : BbReceipt
  tally : Fin bbMaxOptions → Int
  optionCount : Int
  options : Fin bbMaxOptions → OptionName
  hashes : Fin bbMaxVoters → BbBallotHash
  hashCount : Int
  found : Int
  foundOption : Int
  foundOptionName : OptionName

instance : Inhabited BclDecoded :=
  ⟨⟨none, default, 0, 0, default, fun _ => 0, 0, fun _ => default, fun _ => default, 0, 0, 0,
    default⟩⟩

/-- `resp_ctx_t`. -/
structure RespCtx where
  resp : BclDecoded
  rowI : Nat
  resultOptI : Nat
  statusValid : Bool

instance : Inhabited RespCtx := ⟨⟨default, 0, 0, false⟩⟩

/-- The loop that reads the tally line. -/
def readCsv (tally : Fin bbMaxOptions → Int) (v : Bytes) : Fin bbMaxOptions → Int :=
  let entries := if v = [] then [] else split 44 v
  -- the loop stops at the end of the text, also behind a last comma
  let entries := if entries.getLast? = some [] then entries.dropLast else entries
  fun i => match entries[i]? with
    | some e => atoi e
    | none => tally i

/-- A number as `sscanf` reads it with `%d`: blanks, a sign, digits. -/
def scanInt (s : Bytes) : Option (Int × Bytes) :=
  let (v, rest) := strtol s
  if rest = s then none else some (toInt32 v, rest)

def scanRow (v : Bytes) : Option BbBallotHash := do
  let hash := (v.takeWhile (· ≠ 44)).take 64
  if hash = [] then none
  else
    match v.drop hash.length with
    | 44 :: s => do
        let (opt, s) ← scanInt s
        match s with
        | 44 :: s => do
            let (ver, s) ← scanInt s
            match s with
            | 44 :: s => do
                let (sup, _) ← scanInt s
                return ⟨CStr.copy _ hash, opt, ver, sup⟩
            | _ => none
        | _ => none
    | _ => none

def responseKv (c : RespCtx) (kv : Bytes × Bytes) : RespCtx :=
  let (k, v) := kv
  let r := c.resp
  if k = bytes "status" then
    match resultFromName v with
    | some st => { c with resp := { r with status := st }, statusValid := true }
    | none => c
  else if k = bytes "election_id" then
    { c with resp := { r with election := { r.election with id := CStr.copy _ v } } }
  else if k = bytes "title" then
    { c with resp := { r with election := { r.election with title := CStr.copy _ v } } }
  else if k = bytes "state" then
    match stateFromName v with
    | some st => { c with resp := { r with election := { r.election with state := st } } }
    | none => c
  else if k = bytes "open_time" then
    { c with resp := { r with election := { r.election with openTime := CStr.copy _ v } } }
  else if k = bytes "close_time" then
    { c with resp := { r with election := { r.election with closeTime := CStr.copy _ v } } }
  else if k = bytes "has_prior_ballot" then
    { c with resp := { r with hasPriorBallot := atoi v } }
  else if k = bytes "prior_ballot_version" then
    { c with resp := { r with priorBallotVersion := atoi v } }
  else if k = bytes "option" then
    if r.election.optionCount < bbMaxOptions then
      { c with resp := { r with election := { r.election with
          options := fun i =>
            if (i : Nat) = r.election.optionCount then CStr.copy _ v else r.election.options i,
          optionCount := r.election.optionCount + 1 } } }
    else c
  else if k = bytes "hash" then
    { c with resp := { r with receipt := { r.receipt with hash := CStr.copy _ v } } }
  else if k = bytes "issued_at" then
    { c with resp := { r with receipt := { r.receipt with issuedAt := CStr.copy _ v } } }
  else if k = bytes "tally_count" then { c with resp := { r with optionCount := atoi v } }
  else if k = bytes "result_option" then
    if c.resultOptI < bbMaxOptions then
      { c with resp := { r with options := fun i =>
                 if (i : Nat) = c.resultOptI then CStr.copy _ v else r.options i },
               resultOptI := c.resultOptI + 1 }
    else c
  else if k = bytes "tally" then { c with resp := { r with tally := readCsv r.tally v } }
  else if k = bytes "hash_count" then { c with resp := { r with hashCount := atoi v } }
  else if k = bytes "row" then
    if c.rowI < bbMaxVoters then
      match scanRow v with
      | some h =>
        { c with resp := { r with hashes := fun i => if (i : Nat) = c.rowI then h else r.hashes i },
                 rowI := c.rowI + 1 }
      | none => c
    else c
  else if k = bytes "found" then { c with resp := { r with found := atoi v } }
  else if k = bytes "found_option" then { c with resp := { r with foundOption := atoi v } }
  else if k = bytes "found_option_name" then
    { c with resp := { r with foundOptionName := CStr.copy _ v } }
  else c

theorem responseKv_resultOption_eq (c : RespCtx) (v : Bytes) :
    responseKv c (bytes "result_option", v) =
      if c.resultOptI < bbMaxOptions then
        { c with
          resp := { c.resp with options := fun i =>
            if (i : Nat) = c.resultOptI then CStr.copy _ v else c.resp.options i }
          resultOptI := c.resultOptI + 1 }
      else c := rfl

theorem responseKv_row_eq (c : RespCtx) (v : Bytes) :
    responseKv c (bytes "row", v) =
      if c.rowI < bbMaxVoters then
        match scanRow v with
        | some h =>
          { c with
            resp := { c.resp with hashes := fun i =>
              if (i : Nat) = c.rowI then h else c.resp.hashes i }
            rowI := c.rowI + 1 }
        | none => c
      else c := rfl

/-- The counts are corrected to what arrived. -/
def bclDecodeResponse (http : HtttpResponse) : Option BclDecoded :=
  let c := (bodyKvs http.body).foldl responseKv default
  let r := c.resp
  let r :=
    if r.hashCount < 0 ∨ (c.rowI : Int) < r.hashCount then { r with hashCount := c.rowI } else r
  let r := if r.optionCount < 0 ∨ (bbMaxOptions : Int) < r.optionCount then
    { r with optionCount := c.resultOptI } else r
  if c.statusValid then some r else none

end Corestack.Client
