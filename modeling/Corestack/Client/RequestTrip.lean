import Corestack.Client.Answer
import Corestack.Lib.Slots

/-!
# Requests that come back

A request is encoded, sent as an HTTTP message, parsed and decoded. The
encoder puts the election into the path as it is, where the decoder stops at
a slash; it writes the payload as one line of up to 512 digits, of which the
decoder keeps 319; and the decoder takes neither an empty hash nor, for
`ADMIN_NEXT_ID`, an election. In every other respect the two agree.
-/

namespace Corestack.Client

open List Option Lib Corestack.Core Db Brain

/-! ## Hex -/

structure HexPair (c : UInt8) : Prop where
  high : hexNibble (hexChar (c >>> 4)) = some (c >>> 4)
  low : hexNibble (hexChar (c &&& 15)) = some (c &&& 15)
  value : (c >>> 4) * 16 + (c &&& 15) = c
  highNe : hexChar (c >>> 4) ≠ 0
  lowNe : hexChar (c &&& 15) ≠ 0

theorem hexPair (c : UInt8) : HexPair c := by
  have hall : ∀ n : Fin 256,
      let c := UInt8.ofNat n
      hexNibble (hexChar (c >>> 4)) = some (c >>> 4) ∧
        hexNibble (hexChar (c &&& 15)) = some (c &&& 15) ∧
        (c >>> 4) * 16 + (c &&& 15) = c ∧ hexChar (c >>> 4) ≠ 0 ∧ hexChar (c &&& 15) ≠ 0 := by
    decide +kernel
  have hc : UInt8.ofNat c.toNat = c := UInt8.ofNat_toNat
  obtain ⟨h1, h2, h3, h4, h5⟩ := hall ⟨c.toNat, c.toNat_lt⟩
  rw [hc] at h1 h2 h3 h4 h5
  exact ⟨h1, h2, h3, h4, h5⟩

theorem hexEncode_noNul (s : Bytes) : 0 ∉ hexEncode s := by
  intro h
  obtain ⟨c, -, hc⟩ := mem_flatMap.mp h
  rcases mem_cons.mp hc with hc | hc
  · exact (hexPair c).highNe hc.symm
  · exact (hexPair c).lowNe (mem_singleton.mp hc).symm

theorem hexLoop_hexEncode {n : Nat} :
    ∀ (s : Bytes) (i : Nat) (out : Fin n → UInt8),
      hexLoop i (hexEncode s) out = (fill out i s, some (i + s.length))
  | [], i, out => by simp [hexEncode, hexLoop]
  | c :: s, i, out => by
    have hcons : hexEncode (c :: s) =
        hexChar (c >>> 4) :: hexChar (c &&& 15) :: hexEncode s := rfl
    rw [hcons, hexLoop, (hexPair c).high, (hexPair c).low]
    dsimp only
    rw [hexLoop_hexEncode s (i + 1), (hexPair c).value, fill_cons, length_cons]
    congr 2
    omega

theorem payloadBytes_fill {s : Bytes} (hs : s.length ≤ bbCiphertextMax) (b : BbBallot) :
    payloadBytes { b with payload := fill b.payload 0 s, payloadLen := s.length } = s := by
  refine ext_getElem ?_ fun j h₁ h₂ => ?_
  · simp only [payloadBytes, length_take, length_ofFn]
    omega
  · simp only [payloadBytes, List.getElem_take, List.getElem_ofFn]
    exact fill_zero _ h₂

theorem length_payloadBytes {b : BbBallot} (hb : b.payloadLen ≤ bbCiphertextMax) :
    (payloadBytes b).length = b.payloadLen := by
  simp only [payloadBytes, length_take, length_ofFn]
  omega

/-! ## The body -/

def requestKvs (req : BclRequest) : List (String × Bytes) :=
  match req.op with
  | .create =>
    (if req.electionId.val ≠ [] then [("election_id", req.electionId.val)] else []) ++
      [("title", req.config.title.val), ("open_time", req.config.openTime.val),
        ("close_time", req.config.closeTime.val)] ++
      req.config.options.map (fun o => ("option", o.val)) ++
      req.config.eligible.map fun e => ("eligible", e.val)
  | .cast | .update =>
    [("nonce", req.ballot.nonce.val), ("payload", hexEncode (payloadBytes req.ballot))]
  | .check | .adminCheck => [("hash", req.hash.val)]
  | .opening | .closing | .publish | .join | .results | .adminResults | .adminNextId => []

def arrivedKvs (req : BclRequest) : List (Bytes × Bytes) :=
  (requestKvs req).map fun kv => (bytes kv.1, (CStr.copy 320 kv.2).val)

def requestKeys : List String :=
  ["election_id", "title", "open_time", "close_time", "option", "eligible", "nonce", "payload",
    "hash"]

theorem requestKeys_plain :
    ∀ k ∈ requestKeys, PlainKey (bytes k) ∧ breaksLine (bytes k) = false := by
  decide

theorem requestKvs_keys (req : BclRequest) : ∀ kv ∈ requestKvs req, kv.1 ∈ requestKeys := by
  obtain ⟨op, cert, eid, ballot, hash, config⟩ := req
  cases op with
  | create =>
    simp only [requestKvs]
    split <;> simp [requestKeys, or_imp, forall_and]
  | _ => simp [requestKvs, requestKeys]

variable {req : BclRequest}

theorem requestPieces_some {pieces : List Bytes} (h : requestPieces req = some pieces) :
    pieces = (requestKvs req).map fun kv => field kv.1 kv.2 := by
  obtain ⟨op, cert, eid, ballot, hash, config⟩ := req
  cases op with
  | create =>
    cases h
    simp only [requestKvs]
    split <;> simp [Function.comp_def]
  | cast | update =>
    simp only [requestPieces] at h
    split at h
    · cases h
    · cases h
      rfl
  | _ =>
    cases h
    rfl

theorem foldlM_bodyAppend_inv :
    ∀ {ps : List Bytes} {body body' : Bytes}, ps.foldlM bodyAppend body = some body' →
      body' = body ++ ps.flatten
  | [], _, _, h => by
    cases h
    simp
  | p :: ps, body, body', h => by
    rw [foldlM_cons] at h
    obtain ⟨b, hb, hrest⟩ := bind_eq_some_iff.mp h
    have hfirst : b = body ++ p := by
      unfold bodyAppend at hb
      split at hb
      · cases hb
      · split at hb
        · cases hb
        · exact (Option.some.inj hb).symm
    rw [foldlM_bodyAppend_inv hrest, hfirst, flatten_cons, append_assoc]

/-! ## The message -/

variable {op : BclOp}

theorem methodFromOp_some {method : Bytes} (h : methodFromOp op = some method) :
    opFromMethod method = some op ∧ method.length < htttpMaxMethod ∧ 0 ∉ method := by
  cases op <;>
  · cases h
    decide +kernel

theorem requestPath_fits (req : BclRequest) :
    (CStr.copy htttpMaxPath (requestPath req)).val = requestPath req := by
  obtain ⟨op, cert, eid, ballot, hash, config⟩ := req
  have hlen : eid.val.length < 16 := eid.fits
  have h1 : (bytes "/election/").length = 10 ∧ 0 ∉ bytes "/election/" := by decide +kernel
  have h2 : (bytes "/ballot").length = 7 ∧ 0 ∉ bytes "/ballot" := by decide
  have h3 : (bytes "/check").length = 6 ∧ 0 ∉ bytes "/check" := by decide
  refine CStr.copy_val ?_ ?_
  · cases op with
    | create | adminNextId => simp only [requestPath]; decide
    | _ =>
      simp only [requestPath, length_append, h1.1, h2.1, h3.1, htttpMaxPath]
      omega
  · cases op with
    | create | adminNextId => simp only [requestPath]; decide
    | _ => simp [requestPath, h1.2, h2.2, h3.2, eid.noNul]

variable {cert : CertName} {headers : List HtttpHeader}

theorem requestHeaders_some (h : requestHeaders cert = some headers) :
    headers.length ≤ 1 ∧ ∀ x ∈ headers, x.key.val = bytes "Cert-Name" := by
  unfold requestHeaders at h
  split at h
  · cases h
    simp
  · have hset : htttpHeaderSet [] (bytes "Cert-Name") cert.val = .ok headers := by
      cases hset : htttpHeaderSet [] (bytes "Cert-Name") cert.val with
      | error e =>
        rw [hset] at h
        cases h
      | ok hs =>
        rw [hset] at h
        rw [Option.some.inj h]
    unfold htttpHeaderSet at hset
    rw [if_neg (by decide +kernel)] at hset
    split at hset
    · cases hset
    obtain ⟨key, hkey, hset⟩ := except_bind_ok.mp hset
    obtain ⟨value, -, hset⟩ := except_bind_ok.mp hset
    cases hset
    have hval : key.val = bytes "Cert-Name" := by
      cases hcopy : copyToken htttpMaxKey (bytes "Cert-Name") with
      | error e =>
        rw [hcopy] at hkey
        cases hkey
      | ok k =>
        rw [hcopy] at hkey
        cases hkey
        exact copyToken_ok.mp hcopy
    simp [hval]

theorem requestHeaders_readable (h : requestHeaders cert = some headers) (body : Bytes) :
    Readable false headers body := by
  obtain ⟨hcount, hkey⟩ := requestHeaders_some h
  refine ⟨fun x hx => ?_, ?_⟩
  · rw [hkey x (mem_of_mem_filter hx)]
    decide
  · have hle : (ownHeaders false headers).length ≤ headers.length := length_filter_le _ _
    have hmax : htttpMaxHeaders = 32 := rfl
    rw [if_neg Bool.false_ne_true]
    split <;> omega

variable {cap : Nat} {out : Bytes}

/-- What was encoded is parsed, and the decoder gets the operation, the path
and the lines of the body. -/
theorem bclEncodeRequest_parse (hcap : cap < 2 ^ 32) (henc : bclEncodeRequest req cap = some out) :
    ∃ http, htttpParseRequest out = .ok http ∧ opFromMethod http.method.val = some req.op ∧
      http.path.val = requestPath req ∧
      bodyKvs http.body = arrivedKvs req := by
  obtain ⟨method, hmethod, henc⟩ := bind_eq_some_iff.mp henc
  obtain ⟨pieces, hpieces, henc⟩ := bind_eq_some_iff.mp henc
  obtain ⟨body, hbody, henc⟩ := bind_eq_some_iff.mp henc
  obtain ⟨headers, hheaders, henc⟩ := bind_eq_some_iff.mp henc
  obtain ⟨hop, hlen, h0⟩ := methodFromOp_some hmethod
  have hkvs := requestPieces_some hpieces
  have htext : body = kvText (requestKvs req) := by
    rw [foldlM_bodyAppend_inv hbody, hkvs]
    rfl
  have hclean : ∀ kv ∈ requestKvs req, breaksLine kv.2 = false := by
    intro kv hkv
    have hkey := requestKeys_plain _ (requestKvs_keys req kv hkv)
    refine (pieceOk_field hkey.2 _).mp (pieceOk_of_foldlM hbody _ ?_)
    rw [hkvs]
    exact mem_map_of_mem hkv
  split at henc
  · rename_i hle
    have hser : htttpSerializeRequest
        ⟨CStr.copy _ method, CStr.copy _ (requestPath req), headers, body, hle⟩ cap = .ok out := by
      revert henc
      cases htttpSerializeRequest
        ⟨CStr.copy _ method, CStr.copy _ (requestPath req), headers, body, hle⟩ cap with
      | error e => exact fun h => by cases h
      | ok o => exact fun h => by rw [Option.some.inj h]
    obtain ⟨http, hparse, hback⟩ :=
      (request_back_iff hcap hser).mpr (requestHeaders_readable hheaders body)
    refine ⟨http, hparse, ?_, ?_, ?_⟩
    · rw [hback.method]
      rwa [CStr.copy_val hlen h0]
    · rw [hback.path]
      exact requestPath_fits req
    · rw [hback.body]
      rw [htext]
      exact bodyKvs_kvText
        (fun kv hkv => (requestKeys_plain _ (requestKvs_keys req kv hkv)).1) hclean
  · cases henc

/-! ## The election in the path -/

/-- The operations whose path names an election. -/
def namesElection : BclOp → Bool
  | .create | .adminNextId => false
  | _ => true

theorem pathElectionId_cut {id rest : Bytes} (hrest : rest = [] ∨ rest.head? = some 47) :
    pathElectionId (bytes "/election/" ++ (id ++ rest)) =
      let cut := id.takeWhile (· ≠ 47)
      if cut = [] then none else some (CStr.copy _ cut) := by
  have hnil : rest.takeWhile (· ≠ 47) = [] := by
    cases rest with
    | nil => rfl
    | cons c rest =>
      rcases hrest with h | h
      · cases h
      · rw [List.head?_cons, Option.some.injEq] at h
        simp [h]
  have htake : (id ++ rest).takeWhile (· ≠ 47) = id.takeWhile (· ≠ 47) := by
    rw [takeWhile_append, hnil, append_nil]
    split
    next hall => exact ((takeWhile_sublist _).eq_of_length hall).symm
    next => rfl
  have hpre : (bytes "/election/").isPrefixOf (bytes "/election/" ++ (id ++ rest)) = true := by
    exact isPrefixOf_iff_prefix.mpr (prefix_append _ _)
  rw [pathElectionId, if_pos hpre, drop_left]
  simp only [htake]

theorem requestPath_election (hop : namesElection req.op = true) :
    ∃ rest, (rest = [] ∨ rest.head? = some 47) ∧
      requestPath req = bytes "/election/" ++ (req.electionId.val ++ rest) := by
  obtain ⟨op, cert, eid, ballot, hash, config⟩ := req
  cases op with
  | create | adminNextId => cases hop
  | cast | update => exact ⟨bytes "/ballot", .inr (by rfl), append_assoc _ _ _⟩
  | check | adminCheck => exact ⟨bytes "/check", .inr (by rfl), append_assoc _ _ _⟩
  | _ => exact ⟨[], .inl rfl, by simp [requestPath]⟩

/-- The election is read from the path as it was written exactly if there is
no slash in it. -/
theorem pathElectionId_eq_iff (hop : namesElection req.op = true) (hne : req.electionId.val ≠ []) :
    pathElectionId (requestPath req) = some req.electionId ↔ 47 ∉ req.electionId.val := by
  obtain ⟨rest, hrest, hpath⟩ := requestPath_election hop
  rw [hpath, pathElectionId_cut hrest]
  have hpre : req.electionId.val.takeWhile (· ≠ 47) <+: req.electionId.val :=
    takeWhile_prefix _
  constructor
  · intro h hslash
    dsimp only at h
    split at h
    · cases h
    · have hlen : (req.electionId.val.takeWhile (· ≠ 47)).length < bbIdLen :=
        lt_of_le_of_lt hpre.length_le req.electionId.fits
      have hcopy := CStr.copy_val hlen fun h0 => req.electionId.noNul (hpre.subset h0)
      rw [Option.some.inj h] at hcopy
      rw [hcopy] at hslash
      simpa using mem_takeWhile_imp hslash
  · intro hslash
    have hall : req.electionId.val.takeWhile (· ≠ 47) = req.electionId.val := by
      refine takeWhile_eq_self_iff.mpr fun c hc => decide_eq_true ?_
      rintro rfl
      exact hslash hc
    rw [hall, if_neg hne, CStr.copy_self]

/-! ## The configuration in the body -/

theorem createKv_options :
    ∀ (os : List OptionName) (req : BclRequest)
      (hle : (req.config.options ++ os).length ≤ bbMaxOptions),
      (os.map fun o => (bytes "option", o.val)).foldl createKv req =
        { req with config :=
            { req.config with options := req.config.options ++ os, options_le := hle } }
  | [], req, _ => by simp
  | o :: os, req, hle => by
    have hlt : req.config.options.length < bbMaxOptions := by
      rw [length_append, length_cons] at hle
      omega
    have hstep : createKv req (bytes "option", o.val) =
        { req with config := addOption req.config o.val } := rfl
    rw [map_cons, foldl_cons, hstep]
    have hadd : addOption req.config o.val =
        { req.config with
          options := req.config.options ++ [o]
          options_le := by rw [length_append]; exact hlt } := by
      simp only [addOption, dif_pos hlt, CStr.copy_self]
    rw [hadd, createKv_options os _ (by simpa using hle)]
    simp

theorem createKv_eligible :
    ∀ (es : List CertName) (req : BclRequest)
      (hle : (req.config.eligible ++ es).length ≤ bbMaxVoters),
      (es.map fun e => (bytes "eligible", e.val)).foldl createKv req =
        { req with config :=
            { req.config with eligible := req.config.eligible ++ es, eligible_le := hle } }
  | [], req, _ => by simp
  | e :: es, req, hle => by
    have hlt : req.config.eligible.length < bbMaxVoters := by
      rw [length_append, length_cons] at hle
      omega
    have hstep : createKv req (bytes "eligible", e.val) =
        { req with config := addEligible req.config e.val } := rfl
    rw [map_cons, foldl_cons, hstep]
    have hadd : addEligible req.config e.val =
        { req.config with
          eligible := req.config.eligible ++ [e]
          eligible_le := by rw [length_append]; exact hlt } := by
      simp only [addEligible, dif_pos hlt, CStr.copy_self]
    rw [hadd, createKv_eligible es _ (by simpa using hle)]
    simp

theorem arrivedKvs_create (hop : req.op = .create) :
    arrivedKvs req =
      (if req.electionId.val ≠ [] then [(bytes "election_id", req.electionId.val)] else []) ++
        [(bytes "title", req.config.title.val), (bytes "open_time", req.config.openTime.val),
          (bytes "close_time", req.config.closeTime.val)] ++
        (req.config.options.map fun o => (bytes "option", o.val)) ++
        req.config.eligible.map fun e => (bytes "eligible", e.val) := by
  obtain ⟨op, cert, eid, ballot, hash, config⟩ := req
  cases hop
  have hid := copy_value eid (by decide)
  have htitle := copy_value config.title (by decide)
  have hoption := fun o : OptionName => copy_value o (by decide)
  simp only [arrivedKvs, requestKvs]
  split <;> simp [Function.comp_def, *]

theorem createKv_arrived {req₀ : BclRequest} (hop : req.op = .create)
    (hid : req₀.electionId = default) (hconfig : req₀.config = default) :
    (arrivedKvs req).foldl createKv req₀ =
      { req₀ with electionId := req.electionId, config := req.config } := by
  obtain ⟨op₀, cert₀, eid₀, ballot₀, hash₀, config₀⟩ := req₀
  subst hid hconfig
  have hfirst : (if req.electionId.val ≠ [] then
      [(bytes "election_id", req.electionId.val)] else []).foldl createKv
        ⟨op₀, cert₀, default, ballot₀, hash₀, default⟩ =
      ⟨op₀, cert₀, req.electionId, ballot₀, hash₀, default⟩ := by
    split
    · exact congrArg (fun e => (⟨op₀, cert₀, e, ballot₀, hash₀, default⟩ : BclRequest))
        (CStr.copy_self req.electionId)
    next hempty =>
      have : req.electionId = default := CStr.ext (not_not.mp hempty)
      rw [this]
      rfl
  have hscalars : [(bytes "title", req.config.title.val),
      (bytes "open_time", req.config.openTime.val),
      (bytes "close_time", req.config.closeTime.val)].foldl createKv
        ⟨op₀, cert₀, req.electionId, ballot₀, hash₀, default⟩ =
      ⟨op₀, cert₀, req.electionId, ballot₀, hash₀, { (default : BbConfig) with
        title := CStr.copy _ req.config.title.val
        openTime := CStr.copy _ req.config.openTime.val
        closeTime := CStr.copy _ req.config.closeTime.val }⟩ := rfl
  rw [arrivedKvs_create hop, foldl_append, foldl_append, foldl_append, hfirst,
    hscalars, createKv_options, createKv_eligible]
  · simp only [CStr.copy_self]
    rfl
  exact req.config.options_le

/-! ## Ballot and hash in the body -/

/-- Of the digits of a payload 319 arrive. -/
theorem readBallot_arrived (hop : req.op = .cast ∨ req.op = .update) {body : Bytes}
    (hkvs : bodyKvs body = arrivedKvs req) (b : BbBallot) :
    readBallot body b =
      match hexDecode ((hexEncode (payloadBytes req.ballot)).take 319) b.payload with
      | (payload, some n) => some { b with nonce := req.ballot.nonce, payload, payloadLen := n }
      | (_, none) => none := by
  have hcut : (CStr.copy 320 (hexEncode (payloadBytes req.ballot))).val =
      (hexEncode (payloadBytes req.ballot)).take 319 := by
    simp only [CStr.copy, cText_eq_self (hexEncode_noNul _), Nat.reduceSub]
  have hlines : arrivedKvs req = [(bytes "nonce", req.ballot.nonce.val),
      (bytes "payload", (hexEncode (payloadBytes req.ballot)).take 319)] := by
    have hnonce := copy_value req.ballot.nonce (by decide)
    rcases hop with hop | hop <;>
    · simp only [arrivedKvs, requestKvs, hop, map_cons, map_nil, hnonce, hcut]
  have hfold : ∀ v, [(bytes "nonce", req.ballot.nonce.val), (bytes "payload", v)].foldl ballotKv
      (b, false) =
        match hexDecode v b.payload with
        | (payload, some n) =>
          ({ b with nonce := CStr.copy _ req.ballot.nonce.val, payload, payloadLen := n }, true)
        | (payload, none) =>
          ({ b with nonce := CStr.copy _ req.ballot.nonce.val, payload }, false) := fun _ => rfl
  rw [readBallot, hkvs, hlines, hfold, CStr.copy_self]
  rcases hexDecode ((hexEncode (payloadBytes req.ballot)).take 319) b.payload with
    ⟨payload, _ | n⟩ <;> rfl

/-- A payload comes back exactly if all of its digits arrive. The reader has
room for 319 of them, so a payload of 160 bytes or more has an odd number
left. -/
theorem readBallot_same_iff (hop : req.op = .cast ∨ req.op = .update)
    (hlen : req.ballot.payloadLen ≤ bbCiphertextMax) {body : Bytes}
    (hkvs : bodyKvs body = arrivedKvs req) (b : BbBallot) :
    (∃ b', readBallot body b = some b' ∧ b'.nonce = req.ballot.nonce ∧
      b'.payloadLen = req.ballot.payloadLen ∧ payloadBytes b' = payloadBytes req.ballot) ↔
      req.ballot.payloadLen ≤ 159 := by
  have hdigits : (hexEncode (payloadBytes req.ballot)).length = 2 * req.ballot.payloadLen := by
    rw [length_hexEncode, length_payloadBytes hlen]
  rw [readBallot_arrived hop hkvs b]
  constructor
  · rintro ⟨b', hb', -⟩
    by_contra hlong
    rw [hexDecode, if_pos (.inl (by rw [length_take, hdigits]; omega))] at hb'
    cases hb'
  · intro hshort
    rw [take_of_length_le (by omega), hexDecode, if_neg (by omega), hexLoop_hexEncode]
    refine ⟨_, rfl, rfl, ?_, ?_⟩
    · exact (Nat.zero_add _).trans (length_payloadBytes hlen)
    · rw [Nat.zero_add]
      exact payloadBytes_fill (by rw [length_payloadBytes hlen]; exact hlen)
        { b with nonce := req.ballot.nonce }

theorem readHash_arrived (hop : req.op = .check ∨ req.op = .adminCheck) {body : Bytes}
    (hkvs : bodyKvs body = arrivedKvs req) :
    readHash body = if req.hash.val = [] then none else some req.hash := by
  have hlines : arrivedKvs req = [(bytes "hash", req.hash.val)] := by
    have hhash := copy_value req.hash (by decide)
    rcases hop with hop | hop <;>
    · simp only [arrivedKvs, requestKvs, hop, map_cons, map_nil, hhash]
  have hfold : [(bytes "hash", req.hash.val)].foldl hashKv default =
      CStr.copy _ req.hash.val := rfl
  simp only [readHash, hkvs, hlines, hfold, CStr.copy_self]

/-! ## The round trip -/

/-- The request that was sent, in what the operation says. -/
structure SameRequest (req req' : BclRequest) : Prop where
  op : req'.op = req.op
  electionId : req'.electionId = req.electionId
  config : req.op = .create → req'.config = req.config
  ballot : req.op = .cast ∨ req.op = .update →
    req'.ballot.nonce = req.ballot.nonce ∧ req'.ballot.payloadLen = req.ballot.payloadLen ∧
      payloadBytes req'.ballot = payloadBytes req.ballot
  hash : req.op = .check ∨ req.op = .adminCheck → req'.hash = req.hash

/-- The requests the decoder reads as the encoder writes them. -/
structure Faithful (req : BclRequest) : Prop where
  slash : namesElection req.op = true → 47 ∉ req.electionId.val
  payload : req.op = .cast ∨ req.op = .update → req.ballot.payloadLen ≤ 159
  hash : req.op = .check ∨ req.op = .adminCheck → req.hash.val ≠ []
  nextId : req.op = .adminNextId → req.electionId.val = []

/-- The name the decoder takes from the headers. -/
def headerCert (http : HtttpRequest) : CertName :=
  match htttpHeaderGet http.headers (bytes "Cert-Name") with
  | some value => CStr.copy _ value.val
  | none => default

def blank (op : BclOp) (http : HtttpRequest) : BclRequest :=
  { BclRequest.of op with certName := headerCert http }

/-- The decoder once it knows the operation. -/
def decodeAs (op : BclOp) (http : HtttpRequest) : Option BclRequest :=
  match op with
  | .create => some ((bodyKvs http.body).foldl createKv (blank op http))
  | .adminNextId => some (blank op http)
  | .opening | .closing | .publish | .join | .results | .adminResults =>
    (pathElectionId http.path.val).map fun id => { blank op http with electionId := id }
  | .cast | .update =>
    (pathElectionId http.path.val).bind fun id =>
      (readBallot http.body { (blank op http).ballot with certName := headerCert http }).map
        fun ballot => { blank op http with electionId := id, ballot }
  | .check | .adminCheck =>
    (pathElectionId http.path.val).bind fun id =>
      (readHash http.body).map fun hash => { blank op http with electionId := id, hash }

theorem bclDecodeRequest_eq {http : HtttpRequest} (hop : opFromMethod http.method.val = some op) :
    bclDecodeRequest http = decodeAs op http := by
  rw [bclDecodeRequest, hop]
  cases op <;> simp only [decodeAs, map_eq_bind] <;> rfl

section Trip

variable {req : BclRequest} {http : HtttpRequest}

theorem create_trip (hreq : req.op = .create) (hop : opFromMethod http.method.val = some req.op)
    (hkvs : bodyKvs http.body = arrivedKvs req) :
    ∃ req', bclDecodeRequest http = some req' ∧ SameRequest req req' := by
  rw [bclDecodeRequest_eq hop, hreq, decodeAs, hkvs, createKv_arrived hreq rfl rfl]
  exact ⟨_, rfl, hreq.symm, rfl, fun _ => rfl, by simp [hreq], by simp [hreq]⟩

theorem nextId_trip (hreq : req.op = .adminNextId)
    (hop : opFromMethod http.method.val = some req.op) :
    (∃ req', bclDecodeRequest http = some req' ∧ SameRequest req req') ↔
      req.electionId.val = [] := by
  rw [bclDecodeRequest_eq hop, hreq]
  constructor
  · rintro ⟨req', hreq', hsame⟩
    rw [← hsame.electionId, ← Option.some.inj hreq']
    rfl
  · intro hempty
    refine ⟨_, rfl, hreq.symm, CStr.ext ?_, by simp [hreq], by simp [hreq], by simp [hreq]⟩
    exact hempty.symm

theorem path_trip (hreq : req.op ∈ [BclOp.opening, .closing, .publish, .join, .results,
      .adminResults]) (hop : opFromMethod http.method.val = some req.op) :
    (∃ req', bclDecodeRequest http = some req' ∧ SameRequest req req') ↔
      pathElectionId http.path.val = some req.electionId := by
  have hdec : bclDecodeRequest http = (pathElectionId http.path.val).map fun id =>
      { blank req.op http with electionId := id } := by
    rw [bclDecodeRequest_eq hop]
    revert hreq
    generalize req.op = op
    cases op <;> simp [decodeAs]
  rw [hdec]
  constructor
  · rintro ⟨req', hreq', hsame⟩
    obtain ⟨id, hid, rfl⟩ := map_eq_some_iff.mp hreq'
    rw [hid, ← hsame.electionId]
  · intro hid
    rw [hid]
    refine ⟨_, rfl, rfl, rfl, ?_, ?_, ?_⟩ <;>
    · revert hreq
      generalize req.op = op
      cases op <;> simp

theorem ballot_trip (hreq : req.op = .cast ∨ req.op = .update)
    (hlen : req.ballot.payloadLen ≤ bbCiphertextMax)
    (hop : opFromMethod http.method.val = some req.op)
    (hkvs : bodyKvs http.body = arrivedKvs req) :
    (∃ req', bclDecodeRequest http = some req' ∧ SameRequest req req') ↔
      pathElectionId http.path.val = some req.electionId ∧ req.ballot.payloadLen ≤ 159 := by
  rw [← readBallot_same_iff hreq hlen hkvs
    { (blank req.op http).ballot with certName := headerCert http }]
  have hdec : bclDecodeRequest http = (pathElectionId http.path.val).bind fun id =>
      (readBallot http.body { (blank req.op http).ballot with certName := headerCert http }).map
        fun ballot => { blank req.op http with electionId := id, ballot } := by
    rw [bclDecodeRequest_eq hop]
    rcases hreq with hreq | hreq <;> rw [hreq, decodeAs]
  rw [hdec]
  constructor
  · rintro ⟨req', hreq', hsame⟩
    obtain ⟨id, hid, hreq'⟩ := bind_eq_some_iff.mp hreq'
    obtain ⟨b, hb, rfl⟩ := map_eq_some_iff.mp hreq'
    exact ⟨by rw [hid, ← hsame.electionId], b, hb, hsame.ballot hreq⟩
  · rintro ⟨hid, b, hb, hsame⟩
    rw [hid, hb]
    refine ⟨_, rfl, rfl, rfl, ?_, fun _ => hsame, ?_⟩ <;>
    · rcases hreq with hreq | hreq <;> simp [hreq]

theorem check_trip (hreq : req.op = .check ∨ req.op = .adminCheck)
    (hop : opFromMethod http.method.val = some req.op)
    (hkvs : bodyKvs http.body = arrivedKvs req) :
    (∃ req', bclDecodeRequest http = some req' ∧ SameRequest req req') ↔
      pathElectionId http.path.val = some req.electionId ∧ req.hash.val ≠ [] := by
  have hdec : bclDecodeRequest http = (pathElectionId http.path.val).bind fun id =>
      (readHash http.body).map fun hash =>
        { blank req.op http with electionId := id, hash } := by
    rw [bclDecodeRequest_eq hop]
    rcases hreq with hreq | hreq <;> rw [hreq, decodeAs]
  rw [hdec, readHash_arrived hreq hkvs]
  constructor
  · rintro ⟨req', hreq', hsame⟩
    obtain ⟨id, hid, hreq'⟩ := bind_eq_some_iff.mp hreq'
    obtain ⟨hash, hhash, rfl⟩ := map_eq_some_iff.mp hreq'
    refine ⟨by rw [hid, ← hsame.electionId], fun hempty => ?_⟩
    rw [if_pos hempty] at hhash
    cases hhash
  · rintro ⟨hid, hne⟩
    rw [hid, if_neg hne]
    refine ⟨_, rfl, rfl, rfl, ?_, ?_, fun _ => rfl⟩ <;>
    · rcases hreq with hreq | hreq <;> simp [hreq]

end Trip

theorem payload_of_encoded (hreq : req.op = .cast ∨ req.op = .update)
    (henc : bclEncodeRequest req cap = some out) : req.ballot.payloadLen ≤ bbCiphertextMax := by
  obtain ⟨method, -, henc⟩ := bind_eq_some_iff.mp henc
  obtain ⟨pieces, hpieces, -⟩ := bind_eq_some_iff.mp henc
  by_contra hlong
  rcases hreq with hreq | hreq <;>
  · rw [requestPieces, hreq] at hpieces
    simp only [if_pos (not_le.mp hlong), reduceCtorEq] at hpieces

/-- What was encoded is parsed and decoded to the same request exactly if
there is no slash in an election that goes into the path, no payload of more
than 159 bytes, no empty hash and no election in an `ADMIN_NEXT_ID`. -/
theorem request_trip_iff (req : BclRequest) (cap : UInt32) (out : Bytes)
    (henc : bclEncodeRequest req cap.toNat = some out)
    (hid : namesElection req.op = true → req.electionId.val ≠ []) :
    (∃ http req', htttpParseRequest out = .ok http ∧ bclDecodeRequest http = some req' ∧
      SameRequest req req') ↔ Faithful req := by
  obtain ⟨http, hparse, hop, hpath, hkvs⟩ := bclEncodeRequest_parse cap.toNat_lt henc
  have hgot : (∃ http req', htttpParseRequest out = .ok http ∧ bclDecodeRequest http = some req' ∧
      SameRequest req req') ↔ ∃ req', bclDecodeRequest http = some req' ∧ SameRequest req req' := by
    rw [hparse]
    constructor
    · rintro ⟨http', req', heq, h⟩
      cases heq
      exact ⟨req', h⟩
    · rintro ⟨req', h⟩
      exact ⟨http, req', rfl, h⟩
  have hslash : namesElection req.op = true →
      (pathElectionId http.path.val = some req.electionId ↔ 47 ∉ req.electionId.val) := by
    intro hnames
    rw [hpath]
    exact pathElectionId_eq_iff hnames (hid hnames)
  rw [hgot]
  cases hreq : req.op with
  | create =>
    refine iff_of_true (create_trip hreq hop hkvs) ⟨?_, ?_, ?_, ?_⟩ <;> simp [hreq, namesElection]
  | adminNextId =>
    rw [nextId_trip hreq hop]
    exact ⟨fun h => ⟨by simp [hreq, namesElection], by simp [hreq], by simp [hreq], fun _ => h⟩,
      fun h => h.nextId hreq⟩
  | cast | update =>
    rw [ballot_trip (by simp [hreq]) (payload_of_encoded (by simp [hreq]) henc) hop hkvs,
      hslash (by rw [hreq]; rfl)]
    exact ⟨fun h => ⟨fun _ => h.1, fun _ => h.2, by simp [hreq], by simp [hreq]⟩,
      fun h => ⟨h.slash (by rw [hreq]; rfl), h.payload (by simp [hreq])⟩⟩
  | check | adminCheck =>
    rw [check_trip (by simp [hreq]) hop hkvs, hslash (by rw [hreq]; rfl)]
    exact ⟨fun h => ⟨fun _ => h.1, by simp [hreq], fun _ => h.2, by simp [hreq]⟩,
      fun h => ⟨h.slash (by rw [hreq]; rfl), h.hash (by simp [hreq])⟩⟩
  | opening | closing | publish | join | results | adminResults =>
    rw [path_trip (by simp [hreq]) hop, hslash (by rw [hreq]; rfl)]
    exact ⟨fun h => ⟨fun _ => h, by simp [hreq], by simp [hreq], by simp [hreq]⟩,
      fun h => h.slash (by rw [hreq]; rfl)⟩

/-- A cast of `n` bytes in the election `e1`. -/
def castOf (n : Nat) : BclRequest :=
  { BclRequest.of .cast with
    electionId := CStr.copy _ (bytes "e1")
    ballot := ⟨default, CStr.copy _ (bytes "n1"), fun _ => 171, n⟩ }

theorem short_cast_trip :
    ∃ out, bclEncodeRequest (castOf 3) (4096 : UInt32).toNat = some out ∧
      ∃ http req', htttpParseRequest out = .ok http ∧ bclDecodeRequest http = some req' ∧
        SameRequest (castOf 3) req' := by
  have hsome : (bclEncodeRequest (castOf 3) (4096 : UInt32).toNat).isSome = true := by
    rfl
  obtain ⟨out, hout⟩ := isSome_iff_exists.mp hsome
  have hfaithful : Faithful (castOf 3) :=
    ⟨fun _ => by decide, fun _ => by decide, by simp [castOf, BclRequest.of],
      by simp [castOf, BclRequest.of]⟩
  exact ⟨out, hout, (request_trip_iff _ _ out hout fun _ => by decide +kernel).mpr hfaithful⟩

/-- A payload of 160 bytes is encoded, and then 319 of its 320 digits arrive. -/
theorem long_cast_lost :
    ∃ out, bclEncodeRequest (castOf 160) (4096 : UInt32).toNat = some out ∧
      (castOf 160).electionId.val ≠ [] ∧ (castOf 160).ballot.payloadLen ≤ bbCiphertextMax ∧
      ¬ ∃ http req', htttpParseRequest out = .ok http ∧ bclDecodeRequest http = some req' ∧
        SameRequest (castOf 160) req' := by
  have hsome : (bclEncodeRequest (castOf 160) (4096 : UInt32).toNat).isSome = true := by
    decide +kernel
  obtain ⟨out, hout⟩ := isSome_iff_exists.mp hsome
  refine ⟨out, hout, by decide, by decide, ?_⟩
  rintro ⟨http, req', hparse, hback⟩
  obtain ⟨http', hparse', hop, -, hkvs⟩ :=
    bclEncodeRequest_parse (UInt32.toNat_lt _) hout
  cases hparse.symm.trans hparse'
  have hshort := (ballot_trip (.inl rfl) (by decide) hop hkvs).mp ⟨req', hback⟩
  exact absurd hshort.2 (by decide)

end Corestack.Client
