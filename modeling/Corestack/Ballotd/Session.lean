import Corestack.Core.Auth
import Corestack.Client.Codec

/-!
# A voter connection (`ballotd/session.c`)

One process serves one voter: the login exchange first, and then every
request that is a voter's is stamped with the name of the login and handed
to the admin thread. Nothing the client writes into a request is taken for
its name. A guest, however, is let in like an account, without a name.
-/

namespace Corestack.Ballotd

open List Lib Corestack.Core Brain Client

def isVoterOp (op : BclOp) : Bool :=
  op = .join || op = .cast || op = .update || op = .results || op = .check

/-- The name of the login in place of whatever the request says. -/
def stamp (certName : UserName) (req : BclRequest) : BclRequest :=
  { req with certName := CStr.copy _ certName.val,
             ballot := { req.ballot with certName := CStr.copy _ certName.val } }

/-- What `handle_request` makes of a frame: the request it forwards, or the
status of a bare refusal. -/
def handleRequest (certName : UserName) (data : Bytes) : Except Nat BclRequest :=
  match htttpParseRequest data with
  | .error _ => .error 400
  | .ok http =>
    match bclDecodeRequest http with
    | none => .error 400
    | some req => if isVoterOp req.op then .ok (stamp certName req) else .error 400

/-- The loop of `session_main`: the requests forwarded, in order. -/
def serve (certName : UserName) : List Received → List BclRequest
  | [] => []
  | .broken :: _ => []
  | .skipped :: frames => serve certName frames
  | .frame data :: frames =>
    match handleRequest certName data with
    | .ok req => req :: serve certName frames
    | .error _ => serve certName frames

/-- `session_main` on the frames of a client: the state of the login
exchange and the requests forwarded to the admin thread. -/
def sessionMain (env : AuthEnv) (frames : List Received) : AuthState × List BclRequest :=
  match authRetryHandler env 0 .start frames with
  | none => (.start, [])
  | some (_, st, rest) => (st, serve st.name rest)

/-- The frame that ends the login exchange is a GUEST request. -/
def admittedAsGuest (env : AuthEnv) (frames : List Received) : Bool :=
  match authRetryHandler env 0 .start frames with
  | none => false
  | some (r, _, _) => isGuest r

/-- The frame holds a request of a voter. -/
def isVoterRequest (data : Bytes) : Bool :=
  match htttpParseRequest data with
  | .error _ => false
  | .ok http =>
    match bclDecodeRequest http with
    | none => false
    | some req => isVoterOp req.op

/-- The frames that are read before the connection breaks. -/
def framesRead : List Received → List Bytes
  | [] => []
  | .broken :: _ => []
  | .skipped :: frames => framesRead frames
  | .frame data :: frames => data :: framesRead frames

/-- The frames that are read after the one that ends the login exchange. -/
def framesAfterLogin (env : AuthEnv) (frames : List Received) : List Bytes :=
  match authRetryHandler env 0 .start frames with
  | none => []
  | some (_, _, rest) => framesRead rest

/-! ## What is forwarded -/

variable {name : UserName} {data : Bytes} {req : BclRequest}

theorem handleRequest_isOk (name : UserName) (data : Bytes) :
    (handleRequest name data).isOk = isVoterRequest data := by
  unfold handleRequest isVoterRequest
  cases htttpParseRequest data with
  | error e => rfl
  | ok http =>
    dsimp only
    cases bclDecodeRequest http with
    | none => rfl
    | some req =>
      dsimp only
      cases isVoterOp req.op <;> rfl

/-- Something is forwarded exactly if one of the frames holds a request of
a voter. -/
theorem serve_eq_nil_iff (name : UserName) (frames : List Received) :
    serve name frames = [] ↔ ∀ data ∈ framesRead frames, isVoterRequest data = false := by
  induction frames with
  | nil => simp [serve, framesRead]
  | cons r frames ih =>
    cases r with
    | broken => simp [serve, framesRead]
    | skipped => exact ih
    | frame data =>
      rw [framesRead, forall_mem_cons, ← ih, ← handleRequest_isOk name, serve]
      cases handleRequest name data with
      | ok req => simp [Except.isOk, Except.toBool]
      | error e => simp [Except.isOk, Except.toBool]

theorem handleRequest_ok (h : handleRequest name data = .ok req) :
    isVoterOp req.op = true ∧ req.certName.val = name.val ∧
      req.ballot.certName = req.certName := by
  unfold handleRequest at h
  split at h
  · cases h
  · split at h
    · cases h
    · split at h
      · rename_i hop
        cases h
        have hfits : name.val.length < bbCertLen := name.fits.trans (by decide)
        exact ⟨hop, CStr.copy_val hfits name.noNul, rfl⟩
      · cases h

theorem mem_serve :
    ∀ {frames : List Received}, req ∈ serve name frames →
      isVoterOp req.op = true ∧ req.certName.val = name.val ∧ req.ballot.certName = req.certName
  | [], h => by cases h
  | .broken :: _, h => by cases h
  | .skipped :: frames, h => mem_serve (show req ∈ serve name frames from h)
  | .frame data :: frames, h => by
    rw [serve] at h
    split at h
    · rename_i hreq
      rcases mem_cons.mp h with rfl | h
      · exact handleRequest_ok hreq
      · exact mem_serve h
    · exact mem_serve h

/-! ## Headers do not matter -/

/-- Two frames that are equal, or that are messages which differ in their
headers only. -/
inductive SameButHeaders : Received → Received → Prop
  | refl (r : Received) : SameButHeaders r r
  | frame {data data' : Bytes} {http http' : HtttpRequest}
      (parse : htttpParseRequest data = .ok http) (parse' : htttpParseRequest data' = .ok http')
      (method : http.method = http'.method) (path : http.path = http'.path)
      (body : http.body = http'.body) : SameButHeaders (.frame data) (.frame data')

theorem createKv_op (req : BclRequest) (kv : Bytes × Bytes) : (createKv req kv).op = req.op := by
  unfold createKv
  repeat' split
  all_goals rfl

theorem foldl_createKv_op (kvs : List (Bytes × Bytes)) (req : BclRequest) :
    (kvs.foldl createKv req).op = req.op := by
  induction kvs generalizing req with
  | nil => rfl
  | cons kv kvs ih => rw [foldl_cons, ih, createKv_op]

theorem ballotKv_certName (ballot : BbBallot) (got : Bool) (cert : CertName) (kv : Bytes × Bytes) :
    ballotKv ({ ballot with certName := cert }, got) kv =
      ({ (ballotKv (ballot, got) kv).1 with certName := cert }, (ballotKv (ballot, got) kv).2) := by
  unfold ballotKv
  dsimp only
  split
  · rfl
  · split
    · split <;> rfl
    · rfl

theorem foldl_ballotKv_certName (cert : CertName) (kvs : List (Bytes × Bytes)) :
    ∀ (ballot : BbBallot) (got : Bool),
      kvs.foldl ballotKv ({ ballot with certName := cert }, got) =
        ({ (kvs.foldl ballotKv (ballot, got)).1 with certName := cert },
          (kvs.foldl ballotKv (ballot, got)).2) := by
  induction kvs with
  | nil => exact fun _ _ => rfl
  | cons kv kvs ih =>
    intro ballot got
    rw [foldl_cons, foldl_cons, ballotKv_certName, ih]

theorem readBallot_certName (body : Bytes) (ballot : BbBallot) (cert : CertName) :
    readBallot body { ballot with certName := cert } =
      (readBallot body ballot).map fun b => { b with certName := cert } := by
  simp only [readBallot, foldl_ballotKv_certName]
  rcases (bodyKvs body).foldl ballotKv (ballot, false) with ⟨b, _ | _⟩ <;> rfl

theorem handleRequest_headers (name : UserName) {data' : Bytes}
    (h : SameButHeaders (.frame data) (.frame data')) :
    handleRequest name data = handleRequest name data' := by
  cases h with
  | refl => rfl
  | @frame _ _ http http' parse parse' method path body =>
    simp only [handleRequest, parse, parse', bclDecodeRequest, ← method, ← path, ← body]
    cases hop : opFromMethod http.method.val with
    | none => rfl
    | some op =>
      cases op with
      | create =>
        simp only [Option.bind_eq_bind, Option.bind_some, foldl_createKv_op]
        rfl
      | adminNextId => rfl
      | opening | closing | publish | adminResults | join | results =>
        cases pathElectionId http.path.val <;> rfl
      | check | adminCheck =>
        cases pathElectionId http.path.val with
        | none => rfl
        | some id => cases readHash http.body <;> rfl
      | cast | update =>
        cases pathElectionId http.path.val with
        | none => rfl
        | some id =>
          simp only [Option.bind_eq_bind, Option.bind_some, BclRequest.of,
            readBallot_certName]
          cases readBallot http.body default <;> rfl

variable {frames frames' : List Received}

theorem serve_headers (name : UserName) (h : List.Forall₂ SameButHeaders frames frames') :
    serve name frames = serve name frames' := by
  induction h with
  | nil => rfl
  | @cons r r' frames frames' hr _ ih =>
    cases hr with
    | refl =>
      cases r with
      | broken => rfl
      | skipped => exact ih
      | frame data => simp only [serve, ih]
    | frame parse parse' method path body =>
      simp only [serve, handleRequest_headers name (.frame parse parse' method path body), ih]

theorem authHandler_headers (env : AuthEnv) (st : AuthState) {r r' : Received}
    (h : SameButHeaders r r') : authHandler env r st = authHandler env r' st := by
  cases h with
  | refl => rfl
  | frame parse parse' method path body =>
    simp only [authHandler, parse, parse', authMethodOf, enter, method, body]

theorem authRetryHandler_headers (env : AuthEnv) (h : List.Forall₂ SameButHeaders frames frames') :
    ∀ (i : Nat) (st : AuthState),
      (authRetryHandler env i st frames = none ∧ authRetryHandler env i st frames' = none) ∨
      ∃ r r' st' rest rest', authRetryHandler env i st frames = some (r, st', rest) ∧
        authRetryHandler env i st frames' = some (r', st', rest') ∧
        List.Forall₂ SameButHeaders rest rest' := by
  induction h with
  | nil => exact fun _ _ => .inl ⟨rfl, rfl⟩
  | @cons r r' frames frames' hr hrest ih =>
    intro i st
    simp only [authRetryHandler, ← authHandler_headers env st hr]
    split
    · split
      · exact .inl ⟨rfl, rfl⟩
      · rename_i status st' _
        split
        · exact .inr ⟨r, r', st', frames, frames', rfl, rfl, hrest⟩
        · exact ih _ st'
    · exact .inl ⟨rfl, rfl⟩

theorem sessionMain_headers (env : AuthEnv) (h : List.Forall₂ SameButHeaders frames frames') :
    sessionMain env frames = sessionMain env frames' := by
  rcases authRetryHandler_headers env h 0 .start with
    ⟨h1, h2⟩ | ⟨r, r', st, rest, rest', h1, h2, hr⟩
  · simp only [sessionMain, h1, h2]
  · simp only [sessionMain, h1, h2, serve_headers st.name hr]

/-! ## Who acts on the voter channel -/

/-- Whatever frames a client sends: a request that is forwarded is one of
the five operations of a voter and carries one name in both places, and
headers have no part in it. The name is that of an account the connection
entered, unless it was let in as a guest and one of the frames after that
holds a request of a voter. -/
theorem voter_channel (env : AuthEnv) (frames : List Received) :
    (∀ req ∈ (sessionMain env frames).2,
      isVoterOp req.op = true ∧ req.ballot.certName = req.certName) ∧
    ((∀ req ∈ (sessionMain env frames).2,
        (sessionMain env frames).1.Entered req.certName.val) ↔
      (admittedAsGuest env frames = true →
        ∀ data ∈ framesAfterLogin env frames, isVoterRequest data = false)) ∧
    ∀ frames', List.Forall₂ SameButHeaders frames frames' →
      sessionMain env frames' = sessionMain env frames := by
  refine ⟨?_, ?_, fun frames' h => (sessionMain_headers env h).symm⟩
  · intro req hreq
    unfold sessionMain at hreq
    split at hreq
    · cases hreq
    · exact ⟨(mem_serve hreq).1, (mem_serve hreq).2.2⟩
  · unfold sessionMain admittedAsGuest framesAfterLogin
    cases hauth : authRetryHandler env 0 .start frames with
    | none => simp
    | some x =>
      obtain ⟨r, st, rest⟩ := x
      have hst := authRetryHandler_admits hauth
      dsimp only
      cases hguest : isGuest r with
      | false =>
        rw [hguest, if_neg Bool.false_ne_true] at hst
        refine iff_of_true (fun req hreq => ?_) fun h => absurd h Bool.false_ne_true
        rw [(mem_serve hreq).2.1]
        exact hst
      | true =>
        rw [hguest, if_pos rfl] at hst
        rw [← serve_eq_nil_iff st.name]
        constructor
        · intro hnamed _
          refine eq_nil_iff_forall_not_mem.mpr fun req hreq => ?_
          have hne := (hnamed req hreq).1
          rw [(mem_serve hreq).2.1] at hne
          exact hne hst
        · intro hnil
          rw [hnil rfl]
          exact fun _ h => absurd h not_mem_nil

/-- A small installation: every login succeeds. -/
def openDoor : AuthEnv := ⟨5, fun _ _ _ _ => 200, fun _ => true⟩

def textFrame (s : String) : Received := .frame (bytes s)

/-- A voter logs in as Ann and joins an election, with another name in the
header. -/
def annJoins : List Received :=
  [textFrame "LOGIN /auth HTTTP/1.0\r\nContent-Length: 12\r\n\r\nAnn\npassword",
    textFrame "JOIN /election/E-100 HTTTP/1.0\r\nCert-Name: bob\r\n\r\n"]

theorem voter_channel_ann :
    (sessionMain openDoor annJoins).2.map (fun req => (req.op, req.certName.val)) =
        [(.join, bytes "ann")] ∧
      ∀ req ∈ (sessionMain openDoor annJoins).2,
        (sessionMain openDoor annJoins).1.Entered req.certName.val :=
  ⟨by decide +kernel, (voter_channel openDoor annJoins).2.1.mpr fun h =>
    absurd h (by decide +kernel)⟩

def guestJoins : List Received :=
  [textFrame "GUEST /auth HTTTP/1.0\r\n\r\n",
    textFrame "JOIN /election/E-100 HTTTP/1.0\r\n\r\n"]

/-- The request of a guest is forwarded, in nobody's name. -/
theorem guest_request_forwarded :
    (sessionMain openDoor guestJoins).1.calls = [] ∧
      (sessionMain openDoor guestJoins).2.map (fun req =>
        (req.op, req.certName.val, req.ballot.certName.val)) = [(.join, [], [])] := by
  decide +kernel

end Corestack.Ballotd
