import Corestack.Ballotd.Answered
import Corestack.Ballotd.Results

/-!
# What a refused request gives away

A request that is refused should be answered with its status and nothing
else. `bb_join` hands out the election before it looks up a prior ballot,
and `record_ballot_locked` the receipt before it writes the ballot, so what
is refused by the store behind that point carries them.
-/

namespace Corestack.Ballotd

open Lib Corestack.Core Db Brain Client Prog

/-! ## What is in the bytes -/

/-- The keys of receipt hashes, of an election's title and options, of a
prior ballot, of tallies, ballot rows and options found. -/
def secretKeys : List Bytes :=
  ["hash", "title", "option", "has_prior_ballot", "prior_ballot_version", "tally", "result_option",
    "row", "found_option", "found_option_name"].map bytes

/-- A response as it is sent has a line with one of these keys and a value. -/
def Reveals (out : Bytes) : Prop :=
  ∃ http, htttpParseResponse out = .ok http ∧
    ∃ kv ∈ bodyKvs http.body, kv.1 ∈ secretKeys ∧ kv.2 ≠ []

/-- A line that is sent has such a key and a value. -/
def Telling (kv : String × Bytes) : Prop := bytes kv.1 ∈ secretKeys ∧ (CStr.copy 320 kv.2).val ≠ []

instance (kv : String × Bytes) : Decidable (Telling kv) := by
  unfold Telling
  infer_instance

variable {op : BclOp} {resp : BclResponse} {out : Bytes}

theorem reveals_iff {now : Tm} (hs : Shaped resp)
    (henc : bclEncodeResponse now op resp sessionMaxFrame = some out) :
    Reveals out ↔ ∃ kv ∈ responseKvs op resp, Telling kv := by
  obtain ⟨body, hbody, -⟩ := Option.bind_eq_some_iff.mp henc
  obtain ⟨name, hname, hpieces⟩ := Option.bind_eq_some_iff.mp hbody
  have hclean : Clean op resp := by
    rw [← pieces_ok_iff_clean]
    exact fun p hp => pieceOk_of_foldlM hpieces p (List.mem_cons_of_mem _ hp)
  obtain ⟨out', http, henc', hparse, hhttp⟩ := bclEncodeResponse_parse now hs hclean hname
  rw [henc] at henc'
  cases henc'
  have hkvs := bodyKvs_response hname (responseKvs_keys op resp) ((clean_iff_kvs op resp).mp hclean)
  have hstatus : bytes "status" ∉ secretKeys := by decide +kernel
  constructor
  · rintro ⟨http', hparse', kv, hkv, hsecret, hne⟩
    rw [hparse] at hparse'
    cases hparse'
    rw [hhttp, hkvs] at hkv
    rcases List.mem_cons.mp hkv with rfl | hkv
    · exact absurd hsecret hstatus
    · obtain ⟨kv', hmem, rfl⟩ := List.mem_map.mp hkv
      exact ⟨kv', hmem, hsecret, hne⟩
  · rintro ⟨kv, hkv, hsecret, hne⟩
    refine ⟨http, hparse, (bytes kv.1, (CStr.copy 320 kv.2).val), ?_, hsecret, hne⟩
    rw [hhttp, hkvs]
    exact List.mem_cons_of_mem _ (List.mem_map.mpr ⟨kv, hkv, rfl⟩)

theorem not_telling_of (op : BclOp) (st : Option BbErr) :
    ¬ ∃ kv ∈ responseKvs op (.of st), Telling kv := by
  have hsame : responseKvs op (.of st) = responseKvs op (.of none) := by
    cases op <;> rfl
  rw [hsame]
  cases op <;> decide +kernel

theorem telling_join_iff (resp : BclResponse) :
    (∃ kv ∈ responseKvs .join resp, Telling kv) ↔ resp.election.id.val ≠ [] := by
  constructor
  · rintro ⟨kv, hkv, -⟩ hid
    simp [responseKvs, hid] at hkv
  · intro hid
    refine ⟨("has_prior_ballot", fmtInt (boolInt resp.hasPriorBallot)), ?_, ?_⟩
    · simp [responseKvs, hid]
    · cases resp.hasPriorBallot <;> decide +kernel

theorem telling_record_iff (hop : Records op) (resp : BclResponse) :
    (∃ kv ∈ responseKvs op resp, Telling kv) ↔ resp.receipt.hash.val ≠ [] := by
  have hkvs : responseKvs op resp = if resp.receipt.hash.val ≠ [] then
      [("hash", resp.receipt.hash.val), ("issued_at", resp.receipt.issuedAt.val)] else [] := by
    rcases hop with rfl | rfl <;> rfl
  rw [hkvs]
  constructor
  · rintro ⟨kv, hkv, -⟩ hhash
    rw [if_neg (not_not.mpr hhash)] at hkv
    cases hkv
  · intro hhash
    rw [if_pos hhash]
    refine ⟨_, List.mem_cons_self, show bytes "hash" ∈ secretKeys by decide +kernel, ?_⟩
    rw [copy_value _ (by decide)]
    exact hhash

/-! ## How far a request gets -/

/-- `bb_join` up to the look-up of a prior ballot. -/
def joinGates (ctx : BbCtx) (eid : Id) (cert : CertName) : BrainM BbElection := do
  let election ← loadElection ctx eid
  match ← bbVerifyCert cert with
  | .invalid => .fail .certInvalid
  | .expired => .fail .certExpired
  | .notEligible => .fail .notEligible
  | .valid =>
    if ¬ bbCheckEligibility election cert then do
      logNotEligible (bytes "[join]") eid cert election
      .fail .notEligible
    else if election.state ≠ .opened then do
      bbLog (bytes "[join] '" ++ eid.val ++ bytes "' is " ++ bbStateStr election.state
        ++ bytes ", not OPEN")
      .fail .notOpen
    else return election

/-- `bb_join` from there on, with the election handed out. -/
def joinPrior (ctx : BbCtx) (eid : Id) (cert : CertName) (election : BbElection) :
    BrainM (BbElection × Except BbErr (Option Int)) := do
  let prior ← (dbExec ctx (.getPriorBallot eid cert)).attempt
  return (election, prior.map fun res => if res.found then some res.row.version else none)

theorem bbJoin_eq (ctx : BbCtx) (eid : Id) (cert : CertName) :
    bbJoin ctx eid cert = joinGates ctx eid cert >>= joinPrior ctx eid cert := by
  unfold bbJoin joinGates
  rw [bind_assoc]
  congr 1
  funext election
  rw [bind_assoc]
  congr 1
  funext status
  cases status with
  | invalid | expired | notEligible => rfl
  | valid =>
    dsimp only
    split
    · rw [bind_assoc]
      rfl
    · split
      · rfl
      · rfl

section Attempts

variable {σ : Type} (h : (op : Op) → σ → Reply op × σ)

/-- One of the attempts to record a ballot gets through the checks, the
look-ups of the nonce and of a prior ballot among them. -/
def PassesChecks (eid : Id) (b : BbBallot) : Nat → σ → Prop
  | 0, _ => False
  | n + 1, s =>
    match run h (bbDbBegin ⟨false⟩) s with
    | (.error _, _) => False
    | (.ok ctx, s₁) =>
      match run h (recordChecks ctx eid b) s₁ with
      | (.ok _, _) => True
      | (.error e, s₂) => e = .retry ∧ PassesChecks eid b n (run h (bbDbRollback ctx) s₂).2

/-- The request is refused before anything was handed out: JOIN before the
look-up of a prior ballot (or with an election without an id), a ballot
with no attempt that gets through the checks. -/
def RefusedEarly (s : σ) (req : BclRequest) : Prop :=
  match req.op with
  | .join => ∀ e s', run h (joinGates ⟨false⟩ req.electionId req.certName) s = (.ok e, s') →
      e.id.val = []
  | .cast | .update => ¬ PassesChecks h req.electionId req.ballot bbTxnAttempts s
  | _ => True

end Attempts

section Runs

variable {σ : Type} {h : (op : Op) → σ → Reply op × σ} {s s' : σ}

variable {ctx : BbCtx} {eid : Id} {b : BbBallot} {out' : BbReceipt}

theorem recordBallotLockedOut_out {out : BbReceipt} {r : Except BbErr BbReceipt}
    (hrun : run h (recordBallotLockedOut ctx eid b out) s = (.ok (r, out'), s')) :
    (∃ x s₁ v, run h (recordChecks ctx eid b) s = (.ok x, s₁) ∧ out' = receiptOf b v) ∨
      ∃ e, run h (recordChecks ctx eid b) s = (.error e, s') ∧ r = .error e ∧ out' = out := by
  obtain ⟨x, s₁, h₁, h₂⟩ := run_bind_ok hrun
  rw [run_attempt] at h₁
  rcases hchecks : run h (recordChecks ctx eid b) s with ⟨e | ⟨option, prior⟩, s₂⟩
  · rw [hchecks] at h₁
    cases h₁
    cases h₂
    exact .inr ⟨e, rfl, rfl, rfl⟩
  · rw [hchecks] at h₁
    cases h₁
    obtain ⟨_, _, -, h₄⟩ := run_bind_ok h₂
    cases h₄
    exact .inl ⟨_, _, _, rfl, rfl⟩

/-- After all attempts the out-parameter holds a receipt exactly if one of
them got through the checks. -/
theorem recordAttempts_out {res : Except BbErr BbReceipt} :
    ∀ {n : Nat} {e : BbErr} {out : BbReceipt} {s : σ},
      run h (recordAttempts ⟨false⟩ eid b n e out) s = (.ok (res, out', ctx), s') →
      (PassesChecks h eid b n s → ∃ v, out' = receiptOf b v) ∧
        (¬ PassesChecks h eid b n s → out' = out)
  | 0, e, out, s, hrun => by
    cases hrun
    exact ⟨fun hp => hp.elim, fun _ => rfl⟩
  | n + 1, e, out, s, hrun => by
    -- whatever the later attempts do, a receipt stays a receipt
    have hlater : ∀ {e : BbErr} {out₁ : BbReceipt} {s₁ : σ} {v : Int}, out₁ = receiptOf b v →
        run h (recordAttempts ⟨false⟩ eid b n e out₁) s₁ = (.ok (res, out', ctx), s') →
        ∃ v, out' = receiptOf b v := by
      intro e out₁ s₁ v hout hrun
      obtain ⟨hpass, hkeep⟩ := recordAttempts_out hrun
      by_cases hp : PassesChecks h eid b n s₁
      · exact hpass hp
      · exact ⟨v, (hkeep hp).trans hout⟩
    obtain ⟨r, s₁, h₁, h₂⟩ := run_bind_ok hrun
    rw [run_attempt] at h₁
    have hctx := ((notes_bbDbBegin false).run (h := h) s).2
    unfold PassesChecks
    rcases hbegin : run h (bbDbBegin ⟨false⟩) s with ⟨e | ctx', s₂⟩
    · rw [hbegin] at h₁
      cases h₁
      cases h₂
      exact ⟨fun hp => hp.elim, fun _ => rfl⟩
    · rw [hbegin] at h₁ hctx
      cases h₁
      obtain rfl := hctx ctx' rfl
      obtain ⟨⟨r, out₁⟩, s₃, h₃, h₄⟩ := run_bind_ok h₂
      dsimp only
      rcases recordBallotLockedOut_out h₃ with ⟨x, s₄, v, hchecks, hout⟩ | ⟨e, hchecks, rfl, rfl⟩
      · rw [hchecks]
        refine ⟨fun _ => ?_, fun hp => absurd trivial hp⟩
        cases r with
        | error e =>
          obtain ⟨ctx₁, s₅, h₅, h₆⟩ := run_bind_ok h₄
          have hback := ((notes_bbDbRollback false).run (h := h) s₃).2
          rw [h₅] at hback
          cases hback
          split at h₆
          · exact hlater hout h₆
          · cases h₆
            exact ⟨v, hout⟩
        | ok rcpt =>
          obtain ⟨⟨r₁, ctx₁⟩, s₅, h₅, h₆⟩ := run_bind_ok h₄
          obtain ⟨x, hx, -⟩ := notes_bbDbCommit.run (h := h) s₃
          rw [h₅] at hx
          cases hx
          cases r₁ with
          | ok u =>
            cases h₆
            exact ⟨v, hout⟩
          | error e =>
            dsimp only at h₆
            split at h₆
            · exact hlater hout h₆
            · cases h₆
              exact ⟨v, hout⟩
      · rw [hchecks]
        obtain ⟨ctx₁, s₅, h₅, h₆⟩ := run_bind_ok h₄
        have hback := ((notes_bbDbRollback false).run (h := h) s₃).2
        rw [h₅] at hback
        cases hback
        dsimp only
        rw [h₅]
        split at h₆
        · rename_i hretry
          obtain ⟨hpass, hkeep⟩ := recordAttempts_out h₆
          exact ⟨fun hp => hpass hp.2, fun hp => hkeep fun hp' => hp ⟨hretry, hp'⟩⟩
        · rename_i hretry
          cases h₆
          exact ⟨fun hp => absurd hp.1 hretry, fun _ => rfl⟩

theorem refused_join {cert : CertName} {ballot : BbBallot} {hash : Hash} {config : BbConfig}
    {resp : BclResponse}
    (hrun : run h (ballotdDispatch ⟨false⟩ ⟨.join, cert, eid, ballot, hash, config⟩) s =
      (.ok (resp, ctx), s')) (hst : resp.status ≠ none) :
    (∀ e s₁, run h (joinGates ⟨false⟩ eid cert) s = (.ok e, s₁) → e.id.val = []) ↔
      resp.election.id.val = [] := by
  obtain ⟨r, s₁, h₁, h₂⟩ := run_bind_ok hrun
  rw [run_attempt, bbJoin_eq] at h₁
  rcases hgates : run h (joinGates ⟨false⟩ eid cert) s with ⟨e | e, s₂⟩
  · rw [run_bind_of_error hgates] at h₁
    cases h₁
    cases h₂
    exact ⟨fun _ => rfl, fun _ e s₁ hok => by cases hok⟩
  · rw [run_bind_of_ok hgates] at h₁
    have hresp : resp.election = e := by
      obtain ⟨prior, s₃, h₃⟩ : ∃ prior s₃,
          run h (joinPrior ⟨false⟩ eid cert e) s₂ = (.ok (e, prior), s₃) :=
        ⟨_, _, run_bind_of_ok (run_attempt _ _)⟩
      rw [h₃] at h₁
      cases h₁
      cases prior with
      | error c =>
        cases h₂
        rfl
      | ok v =>
        cases h₂
        exact absurd rfl hst
    rw [hresp]
    constructor
    · exact fun hall => hall e s₂ rfl
    · rintro hid _ _ ⟨⟩
      exact hid

end Runs

/-- For every request, every clock and whatever the store replies to each
statement: the bytes that are sent for a request that is refused carry no
receipt hash, title, option, prior ballot, tally, ballot row or option found
exactly if it is refused before the election or a receipt was handed out. -/
theorem refused_silent_iff {σ : Type} (h : (op : Op) → σ → Reply op × σ) (s : σ) (now : Tm)
    (req : BclRequest) {ctx : BbCtx} {s' : σ}
    (hrun : run h (ballotdDispatch ⟨false⟩ req) s = (.ok (resp, ctx), s'))
    (hst : resp.status ≠ none)
    (henc : bclEncodeResponse now req.op resp sessionMaxFrame = some out) :
    ¬ Reveals out ↔ RefusedEarly h s req := by
  obtain ⟨resp', hres, hshape, -, -⟩ := dispatched h s req
  rw [hrun] at hres
  cases hres
  rw [reveals_iff hshape henc]
  obtain ⟨op, cert, eid, ballot, hash, config⟩ := req
  cases op with
  | join =>
    rw [telling_join_iff, not_not]
    exact (refused_join hrun hst).symm
  | cast | update =>
    rw [telling_record_iff (by simp [Records]), not_not]
    obtain ⟨⟨r, receipt, ctx⟩, s₁, h₁, h₂⟩ := run_bind_ok hrun
    cases h₂
    obtain ⟨hpass, hkeep⟩ := recordAttempts_out h₁
    constructor
    · intro hempty hp
      obtain ⟨v, rfl⟩ := hpass hp
      exact (isHash_receiptHash ballot.nonce v).ne hempty
    · intro hp
      rw [hkeep hp]
      rfl
  | create | results | adminResults | check | adminCheck =>
    refine iff_of_true ?_ trivial
    obtain ⟨r, s₁, -, h₂⟩ := run_bind_ok hrun
    cases r with
    | ok x =>
      cases h₂
      exact absurd rfl hst
    | error e =>
      cases h₂
      exact not_telling_of _ _
  | adminNextId =>
    obtain ⟨id, s₁, -, h₂⟩ := run_bind_ok hrun
    cases h₂
    exact absurd rfl hst
  | opening | closing | publish =>
    refine iff_of_true ?_ trivial
    rintro ⟨kv, hkv, -⟩
    cases hkv

/-! ## A small election -/

theorem shaped_answer (env : Env) {d : Daemon} (hd : d.ctx = ⟨false⟩) (req : BclRequest) :
    Shaped (answer env d req).1 := by
  obtain ⟨resp, hres, hshape, -, -⟩ := dispatched (handle env) d.world req
  have hrun : run (handle env) (ballotdDispatch ⟨false⟩ req) d.world =
      (.ok (resp, ⟨false⟩), _) := Prod.ext hres rfl
  rw [answer, hd, hrun]
  exact hshape

theorem reveals_of_telling (now : Tm) (hs : Shaped resp) (hst : resp.status ≠ some .retry)
    (hclean : Clean op resp) (htell : ∃ kv ∈ responseKvs op resp, Telling kv) :
    ∃ out, bclEncodeResponse now op resp sessionMaxFrame = some out ∧ Reveals out := by
  obtain ⟨out, -, -, henc, -⟩ := (answered_iff now op hs).mpr ⟨hst, hclean⟩
  exact ⟨out, henc, (reveals_iff hs henc).mpr htell⟩

/-- The store does not answer any more from some call on. -/
def lostEnv (k : Nat) : Env :=
  { pollSocketEnv with fate := fun n => if n < k then .answer else .lost false false }

def pollStart : List BclRequest := [pollCreate, pollRequest .opening]

def annJoin : BclRequest := { pollRequest .join with certName := pollAnn }

def strangerJoin : BclRequest := { pollRequest .join with certName := CStr.copy _ (bytes "eve") }

/-- A stranger's JOIN is refused without a word about the election. -/
theorem stranger_learns_nothing :
    (responseTo pollSocketEnv pollStart strangerJoin).status = some .notEligible ∧
      ∃ out, bclEncodeResponse ⟨0, 1, 0, 126, 12, 0, 0⟩ .join
          (responseTo pollSocketEnv pollStart strangerJoin) sessionMaxFrame = some out ∧
        ¬ Reveals out := by
  have hfacts : (runRequests pollSocketEnv pollStart).ctx = ⟨false⟩ ∧
      (responseTo pollSocketEnv pollStart strangerJoin).status = some .notEligible ∧
      (run (handle pollSocketEnv) (joinGates ⟨false⟩ pollId strangerJoin.certName)
        (runRequests pollSocketEnv pollStart).world).1.isOk = false ∧
      ∀ t ∈ responseTexts .join (responseTo pollSocketEnv pollStart strangerJoin),
        breaksLine t = false := by decide +kernel
  obtain ⟨hctx, hst, hgates, hclean⟩ := hfacts
  obtain ⟨out, -, -, henc, -⟩ := (answered_iff ⟨0, 1, 0, 126, 12, 0, 0⟩ .join
    (shaped_answer pollSocketEnv hctx strangerJoin)).mpr ⟨by rw [hst]; decide, hclean⟩
  refine ⟨hst, out, henc, ?_⟩
  obtain ⟨resp, hres, -⟩ := dispatched (handle pollSocketEnv)
    (runRequests pollSocketEnv pollStart).world strangerJoin
  have hrun : run (handle pollSocketEnv) (ballotdDispatch ⟨false⟩ strangerJoin)
      (runRequests pollSocketEnv pollStart).world = (.ok (resp, ⟨false⟩), _) := Prod.ext hres rfl
  have hresp : (answer pollSocketEnv (runRequests pollSocketEnv pollStart) strangerJoin).1 =
      resp := by
    rw [answer, hctx, hrun]
  rw [responseTo, hresp] at hst
  rw [hresp] at henc
  refine (refused_silent_iff _ _ ⟨0, 1, 0, 126, 12, 0, 0⟩ strangerJoin hrun (by rw [hst]; simp)
    henc).mpr fun e s' hok => ?_
  have hpoll : strangerJoin.electionId = pollId := rfl
  rw [hpoll] at hok
  rw [hok] at hgates
  cases hgates

/-- Ann's JOIN is refused because the look-up of a prior ballot fails, and
tells about the election; Ann's ballot is refused because the store is lost
before the first write, and comes with a receipt. -/
theorem refused_requests_reveal :
    ((responseTo (lostEnv 24) pollStart annJoin).status = some .db ∧
      ∃ out, bclEncodeResponse ⟨0, 1, 0, 126, 12, 0, 0⟩ .join
          (responseTo (lostEnv 24) pollStart annJoin) sessionMaxFrame = some out ∧
        Reveals out) ∧
    (responseTo (lostEnv 27) pollStart (pollCast pollAnn "n1" 1)).status = some .db ∧
      ∃ out, bclEncodeResponse ⟨0, 1, 0, 126, 12, 0, 0⟩ .cast
          (responseTo (lostEnv 27) pollStart (pollCast pollAnn "n1" 1)) sessionMaxFrame = some out ∧
        Reveals out := by
  have hjoin : (runRequests (lostEnv 24) pollStart).ctx = ⟨false⟩ ∧
      (responseTo (lostEnv 24) pollStart annJoin).status = some .db ∧
      (responseTo (lostEnv 24) pollStart annJoin).election.id.val ≠ [] ∧
      ∀ t ∈ responseTexts .join (responseTo (lostEnv 24) pollStart annJoin),
        breaksLine t = false := by decide +kernel
  have hcast : (runRequests (lostEnv 27) pollStart).ctx = ⟨false⟩ ∧
      (responseTo (lostEnv 27) pollStart (pollCast pollAnn "n1" 1)).status = some .db ∧
      (responseTo (lostEnv 27) pollStart (pollCast pollAnn "n1" 1)).receipt.hash.val ≠ [] ∧
      ∀ t ∈ responseTexts .cast (responseTo (lostEnv 27) pollStart (pollCast pollAnn "n1" 1)),
        breaksLine t = false := by decide +kernel
  obtain ⟨hctx, hst, hid, hclean⟩ := hjoin
  obtain ⟨hctx', hst', hhash, hclean'⟩ := hcast
  exact ⟨⟨hst, reveals_of_telling _ (shaped_answer _ hctx _) (by rw [hst]; decide) hclean
      ((telling_join_iff _).mpr hid)⟩,
    hst', reveals_of_telling _ (shaped_answer _ hctx' _) (by rw [hst']; decide) hclean'
      ((telling_record_iff (.inl rfl) _).mpr hhash)⟩

end Corestack.Ballotd
