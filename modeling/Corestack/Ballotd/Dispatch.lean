import Corestack.Client.Message
import Corestack.Brain.Replay
import Corestack.Brain.Kept
import Corestack.Brain.Paired

/-!
# The dispatcher (`dispatch.c`)

`ballotd_dispatch` turns one request into one call of libballotbrain and
the call's results into a response. A request that does not mention the end
line of an answer is served in step, and then it changes the tables only as
the call behind it does.
-/

namespace Corestack.Ballotd

open Lib Db Brain Client Prog

def resultsResponse (eid : Id) (results : BbResults) : BclResponse :=
  { (default : BclResponse) with
    election := { (default : BbElection) with id := eid, title := results.title }
    optionCount := results.optionCount
    tally := results.tally
    options := results.options
    hashes := results.hashes }

def statusOf : Except BbErr Unit → BclResponse
  | .ok () => .of none
  | .error e => .of (some e)

/-- The response and the context afterwards. -/
def ballotdDispatch (ctx : BbCtx) (req : BclRequest) : BrainM (BclResponse × BbCtx) :=
  match req.op with
  | .create => do
      match ← (bbCreateElection ctx req.config req.electionId).attempt with
      | .ok id =>
        return ({ (default : BclResponse) with
          election := { (default : BbElection) with id := id } }, ctx)
      | .error e => return (.of (some e), ctx)
  | .adminNextId => do
      let id ← bbAllocId
      return ({ (default : BclResponse) with
        election := { (default : BbElection) with id := id } }, ctx)
  | .opening => do
      let r ← (bbTransitionState ctx req.electionId .opened).attempt
      return (statusOf r, ctx)
  | .closing => do
      let r ← (bbTransitionState ctx req.electionId .closed).attempt
      return (statusOf r, ctx)
  | .publish => do
      let r ← (bbPublishResults ctx req.electionId).attempt
      return (statusOf r, ctx)
  | .join => do
      match ← (bbJoin ctx req.electionId req.certName).attempt with
      | .error e => return (.of (some e), ctx)
      | .ok (election, .error e) => return ({ BclResponse.of (some e) with election }, ctx)
      | .ok (election, .ok prior) =>
        return ({ (default : BclResponse) with
          election, hasPriorBallot := prior.isSome, priorBallotVersion := prior.getD 0 }, ctx)
  | .cast | .update => do
      let (r, receipt, ctx) ← bbRecordBallot ctx req.electionId req.ballot default
      return ({ statusOf (r.map fun _ => ()) with receipt }, ctx)
  | .results => do
      match ← (bbGetResults ctx req.electionId req.certName).attempt with
      | .ok results => return (resultsResponse req.electionId results, ctx)
      | .error e => return (.of (some e), ctx)
  | .adminResults => do
      match ← (bbGetResultsAdmin ctx req.electionId).attempt with
      | .ok results => return (resultsResponse req.electionId results, ctx)
      | .error e => return (.of (some e), ctx)
  | .check | .adminCheck => do
      match ← (bbLookupHash ctx req.electionId req.hash).attempt with
      | .ok (row, name) =>
        return ({ (default : BclResponse) with
          found := true, foundOption := row.optionIndex, foundOptionName := name }, ctx)
      | .error e => return (.of (some e), ctx)

/-- Serve one request. Dispatching itself does not fail. -/
def answer (env : Env) (d : Daemon) (req : BclRequest) : BclResponse × Daemon :=
  match run (handle env) (ballotdDispatch d.ctx req) d.world with
  | (.ok (resp, ctx), w) => (resp, ⟨ctx, w⟩)
  | (.error e, w) => (.of (some e), ⟨d.ctx, w⟩)

/-- The state after requests served one after the other, from empty tables. -/
def runRequests (env : Env) (reqs : List BclRequest) : Daemon :=
  reqs.foldl (fun d req => (answer env d req).2) .start

theorem runRequests_concat (env : Env) (reqs : List BclRequest) (req : BclRequest) :
    runRequests env (reqs ++ [req]) = (answer env (runRequests env reqs) req).2 := by
  rw [runRequests, List.foldl_append]
  rfl

/-- No ballot has a nonce, and no roll a name, that is the end line of an
answer. -/
structure Plain (req : BclRequest) : Prop where
  nonce : req.op = .cast ∨ req.op = .update → req.ballot.nonce.val ≠ dbMarkOk
  roll : req.op = .create → ∀ cert ∈ req.config.eligible, cert.val ≠ dbMarkOk

/-- The call behind a request that may write. -/
def callOf (req : BclRequest) : Option Call :=
  match req.op with
  | .create => some (.create req.config req.electionId)
  | .opening => some (.transition req.electionId .opened)
  | .closing => some (.transition req.electionId .closed)
  | .publish => some (.transition req.electionId .published)
  | .cast | .update => some (.record req.electionId req.ballot)
  | .adminNextId | .join | .results | .adminResults | .check | .adminCheck => none

/-- A request that may write changes the state as its call does, so what is
proved of calls holds of requests; all that `ballotd_dispatch` adds is the
response. -/
theorem answer_call {env : Env} {d : Daemon} {req : BclRequest} {call : Call}
    (hreq : callOf req = some call) : (answer env d req).2 = (perform env d call).2 := by
  obtain ⟨op, cert, eid, ballot, hash, config⟩ := req
  cases op with
  | create =>
    cases hreq
    simp only [answer, ballotdDispatch, perform, run_bind, run_attempt]
    cases (run (handle env) (bbCreateElection d.ctx config eid) d.world).1 <;> rfl
  | opening | closing | publish =>
    cases hreq
    simp only [answer, ballotdDispatch, bbPublishResults, perform, run_bind,
      run_attempt]
    rfl
  | cast | update =>
    cases hreq
    simp only [answer, ballotdDispatch, perform, run_bind]
    rcases run (handle env) (bbRecordBallot d.ctx eid ballot default) d.world with
      ⟨_ | ⟨r, receipt, ctx⟩, w⟩ <;> rfl
  | adminNextId | join | results | adminResults | check | adminCheck => cases hreq

/-- The commands behind a request. -/
inductive MayRun (req : BclRequest) : BbDbCmd → Prop
  | call {call : Call} {cmd : BbDbCmd} (hcall : callOf req = some call) (hcmd : call.MayRun cmd) :
      MayRun req cmd
  | election : MayRun req (.getElection req.electionId)
  | prior : MayRun req (.getPriorBallot req.electionId req.certName)
  | tally : MayRun req (.getTally req.electionId)
  | hashes : MayRun req (.getHashes req.electionId)
  | find : MayRun req (.findHash req.electionId req.hash)

theorem MayRun.read {req : BclRequest} {cmd : BbDbCmd} (h : MayRun req cmd)
    (hreq : callOf req = none) : opIsWrite cmd = false := by
  cases h with
  | call hcall => cases hreq.symm.trans hcall
  | _ => rfl

abbrev Records (op : BclOp) : Prop := op = .cast ∨ op = .update

theorem records_of_record {req : BclRequest} {eid : Id} {b : BbBallot}
    (h : callOf req = some (.record eid b)) : Records req.op := by
  unfold callOf at h
  cases hop : req.op <;> simp [Records, hop] at h ⊢

/-- Dispatching a request has a property if its commands have it, or for a
ballot the recording. -/
theorem walk_dispatch {P : ∀ {α : Type}, BrainM α → Prop} (hP : FullWalk P) {ctx : BbCtx}
    {req : BclRequest} (halloc : P bbAllocId)
    (hrun : ¬ Records req.op → ∀ cmd, MayRun req cmd → P (dbExec ctx cmd))
    (hrecord : Records req.op → P (bbRecordBallot ctx req.electionId req.ballot default)) :
    P (ballotdDispatch ctx req) := by
  by_cases hballot : Records req.op
  · have hrecord := hrecord hballot
    rcases hballot with hop | hop <;> simp only [ballotdDispatch, hop]
    all_goals exact hP.bind hrecord fun _ => hP.ret _
  have hrun := hrun hballot
  have hcall : ∀ {call}, callOf req = some call → ∀ cmd, call.MayRun cmd → P (dbExec ctx cmd) :=
    fun h cmd hcmd => hrun cmd (.call h hcmd)
  have hload := hrun _ .election
  cases hop : req.op <;> simp only [ballotdDispatch, hop]
  case cast | update => exact absurd (by simp [Records, hop]) hballot
  case create =>
    have hcreate := @hcall (.create req.config req.electionId) (by rw [callOf, hop])
    refine hP.bind_attempt (hP.create hload halloc fun _ => hcreate _ .insert) fun r => ?_
    split <;> exact hP.ret _
  case adminNextId => exact hP.bind halloc fun _ => hP.ret _
  case opening | closing | publish =>
    exact hP.bind_attempt (hP.transition hload (hcall (by rw [callOf, hop]) _ .update))
      fun _ => hP.ret _
  case join =>
    refine hP.bind_attempt (hP.join hload (hrun _ .prior)) fun r => ?_
    split <;> exact hP.ret _
  case results =>
    refine hP.bind_attempt (hP.results hload (hrun _ .tally) (hrun _ .hashes) _) fun r => ?_
    split <;> exact hP.ret _
  case adminResults =>
    refine hP.bind_attempt (hP.resultsAdmin hload (hrun _ .tally) (hrun _ .hashes)) fun r => ?_
    split <;> exact hP.ret _
  case check | adminCheck =>
    refine hP.bind_attempt (hP.lookupHash hload (hrun _ .find)) fun r => ?_
    split <;> exact hP.ret _

/-! ## Requests served in step -/

section InStep

variable {env : Env} {d : Daemon} {req : BclRequest}

/-- All but ballots are served in step, whatever is in the tables: each of
their commands has a connection of its own, and on a fresh one no reply is
left over. -/
theorem alone_dispatch (env : Env) (hop : ¬ Records req.op) :
    Alone env (ballotdDispatch ⟨false⟩ req) :=
  walk_dispatch (alone_walk env) (alone_allocId env) (fun _ _ _ => alone_dbExec env _)
    fun h => absurd h hop

theorem not_records (hreq : callOf req = none) : ¬ Records req.op := by
  rintro (hop | hop) <;> simp [callOf, hop] at hreq

theorem dispatch_paired (env : Env) {w : World} (hs : w.session = none) (hT : Legible w.tables)
    (hreq : Plain req) :
    run (handle env) (ballotdDispatch ⟨false⟩ req) w =
      run (handle env.paired) (ballotdDispatch ⟨false⟩ req) w := by
  by_cases hop : Records req.op
  · have hrecord := bbRecordBallot_paired env hs hT req.electionId (hreq.nonce hop) default
    rcases hop with hop | hop <;> simp only [ballotdDispatch, hop, run_bind, hrecord] <;> rfl
  · exact (alone_dispatch env hop w hs).1

theorem dispatch_ctx (hreq : callOf req = none) (ctx : BbCtx) {w w' : World} {resp : BclResponse}
    {ctx' : BbCtx} (hrun : run (handle env) (ballotdDispatch ctx req) w =
      (.ok (resp, ctx'), w')) : ctx' = ctx := by
  obtain ⟨op, cert, eid, ballot, hash, config⟩ := req
  cases op with
  | create | opening | closing | publish | cast | update => cases hreq
  | adminNextId =>
    obtain ⟨_, _, _, h⟩ := run_bind_ok hrun
    cases h
    rfl
  | join | results | adminResults | check | adminCheck =>
    obtain ⟨_, _, _, h⟩ := run_bind_ok hrun
    split at h <;> cases h <;> rfl

/-- Whatever is answered, a request leaves no connection and no transaction,
so the next one starts on a connection of its own. -/
theorem answer_idle (env : Env) (hd : d.Idle) (req : BclRequest) : (answer env d req).2.Idle := by
  cases hcall : callOf req with
  | some call =>
    rw [answer_call hcall]
    exact perform_idle env hd call
  | none =>
    obtain ⟨ctx, w⟩ := d
    obtain ⟨rfl, hs⟩ := hd
    have hs' := (alone_dispatch env (not_records hcall) w hs).2
    unfold answer
    rcases hrun : run (handle env) (ballotdDispatch ⟨false⟩ req) w with
      ⟨e | ⟨resp, ctx'⟩, w'⟩
    · rw [hrun] at hs'
      exact ⟨rfl, hs'⟩
    · rw [hrun] at hs'
      exact ⟨dispatch_ctx hcall ⟨false⟩ hrun, hs'⟩

theorem runRequests_idle (env : Env) (reqs : List BclRequest) : (runRequests env reqs).Idle := by
  induction reqs using List.reverseRecOn with
  | nil => exact ⟨rfl, rfl⟩
  | append_singleton reqs req ih =>
    rw [runRequests_concat]
    exact answer_idle env ih req

theorem Plain.plainRoll (hreq : Plain req) {call : Call} (hcall : callOf req = some call) :
    call.PlainRoll := by
  obtain ⟨op, cert, eid, ballot, hash, config⟩ := req
  cases op <;> cases hcall
  case create => exact hreq.roll rfl
  all_goals exact fun _ h => h.elim

end InStep

end Corestack.Ballotd
