import Mathlib.Algebra.BigOperators.Fin
import Corestack.Ballotd.Dispatch

/-!
# Published results are final and consistent

Over every run of requests: an election moves one state at a time, nothing
is recorded in it once it is closed, no result is told before it is
published, and all results told afterwards are one and the same answer, in
which the tally counts the ballots listed.
-/

namespace Corestack.Ballotd

open List Lib Db Brain Client Prog

/-! ## One request -/

section Request

variable {env : Env} {d : Daemon} {req : BclRequest}

theorem dispatch_unchanged (hk : env.keepsUnread = false) (hreq : callOf req = none) (T : Tables) :
    Agree (handle env) (handle env) (fun w => w.session = none ∧ w.tables = T)
      (ballotdDispatch ⟨false⟩ req) := by
  refine walk_dispatch (agree_walk fun _ _ hw => ⟨rfl, hw⟩) (fun w hw => ?_)
    (fun _ cmd hcmd w hw => ?_) fun h => absurd h (not_records hreq)
  · have hchoose : chooseId ⟨false⟩ (CStr.copy _ []) = bbAllocId := if_neg (by decide)
    rw [← hchoose]
    obtain ⟨hs', hT, -⟩ := chooseId_outcome hk hw.1 rfl
    exact ⟨rfl, hs', hT.trans hw.2⟩
  · obtain ⟨hs', hT, -⟩ := dbExec_read hk hw.1 (hcmd.read hreq) rfl
    exact ⟨rfl, hs', hT.trans hw.2⟩

/-- A request that reads is answered as on a connection in step, and leaves
the tables alone. -/
theorem answer_read (hd : d.Idle) (hreq : callOf req = none) :
    answer env d req = answer env.paired d req ∧
      (answer env d req).2.world.tables = d.world.tables := by
  obtain ⟨ctx, w⟩ := d
  obtain ⟨rfl, hs⟩ := hd
  have heq : answer env ⟨⟨false⟩, w⟩ req = answer env.paired ⟨⟨false⟩, w⟩ req := by
    unfold answer
    rw [(alone_dispatch env (not_records hreq) w hs).1]
  refine ⟨heq, ?_⟩
  rw [heq]
  have hT := (@dispatch_unchanged env.paired req rfl hreq w.tables w ⟨hs, rfl⟩).2.2
  unfold answer
  rcases hrun : run (handle env.paired) (ballotdDispatch ⟨false⟩ req) w with
    ⟨e | ⟨resp, ctx'⟩, w'⟩
  all_goals
    rw [hrun] at hT
    exact hT

/-- What a request does to the tables, in step: nothing, or the change of
the call behind it. -/
theorem answer_cases (hk : env.keepsUnread = false) (hd : d.Idle) (req : BclRequest) :
    (answer env d req).2.world.tables = d.world.tables ∨
      ∃ call evs, Change env.chatter d.world.tables call evs (answer env d req).2.world.tables := by
  cases hcall : callOf req with
  | some call =>
    rw [answer_call hcall]
    obtain ⟨-, ⟨-, hT⟩ | hch | ⟨-, -, evs, hch⟩⟩ := perform_cases hk hd call
    · exact .inl hT
    all_goals exact .inr ⟨_, _, hch⟩
  | none => exact .inl (answer_read hd hcall).2

end Request

/-! ## The answer to RESULTS and ADMIN_RESULTS -/

section Answer

variable {env : Env} {d : Daemon} {req : BclRequest} {w w' : World} {eid : Id}

theorem loadElection_ok (hk : env.keepsUnread = false) (hs : w.session = none) {e : BbElection}
    (hrun : run (handle env) (loadElection ⟨false⟩ eid) w = (.ok e, w')) :
    w'.session = none ∧ w'.tables = w.tables ∧ ∃ res n n',
      run (idealHandle env.chatter) (runOp (.getElection eid)) ⟨w.tables, n⟩ =
        (.ok res, ⟨w.tables, n'⟩) ∧ res.found = true ∧ res.election = e := by
  obtain ⟨res, w₁, h₁, h₂⟩ := run_bind_ok hrun
  obtain ⟨hs', hT, hideal⟩ := dbExec_read hk hs rfl h₁
  obtain ⟨n, n', hread⟩ := hideal res rfl
  split at h₂
  · rename_i hfound
    cases h₂
    exact ⟨hs', hT, res, n, n', hread, hfound, rfl⟩
  · cases h₂

theorem fetchResults_ok (hk : env.keepsUnread = false) (hs : w.session = none)
    (hT : Kept w.tables) {r : ElectionRow} {st : BbState} {res : BbDbResult} {out : BbResults}
    (hread : ReadAs w.tables eid r st res)
    (hrun : run (handle env) (fetchResults ⟨false⟩ eid res.election) w = (.ok out, w')) :
    out = w.tables.resultsOf eid r := by
  obtain ⟨tally, w₁, h₁, h₂⟩ := run_bind_ok hrun
  obtain ⟨hashes, w₂, h₃, h₄⟩ := run_bind_ok h₂
  cases h₄
  obtain ⟨hs₁, hT₁, htally⟩ := dbExec_read hk hs rfl h₁
  obtain ⟨-, -, hhashes⟩ := dbExec_read hk hs₁ rfl h₃
  obtain ⟨n, n', hrun₁⟩ := htally tally rfl
  obtain ⟨m, m', hrun₂⟩ := hhashes hashes rfl
  rw [hT₁] at hrun₂
  have hlen := hT.length_liveOf_le eid
  have hcount : ∀ i, tally.tally i = (w.tables.liveOf eid).countP fun r =>
      r.optionIndex = (i : Int) := fun i =>
    tally_eq hrun₁ (fun r hr => (hT.filedLive eid r hr).option) (hlen.trans (by decide)) i
  have hlist := hashes_eq hrun₂ (hT.filedLive eid) hlen
  simp only [Tables.resultsOf, hread.title, hread.optionCount, hread.options, hcount, hlist]
  rw [take_of_length_le (by rw [length_map]; exact hlen)]

/-- The two operations tell the results of the tables, of an election that
is published, or nothing but an error. -/
theorem answer_results (hk : env.keepsUnread = false) (hd : d.Idle) (hT : Kept d.world.tables)
    (hids : DistinctIds d.world.tables) (hop : req.op = .results ∨ req.op = .adminResults) :
    (∃ e, (answer env d req).1 = .of (some e)) ∨
      ∃ r, d.world.tables.electionOf req.electionId = [r] ∧ Filed r .published ∧
        (answer env d req).1 =
          resultsResponse req.electionId (d.world.tables.resultsOf req.electionId r) := by
  obtain ⟨ctx, w⟩ := d
  obtain ⟨rfl, hs⟩ := hd
  -- both handlers read the election, check its state and fetch the results
  have hfetch : ∀ {e : BbElection} {w₁ w₂ : World} {out : BbResults},
      run (handle env) (loadElection ⟨false⟩ req.electionId) w = (.ok e, w₁) →
      e.state = .published →
      run (handle env) (fetchResults ⟨false⟩ req.electionId e) w₁ = (.ok out, w₂) →
      ∃ r, w.tables.electionOf req.electionId = [r] ∧ Filed r .published ∧
        out = w.tables.resultsOf req.electionId r := by
    intro e w₁ w₂ out hload hpub hrun
    obtain ⟨hs₁, hT₁, res, n, n', hread, hfound, rfl⟩ := loadElection_ok hk hs hload
    obtain ⟨r, st, hrow, hr, has⟩ := hT.read hids hread hfound
    rw [has.state] at hpub
    subst hpub
    have hout := fetchResults_ok hk hs₁ (hT₁ ▸ hT) (hT₁ ▸ has) hrun
    rw [hT₁] at hout
    exact ⟨r, hrow, hr, hout⟩
  obtain ⟨op, cert, eid, ballot, hash, config⟩ := req
  rcases hop with rfl | rfl
  · rcases hrun : run (handle env) (bbGetResults ⟨false⟩ eid cert) w with ⟨e | out, w'⟩
    · refine .inl ⟨e, ?_⟩
      simp only [answer, ballotdDispatch, run_bind, run_attempt, hrun]
      rfl
    · obtain ⟨e, w₁, hload, h₂⟩ := run_bind_ok hrun
      split at h₂
      · cases h₂
      · rename_i hpub
        split at h₂
        · cases h₂
        · obtain ⟨r, hrow, hr, rfl⟩ := hfetch hload (not_not.mp hpub) h₂
          refine .inr ⟨r, hrow, hr, ?_⟩
          simp only [answer, ballotdDispatch, run_bind, run_attempt, hrun]
          rfl
  · rcases hrun : run (handle env) (bbGetResultsAdmin ⟨false⟩ eid) w with ⟨e | out, w'⟩
    · refine .inl ⟨e, ?_⟩
      simp only [answer, ballotdDispatch, run_bind, run_attempt, hrun]
      rfl
    · obtain ⟨e, w₁, hload, h₂⟩ := run_bind_ok hrun
      split at h₂
      · cases h₂
      · rename_i hpub
        obtain ⟨r, hrow, hr, rfl⟩ := hfetch hload (not_not.mp hpub) h₂
        refine .inr ⟨r, hrow, hr, ?_⟩
        simp only [answer, ballotdDispatch, run_bind, run_attempt, hrun]
        rfl

end Answer

/-! ## Tally and list agree -/

theorem sum_countP {α : Type} {n : Nat} {f : α → Int} {L : List α}
    (hf : ∀ x ∈ L, 0 ≤ f x ∧ f x < n) :
    ∑ i : Fin n, L.countP (fun x => f x = (i : Int)) = L.length := by
  induction L with
  | nil => simp
  | cons x L ih =>
    obtain ⟨h0, hlt⟩ := hf x (by simp)
    have hone : ∑ i : Fin n, (if f x = (i : Int) then 1 else 0) = 1 := by
      rw [Finset.sum_eq_single ⟨(f x).toNat, by omega⟩]
      · simp [h0]
      · intro i _ hi
        refine if_neg fun hfx => hi (Fin.ext ?_)
        simp only
        omega
      · simp
    simp only [countP_cons, Finset.sum_add_distrib, decide_eq_true_eq, hone,
      ih fun y hy => hf y (by simp [hy]), length_cons]

section Consistent

variable {T : Tables}

theorem tally_listed (hT : Kept T) (eid : Id) (r : ElectionRow) (i : Fin bbMaxOptions) :
    (T.resultsOf eid r).tally i =
      (T.resultsOf eid r).hashes.countP fun row => row.optionIndex = (i : Int) := by
  have hlisted : (T.resultsOf eid r).hashes.countP (fun row => row.optionIndex = (i : Int)) =
      (T.liveOf eid).countP fun row => row.optionIndex = (i : Int) := countP_map
  rw [hlisted]
  simp only [Tables.resultsOf]
  split
  · rfl
  · refine (countP_eq_zero.mpr fun row hrow => ?_).symm
    have := (hT.live_option hrow).2
    rw [decide_eq_true_eq]
    omega

theorem sum_tally (hT : Kept T) (eid : Id) (r : ElectionRow) :
    ∑ i, (T.resultsOf eid r).tally i = (T.resultsOf eid r).hashes.length := by
  simp only [tally_listed hT]
  refine sum_countP fun row hrow => ?_
  obtain ⟨b, hb, rfl⟩ := mem_map.mp hrow
  obtain ⟨h0, hlt⟩ := hT.live_option hb
  have hle := hT.options_le eid
  exact ⟨h0, lt_of_lt_of_le hlt (by exact_mod_cast hle)⟩

end Consistent

/-! ## Whole runs -/

/-- RESULTS or ADMIN_RESULTS for an election. -/
def AsksResults (req : BclRequest) (eid : Id) : Prop :=
  (req.op = .results ∨ req.op = .adminResults) ∧ req.electionId = eid

/-- The tables after the first requests of a run. -/
abbrev tablesAfter (env : Env) (reqs : List BclRequest) : Tables :=
  (runRequests env reqs).world.tables

/-- The response to a request that comes after others. -/
abbrev responseTo (env : Env) (reqs : List BclRequest) (req : BclRequest) : BclResponse :=
  (answer env (runRequests env reqs) req).1

section Run

variable {env : Env} {reqs : List BclRequest}

/-- Plain requests, and never two elections with one id. -/
structure Orderly (env : Env) (reqs : List BclRequest) : Prop where
  plain : ∀ req ∈ reqs, Plain req
  ids : ∀ pre, pre <+: reqs → DistinctIds (tablesAfter env pre)

variable {pre : List BclRequest}

theorem Orderly.of_initial (h : Orderly env reqs) (hpre : pre <+: reqs) : Orderly env pre :=
  ⟨fun req hreq => h.plain req (hpre.subset hreq), fun p hp => h.ids p (hp.trans hpre)⟩

/-- What holds between two requests. -/
structure Steady (d : Daemon) : Prop where
  idle : d.Idle
  legible : Legible d.world.tables
  kept : Kept d.world.tables

theorem answer_paired {d : Daemon} (hd : d.Idle) (hT : Legible d.world.tables) {req : BclRequest}
    (hreq : Plain req) :
    answer env d req = answer env.paired d req ∧ Legible (answer env d req).2.world.tables := by
  refine ⟨?_, ?_⟩
  · obtain ⟨ctx, w⟩ := d
    obtain ⟨rfl, hs⟩ := hd
    unfold answer
    rw [dispatch_paired env hs hT hreq]
  · cases hcall : callOf req with
    | none =>
      rw [(answer_read hd hcall).2]
      exact hT
    | some call =>
      rw [answer_call hcall]
      exact perform_legible env hd hT (hreq.plainRoll hcall)

variable {req : BclRequest}

/-- What one request does in a steady state: nothing, or one change of the
tables, and the state is steady again. -/
theorem Steady.step {d : Daemon} (hd : Steady d) (hreq : Plain req)
    (hids : DistinctIds d.world.tables) (hids' : DistinctIds (answer env d req).2.world.tables) :
    Steady (answer env d req).2 ∧
      ((answer env d req).2.world.tables = d.world.tables ∨
        Advance d.world.tables (answer env d req).2.world.tables) := by
  obtain ⟨heq, hleg⟩ := @answer_paired env d hd.idle hd.legible req hreq
  have hidle := answer_idle env hd.idle req
  have hcases := @answer_cases env.paired d rfl hd.idle req
  rw [← heq] at hcases
  rcases hcases with hT | ⟨call, evs, hch⟩
  · exact ⟨⟨hidle, hleg, hT ▸ hd.kept⟩, .inl hT⟩
  · have hadv := hch.advance hd.kept hids hids'
    exact ⟨⟨hidle, hleg, hadv.kept hd.kept⟩, .inr hadv⟩

theorem Orderly.steady (h : Orderly env reqs) : Steady (runRequests env reqs) := by
  induction reqs using List.reverseRecOn with
  | nil => exact ⟨⟨rfl, rfl⟩, legible_empty, kept_empty⟩
  | append_singleton reqs req ih =>
    have hpre := prefix_append reqs [req]
    rw [runRequests_concat]
    refine ((ih (h.of_initial hpre)).step (h.plain req (by simp)) (h.ids _ hpre) ?_).1
    rw [← runRequests_concat]
    exact h.ids _ prefix_rfl

theorem Orderly.advance (h : Orderly env (reqs ++ [req])) :
    tablesAfter env (reqs ++ [req]) = tablesAfter env reqs ∨
      Advance (tablesAfter env reqs) (tablesAfter env (reqs ++ [req])) := by
  have hpre := prefix_append reqs [req]
  have hids := h.ids _ prefix_rfl
  rw [tablesAfter, runRequests_concat] at hids ⊢
  exact ((h.of_initial hpre).steady.step (h.plain req (by simp)) (h.ids _ hpre) hids).2

variable {post : List BclRequest} {eid : Id}

theorem Orderly.over_stands (h : Orderly env (pre ++ post))
    (hover : (tablesAfter env pre).Over eid) :
    (tablesAfter env (pre ++ post)).Over eid ∧
      (tablesAfter env (pre ++ post)).records eid = (tablesAfter env pre).records eid ∧
      (tablesAfter env (pre ++ post)).optionsOf eid = (tablesAfter env pre).optionsOf eid := by
  induction post using List.reverseRecOn with
  | nil =>
    rw [append_nil]
    exact ⟨hover, rfl, rfl⟩
  | append_singleton post req ih =>
    rw [← append_assoc] at h ⊢
    obtain ⟨hover', hrec, hopt⟩ := ih (h.of_initial (prefix_append _ _))
    rcases h.advance with hT | hadv
    · rw [hT]
      exact ⟨hover', hrec, hopt⟩
    · obtain ⟨hrec', hopt'⟩ := hadv.over hover'
      exact ⟨hadv.over_again hover', hrec'.trans hrec, hopt'.trans hopt⟩

theorem Orderly.published_stands (h : Orderly env (pre ++ post))
    (hpub : (tablesAfter env pre).stateOf eid = some .published) :
    (tablesAfter env (pre ++ post)).stateOf eid = some .published ∧
      (tablesAfter env (pre ++ post)).electionOf eid = (tablesAfter env pre).electionOf eid := by
  induction post using List.reverseRecOn with
  | nil =>
    rw [append_nil]
    exact ⟨hpub, rfl⟩
  | append_singleton post req ih =>
    rw [← append_assoc] at h ⊢
    obtain ⟨hpub', hrow⟩ := ih (h.of_initial (prefix_append _ _))
    rcases h.advance with hT | hadv
    · rw [hT]
      exact ⟨hpub', hrow⟩
    · have hrow' := hadv.published hpub'
      refine ⟨?_, hrow'.trans hrow⟩
      rw [Tables.stateOf, hrow', ← Tables.stateOf, hpub']

/-- A successful answer tells the results of the tables, of an election that
is published. -/
theorem Orderly.told (h : Orderly env (pre ++ [req])) (hreq : AsksResults req eid) :
    (∃ e, responseTo env pre req = .of (some e)) ∨
      ∃ r, (tablesAfter env pre).electionOf eid = [r] ∧ Filed r .published ∧
        responseTo env pre req = resultsResponse eid ((tablesAfter env pre).resultsOf eid r) := by
  have hpre := prefix_append pre [req]
  have hsteady := (h.of_initial hpre).steady
  obtain ⟨hop, rfl⟩ := hreq
  obtain ⟨heq, -⟩ := @answer_paired env _ hsteady.idle hsteady.legible req (h.plain req (by simp))
  rw [responseTo, heq]
  exact @answer_results env.paired _ req rfl hsteady.idle hsteady.kept (h.ids _ hpre) hop

theorem Orderly.told_again {req' : BclRequest} (h : Orderly env (pre ++ [req]))
    (h' : Orderly env (pre ++ post ++ [req'])) (hreq : AsksResults req eid)
    (hreq' : AsksResults req' eid) (hok : (responseTo env pre req).status = none)
    (hok' : (responseTo env (pre ++ post) req').status = none) :
    responseTo env (pre ++ post) req' = responseTo env pre req := by
  have hwhole := h'.of_initial (prefix_append (pre ++ post) [req'])
  rcases h.told hreq with ⟨e, he⟩ | ⟨r, hrow, hr, hresp⟩
  · rw [he] at hok
    cases hok
  · rcases h'.told hreq' with ⟨e, he⟩ | ⟨r', hrow', -, hresp'⟩
    · rw [he] at hok'
      cases hok'
    · have hpub := stateOf_filed hrow hr
      obtain ⟨-, hsame⟩ := hwhole.published_stands hpub
      obtain ⟨-, hrec, hopt⟩ := hwhole.over_stands (.inr hpub)
      rw [hsame, hrow] at hrow'
      cases hrow'
      rw [hresp, hresp']
      simp only [Tables.resultsOf, hopt, liveOf_congr hrec]

end Run

/-- Published results are final and consistent in a run. -/
structure FinalResults (env : Env) (reqs : List BclRequest) : Prop where
  /-- An election's state stays or moves one step. -/
  states : ∀ pre req eid, pre ++ [req] <+: reqs →
    (tablesAfter env (pre ++ [req])).stateOf eid = (tablesAfter env pre).stateOf eid ∨
      (tablesAfter env (pre ++ [req])).stateOf eid = nextState ((tablesAfter env pre).stateOf eid)
  /-- No ballot, owner or nonce row changes once the election is closed. -/
  frozen : ∀ pre post eid, pre ++ post <+: reqs → (tablesAfter env pre).Over eid →
    (tablesAfter env (pre ++ post)).records eid = (tablesAfter env pre).records eid
  /-- Before it is published the answer is an error and nothing else. -/
  secret : ∀ pre req eid, pre ++ [req] <+: reqs → AsksResults req eid →
    (tablesAfter env pre).stateOf eid ≠ some .published →
    ∃ e, responseTo env pre req = .of (some e)
  /-- All successful answers are the same. -/
  same : ∀ pre pre' req req' eid, pre ++ [req] <+: reqs → pre' ++ [req'] <+: reqs →
    AsksResults req eid → AsksResults req' eid → (responseTo env pre req).status = none →
    (responseTo env pre' req').status = none → responseTo env pre req = responseTo env pre' req'
  /-- The tally counts the rows listed. -/
  counted : ∀ pre req eid, pre ++ [req] <+: reqs → AsksResults req eid →
    (responseTo env pre req).status = none →
    (∀ i, (responseTo env pre req).tally i =
      (responseTo env pre req).hashes.countP fun row => row.optionIndex = (i : Int)) ∧
    ∑ i, (responseTo env pre req).tally i = (responseTo env pre req).hashes.length

variable {env : Env} {reqs : List BclRequest}

/-- In every run whose requests do not mention the end line of an answer and
whose elections have different ids, published results are final and
consistent. -/
theorem published_results_final (h : Orderly env reqs) :
    FinalResults env reqs where
  states := fun pre req eid hpre => by
    rcases (h.of_initial hpre).advance with hT | hadv
    · exact .inl (by rw [hT])
    · exact hadv.stateOf eid
  frozen := fun pre post eid hpre hover => ((h.of_initial hpre).over_stands hover).2.1
  secret := fun pre req eid hpre hreq hnot => by
    rcases (h.of_initial hpre).told hreq with he | ⟨r, hrow, hr, -⟩
    · exact he
    · exact absurd (stateOf_filed hrow hr) hnot
  same := fun pre pre' req req' eid hpre hpre' hreq hreq' hok hok' => by
    have hp := (prefix_append pre [req]).trans hpre
    have hp' := (prefix_append pre' [req']).trans hpre'
    -- one of the two requests comes first
    rcases prefix_or_prefix_of_prefix hp hp' with ⟨post, rfl⟩ | ⟨post, rfl⟩
    · exact ((h.of_initial hpre).told_again (h.of_initial hpre') hreq hreq' hok hok').symm
    · exact (h.of_initial hpre').told_again (h.of_initial hpre) hreq' hreq hok' hok
  counted := fun pre req eid hpre hreq hok => by
    rcases (h.of_initial hpre).told hreq with ⟨e, he⟩ | ⟨r, -, -, hresp⟩
    · rw [he] at hok
      cases hok
    · have hkept := ((h.of_initial hpre).of_initial (prefix_append pre [req])).steady.kept
      rw [hresp]
      exact ⟨tally_listed hkept eid r, sum_tally hkept eid r⟩

/-! ## A small election through the dispatcher -/

def pollRequest (op : BclOp) : BclRequest := { BclRequest.of op with electionId := pollId }

def pollCreate : BclRequest := { pollRequest .create with config := pollConfig }

def pollCast (cert : CertName) (nonce : String) (option : UInt8) : BclRequest :=
  { pollRequest .cast with certName := cert, ballot := pollBallot cert nonce option }

/-- Two ballots, then the results are published and asked for twice. -/
def pollPublished : List BclRequest :=
  [pollCreate, pollRequest .opening, pollCast pollAnn "n1" 1, pollCast pollBob "n2" 0,
    pollRequest .closing, pollRequest .publish, pollRequest .adminResults,
    { pollRequest .results with certName := pollAnn }]

theorem published_results_final_poll :
    Orderly pollSocketEnv pollPublished ∧ FinalResults pollSocketEnv pollPublished ∧
      (responseTo pollSocketEnv (pollPublished.take 7)
        { pollRequest .results with certName := pollAnn }).status = none := by
  have hids : (∀ pre ∈ pollPublished.inits, DistinctIds (tablesAfter pollSocketEnv pre)) ∧
      (responseTo pollSocketEnv (pollPublished.take 7)
        { pollRequest .results with certName := pollAnn }).status = none := by decide +kernel
  have hplain : ∀ req ∈ pollPublished,
      (req.op = .cast ∨ req.op = .update → req.ballot.nonce.val ≠ dbMarkOk) ∧
        (req.op = .create → ∀ cert ∈ req.config.eligible, cert.val ≠ dbMarkOk) := by
    decide +kernel
  have horderly : Orderly pollSocketEnv pollPublished :=
    ⟨fun req hreq => ⟨(hplain req hreq).1, (hplain req hreq).2⟩,
      fun pre hpre => hids.1 pre ((mem_inits _ _).mpr hpre)⟩
  exact ⟨horderly, published_results_final horderly, hids.2⟩

/-- One ballot whose nonce is the end line of an answer, sent 65 times. -/
def pollReplayed : List BclRequest :=
  [pollCreate, pollRequest .opening] ++ List.replicate 65 (pollCast pollAnn "<<END ok>>" 1) ++
    [pollRequest .closing, pollRequest .publish]

/-- Whatever is read, an answer to ADMIN_RESULTS is an error and nothing else,
or lists at most `BB_MAX_VOTERS` hashes. -/
theorem adminResults_shape (env : Env) (d : Daemon) (req : BclRequest)
    (hop : req.op = .adminResults) :
    (∃ e, (answer env d req).1 = .of (some e)) ∨
      (answer env d req).1.status = none ∧ (answer env d req).1.hashes.length ≤ bbMaxVoters := by
  obtain ⟨op, cert, eid, ballot, hash, config⟩ := req
  cases hop
  rcases hrun : run (handle env) (bbGetResultsAdmin d.ctx eid) d.world with ⟨e | out, w⟩
  · refine .inl ⟨e, ?_⟩
    simp only [answer, ballotdDispatch, run_bind, run_attempt, hrun]
    rfl
  · obtain ⟨e, w₁, -, h₂⟩ := run_bind_ok hrun
    split at h₂
    · cases h₂
    · obtain ⟨_, _, -, h₃⟩ := run_bind_ok h₂
      obtain ⟨_, _, -, h₄⟩ := run_bind_ok h₃
      cases h₄
      right
      simp only [answer, ballotdDispatch, run_bind, run_attempt, hrun]
      exact ⟨rfl, length_take_le _ _⟩

theorem not_final_of_tally {req : BclRequest} (hop : req.op = .adminResults) {i : Fin bbMaxOptions}
    (htally : bbMaxVoters < (responseTo env reqs req).tally i) :
    ¬ FinalResults env (reqs ++ [req]) := by
  intro hfinal
  rcases adminResults_shape env (runRequests env reqs) req hop with ⟨e, he⟩ | ⟨hok, hlist⟩
  · rw [responseTo, he] at htally
    exact absurd htally (Nat.not_lt_zero _)
  · have hcount := (hfinal.counted reqs req _ prefix_rfl ⟨.inr hop, rfl⟩ hok).1 i
    rw [hcount] at htally
    exact absurd (countP_le_length.trans hlist) (Nat.not_le.mpr htally)

/-- Every copy is recorded and counted, but a list holds 64 hashes only, so
the tally and the list of an operator cannot agree. -/
theorem replayed_ballot_miscounts :
    ¬ FinalResults pollSocketEnv (pollReplayed ++ [pollRequest .adminResults]) := by
  have htally : bbMaxVoters <
      (responseTo pollSocketEnv pollReplayed (pollRequest .adminResults)).tally 1 := by
    decide +kernel
  exact not_final_of_tally rfl htally

end Corestack.Ballotd
