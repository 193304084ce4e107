import Corestack.Brain.Calls

/-!
# What the operation log says about a voter

Two runs of `bb_record_ballot` that differ in the voter's name only, with
the same replies from the store. The log keeps the names out: as long as
both runs go on, they log the same lines. The one place where a name is
logged is the refusal of a voter who is not on the roll, and that run does
not record its ballot any more.
-/

namespace Corestack.Brain

open Lib Db

/-! ## Log lines and store replies of a run -/

/-- What the store answers to a call. -/
inductive StoreReply where
  | connected (ok : Bool)
  | executed (st : DbStatus) (body : Bytes)
  | closed
deriving DecidableEq

def storeReply : (op : Op) → Reply op → Option StoreReply
  | .log _, _ => none
  | .connect, ok => some (.connected ok)
  | .exec _ _, (st, body) => some (.executed st body)
  | .close, _ => some .closed

def logLine : Op → Option Bytes
  | .log line => some line
  | .connect | .exec _ _ | .close => none

/-- The replies of the store in a run, in order. -/
def storeReplies (t : List ((op : Op) × Reply op)) : List StoreReply :=
  t.filterMap fun e => storeReply e.1 e.2

/-- The lines a run writes to the log, in order. -/
def logLines (t : List ((op : Op) × Reply op)) : List Bytes :=
  t.filterMap fun e => logLine e.1

theorem storeReply_isSome {op : Op} (hop : logLine op = none) (r : Reply op) :
    ∃ x, storeReply op r = some x := by
  cases op with
  | log line => cases hop
  | connect | exec | close => exact ⟨_, rfl⟩

/-! ## Coupled programs -/

section Coupled

variable {α β : Type}

/-- Two programs that log the same lines as long as the store gives them
the same replies, until one of them can only end in `D`. -/
inductive Coupled (D : Except BbErr α → Prop) : BrainM α → BrainM α → Prop
  | ret (a : α) : Coupled D (.ret a) (.ret a)
  | fail (e : BbErr) : Coupled D (.fail e) (.fail e)
  | log (line : Bytes) {k k' : Reply (.log line) → BrainM α} (hk : ∀ r, Coupled D (k r) (k' r)) :
      Coupled D (.call (.log line) k) (.call (.log line) k')
  | store {op op' : Op} {k : Reply op → BrainM α} {k' : Reply op' → BrainM α}
      (hop : logLine op = none) (hop' : logLine op' = none)
      (hk : ∀ r r', storeReply op r = storeReply op' r' → Coupled D (k r) (k' r')) :
      Coupled D (.call op k) (.call op' k')
  | left {p : BrainM α} (q : BrainM α) (hp : p.Ends D) : Coupled D p q
  | right (p : BrainM α) {q : BrainM α} (hq : q.Ends D) : Coupled D p q

variable {D : Except BbErr α → Prop} {D' : Except BbErr β → Prop}

theorem storeReply_inj {op : Op} (hop : logLine op = none) {r r' : Reply op}
    (h : storeReply op r = storeReply op r') : r = r' := by
  cases op with
  | log line => cases hop
  | connect =>
    cases h
    rfl
  | exec sql cap =>
    obtain ⟨st, body⟩ := r
    cases h
    rfl
  | close => rfl

theorem Coupled.refl (p : BrainM α) : Coupled D p p := by
  induction p with
  | ret a => exact .ret a
  | fail e => exact .fail e
  | call op k ih =>
    cases hop : logLine op with
    | some line =>
      cases op with
      | log line' => exact .log line' ih
      | connect | exec | close => cases hop
    | none =>
      refine .store hop hop fun r r' hr => ?_
      cases storeReply_inj hop hr
      exact ih r

theorem Coupled.bind {p q : BrainM α} {f g : α → BrainM β} (hpq : Coupled D p q)
    (hfg : ∀ a, Coupled D' (f a) (g a))
    (hok : ∀ a, D (.ok a) → (f a).Ends D' ∧ (g a).Ends D')
    (herr : ∀ e, D (.error e) → D' (.error e)) : Coupled D' (p >>= f) (q >>= g) := by
  induction hpq with
  | ret a => exact hfg a
  | fail e => exact .fail e
  | log line hk ih => exact .log line ih
  | store hop hop' hk ih => exact .store hop hop' ih
  | left q hp => exact .left _ (hp.bind (fun a ha => (hok a ha).1) herr)
  | right p hq => exact .right _ (hq.bind (fun a ha => (hok a ha).2) herr)

theorem Coupled.bind_attempt {p q : BrainM α} {f g : Except BbErr α → BrainM β}
    (hpq : Coupled D p q) (hfg : ∀ r, Coupled D' (f r) (g r))
    (hD : ∀ r, D r → (f r).Ends D' ∧ (g r).Ends D') :
    Coupled D' (p.attempt >>= f) (q.attempt >>= g) := by
  induction hpq with
  | ret a => exact hfg _
  | fail e => exact hfg _
  | log line hk ih => exact .log line ih
  | store hop hop' hk ih => exact .store hop hop' ih
  | left q hp => exact .left _ (hp.bind_attempt fun r hr => (hD r hr).1)
  | right p hq => exact .right _ (hq.bind_attempt fun r hr => (hD r hr).2)

theorem Coupled.logLines_eq {σ τ : Type} {h : (op : Op) → σ → Reply op × σ}
    {g : (op : Op) → τ → Reply op × τ} {p q : BrainM α} (hpq : Coupled D p q) :
    ∀ (s : σ) (t : τ), storeReplies (p.trace h s) = storeReplies (q.trace g t) →
      ¬ D (p.run h s).1 → ¬ D (q.run g t).1 →
      logLines (p.trace h s) = logLines (q.trace g t) := by
  induction hpq with
  | ret a | fail e => exact fun _ _ _ _ _ => rfl
  | log line hk ih =>
    intro s t hreplies hp hq
    simp only [Prog.trace_call, storeReplies, logLines, List.filterMap_cons, storeReply,
      logLine, List.cons.injEq, true_and] at hreplies ⊢
    exact ih _ _ _ hreplies hp hq
  | @store op op' k k' hop hop' hk ih =>
    intro s t hreplies hp hq
    obtain ⟨x, hx⟩ := storeReply_isSome hop (h op s).1
    obtain ⟨x', hx'⟩ := storeReply_isSome hop' (g op' t).1
    simp only [Prog.trace_call, storeReplies, logLines, List.filterMap_cons, hx, hx', hop, hop',
      List.cons.injEq] at hreplies ⊢
    exact ih _ _ (by rw [hx, hx', hreplies.1]) _ _ hreplies.2 hp hq
  | left q hp => exact fun s _ _ hp' _ => absurd (hp.run s) hp'
  | right p hq => exact fun _ t _ _ hq' => absurd (hq.run t) hq'

end Coupled

/-! ## The commands that carry the voter's name -/

/-- A run that refuses a voter ends with a code that is not retried. -/
def Refused {α : Type} (r : Except BbErr α) : Prop := ∃ e, r = .error e ∧ e ≠ .retry

theorem Refused.error {α β : Type} {e : BbErr} (h : Refused (.error e : Except BbErr α)) :
    Refused (.error e : Except BbErr β) := by
  obtain ⟨e', he, hne⟩ := h
  cases he
  exact ⟨e, rfl, hne⟩

theorem Refused.not_ok {α : Type} {a : α} (h : Refused (.ok a : Except BbErr α)) : False := by
  obtain ⟨e, he, -⟩ := h
  cases he

section Commands

variable {α β : Type}

theorem Coupled.seq {p q : BrainM α} {f g : α → BrainM β} (hpq : Coupled Refused p q)
    (hfg : ∀ a, Coupled Refused (f a) (g a)) : Coupled Refused (p >>= f) (q >>= g) :=
  hpq.bind hfg (fun _ h => h.not_ok.elim) fun _ h => h.error

theorem coupled_execStmt (sql sql' : Stmt) (cap : Nat) :
    Coupled Refused (execStmt sql cap) (execStmt sql' cap) := by
  refine .store rfl rfl fun r r' hr => ?_
  obtain ⟨st, body⟩ := r
  cases hr
  exact .refl _

/-- Two commands that log the same line and whose statements differ only in
their texts. -/
structure Twin (cmd cmd' : BbDbCmd) : Prop where
  log : logCmd cmd = logCmd cmd'
  write : opIsWrite cmd = opIsWrite cmd'
  op : Coupled Refused (runOp cmd) (runOp cmd')

theorem twin_getPriorBallot (eid : Id) (cert cert' : CertName) :
    Twin (.getPriorBallot eid cert) (.getPriorBallot eid cert') :=
  ⟨rfl, rfl, (coupled_execStmt _ _ _).seq fun _ => .refl _⟩

theorem twin_setOwner (eid : Id) (cert cert' : CertName) (hash : Hash) (version : Int) :
    Twin (.setOwner eid cert hash version) (.setOwner eid cert' hash version) :=
  ⟨rfl, rfl, ((coupled_execStmt _ _ _).seq fun _ => (coupled_execStmt _ _ _).seq fun _ =>
    .refl _).seq fun _ => .refl _⟩

variable {cmd cmd' : BbDbCmd}

theorem Twin.oneShotBody (h : Twin cmd cmd') :
    Coupled Refused (oneShotBody cmd) (oneShotBody cmd') := by
  unfold Brain.oneShotBody
  rw [← h.write]
  split
  · refine ((Coupled.refl (execStmt .setTransaction 0)).seq fun _ => h.op).bind_attempt
      (fun r => .refl _) fun r hr => ?_
    obtain ⟨e, rfl, hne⟩ := hr
    simp only [hne, if_false]
    exact ⟨fun _ => ⟨e, rfl, hne⟩, fun _ => ⟨e, rfl, hne⟩⟩
  · exact h.op

theorem Twin.oneShotAttempt (h : Twin cmd cmd') :
    Coupled Refused (oneShotAttempt cmd) (oneShotAttempt cmd') := by
  refine (Coupled.refl dbSocketOpen).seq fun ok => ?_
  cases ok with
  | false => exact .refl _
  | true =>
    refine h.oneShotBody.bind_attempt (fun r => .refl _) fun r hr => ?_
    obtain ⟨e, rfl, hne⟩ := hr
    exact ⟨fun _ => ⟨e, rfl, hne⟩, fun _ => ⟨e, rfl, hne⟩⟩

theorem Twin.oneShot (h : Twin cmd cmd') :
    ∀ n, Coupled Refused (oneShot cmd n) (oneShot cmd' n)
  | 0 => .refl _
  | n + 1 => by
    refine h.oneShotAttempt.bind_attempt (fun r => ?_) fun r hr => ?_
    · cases r with
      | ok out => exact .refl _
      | error e =>
        by_cases he : e = .retry
        · simp only [he, if_true]
          exact h.oneShot n
        · simp only [he, if_false]
          exact .refl _
    · obtain ⟨e, rfl, hne⟩ := hr
      simp only [hne, if_false]
      exact ⟨⟨e, rfl, hne⟩, ⟨e, rfl, hne⟩⟩

theorem Twin.dbExec (h : Twin cmd cmd') (ctx : BbCtx) :
    Coupled Refused (dbExec ctx cmd) (dbExec ctx cmd') := by
  unfold Brain.dbExec
  rw [← h.log]
  refine (Coupled.refl (bbLog (logCmd cmd))).seq fun _ => ?_
  split
  · exact h.op
  · exact h.oneShot _

end Commands

/-! ## Recording a ballot -/

theorem ends_logList {D : Except BbErr Unit → Prop} (hD : D (.ok ())) (tag : Bytes) :
    ∀ (i : Nat) (names : List CertName), (logNotEligible.logList tag i names).Ends D
  | _, [] => hD
  | i, _ :: names => fun _ => ends_logList hD tag (i + 1) names

section Record

variable (ctx : BbCtx) (eid : Id) (ballot : BbBallot) (cert : CertName)

theorem ends_refusal {α : Type} (e : BbElection) :
    (do logNotEligible (bytes "[cast]") eid cert e; .fail .notEligible : BrainM α).Ends
      Refused := by
  have hlog : (logNotEligible (bytes "[cast]") eid cert e).Ends (· = .ok ()) := by
    intro r
    exact ends_logList (D := (· = .ok ())) rfl _ _ _
  refine hlog.bind (fun _ _ => ⟨_, rfl, by decide⟩) fun _ h => ?_
  cases h

theorem coupled_recordGate :
    Coupled Refused (recordGate ctx eid ballot)
      (recordGate ctx eid { ballot with certName := cert }) := by
  refine (Coupled.refl (loadElection ctx eid)).seq fun e => ?_
  by_cases h1 : e.state = .closed ∨ e.state = .published
  · simp only [if_pos h1]
    exact .refl _
  · by_cases h2 : e.state ≠ .opened
    · simp only [if_neg h1, if_pos h2]
      exact .refl _
    · simp only [if_neg h1, if_neg h2]
      by_cases h3 : bbCheckEligibility e ballot.certName = true
      · by_cases h4 : bbCheckEligibility e cert = true
        · simp only [h3, h4, not_true_eq_false, if_false]
          exact .refl _
        · refine .right _ ?_
          simp only [h4]
          exact ends_refusal eid cert e
      · refine .left _ ?_
        simp only [h3]
        exact ends_refusal eid ballot.certName e

theorem coupled_recordChecks :
    Coupled Refused (recordChecks ctx eid ballot)
      (recordChecks ctx eid { ballot with certName := cert }) := by
  refine (coupled_recordGate ctx eid ballot cert).seq fun option => ?_
  refine (Coupled.refl (dbExec ctx (.nonceSeen eid ballot.nonce))).seq fun seen => ?_
  by_cases hseen : seen.found = true
  · simp only [hseen, if_true]
    exact .refl _
  · simp only [hseen]
    exact ((twin_getPriorBallot eid ballot.certName cert).dbExec ctx).seq fun _ => .refl _

theorem coupled_recordWrites (option : Int) (prior : BbDbResult) :
    Coupled Refused (recordWrites ctx eid ballot option prior)
      (recordWrites ctx eid { ballot with certName := cert } option prior) := by
  refine (Coupled.refl (bbIssueReceipt ballot (nextVersion prior))).seq fun receipt => ?_
  refine (Coupled.refl _).seq fun _ => (Coupled.refl _).seq fun _ => ?_
  exact ((twin_setOwner eid ballot.certName cert _ _).dbExec ctx).seq fun _ => .refl _

/-- A refusal, as `recordBallotLockedOut` returns it. -/
def RefusedOut (r : Except BbErr (Except BbErr BbReceipt × BbReceipt)) : Prop :=
  ∃ e out, r = .ok (.error e, out) ∧ e ≠ .retry

theorem coupled_recordBallotLockedOut (out : BbReceipt) :
    Coupled RefusedOut (recordBallotLockedOut ctx eid ballot out)
      (recordBallotLockedOut ctx eid { ballot with certName := cert } out) := by
  refine (coupled_recordChecks ctx eid ballot cert).bind_attempt (fun r => ?_) fun r hr => ?_
  · cases r with
    | error e => exact .refl _
    | ok x =>
      refine (coupled_recordWrites ctx eid ballot cert x.1 x.2).bind_attempt
        (fun r => .refl _) fun r hr => ?_
      obtain ⟨e, rfl, hne⟩ := hr
      exact ⟨⟨e, _, rfl, hne⟩, ⟨e, _, rfl, hne⟩⟩
  · obtain ⟨e, rfl, hne⟩ := hr
    exact ⟨⟨e, _, rfl, hne⟩, ⟨e, _, rfl, hne⟩⟩

/-- `bb_record_ballot` returned `BB_OK`. -/
def Recorded : Except BbErr (Except BbErr BbReceipt × BbReceipt × BbCtx) → Prop
  | .ok (.ok _, _, _) => True
  | .ok (.error _, _, _) => False
  | .error _ => False

instance : DecidablePred Recorded
  | .ok (.ok _, _, _) => .isTrue trivial
  | .ok (.error _, _, _) => .isFalse id
  | .error _ => .isFalse id

theorem ends_refused (e : BbErr) (out : BbReceipt) :
    (do let ctx ← bbDbRollback ctx; return (.error e, out, ctx) :
      BrainM (Except BbErr BbReceipt × BbReceipt × BbCtx)).Ends (¬ Recorded ·) := by
  unfold bbDbRollback
  split
  · exact fun _ _ => id
  · exact id

theorem coupled_recordAttempts :
    ∀ (n : Nat) (ctx : BbCtx) (e : BbErr) (out : BbReceipt),
      Coupled (¬ Recorded ·) (recordAttempts ctx eid ballot n e out)
        (recordAttempts ctx eid { ballot with certName := cert } n e out)
  | 0, _, _, _ => .refl _
  | n + 1, ctx, _, out => by
    refine (Coupled.refl (D := fun _ => False) (bbDbBegin ctx)).bind_attempt (fun r => ?_)
      fun r hr => hr.elim
    cases r with
    | error e => exact .refl _
    | ok ctx' =>
      refine (coupled_recordBallotLockedOut ctx' eid ballot cert out).bind (fun x => ?_)
        (fun x hx => ?_) fun e he => ?_
      · obtain ⟨r, out'⟩ := x
        cases r with
        | error e =>
          refine (Coupled.refl (D := fun _ => False) (bbDbRollback ctx')).bind
            (fun c => ?_) (fun _ h => h.elim) fun _ h => h.elim
          split
          · exact coupled_recordAttempts n c e out'
          · exact .refl _
        | ok receipt =>
          refine (Coupled.refl (D := fun _ => False) (bbDbCommit ctx')).bind
            (fun c => ?_) (fun _ h => h.elim) fun _ h => h.elim
          obtain ⟨r, c⟩ := c
          cases r with
          | error e =>
            show Coupled _ (if e = .retry then _ else _) (if e = .retry then _ else _)
            split
            · exact coupled_recordAttempts n c e out'
            · exact .refl _
          | ok _ => exact .refl _
      · obtain ⟨e, out', hx, hne⟩ := hx
        cases hx
        simp only [hne, if_false]
        exact ⟨ends_refused ctx' e out', ends_refused ctx' e out'⟩
      · obtain ⟨e', out', he', -⟩ := he
        cases he'

end Record

/-- Two runs of `bb_record_ballot` that record a ballot with the same nonce
and payload in the same election, with the same replies of any two stores,
write the same lines to the log whoever the two voters are. -/
theorem recorded_log_hides_voter {σ τ : Type} (h : (op : Op) → σ → Reply op × σ)
    (g : (op : Op) → τ → Reply op × τ) (s : σ) (t : τ) (ctx : BbCtx) (eid : Id)
    (ballot : BbBallot) (cert : CertName) (out : BbReceipt)
    (replies : storeReplies ((bbRecordBallot ctx eid ballot out).trace h s) =
      storeReplies ((bbRecordBallot ctx eid { ballot with certName := cert } out).trace g t))
    (ok : Recorded ((bbRecordBallot ctx eid ballot out).run h s).1)
    (ok' : Recorded ((bbRecordBallot ctx eid { ballot with certName := cert } out).run g t).1) :
    logLines ((bbRecordBallot ctx eid ballot out).trace h s) =
      logLines ((bbRecordBallot ctx eid { ballot with certName := cert } out).trace g t) :=
  (coupled_recordAttempts eid ballot cert _ ctx _ out).logLines_eq s t replies
    (not_not.mpr ok) (not_not.mpr ok')

theorem recorded_log_hides_voter_poll :
    let w := (runCalls pollEnv pollOpened).2.world
    let record (cert : CertName) := bbRecordBallot ⟨false⟩ pollId (pollBallot cert "n1" 1) default
    logLines ((record pollAnn).trace (handle pollEnv) w) =
      logLines ((record pollBob).trace (handle pollEnv) w) := by
  refine recorded_log_hides_voter (handle pollEnv) (handle pollEnv) _ _ ⟨false⟩ pollId
    (pollBallot pollAnn "n1" 1) pollBob default ?_ ?_ ?_ <;>
  decide +kernel

end Corestack.Brain
