import Corestack.Brain.Calls
import Corestack.Brain.InStep

/-!
# What a call may touch

On a connection that is out of step the replies a call reads mean little.
What can still be said is which statements it sends: whatever it reads, the
names a call puts on a roll are those of its configuration, and the only
nonce it mentions is the one of its ballot.

A table is *legible* if no row of it can be taken for the end of an
answer. As long as the tables are, every call reads its replies in step.
-/

namespace Corestack.Brain

open List Lib Db Prog

/-! ## The statements a program sends -/

def Stmt.isControl : Stmt → Bool
  | .setTransaction | .commit | .rollback | .selectMaxSeq => true
  | _ => false

/-- The commands behind a call. A new election's id may be a fresh one, and
the hash of a ballot to supersede is read from the store. -/
inductive Call.MayRun : Call → BbDbCmd → Prop
  | look {cfg : BbConfig} {desired : Id} : MayRun (.create cfg desired) (.getElection desired)
  | insert {cfg : BbConfig} {desired id : Id} :
      MayRun (.create cfg desired) (.insertElection id cfg)
  | current {eid : Id} {dst : BbState} : MayRun (.transition eid dst) (.getElection eid)
  | update {eid : Id} {dst : BbState} : MayRun (.transition eid dst) (.updateState eid dst)
  | election {eid : Id} {b : BbBallot} : MayRun (.record eid b) (.getElection eid)
  | seen {eid : Id} {b : BbBallot} : MayRun (.record eid b) (.nonceSeen eid b.nonce)
  | prior {eid : Id} {b : BbBallot} : MayRun (.record eid b) (.getPriorBallot eid b.certName)
  | append {eid : Id} {b : BbBallot} {v : Int} (hv : IsInt32 v) : MayRun (.record eid b)
      (.appendBallot eid ⟨receiptHash b.nonce v, b.option, v, 0⟩)
  | supersede {eid : Id} {b : BbBallot} {hash : Hash} : MayRun (.record eid b)
      (.markSuperseded eid hash)
  | owner {eid : Id} {b : BbBallot} {v : Int} (hv : IsInt32 v) : MayRun (.record eid b)
      (.setOwner eid b.certName (receiptHash b.nonce v) v)
  | spend {eid : Id} {b : BbBallot} : MayRun (.record eid b) (.nonceMark eid b.nonce)

/-- The statements of some commands, and those around them, satisfy `P`. -/
structure Permits (P : Stmt → Prop) (runs : BbDbCmd → Prop) : Prop where
  control : ∀ sql, sql.isControl = true → P sql
  own : ∀ cmd, runs cmd → ∀ sql, cmd.MaySend sql → P sql

/-- Every name a statement puts on a roll is in `roll`, and every nonce it
mentions is in `spent`. -/
def Stmt.Within (roll : CertName → Prop) (spent : Id → Nonce → Prop) : Stmt → Prop
  | .insertEligible _ cert => roll cert
  | .insertNonce eid nonce | .selectNonce eid nonce => spent eid nonce
  | _ => True

def BbDbCmd.Within (roll : CertName → Prop) (spent : Id → Nonce → Prop) : BbDbCmd → Prop
  | .insertElection _ cfg => ∀ cert ∈ cfg.eligible, roll cert
  | .nonceMark eid nonce | .nonceSeen eid nonce => spent eid nonce
  | _ => True

theorem permits_within {roll : CertName → Prop} {spent : Id → Nonce → Prop}
    {runs : BbDbCmd → Prop} (h : ∀ cmd, runs cmd → cmd.Within roll spent) :
    Permits (Stmt.Within roll spent) runs where
  control := fun sql hsql => by cases sql <;> trivial
  own := fun cmd hcmd sql hsql => by
    have hw := h cmd hcmd
    cases hsql with
    | eligible hcert hsafe => exact hw _ hcert
    | nonceMark => exact hw
    | nonceSeen => exact hw
    | _ => trivial

theorem isInt32_nextVersion (prior : BbDbResult) : IsInt32 (nextVersion prior) := by
  unfold nextVersion
  split
  · exact isInt32_toInt32 _
  · unfold IsInt32
    omega

def sends (P : Stmt → Prop) : Op → Prop
  | .exec sql _ => P sql
  | _ => True

/-- Every statement the program sends satisfies `P`, whatever it reads. -/
def Sends (P : Stmt → Prop) {α : Type} (p : BrainM α) : Prop := p.Quiet (sends P) fun _ => True

namespace Sends

variable {P : Stmt → Prop} {α β : Type}

theorem ret (a : α) : Sends P (ret a : BrainM α) := trivial

theorem fail (e : BbErr) : Sends P (fail e : BrainM α) := trivial

variable {p : BrainM α}

theorem bind {f : α → BrainM β} (hp : Sends P p) (hf : ∀ a, Sends P (f a)) : Sends P (p >>= f) :=
  Quiet.bind hp fun a _ => hf a

theorem bind_attempt {f : Except BbErr α → BrainM β} (hp : Sends P p) (hf : ∀ r, Sends P (f r)) :
    Sends P (p.attempt >>= f) :=
  Quiet.bind_attempt hp (fun a _ => hf (.ok a)) fun e => hf (.error e)

theorem log (line : Bytes) : Sends P (bbLog line) := ⟨trivial, fun _ => trivial⟩

variable {sql : Stmt}

theorem execStmt (cap : Nat) (h : P sql) : Sends P (execStmt sql cap) := by
  refine ⟨h, fun r => ?_⟩
  obtain ⟨st, body⟩ := r
  cases st <;> trivial

variable (P) in
theorem walk : FullWalk (@Sends P) :=
  ⟨⟨ret, fun _ => fail _, bind, log⟩, bind_attempt⟩

variable {cmd : BbDbCmd}

theorem runOp (h : ∀ sql, cmd.MaySend sql → P sql) : Sends P (runOp cmd) :=
  (walk P).runOp trivial fun sql cap hsql => execStmt cap (h sql hsql)

variable {R : BbDbCmd → Prop} (hP : Permits P R)

include hP

theorem oneShotBody (h : R cmd) : Sends P (oneShotBody cmd) := by
  have hrun := runOp (hP.own cmd h)
  unfold Brain.oneShotBody
  split
  · refine bind_attempt ((execStmt _ (hP.control _ rfl)).bind fun _ => hrun) fun r => ?_
    split
    · exact (execStmt _ (hP.control _ rfl)).bind fun _ => ret _
    · split
      · exact fail _
      · exact ⟨hP.control _ rfl, fun _ => trivial⟩
  · exact hrun

theorem oneShotAttempt (h : R cmd) : Sends P (oneShotAttempt cmd) := by
  refine ⟨trivial, fun opened => ?_⟩
  cases opened with
  | false => trivial
  | true =>
    refine bind_attempt (oneShotBody hP h) fun r => ⟨trivial, fun _ => ?_⟩
    cases r <;> trivial

theorem dbExec (ctx : BbCtx) (h : R cmd) : Sends P (dbExec ctx cmd) := by
  obtain ⟨_ | _⟩ := ctx
  · exact (walk P).dbExec_alone (oneShotAttempt hP h)
  · exact (log _).bind fun _ => runOp (hP.own cmd h)

theorem bbAllocId : Sends P bbAllocId := by
  refine ⟨trivial, fun opened => ?_⟩
  cases opened with
  | false => trivial
  | true => exact ⟨hP.control _ rfl, fun _ => ⟨trivial, fun _ => trivial⟩⟩

theorem bbCreateElection (ctx : BbCtx) {cfg : BbConfig} {desired : Id}
    (h : ∀ cmd, (Call.create cfg desired).MayRun cmd → R cmd) :
    Sends P (bbCreateElection ctx cfg desired) :=
  (walk P).create (dbExec hP ctx (h _ .look)) (bbAllocId hP) fun _ => dbExec hP ctx (h _ .insert)

variable {eid : Id}

theorem bbTransitionState (ctx : BbCtx) {dst : BbState}
    (h : ∀ cmd, (Call.transition eid dst).MayRun cmd → R cmd) :
    Sends P (bbTransitionState ctx eid dst) :=
  (walk P).transition (dbExec hP ctx (h _ .current)) (dbExec hP ctx (h _ .update))

section Record

variable {eid : Id} {b : BbBallot} (h : ∀ cmd, (Call.record eid b).MayRun cmd → R cmd)

include h

theorem recordGate (ctx : BbCtx) :
    (recordGate ctx eid b).Quiet (sends P) fun option => option = b.option := by
  refine Quiet.bind ((walk P).loadElection trivial (dbExec hP ctx (h _ .election)))
    fun election _ => ?_
  split
  · trivial
  · split
    · trivial
    · split
      · exact Quiet.bind ((walk P).logNotEligible _ _ _ _) fun _ _ => trivial
      · have hdecrypt : (bbDecryptBallot b).Quiet (sends P) fun option => option = b.option :=
          ⟨trivial, fun _ => rfl⟩
        refine hdecrypt.bind fun option ho => ?_
        split
        · trivial
        · exact ho

theorem recordChecks (ctx : BbCtx) :
    (recordChecks ctx eid b).Quiet (sends P) fun p => p.1 = b.option := by
  refine (recordGate hP h ctx).bind fun option ho =>
    Quiet.bind (dbExec hP ctx (h _ .seen)) fun seen _ => ?_
  split
  · trivial
  · exact Quiet.bind (dbExec hP ctx (h _ .prior)) fun prior _ => ho

theorem supersedePrior (ctx : BbCtx) (prior : BbDbResult) :
    Sends P (supersedePrior ctx eid prior) := by
  unfold Brain.supersedePrior
  split
  · exact bind (dbExec hP ctx (h _ .supersede)) fun _ => ret _
  · exact ret _

theorem recordWrites (ctx : BbCtx) {option : Int} (hopt : ∀ v, IsInt32 v →
    R (.appendBallot eid ⟨receiptHash b.nonce v, option, v, 0⟩)) (prior : BbDbResult) :
    Sends P (recordWrites ctx eid b option prior) := by
  have hv := isInt32_nextVersion prior
  have happend := hopt _ hv
  have howner := h _ (.owner hv)
  have hissue : (bbIssueReceipt b (nextVersion prior)).Quiet (sends P)
      fun rcpt => rcpt = receiptOf b (nextVersion prior) := ⟨trivial, fun _ => rfl⟩
  refine hissue.bind fun rcpt hrcpt => ?_
  subst hrcpt
  exact bind (dbExec hP ctx happend) fun _ => (supersedePrior hP h ctx prior).bind fun _ =>
    bind (dbExec hP ctx howner) fun _ => bind (dbExec hP ctx (h _ .spend)) fun _ => ret _

theorem recordBallotLockedOut (ctx : BbCtx) (out : BbReceipt) :
    Sends P (recordBallotLockedOut ctx eid b out) := by
  refine Quiet.bind_attempt (recordChecks hP h ctx) (fun p hp => ?_) fun e => trivial
  obtain ⟨option, prior⟩ := p
  obtain rfl : option = b.option := hp
  exact bind_attempt (recordWrites hP h ctx (fun v hv => h _ (.append hv)) prior) fun r => ret _

end Record

theorem bbDbBegin (ctx : BbCtx) : Sends P (bbDbBegin ctx) := by
  unfold Brain.bbDbBegin
  split
  · exact fail _
  · refine ⟨trivial, fun opened => ?_⟩
    cases opened with
    | false => trivial
    | true =>
      refine bind_attempt (execStmt _ (hP.control _ rfl)) fun r => ?_
      cases r with
      | ok body => exact ret _
      | error e => exact ⟨trivial, fun _ => trivial⟩

theorem bbDbRollback (ctx : BbCtx) : Sends P (bbDbRollback ctx) := by
  unfold Brain.bbDbRollback
  split
  · exact ⟨hP.control _ rfl, fun _ => ⟨trivial, fun _ => trivial⟩⟩
  · exact ret _

theorem bbDbCommit (ctx : BbCtx) : Sends P (bbDbCommit ctx) := by
  unfold Brain.bbDbCommit
  split
  · exact bind_attempt (execStmt _ (hP.control _ rfl)) fun r => ⟨trivial, fun _ => trivial⟩
  · exact ret _

theorem recordAttempts {b : BbBallot} (h : ∀ cmd, (Call.record eid b).MayRun cmd → R cmd)
    (k : Nat) :
    ∀ ctx r out, Sends P (recordAttempts ctx eid b k r out) := by
  induction k with
  | zero => exact fun ctx r out => ret _
  | succ k ih =>
    intro ctx r out
    refine bind_attempt (bbDbBegin hP ctx) fun r => ?_
    split
    · exact ret _
    · refine (recordBallotLockedOut hP h _ out).bind fun p => ?_
      obtain ⟨r, out⟩ := p
      cases r with
      | error e =>
        refine (bbDbRollback hP _).bind fun ctx => ?_
        split
        · exact ih _ _ _
        · exact ret _
      | ok rcpt =>
        refine (bbDbCommit hP _).bind fun p => ?_
        obtain ⟨r, ctx⟩ := p
        cases r with
        | ok u => exact ret _
        | error e =>
          dsimp only
          split
          · exact ih _ _ _
          · exact ret _

end Sends

/-! ## What the statements keep -/

/-- The committed tables satisfy `K`, and so do those of an open transaction. -/
def World.Keeps (K : Tables → Prop) (w : World) : Prop :=
  K w.tables ∧ ∀ s t, w.session = some s → s.txn = some t → K t

section Keeps

variable {K : Tables → Prop} {env : Env} {sql : Stmt}

theorem serve_keeps (hwrite : ∀ t t', K t → t.write sql = some t' → K t') (c : Chatter) (n : Nat)
    {db : Tables} {txn : Option Tables} (hdb : K db) (htxn : ∀ t, txn = some t → K t) :
    K (serve c n sql db txn).tables ∧ ∀ t, (serve c n sql db txn).txn = some t → K t := by
  have hnone : ∀ t : Tables, none = some t → K t := fun t h => by cases h
  have hsome : ∀ {t : Tables}, K t → ∀ t', some t = some t' → K t' := by
    rintro t ht _ ⟨⟩
    exact ht
  by_cases hd : sql.isData = true
  · cases txn with
    | none =>
      rw [serve_auto hd]
      split
      · exact ⟨hdb, hnone⟩
      · rename_i t' hw
        exact ⟨hwrite _ _ hdb hw, hnone⟩
    | some t =>
      rw [serve_txn hd]
      split
      · exact ⟨hdb, hnone⟩
      · rename_i t' hw
        exact ⟨hdb, hsome (hwrite _ _ (htxn t rfl) hw)⟩
  · cases sql <;> first | exact absurd rfl hd | skip
    all_goals
      cases txn with
      | none => first | exact ⟨hdb, hsome hdb⟩ | exact ⟨hdb, hnone⟩
      | some t => first | exact ⟨htxn t rfl, hnone⟩ | exact ⟨hdb, hnone⟩ | exact ⟨hdb, htxn⟩

variable {w : World}

theorem exec_keeps (hwrite : ∀ t t', K t → t.write sql = some t' → K t') (cap : Nat)
    (hw : w.Keeps K) : (exec env sql cap w).2.Keeps K := by
  obtain ⟨hdb, htxn⟩ := hw
  cases hs : w.session with
  | none =>
    simp only [exec, hs]
    exact ⟨hdb, htxn⟩
  | some s =>
    obtain ⟨f, txn, u⟩ := s
    have htxn' : ∀ t, txn = some t → K t := fun t h => htxn _ t hs h
    have hserve := serve_keeps hwrite env.chatter w.clock hdb htxn'
    cases f with
    | some st =>
      simp only [exec, hs]
      exact ⟨hdb, htxn⟩
    | none =>
      simp only [exec, hs]
      split
      · exact ⟨hdb, htxn⟩
      · split
        · refine ⟨hserve.1, ?_⟩
          rintro s t ⟨⟩ ht
          exact hserve.2 t ht
        · rename_i aborts _
          refine ⟨hdb, ?_⟩
          rintro s t ⟨⟩ ht
          cases aborts with
          | true => cases ht
          | false => exact htxn' t ht
        · refine ⟨hdb, ?_⟩
          rintro s t ⟨⟩ ht
          cases ht
        · simp only [serveLost]
          split
          · refine ⟨hserve.1, ?_⟩
            rintro s t ⟨⟩ ht
            exact hserve.2 t ht
          · refine ⟨hdb, ?_⟩
            rintro s t ⟨⟩ ht
            exact htxn' t ht

theorem Sends.run_keeps {P : Stmt → Prop} {α : Type} {p : BrainM α} (hp : Sends P p)
    (hwrite : ∀ sql t t', P sql → K t → t.write sql = some t' → K t') (env : Env) (hw : w.Keeps K) :
    (run (handle env) p w).2.Keeps K := by
  refine (Quiet.run_inv hp (fun op s hop hs => ?_) w hw).1
  cases op with
  | log line => exact hs
  | connect =>
    simp only [handle]
    split
    · refine ⟨hs.1, ?_⟩
      rintro s t ⟨⟩ ht
      cases ht
    · exact hs
  | exec sql cap => exact exec_keeps (fun t t' => hwrite sql t t' hop) cap hs
  | close => exact ⟨hs.1, fun s t h => by cases h⟩

end Keeps

def Call.Enrols : Call → CertName → Prop
  | .create cfg _, cert => cert ∈ cfg.eligible
  | _, _ => False

def Call.Spends : Call → Id → Nonce → Prop
  | .record eid b, e, n => e = eid ∧ n = b.nonce
  | _, _, _ => False

variable {cmd : BbDbCmd}

theorem Call.MayRun.within {call : Call} (h : call.MayRun cmd) :
    cmd.Within call.Enrols call.Spends := by
  cases h with
  | insert => exact fun _ hc => hc
  | seen | spend => exact ⟨rfl, rfl⟩
  | _ => trivial

/-- Whatever is answered, a call keeps what statements about its names and
its nonce keep. -/
theorem perform_keeps {K : Tables → Prop} {call : Call}
    (hwrite : ∀ sql t t', sql.Within call.Enrols call.Spends → K t → t.write sql = some t' → K t')
    (env : Env) {d : Daemon} (hd : d.world.Keeps K) : (perform env d call).2.world.Keeps K := by
  have hP : Permits (Stmt.Within call.Enrols call.Spends) call.MayRun :=
    permits_within fun cmd hcmd => hcmd.within
  cases call with
  | create cfg desired =>
    exact (Sends.bbCreateElection hP d.ctx fun _ h => h).run_keeps hwrite env hd
  | transition eid dst =>
    exact (Sends.bbTransitionState hP d.ctx fun _ h => h).run_keeps hwrite env hd
  | record eid b =>
    have h := (Sends.recordAttempts hP (fun _ h => h) bbTxnAttempts d.ctx .db default).run_keeps
      hwrite env hd
    rw [perform, bbRecordBallot]
    revert h
    generalize run (handle env) (recordAttempts d.ctx eid b bbTxnAttempts .db default)
      d.world = res
    obtain ⟨r, w⟩ := res
    intro h
    cases r <;> exact h

/-! ## Connections are closed -/

section Closed

variable {w : World}

theorem bbDbBegin_closed (env : Env) (hs : w.session = none) :
    (∃ e w', run (handle env) (bbDbBegin ⟨false⟩) w = (.error e, w') ∧ w'.session = none) ∨
      ∃ w', run (handle env) (bbDbBegin ⟨false⟩) w = (.ok ⟨true⟩, w') := by
  rw [bbDbBegin, if_neg (by decide), run_dbSocketOpen]
  split
  · rw [if_pos rfl, run_bind_of_ok (run_attempt ..)]
    cases (run (handle env) (execStmt .setTransaction 0) w.connected).1 with
    | error e => exact .inl ⟨_, _, rfl, rfl⟩
    | ok body => exact .inr ⟨_, rfl⟩
  · exact .inl ⟨_, _, rfl, hs⟩

theorem bbDbCommit_closed (env : Env) (w : World) :
    ∃ res w', run (handle env) (bbDbCommit ⟨true⟩) w = (.ok (res, ⟨false⟩), w') ∧
      w'.session = none := by
  rw [bbDbCommit, if_pos rfl, run_bind_of_ok (run_attempt ..)]
  exact ⟨_, _, rfl, rfl⟩

theorem recordAttempts_closed (env : Env) (eid : Id) (b : BbBallot) (k : Nat) :
    ∀ (r : BbErr) (out : BbReceipt) (w : World), w.session = none →
      ∃ res out' w', run (handle env) (recordAttempts ⟨false⟩ eid b k r out) w =
        (.ok (res, out', ⟨false⟩), w') ∧ w'.session = none := by
  induction k with
  | zero => exact fun r out w hs => ⟨_, _, _, rfl, hs⟩
  | succ k ih =>
    intro r out w hs
    rw [recordAttempts]
    rcases bbDbBegin_closed env hs with ⟨e, w₁, h₁, hs₁⟩ | ⟨w₁, h₁⟩
    · rw [run_bind_attempt h₁]
      exact ⟨_, _, _, rfl, hs₁⟩
    rw [run_bind_attempt h₁]
    rcases h₂ : run (handle env) (recordBallotLocked ⟨true⟩ eid b) w₁ with ⟨e | rcpt, w₂⟩
    · obtain ⟨out₂, h₂, -⟩ := run_recordBallotLockedOut out h₂
      rw [run_bind_of_ok h₂]
      obtain ⟨w₃, h₃, hs₃, -⟩ := run_bbDbRollback env w₂
      rw [run_bind_of_ok h₃]
      split
      · exact ih e out₂ w₃ hs₃
      · exact ⟨_, _, _, rfl, hs₃⟩
    · obtain ⟨out₂, h₂, -⟩ := run_recordBallotLockedOut out h₂
      rw [run_bind_of_ok h₂]
      obtain ⟨res, w₃, h₃, hs₃⟩ := bbDbCommit_closed env w₂
      rw [run_bind_of_ok h₃]
      cases res with
      | ok u => exact ⟨_, _, _, rfl, hs₃⟩
      | error e =>
        dsimp only
        split
        · exact ih e out₂ w₃ hs₃
        · exact ⟨_, _, _, rfl, hs₃⟩

end Closed

/-! ## Legible tables -/

/-- No name on a roll is the end line of an answer, and hashes are stored
texts. -/
structure Legible (T : Tables) : Prop where
  roll : ∀ r ∈ T.eligible, ∃ cert : CertName, r.certName = quoted cert.val ∧ cert.val ≠ dbMarkOk
  owner : ∀ r ∈ T.owner, ∃ hash : Hash, r.hash = quoted hash.val
  ballot : ∀ r ∈ T.ballot, ∃ hash : Hash, r.hash = quoted hash.val

theorem legible_empty : Legible .empty := ⟨by simp [Tables.empty], by simp [Tables.empty],
  by simp [Tables.empty]⟩

def Stmt.Plain : Stmt → Prop :=
  Stmt.Within (fun cert => cert.val ≠ dbMarkOk) fun _ nonce => nonce.val ≠ dbMarkOk

abbrev PlainCmd : BbDbCmd → Prop :=
  BbDbCmd.Within (fun cert => cert.val ≠ dbMarkOk) fun _ nonce => nonce.val ≠ dbMarkOk

variable {sql : Stmt} {T : Tables}

theorem Legible.write {spent : Id → Nonce → Prop} {T' : Tables} (hT : Legible T)
    (hsql : sql.Within (fun cert => cert.val ≠ dbMarkOk) spent) (hw : T.write sql = some T') :
    Legible T' := by
  obtain ⟨hroll, howner, hballot⟩ := hT
  cases sql with
  | insertEligible eid cert =>
    cases hw
    refine ⟨fun r hr => ?_, howner, hballot⟩
    rcases mem_append.mp hr with hr | hr
    · exact hroll r hr
    · exact ⟨cert, by rw [mem_singleton.mp hr], hsql⟩
  | insertOwner eid cert hash ver =>
    simp only [Tables.write, Option.bind_eq_bind, Option.bind_eq_some_iff, Option.pure_def,
      Option.some.injEq] at hw
    obtain ⟨v, -, rfl⟩ := hw
    refine ⟨hroll, fun r hr => ?_, hballot⟩
    rcases mem_append.mp hr with hr | hr
    · exact howner r hr
    · exact ⟨hash, by rw [mem_singleton.mp hr]⟩
  | insertBallot eid hash opt ver sup =>
    simp only [Tables.write, Option.bind_eq_bind, Option.bind_eq_some_iff, Option.pure_def,
      Option.some.injEq] at hw
    obtain ⟨o, -, v, -, s, -, rfl⟩ := hw
    refine ⟨hroll, howner, fun r hr => ?_⟩
    rcases mem_append.mp hr with hr | hr
    · exact hballot r hr
    · exact ⟨hash, by rw [mem_singleton.mp hr]⟩
  | insertElection seq id title state ot ct | insertOption eid idx name =>
    simp only [Tables.write, Option.bind_eq_bind, Option.bind_eq_some_iff, Option.pure_def,
      Option.some.injEq] at hw
    obtain ⟨v, -, rfl⟩ := hw
    exact ⟨hroll, howner, hballot⟩
  | deleteBallot eid hash =>
    cases hw
    exact ⟨hroll, howner, fun r hr => hballot r (mem_of_mem_filter hr)⟩
  | deleteOwner eid cert =>
    cases hw
    exact ⟨hroll, fun r hr => howner r (mem_of_mem_filter hr), hballot⟩
  | _ =>
    cases hw
    exact ⟨hroll, howner, hballot⟩

section Call

variable {d : Daemon}

theorem Daemon.Idle.keeps {K : Tables → Prop} (hd : d.Idle) (hK : K d.world.tables) :
    d.world.Keeps K :=
  ⟨hK, fun s t hs => by rw [hd.session] at hs; cases hs⟩

/-- The call puts no name on a roll that is the end line of an answer. -/
def Call.PlainRoll (call : Call) : Prop := ∀ cert, call.Enrols cert → cert.val ≠ dbMarkOk

theorem perform_legible (env : Env) (hd : d.Idle) (hT : Legible d.world.tables) {call : Call}
    (hcall : call.PlainRoll) : Legible (perform env d call).2.world.tables := by
  refine (perform_keeps (fun sql t t' hsql ht hw => ?_) env (hd.keeps hT)).1
  have hplain : sql.Within (fun cert => cert.val ≠ dbMarkOk) call.Spends := by
    cases sql <;> first | exact hcall _ hsql | exact hsql
  exact ht.write hplain hw

end Call

/-! A printed row that is not the end line: it starts with a number, or has
two fields, or is a text other than that line. -/

theorem number_ne_ok (v : Int) (fs : List Bytes) :
    lineBuf (join tab (fmtInt v :: fs)) ≠ dbMarkOk := by
  obtain ⟨d, ds, hcons⟩ := exists_cons_of_ne_nil (fmtInt_ne_nil v)
  have hd : d ≠ 60 ∧ d ≠ 0 := by
    have hmem : d ∈ fmtInt v := by simp [hcons]
    exact ⟨fun h => notMem_fmtInt rfl (by decide) (h ▸ hmem),
      fun h => notMem_fmtInt rfl (by decide) (h ▸ hmem)⟩
  have hline : ∃ l, join tab (fmtInt v :: fs) = d :: l := by
    cases fs with
    | nil => exact ⟨ds, hcons⟩
    | cons f fs => exact ⟨ds ++ tab :: join tab (f :: fs), by rw [join, hcons]; rfl⟩
  obtain ⟨l, hl⟩ := hline
  rw [hl, show dbMarkOk = 60 :: bytes "<END ok>>" by decide +kernel]
  simp [lineBuf, dbBodyMax, cText, hd.1, hd.2]

variable {n : Nat}

theorem length_quoted_val_lt (s : CStr n) : (quoted s.val).length < 2 * n := by
  have h1 := length_quoted_le s.val
  have h2 := s.fits
  omega

theorem zero_notMem_quoted (s : CStr n) : 0 ∉ quoted s.val :=
  fun h => s.noNul (mem_quoted.mp h)

theorem fields_ne_ok (hash : Hash) (f : Bytes) (fs : List Bytes) :
    lineBuf (join tab (quoted hash.val :: f :: fs)) ≠ dbMarkOk := by
  have hlen : (quoted hash.val).length < 2 * 65 := length_quoted_val_lt hash
  intro h
  have htab : tab ∈ lineBuf (join tab (quoted hash.val :: f :: fs)) := by
    obtain ⟨k, hk⟩ : ∃ k, dbBodyMax - 1 - (quoted hash.val).length = k + 1 :=
      ⟨dbBodyMax - 2 - (quoted hash.val).length, by simp only [dbBodyMax]; omega⟩
    rw [lineBuf, join, take_append, take_of_length_le (by simp only [dbBodyMax]; omega),
      hk, take_succ_cons, cText, takeWhile_append_of_pos (fun x hx => by
        simpa using fun h0 : x = 0 => zero_notMem_quoted hash (h0 ▸ hx))]
    simp [tab]
  rw [h] at htab
  revert htab
  decide +kernel

theorem quoted_ne_ok {s : CStr n} (hn : 2 * n ≤ dbBodyMax) (hs : s.val ≠ dbMarkOk) :
    lineBuf (join tab [quoted s.val]) ≠ dbMarkOk := by
  have hlen := length_quoted_val_lt s
  have hq : quoted dbMarkOk = dbMarkOk := by decide +kernel
  rw [join, lineBuf_eq_self (by omega) (zero_notMem_quoted s)]
  exact fun h => hs (quoted_injective (h.trans hq.symm))

theorem Legible.quietRows (hT : Legible T) (hsql : sql.Plain) : QuietRows sql T := by
  intro rows hrows r hr
  cases sql with
  | selectElection | selectCarried | selectOptions | selectBallot | selectTally | selectMaxSeq =>
    cases hrows
    obtain ⟨x, -, rfl⟩ := mem_map.mp hr
    exact number_ne_ok _ _
  | selectEligible id =>
    cases hrows
    obtain ⟨x, hx, rfl⟩ := mem_map.mp hr
    obtain ⟨cert, hcert, hne⟩ := hT.roll x (mem_of_mem_filter hx)
    rw [hcert]
    exact quoted_ne_ok (by decide) hne
  | selectNonce id nonce =>
    cases hrows
    obtain ⟨x, hx, rfl⟩ := mem_map.mp hr
    have hx' := (mem_filter.mp hx).2
    simp only [decide_eq_true_eq] at hx'
    rw [hx'.2]
    exact quoted_ne_ok (by decide) hsql
  | selectOwner id cert =>
    cases hrows
    obtain ⟨x, hx, rfl⟩ := mem_map.mp hr
    obtain ⟨hash, hhash⟩ := hT.owner x (mem_of_mem_filter hx)
    rw [hhash]
    exact fields_ne_ok _ _ _
  | selectHashes | selectHash =>
    cases hrows
    obtain ⟨x, hx, rfl⟩ := mem_map.mp hr
    obtain ⟨hash, hhash⟩ := hT.ballot x (mem_of_mem_filter hx)
    rw [hhash]
    exact fields_ne_ok _ _ _
  | _ => cases hrows

theorem keepsStep_legible :
    KeepsStep (fun op => dataOp op ∧ sends Stmt.Plain op) Legible where
  data := fun _ h => h.1
  quiet := fun _ _ _ h hT => hT.quietRows h.2
  keep := fun _ _ _ _ h hT hw => hT.write h.2 hw

theorem permits_plain : Permits Stmt.Plain PlainCmd := permits_within fun _ h => h

variable {b : BbBallot}

theorem Call.MayRun.plain {eid : Id} (hb : b.nonce.val ≠ dbMarkOk)
    (h : (Call.record eid b).MayRun cmd) : PlainCmd cmd := by
  cases h with
  | seen => exact hb
  | spend => exact hb
  | _ => trivial

/-- A ballot with another nonce than the end line is recorded in step. Of all
that its statements print, only a name on a roll and the nonce could be
taken for the end of an answer. -/
theorem bbRecordBallot_paired (env : Env) {w : World} (hs : w.session = none)
    (hT : Legible w.tables) (eid : Id) (hb : b.nonce.val ≠ dbMarkOk) (out : BbReceipt) :
    run (handle env) (bbRecordBallot ⟨false⟩ eid b out) w =
      run (handle env.paired) (bbRecordBallot ⟨false⟩ eid b out) w :=
  have hrun : ∀ cmd, (Call.record eid b).MayRun cmd → _ := fun _ h => h.plain hb
  recordAttempts_paired
    ((stops_recordChecks eid b).and_calls ((Sends.recordChecks permits_plain hrun ⟨true⟩).mono
      fun _ _ => trivial))
    (fun option prior => (stops_recordWrites eid b option prior).and_calls
      (Sends.recordWrites permits_plain hrun ⟨true⟩ (fun _ _ => trivial) prior))
    keepsStep_legible bbTxnAttempts .db out w hs hT

end Corestack.Brain
