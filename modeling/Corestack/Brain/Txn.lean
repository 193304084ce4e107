import Corestack.Brain.Walk

/-!
# Transactions, whatever the store answers

The seam sends its statements one after the other and gives up at the
first one that is not answered with ok. So a sequence of statements on one
connection either ran to its end with every statement carried out, or it
stopped at a failure. This file turns that into statements about whole
calls: `Work` is a run against tables that always answer, and each call
either ends as that run does, with its writes committed, or leaves the
committed tables alone.
-/

namespace Corestack.Brain

open Lib Db Prog

/-! ## Statements that are always carried out -/

/-- The tables a sequence of statements works on, and the number of the
next statement. -/
structure Work where
  tables : Tables
  clock : Nat

def ownReply (cap : Nat) (a : Answer) : DbStatus × Bytes :=
  match dbWireResponse cap (a.lines ++ [a.mark]) [] with
  | some (st, body, _) => (st, body)
  | none => (.io, [])

/-- A statement carried out on the tables of the transaction. -/
def idealExec (c : Chatter) (sql : Stmt) (cap : Nat) (t : Work) : (DbStatus × Bytes) × Work :=
  if breaksLine sql.text then ((.error, []), t)
  else match t.tables.write sql with
    | none => (ownReply cap (refused c t.clock sql t.tables none), t)
    | some t' => (ownReply cap (done c t.clock sql t' none (t.tables.query sql)),
        ⟨t', t.clock + 1⟩)

/-- The handler of a run in which no statement fails for outside reasons. -/
def idealHandle (c : Chatter) : (op : Op) → Work → Reply op × Work
  | .log _, t => ((), t)
  | .connect, t => (true, t)
  | .exec sql cap, t => idealExec c sql cap t
  | .close, t => ((), t)

/-- Neither begins nor ends a transaction. -/
def Stmt.isData : Stmt → Bool
  | .setTransaction | .commit | .rollback => false
  | _ => true

def Stmt.isSelect : Stmt → Bool
  | .selectElection _ | .selectCarried _ | .selectOptions _ | .selectEligible _
  | .selectBallot .. | .selectOwner .. | .selectNonce .. | .selectTally _ | .selectHashes _
  | .selectHash .. | .selectMaxSeq => true
  | _ => false

variable {sql : Stmt}

theorem BbDbCmd.MaySend.isData {cmd : BbDbCmd} (h : cmd.MaySend sql) : sql.isData = true := by
  cases h <;> rfl

theorem BbDbCmd.MaySend.isSelect {cmd : BbDbCmd} (h : cmd.MaySend sql)
    (hcmd : opIsWrite cmd = false) : sql.isSelect = true := by
  cases h <;> first | rfl | cases hcmd

theorem isData_of_isSelect (h : sql.isSelect = true) : sql.isData = true := by
  cases sql <;> first | rfl | cases h

theorem write_of_isSelect (h : sql.isSelect = true) (t : Tables) : t.write sql = some t := by
  cases sql <;> first | rfl | cases h

theorem serve_txn (h : sql.isData = true) (c : Chatter) (n : Nat) (db t : Tables) :
    serve c n sql db (some t) = match t.write sql with
      | none => refused c n sql db none
      | some t' => done c n sql db (some t') (t.query sql) := by
  cases sql <;> first | rfl | cases h

theorem serve_auto (h : sql.isData = true) (c : Chatter) (n : Nat) (db : Tables) :
    serve c n sql db none = match db.write sql with
      | none => refused c n sql db none
      | some t' => done c n sql t' none (db.query sql) := by
  cases sql <;> first | rfl | cases h

theorem serve_rollback_tables (c : Chatter) (n : Nat) (db : Tables) (txn : Option Tables) :
    (serve c n .rollback db txn).tables = db := by
  cases txn <;> rfl

/-! ## Statuses -/

variable {l : Bytes}

theorem lineBuf_dbMarkOk : lineBuf dbMarkOk = dbMarkOk := rfl
theorem lineBuf_dbMarkRetry : lineBuf dbMarkRetry = dbMarkRetry := rfl
theorem lineBuf_dbMarkError : lineBuf dbMarkError = dbMarkError := rfl
theorem isMarker_dbMarkOk : isMarker dbMarkOk = true := rfl
theorem isMarker_dbMarkRetry : isMarker dbMarkRetry = true := rfl
theorem isMarker_dbMarkError : isMarker dbMarkError = true := rfl
theorem classify_dbMarkRetry : classify dbMarkRetry = .retry := rfl
theorem classify_dbMarkError : classify dbMarkError = .error := rfl
theorem classify_dbMarkOk : classify dbMarkOk = .ok := if_pos rfl

variable {cap : Nat}

/-- A reply whose text has no end line in it is read exactly. -/
theorem ownReply_clean {db : Tables} {txn : Option Tables} {lines : List Bytes} {mark : Bytes}
    (hl : ∀ l ∈ lines, isMarker (lineBuf l) = false) (hm : lineBuf mark = mark)
    (hm' : isMarker mark = true) :
    ownReply cap ⟨db, txn, lines, mark⟩ = (classify mark, (bodyText lines).take (cap - 1)) := by
  rw [ownReply, dbWireResponse_eq hl (by rw [hm, hm'])]
  simp only [hm]

theorem ownReply_refused (c : Chatter) (n cap : Nat) (sql : Stmt) (db : Tables)
    (txn : Option Tables) : (ownReply cap (refused c n sql db txn)).1 = .error := by
  rw [refused, ownReply_clean (c.refusal_noMarker n sql) lineBuf_dbMarkError
    isMarker_dbMarkError, classify_dbMarkError]

theorem ownReply_deadlock (c : Chatter) (n cap : Nat) (sql : Stmt) (db : Tables) :
    (ownReply cap (deadlocked c n sql db)).1 = .retry := by
  rw [deadlocked,
    ownReply_clean (c.refusal_noMarker n sql) lineBuf_dbMarkRetry isMarker_dbMarkRetry,
    classify_dbMarkRetry]

theorem ownReply_congr {a b : Answer} (hl : a.lines = b.lines) (hm : a.mark = b.mark) :
    ownReply cap a = ownReply cap b := by
  simp only [ownReply, hl, hm]

theorem RawLine.lineBuf (h : RawLine l) : lineBuf l = l :=
  lineBuf_eq_self h.short h.noNul

theorem plain_before_after (c : Chatter) (n : Nat) (sql : Stmt) :
    ∀ l ∈ c.before n sql ++ c.after n sql, PlainLine l := by
  intro l hl
  rcases List.mem_append.mp hl with hl | hl
  · exact c.before_plain n sql l hl
  · exact c.after_plain n sql l hl

theorem ownReply_done_none (c : Chatter) (n cap : Nat) (sql : Stmt) (db : Tables)
    (txn : Option Tables) : (ownReply cap (done c n sql db txn none)).1 = .ok := by
  have hplain := plain_before_after c n sql
  have herr : (c.before n sql ++ c.after n sql).any isErrorLine = false := by
    rw [List.any_eq_false]
    exact fun l hl => by simp [(hplain l hl).noError]
  simp only [done, herr, Bool.false_eq_true, if_false]
  rw [ownReply_clean (fun l hl => by rw [(hplain l hl).lineBuf, (hplain l hl).noMarker])
    lineBuf_dbMarkOk isMarker_dbMarkOk]
  exact classify_dbMarkOk

/-! ## One statement on a connection

In this section every statement reads its own reply. -/

/-- Inside a transaction over the committed tables `T`. -/
def InTxn (T : Tables) (w : World) (t : Work) : Prop :=
  w.session = some ⟨none, some t.tables, []⟩ ∧ w.tables = T ∧ w.clock = t.clock

/-- On a connection without a transaction, where only selects run. -/
def InAuto (T : Tables) (w : World) (t : Work) : Prop :=
  w.session = some ⟨none, none, []⟩ ∧ w.tables = T ∧ t.tables = T ∧ w.clock = t.clock

section Paired

variable {env : Env} {sql : Stmt} {cap : Nat} {w : World} {T : Tables} {t : Work}

theorem readReply_own (hk : env.keepsUnread = false) (a : Answer) :
    readReply env cap ([] ++ a.lines ++ [a.mark]) = (ownReply cap a, []) := by
  rw [List.nil_append, readReply, ownReply]
  split <;> simp_all

def World.answered (w : World) (a : Answer) : World :=
  { w with tables := a.tables, session := some ⟨none, a.txn, []⟩, clock := w.clock + 1 }

def World.lost (w : World) (st : DbStatus) (r : Tables × Option Tables) : World :=
  { w with tables := r.1, session := some ⟨some st, r.2, []⟩, clock := w.clock + 1 }

/-- What a statement can meet on a connection that is in order. It is refused
before it is sent, answered as its tables say, refused or asked to retry by
the store, or the connection is lost, perhaps after it was carried out. -/
theorem exec_cases (sql : Stmt) (cap : Nat) (hk : env.keepsUnread = false) {txn : Option Tables}
    (hs : w.session = some ⟨none, txn, []⟩) :
    (breaksLine sql.text = true ∧ exec env sql cap w = ((.error, []), w)) ∨
    (breaksLine sql.text = false ∧ exec env sql cap w =
      (ownReply cap (serve env.chatter w.clock sql w.tables txn),
        w.answered (serve env.chatter w.clock sql w.tables txn))) ∨
    (∃ a, (ownReply cap a).1 ≠ .ok ∧ a.tables = w.tables ∧
      exec env sql cap w = (ownReply cap a, w.answered a)) ∨
    (∃ st applied, st ≠ .ok ∧ st ≠ .retry ∧ exec env sql cap w =
      ((st, []), w.lost st (serveLost env w.clock applied sql w.tables txn))) := by
  unfold exec
  simp only [hs]
  by_cases hb : breaksLine sql.text = true
  · exact .inl ⟨hb, by simp [hb]⟩
  · simp only [hb, Bool.false_eq_true, if_false, readReply_own hk]
    rcases hfate : env.fate w.clock with _ | aborts | _ | ⟨late, applied⟩
    · exact .inr (.inl ⟨by simp, rfl⟩)
    · refine .inr (.inr (.inl ⟨refused env.chatter w.clock sql w.tables
        (if aborts then none else txn), ?_, rfl, rfl⟩))
      rw [ownReply_refused]
      decide
    · refine .inr (.inr (.inl ⟨deadlocked env.chatter w.clock sql w.tables, ?_, rfl, rfl⟩))
      rw [ownReply_deadlock]
      decide
    · refine .inr (.inr (.inr ⟨if late then .timeout else .io, applied, ?_, ?_, rfl⟩))
      all_goals cases late <;> decide

theorem idealExec_of_write (hb : breaksLine sql.text = false) {t' : Tables}
    (hw : t.tables.write sql = some t') :
    idealExec env.chatter sql cap t =
      (ownReply cap (done env.chatter t.clock sql t' none (t.tables.query sql)),
        ⟨t', t.clock + 1⟩) := by
  simp [idealExec, hb, hw]

variable {n : Nat} {applied : Bool} {db : Tables}

theorem serveLost_tables {t : Tables} (hd : sql.isData = true) :
    (serveLost env n applied sql db (some t)).1 = db := by
  unfold serveLost
  split
  · simp only [serve_txn hd]
    split <;> rfl
  · rfl

theorem serveLost_select (hd : sql.isSelect = true) :
    (serveLost env n applied sql db none).1 = db := by
  unfold serveLost
  split
  · simp only [serve_auto (isData_of_isSelect hd), write_of_isSelect hd]
    rfl
  · rfl

/-- A statement inside a transaction fails and leaves the committed tables
alone, or it is carried out as in the ideal run. -/
theorem exec_inTxn (sql : Stmt) (cap : Nat) (hk : env.keepsUnread = false) (hd : sql.isData = true)
    (hw : InTxn T w t) :
    ((exec env sql cap w).1.1 ≠ .ok ∧ (exec env sql cap w).2.tables = T) ∨
    ((exec env sql cap w).1.1 = .ok ∧
      (exec env sql cap w).1 = (idealExec env.chatter sql cap t).1 ∧
      InTxn T (exec env sql cap w).2 (idealExec env.chatter sql cap t).2) := by
  obtain ⟨hs, rfl, hc⟩ := hw
  rcases exec_cases sql cap hk hs with
    ⟨-, he⟩ | ⟨hb, he⟩ | ⟨a, hne, ha, he⟩ | ⟨st, applied, hne, hnr, he⟩
  · exact .inl (by simp [he])
  · rw [serve_txn hd] at he
    cases hwr : t.tables.write sql with
    | none =>
      rw [hwr] at he
      refine .inl ?_
      rw [he]
      exact ⟨by rw [ownReply_refused]; decide, rfl⟩
    | some t' =>
      rw [hwr] at he
      rw [he, idealExec_of_write hb hwr, ← hc]
      have hreply : ownReply cap (done env.chatter w.clock sql w.tables (some t')
          (t.tables.query sql)) = ownReply cap (done env.chatter w.clock sql t' none
          (t.tables.query sql)) := ownReply_congr rfl rfl
      by_cases hok : (ownReply cap (done env.chatter w.clock sql w.tables (some t')
          (t.tables.query sql))).1 = .ok
      · exact .inr ⟨hok, hreply, rfl, rfl, rfl⟩
      · exact .inl ⟨hok, rfl⟩
  · refine .inl ?_
    rw [he]
    exact ⟨hne, ha⟩
  · refine .inl ?_
    rw [he]
    exact ⟨hne, serveLost_tables hd⟩

theorem exec_inAuto (sql : Stmt) (cap : Nat) (hk : env.keepsUnread = false)
    (hd : sql.isSelect = true)
    (hw : InAuto T w t) :
    ((exec env sql cap w).1.1 ≠ .ok ∧ (exec env sql cap w).2.tables = T) ∨
    ((exec env sql cap w).1.1 = .ok ∧
      (exec env sql cap w).1 = (idealExec env.chatter sql cap t).1 ∧
      InAuto T (exec env sql cap w).2 (idealExec env.chatter sql cap t).2) := by
  obtain ⟨hs, rfl, ht, hc⟩ := hw
  rcases exec_cases sql cap hk hs with
    ⟨-, he⟩ | ⟨hb, he⟩ | ⟨a, hne, ha, he⟩ | ⟨st, applied, hne, hnr, he⟩
  · exact .inl (by simp [he])
  · have hwr := write_of_isSelect hd t.tables
    rw [serve_auto (isData_of_isSelect hd), ← ht, hwr] at he
    rw [he, idealExec_of_write hb hwr, ← hc]
    by_cases hok : (ownReply cap (done env.chatter w.clock sql t.tables none
        (t.tables.query sql))).1 = .ok
    · exact .inr ⟨hok, rfl, rfl, ht, ht, rfl⟩
    · exact .inl ⟨hok, ht⟩
  · refine .inl ?_
    rw [he]
    exact ⟨hne, ha⟩
  · refine .inl ?_
    rw [he]
    exact ⟨hne, serveLost_select hd⟩

theorem exec_setTransaction (cap : Nat) (hk : env.keepsUnread = false)
    (hs : w.session = some ⟨none, none, []⟩) :
    (exec env .setTransaction cap w).2.tables = w.tables ∧
    ((exec env .setTransaction cap w).1.1 = .ok →
      InTxn w.tables (exec env .setTransaction cap w).2
        ⟨w.tables, (exec env .setTransaction cap w).2.clock⟩) := by
  rcases exec_cases .setTransaction cap hk hs with
    ⟨-, he⟩ | ⟨hb, he⟩ | ⟨a, hne, ha, he⟩ | ⟨st, applied, hne, hnr, he⟩
  · rw [he]
    exact ⟨rfl, by simp⟩
  · rw [he]
    exact ⟨rfl, fun _ => ⟨rfl, rfl, rfl⟩⟩
  · rw [he]
    exact ⟨ha, fun h => absurd h hne⟩
  · rw [he]
    refine ⟨?_, fun h => absurd h hne⟩
    simp only [World.lost, serveLost]
    split <;> rfl

/-- A commit is answered with ok exactly when it takes effect, unless the
answer of one that did is lost. -/
theorem exec_commit (cap : Nat) (hk : env.keepsUnread = false) (hw : InTxn T w t) :
    ((exec env .commit cap w).1.1 = .ok ∧ (exec env .commit cap w).2.tables = t.tables) ∨
    ((exec env .commit cap w).1.1 ≠ .ok ∧ ((exec env .commit cap w).2.tables = T ∨
      (exec env .commit cap w).1.1 ≠ .retry ∧ env.lostCommitApplies = true ∧
        (exec env .commit cap w).2.tables = t.tables)) := by
  obtain ⟨hs, rfl, hc⟩ := hw
  rcases exec_cases .commit cap hk hs with
    ⟨hb, -⟩ | ⟨hb, he⟩ | ⟨a, hne, ha, he⟩ | ⟨st, applied, hne, hnr, he⟩
  · cases hb
  · rw [he]
    exact .inl ⟨ownReply_done_none .., rfl⟩
  · rw [he]
    exact .inr ⟨hne, .inl ha⟩
  · rw [he]
    refine .inr ⟨hne, ?_⟩
    simp only [World.lost, serveLost]
    split
    · rename_i h
      exact .inr ⟨hnr, h.2 trivial, rfl⟩
    · exact .inl rfl

/-- Whatever the state of the connection, a rollback leaves the committed
tables alone. -/
theorem exec_rollback_tables (env : Env) (cap : Nat) (w : World) :
    (exec env .rollback cap w).2.tables = w.tables := by
  unfold exec
  split
  · rfl
  · split
    · rfl
    · split
      · rfl
      · dsimp only
        split
        · exact serve_rollback_tables ..
        · rfl
        · rfl
        · simp only [serveLost]
          split
          · exact serve_rollback_tables ..
          · rfl

end Paired

/-! ## The seam gives up at the first failure -/

def dataOp : Op → Prop
  | .log _ => True
  | .exec sql _ => sql.isData = true
  | _ => False

def selectOp : Op → Prop
  | .log _ => True
  | .exec sql _ => sql.isSelect = true
  | _ => False

def logOp : Op → Prop
  | .log _ => True
  | _ => False

def failedReply : (op : Op) → Reply op → Prop
  | .exec _ _, r => r.1 ≠ .ok
  | _, _ => False

/-- Only calls in `allowed`, and after a failed statement nothing but a log
line and a failure code. -/
def Stops (allowed : Op → Prop) {α : Type} (p : BrainM α) : Prop :=
  p.FailStop allowed logOp failedReply fun _ => False

namespace Stops

variable {allowed : Op → Prop} {α β : Type}

theorem ret (a : α) : Stops allowed (ret a : BrainM α) := trivial

theorem fail (e : BbErr) : Stops allowed (fail e : BrainM α) := trivial

theorem bind {p : BrainM α} {f : α → BrainM β} (hp : Stops allowed p)
    (hf : ∀ a, Stops allowed (f a)) : Stops allowed (p >>= f) :=
  FailStop.bind hp (fun _ h => h.elim) hf

theorem log {line : Bytes} (h : allowed (.log line)) : Stops allowed (bbLog line) :=
  ⟨h, fun _ => ⟨False.elim, fun _ => trivial⟩⟩

variable {sql : Stmt} {cap : Nat}

theorem execStmt (h : allowed (.exec sql cap)) : Stops allowed (execStmt sql cap) := by
  refine ⟨h, fun r => ?_⟩
  obtain ⟨st, body⟩ := r
  cases st with
  | ok => exact ⟨fun hb => absurd rfl hb, fun _ => trivial⟩
  | _ => exact ⟨fun _ => trivial, fun _ => trivial⟩

theorem walk (hlog : ∀ line, allowed (.log line)) :
    Walk (fun _ => True) (@Stops allowed) :=
  ⟨ret, fun _ => fail _, bind, fun line => log (hlog line)⟩

theorem runOp_read (hlog : ∀ line, allowed (.log line))
    (hsel : ∀ sql cap, sql.isSelect = true → allowed (.exec sql cap)) {cmd : BbDbCmd}
    (hcmd : opIsWrite cmd = false) : Stops allowed (runOp cmd) :=
  (walk hlog).runOp trivial fun sql cap h => execStmt (hsel sql cap (h.isSelect hcmd))

theorem walk_data : Walk (fun _ => True) (@Stops dataOp) := walk fun _ => trivial

theorem runOp (cmd : BbDbCmd) : Stops dataOp (runOp cmd) :=
  walk_data.runOp trivial fun _ _ h => execStmt h.isData

theorem dbExec (cmd : BbDbCmd) : Stops dataOp (dbExec ⟨true⟩ cmd) :=
  (log trivial).bind fun _ => runOp cmd

end Stops

theorem stops_recordChecks (eid : Id) (b : BbBallot) : Stops dataOp (recordChecks ⟨true⟩ eid b) :=
  Stops.walk_data.recordChecks (fun _ _ => trivial) Stops.dbExec eid b

theorem stops_recordWrites (eid : Id) (b : BbBallot) (option : Int) (prior : BbDbResult) :
    Stops dataOp (recordWrites ⟨true⟩ eid b option prior) :=
  Stops.walk_data.recordWrites Stops.dbExec eid b option prior

theorem stops_recordBallotLocked (eid : Id) (b : BbBallot) :
    Stops dataOp (recordBallotLocked ⟨true⟩ eid b) :=
  (stops_recordChecks eid b).bind fun p => stops_recordWrites eid b p.1 p.2

/-! ## Whole calls -/

/-- How a call with the writes of `p` ends: with success and the tables
changed as the ideal run of `p` changes them, or with a failure and the
tables as before, except for a commit whose answer was lost. -/
def Outcome (env : Env) {α : Type} (p : BrainM α) (T : Tables) (r : Except BbErr α)
    (T' : Tables) : Prop :=
  match r with
  | .ok a => ∃ n n', run (idealHandle env.chatter) p ⟨T, n⟩ = (.ok a, ⟨T', n'⟩)
  | .error e => T' = T ∨ e ≠ .retry ∧ env.lostCommitApplies = true ∧
      ∃ a n n', run (idealHandle env.chatter) p ⟨T, n⟩ = (.ok a, ⟨T', n'⟩)

section Calls

variable {env : Env} {α : Type} {w : World}

variable {p : BrainM α} {T : Tables} {t : Work}

/-- Statements on one connection, in a state `R` in which each of them
fails and leaves the committed tables `T` alone or runs as in the ideal
run. -/
theorem Stops.run_sim {allowed : Op → Prop} (hp : Stops allowed p) {R : World → Work → Prop}
    (hops : ¬ allowed .connect ∧ ¬ allowed .close)
    (hlog : ∀ line w t, R w t → R { w with log := w.log ++ [line] } t)
    (hexec : ∀ sql cap w t, allowed (.exec sql cap) → R w t →
      ((exec env sql cap w).1.1 ≠ .ok ∧ (exec env sql cap w).2.tables = T) ∨
      ((exec env sql cap w).1.1 = .ok ∧
        (exec env sql cap w).1 = (idealExec env.chatter sql cap t).1 ∧
        R (exec env sql cap w).2 (idealExec env.chatter sql cap t).2)) (hw : R w t) :
    (∃ e, (run (handle env) p w).1 = .error e ∧ (run (handle env) p w).2.tables = T) ∨
    ((run (handle env) p w).1 = (run (idealHandle env.chatter) p t).1 ∧
      R (run (handle env) p w).2 (run (idealHandle env.chatter) p t).2) := by
  have h := FailStop.run_sim (h := handle env) (g := idealHandle env.chatter)
    (R := R) (K := fun w => w.tables = T) hp ?_ ?_ w t hw
  · rcases h with ⟨hT, hno⟩ | h
    · cases hr : (run (handle env) p w).1 with
      | ok a => exact (hno a hr).elim
      | error e => exact .inl ⟨e, rfl, hT⟩
    · exact .inr h
  · intro op w t hop hwt
    cases op with
    | log line => exact .inr ⟨id, rfl, hlog line w t hwt⟩
    | exec sql cap =>
      rcases hexec sql cap w t hop hwt with h | ⟨hok, h⟩
      · exact .inl h
      · exact .inr ⟨fun hne => hne hok, h⟩
    | connect => exact (hops.1 hop).elim
    | close => exact (hops.2 hop).elim
  · intro op w hop hT
    cases op with
    | log line => exact hT
    | _ => exact hop.elim

theorem Stops.run_inTxn (hk : env.keepsUnread = false) (hp : Stops dataOp p) (hw : InTxn T w t) :
    (∃ e, (run (handle env) p w).1 = .error e ∧ (run (handle env) p w).2.tables = T) ∨
    ((run (handle env) p w).1 = (run (idealHandle env.chatter) p t).1 ∧
      InTxn T (run (handle env) p w).2 (run (idealHandle env.chatter) p t).2) :=
  hp.run_sim ⟨id, id⟩ (fun _ _ _ h => h) (fun _ _ _ _ hop h => exec_inTxn _ _ hk hop h) hw

theorem Stops.run_inAuto (hk : env.keepsUnread = false) (hp : Stops selectOp p)
    (hw : InAuto T w t) :
    (∃ e, (run (handle env) p w).1 = .error e ∧ (run (handle env) p w).2.tables = T) ∨
    ((run (handle env) p w).1 = (run (idealHandle env.chatter) p t).1 ∧
      InAuto T (run (handle env) p w).2 (run (idealHandle env.chatter) p t).2) :=
  hp.run_sim ⟨id, id⟩ (fun _ _ _ h => h) (fun _ _ _ _ hop h => exec_inAuto _ _ hk hop h) hw

theorem Stops.run_txn_cases (hk : env.keepsUnread = false) (hp : Stops dataOp p)
    (hw : InTxn T w t) :
    (∃ e w', run (handle env) p w = (.error e, w') ∧ w'.tables = T) ∨
    (∃ a w' t', run (handle env) p w = (.ok a, w') ∧
      run (idealHandle env.chatter) p t = (.ok a, t') ∧ InTxn T w' t') := by
  rcases hp.run_inTxn hk hw with ⟨e, he, hT⟩ | ⟨heq, hR⟩
  · exact .inl ⟨e, _, Prod.ext he rfl, hT⟩
  · cases hr : (run (idealHandle env.chatter) p t).1 with
    | ok a => exact .inr ⟨a, _, _, Prod.ext (heq.trans hr) rfl, Prod.ext hr rfl, hR⟩
    | error e => exact .inl ⟨e, _, Prod.ext (heq.trans hr) rfl, hR.2.1⟩

variable {σ : Type}

theorem run_execStmt (h : (op : Op) → σ → Reply op × σ) (sql : Stmt) (cap : Nat) (s : σ) :
    run h (execStmt sql cap) s =
      ((mapStatus (h (.exec sql cap) s).1.1).map fun _ => (h (.exec sql cap) s).1.2,
        (h (.exec sql cap) s).2) := by
  simp only [execStmt, dbSocketExec, request, call_bind, ret_bind, run_call]
  split <;> simp_all [Except.map]

variable {st : DbStatus}

theorem mapStatus_ok (h : st = .ok) : mapStatus st = .ok () := by rw [h]; rfl

theorem mapStatus_error (h : st ≠ .ok) :
    ∃ e, mapStatus st = .error e ∧ (e = .retry ↔ st = .retry) := by
  cases st <;> first | exact absurd rfl h | exact ⟨_, rfl, by decide⟩

theorem run_execStmt_cases (env : Env) (sql : Stmt) (cap : Nat) (w : World) :
    ((exec env sql cap w).1.1 = .ok ∧ run (handle env) (execStmt sql cap) w =
      (.ok (exec env sql cap w).1.2, (exec env sql cap w).2)) ∨
    ((exec env sql cap w).1.1 ≠ .ok ∧ ∃ e, (e = .retry ↔ (exec env sql cap w).1.1 = .retry) ∧
      run (handle env) (execStmt sql cap) w = (.error e, (exec env sql cap w).2)) := by
  rw [run_execStmt]
  by_cases h : (exec env sql cap w).1.1 = .ok
  · exact .inl ⟨h, by simp only [handle, mapStatus_ok h]; rfl⟩
  · obtain ⟨e, he, hretry⟩ := mapStatus_error h
    exact .inr ⟨h, e, hretry, by simp only [handle, he]; rfl⟩

theorem run_setTransaction (hk : env.keepsUnread = false)
    (hs : w.session = some ⟨none, none, []⟩) (cap : Nat) :
    (∃ e w', run (handle env) (execStmt .setTransaction cap) w = (.error e, w') ∧
      w'.tables = w.tables) ∨
    (∃ body w' n, run (handle env) (execStmt .setTransaction cap) w = (.ok body, w') ∧
      InTxn w.tables w' ⟨w.tables, n⟩) := by
  obtain ⟨hT, hin⟩ := exec_setTransaction cap hk hs
  rcases run_execStmt_cases env .setTransaction cap w with ⟨hok, h⟩ | ⟨-, e, -, h⟩
  · exact .inr ⟨_, _, _, h, hin hok⟩
  · exact .inl ⟨e, _, h, hT⟩

theorem run_commit (hk : env.keepsUnread = false) (hw : InTxn T w t) (cap : Nat) :
    (∃ e w', run (handle env) (execStmt .commit cap) w = (.error e, w') ∧
      (w'.tables = T ∨ e ≠ .retry ∧ env.lostCommitApplies = true ∧ w'.tables = t.tables)) ∨
    (∃ body w', run (handle env) (execStmt .commit cap) w = (.ok body, w') ∧
      w'.tables = t.tables) := by
  rcases run_execStmt_cases env .commit cap w with ⟨hok, h⟩ | ⟨hne, e, hretry, h⟩
  · rcases exec_commit cap hk hw with ⟨-, hT⟩ | ⟨hne, -⟩
    · exact .inr ⟨_, _, h, hT⟩
    · exact absurd hok hne
  · rcases exec_commit cap hk hw with ⟨hok, -⟩ | ⟨-, hT⟩
    · exact absurd hok hne
    · rw [Ne, ← hretry] at hT
      exact .inl ⟨e, _, h, hT⟩

theorem run_begin_stmts (hk : env.keepsUnread = false) (hp : Stops dataOp p)
    (hs : w.session = some ⟨none, none, []⟩) :
    (∃ e w', run (handle env) (execStmt .setTransaction 0 >>= fun _ => p) w = (.error e, w') ∧
      w'.tables = w.tables) ∨
    (∃ a w' n t', run (handle env) (execStmt .setTransaction 0 >>= fun _ => p) w =
        (.ok a, w') ∧ run (idealHandle env.chatter) p ⟨w.tables, n⟩ = (.ok a, t') ∧
      InTxn w.tables w' t') := by
  rcases run_setTransaction hk hs 0 with ⟨e, w₁, h, hT⟩ | ⟨body, w₁, n, h, hin⟩
  · exact .inl ⟨e, w₁, run_bind_of_error h, hT⟩
  · rw [run_bind_of_ok h]
    rcases hp.run_txn_cases hk hin with ⟨e, w₂, h₂, hT⟩ | ⟨a, w₂, t', h₂, hideal, hin'⟩
    · exact .inl ⟨e, w₂, h₂, hT⟩
    · exact .inr ⟨a, w₂, n, t', h₂, hideal, hin'⟩

variable {cmd : BbDbCmd}

theorem oneShotBody_write (hk : env.keepsUnread = false) (hcmd : opIsWrite cmd = true)
    (hs : w.session = some ⟨none, none, []⟩) :
    Outcome env (runOp cmd) w.tables (run (handle env) (oneShotBody cmd) w).1
      (run (handle env) (oneShotBody cmd) w).2.tables := by
  rw [oneShotBody, if_pos hcmd]
  rcases run_begin_stmts hk (Stops.runOp cmd) hs with
    ⟨e, w₁, h, hT⟩ | ⟨out, w₁, n, t', h, hideal, hin⟩
  · rw [run_bind_attempt h]
    -- A retry ends the attempt at once, any other failure after a rollback.
    dsimp only
    split
    · exact .inl hT
    · exact .inl ((exec_rollback_tables env 0 w₁).trans hT)
  · rw [run_bind_attempt h]
    rcases run_commit hk hin 0 with ⟨e, w₂, h₂, hT⟩ | ⟨body, w₂, h₂, hT⟩
    · rw [run_bind_of_error h₂]
      rcases hT with hT | ⟨hne, hlost, hT⟩
      · exact .inl hT
      · exact .inr ⟨hne, hlost, out, n, t'.clock, by rw [hideal, hT]⟩
    · rw [run_bind_of_ok h₂]
      exact ⟨n, t'.clock, by simp only [hideal, pure_eq, run_ret, hT]⟩

theorem oneShotBody_read (hk : env.keepsUnread = false) (hcmd : opIsWrite cmd = false)
    (hs : w.session = some ⟨none, none, []⟩) :
    Outcome env (runOp cmd) w.tables (run (handle env) (oneShotBody cmd) w).1
      (run (handle env) (oneShotBody cmd) w).2.tables := by
  rw [oneShotBody, if_neg (by simp [hcmd])]
  have hp : Stops selectOp (runOp cmd) := Stops.runOp_read (fun _ => trivial) (fun _ _ h => h) hcmd
  have hin : InAuto w.tables w ⟨w.tables, w.clock⟩ := ⟨hs, rfl, rfl, rfl⟩
  rcases hp.run_inAuto hk hin with ⟨e, he, hT⟩ | ⟨heq, hR⟩
  · rw [he]
    exact .inl hT
  · rw [heq]
    cases hr : (run (idealHandle env.chatter) (runOp cmd) ⟨w.tables, w.clock⟩).1 with
    | error e => exact .inl hR.2.1
    | ok out =>
      refine ⟨w.clock, (run (idealHandle env.chatter) (runOp cmd)
        ⟨w.tables, w.clock⟩).2.clock, Prod.ext hr ?_⟩
      have : (run (idealHandle env.chatter) (runOp cmd) ⟨w.tables, w.clock⟩).2.tables =
          (run (handle env) (runOp cmd) w).2.tables := hR.2.2.1.trans hR.2.1.symm
      rw [← this]

theorem oneShotBody_outcome (hk : env.keepsUnread = false) (cmd : BbDbCmd)
    (hs : w.session = some ⟨none, none, []⟩) :
    Outcome env (runOp cmd) w.tables (run (handle env) (oneShotBody cmd) w).1
      (run (handle env) (oneShotBody cmd) w).2.tables := by
  cases hcmd : opIsWrite cmd with
  | true => exact oneShotBody_write hk hcmd hs
  | false => exact oneShotBody_read hk hcmd hs

def World.connected (w : World) : World :=
  { w with session := some ⟨none, none, []⟩, clock := w.clock + 1 }

def World.unreached (w : World) : World := { w with clock := w.clock + 1 }

theorem run_dbSocketOpen (env : Env) (w : World) (f : Bool → BrainM α) :
    run (handle env) (dbSocketOpen >>= f) w =
      if env.fate w.clock = .answer then run (handle env) (f true) w.connected
      else run (handle env) (f false) w.unreached := by
  simp only [dbSocketOpen, request, call_bind, ret_bind, run_call, handle]
  split <;> rfl

theorem oneShotAttempt_outcome (hk : env.keepsUnread = false) (cmd : BbDbCmd)
    (hs : w.session = none) :
    (run (handle env) (oneShotAttempt cmd) w).2.session = none ∧
    Outcome env (runOp cmd) w.tables (run (handle env) (oneShotAttempt cmd) w).1
      (run (handle env) (oneShotAttempt cmd) w).2.tables := by
  rw [oneShotAttempt, run_dbSocketOpen]
  split
  · have h := oneShotBody_outcome (w := w.connected) hk cmd rfl
    rw [if_pos rfl, run_bind_of_ok (run_attempt ..)]
    revert h
    generalize run (handle env) (oneShotBody cmd) w.connected = res
    obtain ⟨r, w'⟩ := res
    intro h
    cases r with
    | ok out | error e => exact ⟨rfl, h⟩
  · exact ⟨hs, .inl rfl⟩

/-- The attempts of a one-shot command: only a retry is repeated, and a
retry has changed nothing. -/
theorem oneShot_outcome (hk : env.keepsUnread = false) (cmd : BbDbCmd) (k : Nat) :
    ∀ w, w.session = none →
      (run (handle env) (oneShot cmd k) w).2.session = none ∧
      Outcome env (runOp cmd) w.tables (run (handle env) (oneShot cmd k) w).1
        (run (handle env) (oneShot cmd k) w).2.tables := by
  induction k with
  | zero => exact fun w hs => ⟨hs, .inl rfl⟩
  | succ k ih =>
    intro w hs
    have h := oneShotAttempt_outcome hk cmd hs
    rw [oneShot, run_bind_of_ok (run_attempt ..)]
    revert h
    generalize run (handle env) (oneShotAttempt cmd) w = res
    obtain ⟨r, w'⟩ := res
    rintro ⟨hs', h⟩
    cases r with
    | ok out => exact ⟨hs', h⟩
    | error e =>
      dsimp only
      split
      · rename_i he
        have hT : w'.tables = w.tables := h.resolve_right fun h => h.1 he
        have := ih w' hs'
        rw [hT] at this
        exact this
      · exact ⟨hs', h⟩

/-- A command of the seam on a connection of its own: if it succeeds, the
tables are those of an ideal run, and if it fails they are untouched, unless
a commit took effect and its answer was lost. -/
theorem dbExec_outcome (hk : env.keepsUnread = false) (hs : w.session = none) {cmd : BbDbCmd}
    {r : Except BbErr BbDbResult} {w' : World}
    (hrun : run (handle env) (dbExec ⟨false⟩ cmd) w = (r, w')) :
    w'.session = none ∧ Outcome env (runOp cmd) w.tables r w'.tables := by
  have h := oneShot_outcome hk cmd selfRetryAttempts (handle env (.log (logCmd cmd)) w).2 hs
  rwa [show run (handle env) (oneShot cmd selfRetryAttempts) _ = (r, w') from hrun] at h

theorem run_bbDbBegin (hk : env.keepsUnread = false) (hs : w.session = none) :
    (∃ e w', run (handle env) (bbDbBegin ⟨false⟩) w = (.error e, w') ∧
      w'.session = none ∧ w'.tables = w.tables) ∨
    (∃ w' n, run (handle env) (bbDbBegin ⟨false⟩) w = (.ok ⟨true⟩, w') ∧
      InTxn w.tables w' ⟨w.tables, n⟩) := by
  rw [bbDbBegin, if_neg (by decide), run_dbSocketOpen]
  split
  · rw [if_pos rfl]
    rcases run_setTransaction (w := w.connected) hk rfl 0 with
      ⟨e, w₁, h, hT⟩ | ⟨body, w₁, n, h, hin⟩
    · rw [run_bind_attempt h]
      exact .inl ⟨e, _, rfl, rfl, hT⟩
    · rw [run_bind_attempt h]
      exact .inr ⟨_, n, rfl, hin⟩
  · exact .inl ⟨.db, _, rfl, hs, rfl⟩

theorem run_bbDbRollback (env : Env) (w : World) :
    ∃ w', run (handle env) (bbDbRollback ⟨true⟩) w = (.ok ⟨false⟩, w') ∧
      w'.session = none ∧ w'.tables = w.tables :=
  ⟨_, rfl, rfl, exec_rollback_tables env 0 w⟩

theorem run_bbDbCommit (hk : env.keepsUnread = false) (hw : InTxn T w t) :
    ∃ r w', run (handle env) (bbDbCommit ⟨true⟩) w = (.ok (r, ⟨false⟩), w') ∧
      w'.session = none ∧
      ((r = .ok () ∧ w'.tables = t.tables) ∨
        ∃ e, r = .error e ∧ (w'.tables = T ∨
          e ≠ .retry ∧ env.lostCommitApplies = true ∧ w'.tables = t.tables)) := by
  rw [bbDbCommit, if_pos rfl]
  rcases run_commit hk hw 0 with ⟨e, w₁, h, hT⟩ | ⟨body, w₁, h, hT⟩
  · rw [run_bind_attempt h]
    exact ⟨_, _, rfl, rfl, .inr ⟨e, rfl, hT⟩⟩
  · rw [run_bind_attempt h]
    exact ⟨_, _, rfl, rfl, .inl ⟨rfl, hT⟩⟩

/-- The out-parameter does not change how `record_ballot_locked` runs; it is
left alone, or holds a receipt of the ballot. -/
theorem run_recordBallotLockedOut {h : (op : Op) → σ → Reply op × σ} {s s' : σ} {ctx : BbCtx}
    {eid : Id} {b : BbBallot} {r : Except BbErr BbReceipt} (out : BbReceipt)
    (hrun : run h (recordBallotLocked ctx eid b) s = (r, s')) :
    ∃ out', run h (recordBallotLockedOut ctx eid b out) s = (.ok (r, out'), s') ∧
      (out' = out ∨ ∃ version, out' = receiptOf b version) := by
  unfold recordBallotLockedOut
  rcases hchecks : run h (recordChecks ctx eid b) s with ⟨e | ⟨option, prior⟩, s₁⟩
  · rw [recordBallotLocked, run_bind_of_error hchecks] at hrun
    cases hrun
    rw [run_bind_attempt hchecks]
    exact ⟨out, rfl, .inl rfl⟩
  · rw [recordBallotLocked, run_bind_of_ok hchecks] at hrun
    rw [run_bind_attempt hchecks]
    rw [run_bind_attempt hrun]
    exact ⟨_, rfl, .inr ⟨_, rfl⟩⟩

/-- The attempts of `bb_record_ballot`. Each opens its own transaction; one
that asks for a retry has changed nothing, so the next starts afresh. -/
theorem recordAttempts_outcome (hk : env.keepsUnread = false) (eid : Id) (b : BbBallot) (k : Nat) :
    ∀ r out w, w.session = none →
      ∃ res out' w', run (handle env) (recordAttempts ⟨false⟩ eid b k r out) w =
          (.ok (res, out', ⟨false⟩), w') ∧ w'.session = none ∧
        Outcome env (recordBallotLocked ⟨true⟩ eid b) w.tables res w'.tables := by
  induction k with
  | zero => exact fun r out w hs => ⟨_, _, w, rfl, hs, .inl rfl⟩
  | succ k ih =>
    intro r out w hs
    rw [recordAttempts]
    rcases run_bbDbBegin hk hs with ⟨e, w₁, h, hs₁, hT⟩ | ⟨w₁, n, h, hin⟩
    · rw [run_bind_attempt h]
      exact ⟨_, _, _, rfl, hs₁, .inl hT⟩
    rw [run_bind_attempt h]
    rcases (stops_recordBallotLocked eid b).run_txn_cases hk hin with
      ⟨e, w₂, h₂, hT⟩ | ⟨receipt, w₂, t', h₂, hideal, hin₂⟩
    · obtain ⟨out₂, h₂, -⟩ := run_recordBallotLockedOut out h₂
      rw [run_bind_of_ok h₂]
      obtain ⟨w₃, h₃, hs₃, hT₃⟩ := run_bbDbRollback env w₂
      rw [hT] at hT₃
      rw [run_bind_of_ok h₃]
      split
      · obtain ⟨res, out', w', hrun, hs', hout⟩ := ih e out₂ w₃ hs₃
        rw [hT₃] at hout
        exact ⟨res, out', w', hrun, hs', hout⟩
      · exact ⟨_, _, w₃, rfl, hs₃, .inl hT₃⟩
    · obtain ⟨out₂, h₂, -⟩ := run_recordBallotLockedOut out h₂
      rw [run_bind_of_ok h₂]
      obtain ⟨res, w₃, h₃, hs₃, ⟨rfl, hT⟩ | ⟨e, rfl, hT⟩⟩ := run_bbDbCommit hk hin₂
      · rw [run_bind_of_ok h₃]
        exact ⟨_, _, w₃, rfl, hs₃, n, t'.clock, by rw [hideal, hT]⟩
      · rw [run_bind_of_ok h₃]
        dsimp only
        split
        · rename_i he
          obtain ⟨res, out', w', hrun, hs', hout⟩ := ih e out₂ w₃ hs₃
          rw [hT.resolve_right fun h => h.1 he] at hout
          exact ⟨res, out', w', hrun, hs', hout⟩
        · refine ⟨_, _, w₃, rfl, hs₃, hT.imp_right ?_⟩
          rintro ⟨hne, hlost, hT⟩
          exact ⟨hne, hlost, receipt, n, t'.clock, by rw [hideal, hT]⟩

/-- `bb_record_ballot` under any pattern of failures: it returns, no
transaction stays open, and its outcome is that of one attempt. -/
theorem bbRecordBallot_outcome (hk : env.keepsUnread = false) (eid : Id) (b : BbBallot)
    (out : BbReceipt) (hs : w.session = none) :
    ∃ res out' w', run (handle env) (bbRecordBallot ⟨false⟩ eid b out) w =
        (.ok (res, out', ⟨false⟩), w') ∧ w'.session = none ∧
      Outcome env (recordBallotLocked ⟨true⟩ eid b) w.tables res w'.tables :=
  recordAttempts_outcome hk eid b bbTxnAttempts .db out w hs

end Calls

end Corestack.Brain
