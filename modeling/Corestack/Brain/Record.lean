import Corestack.Brain.Txn

/-!
# What recording a ballot does to the tables

The ideal run of `record_ballot_locked`, taken apart: what was read, and
the tables that its writes leave.
-/

namespace Corestack.Brain

open Option Lib Db Prog

/-! ## One recorded ballot -/

def liveRow (eid : Id) (hash : Hash) (option version : Int) : BallotRow :=
  ⟨quoted eid.val, quoted hash.val, option, version, 0⟩

/-- The prior ballot as the seam read it: the hash in the owner row, and the
option and version of the row with that hash. -/
structure Prior where
  hash : Hash
  option : Int
  version : Int

/-- Delete every row with the hash and reinsert one, superseded. -/
def supersede (eid : Id) (p : Prior) (rows : List BallotRow) : List BallotRow :=
  rows.filter (fun r => ¬ (r.electionId = quoted eid.val ∧ r.hash = quoted p.hash.val)) ++
    [⟨quoted eid.val, quoted p.hash.val, p.option, p.version, 1⟩]

/-- Point the voter's record at a ballot. -/
def setOwner (eid : Id) (cert : CertName) (hash : Hash) (version : Int) (rows : List OwnerRow) :
    List OwnerRow :=
  rows.filter (fun r => ¬ (r.electionId = quoted eid.val ∧ r.certName = quoted cert.val)) ++
    [⟨quoted eid.val, quoted cert.val, quoted hash.val, version⟩]

/-- The tables after one complete ballot recording. -/
def recorded (T : Tables) (eid : Id) (b : BbBallot) (hash : Hash) (version : Int)
    (prior : Option Prior) : Tables :=
  let rows := T.ballot ++ [liveRow eid hash b.option version]
  { T with
    ballot := match prior with
      | none => rows
      | some p => supersede eid p rows
    owner := setOwner eid b.certName hash version T.owner
    nonce := T.nonce ++ [⟨quoted eid.val, quoted b.nonce.val⟩] }

/-! ## Statements and commands of the ideal run -/

section Ideal

variable {c : Chatter} {sql : Stmt} {cap : Nat} {t t' : Work}

theorem ideal_execStmt_ok {body : Bytes}
    (hrun : run (idealHandle c) (execStmt sql cap) t = (.ok body, t')) :
    breaksLine sql.text = false ∧ t.tables.write sql = some t'.tables ∧
      ownReply cap (done c t.clock sql t'.tables none (t.tables.query sql)) = (.ok, body) := by
  rw [run_execStmt] at hrun
  simp only [idealHandle, idealExec] at hrun
  by_cases hb : breaksLine sql.text = true
  · simp [hb, mapStatus, Except.map] at hrun
  · simp only [hb, Bool.false_eq_true, if_false] at hrun
    cases hw : t.tables.write sql with
    | none => simp [hw, ownReply_refused, mapStatus, Except.map] at hrun
    | some T' =>
      simp only [hw, Prod.mk.injEq] at hrun
      obtain ⟨hr, rfl⟩ := hrun
      refine ⟨by simpa using hb, rfl, ?_⟩
      by_cases hok : (ownReply cap (done c t.clock sql T' none (t.tables.query sql))).1 = .ok
      · rw [hok] at hr
        exact Prod.ext hok (by simpa [mapStatus, Except.map] using hr)
      · obtain ⟨e, he, -⟩ := mapStatus_error hok
        simp [he, Except.map] at hr

theorem Stops.ideal_tables {α : Type} {p : BrainM α} (hp : Stops selectOp p) (t : Work) :
    (run (idealHandle c) p t).2.tables = t.tables := by
  have hexec : ∀ sql cap s, sql.isSelect = true → s.tables = t.tables →
      (idealHandle c (.exec sql cap) s).2.tables = t.tables := by
    intro sql cap s hsel hs
    simp only [idealHandle, idealExec, write_of_isSelect hsel]
    split <;> exact hs
  have h := FailStop.run_sim (h := idealHandle c) (g := idealHandle c)
    (R := fun s s' => s = s' ∧ s.tables = t.tables) (K := fun s => s.tables = t.tables)
    hp ?_ ?_ t t ⟨rfl, rfl⟩
  · rcases h with h | h
    · exact h.1
    · exact h.2.2
  · rintro op s s' hop ⟨rfl, hs⟩
    by_cases hb : failedReply op (idealHandle c op s).1
    · refine .inl ⟨hb, ?_⟩
      cases op with
      | exec sql cap => exact hexec sql cap s hop hs
      | log line => exact hs
      | _ => exact hop.elim
    · refine .inr ⟨hb, rfl, rfl, ?_⟩
      cases op with
      | exec sql cap => exact hexec sql cap s hop hs
      | log line => exact hs
      | _ => exact hop.elim
  · intro op s hop hs
    cases op with
    | log line => exact hs
    | _ => exact hop.elim

/-- Inside the transaction a command is its statements: logging has no
effect on the tables. -/
theorem ideal_dbExec (cmd : BbDbCmd) (t : Work) :
    run (idealHandle c) (dbExec ⟨true⟩ cmd) t = run (idealHandle c) (runOp cmd) t := rfl

variable {out : BbDbResult}

theorem ideal_read_tables {cmd : BbDbCmd} (hcmd : opIsWrite cmd = false)
    (hrun : run (idealHandle c) (runOp cmd) t = (.ok out, t')) : t'.tables = t.tables := by
  have hp : Stops selectOp (runOp cmd) := Stops.runOp_read (fun _ => trivial) (fun _ _ h => h) hcmd
  have := hp.ideal_tables (c := c) t
  rwa [hrun] at this

variable {id : Id}

theorem ideal_appendBallot {row : BbBallotHash}
    (hrun : run (idealHandle c) (runOp (.appendBallot id row)) t = (.ok out, t')) :
    (0 ≤ row.version ∧ row.version < 2 ^ 31) ∧
      t'.tables = { t.tables with ballot := t.tables.ballot ++
        [⟨quoted id.val, quoted row.hash.val, row.optionIndex, row.version, row.superseded⟩] } := by
  obtain ⟨_, t₁, h₁, h₂⟩ := run_bind_ok hrun
  cases h₂
  obtain ⟨body, t₂, h₂, h₃⟩ := run_bind_ok h₁
  cases h₃
  obtain ⟨-, hw, -⟩ := ideal_execStmt_ok h₂
  simp only [Tables.write, bind_eq_bind, bind_eq_some_iff, pure_def,
    Option.some.injEq] at hw
  obtain ⟨opt, hopt, ver, hver, sup, hsup, hT⟩ := hw
  obtain ⟨rfl, -⟩ := readInt_fmtInt_some hopt
  obtain ⟨rfl, hrange⟩ := readInt_fmtInt_some hver
  obtain ⟨rfl, -⟩ := readInt_fmtInt_some hsup
  exact ⟨hrange, hT.symm⟩

/-- The option and the version that `run_mark_superseded` reads for a hash. -/
def MarkRead (c : Chatter) (T : Tables) (id : Id) (hash : Hash) (opt ver : Int) : Prop :=
  ∃ n body o v, ownReply bodyMax (done c n (.selectBallot id hash) T none
      (T.query (.selectBallot id hash))) = (.ok, body) ∧
    readMarked body = some (o, v) ∧ readInt o = some opt ∧ readInt v = some ver

variable {hash : Hash}

theorem ideal_markSuperseded
    (hrun : run (idealHandle c) (runOp (.markSuperseded id hash)) t = (.ok out, t')) :
    ∃ opt ver, MarkRead c t.tables id hash opt ver ∧
      t'.tables = { t.tables with ballot := supersede id ⟨hash, opt, ver⟩ t.tables.ballot } := by
  obtain ⟨_, t₁, h₁, h₂⟩ := run_bind_ok hrun
  cases h₂
  obtain ⟨body, t₂, h₂, h₃⟩ := run_bind_ok h₁
  obtain ⟨-, hw₂, hreply⟩ := ideal_execStmt_ok h₂
  have ht₂ : t₂.tables = t.tables := (Option.some.inj hw₂).symm
  cases hm : readMarked body with
  | none =>
    rw [hm] at h₃
    cases h₃
  | some p =>
    obtain ⟨opt, ver⟩ := p
    rw [hm] at h₃
    obtain ⟨_, t₃, h₄, h₅⟩ := run_bind_ok h₃
    obtain ⟨_, t₄, h₆, h₇⟩ := run_bind_ok h₅
    cases h₇
    obtain ⟨-, hw₃, -⟩ := ideal_execStmt_ok h₄
    obtain ⟨-, hw₄, -⟩ := ideal_execStmt_ok h₆
    simp only [Tables.write, bind_eq_bind, bind_eq_some_iff, pure_def,
      Option.some.injEq] at hw₃ hw₄
    obtain ⟨opt', hopt, ver', hver, sup, hsup, hT⟩ := hw₄
    have hone : sup = 1 := Option.some.inj (hsup.symm.trans (by decide +kernel))
    subst hone
    refine ⟨opt', ver', ⟨_, body, opt, ver, hreply, hm, hopt, hver⟩, ?_⟩
    rw [← hT, ← hw₃, ht₂]
    rfl

theorem ideal_setOwner {cert : CertName} {version : Int}
    (hrun : run (idealHandle c) (runOp (.setOwner id cert hash version)) t = (.ok out, t')) :
    t'.tables = { t.tables with owner := setOwner id cert hash version t.tables.owner } := by
  obtain ⟨_, t₁, h₁, h₂⟩ := run_bind_ok hrun
  cases h₂
  obtain ⟨_, t₂, h₂, h₃⟩ := run_bind_ok h₁
  obtain ⟨_, t₃, h₄, h₅⟩ := run_bind_ok h₃
  cases h₅
  obtain ⟨-, hw₂, -⟩ := ideal_execStmt_ok h₂
  obtain ⟨-, hw₃, -⟩ := ideal_execStmt_ok h₄
  simp only [Tables.write, bind_eq_bind, bind_eq_some_iff, pure_def,
    Option.some.injEq] at hw₂ hw₃
  obtain ⟨ver, hver, hT⟩ := hw₃
  obtain ⟨rfl, -⟩ := readInt_fmtInt_some hver
  rw [← hT, ← hw₂]
  rfl

theorem ideal_nonceMark {nonce : Nonce}
    (hrun : run (idealHandle c) (runOp (.nonceMark id nonce)) t = (.ok out, t')) :
    t'.tables = { t.tables with
      nonce := t.tables.nonce ++ [⟨quoted id.val, quoted nonce.val⟩] } := by
  obtain ⟨_, t₁, h₁, h₂⟩ := run_bind_ok hrun
  cases h₂
  obtain ⟨_, t₂, h₂, h₃⟩ := run_bind_ok h₁
  cases h₃
  obtain ⟨-, hw, -⟩ := ideal_execStmt_ok h₂
  exact (Option.some.inj hw).symm

/-! ## The handler -/

/-- The gate lets a ballot through that chooses an option of an open
election for an eligible voter. -/
structure Admitted (e : BbElection) (b : BbBallot) : Prop where
  opened : e.state = .opened
  eligible : bbCheckEligibility e b.certName = true
  option_nonneg : 0 ≤ b.option
  option_lt : b.option < e.optionCount

variable {eid : Id} {b : BbBallot}

theorem ideal_recordGate {o : Int}
    (hrun : run (idealHandle c) (recordGate ⟨true⟩ eid b) t = (.ok o, t')) :
    o = b.option ∧ ∃ res, run (idealHandle c) (runOp (.getElection eid)) t = (.ok res, t') ∧
      res.found = true ∧ Admitted res.election b := by
  obtain ⟨e, t₁, h₁, h₂⟩ := run_bind_ok hrun
  obtain ⟨res, t₂, h₃, h₄⟩ := run_bind_ok h₁
  rw [ideal_dbExec] at h₃
  split at h₄
  case isFalse => cases h₄
  case isTrue hfound =>
  cases h₄
  split at h₂
  case isTrue => cases h₂
  case isFalse hclosed =>
  split at h₂
  case isTrue => cases h₂
  case isFalse hopen =>
  split at h₂
  case isTrue =>
    obtain ⟨_, _, _, h⟩ := run_bind_ok h₂
    cases h
  case isFalse helig =>
  obtain ⟨o', t₄, h₅, h₆⟩ := run_bind_ok h₂
  cases h₅
  split at h₆
  case isTrue => cases h₆
  case isFalse hopt =>
  cases h₆
  exact ⟨rfl, res, h₃, hfound, by simpa using hopen, by simpa using helig, by omega, by omega⟩

/-- How the prior ballot enters a recording. -/
structure PriorRead (c : Chatter) (T : Tables) (eid : Id) (b : BbBallot) (found : BbDbResult)
    (prior : Option Prior) : Prop where
  none_of : found.found = false → prior = none
  some_of : found.found = true → ∃ opt ver, prior = some ⟨found.row.hash, opt, ver⟩ ∧
    MarkRead c { T with ballot := T.ballot ++ [liveRow eid
      (receiptHash b.nonce (nextVersion found)) b.option (nextVersion found)] }
      eid found.row.hash opt ver

variable {rcpt : BbReceipt}

theorem ideal_recordWrites {found : BbDbResult}
    (hrun : run (idealHandle c) (recordWrites ⟨true⟩ eid b b.option found) t =
      (.ok rcpt, t')) :
    rcpt = receiptOf b (nextVersion found) ∧
      (0 ≤ nextVersion found ∧ nextVersion found < 2 ^ 31) ∧
      ∃ prior, PriorRead c t.tables eid b found prior ∧
        t'.tables = recorded t.tables eid b rcpt.hash (nextVersion found) prior := by
  obtain ⟨rcpt', t₁, h₁, h₂⟩ := run_bind_ok hrun
  cases h₁
  obtain ⟨_, t₂, h₃, h₄⟩ := run_bind_ok h₂
  obtain ⟨_, t₃, h₅, h₆⟩ := run_bind_ok h₄
  obtain ⟨_, t₄, h₇, h₈⟩ := run_bind_ok h₆
  obtain ⟨_, t₅, h₉, h₁₀⟩ := run_bind_ok h₈
  cases h₁₀
  rw [ideal_dbExec] at h₃ h₇ h₉
  obtain ⟨hrange, hT₂⟩ := ideal_appendBallot h₃
  have hT₄ := ideal_setOwner h₇
  have hT₅ := ideal_nonceMark h₉
  refine ⟨rfl, hrange, ?_⟩
  unfold supersedePrior at h₅
  split at h₅
  · rename_i hfound
    obtain ⟨_, _, h, h'⟩ := run_bind_ok h₅
    cases h'
    rw [ideal_dbExec] at h
    obtain ⟨opt, ver, hread, hT₃⟩ := ideal_markSuperseded h
    refine ⟨some ⟨found.row.hash, opt, ver⟩, ⟨by simp [hfound], fun _ => ⟨opt, ver, rfl, ?_⟩⟩, ?_⟩
    · rw [hT₂] at hread
      exact hread
    · rw [hT₅, hT₄, hT₃, hT₂]
      rfl
  · rename_i hfound
    cases h₅
    refine ⟨none, ⟨fun _ => rfl, fun h => absurd h hfound⟩, ?_⟩
    rw [hT₅, hT₄, hT₂]
    rfl

/-- What a successful ideal run of `record_ballot_locked` read and wrote. The
election admits the ballot, its nonce is not in the table, the version is
the one after that of the prior ballot, and the rows are written last. -/
theorem ideal_recordBallotLocked
    (hrun : run (idealHandle c) (recordBallotLocked ⟨true⟩ eid b) t = (.ok rcpt, t')) :
    ∃ res seen found, ∃ t₁ t₂ t₃ : Work,
      run (idealHandle c) (runOp (.getElection eid)) t = (.ok res, t₁) ∧
      res.found = true ∧ Admitted res.election b ∧
      run (idealHandle c) (runOp (.nonceSeen eid b.nonce)) t₁ = (.ok seen, t₂) ∧
      seen.found = false ∧
      run (idealHandle c) (runOp (.getPriorBallot eid b.certName)) t₂ = (.ok found, t₃) ∧
      (t₁.tables = t.tables ∧ t₂.tables = t.tables ∧ t₃.tables = t.tables) ∧
      rcpt = receiptOf b (nextVersion found) ∧
      (0 ≤ nextVersion found ∧ nextVersion found < 2 ^ 31) ∧
      ∃ prior, PriorRead c t.tables eid b found prior ∧
        t'.tables = recorded t.tables eid b rcpt.hash (nextVersion found) prior := by
  obtain ⟨⟨o, found⟩, t₃, hchecks, h₆⟩ := run_bind_ok hrun
  obtain ⟨_, t₁, h₁, h₂⟩ := run_bind_ok hchecks
  obtain ⟨seen, t₂, h₃, h₄⟩ := run_bind_ok h₂
  obtain ⟨rfl, res, hres, hfound, hadm⟩ := ideal_recordGate h₁
  rw [ideal_dbExec] at h₃
  split at h₄
  case isTrue => cases h₄
  case isFalse hseen =>
  obtain ⟨_, _, h₅, h⟩ := run_bind_ok h₄
  cases h
  rw [ideal_dbExec] at h₅
  have hT₁ := ideal_read_tables rfl hres
  have hT₂ := (ideal_read_tables rfl h₃).trans hT₁
  have hT₃ := (ideal_read_tables rfl h₅).trans hT₂
  have hw := ideal_recordWrites h₆
  rw [hT₃] at hw
  exact ⟨res, seen, found, t₁, t₂, t₃, hres, hfound, hadm, h₃, by simpa using hseen, h₅,
    ⟨hT₁, hT₂, hT₃⟩, hw⟩

end Ideal

end Corestack.Brain
