import Corestack.Lib.Ledger
import Corestack.Brain.Lookup

/-!
# Runs of calls

The admin thread serves one call after the other on one `bb_ctx`. A run
starts from empty tables; its history lists the ballots that were
accepted, newest first.

`perform_cases` says once what a call can do to the tables, and what holds
of every run is derived from that.
-/

namespace Corestack.Brain

open Lib Db Prog

/-- The calls that write. -/
inductive Call where
  | create (cfg : BbConfig) (desired : Id)
  | transition (eid : Id) (dst : BbState)
  | record (eid : Id) (b : BbBallot)

/-- The admin thread: its context and the world. -/
structure Daemon where
  ctx : BbCtx
  world : World

def Daemon.start : Daemon := ⟨⟨false⟩, ⟨.empty, none, 0, []⟩⟩

abbrev Voter := Id × CertName

/-- What an accepted ballot stands for. -/
structure Vote where
  hash : Hash
  option : Int
deriving DecidableEq

/-- The accepted ballots of a run, newest first. -/
abbrev History := List (Voter × Vote)

/-- The entry an accepted ballot makes. -/
def accepted (eid : Id) (b : BbBallot) : Except BbErr BbReceipt → History
  | .ok rcpt => [((eid, b.certName), ⟨rcpt.hash, b.option⟩)]
  | .error _ => []

/-- Serve one call: the ballot accepted, if any, and the state after it. -/
def perform (env : Env) (d : Daemon) : Call → History × Daemon
  | .create cfg desired =>
    ([], ⟨d.ctx, (run (handle env) (bbCreateElection d.ctx cfg desired) d.world).2⟩)
  | .transition eid dst =>
    ([], ⟨d.ctx, (run (handle env) (bbTransitionState d.ctx eid dst) d.world).2⟩)
  | .record eid b =>
    match run (handle env) (bbRecordBallot d.ctx eid b default) d.world with
    | (.ok (res, _, ctx), w) => (accepted eid b res, ⟨ctx, w⟩)
    | (.error _, w) => ([], ⟨d.ctx, w⟩)

/-- Serve calls one after the other, from empty tables: the ballots accepted
and the state in the end. -/
def runCalls (env : Env) (calls : List Call) : History × Daemon :=
  calls.foldl (fun s call => ((perform env s.2 call).1 ++ s.1, (perform env s.2 call).2))
    ([], .start)

/-- Between two calls: no transaction and no connection is open. -/
structure Daemon.Idle (d : Daemon) : Prop where
  ctx : d.ctx = ⟨false⟩
  session : d.world.session = none

/-! ## What a call can do -/

/-- How a new election gets its id: a desired id was not found, and without
one the id follows the highest number, or is E-100 if that was not told. -/
inductive ChosenId (c : Chatter) (T : Tables) (desired : Id) : Id → Prop
  | desired {n n' : Nat} {res : BbDbResult} (hne : desired.val ≠ [])
      (hrun : run (idealHandle c) (runOp (.getElection desired)) ⟨T, n⟩ = (.ok res, ⟨T, n'⟩))
      (hfound : res.found = false) : ChosenId c T desired desired
  | next {n : Nat} {body : Bytes} (hne : desired.val = [])
      (hreply : ownReply 4096 (done c n .selectMaxSeq T none (T.query .selectMaxSeq)) =
        (.ok, body)) :
      ChosenId c T desired (CStr.copy _ (bytes "E-" ++ fmtInt (nextSeq body)))
  | fallback (hne : desired.val = []) :
      ChosenId c T desired (CStr.copy _ (bytes "E-" ++ fmtInt 100))

/-- The change of a call that takes effect, with the ballot it accepts. -/
inductive Change (c : Chatter) (T : Tables) : Call → History → Tables → Prop
  | create {cfg : BbConfig} {desired id : Id} (hid : ChosenId c T desired id)
      (hsafe : SafeConfig id cfg) (hseq : IsCount (idSeq id.val)) :
      Change c T (.create cfg desired) [] (created T id cfg)
  | transition {eid : Id} {dst : BbState} {res out : BbDbResult} {n₁ n₁' n₂ n₂' : Nat} {T' : Tables}
      (hread : run (idealHandle c) (runOp (.getElection eid)) ⟨T, n₁⟩ = (.ok res, ⟨T, n₁'⟩))
      (hfound : res.found = true) (hlegal : bbIsLegalTransition res.election.state dst = true)
      (hrun : run (idealHandle c) (runOp (.updateState eid dst)) ⟨T, n₂⟩ =
        (.ok out, ⟨T', n₂'⟩)) : Change c T (.transition eid dst) [] T'
  | record {eid : Id} {b : BbBallot} {rcpt : BbReceipt} {n n' : Nat} {T' : Tables}
      (hrun : run (idealHandle c) (recordBallotLocked ⟨true⟩ eid b) ⟨T, n⟩ =
        (.ok rcpt, ⟨T', n'⟩)) : Change c T (.record eid b) (accepted eid b (.ok rcpt)) T'

def StoreErr (e : BbErr) : Prop := e = .db ∨ e = .retry

theorem failsIn_execStmt (sql : Stmt) (cap : Nat) : (execStmt sql cap).FailsIn StoreErr := by
  intro r
  obtain ⟨st, body⟩ := r
  cases st <;> first | trivial | exact .inl rfl | exact .inr rfl

theorem failsIn_getElection (eid : Id) : (runOp (.getElection eid)).FailsIn StoreErr := by
  refine (failsIn_execStmt _ _).bind fun body => ?_
  split
  · rename_i e he
    refine .inl ?_
    unfold readElection at he
    split at he
    · cases he; rfl
    · cases he
    · split at he
      · split at he
        · cases he; rfl
        · cases he
      · cases he; rfl
  · trivial
  · exact (failsIn_execStmt _ _).bind fun _ => (failsIn_execStmt _ _).bind fun _ => trivial

theorem failsIn_oneShot {E : BbErr → Prop} (hdb : E .db) {cmd : BbDbCmd}
    (hbody : (oneShotBody cmd).FailsIn E) (k : Nat) : (oneShot cmd k).FailsIn E := by
  have hattempt : (oneShotAttempt cmd).FailsIn E := by
    intro opened
    cases opened with
    | false => exact hdb
    | true => exact hbody.bind_attempt (fun _ _ => trivial) fun e he _ => he
  induction k with
  | zero => exact hdb
  | succ k ih =>
    refine hattempt.bind_attempt (fun _ => trivial) fun e he => ?_
    dsimp only
    split
    · exact ih
    · exact he

theorem failsIn_loadElection (eid : Id) :
    (dbExec ⟨false⟩ (.getElection eid)).FailsIn StoreErr :=
  fun _ => failsIn_oneShot (.inl rfl) (failsIn_getElection eid) selfRetryAttempts

section Calls

variable {env : Env} {w w' : World} {d : Daemon}

/-- A read command changes nothing, and if it succeeds it returns what its
selects tell of the tables as they are. -/
theorem dbExec_read (hk : env.keepsUnread = false) (hs : w.session = none) {cmd : BbDbCmd}
    (hcmd : opIsWrite cmd = false) {r : Except BbErr BbDbResult}
    (hrun : run (handle env) (dbExec ⟨false⟩ cmd) w = (r, w')) :
    w'.session = none ∧ w'.tables = w.tables ∧ ∀ out, r = .ok out → ∃ n n',
      run (idealHandle env.chatter) (runOp cmd) ⟨w.tables, n⟩ = (.ok out, ⟨w.tables, n'⟩) := by
  obtain ⟨hs', hout⟩ := dbExec_outcome hk hs hrun
  have htables : ∀ {out n n'}, run (idealHandle env.chatter) (runOp cmd) ⟨w.tables, n⟩ =
      (.ok out, ⟨w'.tables, n'⟩) → w'.tables = w.tables := fun h => ideal_read_tables hcmd h
  cases r with
  | ok out =>
    obtain ⟨n, n', hideal⟩ := hout
    refine ⟨hs', htables hideal, ?_⟩
    rintro _ ⟨⟩
    rw [htables hideal] at hideal
    exact ⟨n, n', hideal⟩
  | error e =>
    refine ⟨hs', ?_, fun out h => by cases h⟩
    rcases hout with hT | ⟨-, -, out, n, n', hideal⟩
    · exact hT
    · exact htables hideal

theorem chooseId_outcome (hk : env.keepsUnread = false) (hs : w.session = none) {desired : Id}
    {r : Except BbErr Id} (hrun : run (handle env) (chooseId ⟨false⟩ desired) w = (r, w')) :
    w'.session = none ∧ w'.tables = w.tables ∧
      ∀ id, r = .ok id → ChosenId env.chatter w.tables desired id := by
  unfold chooseId at hrun
  split at hrun
  · rename_i hne
    rcases hload : run (handle env) (dbExec ⟨false⟩ (.getElection desired)) w with ⟨res, w₁⟩
    obtain ⟨hs', hT, hok⟩ := dbExec_read hk hs rfl hload
    rw [run_bind_of_ok (run_attempt ..), loadElection] at hrun
    cases res with
    | error e =>
      have he : e ≠ .notFound := by
        rcases (failsIn_loadElection desired).run_error hload with rfl | rfl <;> decide
      rw [run_bind_of_error hload] at hrun
      dsimp only at hrun
      rw [if_neg he] at hrun
      cases hrun
      exact ⟨hs', hT, by rintro id ⟨⟩⟩
    | ok res =>
      obtain ⟨n, n', hideal⟩ := hok res rfl
      rw [run_bind_of_ok hload] at hrun
      cases hfound : res.found with
      | true =>
        rw [hfound] at hrun
        cases hrun
        exact ⟨hs', hT, by rintro id ⟨⟩⟩
      | false =>
        rw [hfound] at hrun
        cases hrun
        refine ⟨hs', hT, ?_⟩
        rintro id ⟨⟩
        exact .desired hne hideal hfound
  · rename_i hne
    rw [not_not] at hne
    rw [bbAllocId, run_dbSocketOpen] at hrun
    split at hrun
    · have hin : InAuto w.tables w.connected ⟨w.tables, w.clock + 1⟩ := ⟨rfl, rfl, rfl, rfl⟩
      have h := exec_inAuto .selectMaxSeq 4096 hk rfl hin
      cases hrun
      refine ⟨rfl, ?_, ?_⟩
      · rcases h with ⟨-, hT⟩ | ⟨-, -, -, hT, -⟩
        · exact hT
        · exact hT
      · rintro id ⟨⟩
        show ChosenId _ _ _ (CStr.copy _ (bytes "E-" ++ fmtInt
          (if (exec env .selectMaxSeq 4096 w.connected).1.1 = .ok then
            nextSeq (exec env .selectMaxSeq 4096 w.connected).1.2 else 100)))
        rcases h with ⟨hst, -⟩ | ⟨hst, heq, -⟩
        · rw [if_neg hst]
          exact .fallback hne
        · rw [if_pos hst]
          exact .next (n := w.clock + 1) hne (heq.symm.trans (Prod.ext hst rfl))
    · cases hrun
      refine ⟨hs, rfl, ?_⟩
      rintro id ⟨⟩
      exact .fallback hne

/-- How a call ends, for the events `evs` and the tables `T'` after it: it
did nothing, or it took effect, or its commit took effect unnoticed. -/
def Ended (env : Env) (T : Tables) (call : Call) (evs : History) (T' : Tables) : Prop :=
  (evs = [] ∧ T' = T) ∨ Change env.chatter T call evs T' ∨
    (env.lostCommitApplies = true ∧ evs = [] ∧ ∃ evs', Change env.chatter T call evs' T')

/-- What creating an election does: nothing, or its rows are added under the
id chosen, which is returned unless the commit took effect unnoticed. -/
theorem create_cases (hk : env.keepsUnread = false) (hs : w.session = none) {cfg : BbConfig}
    {desired : Id} {r : Except BbErr Id}
    (hrun : run (handle env) (bbCreateElection ⟨false⟩ cfg desired) w = (r, w')) :
    w'.session = none ∧ ((w'.tables = w.tables ∧ ∀ id, r ≠ .ok id) ∨
      ∃ id w₁, run (handle env) (chooseId ⟨false⟩ desired) w = (.ok id, w₁) ∧
        SafeConfig id cfg ∧ IsCount (idSeq id.val) ∧ w'.tables = created w.tables id cfg ∧
        (r = .ok id ∨ env.lostCommitApplies = true ∧ ∃ e, r = .error e)) := by
  unfold bbCreateElection at hrun
  split at hrun
  · cases hrun
    exact ⟨hs, .inl ⟨rfl, fun id h => by cases h⟩⟩
  · rcases h₁ : run (handle env) (chooseId ⟨false⟩ desired) w with ⟨e | id, w₁⟩
    · obtain ⟨hs₁, hT₁, -⟩ := chooseId_outcome hk hs h₁
      rw [run_bind_of_error h₁] at hrun
      cases hrun
      exact ⟨hs₁, .inl ⟨hT₁, fun id h => by cases h⟩⟩
    · obtain ⟨hs₁, hT₁, -⟩ := chooseId_outcome hk hs h₁
      rw [run_bind_of_ok h₁] at hrun
      rcases h₂ : run (handle env) (dbExec ⟨false⟩ (.insertElection id cfg)) w₁ with ⟨r, w₂⟩
      obtain ⟨hs₂, hout⟩ := dbExec_outcome hk hs₁ h₂
      have hadded : ∀ {out n n'}, run (idealHandle env.chatter)
          (runOp (.insertElection id cfg)) ⟨w₁.tables, n⟩ = (.ok out, ⟨w₂.tables, n'⟩) →
          SafeConfig id cfg ∧ IsCount (idSeq id.val) ∧ w₂.tables = created w.tables id cfg := by
        intro out n n' hrun
        obtain ⟨hsafe, hseq, hT⟩ := ideal_insertElection hrun
        simp only at hT
        exact ⟨hsafe, hseq, by rw [hT, hT₁]⟩
      cases r with
      | ok out =>
        obtain ⟨n, n', hideal⟩ := hout
        rw [run_bind_of_ok h₂] at hrun
        cases hrun
        obtain ⟨hsafe, hseq, hT⟩ := hadded hideal
        exact ⟨hs₂, .inr ⟨id, w₁, rfl, hsafe, hseq, hT, .inl rfl⟩⟩
      | error e =>
        rw [run_bind_of_error h₂] at hrun
        cases hrun
        rcases hout with hT | ⟨-, hlost, out, n, n', hideal⟩
        · exact ⟨hs₂, .inl ⟨hT.trans hT₁, fun id h => by cases h⟩⟩
        · obtain ⟨hsafe, hseq, hT⟩ := hadded hideal
          exact ⟨hs₂, .inr ⟨id, w₁, rfl, hsafe, hseq, hT, .inr ⟨hlost, e, rfl⟩⟩⟩

theorem create_ok (hk : env.keepsUnread = false) (hs : w.session = none) {cfg : BbConfig}
    {desired id : Id}
    (hrun : run (handle env) (bbCreateElection ⟨false⟩ cfg desired) w = (.ok id, w')) :
    w'.session = none ∧ (∃ w₁, run (handle env) (chooseId ⟨false⟩ desired) w = (.ok id, w₁)) ∧
      SafeConfig id cfg ∧ IsCount (idSeq id.val) ∧ w'.tables = created w.tables id cfg := by
  obtain ⟨hs', ⟨-, hno⟩ | ⟨_, w₁, h₁, hsafe, hseq, hT, hr | ⟨-, e, he⟩⟩⟩ := create_cases hk hs hrun
  · exact absurd rfl (hno id)
  · cases hr
    exact ⟨hs', ⟨w₁, h₁⟩, hsafe, hseq, hT⟩
  · cases he

theorem create_ended (hk : env.keepsUnread = false) (hs : w.session = none) {cfg : BbConfig}
    {desired : Id} {r : Except BbErr Id}
    (hrun : run (handle env) (bbCreateElection ⟨false⟩ cfg desired) w = (r, w')) :
    w'.session = none ∧ Ended env w.tables (.create cfg desired) [] w'.tables := by
  obtain ⟨hs', ⟨hT, -⟩ | ⟨id, w₁, h₁, hsafe, hseq, hT, hr⟩⟩ := create_cases hk hs hrun
  · exact ⟨hs', .inl ⟨rfl, hT⟩⟩
  · obtain ⟨-, -, hid⟩ := chooseId_outcome hk hs h₁
    have hch : Change env.chatter w.tables (.create cfg desired) [] w'.tables := by
      rw [hT]
      exact .create (hid id rfl) hsafe hseq
    refine ⟨hs', .inr ?_⟩
    rcases hr with - | ⟨hlost, -⟩
    · exact .inl hch
    · exact .inr ⟨hlost, rfl, _, hch⟩

theorem transition_ended (hk : env.keepsUnread = false) (hs : w.session = none) {eid : Id}
    {dst : BbState} {r : Except BbErr Unit}
    (hrun : run (handle env) (bbTransitionState ⟨false⟩ eid dst) w = (r, w')) :
    w'.session = none ∧ Ended env w.tables (.transition eid dst) [] w'.tables := by
  unfold bbTransitionState at hrun
  rcases h₁ : run (handle env) (dbExec ⟨false⟩ (.getElection eid)) w with ⟨res, w₁⟩
  obtain ⟨hs₁, hT₁, hread⟩ := dbExec_read hk hs rfl h₁
  cases res with
  | error e =>
    rw [run_bind_of_error h₁] at hrun
    cases hrun
    exact ⟨hs₁, .inl ⟨rfl, hT₁⟩⟩
  | ok res =>
    rw [run_bind_of_ok h₁] at hrun
    obtain ⟨n₁, n₁', hideal⟩ := hread res rfl
    split at hrun
    · cases hrun
      exact ⟨hs₁, .inl ⟨rfl, hT₁⟩⟩
    · rename_i hfound
      split at hrun
      · cases hrun
        exact ⟨hs₁, .inl ⟨rfl, hT₁⟩⟩
      · rename_i hlegal
        rw [not_not] at hfound hlegal
        rcases h₂ : run (handle env) (dbExec ⟨false⟩ (.updateState eid dst)) w₁ with ⟨r, w₂⟩
        obtain ⟨hs₂, hout⟩ := dbExec_outcome hk hs₁ h₂
        rw [hT₁] at hout
        cases r with
        | ok out =>
          obtain ⟨n, n', hmoved⟩ := hout
          rw [run_bind_of_ok h₂] at hrun
          cases hrun
          exact ⟨hs₂, .inr (.inl (.transition hideal hfound hlegal hmoved))⟩
        | error e =>
          rw [run_bind_of_error h₂] at hrun
          cases hrun
          refine ⟨hs₂, ?_⟩
          rcases hout with hT | ⟨-, hlost, out, n, n', hmoved⟩
          · exact .inl ⟨rfl, hT⟩
          · exact .inr (.inr ⟨hlost, rfl, _, .transition hideal hfound hlegal hmoved⟩)

/-- What a call can do: the daemon is idle again, and the call did nothing,
took effect, or took effect unnoticed. -/
theorem perform_cases (hk : env.keepsUnread = false) (hd : d.Idle) (call : Call) :
    (perform env d call).2.Idle ∧
      Ended env d.world.tables call (perform env d call).1 (perform env d call).2.world.tables := by
  obtain ⟨ctx, w⟩ := d
  obtain ⟨rfl, hs⟩ := hd
  cases call with
  | create cfg desired =>
    rcases hrun : run (handle env) (bbCreateElection ⟨false⟩ cfg desired) w with ⟨r, w'⟩
    obtain ⟨hs', hend⟩ := create_ended hk hs hrun
    simp only [perform, hrun]
    exact ⟨⟨rfl, hs'⟩, hend⟩
  | transition eid dst =>
    rcases hrun : run (handle env) (bbTransitionState ⟨false⟩ eid dst) w with ⟨r, w'⟩
    obtain ⟨hs', hend⟩ := transition_ended hk hs hrun
    simp only [perform, hrun]
    exact ⟨⟨rfl, hs'⟩, hend⟩
  | record eid b =>
    obtain ⟨res, out, w', hrun, hs', hout⟩ := bbRecordBallot_outcome hk eid b default hs
    simp only [perform, hrun]
    refine ⟨⟨rfl, hs'⟩, ?_⟩
    cases res with
    | ok rcpt =>
      obtain ⟨n, n', hideal⟩ := hout
      exact .inr (.inl (.record hideal))
    | error e =>
      rcases hout with hT | ⟨-, hlost, rcpt, n, n', hideal⟩
      · exact .inl ⟨rfl, hT⟩
      · exact .inr (.inr ⟨hlost, rfl, _, .record hideal⟩)

/-- An invariant of the tables and the history, kept by every change, holds
after every run in which no commit takes effect unnoticed. -/
theorem runCalls_inv (hk : env.keepsUnread = false) (hl : env.lostCommitApplies = false)
    {I : History → Tables → Prop} (hstart : I [] .empty)
    (hchange : ∀ h T call evs T', I h T → Change env.chatter T call evs T' → I (evs ++ h) T')
    (calls : List Call) :
    (runCalls env calls).2.Idle ∧ I (runCalls env calls).1 (runCalls env calls).2.world.tables := by
  induction calls using List.reverseRecOn with
  | nil => exact ⟨⟨rfl, rfl⟩, hstart⟩
  | append_singleton calls call ih =>
    obtain ⟨hidle, hI⟩ := ih
    rw [runCalls, List.foldl_append, List.foldl_cons, List.foldl_nil, ← runCalls]
    obtain ⟨hidle', ⟨hevs, hT⟩ | hch | ⟨hlost, -⟩⟩ := perform_cases hk hidle call
    · refine ⟨hidle', ?_⟩
      rw [hevs, hT]
      exact hI
    · exact ⟨hidle', hchange _ _ _ _ _ hI hch⟩
    · rw [hl] at hlost
      cases hlost

end Calls

/-! ## A small election

The runs that serve as examples are of this one. -/

def pollId : Id := CStr.copy _ (bytes "E")
def pollAnn : CertName := CStr.copy _ (bytes "ann")
def pollBob : CertName := CStr.copy _ (bytes "bob")

def pollConfig : BbConfig where
  title := CStr.copy _ (bytes "Poll")
  options := [CStr.copy _ (bytes "no"), CStr.copy _ (bytes "yes")]
  eligible := [pollAnn, pollBob]
  openTime := CStr.copy _ (bytes "1")
  closeTime := CStr.copy _ (bytes "2")
  options_le := by decide
  eligible_le := by decide

def pollBallot (cert : CertName) (nonce : String) (option : UInt8) : BbBallot :=
  ⟨cert, CStr.copy _ (bytes nonce), fun _ => option, 1⟩

def pollOpened : List Call := [.create pollConfig pollId, .transition pollId .opened]

/-- Both voters vote, and one of them votes again. -/
def pollRun : List Call :=
  pollOpened ++ [.record pollId (pollBallot pollAnn "n1" 0),
    .record pollId (pollBallot pollBob "n2" 1), .record pollId (pollBallot pollAnn "n3" 1)]

def pollEnv : Env := ⟨.terse, fun _ => .answer, false, false⟩

def pollSocketEnv : Env := { pollEnv with keepsUnread := true }

end Corestack.Brain
