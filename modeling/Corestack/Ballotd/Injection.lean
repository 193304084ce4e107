import Corestack.Brain.Written
import Corestack.Ballotd.Dispatch

/-!
# What ballotd puts on the store connection

Every line that serving a request puts on the connection is one statement
of the seam, read by an SQL lexer as the statement it is meant to be. The
strings of requests, of this one and of all before it, occur in it as whole
literals or not at all.
-/

namespace Corestack.Ballotd

open Lib Db Brain Client

/-! ## The statements of a request -/

/-- The statements a request may lead to: those around the commands, and
those of its commands. -/
def MaySend (req : BclRequest) (sql : Stmt) : Prop :=
  sql.isControl = true ∨ ∃ cmd, MayRun req cmd ∧ cmd.MaySend sql

theorem permits_maySend (req : BclRequest) : Permits (MaySend req) (MayRun req) where
  control := fun _ h => .inl h
  own := fun cmd hcmd _ h => .inr ⟨cmd, hcmd, h⟩

/-- A request leads to no other statements than its commands may send,
whatever is read from the store. -/
theorem sends_dispatch (ctx : BbCtx) (req : BclRequest) :
    Sends (MaySend req) (ballotdDispatch ctx req) := by
  have hP := permits_maySend req
  refine walk_dispatch (Sends.walk _) (Sends.bbAllocId hP) (fun _ _ h => Sends.dbExec hP ctx h)
    fun hop => Sends.recordAttempts hP (fun cmd h => .call ?_ h) _ _ _ _
  rcases hop with hop | hop <;> simp only [callOf, hop]

/-! ## They are sound -/

/-- The commands of a request are tame, but for a change of state. Those of
a ballot are sent on one connection. -/
theorem keepsSound_dispatch (env : Env) (req : BclRequest) :
    KeepsSound env (ballotdDispatch ⟨false⟩ req) := by
  refine walk_dispatch (keepsSound_walk env) (fun w hw => (Sends.bbAllocId permits_sound).sound hw)
    (fun hop cmd hcmd => ?_) fun _ => sound_recordAttempts _ _ _ _ _
  have htame : cmd.Tame → KeepsSound env (dbExec ⟨false⟩ cmd) :=
    fun h w hw => (Sends.dbExec permits_sound ⟨false⟩ h).sound hw
  cases hcmd with
  | call hcall hcmd =>
    cases hcmd with
    | look | insert | current => exact htame trivial
    | update => exact sound_updateState _ _
    | _ => exact absurd (records_of_record hcall) hop
  | _ => exact htame trivial

theorem runRequests_stored (env : Env) (reqs : List BclRequest) :
    (runRequests env reqs).world.Keeps Brain.Stored := by
  induction reqs using List.reverseRecOn with
  | nil => exact ⟨stored_empty, fun s t h => by cases h⟩
  | append_singleton reqs req ih =>
    have hkeeps := (keepsSound_dispatch env req _ ih).run
    rw [runRequests_concat, answer, (runRequests_idle env reqs).ctx]
    revert hkeeps
    generalize Prog.run (handle env) (ballotdDispatch ⟨false⟩ req)
      (runRequests env reqs).world = res
    obtain ⟨_ | _, w⟩ := res <;> exact id

/-! ## Lines on the connection -/

/-- The statement that a call writes to the connection: the connection is
open and has not failed, and the statement stays on its line. -/
def lineOf (w : World) : Op → Option Stmt
  | .exec sql _ =>
    match w.session with
    | some s => if s.failed = none ∧ breaksLine sql.text = false then some sql else none
    | none => none
  | _ => none

def written (env : Env) {α : Type} (p : BrainM α) (w : World) : List Stmt :=
  (Prog.visits (handle env) p w).filterMap fun v => lineOf v.2 v.1

theorem lineOf_some {w : World} {op : Op} {sql : Stmt} (h : lineOf w op = some sql) :
    (∃ cap, op = .exec sql cap) ∧ breaksLine sql.text = false := by
  cases op with
  | exec sql' cap =>
    simp only [lineOf] at h
    split at h
    · split at h
      · cases h
        exact ⟨⟨cap, rfl⟩, (‹_ ∧ _›).2⟩
      · cases h
    · cases h
  | _ => cases h

theorem mem_written {env : Env} {α : Type} {p : BrainM α} {w : World} {sql : Stmt}
    (h : sql ∈ written env p w) {P : Stmt → Prop} {D : Except BbErr α → World → Prop}
    (hp : Prog.Runs (handle env) (sends P) D p w) : P sql ∧ breaksLine sql.text = false := by
  obtain ⟨⟨op, w'⟩, hv, hline⟩ := List.mem_filterMap.mp h
  obtain ⟨⟨cap, rfl⟩, hb⟩ := lineOf_some hline
  exact ⟨hp.of_visits _ hv, hb⟩

/-- A line on the connection, as an SQL lexer reads it. -/
structure ReadAsMeant (sql : Stmt) : Prop where
  numeric : sql.Numeric
  lexed : lexSql none sql.text = some sql.intended.lexemes
  one : ∃ ls, sql.intended.lexemes = ls ++ [.sym 59] ∧ .sym 59 ∉ ls
  whole : sql.text.length < sqlMax

/-- Every line that serving a request puts on the store connection, after
any requests and whatever the store did, is one statement of the request's
commands, read as it is meant: outside its string literals there are only
the text of the command and numbers. The server sees one line for each. A
write that fails half way ends no line: what it leaves, and what the server
reads as a last line when the connection is closed, is a start of the text
of one statement. -/
theorem no_sql_injection (env : Env) (reqs : List BclRequest) (req : BclRequest) :
    let d := runRequests env reqs
    let sent := written env (ballotdDispatch d.ctx req) d.world
    (∀ sql ∈ sent, MaySend req sql ∧ ReadAsMeant sql) ∧
      ∀ sqls, sqls <:+: sent → ∀ last ∈ sent, ∀ cut, cut <+: last.text →
        serverLines false ((sqls.map Stmt.text).flatMap (· ++ [lf]) ++ cut) =
          (sqls.map Stmt.text, cut) := by
  intro d sent
  have hsound : ∀ sql ∈ sent, sql.Sound ∧ breaksLine sql.text = false := by
    intro sql hsql
    have hctx : d.ctx = ⟨false⟩ := (runRequests_idle env reqs).ctx
    have hrun := keepsSound_dispatch env req d.world (runRequests_stored env reqs)
    rw [← hctx] at hrun
    exact mem_written hsql hrun
  refine ⟨fun sql hsql => ⟨?_, ?_⟩, fun sqls hin last hlast cut hcut => ?_⟩
  · have hrun : Prog.Runs (handle env) (sends (MaySend req)) (fun _ _ => True)
        (ballotdDispatch d.ctx req) d.world :=
      (sends_dispatch d.ctx req).runs (fun _ _ _ _ => trivial) trivial
    exact (mem_written hsql hrun).1
  · have hnum := (hsound sql hsql).1.numeric
    exact ⟨hnum, hnum.lexSql_text, hnum.one_statement, hnum.length_text_lt⟩
  · refine serverLines_sent (fun l hl => ?_) ?_
    · obtain ⟨sql, hsql, rfl⟩ := List.mem_map.mp hl
      exact (hsound sql (hin.subset hsql)).2
    · obtain ⟨rest, hrest⟩ := hcut
      have hb := (hsound last hlast).2
      rw [← hrest, breaksLine_append, Bool.or_eq_false_iff] at hb
      exact hb.1

/-- An election id with quotes in it, looked up. -/
example : (written ⟨.terse, fun _ => .answer, true, true⟩
    (ballotdDispatch ⟨false⟩ { BclRequest.of .opening with
      electionId := CStr.copy _ (bytes "a' or 1='1") }) Daemon.start.world).map Stmt.text =
    [bytes ("select seq, id, title, state, open_time, close_time from election where id = " ++
      "'a'' or 1=''1';")] := by decide +kernel

end Corestack.Ballotd
