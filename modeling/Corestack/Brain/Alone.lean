import Corestack.Brain.Frame

/-!
# Commands on a connection of their own

A command that opens its own connection reads its own replies, whatever is
in the tables. Where it sends more than one statement, the rows printed
before the last one start with a number, so none of them is taken for the
end of an answer; and what the last one leaves unread is dropped with the
connection.
-/

namespace Corestack.Brain

open List Lib Db

section Alone

variable {env : Env} {w : World} {α β : Type}

/-! ## One connection -/

variable {sql : Stmt}

theorem stepRun_select (hsel : sql.isSelect = true) (hq : ∀ T, QuietRows sql T) (cap : Nat)
    (hw : InStep (fun _ => True) w) : StepRun env (fun _ => True) (execStmt sql cap) w := by
  have hstops : Stops (· = Op.exec sql cap) (execStmt sql cap) := Stops.execStmt rfl
  refine hstops.stepRun ⟨?_, ?_, fun _ _ _ _ _ _ _ => trivial⟩ env hw
  · rintro _ rfl
    exact isData_of_isSelect hsel
  · rintro _ _ t ⟨⟩ -
    exact hq t

variable {p : BrainM α} {f : α → BrainM β}

theorem StepRun.sameRun_bind {I : Tables → Prop} (hp : StepRun env I p w)
    (hf : ∀ a w', InStep I w' → SameRun env (f a) w') : SameRun env (p >>= f) w := by
  unfold SameRun
  rcases hp with ⟨a, w', h₁, h₂, hin⟩ | ⟨e, w₁, w₂, h₁, h₂, hsame⟩
  · rw [Prog.run_bind_of_ok h₁, Prog.run_bind_of_ok h₂]
    exact hf a w' hin
  · rw [Prog.run_bind_of_error h₁, Prog.run_bind_of_error h₂]
    exact ⟨rfl, hsame⟩

theorem quietRows_of_numbers {T : Tables}
    (hnum : ∀ rows, T.query sql = some rows →
    ∀ r ∈ rows, ∃ v fs, r = fmtInt v :: fs) : QuietRows sql T := by
  intro rows hrows r hr
  obtain ⟨v, fs, rfl⟩ := hnum rows hrows r hr
  exact number_ne_ok v fs

theorem quietRows_election (id : Id) (T : Tables) : QuietRows (.selectElection id) T :=
  quietRows_of_numbers fun rows hrows r hr => by
    cases hrows
    obtain ⟨x, -, rfl⟩ := mem_map.mp hr
    exact ⟨_, _, rfl⟩

theorem quietRows_options (id : Id) (T : Tables) : QuietRows (.selectOptions id) T :=
  quietRows_of_numbers fun rows hrows r hr => by
    cases hrows
    obtain ⟨x, -, rfl⟩ := mem_map.mp hr
    exact ⟨_, _, rfl⟩

/-- Reading an election prints names in the last reply only. -/
theorem pairedBody_getElection (env : Env) (id : Id) :
    PairedBody env (.getElection id) := by
  intro w hs
  refine (stepRun_select rfl (quietRows_election id) bodyMax
    ⟨none, hs, trivial⟩).sameRun_bind fun body w₁ hin₁ => ?_
  split
  · exact ⟨rfl, .refl _⟩
  · exact ⟨rfl, .refl _⟩
  · refine (stepRun_select rfl (quietRows_options id) bodyMax hin₁).sameRun_bind
      fun body w₂ hin₂ => ?_
    obtain ⟨txn, hs₂, -⟩ := hin₂
    exact (sameRun_execStmt env hs₂ (.selectEligible id) bodyMax).bind_pure
      fun _ => .inl ⟨_, rfl⟩

variable {cmd : BbDbCmd}

theorem pairedBody_of_quiet (env : Env) (hquiet : ∀ sql, cmd.MaySend sql → ∀ T, QuietRows sql T) :
    PairedBody env cmd := by
  refine pairedBody_of_stops env ((Stops.runOp _).and_calls
    (Sends.runOp (P := fun sql => ∀ T, QuietRows sql T) hquiet)) ?_
  exact ⟨fun _ h => h.1, fun _ _ t h _ => h.2 t, fun _ _ _ _ _ _ _ => trivial⟩

theorem pairedBody_select (env : Env) (hread : opIsWrite cmd = false)
    {f : Bytes → BrainM BbDbResult} (hcmd : runOp cmd = execStmt sql bodyMax >>= f)
    (hf : ∀ a, (∃ b, f a = .ret b) ∨ ∃ e, f a = .fail e) : PairedBody env cmd := by
  intro w hs
  rw [oneShotBody, if_neg (by rw [hread]; exact Bool.false_ne_true), hcmd]
  exact (sameRun_execStmt env hs sql bodyMax).bind_pure hf

/-- On a fresh connection every command reads its own replies: the rows
printed before the last reply start with a number, and what the last one
leaves unread is dropped with the connection. -/
theorem pairedBody_any (env : Env) (cmd : BbDbCmd) : PairedBody env cmd := by
  have hnone : ∀ {sql : Stmt} {T : Tables}, T.query sql = none → QuietRows sql T :=
    fun h rows hrows => by rw [h] at hrows; cases hrows
  cases cmd with
  | insertElection | appendBallot | nonceMark | setOwner =>
    refine pairedBody_of_quiet env fun sql hsql T => ?_
    cases hsql <;> exact hnone rfl
  | updateState id st =>
    refine pairedBody_of_quiet env fun sql hsql T => ?_
    cases hsql with
    | carried =>
      refine quietRows_of_numbers fun rows hrows r hr => ?_
      cases hrows
      obtain ⟨x, -, rfl⟩ := mem_map.mp hr
      exact ⟨_, _, rfl⟩
    | _ => exact hnone rfl
  | markSuperseded id hash =>
    refine pairedBody_of_quiet env fun sql hsql T => ?_
    cases hsql with
    | marked =>
      refine quietRows_of_numbers fun rows hrows r hr => ?_
      cases hrows
      obtain ⟨x, -, rfl⟩ := mem_map.mp hr
      exact ⟨_, _, rfl⟩
    | _ => exact hnone rfl
  | getElection id => exact pairedBody_getElection env id
  | getTally id | getHashes id | nonceSeen id nonce =>
    exact pairedBody_select env rfl rfl fun _ => .inl ⟨_, rfl⟩
  | findHash id hash =>
    refine pairedBody_select env rfl rfl fun body => ?_
    split
    · exact .inl ⟨_, rfl⟩
    · exact .inl ⟨_, rfl⟩
    · split
      · exact .inr ⟨_, rfl⟩
      · exact .inl ⟨_, rfl⟩
  | getPriorBallot id cert =>
    refine pairedBody_select env rfl rfl fun body => ?_
    split
    · exact .inr ⟨_, rfl⟩
    all_goals exact .inl ⟨_, rfl⟩

/-! ## Calls -/

/-- From a state without a connection the program runs as on connections
that are always in step. -/
abbrev Alone (env : Env) {α : Type} (p : BrainM α) : Prop :=
  Prog.Agree (handle env) (handle env.paired) (fun w => w.session = none) p

theorem alone_oneShotAttempt (env : Env) (cmd : BbDbCmd) : Alone env (oneShotAttempt cmd) := by
  intro w hs
  rw [oneShotAttempt, run_dbSocketOpen, run_dbSocketOpen, show env.paired.fate = env.fate from rfl]
  split
  · obtain ⟨heq, hsame⟩ := pairedBody_any env cmd w.connected rfl
    rw [if_pos rfl, Prog.run_bind_of_ok (Prog.run_attempt ..),
      Prog.run_bind_of_ok (Prog.run_attempt ..), ← heq]
    have hclosed := hsame.closed
    cases (Prog.run (handle env) (oneShotBody cmd) w.connected).1 with
    | ok out | error e => exact ⟨Prod.ext rfl hclosed, rfl⟩
  · exact ⟨rfl, hs⟩

theorem agree_walk {h g : (op : Op) → World → Reply op × World} {P : World → Prop}
    (hlog : ∀ line, Prog.Agree h g P (bbLog line)) :
    FullWalk fun {_} p => Prog.Agree h g P p :=
  ⟨⟨.ret, fun _ => .fail _, .bind, hlog⟩, fun hp hf => hp.attempt.bind hf⟩

theorem alone_walk (env : Env) : FullWalk (@Alone env) := agree_walk fun _ _ hs => ⟨rfl, hs⟩

theorem alone_dbExec (env : Env) (cmd : BbDbCmd) : Alone env (dbExec ⟨false⟩ cmd) :=
  (alone_walk env).dbExec_alone (alone_oneShotAttempt env cmd)

theorem alone_allocId (env : Env) : Alone env bbAllocId := by
  intro w hs
  rw [bbAllocId, run_dbSocketOpen, run_dbSocketOpen, show env.paired.fate = env.fate from rfl]
  split
  · have hreply := exec_paired_reply (w := w.connected) env .selectMaxSeq 4096 rfl
    have hworld := (@SameButUnread.exec env _ _ (.refl w.connected) .selectMaxSeq 4096).closed
    refine ⟨Prod.ext ?_ hworld, rfl⟩
    show Except.ok (CStr.copy _ (bytes "E-" ++ fmtInt (if (exec env _ _ _).1.1 = .ok then
      nextSeq (exec env _ _ _).1.2 else 100))) = _
    rw [hreply]
    rfl
  · exact ⟨rfl, hs⟩

theorem alone_transition (env : Env) (eid : Id) (dst : BbState) :
    Alone env (bbTransitionState ⟨false⟩ eid dst) :=
  (alone_walk env).transition (alone_dbExec env _) (alone_dbExec env _)

theorem alone_create (env : Env) (cfg : BbConfig) (desired : Id) :
    Alone env (bbCreateElection ⟨false⟩ cfg desired) :=
  (alone_walk env).create (alone_dbExec env _) (alone_allocId env) fun _ => alone_dbExec env _

end Alone

/-! ## Between two calls -/

section Calls

variable {d : Daemon}

theorem perform_alone (env : Env) (hd : d.Idle) {call : Call}
    (hcall : ∀ eid b, call ≠ .record eid b) :
    perform env d call = perform env.paired d call ∧ (perform env d call).2.Idle := by
  obtain ⟨ctx, w⟩ := d
  obtain ⟨rfl, hs⟩ := hd
  cases call with
  | create cfg desired =>
    obtain ⟨heq, hs'⟩ := alone_create env cfg desired w hs
    simp only [perform, ← heq]
    exact ⟨trivial, rfl, hs'⟩
  | transition eid dst =>
    obtain ⟨heq, hs'⟩ := alone_transition env eid dst w hs
    simp only [perform, ← heq]
    exact ⟨trivial, rfl, hs'⟩
  | record eid b => exact absurd rfl (hcall eid b)

/-- Whatever is answered, a call leaves no connection and no transaction,
also a ballot whose attempts all failed. -/
theorem perform_idle (env : Env) (hd : d.Idle) (call : Call) : (perform env d call).2.Idle := by
  cases call with
  | create | transition => exact (perform_alone env hd (by simp)).2
  | record eid b =>
    obtain ⟨ctx, w⟩ := d
    obtain ⟨rfl, hs⟩ := hd
    obtain ⟨res, out, w', hrun, hs'⟩ :=
      recordAttempts_closed env eid b bbTxnAttempts .db default w hs
    simp only [perform, bbRecordBallot, hrun]
    exact ⟨rfl, hs'⟩

theorem runCalls_snoc (env : Env) (calls : List Call) (call : Call) :
    runCalls env (calls ++ [call]) = ((perform env (runCalls env calls).2 call).1 ++
      (runCalls env calls).1, (perform env (runCalls env calls).2 call).2) := by
  rw [runCalls, foldl_append, foldl_cons, foldl_nil, ← runCalls]

theorem runCalls_idle (env : Env) (calls : List Call) : (runCalls env calls).2.Idle := by
  induction calls using List.reverseRecOn with
  | nil => exact ⟨rfl, rfl⟩
  | append_singleton calls call ih =>
    rw [runCalls_snoc]
    exact perform_idle env ih call

end Calls

end Corestack.Brain
