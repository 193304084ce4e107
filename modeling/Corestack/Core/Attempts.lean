import Corestack.Core.Account

/-!
# How often a connection may guess (`libtetrisauth/auth.c`, `lib/conf.c`)

A refusal with 400 leaves the attempt counter of `auth_retry_handler` alone,
and until the configuration has been read the loop runs on the default
limit. The bound on the calls to the account functions rests on two facts:
the first call comes after the configuration was read, and a call that was
made never ends with 400.
-/

namespace Corestack.Core

open Lib

/-! ## The limit -/

/-- `rc_get_int` for a key whose value in the file is `value`. -/
def rcGetInt (value : Option Bytes) (fallback lo hi : Int) : Int :=
  match value with
  | none => fallback
  | some text =>
    let (n, rest) := strtol text
    if rest.length = text.length ∨ rest ≠ [] ∨ n < lo ∨ hi < n then fallback else n

/-- `auth_max_attempts` as `auth_conf_load` stores it. -/
def authMaxAttempts (value : Option Bytes) : Nat := (rcGetInt value 5 1 100).toNat

theorem one_le_authMaxAttempts (value : Option Bytes) : 1 ≤ authMaxAttempts value := by
  unfold authMaxAttempts rcGetInt
  cases value with
  | none => decide
  | some text =>
    dsimp only
    split
    · decide
    · omega

/-! ## What the account functions can answer -/

/-- The answers of the environment are results of `account_login` and
`account_register`, whatever the calls they make come to. -/
def AuthEnv.Answers (env : AuthEnv) (iters : Int) : Prop :=
  ∀ calls op name c, userNameFold c.user = some name → Reaches op c →
    ∃ (σ : Type) (h : (call : AccountCallOp) → σ → AccountReply call × σ) (s : σ) (id : Option Int),
      (Prog.run h (accountProgram iters op c) s).1 = .ok (env.account calls op name c, id)

/-- The program does not end with status 400. -/
abbrev Checked (p : AccountM Outcome) : Prop := p.Ends fun r => ∀ out, r = .ok out → out.1 ≠ 400

theorem checked_pure {status : Nat} {id : Option Int} (h : status ≠ 400) :
    Checked (pure (status, id)) := by
  rintro _ ⟨⟩
  exact h

theorem Checked.after {α : Type} {p : AccountM α} {f : α → AccountM Outcome}
    (h : ∀ a, Checked (f a)) : Checked (p >>= f) := by
  induction p with
  | ret a => exact h a
  | fail e => exact e.elim
  | call op k ih => exact fun r => ih r

theorem parseLoginDbResult_ne_400 {st : Db.DbStatus} {body : Bytes} {status : Nat}
    (h : parseLoginDbResult st body = .error status) : status ≠ 400 := by
  unfold parseLoginDbResult at h
  grind

theorem accountLogin_checked (name : UserName) (c : Acc) : Checked (accountLogin name c) := by
  refine Checked.after fun conn => ?_
  split
  · exact checked_pure (by decide)
  refine Checked.after fun reply => Checked.after fun _ => ?_
  split
  · exact checked_pure (parseLoginDbResult_ne_400 ‹_›)
  refine Checked.after fun want => ?_
  split
  · exact checked_pure (by decide)
  split
  all_goals exact checked_pure (by decide)

theorem registerLoop_checked (name salt digest : Bytes) (iters : Int) (n : Nat) :
    Checked (registerLoop name salt digest iters n) := by
  induction n with
  | zero => exact checked_pure (by decide)
  | succ n ih =>
    refine Checked.after fun result => ?_
    split
    · exact ih
    all_goals exact checked_pure (by decide)

variable {iters : Int} {name : UserName} {c : Acc}

theorem accountRegister_checked (hlen : 8 ≤ c.pass.length ∧ c.pass.length ≤ 128) :
    Checked (accountRegister iters name c) := by
  unfold accountRegister
  rw [if_neg (by omega)]
  refine Checked.after fun salt => ?_
  split
  · exact checked_pure (by decide)
  refine Checked.after fun digest => ?_
  split
  · exact checked_pure (by decide)
  refine Checked.after fun sem => ?_
  split
  · exact checked_pure (by decide)
  refine Checked.after fun conn => ?_
  split
  · exact Checked.after fun _ => checked_pure (by decide)
  refine Prog.Ends.bind (registerLoop_checked ..) (fun result hresult => ?_) (fun e => e.elim)
  exact Checked.after fun _ => Checked.after fun _ => fun _ hout => by
    cases hout
    exact hresult _ rfl

variable {env : AuthEnv}

theorem AuthEnv.Answers.ne_400 (henv : env.Answers iters) {calls : List AccountCall}
    {op : AccountOp} (hfold : userNameFold c.user = some name) (hreach : Reaches op c) :
    env.account calls op name c ≠ 400 := by
  obtain ⟨σ, h, s, id, hrun⟩ := henv calls op name c hfold hreach
  have hends : Checked (accountProgram iters op c) := by
    simp only [accountProgram, hfold]
    cases op with
    | login => exact accountLogin_checked name c
    | register => exact accountRegister_checked (hreach rfl)
  exact hends.run s _ hrun

/-! ## The bound -/

/-- The calls made are at most the attempts spent, and there are none before
the configuration is read. -/
structure Spent (env : AuthEnv) (i : Nat) (st : AuthState) : Prop where
  attempts : st.calls.length ≤ i
  limit : st.calls.length ≤ env.configured
  unread : st.frozen = false → st.calls = []

/-- A frame taken while attempts are left keeps the count. It spends one of
them, unless it is answered with 400. -/
theorem Spent.step (henv : env.Answers iters) (hconf : 1 ≤ env.configured) {i : Nat}
    {st st' : AuthState} {r : Received} {o : Option Nat} (hst : Spent env i st)
    (hi : i < maxAttempts env st) (h : FrameStep env r st o st') :
    st'.calls.length ≤ env.configured ∧
      ∀ status, o = some status → status ≠ 200 →
        Spent env (if status = 400 then i else i + 1) st' := by
  have hnext : st.calls.length + 1 ≤ env.configured := by
    unfold maxAttempts at hi
    cases hf : st.frozen with
    | true =>
      rw [hf, if_pos rfl] at hi
      exact Nat.lt_of_le_of_lt hst.attempts hi
    | false => simpa [hst.unread hf] using hconf
  cases h with
  | refused ho hfrozen =>
    refine ⟨hst.limit, fun status _ _ => ⟨?_, hst.limit, fun hf => hst.unread ?_⟩⟩
    · have := hst.attempts
      split <;> (dsimp only; omega)
    · exact Bool.eq_false_iff.mpr fun ht => by simp [hfrozen ht] at hf
  | guest => exact ⟨hst.limit, fun status hs hne => absurd (Option.some.inj hs).symm hne⟩
  | entered =>
    exact ⟨by simpa using hnext, fun status hs hne => absurd (Option.some.inj hs).symm hne⟩
  | @failed op name c status hfold hreach hstatus hne =>
    refine ⟨by simpa using hnext, ?_⟩
    rintro _ ⟨⟩ -
    have h400 : status ≠ 400 := by
      rcases hstatus with rfl | rfl
      · exact henv.ne_400 hfold hreach
      · decide
    rw [if_neg h400]
    exact ⟨by simpa using hst.attempts, by simpa using hnext, nofun⟩

theorem Spent.authLoop (henv : env.Answers iters) (hconf : 1 ≤ env.configured) :
    ∀ {frames : List Received} {i : Nat} {st : AuthState}, Spent env i st →
      (authLoop env i st frames).2.calls.length ≤ env.configured
  | [], _, _, hst => hst.limit
  | r :: frames, i, st, hst => by
    rw [Core.authLoop]
    split
    · obtain ⟨hlimit, hspent⟩ := hst.step henv hconf ‹_› (authHandler_step env r st)
      split
      · rename_i hx
        rwa [hx] at hlimit
      · rename_i hx
        rw [hx] at hlimit hspent
        split
        · exact hlimit
        · exact (hspent _ rfl ‹_›).authLoop henv hconf
    · exact hst.limit

/-- Whatever frames arrive, no more calls to the account functions get to
their check than the configured attempts. A connection that is let in was
let in by its last frame, as a guest or as the account that frame named. -/
theorem guesses_are_bounded (value : Option Bytes) (iters : Int) (env : AuthEnv)
    (hconf : env.configured = authMaxAttempts value) (henv : env.Answers iters)
    (frames : List Received) :
    (authLoop env 0 .start frames).2.calls.length ≤ env.configured ∧
      ∀ r st rest, authRetryHandler env 0 .start frames = some (r, st, rest) →
        authLoop env 0 .start frames = (some r, st) ∧ r :: rest <:+ frames ∧ st.AdmittedBy r := by
  have hpos : 1 ≤ env.configured := hconf ▸ one_le_authMaxAttempts value
  refine ⟨Spent.authLoop henv hpos ⟨le_rfl, Nat.zero_le _, fun _ => rfl⟩, fun r st rest h => ?_⟩
  obtain ⟨hloop, hsuffix⟩ := authLoop_of_authRetryHandler h
  exact ⟨hloop, hsuffix, authLoop_admittedBy hloop⟩

/-- An environment in which no system call succeeds. -/
def downEnv : AuthEnv := ⟨1, fun _ _ _ _ => 500, fun _ => false⟩

def downReply : (call : AccountCallOp) → Unit → AccountReply call × Unit
  | .randBytes, s => (none, s)
  | .pbkdf2 .., s => (none, s)
  | .time, s => (0, s)
  | .acquire, s => (false, s)
  | .release, s => ((), s)
  | .connect, s => (false, s)
  | .exec _, s => ((.error, []), s)
  | .close, s => ((), s)

theorem downEnv_answers : downEnv.Answers 1 := by
  intro calls op name c hfold hreach
  refine ⟨Unit, downReply, (), none, ?_⟩
  simp only [accountProgram, hfold]
  cases op with
  | login => rfl
  | register =>
    have hlen := hreach rfl
    dsimp only [accountRegister]
    rw [if_neg (by omega)]
    rfl

theorem guesses_are_bounded_down :
    (authLoop downEnv 0 .start (List.replicate 9 (.frame (bytes
      "LOGIN / HTTTP/1.0\r\nContent-Length: 5\r\n\r\nann\nx")))).2.calls.length ≤ 1 :=
  (guesses_are_bounded (some (bytes "1")) 1 downEnv (by decide) downEnv_answers _).1

end Corestack.Core
