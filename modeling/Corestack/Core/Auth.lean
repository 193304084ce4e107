import Corestack.Core.Htttp

/-!
# The login exchange (`libtetrisauth/auth.c`, `libtetrisutil/name.c`)

Before a connection is served the client logs in, registers or asks to be a
guest. What the account functions answer is part of the environment; the
exchange itself is a function of the frames that arrive.
-/

namespace Corestack.Core

open List Lib

/-- What `session_recv` came to: a frame, a connection that is gone
(`SESSION_ERR_IO`, `SESSION_ERR_TOOBIG`), or a frame that is lost on a
connection that goes on. -/
inductive Received where
  | frame (data : Bytes)
  | broken
  | skipped
deriving DecidableEq

/-! ## User names -/

abbrev maxUserName : Nat := 16

abbrev UserName := CStr maxUserName

def userNameCharOk (c : UInt8) : Bool :=
  97 ≤ c && c ≤ 122 || 65 ≤ c && c ≤ 90 || 48 ≤ c && c ≤ 57 || c = 95 || c = 45

def userNameOk (s : Bytes) : Bool :=
  1 ≤ s.length && s.length ≤ maxUserName - 1 && s.all userNameCharOk

variable {s : Bytes}

theorem zero_notMem_fold (h : userNameOk s = true) : 0 ∉ s.map toLower := by
  simp only [userNameOk, Bool.and_eq_true, all_eq_true] at h
  intro h0
  obtain ⟨c, hc, hlower⟩ := mem_map.mp h0
  have hok : ∀ n < 256, userNameCharOk (.ofNat n) = true → toLower (.ofNat n) ≠ 0 := by
    decide +kernel
  have := hok c.toNat c.toNat_lt
  rw [UInt8.ofNat_toNat] at this
  exact this (h.2 c hc) hlower

def userNameFold (s : Bytes) : Option UserName :=
  if h : userNameOk s = true then
    some ⟨s.map toLower, by
      have h' := h
      simp only [userNameOk, Bool.and_eq_true, decide_eq_true_eq] at h'
      rw [length_map]
      omega, zero_notMem_fold h⟩
  else none

variable {name : UserName}

theorem userNameFold_ne_nil (h : userNameFold s = some name) : name.val ≠ [] := by
  unfold userNameFold at h
  split at h
  · rename_i hok
    cases h
    simp only [userNameOk, Bool.and_eq_true, decide_eq_true_eq] at hok
    exact ne_nil_of_length_pos (by rw [length_map]; omega)
  · cases h

/-! ## One frame -/

inductive AuthMethod where
  | none
  | guest
  | login
  | register
deriving DecidableEq, Repr

def authMethodOf (req : HtttpRequest) : AuthMethod :=
  if req.method.val = bytes "GUEST" then .guest
  else if req.method.val = bytes "LOGIN" then .login
  else if req.method.val = bytes "REGISTER" then .register
  else .none

/-- `acc_t`. -/
structure Acc where
  user : Bytes
  pass : Bytes
deriving DecidableEq

/-- `req_body_split`: the body is cut at its first newline. -/
def reqBodySplit (body : Bytes) : Option Acc :=
  let user := body.takeWhile (· ≠ 10)
  match body.drop user.length with
  | [] => none
  | _ :: pass => if user = [] ∨ pass = [] then none else some ⟨user, pass⟩

/-- The methods that name an account. -/
inductive AccountOp where
  | login
  | register
deriving DecidableEq, Repr

/-- A call of `account_login`, or of `account_register` with a password of
legal length, and the status it ended with. -/
structure AccountCall where
  op : AccountOp
  name : UserName
  status : Nat
deriving DecidableEq

/-- `auth_max_attempts` of the configuration file, what the account
functions answer after the calls made before, and whether a token can then
be minted. -/
structure AuthEnv where
  configured : Nat
  account : List AccountCall → AccountOp → UserName → Acc → Nat
  mints : List AccountCall → Bool

/-- `glb_frozen`, `glb_name`, and the calls to the account functions. -/
structure AuthState where
  frozen : Bool
  name : UserName
  calls : List AccountCall
deriving DecidableEq

def AuthState.start : AuthState := ⟨false, default, []⟩

/-- `auth_conf()->max_attempts`: the default until the file is read. -/
def maxAttempts (env : AuthEnv) (st : AuthState) : Nat := if st.frozen then env.configured else 5

/-- The call to the account function, and the token if it succeeds. -/
def enterAccount (env : AuthEnv) (op : AccountOp) (name : UserName) (c : Acc) (st : AuthState) :
    Nat × AuthState :=
  if op = .register ∧ (c.pass.length < 8 ∨ 128 < c.pass.length) then (400, st)
  else
    let status := env.account st.calls op name c
    let calls := st.calls ++ [⟨op, name, status⟩]
    if status ≠ 200 then (status, { st with calls })
    else if env.mints calls then (200, { st with calls, name })
    else (500, { st with calls })

/-- A LOGIN or REGISTER request. -/
def enter (env : AuthEnv) (op : AccountOp) (req : HtttpRequest) (st : AuthState) :
    Nat × AuthState :=
  let st := { st with frozen := true }
  match reqBodySplit req.body with
  | none => (400, st)
  | some c =>
    match userNameFold c.user with
    | none => (400, st)
    | some name => enterAccount env op name c st

/-- `auth_handler`: the status of the exchange, `none` on a dead connection. -/
def authHandler (env : AuthEnv) (r : Received) (st : AuthState) : Option Nat × AuthState :=
  match r with
  | .broken => (none, st)
  | .skipped => (some 400, st)
  | .frame data =>
    match htttpParseRequest data with
    | .error _ => (some 400, st)
    | .ok req =>
      match authMethodOf req with
      | .guest => (some 200, { st with name := default })
      | .none => (some 401, st)
      | .login => let (status, st) := enter env .login req st; (some status, st)
      | .register => let (status, st) := enter env .register req st; (some status, st)

/-! ## The retry loop -/

/-- `auth_retry_handler` after `i` attempts. It ends with `AUTH_OK` at the
first frame answered with 200; that frame, the state and the frames that
are left are returned. -/
def authRetryHandler (env : AuthEnv) :
    Nat → AuthState → List Received → Option (Received × AuthState × List Received)
  | _, _, [] => none
  | i, st, r :: frames =>
    if i < maxAttempts env st then
      match authHandler env r st with
      | (none, _) => none
      | (some status, st) =>
        if status = 200 then some (r, st, frames)
        else authRetryHandler env (if status = 400 then i else i + 1) st frames
    else none

/-- The frame is a GUEST request. -/
def isGuest : Received → Bool
  | .frame data =>
    match htttpParseRequest data with
    | .ok req => authMethodOf req = .guest
    | .error _ => false
  | _ => false

/-- The function gets as far as its password check or the database. -/
def Reaches (op : AccountOp) (c : Acc) : Prop :=
  op = .register → 8 ≤ c.pass.length ∧ c.pass.length ≤ 128

/-- The account function a method stands for. -/
def accountOpOf : AuthMethod → Option AccountOp
  | .login => some .login
  | .register => some .register
  | .none | .guest => none

/-- The account a LOGIN or REGISTER request names. -/
def accountOf : Received → Option (AccountOp × UserName)
  | .frame data =>
    match htttpParseRequest data with
    | .error _ => none
    | .ok req => do
        let op ← accountOpOf (authMethodOf req)
        let c ← reqBodySplit req.body
        let name ← userNameFold c.user
        pure (op, name)
  | _ => none

/-- A frame makes no call and is refused, is a GUEST request, or makes one
call to the account function of the account it names. -/
inductive FrameStep (env : AuthEnv) (r : Received) (st : AuthState) : Option Nat → AuthState → Prop
  | refused {o : Option Nat} {frozen : Bool} (ho : o ≠ some 200)
      (hfrozen : st.frozen = true → frozen = true) : FrameStep env r st o { st with frozen }
  | guest (hr : isGuest r = true) : FrameStep env r st (some 200) { st with name := default }
  | entered {op : AccountOp} {name : UserName} {c : Acc} (hr : accountOf r = some (op, name))
      (hfold : userNameFold c.user = some name) (hreach : Reaches op c)
      (hstatus : env.account st.calls op name c = 200) :
      FrameStep env r st (some 200) ⟨true, name, st.calls ++ [⟨op, name, 200⟩]⟩
  | failed {op : AccountOp} {name : UserName} {c : Acc} {status : Nat}
      (hfold : userNameFold c.user = some name) (hreach : Reaches op c)
      (hstatus : status = env.account st.calls op name c ∨ status = 500) (hne : status ≠ 200) :
      FrameStep env r st (some status)
        ⟨true, st.name, st.calls ++ [⟨op, name, env.account st.calls op name c⟩]⟩

variable {env : AuthEnv} {op : AccountOp} {r : Received} {st : AuthState}

theorem enterAccount_step {c : Acc} (hr : accountOf r = some (op, name))
    (hfold : userNameFold c.user = some name) :
    FrameStep env r st (some (enterAccount env op name c { st with frozen := true }).1)
      (enterAccount env op name c { st with frozen := true }).2 := by
  unfold enterAccount
  split
  · exact .refused (by simp) fun _ => rfl
  · rename_i hlen
    have hreach : Reaches op c := fun hop => by
      rw [not_and_or] at hlen
      have := hlen.resolve_left (not_not.mpr hop)
      omega
    dsimp only
    split
    · exact .failed hfold hreach (.inl rfl) ‹_›
    · have h200 : env.account st.calls op name c = 200 := not_not.mp ‹_›
      split
      · rw [h200]
        exact .entered hr hfold hreach h200
      · exact .failed hfold hreach (.inr rfl) (by simp)

theorem enter_step {req : HtttpRequest}
    (hr : ∀ c name, reqBodySplit req.body = some c → userNameFold c.user = some name →
      accountOf r = some (op, name)) :
    FrameStep env r st (some (enter env op req st).1) (enter env op req st).2 := by
  unfold enter
  split
  · exact .refused (by simp) fun _ => rfl
  · split
    · exact .refused (by simp) fun _ => rfl
    · exact enterAccount_step (hr _ _ ‹_› ‹_›) ‹_›

theorem authHandler_step (env : AuthEnv) (r : Received) (st : AuthState) :
    FrameStep env r st (authHandler env r st).1 (authHandler env r st).2 := by
  cases r with
  | broken => exact .refused nofun id
  | skipped => exact .refused (by simp [authHandler]) id
  | frame data =>
    cases hreq : htttpParseRequest data with
    | error e =>
      simp only [authHandler, hreq]
      exact .refused (by decide) id
    | ok req =>
      cases hm : authMethodOf req with
      | guest =>
        simp only [authHandler, hreq, hm]
        exact .guest (by simp [isGuest, hreq, hm])
      | none =>
        simp only [authHandler, hreq, hm]
        exact .refused (by decide) id
      | login | register =>
        simp only [authHandler, hreq, hm]
        exact enter_step fun c name hc hname => by
          simp [accountOf, accountOpOf, hreq, hm, hc, hname]

/-- `auth_retry_handler` once more, with the state at `AUTH_OK`, at
`AUTH_DROP`, or while it waits for the next frame. -/
def authLoop (env : AuthEnv) : Nat → AuthState → List Received → Option Received × AuthState
  | _, st, [] => (none, st)
  | i, st, r :: frames =>
    if i < maxAttempts env st then
      match authHandler env r st with
      | (none, st) => (none, st)
      | (some status, st) =>
        if status = 200 then (some r, st)
        else authLoop env (if status = 400 then i else i + 1) st frames
    else (none, st)

variable {st' : AuthState} {rest : List Received}

theorem authLoop_of_authRetryHandler :
    ∀ {frames : List Received} {i : Nat} {st : AuthState},
      authRetryHandler env i st frames = some (r, st', rest) →
      authLoop env i st frames = (some r, st') ∧ r :: rest <:+ frames
  | [], _, _, h => by cases h
  | x :: frames, i, st, h => by
    rw [authRetryHandler] at h
    rw [authLoop]
    split at h
    · rw [if_pos ‹_›]
      split at h
      · cases h
      · split at h
        · cases h
          exact ⟨if_pos ‹_›, suffix_rfl⟩
        · obtain ⟨hloop, hsuffix⟩ := authLoop_of_authRetryHandler h
          exact ⟨by rw [if_neg ‹_›, hloop], hsuffix.trans (suffix_cons ..)⟩
    · cases h

/-- The frame asked for a guest, who has no name, or named the account that
the last call answered with 200 and that the connection now has. -/
def AuthState.AdmittedBy (st : AuthState) (r : Received) : Prop :=
  isGuest r = true ∧ st.name.val = [] ∨
    ∃ op name, accountOf r = some (op, name) ∧ st.calls.getLast? = some ⟨op, name, 200⟩ ∧
      st.name = name

theorem authLoop_admittedBy :
    ∀ {frames : List Received} {i : Nat} {st : AuthState},
      authLoop env i st frames = (some r, st') → st'.AdmittedBy r
  | [], _, _, h => by cases h
  | x :: frames, i, st, h => by
    rw [authLoop] at h
    split at h
    · have hstep := authHandler_step env x st
      split at h
      · cases h
      · rename_i hx
        rw [hx] at hstep
        split at h
        · subst_vars
          cases h
          cases hstep with
          | refused ho => exact absurd rfl ho
          | guest hr => exact .inl ⟨hr, rfl⟩
          | entered hr => exact .inr ⟨_, _, hr, by simp, rfl⟩
          | failed _ _ _ hne => exact absurd rfl hne
        · exact authLoop_admittedBy h
    · cases h

/-- The name is one the connection logged into or registered. -/
def AuthState.Entered (st : AuthState) (name : Bytes) : Prop :=
  name ≠ [] ∧ ∃ call ∈ st.calls, call.status = 200 ∧ call.name.val = name

theorem isGuest_of_accountOf (h : accountOf r = some (op, name)) :
    isGuest r = false ∧ name.val ≠ [] := by
  cases r with
  | broken | skipped => cases h
  | frame data =>
    cases hreq : htttpParseRequest data with
    | error e => simp [accountOf, hreq] at h
    | ok req =>
      simp only [accountOf, hreq, Option.bind_eq_bind, Option.bind_eq_some_iff] at h
      obtain ⟨op', hop, c, -, name', hname, h⟩ := h
      cases h
      refine ⟨?_, userNameFold_ne_nil hname⟩
      cases hm : authMethodOf req <;> simp_all [isGuest, accountOpOf]

theorem authRetryHandler_admits {frames : List Received} {i : Nat}
    (h : authRetryHandler env i st frames = some (r, st', rest)) :
    if isGuest r then st'.name.val = [] else st'.Entered st'.name.val := by
  rcases authLoop_admittedBy (authLoop_of_authRetryHandler h).1 with
    ⟨hr, hname⟩ | ⟨op, name, hr, hcall, rfl⟩
  · rwa [if_pos hr]
  · obtain ⟨hguest, hne⟩ := isGuest_of_accountOf hr
    rw [hguest]
    exact ⟨hne, _, mem_of_getLast? hcall, rfl, rfl⟩

end Corestack.Core
