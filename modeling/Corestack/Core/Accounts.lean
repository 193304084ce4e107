import Corestack.Core.AccountStore

/-!
# Accounts are unique and passwords decide logins

What `account_register` and `account_login` promise when any number of
processes run them: each is proved once against what the others may do,
statement by statement, and `Pool.run_keeps` puts the promises together.
-/

namespace Corestack.Core

open Lib Db

/-! ## Registering -/

variable {ι : Type} {base : List Row} {p : ι} {w w' : World ι} {name salt digest : Bytes}
  {iters : Int}

/-- What an attempt to register comes to. After a deadlock the connection
works and nothing has happened. -/
def TxnPost (base : List Row) (p : ι) (name salt digest : Bytes) (iters : Int) (w : World ι) :
    TxnResult → Prop
  | .failed .retry => w.conns p = some ⟨none, none⟩ ∧ w.Silent p
  | .failed _ => True
  | .taken => (∃ row ∈ w.table base, row.name = name) ∧ w.Silent p
  | .added id => ∃ d ∈ w.serial, d.pid = p ∧ ∃ created,
      d.txn.writes = [⟨id, name, salt, digest, iters, created⟩]

variable {result : TxnResult}

theorem TxnPost.rely (h : TxnPost base p name salt digest iters w result) (hw : w.Rely p w') :
    TxnPost base p name salt digest iters w' result := by
  cases result with
  | failed st =>
    cases st with
    | retry => exact ⟨hw.conn.trans h.1, hw.silent h.2⟩
    | ok | error | io | timeout => trivial
  | taken =>
    obtain ⟨⟨row, hrow, hname⟩, hs⟩ := h
    exact ⟨⟨row, hw.table hrow, hname⟩, hw.silent hs⟩
  | added id =>
    obtain ⟨d, hd, h⟩ := h
    exact ⟨d, hw.serial d hd, h⟩

theorem TxnPost.failed {st : DbStatus} (hst : st ≠ .retry) :
    TxnPost base p name salt digest iters w (.failed st) := by
  cases st with
  | retry => exact absurd rfl hst
  | ok | error | io | timeout => trivial

theorem mem_table_of_idOf {h : List (AccountDone ι)} (hsub : h.Sublist w.serial)
    {name : Bytes} (hne : (Query.idOf name).eval (rowsOf base h) ≠ []) :
    ∃ row ∈ w.table base, row.name = name := by
  obtain ⟨x, hx⟩ := List.exists_mem_of_ne_nil _ hne
  obtain ⟨row, hrow, -⟩ := List.mem_map.mp hx
  obtain ⟨hmem, hname⟩ := List.mem_filter.mp hrow
  exact ⟨row, mem_rowsOf_mono (fun d hd => hsub.subset hd) hmem, by simpa using hname⟩

variable [DecidableEq ι] {kdf : Bytes → Bytes → Int → Vector UInt8 32}

theorem keeps_txn_end (h : TxnPost base p name salt digest iters w result) :
    Keeps kdf base p (Ends (TxnPost base p name salt digest iters)) (pure result) w :=
  fun _ hw => h.rely hw

variable {v : Int}

theorem Faithful.dbNextId {rows : List (List Bytes)} {body : Bytes} (h : Faithful rows body)
    (hv : dbNextId body = some v) : nextIdOf rows = some v := by
  unfold Core.dbNextId at hv
  split at hv
  · cases hv
  · rename_i hcount
    obtain ⟨hlen, -⟩ := h 0 hcount
    rwa [List.length_eq_zero_iff.mp hlen.symm]
  · rename_i n hne hcount
    obtain ⟨hlen, hfields⟩ := h n hcount
    have hpos : 0 < n := Nat.pos_of_ne_zero hne
    split at hv
    · cases hv
    · rename_i fields hread
      rw [hfields 0 hpos] at hread
      cases rows with
      | nil => cases hread
      | cons f rows =>
        cases hread
        cases fields <;> exact hv

theorem keeps_stmt {sql : Stmt} {txn : Option AccountTxn}
    {next : DbStatus × Bytes → AccountM TxnResult}
    (hconn : w.conns p = some ⟨none, txn⟩) (hsilent : w.Silent p) (hsafe : Safe sql txn)
    (hok : ∀ w₁ w₂ t' rows body, Executes base p sql txn w₁ t' w₂ rows → Faithful rows body →
      w₁.Silent p → Keeps kdf base p (Ends (TxnPost base p name salt digest iters))
        (next (.ok, body)) (w₂.setConn p (some ⟨none, t'⟩))) :
    Keeps kdf base p (Ends (TxnPost base p name salt digest iters))
      (dbSocketExec sql >>= fun r => if r.1 ≠ .ok then pure (.failed r.1) else next r) w := by
  refine keeps_exec hconn hsafe ?_ ?_ ?_
  · intro w₁ w₂ t' rows body hrely _ hx hb _
    exact hok w₁ w₂ t' rows body hx hb (hrely.silent hsilent)
  · intro w₁ body hrely
    exact keeps_txn_end ⟨World.setConn_conns _ _, hrely.silent hsilent⟩
  · intro w₁ st body w₂ hne hretry _ _
    rw [if_pos hne]
    exact keeps_txn_end (.failed hretry)

variable {t : AccountTxn}

/-- The part of `register_txn` after the name was found free: the row is
inserted and committed. -/
theorem keeps_insert {next : Int} (hfold : name.map toLower = name)
    (hconn : w.conns p = some ⟨none, some t⟩) (hsilent : w.Silent p) (hwrites : t.writes = [])
    (hunnamed : ⟨[], .idOf name, []⟩ ∈ t.reads)
    (hnext : ∃ a, ⟨[], .maxId, a⟩ ∈ t.reads ∧ nextIdOf a = some next) :
    Keeps kdf base p (Ends (TxnPost base p name salt digest iters))
      (do
        let now ← time
        let inserted ← dbSocketExec (.insert ⟨next, name, salt, digest, iters, now⟩)
        if inserted.1 ≠ .ok then pure (.failed inserted.1)
        else
          let committed ← dbSocketExec .commit
          if committed.1 ≠ .ok then pure (.failed committed.1)
          else pure (.added next)) w := by
  refine keeps_quiet (fun w₁ r w₂ hact => ?_) fun w₁ now w₂ hrely _ => ?_
  · cases hact
    exact ⟨rfl, rfl, rfl, rfl⟩
  refine keeps_stmt (hrely.conn.trans hconn) (hrely.silent hsilent) trivial ?_
  intro w₃ w₄ t' rows body hx _ hs₃
  cases hx with
  | insert hrow =>
    have hready : RegisterTxn
        ⟨t.reads, t.writes ++ [⟨next, name, salt, digest, iters, now⟩]⟩
        ⟨next, name, salt, digest, iters, now⟩ :=
      ⟨by rw [hwrites, List.nil_append], hunnamed, hnext, hfold, hrow⟩
    refine keeps_stmt (World.setConn_conns _ _) hs₃ ⟨_, hready⟩ ?_
    intro w₅ w₆ t' rows body hx _ _
    cases hx with
    | commit hc =>
      exact keeps_txn_end ⟨_, (hc.mem_iff _).mpr (.inl rfl), rfl, now, hready.writes⟩

/-- The other branch: the name is taken, and the outcome of the rollback
does not matter. -/
theorem keeps_rollback (hconn : w.conns p = some ⟨none, some t⟩) (hsilent : w.Silent p)
    (htaken : ∃ row ∈ w.table base, row.name = name) :
    Keeps kdf base p (Ends (TxnPost base p name salt digest iters))
      (do
        let _ ← dbSocketExec .rollback
        pure .taken) w := by
  obtain ⟨row, hrow, hname⟩ := htaken
  have hpost : ∀ w₁ w₂, w.Rely p w₁ → w₁.After p .rollback w₂ →
      TxnPost base p name salt digest iters w₂ .taken := by
    intro w₁ w₂ hrely hafter
    refine ⟨⟨row, mem_rowsOf_mono hafter.serial (hrely.table hrow), hname⟩, ?_⟩
    exact hafter.silent (by decide) (hrely.silent hsilent)
  refine keeps_exec hconn trivial ?_ ?_ ?_
  · intro w₁ w₂ t' rows body hrely _ _ _ hafter
    exact keeps_txn_end (hpost w₁ _ hrely hafter)
  · intro w₁ body hrely
    exact keeps_txn_end (hpost w₁ _ hrely ⟨fun _ h => h, fun _ h => h⟩)
  · intro w₁ st body w₂ _ _ hrely hafter
    exact keeps_txn_end (hpost w₁ w₂ hrely hafter)

theorem registerTxn_keeps (hfold : name.map toLower = name)
    (hconn : w.conns p = some ⟨none, none⟩) (hsilent : w.Silent p) :
    Keeps kdf base p (Ends (TxnPost base p name salt digest iters))
      (registerTxn name salt digest iters) w := by
  refine keeps_stmt hconn hsilent trivial ?_
  intro w₁ w₂ t' rows body hx _ hs₁
  cases hx
  refine keeps_stmt (World.setConn_conns _ _) hs₁ trivial ?_
  intro w₃ w₄ t' rows maxBody hx hmax hs₃
  cases hx with
  | read _ =>
  cases hnext : dbNextId maxBody with
  | none => exact keeps_txn_end (.failed (by decide))
  | some next =>
    refine keeps_stmt (World.setConn_conns _ _) hs₃ trivial ?_
    intro w₅ w₆ t' rows body hx hnamed hs₅
    cases hx with
    | read hsub =>
    cases hcount : dbRowCount body with
    | none => exact keeps_txn_end (.failed (by decide))
    | some n =>
      obtain ⟨hlen, -⟩ := hnamed n hcount
      cases n with
      | zero =>
        have hnil := List.length_eq_zero_iff.mp hlen.symm
        refine keeps_insert hfold (World.setConn_conns _ _) hs₅ rfl ?_ ?_
        · rw [hnil]
          exact List.mem_append_right _ (List.mem_singleton_self _)
        · refine ⟨_, List.mem_append_left _ ?_, hmax.dbNextId hnext⟩
          exact List.mem_append_right _ (List.mem_singleton_self _)
      | succ n =>
        refine keeps_rollback (World.setConn_conns _ _) hs₅ (mem_table_of_idOf hsub ?_)
        intro hnil
        rw [show Txn.start.writes = ([] : List Row) from rfl, List.append_nil, hnil] at hlen
        cases hlen

/-! ## The loop and the whole of `account_register` -/

/-- What `account_register` promises: with 200 its row is committed, and
holds the digest of the password; with 409 there is a row with the name and
the process has written none. -/
structure RegisterPost (kdf : Bytes → Bytes → Int → Vector UInt8 32) (base : List Row) (p : ι)
    (name pass : Bytes) (w : World ι) (out : Outcome) : Prop where
  committed : out.1 = 200 → ∃ d ∈ w.serial, d.pid = p ∧ ∃ row, d.txn.writes = [row] ∧
    row.name = name ∧ out.2 = some row.id ∧ digestOf kdf pass row.salt row.iters = some row.digest
  taken : out.1 = 409 → (∃ row ∈ w.table base, row.name = name) ∧ w.Silent p

variable {pass : Bytes}

variable {out : Outcome}

omit [DecidableEq ι] in
theorem RegisterPost.rely (h : RegisterPost kdf base p name pass w out) (hw : w.Rely p w') :
    RegisterPost kdf base p name pass w' out where
  committed hout := by
    obtain ⟨d, hd, h⟩ := h.committed hout
    exact ⟨d, hw.serial d hd, h⟩
  taken hout := by
    obtain ⟨⟨row, hrow, hname⟩, hs⟩ := h.taken hout
    exact ⟨⟨row, hw.table hrow, hname⟩, hw.silent hs⟩

omit [DecidableEq ι] in
theorem RegisterPost.other {status : Nat} (h200 : status ≠ 200) (h409 : status ≠ 409) :
    RegisterPost kdf base p name pass w (status, none) :=
  ⟨fun h => absurd h h200, fun h => absurd h h409⟩

theorem keeps_register_end (h : RegisterPost kdf base p name pass w out) :
    Keeps kdf base p (Ends (RegisterPost kdf base p name pass)) (pure out) w :=
  fun _ hw => h.rely hw

theorem registerLoop_keeps (hfold : name.map toLower = name)
    (hdigest : digestOf kdf pass salt iters = some digest) (n : Nat)
    (hconn : w.conns p = some ⟨none, none⟩) (hsilent : w.Silent p) :
    Keeps kdf base p (Ends (RegisterPost kdf base p name pass))
      (registerLoop name salt digest iters n) w := by
  induction n generalizing w with
  | zero => exact keeps_register_end (.other (by decide) (by decide))
  | succ n ih =>
    refine keeps_bind (registerTxn_keeps hfold hconn hsilent) fun w₁ result hpost => ?_
    cases result with
    | failed st =>
      cases st with
      | retry => exact ih hpost.1 hpost.2
      | ok | error | io | timeout => exact keeps_register_end (.other (by decide) (by decide))
    | taken => exact keeps_register_end ⟨fun h => absurd h (by decide), fun _ => hpost⟩
    | added id =>
      obtain ⟨d, hd, hp, created, hwrites⟩ := hpost
      refine keeps_register_end ⟨fun _ => ?_, fun h => absurd h (by simp)⟩
      exact ⟨d, hd, hp, _, hwrites, rfl, rfl, hdigest⟩

theorem RegisterPost.setConn (h : RegisterPost kdf base p name pass w out) (c : Option Conn) :
    RegisterPost kdf base p name pass (w.setConn p c) out :=
  ⟨h.committed, h.taken⟩

variable {user : UserName} {c : Acc}

theorem accountRegister_keeps (hfold : user.val.map toLower = user.val) (hsilent : w.Silent p) :
    Keeps kdf base p (Ends (RegisterPost kdf base p user.val c.pass))
      (accountRegister iters user c) w := by
  have hfail : ∀ w₁ : World ι, Keeps kdf base p (Ends (RegisterPost kdf base p user.val c.pass))
      (pure (500, none)) w₁ :=
    fun w₁ => keeps_register_end (.other (by decide) (by decide))
  unfold accountRegister
  split
  · exact keeps_register_end (.other (by decide) (by decide))
  refine keeps_quiet (fun w₁ r w₂ hact => ?_) fun w₁ saltBytes w₂ hrely₂ _ => ?_
  · cases hact
    exact ⟨rfl, rfl, rfl, rfl⟩
  cases saltBytes with
  | none => exact hfail w₂
  | some saltBytes =>
  refine keeps_passwordHash (fun w₃ _ => hfail w₃) fun w₃ digest hrely₃ hdigest _ => ?_
  refine keeps_quiet (fun w₄ r w₅ hact => ?_) fun w₄ sem w₅ hrely₅ _ => ?_
  · cases hact <;> exact ⟨rfl, rfl, rfl, rfl⟩
  have hsilent₅ := hrely₅.silent (hrely₃.silent (hrely₂.silent hsilent))
  cases sem with
  | false => exact hfail w₅
  | true =>
  refine keeps_connOpen (fun w₆ _ => ?_) fun w₆ hrely₆ => ?_
  · refine keeps_quiet (fun w₇ r w₈ hact => ?_) fun w₇ r w₈ _ _ => hfail w₈
    cases hact
    exact ⟨rfl, rfl, rfl, rfl⟩
  refine keeps_bind (registerLoop_keeps hfold hdigest 3 (World.setConn_conns _ _)
    (hrely₆.silent hsilent₅)) fun w₇ out hout => ?_
  refine keeps_close fun w₈ hrely₈ => ?_
  refine keeps_quiet (fun w₉ r w₁₀ hact => ?_) fun w₉ r w₁₀ hrely₁₀ _ => ?_
  · cases hact
    exact ⟨rfl, rfl, rfl, rfl⟩
  · exact keeps_register_end (((hout.rely hrely₈).setConn none).rely hrely₁₀)

/-! ## Logging in -/

/-- What `account_login` promises: with 200 and 401 there is a row with the
name, and the password was checked against it; with 404 there was none when
the table was read. -/
structure LoginPost (kdf : Bytes → Bytes → Int → Vector UInt8 32) (base : List Row) (p : ι)
    (name pass : Bytes) (w : World ι) (out : Outcome) : Prop where
  accepted : out.1 = 200 → ∃ row ∈ w.table base, row.name = name ∧ out.2 = some row.id ∧
    digestOf kdf pass row.salt row.iters = some row.digest
  refused : out.1 = 401 → ∃ row ∈ w.table base, row.name = name ∧
    ∃ digest, digestOf kdf pass row.salt row.iters = some digest ∧ digest ≠ row.digest
  unknown : out.1 = 404 → ∃ rows, w.seen p = some rows ∧ ∀ row ∈ rows, row.name ≠ name

omit [DecidableEq ι] in
theorem LoginPost.rely (h : LoginPost kdf base p name pass w out) (hw : w.Rely p w') :
    LoginPost kdf base p name pass w' out where
  accepted hout := by
    obtain ⟨row, hrow, h⟩ := h.accepted hout
    exact ⟨row, hw.table hrow, h⟩
  refused hout := by
    obtain ⟨row, hrow, h⟩ := h.refused hout
    exact ⟨row, hw.table hrow, h⟩
  unknown hout := by
    obtain ⟨rows, hrows, h⟩ := h.unknown hout
    exact ⟨rows, hw.seen.trans hrows, h⟩

omit [DecidableEq ι] in
theorem LoginPost.failed : LoginPost kdf base p name pass w (500, none) :=
  ⟨fun h => absurd h (by decide), fun h => absurd h (by decide), fun h => absurd h (by decide)⟩

theorem keeps_login_end (h : LoginPost kdf base p name pass w out) :
    Keeps kdf base p (Ends (LoginPost kdf base p name pass)) (pure out) w :=
  fun _ hw => h.rely hw

/-- An answered select of the login row, of a table that is as it was read
or has grown since. -/
def Saw (base : List Row) (p : ι) (name : Bytes) (w : World ι) (reply : DbStatus × Bytes) : Prop :=
  reply.1 = .ok → ∃ rows, w.seen p = some rows ∧ (∀ row ∈ rows, row ∈ w.table base ∧ row.Ints) ∧
    Faithful ((Query.loginOf name).eval rows) reply.2

omit [DecidableEq ι] in
theorem Saw.rely {reply : DbStatus × Bytes} (h : Saw base p name w reply) (hw : w.Rely p w') :
    Saw base p name w' reply := by
  intro hok
  obtain ⟨rows, hrows, hsub, hbody⟩ := h hok
  exact ⟨rows, hw.seen.trans hrows, fun row hr => ⟨hw.table (hsub row hr).1, (hsub row hr).2⟩,
    hbody⟩

theorem keeps_select (hbase : SoundTable base) (hconn : w.conns p = some ⟨none, none⟩) :
    Keeps kdf base p (Ends fun w reply => Saw base p name w reply ∧
        (reply.1 = .retry → w.conns p = some ⟨none, none⟩))
      (dbSocketExec (.select (.loginOf name))) w := by
  have hsel : Keeps kdf base p (Ends fun w reply => Saw base p name w reply ∧
        (reply.1 = .retry → w.conns p = some ⟨none, none⟩))
      (dbSocketExec (.select (.loginOf name)) >>= pure) w := by
    refine keeps_exec hconn trivial ?_ ?_ ?_
    · intro w₁ w₂ t' rows body _ hinv hx hbody _
      cases hx
      intro w₃ hrely
      refine ⟨Saw.rely (fun _ => ?_) hrely, fun h => by cases h⟩
      have hints := (hinv.sound hbase).ints
      exact ⟨w₁.table base, Function.update_self _ _ _, fun row hr => ⟨hr, hints row hr⟩, hbody⟩
    · intro w₁ body _ w₂ hrely
      exact ⟨fun h => (by cases h), fun _ => hrely.conn.trans (World.setConn_conns _ _)⟩
    · intro w₁ st body w₂ hok hretry _ _ w₃ _
      exact ⟨fun h => absurd h hok, fun h => absurd h hretry⟩
  exact hsel

theorem copyText_fmtInt (hv : IsInt32 v) : copyText (fmtInt v) = some (fmtInt v) := by
  have hlen := length_fmtInt_le hv
  have hpos : (fmtInt v).length ≠ 0 := by simpa using fmtInt_ne_nil v
  unfold copyText
  rw [if_neg (by omega), cText_eq_self (notMem_fmtInt (by decide) (by decide))]

theorem strtol_fmtInt_fst (hv : IsInt32 v) : (strtol (fmtInt v)).1 = v := by
  rw [strtol_fmtInt (by have := hv.1; omega) (by have := hv.2; omega)]

variable {rows : List Row}

theorem Faithful.loginRow {body : Bytes} {n : Nat} {fields : List Bytes}
    (h : Faithful ((Query.loginOf name).eval rows) body) (hcount : dbRowCount body = some (n + 1))
    (hfields : dbRowFields body 0 = some fields) :
    ∃ row ∈ rows, row.name = name ∧ fields = [fmtInt row.id, row.salt, row.digest,
      fmtInt row.iters] := by
  obtain ⟨-, hread⟩ := h _ hcount
  rw [hread 0 (Nat.succ_pos n)] at hfields
  have hmem := List.mem_of_getElem? hfields
  obtain ⟨row, hrow, heq⟩ := List.mem_map.mp hmem
  obtain ⟨hin, hname⟩ := List.mem_filter.mp hrow
  exact ⟨row, hin, by simpa using hname, heq.symm⟩

theorem parseLoginDbResult_ok {body : Bytes} {found : LoginRow} (hints : ∀ row ∈ rows, row.Ints)
    (hbody : Faithful ((Query.loginOf name).eval rows) body)
    (h : parseLoginDbResult .ok body = .ok found) :
    ∃ row ∈ rows, row.name = name ∧ found = ⟨row.id, row.salt, row.digest, row.iters⟩ ∧
      row.digest.length = 64 := by
  unfold parseLoginDbResult at h
  rw [if_neg (by simp)] at h
  split at h
  · cases h
  · cases h
  · rename_i n hne hcount
    obtain ⟨n, rfl⟩ := Nat.exists_eq_succ_of_ne_zero hne
    split at h
    · rename_i f0 f1 f2 f3 hfields
      obtain ⟨row, hrow, hname, heq⟩ := hbody.loginRow hcount hfields
      obtain ⟨hid, hiters⟩ := hints row hrow
      cases heq
      rw [copyText_fmtInt hid, copyText_fmtInt hiters] at h
      simp only [strtol_fmtInt_fst hid, strtol_fmtInt_fst hiters, toInt32_eq_self hiters] at h
      split at h
      · cases h
      · rename_i hlen
        split at h
        · cases h
        · cases h
          exact ⟨row, hrow, hname, rfl, not_not.mp (not_or.mp hlen).2⟩
    · cases h

theorem parseLoginDbResult_error {body : Bytes} {status : Nat}
    (hbody : Faithful ((Query.loginOf name).eval rows) body)
    (h : parseLoginDbResult .ok body = .error status) :
    status = 500 ∨ status = 404 ∧ ∀ row ∈ rows, row.name ≠ name := by
  unfold parseLoginDbResult at h
  rw [if_neg (by simp)] at h
  split at h
  · cases h
    exact .inl rfl
  · rename_i hcount
    cases h
    refine .inr ⟨rfl, fun row hrow hname => ?_⟩
    obtain ⟨hlen, -⟩ := hbody 0 hcount
    have hnil := List.map_eq_nil_iff.mp (List.length_eq_zero_iff.mp hlen.symm)
    exact List.filter_eq_nil_iff.mp hnil row hrow (by simpa using hname)
  · left
    split at h
    · split at h
      · cases h
        rfl
      · split at h
        · dsimp only at h
          split at h
          · cases h
            rfl
          · cases h
        · cases h
          rfl
    · cases h
      rfl

theorem loginQuery_keeps (hbase : SoundTable base) (hconn : w.conns p = some ⟨none, none⟩) :
    Keeps kdf base p (Ends (Saw base p name)) (loginQuery name) w := by
  refine keeps_bind (keeps_select hbase hconn) fun w₁ first hfirst => ?_
  split
  · rename_i hretry
    refine (keeps_select hbase (hfirst.2 hretry)).mono fun r w₂ hr => ?_
    cases r with
    | ok reply => exact hr.1
    | error e => exact e.elim
  · exact fun w₂ hrely => hfirst.1.rely hrely

theorem accountLogin_keeps (hbase : SoundTable base) :
    Keeps kdf base p (Ends (LoginPost kdf base p user.val c.pass)) (accountLogin user c) w := by
  refine keeps_connOpen (fun w₁ _ => keeps_login_end .failed) fun w₁ _ => ?_
  refine keeps_bind (loginQuery_keeps hbase (World.setConn_conns _ _)) fun w₂ reply hsaw => ?_
  obtain ⟨st, body⟩ := reply
  refine keeps_close fun w₃ hrely₃ => ?_
  have hsaw₃ := hsaw.rely hrely₃
  by_cases hok : st = .ok
  · subst hok
    obtain ⟨rows, hrows, hsub, hbody⟩ := hsaw₃ rfl
    split
    · rename_i status herr
      rcases parseLoginDbResult_error hbody herr with rfl | ⟨rfl, hnone⟩
      · exact keeps_login_end .failed
      · exact keeps_login_end ⟨fun h => absurd h (by decide), fun h => absurd h (by decide),
          fun _ => ⟨rows, hrows, hnone⟩⟩
    · rename_i found hfound
      obtain ⟨row, hrow, hname, rfl, hlen⟩ :=
        parseLoginDbResult_ok (fun row hr => (hsub row hr).2) hbody hfound
      refine keeps_passwordHash (fun w₄ _ => keeps_login_end .failed) ?_
      intro w₄ want hrely₄ hwant hwantLen
      have hin := hrely₄.table (hsub row hrow).1
      dsimp only
      rw [List.take_of_length_le (by omega), List.take_of_length_le (by omega)]
      split
      · rename_i heq
        exact keeps_login_end ⟨fun _ => ⟨row, hin, hname, rfl, heq ▸ hwant⟩,
          fun h => absurd h (by simp), fun h => absurd h (by simp)⟩
      · rename_i hne
        exact keeps_login_end ⟨fun h => absurd h (by decide),
          fun _ => ⟨row, hin, hname, want, hwant, hne⟩, fun h => absurd h (by decide)⟩
  · have hparse : parseLoginDbResult st body = .error 500 := if_pos hok
    rw [hparse]
    exact keeps_login_end .failed

/-! ## Any number of processes -/

/-- What a process of the account system asks for. -/
structure Request where
  op : AccountOp
  acc : Acc

/-- What is promised of the answer to a request whose name folds to `name`. -/
def Answered (kdf : Bytes → Bytes → Int → Vector UInt8 32) (base : List Row) (p : ι) (req : Request)
    (name : UserName) (w : World ι) (out : Outcome) : Prop :=
  match req.op with
  | .login => LoginPost kdf base p name.val req.acc.pass w out
  | .register => RegisterPost kdf base p name.val req.acc.pass w out

theorem userNameFold_folded {s : Bytes} {name : UserName} (h : userNameFold s = some name) :
    name.val.map toLower = name.val := by
  unfold userNameFold at h
  split at h
  · cases h
    have hidem : ∀ n < 256, toLower (toLower (.ofNat n)) = toLower (.ofNat n) := by decide +kernel
    rw [List.map_map]
    refine List.map_congr_left fun c _ => ?_
    have := hidem c.toNat c.toNat_lt
    rwa [UInt8.ofNat_toNat] at this
  · cases h

/-- The account system before any process has made a call. -/
def accountPool (iters : Int) (reqs : ι → Request) :
    Pool AccountCallOp AccountReply Empty Outcome (World ι) ι :=
  ⟨.start, fun p => accountProgram iters (reqs p).op (reqs p).acc⟩

theorem accountProgram_keeps (hbase : SoundTable base) (req : Request) :
    Keeps kdf base p (Ends fun w out => ∀ name, userNameFold req.acc.user = some name →
      Answered kdf base p req name w out) (accountProgram iters req.op req.acc) .start := by
  obtain ⟨op, acc⟩ := req
  cases hfold : userNameFold acc.user with
  | none =>
    simp only [accountProgram, hfold]
    intro w _ name h
    cases h
  | some name =>
    simp only [accountProgram, hfold]
    cases op with
    | login =>
      refine (accountLogin_keeps hbase).mono fun r w hr => ?_
      cases r with
      | ok out => rintro _ ⟨⟩; exact hr
      | error e => exact e.elim
    | register =>
      have hsilent : (World.start : World ι).Silent p := by
        rintro d (hd | hd) <;> cases hd
      refine (accountRegister_keeps (userNameFold_folded hfold) hsilent).mono fun r w hr => ?_
      cases r with
      | ok out => rintro _ ⟨⟩; exact hr
      | error e => exact e.elim

/-- Accounts are unique and passwords decide logins: in every run of any
number of processes over a sound table, with any replies and any commits
left underway, the table stays sound, and every process that has returned
returned what its request deserves. -/
theorem accounts_unique_and_answered (kdf : Bytes → Bytes → Int → Vector UInt8 32)
    (hbase : SoundTable base) (iters : Int) (reqs : ι → Request)
    {x : Pool AccountCallOp AccountReply Empty Outcome (World ι) ι}
    (hrun : Relation.ReflTransGen (Pool.Step (accountRules kdf base)) (accountPool iters reqs) x) :
    SoundTable (x.state.table base) ∧
      ∀ p out, x.procs p = .ret out → ∀ name, userNameFold (reqs p).acc.user = some name →
        Answered kdf base p (reqs p) name x.state out := by
  have hstart : (accountContract base).inv (accountPool iters reqs).state :=
    ⟨Serial.nil, fun d hd => by rcases hd with hd | hd <;> cases hd⟩
  have hkeeps : ∀ p, Keeps kdf base p (Ends fun w out => ∀ name,
      userNameFold (reqs p).acc.user = some name → Answered kdf base p (reqs p) name w out)
      ((accountPool iters reqs).procs p) (accountPool iters reqs).state :=
    fun p => accountProgram_keeps hbase (reqs p)
  obtain ⟨hinv, hall⟩ := Pool.run_keeps accountContract_fits hstart hkeeps hrun
  refine ⟨hinv.sound hbase, fun p out hret => ?_⟩
  have hp := hall p
  rw [hret] at hp
  exact hp.ended accountContract_fits

/-! ### Two registrations of one name -/

section Pair

variable {kdf : Bytes → Bytes → Int → Vector UInt8 32} {w w' : World Bool}
  {first second : Outcome} {x y : AccountM Outcome} {op : AccountCallOp}
  {k : AccountReply op → AccountM Outcome} {r : AccountReply op}

/-- Two processes over an empty table that are left with the programs `x`
and `y` can return `first` and `second`. -/
def Pair (kdf : Bytes → Bytes → Int → Vector UInt8 32) (first second : Outcome) (w : World Bool)
    (x y : AccountM Outcome) : Prop :=
  ∃ w', Relation.ReflTransGen (Pool.Step (accountRules kdf [])) ⟨w, fun p => bif p then y else x⟩
    ⟨w', fun p => .ret (bif p then second else first)⟩

theorem Pair.left (hact : Acts kdf [] false op w r w') (h : Pair kdf first second w' (k r) y) :
    Pair kdf first second w (.call op k) y := by
  obtain ⟨w'', hrun⟩ := h
  refine ⟨w'', .head ?_ hrun⟩
  have hstep : Pool.Step (accountRules kdf [])
      ⟨w, fun p : Bool => bif p then y else Prog.call op k⟩ _ := .act (p := false) rfl hact
  convert hstep using 2
  funext p
  cases p <;> rfl

theorem Pair.right (hact : Acts kdf [] true op w r w') (h : Pair kdf first second w' x (k r)) :
    Pair kdf first second w x (.call op k) := by
  obtain ⟨w'', hrun⟩ := h
  refine ⟨w'', .head ?_ hrun⟩
  have hstep : Pool.Step (accountRules kdf [])
      ⟨w, fun p : Bool => bif p then Prog.call op k else x⟩ _ := .act (p := true) rfl hact
  convert hstep using 2
  funext p
  cases p <;> rfl

theorem Pair.ended (w : World Bool) : Pair kdf first second w (.ret first) (.ret second) := by
  refine ⟨w, ?_⟩
  have hret : (fun p : Bool => (.ret (bif p then second else first) : AccountM Outcome)) =
      fun p => bif p then .ret second else .ret first := by
    funext p
    cases p <;> rfl
  rw [hret]

end Pair

/-- Two processes that register one name, in lower case and in capitals. -/
def twins : Bool → Request
  | false => ⟨.register, ⟨bytes "ann", bytes "password"⟩⟩
  | true => ⟨.register, ⟨bytes "ANN", bytes "passw0rd"⟩⟩

def zeroKdf : Bytes → Bytes → Int → Vector UInt8 32 := fun _ _ _ => Vector.replicate 32 0

def emptyReply : Bytes := [105, 100, 10, 45, 45, 10, 10, 32, 48, 32, 114, 111, 119, 115, 46, 10]

theorem emptyReply_faithful : Faithful [] emptyReply := by
  intro n hn
  cases hn
  exact ⟨rfl, fun i hi => absurd hi (Nat.not_lt_zero i)⟩

def oneReply : Bytes :=
  [105, 100, 10, 45, 45, 10, 49, 10, 10, 32, 49, 32, 114, 111, 119, 115, 46, 10]

theorem oneReply_faithful : Faithful [[fmtInt 1]] oneReply := by
  have hone : fmtInt 1 = [49] := by decide +kernel
  intro n hn
  cases hn
  refine ⟨rfl, fun i hi => ?_⟩
  rw [Nat.lt_one_iff.mp hi, hone]
  rfl

/-- The second process has hashed its password before the first one starts,
and asks for the semaphore when the first one has released it. -/
theorem twins_register :
    Pair zeroKdf (200, some 1) (409, none) .start
      (accountProgram 1 .register (twins false).acc)
      (accountProgram 1 .register (twins true).acc) := by
  refine Pair.right (.randBytes (some (Vector.replicate 16 1))) ?_
  refine Pair.left (.randBytes (some (Vector.replicate 16 0))) ?_
  refine Pair.right (.pbkdf2 (.inr rfl)) ?_
  refine Pair.left (.pbkdf2 (.inr rfl)) ?_
  refine Pair.left (.acquired rfl) ?_
  refine Pair.left .connected ?_
  refine Pair.left (.exec rfl (.answered rfl .begin emptyReply_faithful)) ?_
  refine Pair.left (.exec rfl (.answered rfl (.read (List.nil_sublist _)) emptyReply_faithful)) ?_
  refine Pair.left (.exec rfl (.answered rfl (.read (List.nil_sublist _)) emptyReply_faithful)) ?_
  refine Pair.left (.time 0) ?_
  refine Pair.left (.exec rfl (.answered rfl (.insert ?_) emptyReply_faithful)) ?_
  · exact ⟨⟨by decide, by decide⟩, ⟨by decide, by decide⟩⟩
  refine Pair.left (.exec rfl (.answered rfl (.commit ⟨?_, [], [], rfl, rfl⟩)
    emptyReply_faithful)) ?_
  · refine Serial.singleton fun r hr => ?_
    simp only [Txn.start, List.nil_append, List.cons_append, List.mem_cons, List.not_mem_nil,
      or_false] at hr
    rcases hr with rfl | rfl <;> rfl
  refine Pair.left .close ?_
  refine Pair.left .release ?_
  -- the row of the first process is there now
  refine Pair.right (.acquired rfl) ?_
  refine Pair.right .connected ?_
  refine Pair.right (.exec rfl (.answered rfl .begin emptyReply_faithful)) ?_
  refine Pair.right (.exec rfl (.answered rfl (.read (List.Sublist.refl _)) oneReply_faithful)) ?_
  refine Pair.right (.exec rfl (.answered rfl (.read (List.Sublist.refl _)) oneReply_faithful)) ?_
  refine Pair.right (.exec rfl (.answered rfl .rollback emptyReply_faithful)) ?_
  refine Pair.right .close ?_
  refine Pair.right .release ?_
  exact Pair.ended _

/-- One of them gets the name, and the other one is told that it is taken. -/
theorem accounts_unique_and_answered_twins :
    ∃ x : Pool AccountCallOp AccountReply Empty Outcome (World Bool) Bool,
      Relation.ReflTransGen (Pool.Step (accountRules zeroKdf [])) (accountPool 1 twins) x ∧
        x.procs false = .ret (200, some 1) ∧ x.procs true = .ret (409, none) ∧
        SoundTable (x.state.table []) ∧
        ∃ name, userNameFold (twins false).acc.user = some name ∧
          userNameFold (twins true).acc.user = some name ∧
          Answered zeroKdf [] false (twins false) name x.state (200, some 1) ∧
          Answered zeroKdf [] true (twins true) name x.state (409, none) := by
  obtain ⟨w, hrun⟩ := twins_register
  have hpool : accountPool 1 twins = ⟨.start, fun p =>
      bif p then accountProgram 1 .register (twins true).acc
      else accountProgram 1 .register (twins false).acc⟩ := by
    unfold accountPool
    congr 1
    funext p
    cases p <;> rfl
  rw [← hpool] at hrun
  have hsound : SoundTable [] :=
    ⟨List.nodup_nil, List.nodup_nil, fun r hr => (by cases hr), fun r hr => (by cases hr)⟩
  obtain ⟨htable, hanswered⟩ := accounts_unique_and_answered zeroKdf hsound 1 twins hrun
  exact ⟨_, hrun, rfl, rfl, htable, _, rfl, rfl, hanswered false _ rfl _ rfl,
    hanswered true _ rfl _ rfl⟩

end Corestack.Core
