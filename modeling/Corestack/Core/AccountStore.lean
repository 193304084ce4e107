import Corestack.Core.Account

/-!
# The account table under any number of processes

Uniqueness is not a constraint of the table: it follows from what every
committed transaction read before it wrote (`RegisterTxn`), at its place in
the serial history (`World.Inv.sound`). The second half says what a process
may count on while the others run (`World.Rely`) and turns that into a rule
for each call (`keeps_exec` and the ones around it). The semaphore is
modelled but carries no part of the argument: serializable transactions are
enough.
-/

namespace Corestack.Core

open Lib Db

/-! ## The table -/

/-- What the table is meant to be: no name and no id twice. The names in it
are folded, and the numbers are those an `int` column can hold. -/
structure SoundTable (rows : List Row) : Prop where
  names : (rows.map (·.name)).Nodup
  ids : (rows.map (·.id)).Nodup
  folded : ∀ r ∈ rows, r.name.map toLower = r.name
  ints : ∀ r ∈ rows, r.Ints

/-- A transaction of `register_txn` that is ready to be committed: it found
no row with the name, took its id from the maximum and wrote one row. -/
structure RegisterTxn (t : AccountTxn) (row : Row) : Prop where
  writes : t.writes = [row]
  unnamed : ⟨[], .idOf row.name, []⟩ ∈ t.reads
  nextId : ∃ a, ⟨[], .maxId, a⟩ ∈ t.reads ∧ nextIdOf a = some row.id
  folded : row.name.map toLower = row.name
  ints : row.Ints

variable {v : Int}

theorem nextIdOf_fmtInt (hv : IsInt32 v) :
    nextIdOf [[fmtInt v]] = some (if v < 0 then 1 else v + 1) := by
  have hlen := length_fmtInt_le hv
  have hpos : (fmtInt v).length ≠ 0 := by simpa using fmtInt_ne_nil v
  have hzero : 0 ∉ fmtInt v := notMem_fmtInt (by decide) (by decide)
  have hread : strtol (fmtInt v) = (v, []) :=
    strtol_fmtInt (by have := hv.1; omega) (by have := hv.2; omega)
  simp only [nextIdOf, cText_eq_self hzero, hread]
  rw [if_neg (by omega), if_neg (by simp)]

variable {rows : List Row} {r : Row}

/-- The id that `db_next_id` finds is above every id in the table, since ids
are printed and read back without loss. -/
theorem lt_of_nextIdOf (hints : ∀ r ∈ rows, r.Ints) (h : nextIdOf (Query.maxId.eval rows) = some v)
    (hr : r ∈ rows) : r.id < v := by
  have hmem : r.id ∈ rows.map (·.id) := List.mem_map_of_mem hr
  obtain ⟨m, hm⟩ : ∃ m, (rows.map (·.id)).max? = some m := by
    cases hmax : (rows.map (·.id)).max? with
    | none => rw [List.max?_eq_none_iff.mp hmax] at hmem; cases hmem
    | some m => exact ⟨m, rfl⟩
  obtain ⟨hin, hle⟩ := List.max?_eq_some_iff.mp hm
  obtain ⟨s, hs, rfl⟩ := List.mem_map.mp hin
  have hrs := hle r.id hmem
  simp only [Query.eval, hm, Option.toList_some, List.map_cons, List.map_nil] at h
  rw [nextIdOf_fmtInt (hints s hs).1] at h
  cases h
  split <;> omega

theorem notMem_of_idOf {name : Bytes} (h : [] = (Query.idOf name).eval rows) (hr : r ∈ rows) :
    r.name ≠ name := by
  intro hname
  have hnil : rows.filter (·.name = name) = [] := List.map_eq_nil_iff.mp h.symm
  have := List.filter_eq_nil_iff.mp hnil r hr
  exact this (by simpa using hname)

theorem SoundTable.register (h : SoundTable rows) {t : AccountTxn} {row : Row}
    (ht : RegisterTxn t row) (hreads : ∀ r ∈ t.reads, r.answer = r.query.eval (rows ++ r.own)) :
    SoundTable (rows ++ t.writes) := by
  have hunnamed := hreads _ ht.unnamed
  obtain ⟨a, ha, hnext⟩ := ht.nextId
  have hmax := hreads _ ha
  simp only [List.append_nil] at hunnamed hmax
  rw [hmax] at hnext
  have hname : ∀ r ∈ rows, r.name ≠ row.name := fun r hr => notMem_of_idOf hunnamed hr
  have hid : ∀ r ∈ rows, r.id ≠ row.id := fun r hr => (lt_of_nextIdOf h.ints hnext hr).ne
  rw [ht.writes]
  refine ⟨?_, ?_, ?_, ?_⟩
  · rw [List.map_append, List.nodup_append]
    refine ⟨h.names, by simp, ?_⟩
    simpa using hname
  · rw [List.map_append, List.nodup_append]
    refine ⟨h.ids, by simp, ?_⟩
    simpa using hid
  · simpa [or_imp, forall_and] using ⟨h.folded, ht.folded⟩
  · simpa [or_imp, forall_and] using ⟨h.ints, ht.ints⟩

/-! ## The contract of a process -/

section Contract

variable {ι : Type} {base : List Row} {p : ι}

/-- The history is serial, and what is in it or on its way there
registers an account. -/
structure World.Inv (base : List Row) (w : World ι) : Prop where
  serial : Serial Query.eval base w.serial
  registers : ∀ d, d ∈ w.serial ∨ d ∈ w.orphans → ∃ row, RegisterTxn d.txn row

variable {w : World ι}

theorem World.Inv.sound (h : w.Inv base) (hbase : SoundTable base) : SoundTable (w.table base) := by
  refine h.serial.rows_keep hbase fun rows hrows d hd hreads => ?_
  obtain ⟨row, hrow⟩ := h.registers d (.inl hd)
  exact hrows.register hrow hreads

/-- The process has committed nothing and has nothing underway. -/
def World.Silent (w : World ι) (p : ι) : Prop :=
  ∀ d, d ∈ w.serial ∨ d ∈ w.orphans → d.pid ≠ p

/-- What the others leave alone: the connection of the process and the rows
that are committed. They commit nothing in its name. -/
structure World.Rely (p : ι) (w w' : World ι) : Prop where
  conn : w'.conns p = w.conns p
  seen : w'.seen p = w.seen p
  serial : ∀ d ∈ w.serial, d ∈ w'.serial
  silent : w.Silent p → w'.Silent p

/-- What process `p` may do to the world. -/
structure World.Frame (p : ι) (w w' : World ι) : Prop where
  conns : ∀ q, q ≠ p → w'.conns q = w.conns q
  seen : ∀ q, q ≠ p → w'.seen q = w.seen q
  serial : ∀ d ∈ w.serial, d ∈ w'.serial
  fresh : ∀ d, d ∈ w'.serial ∨ d ∈ w'.orphans → d.pid = p ∨ d ∈ w.serial ∨ d ∈ w.orphans

theorem World.Rely.refl (w : World ι) : w.Rely p w := ⟨rfl, rfl, fun _ h => h, id⟩

variable {w' : World ι}

theorem World.Rely.trans {w'' : World ι} (h : w.Rely p w') (h' : w'.Rely p w'') : w.Rely p w'' :=
  ⟨h'.conn.trans h.conn, h'.seen.trans h.seen, fun d hd => h'.serial d (h.serial d hd),
    fun hs => h'.silent (h.silent hs)⟩

theorem World.Rely.table (h : w.Rely p w') {r : Row} (hr : r ∈ w.table base) : r ∈ w'.table base :=
  mem_rowsOf_mono h.serial hr

theorem World.Frame.refl (w : World ι) : w.Frame p w :=
  ⟨fun _ _ => rfl, fun _ _ => rfl, fun _ h => h, fun _ h => .inr h⟩

theorem World.Frame.rely {q : ι} (h : w.Frame p w') (hq : q ≠ p) :
    w.Rely q w' where
  conn := h.conns q hq
  seen := h.seen q hq
  serial := h.serial
  silent hs d hd := by
    rcases h.fresh d hd with hp | hold
    · rw [hp]
      exact hq.symm
    · exact hs d hold

theorem World.Frame.orphan (w : World ι) (t : AccountTxn) :
    w.Frame p { w with orphans := ⟨p, t⟩ :: w.orphans } where
  conns _ _ := rfl
  seen _ _ := rfl
  serial _ h := h
  fresh d hd := by
    rcases hd with hd | hd
    · exact .inr (.inl hd)
    · rcases List.mem_cons.mp hd with rfl | hd
      · exact .inl rfl
      · exact .inr (.inr hd)

theorem World.Inv.orphan (h : w.Inv base) {t : AccountTxn} {row : Row} (ht : RegisterTxn t row) :
    World.Inv base { w with orphans := ⟨p, t⟩ :: w.orphans } where
  serial := h.serial
  registers d hd := by
    rcases hd with hd | hd
    · exact h.registers d (.inl hd)
    · rcases List.mem_cons.mp hd with rfl | hd
      · exact ⟨row, ht⟩
      · exact h.registers d (.inr hd)

variable [DecidableEq ι] {kdf : Bytes → Bytes → Int → Vector UInt8 32}

theorem World.Frame.setConn (h : w.Frame p w') (c : Option Conn) :
    w.Frame p (w'.setConn p c) where
  conns q hq := by
    rw [← h.conns q hq]
    exact Function.update_of_ne hq _ _
  seen := h.seen
  serial := h.serial
  fresh := h.fresh

theorem World.Inv.setConn (h : w.Inv base) (c : Option Conn) : (w.setConn p c).Inv base :=
  ⟨h.serial, h.registers⟩

theorem World.setConn_conns (w : World ι) (c : Option Conn) : (w.setConn p c).conns p = c :=
  Function.update_self _ _ _

/-! ## Statements -/

/-- A COMMIT comes at the end of a registration, and nothing is inserted
outside of a transaction. -/
def Safe (sql : Stmt) (txn : Option AccountTxn) : Prop :=
  match sql, txn with
  | .commit, some t => ∃ row, RegisterTxn t row
  | .insert _, none => False
  | _, _ => True

theorem Executes.frame {sql : Stmt} {t t' : Option AccountTxn} {w w' : World ι}
    {rows : List (List Bytes)} (h : Executes base p sql t w t' w' rows) : w.Frame p w' := by
  cases h with
  | begin | read _ | insert _ | rollback => exact .refl w
  | readAlone =>
    exact ⟨fun _ _ => rfl, fun q hq => Function.update_of_ne hq _ _, fun _ h => h,
      fun _ h => .inr h⟩
  | insertAlone _ hc | commit hc =>
    refine ⟨fun _ _ => rfl, fun _ _ => rfl, fun d hd => (hc.mem_iff d).mpr (.inr hd), ?_⟩
    rintro d (hd | hd)
    · rcases (hc.mem_iff d).mp hd with rfl | hd
      · exact .inl rfl
      · exact .inr (.inl hd)
    · exact .inr (.inr hd)

variable {t t' : Option AccountTxn} {sql : Stmt} {rows : List (List Bytes)}

theorem Executes.inv (h : Executes base p sql t w t' w' rows) (hsafe : Safe sql t) (hw : w.Inv base)
    : w'.Inv base := by
  cases h with
  | begin => exact hw
  | read _ => exact hw
  | readAlone => exact ⟨hw.serial, hw.registers⟩
  | insert _ => exact hw
  | insertAlone _ _ => exact hsafe.elim
  | commit hc =>
    refine ⟨hc.serial, ?_⟩
    rintro d (hd | hd)
    · rcases (hc.mem_iff d).mp hd with rfl | hd
      · exact hsafe
      · exact hw.registers d (.inl hd)
    · exact hw.registers d (.inr hd)
  | rollback => exact hw

theorem Executes.silent (h : Executes base p sql t w t' w' rows) (hsafe : Safe sql t)
    (hsql : sql ≠ .commit) (hw : w.Silent p) : w'.Silent p := by
  cases h with
  | begin => exact hw
  | read _ => exact hw
  | readAlone => exact hw
  | insert _ => exact hw
  | insertAlone _ _ => exact hsafe.elim
  | commit _ => exact absurd rfl hsql
  | rollback => exact hw

/-- What a statement leaves, whatever became of it. -/
structure World.After (p : ι) (sql : Stmt) (w w' : World ι) : Prop where
  serial : ∀ d ∈ w.serial, d ∈ w'.serial
  silent : sql ≠ .commit → w.Silent p → w'.Silent p

theorem Exec.frame {sql : Stmt} {c : Conn} {w w' : World ι} {r : DbStatus × Bytes}
    (h : Exec base p sql c w r w') : w.Frame p w' := by
  cases h with
  | dead _ => exact .refl w
  | answered _ hx _ => exact hx.frame.setConn _
  | refused _ hx =>
    rcases hx with ⟨rfl, -⟩ | ⟨rows, hx⟩
    · exact (World.Frame.refl _).setConn _
    · exact hx.frame.setConn _
  | deadlock _ => exact (World.Frame.refl _).setConn _
  | lost _ _ hx =>
    rcases hx with ⟨rfl, -⟩ | ⟨rows, hx⟩ | ⟨t, -, -, -, rfl⟩
    · exact (World.Frame.refl _).setConn _
    · exact hx.frame.setConn _
    · exact (World.Frame.orphan w t).setConn _

variable {r : DbStatus × Bytes} {c : Conn}

theorem Exec.inv (h : Exec base p sql c w r w') (hsafe : Safe sql c.txn) (hw : w.Inv base) :
    w'.Inv base := by
  cases h with
  | dead _ => exact hw
  | answered _ hx _ => exact (hx.inv hsafe hw).setConn _
  | refused _ hx =>
    rcases hx with ⟨rfl, -⟩ | ⟨rows, hx⟩
    · exact hw.setConn _
    · exact (hx.inv hsafe hw).setConn _
  | deadlock _ => exact hw.setConn _
  | lost _ _ hx =>
    rcases hx with ⟨rfl, -⟩ | ⟨rows, hx⟩ | ⟨t, rfl, ht, -, rfl⟩
    · exact hw.setConn _
    · exact (hx.inv hsafe hw).setConn _
    · rw [ht] at hsafe
      obtain ⟨row, hrow⟩ := hsafe
      exact (hw.orphan hrow).setConn _

theorem Exec.after (h : Exec base p sql c w r w') (hsafe : Safe sql c.txn) : w.After p sql w' := by
  refine ⟨h.frame.serial, fun hsql hw => ?_⟩
  cases h with
  | dead _ => exact hw
  | answered _ hx _ => exact hx.silent hsafe hsql hw
  | refused _ hx =>
    rcases hx with ⟨rfl, -⟩ | ⟨rows, hx⟩
    · exact hw
    · exact hx.silent hsafe hsql hw
  | deadlock _ => exact hw
  | lost _ _ hx =>
    rcases hx with ⟨rfl, -⟩ | ⟨rows, hx⟩ | ⟨t, rfl, -⟩
    · exact hw
    · exact hx.silent hsafe hsql hw
    · exact absurd rfl hsql

/-! ## The contract fits the rules -/

/-- The contract of a process of the account system. -/
def accountContract (base : List Row) : Pact (World ι) ι := ⟨World.Inv base, World.Rely⟩

theorem Acts.frame {op : AccountCallOp} {w w' : World ι} {r : AccountReply op}
    (h : Acts kdf base p op w r w') : w.Frame p w' := by
  cases h with
  | randBytes _ | pbkdf2 _ | time _ | gaveUp | unreachable => exact .refl w
  | acquired _ | release =>
    exact ⟨fun _ _ => rfl, fun _ _ => rfl, fun _ h => h, fun _ h => .inr h⟩
  | connected | close => exact (World.Frame.refl w).setConn _
  | exec _ hx => exact hx.frame

omit [DecidableEq ι] in
theorem Settles.inv_rely (h : Settles base w w') (hw : w.Inv base) :
    w'.Inv base ∧ ∀ q, w.Rely q w' := by
  have hcut : ∀ {d e : AccountDone ι} {a b : List (AccountDone ι)}, w.orphans = a ++ d :: b →
      e ∈ a ++ b → e ∈ w.orphans := by
    intro d e a b ho he
    rw [ho]
    exact ((List.sublist_cons_self d b).append_left a).subset he
  cases h with
  | @applied d h a b ho hc =>
    have hsub : ∀ e, e ∈ h ∨ e ∈ a ++ b → e ∈ w.serial ∨ e ∈ w.orphans := by
      rintro e (he | he)
      · rcases (hc.mem_iff e).mp he with rfl | he
        · exact .inr (by rw [ho]; simp)
        · exact .inl he
      · exact .inr (hcut ho he)
    exact ⟨⟨hc.serial, fun e he => hw.registers e (hsub e he)⟩, fun q =>
      ⟨rfl, rfl, fun e he => (hc.mem_iff e).mpr (.inr he), fun hs e he => hs e (hsub e he)⟩⟩
  | @dropped d a b ho =>
    have hsub : ∀ e, e ∈ w.serial ∨ e ∈ a ++ b → e ∈ w.serial ∨ e ∈ w.orphans :=
      fun e he => he.imp_right (hcut ho)
    exact ⟨⟨hw.serial, fun e he => hw.registers e (hsub e he)⟩, fun q =>
      ⟨rfl, rfl, fun _ he => he, fun hs e he => hs e (hsub e he)⟩⟩

theorem accountContract_fits :
    (accountContract base : Pact (World ι) ι).Fits (accountRules kdf base) where
  refl _ := World.Rely.refl
  trans _ _ _ _ := World.Rely.trans
  act _ _ _ _ _ _ hne _ h := h.frame.rely hne.symm
  drift _ _ hw h := h.inv_rely hw

/-! ## Rules for the calls -/

section Calls

variable {α : Type} {Q : Except Empty α → World ι → Prop} {w : World ι}

/-- The program keeps the contract of process `p` and ends as `Q` says. -/
abbrev Keeps (kdf : Bytes → Bytes → Int → Vector UInt8 32) (base : List Row) (p : ι)
    (Q : Except Empty α → World ι → Prop) (x : AccountM α) (w : World ι) : Prop :=
  x.Keeps (accountContract base) (accountRules kdf base) p Q w

/-- The program ends, and `P` holds of what it returns. -/
def Ends (P : World ι → α → Prop) : Except Empty α → World ι → Prop
  | .ok a, w => P w a

theorem keeps_bind {β : Type} {P : World ι → β → Prop} {x : AccountM β} {k : β → AccountM α}
    (hx : Keeps kdf base p (Ends P) x w) (hk : ∀ w₁ b, P w₁ b → Keeps kdf base p Q (k b) w₁) :
    Keeps kdf base p Q (x >>= k) w := by
  refine Prog.Keeps.bind accountContract_fits (hx.mono fun r w₁ hr => ?_)
  cases r with
  | ok b => exact hk w₁ b hr
  | error e => exact e.elim

variable {op : AccountCallOp} {k : AccountReply op → AccountM α}

theorem keeps_call
    (hop : ∀ w₁ r w₂, Acts kdf base p op w₁ r w₂ →
      w₂.serial = w₁.serial ∧ w₂.orphans = w₁.orphans ∧ w₂.seen = w₁.seen)
    (h : ∀ w₁ r w₂, w.Rely p w₁ → Acts kdf base p op w₁ r w₂ → Keeps kdf base p Q (k r) w₂) :
    Keeps kdf base p Q (Prog.request op >>= k) w := by
  refine Prog.Keeps.request fun w₁ hrely hinv r w₂ hact => ⟨?_, h w₁ r w₂ hrely hact⟩
  obtain ⟨hserial, horphans, -⟩ := hop w₁ r w₂ hact
  refine ⟨by rw [hserial]; exact hinv.serial, fun d hd => hinv.registers d ?_⟩
  rwa [hserial, horphans] at hd

theorem keeps_quiet
    (hop : ∀ w₁ r w₂, Acts kdf base p op w₁ r w₂ →
      w₂.serial = w₁.serial ∧ w₂.orphans = w₁.orphans ∧ w₂.seen = w₁.seen ∧
        w₂.conns = w₁.conns)
    (h : ∀ w₁ r w₂, w.Rely p w₂ → Acts kdf base p op w₁ r w₂ → Keeps kdf base p Q (k r) w₂) :
    Keeps kdf base p Q (Prog.request op >>= k) w := by
  refine keeps_call (fun w₁ r w₂ hact => ?_) fun w₁ r w₂ hrely hact => h w₁ r w₂ ?_ hact
  · obtain ⟨h₁, h₂, h₃, -⟩ := hop w₁ r w₂ hact
    exact ⟨h₁, h₂, h₃⟩
  · obtain ⟨hserial, horphans, hseen, hconns⟩ := hop w₁ r w₂ hact
    refine hrely.trans ⟨by rw [hconns], by rw [hseen], by rw [hserial]; exact fun _ h => h, ?_⟩
    intro hs d hd
    rw [hserial, horphans] at hd
    exact hs d hd

theorem keeps_exec {sql : Stmt} {txn : Option AccountTxn} {k : DbStatus × Bytes → AccountM α}
    (hconn : w.conns p = some ⟨none, txn⟩) (hsafe : Safe sql txn)
    (hok : ∀ w₁ w₂ t' rows body, w.Rely p w₁ → w₁.Inv base →
      Executes base p sql txn w₁ t' w₂ rows → Faithful rows body →
        w₁.After p sql (w₂.setConn p (some ⟨none, t'⟩)) →
      Keeps kdf base p Q (k (.ok, body)) (w₂.setConn p (some ⟨none, t'⟩)))
    (hretry : ∀ w₁ body, w.Rely p w₁ →
      Keeps kdf base p Q (k (.retry, body)) (w₁.setConn p (some ⟨none, none⟩)))
    (hfail : ∀ w₁ st body w₂, st ≠ .ok → st ≠ .retry → w.Rely p w₁ → w₁.After p sql w₂ →
      Keeps kdf base p Q (k (st, body)) w₂) :
    Keeps kdf base p Q (dbSocketExec sql >>= k) w := by
  refine Prog.Keeps.request fun w₁ hrely hinv r w₂ hact => ?_
  cases hact with
  | exec hc hx =>
    rw [hrely.conn, hconn] at hc
    cases hc
    refine ⟨hx.inv hsafe hinv, ?_⟩
    have hafter := hx.after hsafe
    cases hx with
    | dead hf => cases hf
    | answered _ hx hb => exact hok _ _ _ _ _ hrely hinv hx hb hafter
    | refused _ _ => exact hfail _ _ _ _ (by decide) (by decide) hrely hafter
    | deadlock _ => exact hretry _ _ hrely
    | lost _ hst _ =>
      rcases hst with rfl | rfl <;>
        exact hfail _ _ _ _ (by decide) (by decide) hrely hafter

theorem keeps_connOpen {k : Bool → AccountM α}
    (hno : ∀ w₁, w.Rely p w₁ → Keeps kdf base p Q (k false) w₁)
    (hyes : ∀ w₁, w.Rely p w₁ →
      Keeps kdf base p Q (k true) (w₁.setConn p (some ⟨none, none⟩))) :
    Keeps kdf base p Q (connOpen >>= k) w := by
  refine keeps_call (fun w₁ r w₂ hact => ?_) fun w₁ r w₂ hrely hact => ?_
  · cases hact <;> exact ⟨rfl, rfl, rfl⟩
  · cases hact with
    | connected => exact hyes w₁ hrely
    | unreachable => exact hno w₁ hrely

theorem keeps_close {k : Unit → AccountM α}
    (h : ∀ w₁, w.Rely p w₁ → Keeps kdf base p Q (k ()) (w₁.setConn p none)) :
    Keeps kdf base p Q (dbSocketClose >>= k) w := by
  refine keeps_call (fun w₁ r w₂ hact => ?_) fun w₁ r w₂ hrely hact => ?_
  · cases hact
    exact ⟨rfl, rfl, rfl⟩
  · cases hact with
    | close => exact h w₁ hrely

/-- The digest of a password, as the table stores it: none for a salt or a
number of iterations that cannot be. -/
def digestOf (kdf : Bytes → Bytes → Int → Vector UInt8 32) (pass saltHex : Bytes) (iters : Int) :
    Option Bytes :=
  if iters < 1 then none
  else match hexDecode saltHex 16 with
    | none | some [] => none
    | some salt => some (hexEncode (kdf pass salt iters).toList)

theorem keeps_passwordHash {pass saltHex : Bytes} {iters : Int} {k : Option Bytes → AccountM α}
    (hnone : ∀ w₁, w.Rely p w₁ → Keeps kdf base p Q (k none) w₁)
    (hsome : ∀ w₁ digest, w.Rely p w₁ → digestOf kdf pass saltHex iters = some digest →
      digest.length = 64 → Keeps kdf base p Q (k (some digest)) w₁) :
    Keeps kdf base p Q (passwordHash pass saltHex iters >>= k) w := by
  unfold passwordHash
  unfold digestOf at hsome
  split
  · exact hnone w (.refl w)
  · rename_i hiters
    rw [if_neg hiters] at hsome
    split
    · exact hnone w (.refl w)
    · exact hnone w (.refl w)
    · rename_i salt hne hsalt
      simp only [hsalt] at hsome
      refine keeps_quiet (fun w₁ r w₂ hact => ?_) fun w₁ r w₂ hrely hact => ?_
      · cases hact
        exact ⟨rfl, rfl, rfl, rfl⟩
      · cases hact with
        | pbkdf2 hr =>
          rcases hr with rfl | rfl
          · exact hnone w₁ hrely
          · refine hsome w₁ _ hrely ?_ ?_
            · cases salt with
              | nil => exact absurd rfl hne
              | cons c salt => rfl
            · rw [length_hexEncode, Vector.length_toList]

end Calls

end Contract

end Corestack.Core
