import Corestack.Brain.Read
import Corestack.Db.Wire

/-!
# Replies read in step

On a socket the lines that one statement leaves unread are read by the
next. A row that prints as `<<END ok>>` ends its reply early, and every
later reply on the connection is then read one statement late. As long as
no such row is printed, a run on a socket is the run in which every
statement reads its own reply: the seam gives up at the first reply that is
not ok, and any other line that looks like an end line makes the reply one.
-/

namespace Corestack.Brain

open List Lib Db Prog

/-- The same environment, with every statement reading its own reply. -/
def Env.paired (env : Env) : Env := { env with keepsUnread := false }

/-- No row printed for the statement is taken for the end of an answer. -/
def QuietRows (sql : Stmt) (t : Tables) : Prop :=
  ∀ rows, t.query sql = some rows → ∀ r ∈ rows, lineBuf (join tab r) ≠ dbMarkOk

/-- No line of the answer looks like its end. -/
def NoFalseOk (a : Answer) : Prop := ∀ l ∈ a.lines, lineBuf l ≠ dbMarkOk

/-! ## One reply -/

variable {l : Bytes}

theorem ne_ok_of_not_marker (h : isMarker l = false) : l ≠ dbMarkOk := by
  rintro rfl
  cases h

theorem PlainLine.ne_ok (h : PlainLine l) : lineBuf l ≠ dbMarkOk := by
  rw [h.lineBuf]
  exact ne_ok_of_not_marker h.noMarker

theorem classify_ne_ok (h : l ≠ dbMarkOk) : classify l ≠ .ok := by
  rw [classify, if_neg h]
  split <;> decide

variable {cap : Nat}

/-- A reply read as ok was read to its end, if no line looks like the end:
no line before the last one ends an answer. -/
theorem read_to_end {lines : List Bytes} {mark body : Bytes} {rest : List Bytes}
    (hl : ∀ l ∈ lines, lineBuf l ≠ dbMarkOk) (hm : isMarker (lineBuf mark) = true)
    (hread : dbWireResponse cap (lines ++ [mark]) [] = some (.ok, body, rest)) :
    rest = [] ∧ (∀ l ∈ lines, isMarker (lineBuf l) = false) ∧ lineBuf mark = dbMarkOk := by
  obtain ⟨pre, m, b, hsplit, hpre, hmark⟩ := exists_first (fun l => isMarker (lineBuf l))
    ⟨_, mem_append_right lines (mem_singleton_self mark), hm⟩
  rw [hsplit, dbWireResponse_eq hpre hmark] at hread
  simp only [Option.some.injEq, Prod.mk.injEq] at hread
  obtain ⟨hst, -, rfl⟩ := hread
  have hmok : lineBuf m = dbMarkOk := by
    by_contra hne
    exact classify_ne_ok hne hst
  have hb : b = [] := by
    by_contra hne
    obtain ⟨b', x, rfl⟩ : ∃ b' x, b = b' ++ [x] :=
      ⟨b.dropLast, b.getLast hne, (dropLast_append_getLast hne).symm⟩
    -- The line that ended the reply is not the last one, so it is a printed line.
    have hlines : lines = pre ++ m :: b' := by
      rw [← cons_append, ← append_assoc] at hsplit
      exact (append_inj' hsplit rfl).1
    exact hl m (by rw [hlines]; simp) hmok
  subst hb
  obtain ⟨rfl, hmm⟩ := append_inj' hsplit rfl
  cases hmm
  exact ⟨rfl, hpre, hmok⟩

theorem isMarker_done_mark (c : Chatter) (n : Nat) (sql : Stmt) (db : Tables)
    (txn : Option Tables) (rows : Option (List (List Bytes))) :
    isMarker (lineBuf (done c n sql db txn rows).mark) = true := by
  simp only [done]
  split
  all_goals
    split
    · rw [lineBuf_dbMarkError, isMarker_dbMarkError]
    · rw [lineBuf_dbMarkOk, isMarker_dbMarkOk]

theorem noFalseOk_refused (c : Chatter) (n : Nat) (sql : Stmt) (db : Tables)
    (txn : Option Tables) : NoFalseOk (refused c n sql db txn) :=
  fun l hl => ne_ok_of_not_marker (c.refusal_noMarker n sql l hl)

theorem noFalseOk_done_none (c : Chatter) (n : Nat) (sql : Stmt) (db : Tables)
    (txn : Option Tables) : NoFalseOk (done c n sql db txn none) :=
  fun l hl => (plain_before_after c n sql l hl).ne_ok

theorem trailerLine_ne_ok (n : Nat) : lineBuf (trailerLine n) ≠ dbMarkOk := by
  intro h
  have hcons : trailerLine n = 32 :: (fmtNat n ++ bytes " rows.") := by
    rfl
  rw [hcons, show dbMarkOk = 60 :: bytes "<END ok>>" by decide +kernel] at h
  simp [lineBuf, dbBodyMax, cText] at h

variable {c : Chatter} {n : Nat} {sql : Stmt} {db : Tables} {txn : Option Tables}
  {rows : List (List Bytes)}

theorem noFalseOk_done_some (hrows : ∀ r ∈ rows, lineBuf (join tab r) ≠ dbMarkOk) :
    NoFalseOk (done c n sql db txn (some rows)) := by
  intro l hl
  simp only [done, selectLines, mem_append, mem_cons, mem_map, not_mem_nil,
    or_false] at hl
  rcases hl with (hl | rfl) | rfl | ⟨r, hr, rfl⟩ | rfl | rfl | hl
  · exact (c.before_plain n sql l hl).ne_ok
  · exact (c.header_plain sql).ne_ok
  · rw [(textLine_ruleLine c sql).lineBuf]
    exact ne_ok_of_not_marker (textLine_ruleLine c sql).noMarker
  · exact hrows r hr
  · exact ne_ok_of_not_marker (by decide +kernel)
  · exact trailerLine_ne_ok _
  · exact (c.after_plain n sql l hl).ne_ok

theorem noFalseOk_done {t : Tables} (hq : QuietRows sql t) :
    NoFalseOk (done c n sql db txn (t.query sql)) := by
  cases hrows : t.query sql with
  | none => exact noFalseOk_done_none c n sql db txn
  | some rows => exact noFalseOk_done_some (hq rows hrows)

/-- A select answered with ok printed no row that looks like the end of an
answer or like an error. -/
theorem select_ok_text {body : Bytes} (hrows : ∀ r ∈ rows, lineBuf (join tab r) ≠ dbMarkOk)
    (hreply : ownReply cap (done c n sql db txn (some rows)) = (.ok, body)) :
    ∀ r ∈ rows, isMarker (lineBuf (join tab r)) = false ∧ isErrorLine (join tab r) = false := by
  intro r hr
  have hmem : join tab r ∈ (done c n sql db txn (some rows)).lines := by
    simp only [done, selectLines, mem_append, mem_cons, mem_map]
    exact .inr (.inr (.inl ⟨r, hr, rfl⟩))
  unfold ownReply at hreply
  split at hreply
  · rename_i st body' rest hread
    cases hreply
    obtain ⟨-, hno, hmark⟩ :=
      read_to_end (noFalseOk_done_some hrows) (isMarker_done_mark ..) hread
    refine ⟨hno _ hmem, ?_⟩
    by_contra herr
    have hany : (done c n sql db txn (some rows)).lines.any isErrorLine = true :=
      any_eq_true.mpr ⟨_, hmem, by simpa using herr⟩
    simp only [done] at hany hmark
    rw [hany, if_pos rfl, lineBuf_dbMarkError] at hmark
    exact absurd hmark (by decide +kernel)
  · cases hreply

theorem isMarker_refused_mark (c : Chatter) (n : Nat) (sql : Stmt) (db : Tables)
    (txn : Option Tables) : isMarker (lineBuf (refused c n sql db txn).mark) = true := by
  rw [refused, lineBuf_dbMarkError, isMarker_dbMarkError]

theorem noFalseOk_serve (hq : QuietRows sql (txn.getD db)) :
    NoFalseOk (serve c n sql db txn) ∧ isMarker (lineBuf (serve c n sql db txn).mark) = true := by
  have hdone : ∀ db' txn', NoFalseOk (done c n sql db' txn' ((txn.getD db).query sql)) ∧
      isMarker (lineBuf (done c n sql db' txn' ((txn.getD db).query sql)).mark) = true :=
    fun db' txn' => ⟨noFalseOk_done hq, isMarker_done_mark ..⟩
  have hnone : ∀ db' txn', NoFalseOk (done c n sql db' txn' none) ∧
      isMarker (lineBuf (done c n sql db' txn' none).mark) = true :=
    fun db' txn' => ⟨noFalseOk_done_none c n sql db' txn', isMarker_done_mark ..⟩
  have hrefused : ∀ txn', NoFalseOk (refused c n sql db txn') ∧
      isMarker (lineBuf (refused c n sql db txn').mark) = true :=
    fun txn' => ⟨noFalseOk_refused c n sql db txn', isMarker_refused_mark ..⟩
  by_cases hd : sql.isData = true
  · cases txn with
    | none =>
      rw [serve_auto hd]
      split
      · exact hrefused none
      · exact hdone _ _
    | some t =>
      rw [serve_txn hd]
      split
      · exact hrefused none
      · exact hdone _ _
  · cases sql <;> first | exact absurd rfl hd | skip
    all_goals cases txn <;> first | exact hnone _ _ | exact hrefused _

/-! ## One statement -/

/-- The same but for the lines left unread. -/
structure SameButUnread (w₁ w₂ : World) : Prop where
  tables : w₁.tables = w₂.tables
  clock : w₁.clock = w₂.clock
  log : w₁.log = w₂.log
  session : w₁.session.map (fun s => (s.failed, s.txn)) =
    w₂.session.map (fun s => (s.failed, s.txn))

theorem SameButUnread.refl (w : World) : SameButUnread w w := ⟨rfl, rfl, rfl, rfl⟩

variable {w₁ w₂ : World}

theorem SameButUnread.of_eq (h : w₁ = w₂) : SameButUnread w₁ w₂ := h ▸ .refl w₁

theorem SameButUnread.closed (h : SameButUnread w₁ w₂) :
    ({ w₁ with session := none } : World) = { w₂ with session := none } := by
  obtain ⟨T₁, s₁, c₁, l₁⟩ := w₁
  obtain ⟨rfl, rfl, rfl, -⟩ := h
  rfl

section Exec

variable {env : Env} {sql : Stmt} {cap : Nat} {w w₁ w₂ : World} {txn : Option Tables}

/-- Unread lines change what is read, not what is done: the server answers
each statement from its tables, and never sees what the client has read. -/
theorem SameButUnread.exec (h : SameButUnread w₁ w₂) (sql : Stmt) (cap : Nat) :
    SameButUnread (exec env sql cap w₁).2 (exec env.paired sql cap w₂).2 := by
  obtain ⟨T₁, s₁, c₁, l₁⟩ := w₁
  obtain ⟨T₂, s₂, c₂, l₂⟩ := w₂
  obtain ⟨rfl, rfl, rfl, hs⟩ := h
  cases s₁ with
  | none =>
    cases s₂ with
    | none => exact .refl _
    | some s => cases hs
  | some s =>
    cases s₂ with
    | none => cases hs
    | some s' =>
      obtain ⟨f, txn, u⟩ := s
      obtain ⟨f', txn', u'⟩ := s'
      obtain ⟨rfl, rfl⟩ := hs
      cases f with
      | some st => exact ⟨rfl, rfl, rfl, rfl⟩
      | none =>
        simp only [Brain.exec, Env.paired]
        split
        · exact ⟨rfl, rfl, rfl, rfl⟩
        · split <;> exact ⟨rfl, rfl, rfl, rfl⟩

theorem exec_paired_reply (env : Env) (sql : Stmt) (cap : Nat)
    (hs : w.session = some ⟨none, txn, []⟩) :
    (exec env sql cap w).1 = (exec env.paired sql cap w).1 := by
  have hread : ∀ a : Answer, (readReply env cap ([] ++ a.lines ++ [a.mark])).1 =
      (readReply env.paired cap ([] ++ a.lines ++ [a.mark])).1 := by
    intro a
    unfold readReply
    split <;> rfl
  simp only [exec, hs]
  split
  · rfl
  · simp only [Env.paired] at hread ⊢
    split
    · exact hread _
    · exact hread _
    · exact hread _
    · rfl

/-- A statement answered with ok leaves nothing unread, if no row printed
looks like the end. -/
theorem exec_in_step (hs : w.session = some ⟨none, txn, []⟩)
    (hq : QuietRows sql (txn.getD w.tables)) (hok : (exec env sql cap w).1.1 = .ok) :
    (exec env sql cap w).2 = (exec env.paired sql cap w).2 ∧
      ∃ txn', (exec env sql cap w).2.session = some ⟨none, txn', []⟩ := by
  have hread : ∀ a : Answer, NoFalseOk a → isMarker (lineBuf a.mark) = true →
      (readReply env cap ([] ++ a.lines ++ [a.mark])).1.1 = .ok →
      (readReply env cap ([] ++ a.lines ++ [a.mark])).2 = [] ∧
        (readReply env.paired cap ([] ++ a.lines ++ [a.mark])).2 = [] := by
    intro a ha hm hst
    rw [nil_append] at hst ⊢
    unfold readReply at hst ⊢
    cases hresp : dbWireResponse cap (a.lines ++ [a.mark]) [] with
    | none => exact ⟨rfl, rfl⟩
    | some r =>
      obtain ⟨st, body, rest⟩ := r
      rw [hresp] at hst
      subst hst
      obtain ⟨rfl, -⟩ := read_to_end ha hm hresp
      simp
  simp only [exec, hs] at hok ⊢
  by_cases hb : breaksLine sql.text = true
  · rw [if_pos hb] at hok
    cases hok
  · simp only [hb, Bool.false_eq_true, if_false, Env.paired] at hok ⊢
    rcases hfate : env.fate w.clock with _ | aborts | _ | ⟨late, applied⟩
    · simp only [hfate] at hok ⊢
      obtain ⟨ha, hm⟩ := noFalseOk_serve (c := env.chatter) (n := w.clock) hq
      obtain ⟨h1, h2⟩ := hread _ ha hm hok
      rw [h1]
      rw [Env.paired] at h2
      rw [h2]
      exact ⟨rfl, _, rfl⟩
    · simp only [hfate] at hok ⊢
      obtain ⟨h1, h2⟩ := hread _ (noFalseOk_refused _ _ _ _ _) (isMarker_refused_mark ..) hok
      rw [h1]
      rw [Env.paired] at h2
      rw [h2]
      exact ⟨rfl, _, rfl⟩
    · simp only [hfate] at hok ⊢
      have hm : isMarker (lineBuf (deadlocked env.chatter w.clock sql w.tables).mark) = true := by
        rw [deadlocked, lineBuf_dbMarkRetry, isMarker_dbMarkRetry]
      obtain ⟨h1, h2⟩ := hread _ (fun l hl => ne_ok_of_not_marker
        (env.chatter.refusal_noMarker w.clock sql l hl)) hm hok
      rw [h1]
      rw [Env.paired] at h2
      rw [h2]
      exact ⟨rfl, _, rfl⟩
    · simp only [hfate] at hok
      cases late <;> cases hok

/-- A data statement answered with ok was carried out, in the transaction if
one is open and in the tables otherwise. -/
theorem exec_paired_write (hs : w.session = some ⟨none, txn, []⟩) (hd : sql.isData = true)
    (hok : (exec env.paired sql cap w).1.1 = .ok) :
    ∃ txn' t', (txn.getD w.tables).write sql = some t' ∧
      (exec env.paired sql cap w).2.session = some ⟨none, txn', []⟩ ∧
      txn'.getD (exec env.paired sql cap w).2.tables = t' := by
  rcases exec_cases sql cap (show env.paired.keepsUnread = false from rfl) hs with
    ⟨-, he⟩ | ⟨-, he⟩ | ⟨a, hne, -, he⟩ | ⟨st, applied, hne, -, he⟩
  · rw [he] at hok
    cases hok
  · rw [he] at hok ⊢
    cases txn with
    | none =>
      rw [serve_auto hd] at hok ⊢
      cases hw : w.tables.write sql with
      | none =>
        rw [hw, ownReply_refused] at hok
        cases hok
      | some t' => exact ⟨none, t', hw, rfl, rfl⟩
    | some t =>
      rw [serve_txn hd] at hok ⊢
      cases hw : t.write sql with
      | none =>
        rw [hw, ownReply_refused] at hok
        cases hok
      | some t' => exact ⟨some t', t', hw, rfl, rfl⟩
  all_goals
    rw [he] at hok
    exact absurd hok hne

end Exec

/-! ## Statements on one connection -/

/-- Nothing is unread, and the tables a statement sees satisfy `I`. -/
def InStep (I : Tables → Prop) (w : World) : Prop :=
  ∃ txn, w.session = some ⟨none, txn, []⟩ ∧ I (txn.getD w.tables)

/-- The calls for which `I` keeps the connection in step. -/
structure KeepsStep (allowed : Op → Prop) (I : Tables → Prop) : Prop where
  data : ∀ op, allowed op → dataOp op
  quiet : ∀ sql cap t, allowed (.exec sql cap) → I t → QuietRows sql t
  keep : ∀ sql cap t t', allowed (.exec sql cap) → I t → t.write sql = some t' → I t'

/-- A sequence of statements on a socket is the one in which every statement
reads its own reply, up to a failure that ends it. -/
theorem Stops.run_in_step {allowed : Op → Prop} {α : Type} {p : BrainM α} (hp : Stops allowed p)
    {I : Tables → Prop} (hI : KeepsStep allowed I) (env : Env) {w : World} (hw : InStep I w) :
    (run (handle env) p w).1 = (run (handle env.paired) p w).1 ∧
      (((run (handle env) p w).2 = (run (handle env.paired) p w).2 ∧
          InStep I (run (handle env) p w).2) ∨
        SameButUnread (run (handle env) p w).2 (run (handle env.paired) p w).2 ∧
          ∃ e, (run (handle env) p w).1 = .error e) := by
  have h := FailStop.run_congr (h := handle env) (g := handle env.paired)
    (R := fun w₁ w₂ => w₁ = w₂ ∧ InStep I w₁) hp (W := SameButUnread) ?_ ?_ ?_ w w ⟨rfl, hw⟩
  · obtain ⟨heq, hR | ⟨hR, hno⟩⟩ := h
    · exact ⟨heq, .inl hR⟩
    · refine ⟨heq, .inr ⟨hR, ?_⟩⟩
      cases hr : (run (handle env) p w).1 with
      | ok a => exact (hno a hr).elim
      | error e => exact ⟨e, rfl⟩
  · rintro w _ ⟨rfl, -⟩
    exact .refl w
  · rintro op w _ hop ⟨rfl, txn, hs, hIw⟩
    cases op with
    | log line => exact ⟨rfl, .inl ⟨rfl, txn, hs, hIw⟩⟩
    | connect | close => exact (hI.data _ hop).elim
    | exec sql cap =>
      have heq := exec_paired_reply env sql cap hs
      refine ⟨heq, ?_⟩
      by_cases hok : (exec env sql cap w).1.1 = .ok
      · obtain ⟨hw', -⟩ := exec_in_step hs (hI.quiet sql cap _ hop hIw) hok
        obtain ⟨txn', t', hwrite, hs', hvis⟩ :=
          exec_paired_write hs (hI.data _ hop) (heq ▸ hok)
        refine .inl ⟨hw', txn', ?_, ?_⟩
        · exact (congrArg World.session hw').trans hs'
        · have ht' := hI.keep sql cap _ t' hop hIw hwrite
          rw [← hvis, ← hw'] at ht'
          exact ht'
      · exact .inr ⟨hok, (SameButUnread.refl w).exec sql cap⟩
  · intro op w₁ w₂ hop hsame
    cases op with
    | log line =>
      exact ⟨rfl, hsame.tables, hsame.clock, congrArg (· ++ [line]) hsame.log, hsame.session⟩
    | _ => exact hop.elim

/-! ## Whole calls -/

section Calls

variable {env : Env} {α β : Type} {I : Tables → Prop} {w : World}

/-- The two runs end alike, but for lines left unread. -/
def SameRun (env : Env) (p : BrainM α) (w : World) : Prop :=
  (run (handle env) p w).1 = (run (handle env.paired) p w).1 ∧
    SameButUnread (run (handle env) p w).2 (run (handle env.paired) p w).2

/-- The two runs end in the same state, in step, or both fail. -/
def StepRun (env : Env) (I : Tables → Prop) (p : BrainM α) (w : World) : Prop :=
  (∃ a w', run (handle env) p w = (.ok a, w') ∧
      run (handle env.paired) p w = (.ok a, w') ∧ InStep I w') ∨
    ∃ e w₁ w₂, run (handle env) p w = (.error e, w₁) ∧
      run (handle env.paired) p w = (.error e, w₂) ∧ SameButUnread w₁ w₂

variable {allowed : Op → Prop} {p : BrainM α}

theorem Stops.stepRun (hp : Stops allowed p) (hI : KeepsStep allowed I) (env : Env)
    (hw : InStep I w) : StepRun env I p w := by
  obtain ⟨heq, hR⟩ := hp.run_in_step hI env hw
  cases hr : (run (handle env) p w).1 with
  | ok a =>
    rcases hR with ⟨hw', hin⟩ | ⟨-, e, he⟩
    · exact .inl ⟨a, _, Prod.ext hr rfl, Prod.ext (heq.symm.trans hr) hw'.symm, hin⟩
    · rw [hr] at he
      cases he
  | error e =>
    refine .inr ⟨e, _, _, Prod.ext hr rfl, Prod.ext (heq.symm.trans hr) rfl, ?_⟩
    rcases hR with ⟨hw', -⟩ | ⟨hsame, -⟩
    · exact .of_eq hw'
    · exact hsame

theorem StepRun.bind {f : α → BrainM β} (hp : StepRun env I p w)
    (hf : ∀ a w', InStep I w' → StepRun env I (f a) w') : StepRun env I (p >>= f) w := by
  rcases hp with ⟨a, w', h₁, h₂, hin⟩ | ⟨e, w₁, w₂, h₁, h₂, hsame⟩
  · have := hf a w' hin
    unfold StepRun
    rw [run_bind_of_ok h₁, run_bind_of_ok h₂]
    exact this
  · exact .inr ⟨e, w₁, w₂, run_bind_of_error h₁, run_bind_of_error h₂, hsame⟩

theorem SameRun.bind_pure {f : α → BrainM β} (hp : SameRun env p w)
    (hf : ∀ a, (∃ b, f a = .ret b) ∨ ∃ e, f a = .fail e) : SameRun env (p >>= f) w := by
  obtain ⟨heq, hsame⟩ := hp
  unfold SameRun
  rw [run_bind, run_bind]
  revert heq hsame
  generalize run (handle env) p w = r₁
  generalize run (handle env.paired) p w = r₂
  obtain ⟨r₁, w₁⟩ := r₁
  obtain ⟨r₂, w₂⟩ := r₂
  rintro rfl hsame
  cases r₁ with
  | error e => exact ⟨rfl, hsame⟩
  | ok a =>
    dsimp only
    rcases hf a with ⟨b, hb⟩ | ⟨e, he⟩
    · rw [hb]
      exact ⟨rfl, hsame⟩
    · rw [he]
      exact ⟨rfl, hsame⟩

theorem StepRun.sameRun (hp : StepRun env I p w) : SameRun env p w := by
  unfold SameRun
  rcases hp with ⟨a, w', h₁, h₂, -⟩ | ⟨e, w₁, w₂, h₁, h₂, hsame⟩
  · rw [h₁, h₂]
    exact ⟨rfl, .refl w'⟩
  · rw [h₁, h₂]
    exact ⟨rfl, hsame⟩

theorem sameRun_execStmt (env : Env) {txn : Option Tables} (hs : w.session = some ⟨none, txn, []⟩)
    (sql : Stmt) (cap : Nat) : SameRun env (execStmt sql cap) w := by
  have heq := exec_paired_reply env sql cap hs
  constructor
  · rw [run_execStmt, run_execStmt]
    simp only [handle, heq]
  · rw [run_execStmt, run_execStmt]
    exact (SameButUnread.refl w).exec sql cap

theorem stepRun_setTransaction (env : Env) (hs : w.session = some ⟨none, none, []⟩)
    (hI : I w.tables) :
    StepRun env I (execStmt .setTransaction 0) w := by
  obtain ⟨heq, hsame⟩ := sameRun_execStmt env hs .setTransaction 0
  rcases run_setTransaction (show env.paired.keepsUnread = false from rfl) hs 0 with
    ⟨e, w₂, h₂, -⟩ | ⟨body, w₂, n, h₂, hin⟩
  · rw [h₂] at heq hsame
    exact .inr ⟨e, (run (handle env) (execStmt .setTransaction 0) w).2, w₂,
      Prod.ext heq rfl, h₂, hsame⟩
  · rw [h₂] at heq
    have hok : (exec env .setTransaction 0 w).1.1 = .ok := by
      by_contra hne
      obtain ⟨e, he, -⟩ := mapStatus_error hne
      rw [run_execStmt] at heq
      simp only [handle, he, Except.map] at heq
      cases heq
    obtain ⟨hw', -⟩ := exec_in_step hs (fun rows hrows => by cases hrows) hok
    have hworld : (run (handle env) (execStmt .setTransaction 0) w).2 = w₂ := by
      rw [run_execStmt]
      refine hw'.trans ?_
      rw [run_execStmt] at h₂
      exact congrArg Prod.snd h₂
    refine .inl ⟨body, w₂, Prod.ext heq hworld, h₂, some w.tables, hin.1, ?_⟩
    exact hI

/-- On a fresh connection the body of a command ends alike. -/
def PairedBody (env : Env) (cmd : BbDbCmd) : Prop :=
  ∀ w, w.session = some ⟨none, none, []⟩ → SameRun env (oneShotBody cmd) w

variable {cmd : BbDbCmd}

theorem pairedBody_of_stops (env : Env) (hstops : Stops allowed (runOp cmd))
    (hkeep : KeepsStep allowed fun _ => True) : PairedBody env cmd := by
  intro w hs
  unfold oneShotBody
  split
  · have hbegin :
        StepRun env (fun _ => True) (execStmt .setTransaction 0 >>= fun _ => runOp cmd) w :=
      (stepRun_setTransaction env hs trivial).bind fun _ w' hin => hstops.stepRun hkeep env hin
    unfold SameRun
    rcases hbegin with ⟨out, w', h₁, h₂, txn, hs', -⟩ | ⟨e, w₁, w₂, h₁, h₂, hsame⟩
    · rw [run_bind_attempt h₁, run_bind_attempt h₂]
      exact (sameRun_execStmt env hs' .commit 0).bind_pure fun _ => .inl ⟨out, rfl⟩
    · rw [run_bind_attempt h₁, run_bind_attempt h₂]
      dsimp only
      split
      · exact ⟨rfl, hsame⟩
      · exact ⟨rfl, hsame.exec .rollback 0⟩
  · exact (hstops.stepRun hkeep env ⟨none, hs, trivial⟩).sameRun

/-! ## Recording a ballot -/

theorem bbDbBegin_paired (env : Env) (hI : I w.tables) :
    (∃ e w', run (handle env) (bbDbBegin ⟨false⟩) w = (.error e, w') ∧
      run (handle env.paired) (bbDbBegin ⟨false⟩) w = (.error e, w')) ∨
    ∃ w', run (handle env) (bbDbBegin ⟨false⟩) w = (.ok ⟨true⟩, w') ∧
      run (handle env.paired) (bbDbBegin ⟨false⟩) w = (.ok ⟨true⟩, w') ∧ InStep I w' := by
  rw [bbDbBegin, if_neg (by decide), run_dbSocketOpen, run_dbSocketOpen]
  show (∃ e w', (if env.fate w.clock = .answer then _ else _) = _ ∧
      (if env.fate w.clock = .answer then _ else _) = _) ∨
    ∃ w', (if env.fate w.clock = .answer then _ else _) = _ ∧
      (if env.fate w.clock = .answer then _ else _) = _ ∧ _
  split
  · rw [if_pos rfl]
    rcases stepRun_setTransaction (w := w.connected) env rfl hI with
      ⟨body, w', h₁, h₂, hin⟩ | ⟨e, w₁, w₂, h₁, h₂, hsame⟩
    · rw [run_bind_attempt h₁, run_bind_attempt h₂]
      exact .inr ⟨w', rfl, rfl, hin⟩
    · rw [run_bind_attempt h₁, run_bind_attempt h₂]
      exact .inl ⟨e, { w₂ with session := none }, Prod.ext rfl hsame.closed, rfl⟩
  · exact .inl ⟨.db, w.unreached, rfl, rfl⟩

theorem bbDbCommit_paired (hw : InStep I w) :
    run (handle env) (bbDbCommit ⟨true⟩) w =
      run (handle env.paired) (bbDbCommit ⟨true⟩) w := by
  obtain ⟨txn, hs, -⟩ := hw
  obtain ⟨heq, hsame⟩ := sameRun_execStmt env hs .commit 0
  rw [bbDbCommit, if_pos rfl, run_bind_of_ok (run_attempt ..),
    run_bind_of_ok (run_attempt ..), heq]
  exact Prod.ext rfl hsame.closed

theorem SameButUnread.rollback {w₁ w₂ : World} (hsame : SameButUnread w₁ w₂) :
    run (handle env) (bbDbRollback ⟨true⟩) w₁ =
      run (handle env.paired) (bbDbRollback ⟨true⟩) w₂ :=
  Prod.ext rfl (hsame.exec .rollback 0).closed

variable {eid : Id} {b : BbBallot}

/-- The two runs of `record_ballot_locked`: they leave the same receipt in
the out-parameter. -/
theorem recordBallotLockedOut_paired (hchecks : Stops allowed (recordChecks ⟨true⟩ eid b))
    (hwrites : ∀ option prior, Stops allowed (recordWrites ⟨true⟩ eid b option prior))
    (hkeep : KeepsStep allowed I) (out : BbReceipt) (hw : InStep I w) :
    (∃ rcpt out' w', run (handle env) (recordBallotLockedOut ⟨true⟩ eid b out) w =
        (.ok (.ok rcpt, out'), w') ∧
      run (handle env.paired) (recordBallotLockedOut ⟨true⟩ eid b out) w =
        (.ok (.ok rcpt, out'), w') ∧ InStep I w') ∨
    ∃ e out' w₁ w₂, run (handle env) (recordBallotLockedOut ⟨true⟩ eid b out) w =
        (.ok (.error e, out'), w₁) ∧
      run (handle env.paired) (recordBallotLockedOut ⟨true⟩ eid b out) w =
        (.ok (.error e, out'), w₂) ∧ SameButUnread w₁ w₂ := by
  unfold recordBallotLockedOut
  rcases hchecks.stepRun hkeep env hw with
    ⟨⟨option, prior⟩, w₁, h₁, h₂, hin⟩ | ⟨e, w₁, w₂, h₁, h₂, hsame⟩
  · rw [run_bind_attempt h₁, run_bind_attempt h₂]
    rcases (hwrites option prior).stepRun hkeep env hin with
      ⟨rcpt, w₂, h₃, h₄, hin₂⟩ | ⟨e, v₁, v₂, h₃, h₄, hsame⟩
    · rw [run_bind_attempt h₃,
        run_bind_attempt h₄]
      exact .inl ⟨rcpt, _, w₂, rfl, rfl, hin₂⟩
    · rw [run_bind_attempt h₃,
        run_bind_attempt h₄]
      exact .inr ⟨e, _, v₁, v₂, rfl, rfl, hsame⟩
  · rw [run_bind_attempt h₁, run_bind_attempt h₂]
    exact .inr ⟨e, _, w₁, w₂, rfl, rfl, hsame⟩

theorem recordAttempts_paired (hchecks : Stops allowed (recordChecks ⟨true⟩ eid b))
    (hwrites : ∀ option prior, Stops allowed (recordWrites ⟨true⟩ eid b option prior))
    (hkeep : KeepsStep allowed I) (k : Nat) :
    ∀ (r : BbErr) (out : BbReceipt) (w : World), w.session = none → I w.tables →
      run (handle env) (recordAttempts ⟨false⟩ eid b k r out) w =
        run (handle env.paired) (recordAttempts ⟨false⟩ eid b k r out) w := by
  have hk : env.paired.keepsUnread = false := rfl
  induction k with
  | zero => exact fun r out w _ _ => rfl
  | succ k ih =>
    intro r out w hs hI
    rw [recordAttempts]
    rcases bbDbBegin_paired env hI with ⟨e, w₁, h₁, h₂⟩ | ⟨w₁, h₁, h₂, hin⟩
    · rw [run_bind_attempt h₁, run_bind_attempt h₂]
      rfl
    rw [run_bind_attempt h₁, run_bind_attempt h₂]
    -- In the paired run the committed tables stay as they are until the commit.
    obtain ⟨n, htxn⟩ : ∃ n, InTxn w.tables w₁ ⟨w.tables, n⟩ := by
      rcases run_bbDbBegin hk hs with ⟨e, w', h, -⟩ | ⟨w', n, h, htxn⟩
      · rw [h₂] at h
        cases h
      · rw [h₂] at h
        cases h
        exact ⟨n, htxn⟩
    have htables := (stops_recordBallotLocked eid b).run_txn_cases hk htxn
    rcases recordBallotLockedOut_paired hchecks hwrites hkeep out hin with
      ⟨rcpt, out₂, w₂, h₃, h₄, hin₂⟩ | ⟨e, out₂, v₁, v₂, h₃, h₄, hsame⟩
    · rw [run_bind_of_ok h₃, run_bind_of_ok h₄]
      rw [run_bind, run_bind, bbDbCommit_paired hin₂]
      rcases htables with ⟨e, w', h, -⟩ | ⟨a, w', t', h, -, htxn'⟩
      · obtain ⟨out₃, h, -⟩ := run_recordBallotLockedOut out h
        rw [h₄] at h
        cases h
      · obtain ⟨out₃, h, -⟩ := run_recordBallotLockedOut out h
        rw [h₄] at h
        cases h
        obtain ⟨res, w₃, h₅, hs₃, ⟨rfl, -⟩ | ⟨e, rfl, hT⟩⟩ := run_bbDbCommit hk htxn'
        · rw [h₅]
          rfl
        · rw [h₅]
          dsimp only
          split
          · rename_i he
            exact ih e out₂ w₃ hs₃ (by rw [hT.resolve_right fun h => h.1 he]; exact hI)
          · rfl
    · rw [run_bind_of_ok h₃, run_bind_of_ok h₄]
      rw [run_bind, run_bind, hsame.rollback]
      rcases htables with ⟨e', w', h, hT⟩ | ⟨a, w', t', h, -, -⟩
      · obtain ⟨out₃, h, -⟩ := run_recordBallotLockedOut out h
        rw [h₄] at h
        cases h
        obtain ⟨w₃, h₅, hs₃, hT₃⟩ := run_bbDbRollback env.paired v₂
        rw [h₅]
        dsimp only
        split
        · exact ih e out₂ w₃ hs₃ (by rw [hT₃, hT]; exact hI)
        · rfl
      · obtain ⟨out₃, h, -⟩ := run_recordBallotLockedOut out h
        rw [h₄] at h
        cases h

end Calls

end Corestack.Brain
