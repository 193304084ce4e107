import Corestack.Brain.Alone
import Corestack.Brain.Standing

/-!
# Replayed ballots

A nonce is spent once: `record_ballot_locked` looks it up in the nonce
table before it records a ballot and adds it afterwards. Whether a stored
nonce is found again depends on how its row is printed and read back. The
empty nonce prints as a blank line, which ends the rows before they begin,
and the nonce `<<END ok>>` prints as the end of the answer. Every other
nonce is found, or its lookup fails.
-/

namespace Corestack.Brain

open List Lib Db

def Tables.spent (T : Tables) (eid : Id) (n : Nonce) : List NonceRow :=
  T.nonce.filter fun r => r.electionId = quoted eid.val ∧ r.nonce = quoted n.val

section Spent

variable {T T' : Tables} {eid : Id} {n : Nonce}

theorem spent_append (T : Tables) (eid eid' : Id) (n n' : Nonce) :
    ({ T with nonce := T.nonce ++ [⟨quoted eid'.val, quoted n'.val⟩] } : Tables).spent eid n =
      T.spent eid n ++ if eid' = eid ∧ n' = n then [⟨quoted eid'.val, quoted n'.val⟩] else [] := by
  simp only [Tables.spent, filter_append]
  congr 1
  by_cases h : eid' = eid ∧ n' = n
  · simp [h]
  · rw [if_neg h, filter_eq_nil_iff]
    simpa only [mem_singleton, forall_eq, decide_eq_true_eq, quoted_val_inj] using h

theorem spent_write {roll : CertName → Prop} {sql : Stmt}
    (hsql : sql.Within roll fun e m => ¬ (e = eid ∧ m = n)) (hw : T.write sql = some T') :
    T'.spent eid n = T.spent eid n := by
  cases sql with
  | insertNonce e m =>
    cases hw
    rw [spent_append, if_neg hsql, append_nil]
  | insertElection | insertOption | insertBallot | insertOwner =>
    simp only [Tables.write, Option.bind_eq_bind, Option.bind_eq_some_iff, Option.pure_def,
      Option.some.injEq] at hw
    first | obtain ⟨_, -, rfl⟩ := hw | obtain ⟨_, -, _, -, _, -, rfl⟩ := hw
    rfl
  | _ =>
    cases hw
    rfl

end Spent

/-! ## Looking a nonce up -/

/-- A nonce whose row is read back. -/
def Nonce.Readable (n : Nonce) : Prop := n.val ≠ [] ∧ n.val ≠ dbMarkOk

section Lookup

variable {c : Chatter} {t t' : Work} {eid : Id} {n : Nonce}

theorem nonceSeen_spent (hn : n.Readable) (hone : (t.tables.spent eid n).length = 1)
    {seen : BbDbResult}
    (hrun : Prog.run (idealHandle c) (runOp (.nonceSeen eid n)) t = (.ok seen, t')) :
    seen.found = true := by
  obtain ⟨body, t₁, h₁, h₂⟩ := Prog.run_bind_ok hrun
  cases h₂
  obtain ⟨hbreak, -, hreply⟩ := ideal_execStmt_ok h₁
  have hquery : t.tables.query (.selectNonce eid n) = some [[quoted n.val]] := by
    obtain ⟨r, hr⟩ := length_eq_one_iff.mp hone
    have hmem : r ∈ t.tables.spent eid n := by rw [hr]; simp
    have hnonce : r.nonce = quoted n.val := by
      simpa using (of_decide_eq_true (mem_filter.mp hmem).2).2
    rw [Tables.spent] at hr
    simp only [Tables.query]
    rw [hr]
    simp [hnonce]
  rw [hquery] at hreply
  have hlf : lf ∉ quoted n.val := by
    intro h
    rw [breaksLine_text] at hbreak
    simp only [Stmt.breaks, Stmt.pieces, any_cons, Piece.breaks, any_nil,
      Bool.or_eq_false_iff] at hbreak
    have hbr : breaksLine n.val = false := hbreak.2.2.2.1
    exact (breaksLine_eq_false.mp hbr).1 (mem_quoted.mp h)
  have hraw : RawLine (quoted n.val) := by
    have hlen : (quoted n.val).length < 2 * 33 := length_quoted_val_lt n
    exact ⟨hlf, zero_notMem_quoted n, by simp only [dbBodyMax]; omega⟩
  have hok : ∀ r ∈ [[quoted n.val]], lineBuf (join tab r) ≠ dbMarkOk := by
    rintro r hr
    rw [mem_singleton.mp hr]
    exact quoted_ne_ok (by decide) hn.2
  obtain ⟨hmarker, herror⟩ := select_ok_text hok hreply [quoted n.val] (by simp)
  have htext : TextLine (quoted n.val) := ⟨hraw, by rw [← hraw.lineBuf]; exact hmarker, herror⟩
  have hne : quoted n.val ≠ [] := fun h => hn.1 (quoted_injective h)
  have hsize : rowsSize [[quoted n.val]] + 2200 ≤ bodyMax := by
    have hlen : (quoted n.val).length < 2 * 33 := length_quoted_val_lt n
    simp only [rowsSize, map_cons, map_nil, sum_cons, sum_nil, join, bodyMax]
    omega
  obtain ⟨body', hreply', hcount, -⟩ := select_text c t.clock (.selectNonce eid n)
    (by simpa [join] using htext) (by simpa [join] using hne) hsize (by decide) t'.tables none
  cases hreply.symm.trans hreply'
  simp [hcount]

theorem record_fresh {b : BbBallot} (hn : b.nonce.Readable)
    (hone : (t.tables.spent eid b.nonce).length ≤ 1) {rcpt : BbReceipt}
    (hrun : Prog.run (idealHandle c) (recordBallotLocked ⟨true⟩ eid b) t = (.ok rcpt, t')) :
    t.tables.spent eid b.nonce = [] ∧ (t'.tables.spent eid b.nonce).length = 1 := by
  obtain ⟨-, seen, found, t₁, t₂, -, -, -, -, hseen, hnot, -, ⟨hT₁, -, -⟩, -, -, prior, -, hT⟩ :=
    ideal_recordBallotLocked hrun
  have hfree : t.tables.spent eid b.nonce = [] := by
    by_contra hne
    have hlen := length_pos_of_ne_nil hne
    have := nonceSeen_spent hn (by rw [hT₁]; omega) hseen
    rw [hnot] at this
    cases this
  have hspent : t'.tables.spent eid b.nonce = ({ t.tables with nonce := t.tables.nonce ++
      [⟨quoted eid.val, quoted b.nonce.val⟩] } : Tables).spent eid b.nonce := by
    rw [hT]
    rfl
  rw [hspent, spent_append, hfree]
  simp

end Lookup

/-! ## One call -/

section Call

variable (env : Env) {d : Daemon} {eid : Id} {n : Nonce}

theorem record_spent {w : World} (hs : w.session = none) (hT : Legible w.tables) {b : BbBallot}
    (hn : b.nonce.Readable) (hone : (w.tables.spent eid b.nonce).length = 1) (out : BbReceipt) :
    ∃ e out' w', Prog.run (handle env) (bbRecordBallot ⟨false⟩ eid b out) w =
      (.ok (.error e, out', ⟨false⟩), w') ∧ w'.tables = w.tables := by
  rw [bbRecordBallot_paired env hs hT eid hn.2]
  obtain ⟨res, out', w', hrun, -, hout⟩ :=
    bbRecordBallot_outcome (show env.paired.keepsUnread = false from rfl) eid b out hs
  have hno : ∀ {rcpt k k'}, Prog.run (idealHandle env.paired.chatter)
      (recordBallotLocked ⟨true⟩ eid b) ⟨w.tables, k⟩ ≠ (.ok rcpt, ⟨w'.tables, k'⟩) := by
    intro rcpt k k' hideal
    have := (record_fresh hn (le_of_eq hone) hideal).1
    rw [this] at hone
    cases hone
  cases res with
  | ok rcpt =>
    obtain ⟨k, k', hideal⟩ := hout
    exact absurd hideal hno
  | error e =>
    rcases hout with hT' | ⟨-, -, rcpt, k, k', hideal⟩
    · exact ⟨e, out', w', hrun, hT'⟩
    · exact absurd hideal hno

/-- Legible tables in which the nonce was spent at most once. -/
structure SpentOnce (eid : Id) (n : Nonce) (T : Tables) : Prop where
  legible : Legible T
  once : (T.spent eid n).length ≤ 1

/-- A call about another nonce leaves the rows of this one alone. -/
theorem perform_spent_of_not (hd : d.Idle) {call : Call} (hcall : ¬ call.Spends eid n) :
    (perform env d call).2.world.tables.spent eid n = d.world.tables.spent eid n := by
  refine (perform_keeps (K := fun T => T.spent eid n = d.world.tables.spent eid n)
    (fun sql t t' hsql ht hw => ?_) env (hd.keeps rfl)).1
  have hother : sql.Within call.Enrols fun e m => ¬ (e = eid ∧ m = n) := by
    cases sql with
    | insertNonce e m | selectNonce e m =>
      rintro ⟨rfl, rfl⟩
      exact hcall hsql
    | _ => exact hsql
  exact (spent_write hother hw).trans ht

theorem Call.Spends.eq_record {call : Call} (h : call.Spends eid n) :
    ∃ b, call = .record eid b ∧ b.nonce = n := by
  cases call with
  | record eid' b =>
    obtain ⟨rfl, rfl⟩ := h
    exact ⟨b, rfl, rfl⟩
  | _ => exact h.elim

/-- A ballot with the nonce leaves it spent at most once, and spent if it
was accepted or the nonce had been spent before. -/
theorem record_spentOnce (hd : d.Idle) {b : BbBallot} (hn : b.nonce.Readable)
    (hT : SpentOnce eid b.nonce d.world.tables) :
    ((perform env d (.record eid b)).2.world.tables.spent eid b.nonce).length ≤ 1 ∧
      ((perform env d (.record eid b)).1 ≠ [] ∨ (d.world.tables.spent eid b.nonce).length = 1 →
        ((perform env d (.record eid b)).2.world.tables.spent eid b.nonce).length = 1) := by
  obtain ⟨ctx, w⟩ := d
  obtain ⟨rfl, hs⟩ := hd
  obtain ⟨hleg, honce⟩ := hT
  have hpaired := bbRecordBallot_paired env hs hleg eid hn.2 default
  obtain ⟨res, out, w', hrun, -, hout⟩ :=
    bbRecordBallot_outcome (show env.paired.keepsUnread = false from rfl) eid b default hs
  simp only [perform, hpaired.trans hrun] at *
  cases res with
  | ok rcpt =>
    obtain ⟨k, k', hideal⟩ := hout
    have h := (record_fresh hn honce hideal).2
    exact ⟨le_of_eq h, fun _ => h⟩
  | error e =>
    rcases hout with hT' | ⟨-, -, rcpt, k, k', hideal⟩
    · rw [hT']
      exact ⟨honce, fun h => h.resolve_left fun h => h rfl⟩
    · have h := (record_fresh hn honce hideal).2
      exact ⟨le_of_eq h, fun _ => h⟩

/-- One more call: the nonce is spent at most once, and stays spent. Only a
recording adds a row of it, and it looks for such a row first. -/
theorem perform_spentOnce (hd : d.Idle) (hn : n.Readable) (hT : SpentOnce eid n d.world.tables)
    {call : Call} (hcall : call.PlainRoll) :
    SpentOnce eid n (perform env d call).2.world.tables ∧
      ((d.world.tables.spent eid n).length = 1 →
        ((perform env d call).2.world.tables.spent eid n).length = 1) := by
  have hleg := perform_legible env hd hT.legible hcall
  by_cases h : call.Spends eid n
  · obtain ⟨b, rfl, rfl⟩ := h.eq_record
    obtain ⟨honce, hspent⟩ := record_spentOnce env hd hn hT
    exact ⟨⟨hleg, honce⟩, fun h => hspent (.inr h)⟩
  · have hsame := perform_spent_of_not env hd h
    exact ⟨⟨hleg, by rw [hsame]; exact hT.once⟩, fun h => by rw [hsame]; exact h⟩

end Call

/-! ## Whole runs -/

section Runs

variable (env : Env) {eid : Id} {n : Nonce} {before after : List Call} {b : BbBallot}

theorem runCalls_spentOnce (eid : Id) (hn : n.Readable) {calls : List Call}
    (hcalls : ∀ call ∈ calls, call.PlainRoll) :
    SpentOnce eid n (runCalls env calls).2.world.tables := by
  induction calls using List.reverseRecOn with
  | nil => exact ⟨legible_empty, Nat.zero_le 1⟩
  | append_singleton calls call ih =>
    have hT := ih fun c hc => hcalls c (by simp [hc])
    rw [runCalls_snoc]
    exact (perform_spentOnce env (runCalls_idle env calls) hn hT (hcalls call (by simp))).1

/-- Once a ballot with the nonce was accepted, the nonce stays spent, however
many calls follow. -/
theorem runCalls_spent (hn : b.nonce.Readable)
    (hcalls : ∀ call ∈ before ++ .record eid b :: after, call.PlainRoll)
    (hacc : (perform env (runCalls env before).2 (.record eid b)).1 ≠ []) :
    ((runCalls env (before ++ .record eid b :: after)).2.world.tables.spent eid b.nonce).length
      = 1 := by
  induction after using List.reverseRecOn with
  | nil =>
    have hT := runCalls_spentOnce env eid hn fun c (hc : c ∈ before) => hcalls c (by simp [hc])
    rw [runCalls_snoc]
    exact (record_spentOnce env (runCalls_idle env before) hn hT).2 (.inl hacc)
  | append_singleton after call ih =>
    have hplain : ∀ c ∈ before ++ .record eid b :: after, c.PlainRoll := by
      intro c hc
      refine hcalls c ?_
      rw [← cons_append, ← append_assoc]
      exact mem_append_left _ hc
    have hT := runCalls_spentOnce env eid hn hplain
    rw [← cons_append, ← append_assoc, runCalls_snoc]
    exact (perform_spentOnce env (runCalls_idle env _) hn hT (hcalls call (by simp))).2 (ih hplain)

end Runs

/-- On a socket, in runs that put no name on a roll that is the end line of
an answer: after a ballot with the nonce was accepted, a ballot with the
same nonce in the same election is refused and changes no table. -/
def ReplaySafe (n : Nonce) : Prop :=
  ∀ (env : Env) (before after : List Call) (eid : Id) (b b' : BbBallot),
    env.keepsUnread = true → (∀ call ∈ before ++ .record eid b :: after, call.PlainRoll) →
    b.nonce = n → b'.nonce = n →
    (perform env (runCalls env before).2 (.record eid b)).1 ≠ [] →
    let d := (runCalls env (before ++ .record eid b :: after)).2
    ∃ e out w', Prog.run (handle env) (bbRecordBallot d.ctx eid b' default) d.world =
        (.ok (.error e, out, ⟨false⟩), w') ∧ w'.tables = d.world.tables

/-- A ballot that is accepted twice in the small election shows that its
nonce can be replayed. -/
theorem not_replaySafe {b : BbBallot}
    (h : ((perform pollSocketEnv (runCalls pollSocketEnv pollOpened).2
        (.record pollId b)).1.isEmpty = false) ∧
      (perform pollSocketEnv (runCalls pollSocketEnv (pollOpened ++ [.record pollId b])).2
        (.record pollId b)).1.isEmpty = false) : ¬ ReplaySafe b.nonce := by
  intro hsafe
  have hplain : ∀ call ∈ pollOpened ++ [.record pollId b], call.PlainRoll := by
    intro call hcall cert hcert
    simp only [pollOpened, cons_append, nil_append, mem_cons, not_mem_nil,
      or_false] at hcall
    rcases hcall with rfl | rfl | rfl
    · have : ∀ cert ∈ pollConfig.eligible, cert.val ≠ dbMarkOk := by decide +kernel
      exact this cert hcert
    · exact hcert.elim
    · exact hcert.elim
  have hfirst : (perform pollSocketEnv (runCalls pollSocketEnv pollOpened).2
      (.record pollId b)).1 ≠ [] := fun heq => by rw [heq] at h; cases h.1
  obtain ⟨e, out, w', hrun, -⟩ :=
    hsafe pollSocketEnv pollOpened [] pollId b b rfl hplain rfl rfl hfirst
  have hsecond := h.2
  simp only [perform, hrun, accepted] at hsecond
  cases hsecond

theorem not_replaySafe_empty : ¬ ReplaySafe (CStr.copy _ []) :=
  not_replaySafe (b := pollBallot pollAnn "" 1) (by decide +kernel)

theorem not_replaySafe_ok : ¬ ReplaySafe (CStr.copy _ dbMarkOk) :=
  not_replaySafe (b := pollBallot pollAnn "<<END ok>>" 1) (by decide +kernel)

/-- A nonce cannot be replayed exactly if it is neither empty nor the end
line of an answer. -/
theorem replaySafe_iff (n : Nonce) : ReplaySafe n ↔ n.val ≠ [] ∧ n.val ≠ dbMarkOk := by
  constructor
  · intro hsafe
    refine ⟨fun h => not_replaySafe_empty ?_, fun h => not_replaySafe_ok ?_⟩
    · rwa [show CStr.copy _ [] = n from CStr.ext (by rw [h]; decide +kernel)]
    · rwa [show CStr.copy _ dbMarkOk = n from CStr.ext (by rw [h]; decide +kernel)]
  · rintro hn env before after eid b b' - hcalls rfl hb' hacc
    obtain ⟨hctx, hs⟩ := runCalls_idle env (before ++ .record eid b :: after)
    have hT := runCalls_spentOnce env eid hn hcalls
    dsimp only
    rw [hctx]
    refine record_spent env hs hT.legible (by rw [hb']; exact hn) ?_ default
    rw [hb']
    exact runCalls_spent env hn hcalls hacc

/-- Bob's ballot is accepted with the nonce of Ann's, if that is empty or the
end line of an answer. -/
theorem nonce_of_other_ballot_accepted :
    (["", "<<END ok>>"].map fun nonce =>
      (runCalls pollSocketEnv (pollOpened ++ [.record pollId (pollBallot pollAnn nonce 1),
        .record pollId (pollBallot pollBob nonce 0)])).1.map fun e => (e.1.2, e.2.option)) =
      [[(pollBob, 0), (pollAnn, 1)], [(pollBob, 0), (pollAnn, 1)]] := by decide +kernel

/-- Two of the names on this roll are the end line of an answer. -/
def craftedConfig : BbConfig :=
  { pollConfig with
    eligible := [pollAnn, CStr.copy _ [], CStr.copy _ (bytes " 1 rows."), CStr.copy _ dbMarkOk,
      CStr.copy _ dbMarkOk]
    eligible_le := by decide }

-- On such a roll any nonce is replayed: the reply to its lookup is read one statement late.
example : (runCalls pollSocketEnv [.create craftedConfig pollId, .transition pollId .opened,
    .record pollId (pollBallot pollAnn "n" 1), .record pollId (pollBallot pollAnn "n" 0)]).1.map
      (·.2.option) = [0, 1] := by decide +kernel

end Corestack.Brain
