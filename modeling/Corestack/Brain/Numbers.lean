import Corestack.Brain.Intended
import Corestack.Brain.Unread

/-!
# The numbers in the statements

Two commands write numbers back that they read: `run_update_state` the
sequence number of an election, and `run_mark_superseded` the option and the
version of a ballot. The first reads its own reply. The second runs inside
the transaction that records a ballot, where a name or a nonce that prints
as an end line puts the replies out of step. It still never takes a text
for a number: by then the replies read late hold no row of two fields.
-/

namespace Corestack.Brain

open List Lib Db

/-! ## Stored tables -/

/-- A text as the tables hold it. -/
structure StoredText (f : Bytes) : Prop where
  noLf : lf ∉ f
  noNul : 0 ∉ f
  short : f.length ≤ 128

/-- What holds of the tables whatever was written to them. A statement that
would break its line is never sent, and names on a roll have no TAB. -/
structure Stored (T : Tables) : Prop where
  election : ∀ r ∈ T.election, IsCount r.seq ∧
    ∀ f ∈ [r.id, r.title, r.state, r.openTime, r.closeTime], StoredText f
  option : ∀ r ∈ T.option, IsCount r.idx ∧ StoredText r.name
  eligible : ∀ r ∈ T.eligible, StoredText r.certName ∧ tab ∉ r.certName
  ballot : ∀ r ∈ T.ballot, StoredText r.hash ∧ IsCount r.optionIndex ∧ IsCount r.version
  owner : ∀ r ∈ T.owner, StoredText r.hash ∧ IsCount r.version
  nonce : ∀ r ∈ T.nonce, StoredText r.nonce

/-- A name that is put on a roll has no TAB. -/
abbrev Stmt.Careful : Stmt → Prop := Stmt.Within (fun cert => tab ∉ cert.val) fun _ _ => True

theorem stored_empty : Stored .empty := by
  constructor <;> simp [Tables.empty]

theorem storedText_quoted {n : Nat} {s : CStr n} (hn : n ≤ 65) (hs : breaksLine s.val = false) :
    StoredText (quoted s.val) := by
  have h1 := length_quoted_le s.val
  have h2 := s.fits
  exact ⟨fun h => (breaksLine_eq_false.mp hs).1 (mem_quoted.mp h), zero_notMem_quoted s, by omega⟩

theorem storedText_state (st : BbState) : StoredText (bbStateStr st) := by
  cases st <;> exact ⟨by decide +kernel, by decide +kernel, by decide +kernel⟩

theorem forall_concat {α : Type} {P : α → Prop} {rows : List α} {r : α} (h : ∀ x ∈ rows, P x)
    (hr : P r) : ∀ x ∈ rows ++ [r], P x := by
  intro x hx
  rcases mem_append.mp hx with hx | hx
  · exact h x hx
  · rw [mem_singleton.mp hx]
    exact hr

theorem Stored.write {sql : Stmt} {T T' : Tables} (hT : Stored T) (hsql : sql.Careful)
    (hb : sql.breaks = false) (hw : T.write sql = some T') : Stored T' := by
  cases sql <;>
    simp only [Stmt.breaks, Stmt.pieces, any_cons, any_nil, Piece.breaks,
      Bool.or_eq_false_iff, Bool.false_or, Bool.or_false] at hb <;>
    simp only [Tables.write, Option.bind_eq_bind, Option.bind_eq_some_iff, Option.pure_def,
      Option.some.injEq] at hw
  case insertElection seq id title state openTime closeTime =>
    obtain ⟨v, hv, rfl⟩ := hw
    refine { hT with election := forall_concat hT.election ⟨readInt_nonneg hv, ?_⟩ }
    intro f hf
    simp only [mem_cons, not_mem_nil, or_false] at hf
    obtain ⟨-, hid, htitle, -, ho, hc⟩ := hb
    rcases hf with rfl | rfl | rfl | rfl | rfl
    · exact storedText_quoted (by decide) hid
    · exact storedText_quoted (by decide) htitle
    · exact storedText_state state
    · exact storedText_quoted (by decide) ho
    · exact storedText_quoted (by decide) hc
  case insertOption eid idx name =>
    obtain ⟨v, hv, rfl⟩ := hw
    exact { hT with
      option := forall_concat hT.option ⟨readInt_nonneg hv, storedText_quoted (by decide) hb.2.2⟩ }
  case insertEligible eid cert =>
    subst hw
    exact { hT with
      eligible := forall_concat hT.eligible ⟨storedText_quoted (by decide) hb.2,
        fun h => hsql (mem_quoted.mp h)⟩ }
  case insertBallot eid hash opt ver sup =>
    obtain ⟨o, ho, v, hv, s, -, rfl⟩ := hw
    exact { hT with
      ballot := forall_concat hT.ballot ⟨storedText_quoted (by decide) hb.2.1,
        readInt_nonneg ho, readInt_nonneg hv⟩ }
  case insertOwner eid cert hash ver =>
    obtain ⟨v, hv, rfl⟩ := hw
    exact { hT with
      owner := forall_concat hT.owner ⟨storedText_quoted (by decide) hb.2.2.1, readInt_nonneg hv⟩ }
  case insertNonce eid nonce =>
    subst hw
    exact { hT with nonce := forall_concat hT.nonce (storedText_quoted (by decide) hb.2) }
  case deleteElection id =>
    subst hw
    exact { hT with election := fun r hr => hT.election r (mem_of_mem_filter hr) }
  case deleteBallot eid hash =>
    subst hw
    exact { hT with ballot := fun r hr => hT.ballot r (mem_of_mem_filter hr) }
  case deleteOwner eid cert =>
    subst hw
    exact { hT with owner := fun r hr => hT.owner r (mem_of_mem_filter hr) }
  all_goals
    subst hw
    exact hT

theorem exec_stored {env : Env} {sql : Stmt} (hsql : sql.Careful) (cap : Nat) {w : World}
    (hw : w.Keeps Stored) : (exec env sql cap w).2.Keeps Stored := by
  cases hb : sql.breaks with
  | false => exact exec_keeps (fun t t' ht hwrite => ht.write hsql hb hwrite) cap hw
  | true =>
    have hbreak : breaksLine sql.text = true := by rw [breaksLine_text, hb]
    unfold exec
    split
    · exact hw
    · split
      · exact hw
      · rw [if_pos hbreak]
        exact hw

theorem handle_stored {env : Env} {op : Op} (hop : sends Stmt.Careful op) {w : World}
    (hw : w.Keeps Stored) : (handle env op w).2.Keeps Stored := by
  cases op with
  | log line => exact hw
  | connect =>
    simp only [handle]
    split
    · refine ⟨hw.1, ?_⟩
      rintro s t ⟨⟩ ht
      cases ht
    · exact hw
  | exec sql cap => exact exec_stored hop cap hw
  | close => exact ⟨hw.1, fun s t h => by cases h⟩

/-! ## The segments of a reply -/

/-- The segments of the reply to a statement: it was refused, or carried out
on stored tables. -/
inductive ReplyTo (c : Chatter) (sql : Stmt) : List Segment → Prop
  | refused (s : Segment) (hs : s.status ≠ .ok) : ReplyTo c sql [s]
  | served {n : Nat} {T db : Tables} {txn : Option Tables} {s : Segment} {q : List Segment}
      (hT : Stored T) (hq : queueLines (s :: q) = (done c n sql db txn (T.query sql)).lines ++
        [(done c n sql db txn (T.query sql)).mark]) : ReplyTo c sql (s :: q)

section Reply

variable {c : Chatter} {sql : Stmt} {q : List Segment}

theorem ReplyTo.cons (h : ReplyTo c sql q) : ∃ s t, q = s :: t := by
  cases h with
  | refused s hs => exact ⟨s, [], rfl⟩
  | served hT hq => exact ⟨_, _, rfl⟩

theorem replyTo_refusal (n : Nat) {m : Bytes} (hm : isMarker (lineBuf m) = true)
    (hst : classify (lineBuf m) ≠ .ok) :
    ∃ q, ReplyTo c sql q ∧ queueLines q = c.refusal n sql ++ [m] :=
  ⟨[⟨c.refusal n sql, m, c.refusal_noMarker n sql, hm⟩], .refused _ hst, by
    simp [queueLines, Segment.all]⟩

theorem replyTo_done (n : Nat) {T : Tables} (hT : Stored T) (db : Tables) (txn : Option Tables) :
    ∃ q, ReplyTo c sql q ∧ queueLines q = (done c n sql db txn (T.query sql)).lines ++
      [(done c n sql db txn (T.query sql)).mark] := by
  obtain ⟨s, q, hq⟩ := exists_queue (done c n sql db txn (T.query sql)).lines
    (isMarker_done_mark c n sql db txn (T.query sql))
  exact ⟨_, .served hT hq, hq⟩

theorem classify_error_ne : classify (lineBuf dbMarkError) ≠ .ok := by decide +kernel

theorem replyTo_refused (n : Nat) (db : Tables) (txn : Option Tables) :
    ∃ q, ReplyTo c sql q ∧
      queueLines q = (refused c n sql db txn).lines ++ [(refused c n sql db txn).mark] :=
  replyTo_refusal n (isMarker_refused_mark c n sql db txn) classify_error_ne

theorem replyTo_serve (n : Nat) {db : Tables} {txn : Option Tables} (hdb : Stored db)
    (htxn : ∀ t, txn = some t → Stored t) :
    ∃ q, ReplyTo c sql q ∧
      queueLines q = (serve c n sql db txn).lines ++ [(serve c n sql db txn).mark] := by
  by_cases hd : sql.isData = true
  · cases txn with
    | none =>
      rw [serve_auto hd]
      split
      · exact replyTo_refused ..
      · exact replyTo_done n hdb _ _
    | some t =>
      rw [serve_txn hd]
      split
      · exact replyTo_refused ..
      · exact replyTo_done n (htxn t rfl) _ _
  · cases sql <;> first | exact absurd rfl hd | skip
    all_goals cases txn <;> first | exact replyTo_refused .. | exact replyTo_done n hdb _ _

end Reply

/-! ## What the replies hold -/

theorem isRule_of_head {c : UInt8} (hc : c ≠ 45) (l : Bytes) : isRule (c :: l) = false := by
  simp [isRule, hc]

theorem isMarker_of_head {c : UInt8} (hc : c ≠ 60) (l : Bytes) : isMarker (c :: l) = false := by
  rw [isMarker, show dbMarkEnd = 60 :: bytes "<END " by decide +kernel]
  simp [List.isPrefixOf, Ne.symm hc]

theorem isRule_of_isMarker {l : Bytes} (h : isMarker l = true) : isRule l = false := by
  cases l with
  | nil => rfl
  | cons c l =>
    refine isRule_of_head (fun hc => ?_) l
    subst hc
    cases h

theorem lineBuf_cons {c : UInt8} (hc : c ≠ 0) (l : Bytes) : ∃ l', lineBuf (c :: l) = c :: l' := by
  refine ⟨(l.take (dbBodyMax - 2)).takeWhile (· ≠ 0), ?_⟩
  rw [lineBuf, show dbBodyMax - 1 = (dbBodyMax - 2) + 1 from rfl, take_succ_cons, cText,
    takeWhile_cons_of_pos (by simpa using hc)]

theorem isMarker_number (v : Int) (fs : List Bytes) :
    isMarker (lineBuf (join tab (fmtInt v :: fs))) = false := by
  obtain ⟨d, ds, hcons⟩ := exists_cons_of_ne_nil (fmtInt_ne_nil v)
  have hmem : d ∈ fmtInt v := by simp [hcons]
  have hline : ∃ l, join tab (fmtInt v :: fs) = d :: l := by
    cases fs with
    | nil => exact ⟨ds, hcons⟩
    | cons f fs => exact ⟨ds ++ tab :: join tab (f :: fs), by rw [join, hcons]; rfl⟩
  obtain ⟨l, hl⟩ := hline
  obtain ⟨l', hl'⟩ := lineBuf_cons (c := d)
    (fun h => notMem_fmtInt rfl (by decide) (h ▸ hmem)) l
  rw [hl, hl']
  exact isMarker_of_head (fun h => notMem_fmtInt rfl (by decide) (h ▸ hmem)) l'

section Lines

variable (c : Chatter) (n : Nat) (sql : Stmt)

def aboveLines : List Bytes := (c.before n sql ++ [c.header sql]) ++ [ruleLine c sql]

theorem inner_above : ∀ l ∈ aboveLines c n sql, isMarker (lineBuf l) = false := by
  intro l hl
  simp only [aboveLines, mem_append, mem_singleton] at hl
  rcases hl with (hl | rfl) | rfl
  · rw [(c.before_plain n sql l hl).lineBuf, (c.before_plain n sql l hl).noMarker]
  · rw [(c.header_plain sql).lineBuf, (c.header_plain sql).noMarker]
  · rw [(textLine_ruleLine c sql).lineBuf, (textLine_ruleLine c sql).noMarker]

def trailLines (k : Nat) (mark : Bytes) : List Bytes :=
  trailerLine k :: (c.after n sql ++ [mark])

theorem trailerLine_head (k : Nat) : ∃ l, lineBuf (trailerLine k) = 32 :: l := by
  exact lineBuf_cons (by decide) _

theorem flat_trail (k : Nat) {mark : Bytes} (hm : isMarker (lineBuf mark) = true)
    (hlf : lf ∉ mark) : Flat (trailLines c n sql k mark) := by
  obtain ⟨t, ht⟩ := trailerLine_head k
  refine flat_of_noRule (fun l hl => ?_) fun l hl => ?_ <;>
    simp only [trailLines, mem_cons, mem_append, not_mem_nil, or_false] at hl <;>
    rcases hl with rfl | hl | rfl
  · exact fun h => (mem_trailerLine h).1 rfl
  · exact (c.after_plain n sql l hl).noLf
  · exact hlf
  · rw [ht]
    exact isRule_of_head (by decide) t
  · rw [(c.after_plain n sql l hl).lineBuf, (c.after_plain n sql l hl).noRule]
  · exact isRule_of_isMarker hm

theorem inner_trail (k : Nat) {l : Bytes} (hl : l ∈ [] :: trailerLine k :: c.after n sql) :
    isMarker (lineBuf l) = false := by
  simp only [mem_cons] at hl
  obtain ⟨t, ht⟩ := trailerLine_head k
  rcases hl with rfl | rfl | hl
  · decide +kernel
  · rw [ht]
    exact isMarker_of_head (by decide) t
  · rw [(c.after_plain n sql l hl).lineBuf, (c.after_plain n sql l hl).noMarker]

end Lines

section Shapes

variable {c : Chatter} {n : Nat} {sql : Stmt} {T db : Tables} {txn : Option Tables}
  {rows : List (List Bytes)} {s : Segment} {q : List Segment}

theorem lf_notMem_mark : lf ∉ (done c n sql db txn (some rows)).mark := by
  simp only [done]
  split <;> decide +kernel

theorem selectLines_parts (mark : Bytes) :
    selectLines c n sql rows ++ [mark] = aboveLines c n sql ++
      (rows.map (join tab) ++ [] :: trailLines c n sql rows.length mark) := by
  simp [selectLines, aboveLines, trailLines]

theorem single_select (hrows : ∀ r ∈ rows, isMarker (lineBuf (join tab r)) = false)
    (hq : queueLines (s :: q) = (done c n sql db txn (some rows)).lines ++
      [(done c n sql db txn (some rows)).mark]) : q = [] := by
  refine (queue_single (fun l hl => ?_) hq).1
  have hl : l ∈ selectLines c n sql rows := hl
  rw [selectLines, ← singleton_append (x := ruleLine c sql), ← append_assoc] at hl
  rcases mem_append.mp hl with hl | hl
  · exact inner_above c n sql l hl
  · rcases mem_append.mp hl with hl | hl
    · obtain ⟨r, hr, rfl⟩ := mem_map.mp hl
      exact hrows r hr
    · exact inner_trail c n sql _ hl

/-- Behind the first segment of a select reply stand rows and what is below
them. -/
theorem tail_select (hflat : Flat (rows.map (join tab) ++ [] ::
      trailLines c n sql rows.length (done c n sql db txn (some rows)).mark))
    (hq : queueLines (s :: q) = (done c n sql db txn (some rows)).lines ++
      [(done c n sql db txn (some rows)).mark]) : Settled q := by
  have hparts := hq.trans (selectLines_parts _)
  obtain ⟨-, hsuf⟩ := queue_split (inner_above c n sql) hparts
  exact settled_of_flat (hflat.within hsuf.isInfix)

theorem flat_below (hlf : ∀ r ∈ rows, lf ∉ join tab r) (htab : ∀ r ∈ rows, tab ∉ join tab r) :
    Flat (rows.map (join tab) ++ [] ::
      trailLines c n sql rows.length (done c n sql db txn (some rows)).mark) := by
  have htrail := flat_trail c n sql rows.length (isMarker_done_mark c n sql db txn (some rows))
    lf_notMem_mark
  refine flat_append_of_noTab (fun l hl => ?_) (fun l hl => ?_) (by simp)
    (flat_cons (by simp) (fun x _ hr => by cases hr) htrail)
  · obtain ⟨r, hr, rfl⟩ := mem_map.mp hl
    exact hlf r hr
  · obtain ⟨r, hr, rfl⟩ := mem_map.mp hl
    exact htab r hr

theorem flat_below_of_noRule (hlf : ∀ r ∈ rows, lf ∉ join tab r)
    (hrule : ∀ r ∈ rows, isRule (lineBuf (join tab r)) = false) :
    Flat (rows.map (join tab) ++ [] ::
      trailLines c n sql rows.length (done c n sql db txn (some rows)).mark) := by
  have htrail := flat_trail c n sql rows.length (isMarker_done_mark c n sql db txn (some rows))
    lf_notMem_mark
  refine flat_append_of_noRule (fun l hl => ?_) (fun l hl => ?_)
    (flat_cons (by simp) (fun x _ hr => by cases hr) htrail)
  · obtain ⟨r, hr, rfl⟩ := mem_map.mp hl
    exact hlf r hr
  · obtain ⟨r, hr, rfl⟩ := mem_map.mp hl
    exact hrule r hr

/-- Rows that are all alike: either none of them is an end line, or one
stands right below the rule. -/
theorem alike_select {l : Bytes} (hall : ∀ r ∈ rows, r = [l] ∧ lf ∉ l)
    (hq : queueLines (s :: q) = (done c n sql db txn (some rows)).lines ++
      [(done c n sql db txn (some rows)).mark]) : Settled (s :: q) ∨ q = [] := by
  cases hm : isMarker (lineBuf l) with
  | false =>
    refine .inr (single_select (fun r hr => ?_) hq)
    rw [(hall r hr).1]
    exact hm
  | true =>
    left
    have hbelow := @flat_below_of_noRule c n sql db txn rows
      (fun r hr => by
        obtain ⟨rfl, hlf⟩ := hall r hr
        exact hlf)
      fun r hr => by
        rw [(hall r hr).1]
        exact isRule_of_isMarker hm
    refine settled_of_flat ?_
    rw [hq.trans (selectLines_parts _), aboveLines, append_assoc, singleton_append]
    refine flat_append_of_noRule (fun x hx => ?_) (fun x hx => ?_)
      (flat_cons (textLine_ruleLine c _).noLf (fun x hx _ hno htab => ?_) hbelow)
    · rcases mem_append.mp hx with hx | hx
      · exact (c.before_plain n _ x hx).noLf
      · rw [mem_singleton.mp hx]
        exact (c.header_plain _).noLf
    · rcases mem_append.mp hx with hx | hx
      · rw [(c.before_plain n _ x hx).lineBuf, (c.before_plain n _ x hx).noRule]
      · rw [mem_singleton.mp hx, (c.header_plain _).lineBuf, (c.header_plain _).noRule]
    · cases rows with
      | nil =>
        cases hx
        cases htab
      | cons r rows =>
        have hx : join tab r = x := Option.some.inj hx
        rw [← hx, (hall r (by simp)).1] at hno
        exact absurd (hm.symm.trans hno) (by decide)

end Shapes

section Replies

variable {c : Chatter} {sql : Stmt} {q : List Segment}

theorem settled_refused {s : Segment} (hs : s.status ≠ .ok) : Settled [s] := by
  intro t ht hok
  rw [mem_singleton.mp ht] at hok
  exact absurd hok hs

theorem ReplyTo.of_noRows (hsql : ∀ T : Tables, T.query sql = none) (h : ReplyTo c sql q) :
    Settled q ∧ ∃ s, q = [s] := by
  cases h with
  | refused s hs => exact ⟨settled_refused hs, s, rfl⟩
  | @served n T db txn s q hT hq =>
    rw [hsql T] at hq
    have hplain : ∀ l ∈ (done c n sql db txn none).lines, PlainLine l := fun l hl =>
      plain_before_after c n sql l hl
    obtain ⟨rfl, hlines, -⟩ := queue_single (fun l hl => by
      rw [(hplain l hl).lineBuf, (hplain l hl).noMarker]) hq
    refine ⟨fun t ht _ => ?_, s, rfl⟩
    rw [mem_singleton.mp ht, hlines]
    exact flat_of_noRule (fun l hl => (hplain l hl).noLf) fun l hl => by
      rw [(hplain l hl).lineBuf, (hplain l hl).noRule]

theorem ReplyTo.of_numbers (hsql : ∀ (T : Tables) rows, T.query sql = some rows → ∀ r ∈ rows,
    ∃ v fs, r = fmtInt v :: fs) (h : ReplyTo c sql q) : ∃ s, q = [s] := by
  cases hrows : (Tables.empty).query sql with
  | none =>
    refine (ReplyTo.of_noRows (fun T => ?_) h).2
    cases sql <;> first | rfl | cases hrows
  | some rows₀ =>
    cases h with
    | refused s hs => exact ⟨s, rfl⟩
    | @served n T db txn s q hT hq =>
      obtain ⟨rows, hT'⟩ : ∃ rows, T.query sql = some rows := by
        cases sql <;> first | exact ⟨_, rfl⟩ | cases hrows
      rw [hT'] at hq
      refine ⟨s, ?_⟩
      rw [single_select (fun r hr => ?_) hq]
      obtain ⟨v, fs, rfl⟩ := hsql T rows hT' r hr
      exact isMarker_number v fs

theorem ReplyTo.eligible {eid : Id} (h : ReplyTo c (.selectEligible eid) q) : Settled q.tail := by
  cases h with
  | refused s hs => exact fun t ht => by cases ht
  | @served n T db txn s q hT hq =>
    refine tail_select (flat_below (fun r hr => ?_) fun r hr => ?_) hq
    · obtain ⟨x, hx, rfl⟩ := mem_map.mp hr
      exact (hT.eligible x (mem_of_mem_filter hx)).1.noLf
    · obtain ⟨x, hx, rfl⟩ := mem_map.mp hr
      exact (hT.eligible x (mem_of_mem_filter hx)).2

theorem ReplyTo.owner {eid : Id} {cert : CertName} (h : ReplyTo c (.selectOwner eid cert) q) :
    Settled q.tail := by
  cases h with
  | refused s hs => exact fun t ht => by cases ht
  | @served n T db txn s q hT hq =>
    have hraw : ∀ x ∈ T.owner, RawLine (join tab [x.hash, fmtInt x.version]) := by
      intro x hx
      obtain ⟨htext, hv⟩ := hT.owner x hx
      have hlen := length_fmtInt_le hv.isInt32
      have hshort := htext.short
      refine ⟨fun h => ?_, fun h => ?_, ?_⟩
      · simp only [join, mem_append, mem_cons] at h
        rcases h with h | h | h
        · exact htext.noLf h
        · exact absurd h (by decide)
        · exact (cleanField_fmtInt _).noLf h
      · simp only [join, mem_append, mem_cons] at h
        rcases h with h | h | h
        · exact htext.noNul h
        · exact absurd h (by decide)
        · exact (cleanField_fmtInt _).noNul h
      · simp only [join, length_append, length_cons, dbBodyMax]
        omega
    refine tail_select (flat_below_of_noRule (fun r hr => ?_) fun r hr => ?_) hq
    · obtain ⟨x, hx, rfl⟩ := mem_map.mp hr
      exact (hraw x (mem_of_mem_filter hx)).noLf
    · obtain ⟨x, hx, rfl⟩ := mem_map.mp hr
      rw [(hraw x (mem_of_mem_filter hx)).lineBuf]
      by_contra hrule
      simp only [isRule, Bool.not_eq_false, Bool.and_eq_true, all_eq_true,
        decide_eq_true_eq] at hrule
      exact absurd (hrule.2 tab (by simp [join])) (by decide)

theorem ReplyTo.nonce {eid : Id} {nonce : Nonce} (h : ReplyTo c (.selectNonce eid nonce) q) :
    Settled q ∨ ∃ s, q = [s] := by
  cases h with
  | refused s hs => exact .inr ⟨s, rfl⟩
  | @served n T db txn s q hT hq =>
    refine (alike_select (l := quoted nonce.val) (fun r hr => ?_) hq).imp_right fun h =>
      ⟨s, by rw [h]⟩
    obtain ⟨x, hx, rfl⟩ := mem_map.mp hr
    obtain ⟨hx, hcond⟩ := mem_filter.mp hx
    simp only [decide_eq_true_eq] at hcond
    exact ⟨by rw [hcond.2], hcond.2 ▸ (hT.nonce x hx).noLf⟩

end Replies

/-! ## Numbers read back -/

section ReadBack

variable {c : Chatter} {sql : Stmt} {s : Segment} {q : List Segment} {cap : Nat}

theorem ownReply_first {a : Answer} (hq : queueLines (s :: q) = a.lines ++ [a.mark]) :
    ownReply cap a = (s.status, s.body cap) := by
  rw [ownReply, ← hq, dbWireResponse_queue]

theorem ReplyTo.first_row (hsql : ∀ T, Stored T → ∀ rows, T.query sql = some rows →
      ∀ r ∈ rows, RawLine (join tab r))
    (hsel : sql.isSelect = true) (h : ReplyTo c sql (s :: q)) (hok : s.status = .ok)
    {fields : List Bytes} (hf : dbRowFields (s.body cap) 0 = some fields) :
    ∃ T rows r, Stored T ∧ T.query sql = some rows ∧ r ∈ rows ∧
      fields = split tab (join tab r) := by
  cases h with
  | refused _ hs => exact absurd hok hs
  | @served n T db txn _ _ hT hq =>
    obtain ⟨rows, hrows⟩ : ∃ rows, T.query sql = some rows := by
      cases sql <;> first | exact ⟨_, rfl⟩ | cases hsel
    rw [hrows] at hq
    obtain ⟨k, hcount, hk⟩ : ∃ k, dbRowCount (s.body cap) = some k ∧ 0 < k := by
      unfold dbRowFields at hf
      split at hf
      · rename_i k _ hcount _
        split at hf
        · exact ⟨k, hcount, ‹_›⟩
        · cases hf
      · cases hf
    obtain ⟨-, hfields⟩ := select_raw (hsql T hT rows hrows)
      (@ownReply_first s _ cap _ hq) hcount
    rw [hfields 0 hk] at hf
    obtain ⟨r, hr, rfl⟩ := Option.map_eq_some_iff.mp hf
    exact ⟨T, rows, r, hT, hrows, mem_of_getElem? hr, rfl⟩

theorem isNumber_copy {v : Int} (hv : IsCount v) : IsNumber (CStr.copy 24 (fmtInt v)).val := by
  rw [copy_fmtInt hv.isInt32]
  exact isNumber_fmtInt hv.isInt32

theorem ReplyTo.marked {eid : Id} {hash : Hash} (h : ReplyTo c (.selectBallot eid hash) (s :: q))
    (hok : s.status = .ok) {opt ver : Bytes} (hread : readMarked (s.body cap) = some (opt, ver)) :
    IsNumber opt ∧ IsNumber ver := by
  have hclean : ∀ o v : Int, ∀ f ∈ [fmtInt o, fmtInt v], CleanField f := by
    intro o v f hf
    simp only [mem_cons, not_mem_nil, or_false] at hf
    rcases hf with rfl | rfl <;> exact cleanField_fmtInt _
  obtain ⟨f₀, f₁, fs, hf, rfl, rfl⟩ :
      ∃ f₀ f₁ fs, dbRowFields (s.body cap) 0 = some (f₀ :: f₁ :: fs) ∧
      opt = (CStr.copy 24 f₀).val ∧ ver = (CStr.copy 24 f₁).val := by
    unfold readMarked at hread
    split at hread
    · cases hread
    · cases hread
    · split at hread
      · rename_i f₀ f₁ fs hf
        cases hread
        exact ⟨f₀, f₁, fs, hf, rfl, rfl⟩
      · cases hread
  have hraw : ∀ T, Stored T → ∀ rows, T.query (.selectBallot eid hash) = some rows →
      ∀ r ∈ rows, RawLine (join tab r) := by
    rintro T hT rows ⟨⟩ r hr
    obtain ⟨x, hx, rfl⟩ := mem_map.mp hr
    obtain ⟨-, ho, hv⟩ := hT.ballot x (mem_of_mem_filter hx)
    have h1 := length_fmtInt_le ho.isInt32
    have h2 := length_fmtInt_le hv.isInt32
    refine rawLine_join (hclean _ _) ?_
    simp only [join, length_append, length_cons, dbBodyMax]
    omega
  obtain ⟨T, rows, r, hT, ⟨⟩, hr, hsplit⟩ := h.first_row hraw rfl hok hf
  obtain ⟨x, hx, rfl⟩ := mem_map.mp hr
  obtain ⟨-, ho, hv⟩ := hT.ballot x (mem_of_mem_filter hx)
  rw [split_join (by simp) fun f hf => (hclean _ _ f hf).noTab] at hsplit
  cases hsplit
  exact ⟨isNumber_copy ho, isNumber_copy hv⟩

theorem rawLine_carried {r : ElectionRow} (hseq : IsCount r.seq)
    (htext : ∀ f ∈ [r.id, r.title, r.state, r.openTime, r.closeTime], StoredText f) :
    RawLine (join tab [fmtInt r.seq, r.title, r.openTime, r.closeTime]) := by
  have hlen := length_fmtInt_le hseq.isInt32
  obtain ⟨ht1, ht2, ht3⟩ := htext r.title (by simp)
  obtain ⟨ho1, ho2, ho3⟩ := htext r.openTime (by simp)
  obtain ⟨hc1, hc2, hc3⟩ := htext r.closeTime (by simp)
  refine ⟨fun h => ?_, fun h => ?_, ?_⟩
  · obtain ⟨f, hf, hmem⟩ := mem_join (by decide) h
    simp only [mem_cons, not_mem_nil, or_false] at hf
    rcases hf with rfl | rfl | rfl | rfl
    · exact (cleanField_fmtInt _).noLf hmem
    · exact ht1 hmem
    · exact ho1 hmem
    · exact hc1 hmem
  · obtain ⟨f, hf, hmem⟩ := mem_join (by decide) h
    simp only [mem_cons, not_mem_nil, or_false] at hf
    rcases hf with rfl | rfl | rfl | rfl
    · exact (cleanField_fmtInt _).noNul hmem
    · exact ht2 hmem
    · exact ho2 hmem
    · exact hc2 hmem
  · simp only [join, length_append, length_cons, dbBodyMax]
    omega

theorem ReplyTo.carried {id : Id} (h : ReplyTo c (.selectCarried id) (s :: q))
    (hok : s.status = .ok) {seq : Bytes} {title : Title} {openTime closeTime : Time}
    (hread : readCarried (s.body cap) = some (seq, title, openTime, closeTime)) : IsNumber seq := by
  obtain ⟨f₀, fs, hf, rfl⟩ : ∃ f₀ fs, dbRowFields (s.body cap) 0 = some (f₀ :: fs) ∧
      seq = (CStr.copy 24 f₀).val := by
    unfold readCarried at hread
    split at hread
    · cases hread
    · cases hread
    · split at hread
      · rename_i f₀ f₁ f₂ f₃ fs hf
        cases hread
        exact ⟨f₀, _, hf, rfl⟩
      · cases hread
  have hraw : ∀ T, Stored T → ∀ rows, T.query (.selectCarried id) = some rows →
      ∀ r ∈ rows, RawLine (join tab r) := by
    rintro T hT rows ⟨⟩ r hr
    obtain ⟨x, hx, rfl⟩ := mem_map.mp hr
    obtain ⟨hseq, htext⟩ := hT.election x (mem_of_mem_filter hx)
    exact rawLine_carried hseq htext
  obtain ⟨T, rows, r, hT, ⟨⟩, hr, hsplit⟩ := h.first_row hraw rfl hok hf
  obtain ⟨x, hx, rfl⟩ := mem_map.mp hr
  obtain ⟨hseq, -⟩ := hT.election x (mem_of_mem_filter hx)
  rw [join, split_append (cleanField_fmtInt _).noTab] at hsplit
  cases hsplit
  exact isNumber_copy hseq

end ReadBack

/-! ## One statement on an open connection -/

/-- An `ok` on an open connection: a reply was put behind what was unread,
and its first segment was taken. -/
theorem exec_queue {env : Env} {sql : Stmt} {cap : Nat} {w : World} {txn : Option Tables}
    {q : List Segment} (hw : w.Keeps Stored) (hs : w.session = some ⟨none, txn, queueLines q⟩)
    (hok : (exec env sql cap w).1.1 = .ok) :
    ∃ qa s q' txn', ReplyTo env.chatter sql qa ∧ q ++ qa = s :: q' ∧ s.status = .ok ∧
      (exec env sql cap w).1.2 = s.body cap ∧
      (exec env sql cap w).2.session =
        some ⟨none, txn', queueLines (if env.keepsUnread then q' else [])⟩ := by
  have hread : ∀ a : Answer, ∀ qa, ReplyTo env.chatter sql qa →
      queueLines qa = a.lines ++ [a.mark] →
      (readReply env cap (queueLines q ++ a.lines ++ [a.mark])).1.1 = .ok →
      ∃ s q', q ++ qa = s :: q' ∧ s.status = .ok ∧
        (readReply env cap (queueLines q ++ a.lines ++ [a.mark])).1.2 = s.body cap ∧
        (readReply env cap (queueLines q ++ a.lines ++ [a.mark])).2 =
          queueLines (if env.keepsUnread then q' else []) := by
    intro a qa hqa hlines hst
    obtain ⟨s, q', hq⟩ : ∃ s q', q ++ qa = s :: q' := by
      obtain ⟨s, t, rfl⟩ := hqa.cons
      cases q with
      | nil => exact ⟨s, t, rfl⟩
      | cons s' q => exact ⟨s', q ++ s :: t, rfl⟩
    have hresp : dbWireResponse cap (queueLines q ++ a.lines ++ [a.mark]) [] =
        some (s.status, s.body cap, queueLines q') := by
      rw [append_assoc, ← hlines, ← queueLines_append, hq, dbWireResponse_queue]
    refine ⟨s, q', hq, ?_⟩
    simp only [readReply, hresp] at hst ⊢
    refine ⟨hst, trivial, ?_⟩
    split <;> rfl
  have htxn : ∀ t, txn = some t → Stored t := fun t ht => hw.2 _ t hs ht
  simp only [exec, hs] at hok ⊢
  by_cases hb : breaksLine sql.text = true
  · rw [if_pos hb] at hok
    cases hok
  · simp only [hb, Bool.false_eq_true, if_false] at hok ⊢
    rcases hfate : env.fate w.clock with _ | aborts | _ | ⟨late, applied⟩
    · simp only [hfate] at hok ⊢
      obtain ⟨qa, hqa, hlines⟩ :=
        @replyTo_serve env.chatter sql w.clock _ _ hw.1 htxn
      obtain ⟨s, q', hq, hst, hbody, hrest⟩ := hread _ qa hqa hlines hok
      exact ⟨qa, s, q', _, hqa, hq, hst, hbody, by rw [hrest]⟩
    · simp only [hfate] at hok ⊢
      obtain ⟨qa, hqa, hlines⟩ := @replyTo_refused env.chatter sql w.clock w.tables
        (if aborts = true then none else txn)
      obtain ⟨s, q', hq, hst, hbody, hrest⟩ := hread _ qa hqa hlines hok
      exact ⟨qa, s, q', _, hqa, hq, hst, hbody, by rw [hrest]⟩
    · simp only [hfate] at hok ⊢
      obtain ⟨qa, hqa, hlines⟩ := @replyTo_refusal env.chatter sql w.clock
        dbMarkRetry (by rw [lineBuf_dbMarkRetry, isMarker_dbMarkRetry]) (by decide +kernel)
      obtain ⟨s, q', hq, hst, hbody, hrest⟩ :=
        hread (deadlocked env.chatter w.clock sql w.tables) qa hqa hlines hok
      exact ⟨qa, s, q', _, hqa, hq, hst, hbody, by rw [hrest]⟩
    · simp only [hfate] at hok
      cases late <;> cases hok

end Corestack.Brain
