import Corestack.Brain.Record

/-!
# Reading rows back

What the parsed reply to a select says about the rows in the table. Rows
whose printed line is ordinary text come back exactly. A list of names or
nonces may hold anything, and then what comes back is a part of it.
-/

namespace Corestack.Brain

open List Lib Db

variable {l : Bytes}

/-- A line is neither an end line nor an error message if it starts with a
byte that none of these starts with. -/
theorem textLine_of_head {c : UInt8} (hc : c ≠ 60 ∧ c ≠ 73 ∧ c ≠ 67) (hlf : lf ∉ c :: l)
    (h0 : 0 ∉ c :: l) (hlen : (c :: l).length < dbBodyMax) : TextLine (c :: l) := by
  obtain ⟨h1, h2, h3⟩ := hc
  refine ⟨⟨hlf, h0, hlen⟩, ?_, ?_⟩
  · rw [isMarker, show dbMarkEnd = 60 :: bytes "<END " by rfl]
    simp [List.isPrefixOf, Ne.symm h1]
  · rw [isErrorLine, show bytes "Invalid SQL expression" = 73 :: bytes "nvalid SQL expression" by
      rfl, show bytes "Can't parse " = 67 :: bytes "an't parse " by rfl]
    simp [List.isPrefixOf, Ne.symm h2, Ne.symm h3]

variable {n : Nat}

theorem textLine_trailerLine (hn : n < 10 ^ 10) : TextLine (trailerLine n) := by
  have hlen := length_trailerLine_le hn
  have hlf : lf ∉ trailerLine n := fun h => (mem_trailerLine h).1 rfl
  have h0 : 0 ∉ trailerLine n := fun h => (mem_trailerLine h).2 rfl
  exact textLine_of_head (by decide) hlf h0 (lt_of_le_of_lt hlen (by decide))

/-! ## The lines of a select reply -/

theorem isRule_ruleLine (c : Chatter) (sql : Stmt) : isRule (ruleLine c sql) = true := by
  have hlen : 0 < (ruleLine c sql).length := by
    have := length_pos_of_ne_nil (c.header_ne sql)
    simp only [ruleLine, length_replicate]
    omega
  simp only [isRule, Bool.and_eq_true, decide_eq_true_eq, all_eq_true]
  refine ⟨ne_nil_of_length_pos hlen, fun x hx => ?_⟩
  exact eq_of_mem_replicate hx

theorem length_ruleLine_le (c : Chatter) (sql : Stmt) : (ruleLine c sql).length ≤ 536 := by
  have h := c.header_short sql
  have hcols : sql.columns ≤ 6 := by cases sql <;> simp [Stmt.columns]
  simp only [ruleLine, length_replicate]
  omega

variable {c : Chatter} {sql : Stmt}

theorem mem_ruleLine {x : UInt8} (hx : x ∈ ruleLine c sql) : x = 45 :=
  eq_of_mem_replicate hx

theorem textLine_ruleLine (c : Chatter) (sql : Stmt) : TextLine (ruleLine c sql) := by
  have hlen := length_ruleLine_le c sql
  obtain ⟨x, l, hcons⟩ := exists_cons_of_ne_nil (show ruleLine c sql ≠ [] by
    have := isRule_ruleLine c sql
    intro h
    rw [h] at this
    cases this)
  have hx : x = 45 := mem_ruleLine (show x ∈ ruleLine c sql by rw [hcons]; simp)
  have hlf : lf ∉ ruleLine c sql := fun h => absurd (mem_ruleLine h) (by decide)
  have h0 : 0 ∉ ruleLine c sql := fun h => absurd (mem_ruleLine h) (by decide)
  rw [hcons] at hlen hlf h0 ⊢
  subst hx
  exact textLine_of_head (by decide) hlf h0 (lt_of_le_of_lt hlen (by decide))

/-- The lines above the rule, as they stand in the body: blank lines at the
very start are gone, the header is still there. -/
def headLines (c : Chatter) (n : Nat) (sql : Stmt) : List Bytes :=
  (c.before n sql ++ [c.header sql]).dropWhile (· = [])

theorem headLines_ne_nil (c : Chatter) (n : Nat) (sql : Stmt) : headLines c n sql ≠ [] := by
  intro h
  have := dropWhile_eq_nil_iff.mp h (c.header sql) (by simp)
  simp [c.header_ne] at this

theorem mem_headLines (hl : l ∈ headLines c n sql) : PlainLine l := by
  rcases mem_append.mp ((dropWhile_sublist _).subset hl) with h | h
  · exact c.before_plain n sql l h
  · rw [mem_singleton.mp h]
    exact c.header_plain sql

theorem length_join_dropWhile_le (sep : UInt8) (p : Bytes → Bool) (ls : List Bytes) :
    (join sep (ls.dropWhile p)).length ≤ (join sep ls).length := by
  induction ls with
  | nil => simp
  | cons l ls ih =>
    by_cases hl : p l = true
    · rw [dropWhile_cons_of_pos hl]
      cases ls with
      | nil => simp [join]
      | cons q ls =>
        simp only [join, length_append, length_cons] at ih ⊢
        omega
    · rw [dropWhile_cons_of_neg hl]

theorem length_headLines_le (c : Chatter) (n : Nat) (sql : Stmt) :
    (join lf (headLines c n sql)).length ≤ 1536 :=
  (length_join_dropWhile_le _ _ _).trans (c.size n sql)

/-- A row that is read as it was printed. -/
structure TidyRow (fields : List Bytes) : Prop where
  ne : fields ≠ []
  noTab : ∀ f ∈ fields, tab ∉ f
  text : TextLine (join tab fields)
  notBlank : join tab fields ≠ []

def rowsSize (rows : List (List Bytes)) : Nat := (rows.map fun r => (join tab r).length + 1).sum

theorem length_le_rowsSize (rows : List (List Bytes)) : rows.length ≤ rowsSize rows := by
  unfold rowsSize
  induction rows with
  | nil => simp
  | cons r rows ih =>
    simp only [length_cons, map_cons, sum_cons]
    omega

section Select

variable {c : Chatter} {n cap : Nat} {sql : Stmt} {rows : List (List Bytes)}

def belowLines (c : Chatter) (n : Nat) (sql : Stmt) (rows : List (List Bytes)) : List Bytes :=
  rows.map (join tab) ++ [] :: trailerLine rows.length :: c.after n sql

theorem textLine_blank : TextLine [] :=
  ⟨⟨by simp, by simp, by decide⟩, by rfl, by rfl⟩

/-- The lines below the rule as they stand in the line buffer: only a huge
trailer would not fit. -/
theorem map_lineBuf_belowLines (hrows : ∀ r ∈ rows, RawLine (join tab r)) :
    (belowLines c n sql rows).map lineBuf =
      rows.map (join tab) ++ [] :: lineBuf (trailerLine rows.length) :: c.after n sql := by
  rw [belowLines, map_append, map_cons, map_cons, map_map]
  congr 1
  · exact map_congr_left fun r hr => (hrows r hr).lineBuf
  · congr 2
    rw [map_congr_left fun l hl => (c.after_plain n sql l hl).lineBuf, map_id']

theorem noLf_belowLines (hrows : ∀ r ∈ rows, RawLine (join tab r)) :
    ∀ l ∈ (belowLines c n sql rows).map lineBuf, lf ∉ l := by
  rw [map_lineBuf_belowLines hrows]
  intro l hl
  simp only [mem_append, mem_cons, mem_map] at hl
  rcases hl with ⟨r, hr, rfl⟩ | rfl | rfl | hl
  · exact (hrows r hr).noLf
  · simp
  · exact fun h => (mem_trailerLine (mem_lineBuf h)).1 rfl
  · exact (c.after_plain n sql l hl).noLf

theorem textLine_selectLines (hrows : ∀ r ∈ rows, TextLine (join tab r))
    (hn : rows.length < 10 ^ 10) : ∀ l ∈ selectLines c n sql rows, TextLine l := by
  intro l hl
  simp only [selectLines, mem_append, mem_cons, mem_map, not_mem_nil,
    or_false] at hl
  rcases hl with (hl | rfl) | rfl | ⟨r, hr, rfl⟩ | rfl | rfl | hl
  · exact (c.before_plain n sql l hl).toTextLine
  · exact (c.header_plain sql).toTextLine
  · exact textLine_ruleLine c sql
  · exact hrows r hr
  · exact textLine_blank
  · exact textLine_trailerLine hn
  · exact (c.after_plain n sql l hl).toTextLine

theorem bodyText_selectLines (hrows : ∀ r ∈ rows, TextLine (join tab r))
    (hn : rows.length < 10 ^ 10) :
    bodyText (selectLines c n sql rows) =
      join lf (headLines c n sql ++ ruleLine c sql :: belowLines c n sql rows) := by
  have hmap : (selectLines c n sql rows).map lineBuf = selectLines c n sql rows := by
    rw [map_congr_left fun l hl => (textLine_selectLines hrows hn l hl).lineBuf]
    simp
  rw [bodyText, hmap, selectLines, dropWhile_append_of_ne (headLines_ne_nil c n sql)]
  rfl

theorem done_select_ok (hrows : ∀ r ∈ rows, TextLine (join tab r)) (hn : rows.length < 10 ^ 10)
    (db : Tables) (txn : Option Tables) :
    ownReply cap (done c n sql db txn (some rows)) =
      (.ok, (join lf (headLines c n sql ++ ruleLine c sql :: belowLines c n sql rows)).take
        (cap - 1)) := by
  have htext : ∀ l ∈ selectLines c n sql rows, TextLine l := textLine_selectLines hrows hn
  have herr : (selectLines c n sql rows).any isErrorLine = false := by
    rw [any_eq_false]
    exact fun l hl => by simp [(htext l hl).noError]
  simp only [done, herr, Bool.false_eq_true, if_false]
  rw [ownReply_clean (fun l hl => by rw [(htext l hl).lineBuf, (htext l hl).noMarker])
    lineBuf_dbMarkOk isMarker_dbMarkOk, bodyText_selectLines hrows hn, classify_dbMarkOk]

theorem noLf_tableLines (hrows : ∀ r ∈ rows, TextLine (join tab r)) (hn : rows.length < 10 ^ 10) :
    ∀ l ∈ headLines c n sql ++ ruleLine c sql :: belowLines c n sql rows, lf ∉ l := by
  intro l hl
  suffices hl' : l ∈ selectLines c n sql rows from (textLine_selectLines hrows hn l hl').noLf
  rcases mem_append.mp hl with hl | hl
  · exact mem_append_left _ ((dropWhile_sublist _).subset hl)
  · exact mem_append_right _ hl

theorem length_tableLines (hn : rows.length < 10 ^ 10) :
    (join lf (headLines c n sql ++ ruleLine c sql ::
      (rows.map (join tab) ++ [[], trailerLine rows.length]))).length ≤ rowsSize rows + 2092 := by
  have h1 := length_headLines_le c n sql
  have h2 := length_ruleLine_le c sql
  have h3 := length_trailerLine_le hn
  have hrows : (rows.map ((fun q => q.length + 1) ∘ join tab)).sum = rowsSize rows := rfl
  rw [join_append lf (headLines_ne_nil c n sql) (by simp), length_append, length_cons,
    length_join_cons]
  simp only [map_append, map_map, map_cons, map_nil, sum_append,
    sum_cons, sum_nil, length_nil, hrows]
  omega

/-- Rows printed as ordinary lines are all found, if they fit into the
buffer. -/
theorem select_text (c : Chatter) (n : Nat) (sql : Stmt) (hrows : ∀ r ∈ rows, TextLine (join tab r))
    (hblank : ∀ r ∈ rows, join tab r ≠ []) (hsize : rowsSize rows + 2200 ≤ cap)
    (hcap : cap ≤ 2 ^ 20) (db : Tables) (txn : Option Tables) :
    ∃ body, ownReply cap (done c n sql db txn (some rows)) = (.ok, body) ∧
      dbRowCount body = some rows.length ∧
      ∀ i, dbRowFields body i = (rows[i]?).map fun r => split tab (join tab r) := by
  have hlen := length_le_rowsSize rows
  have hn : rows.length < 10 ^ 10 := by omega
  have hlf : ∀ l ∈ headLines c n sql ++ ruleLine c sql :: belowLines c n sql rows, lf ∉ l :=
    noLf_tableLines hrows hn
  have hfit : (join lf (headLines c n sql ++ ruleLine c sql ::
      (rows.map (join tab) ++ [[], trailerLine rows.length]))).length ≤ rowsSize rows + 2092 :=
    length_tableLines hn
  refine ⟨_, done_select_ok hrows hn db txn, ?_⟩
  have hcount : dbRowCount ((join lf (headLines c n sql ++ ruleLine c sql ::
      belowLines c n sql rows)).take (cap - 1)) = some rows.length := by
    rw [belowLines, ← length_map (join tab)]
    refine dbRowCount_fits _ (headLines_ne_nil c n sql) (fun l hl => (mem_headLines hl).noRule)
      (isRule_ruleLine c sql) ?_ ?_ ?_ (by rw [length_map]; omega)
    · intro l hl
      refine hlf l ?_
      simp only [belowLines, mem_append, mem_cons, not_mem_nil,
        length_map] at hl ⊢
      tauto
    · intro l hl
      obtain ⟨r, hr, rfl⟩ := mem_map.mp hl
      exact hblank r hr
    · exact trailerCount_trailerLine (by rw [length_map]; omega)
  refine ⟨hcount, fun i => ?_⟩
  by_cases hi : i < rows.length
  · obtain ⟨-, hfields⟩ := dbRowCount_cut (headLines_ne_nil c n sql)
      (fun l hl => (mem_headLines hl).noRule) (isRule_ruleLine c sql) hlf hcount
    rw [hfields i hi, belowLines, List.getElem?_append_left (by simpa using hi),
      List.getElem?_map, Option.map_map]
    rfl
  · rw [dbRowFields_of_le hcount (by omega), List.getElem?_eq_none (by omega)]
    rfl

theorem select_tidy (c : Chatter) (n : Nat) (sql : Stmt) (hrows : ∀ r ∈ rows, TidyRow r)
    (hsize : rowsSize rows + 2200 ≤ cap)
    (hcap : cap ≤ 2 ^ 20) (db : Tables) (txn : Option Tables) :
    ∃ body, ownReply cap (done c n sql db txn (some rows)) = (.ok, body) ∧
      dbRowCount body = some rows.length ∧ ∀ i, dbRowFields body i = rows[i]? := by
  obtain ⟨body, hreply, hcount, hfields⟩ := select_text c n sql
    (fun r hr => (hrows r hr).text) (fun r hr => (hrows r hr).notBlank) hsize hcap db txn
  refine ⟨body, hreply, hcount, fun i => ?_⟩
  rw [hfields i]
  cases hi : rows[i]? with
  | none => rfl
  | some r =>
    have hr := hrows r (mem_of_getElem? hi)
    rw [Option.map_some, split_join hr.ne hr.noTab]

/-- What is read of rows that may look like anything: up to the first line
that ends the reply, and cut to the buffer. -/
theorem ownReply_select_raw (c : Chatter) (n cap : Nat) (sql : Stmt) (rows : List (List Bytes))
    (db : Tables) (txn : Option Tables) :
    ∃ below, below <+: (belowLines c n sql rows).map lineBuf ∧
      (∀ l ∈ below, isMarker l = false) ∧
      (ownReply cap (done c n sql db txn (some rows))).2 =
        (join lf (headLines c n sql ++ ruleLine c sql :: below)).take (cap - 1) := by
  have hmark : isMarker (lineBuf (done c n sql db txn (some rows)).mark) = true := by
    simp only [done]
    split
    · rw [lineBuf_dbMarkError, isMarker_dbMarkError]
    · rw [lineBuf_dbMarkOk, isMarker_dbMarkOk]
  have hhead : ∀ l ∈ (c.before n sql ++ [c.header sql]) ++ [ruleLine c sql], TextLine l := by
    intro l hl
    simp only [mem_append, mem_singleton] at hl
    rcases hl with (hl | rfl) | rfl
    · exact (c.before_plain n sql l hl).toTextLine
    · exact (c.header_plain sql).toTextLine
    · exact textLine_ruleLine c sql
  obtain ⟨below, m, b, hsplit, hnone, hm⟩ := exists_first (fun l => isMarker (lineBuf l))
    ⟨_, mem_append_right (belowLines c n sql rows) (mem_singleton_self _), hmark⟩
  have hpre : below <+: belowLines c n sql rows := by
    refine prefix_of_prefix_length_le ⟨m :: b, hsplit.symm⟩ (prefix_append _ _) ?_
    have := congrArg List.length hsplit
    simp only [length_append, length_cons, length_nil] at this
    omega
  refine ⟨below.map lineBuf, hpre.map _, fun l hl => ?_, ?_⟩
  · obtain ⟨l', hl', rfl⟩ := mem_map.mp hl
    exact hnone l' hl'
  have hlines : (done c n sql db txn (some rows)).lines ++
      [(done c n sql db txn (some rows)).mark] =
      ((c.before n sql ++ [c.header sql] ++ [ruleLine c sql]) ++ below) ++ m :: b := by
    have : (done c n sql db txn (some rows)).lines =
        (c.before n sql ++ [c.header sql]) ++ ruleLine c sql :: belowLines c n sql rows := rfl
    rw [this, append_assoc, cons_append, hsplit]
    simp
  have hclean : ∀ l ∈ (c.before n sql ++ [c.header sql] ++ [ruleLine c sql]) ++ below,
      isMarker (lineBuf l) = false := by
    intro l hl
    rcases mem_append.mp hl with hl | hl
    · rw [(hhead l hl).lineBuf, (hhead l hl).noMarker]
    · exact hnone l hl
  rw [ownReply, hlines, dbWireResponse_eq hclean hm]
  rw [bodyText, map_append, map_congr_left fun l hl => (hhead l hl).lineBuf,
    map_id', append_assoc, dropWhile_append_of_ne (headLines_ne_nil c n sql)]
  rfl

variable {db : Tables} {txn : Option Tables} {st : DbStatus} {k : Nat}

/-- Whatever the rows look like, those that are counted are the first ones
stored. None of them is blank or ends the reply; the next one is blank. -/
theorem select_counted (hrows : ∀ r ∈ rows, RawLine (join tab r)) {body : Bytes}
    (hreply : ownReply cap (done c n sql db txn (some rows)) = (st, body))
    (hcount : dbRowCount body = some k) :
    k ≤ rows.length ∧
      (∀ i < k, dbRowFields body i = (rows[i]?).map fun r => split tab (join tab r)) ∧
      (∀ i < k, ∀ r ∈ rows[i]?, join tab r ≠ [] ∧ isMarker (join tab r) = false) ∧
      ∀ r ∈ rows[k]?, join tab r = [] := by
  obtain ⟨below, hpre, hmark, hbody⟩ := ownReply_select_raw c n cap sql rows db txn
  rw [hreply] at hbody
  subst hbody
  have hlf : ∀ l ∈ headLines c n sql ++ ruleLine c sql :: below, lf ∉ l := by
    intro l hl
    rcases mem_append.mp hl with hl | hl
    · exact (mem_headLines hl).noLf
    · rcases mem_cons.mp hl with rfl | hl
      · exact (textLine_ruleLine c sql).noLf
      · exact noLf_belowLines hrows l (hpre.subset hl)
  obtain ⟨⟨ls, rest, rfl, rfl, hls⟩, hfields⟩ := dbRowCount_cut (headLines_ne_nil c n sql)
    (fun l hl => (mem_headLines hl).noRule) (isRule_ruleLine c sql) hlf hcount
  obtain ⟨suf, hsuf⟩ := hpre
  rw [map_lineBuf_belowLines hrows, append_assoc] at hsuf
  have hget : ∀ i, i < ls.length → ls[i]? = (rows.map (join tab) ++
      [] :: lineBuf (trailerLine rows.length) :: c.after n sql)[i]? := by
    intro i hi
    rw [← hsuf, List.getElem?_append_left hi]
  have hle : ls.length ≤ rows.length := by
    by_contra hlt
    have h := hget rows.length (by omega)
    rw [List.getElem?_append_right (by simp), length_map, Nat.sub_self,
      List.getElem?_cons_zero] at h
    exact hls [] (mem_of_getElem? h) rfl
  have hrow : ∀ i, i < ls.length → ls[i]? = (rows[i]?).map (join tab) := by
    intro i hi
    rw [hget i hi, List.getElem?_append_left (by simp only [length_map]; omega),
      List.getElem?_map]
  refine ⟨hle, fun i hi => ?_, fun i hi r hr => ?_, fun r hr => ?_⟩
  · rw [hfields i hi, List.getElem?_append_left hi, hrow i hi, Option.map_map]
    rfl
  · have hmem : join tab r ∈ ls := by
      refine mem_of_getElem? (i := i) ?_
      rw [hrow i hi, hr]
      rfl
    exact ⟨hls _ hmem, hmark _ (mem_append_left _ hmem)⟩
  · have hlt := (List.getElem?_eq_some_iff.mp hr).1
    have h := congrArg (fun l => l[ls.length]?) hsuf
    rw [List.getElem?_append_right (Nat.le_refl _), Nat.sub_self, cons_append,
      List.getElem?_cons_zero, List.getElem?_append_left (by simpa using hlt),
      List.getElem?_map, hr] at h
    exact (Option.some.inj h).symm

theorem select_raw (hrows : ∀ r ∈ rows, RawLine (join tab r)) {body : Bytes}
    (hreply : ownReply cap (done c n sql db txn (some rows)) = (st, body))
    (hcount : dbRowCount body = some k) :
    k ≤ rows.length ∧
      ∀ i < k, dbRowFields body i = (rows[i]?).map fun r => split tab (join tab r) :=
  (select_counted hrows hreply hcount).imp_right And.left

theorem select_all (hrows : ∀ r ∈ rows, RawLine (join tab r)) (hn : rows.length < 10 ^ 10)
    {body : Bytes} (hreply : ownReply cap (done c n sql db txn (some rows)) = (.ok, body))
    (hcount : dbRowCount body = some rows.length) :
    ∀ r ∈ rows, TextLine (join tab r) ∧ join tab r ≠ [] := by
  obtain ⟨-, -, hlines, -⟩ := select_counted hrows hreply hcount
  have hall : ∀ r ∈ rows, join tab r ≠ [] ∧ isMarker (join tab r) = false := by
    intro r hr
    obtain ⟨i, hi, rfl⟩ := mem_iff_getElem.mp hr
    exact hlines i hi _ (List.getElem?_eq_getElem hi)
  -- so the status is the one of the end line, and that says whether a line
  -- looked like an error
  have hplain : ∀ l ∈ selectLines c n sql rows, isMarker (lineBuf l) = false := by
    intro l hl
    simp only [selectLines, mem_append, mem_cons, mem_map, not_mem_nil,
      or_false] at hl
    rcases hl with (hl | rfl) | rfl | ⟨r, hr, rfl⟩ | rfl | rfl | hl
    · rw [(c.before_plain n sql l hl).lineBuf]
      exact (c.before_plain n sql l hl).noMarker
    · rw [(c.header_plain sql).lineBuf]
      exact (c.header_plain sql).noMarker
    · rw [(textLine_ruleLine c sql).lineBuf]
      exact (textLine_ruleLine c sql).noMarker
    · rw [(hrows r hr).lineBuf]
      exact (hall r hr).2
    · exact textLine_blank.noMarker
    · exact (textLine_trailerLine hn).noMarker
    · rw [(c.after_plain n sql l hl).lineBuf]
      exact (c.after_plain n sql l hl).noMarker
  have hok : (selectLines c n sql rows).any isErrorLine = false := by
    cases herr : (selectLines c n sql rows).any isErrorLine with
    | false => rfl
    | true =>
      simp only [done, herr, if_true] at hreply
      rw [ownReply_clean hplain lineBuf_dbMarkError isMarker_dbMarkError,
        classify_dbMarkError] at hreply
      cases hreply
  intro r hr
  refine ⟨⟨hrows r hr, (hall r hr).2, ?_⟩, (hall r hr).1⟩
  have hmem : join tab r ∈ selectLines c n sql rows := by
    simp only [selectLines, mem_append, mem_cons, mem_map]
    exact .inr (.inr (.inl ⟨r, hr, rfl⟩))
  simpa using any_eq_false.mp hok _ hmem

end Select

end Corestack.Brain
