import Corestack.Db.Reply

/-!
# The table in a reply (`Query.execute`, `rows.c`)

A select is answered with a header, a rule, the rows, a blank line and a
trailer that counts the rows. Its lines go into a buffer of the caller's
size, and the table is then looked for in what the buffer holds. A table that
is found is the one that was printed, however the text was cut; what the
buffer cannot hold is a NUL, which ends the line that it stands in.
-/

namespace Corestack.Db

open List Lib

/-! ## The trailer -/

def trailerLine (n : Nat) : Bytes := bytes " " ++ fmtNat n ++ bytes " rows."

theorem trailerCount_trailerLine {n : Nat} (hn : n < 2 ^ 31) :
    trailerCount (trailerLine n) = some n := by
  obtain ⟨d, ds, hd⟩ := exists_cons_of_ne_nil (fmtNat_ne_nil n)
  have hdig : ∀ c ∈ fmtNat n, isDigit c = true := fun c => fmtNat_isDigit
  have hsp : d ≠ 32 := ne_of_isDigit (hdig d (by simp [hd])) rfl
  have hdrop : (trailerLine n).dropWhile (· = 32) = fmtNat n ++ bytes " rows." := by
    rw [trailerLine, hd, show bytes " " = [32] by rfl]
    simp [hsp]
  have hrest : (bytes " rows.").takeWhile isDigit = [] := rfl
  have hrest' : (bytes " rows.").dropWhile isDigit = bytes " rows." := rfl
  have htake : (fmtNat n ++ bytes " rows.").takeWhile isDigit = fmtNat n := by
    rw [takeWhile_append_of_pos hdig, hrest, append_nil]
  have hdropD : (fmtNat n ++ bytes " rows.").dropWhile isDigit = bytes " rows." := by
    rw [dropWhile_append_of_pos hdig, hrest']
  have hpre : (bytes " rows.").isPrefixOf (bytes " rows.") = true := rfl
  simp only [trailerCount, hdrop, htake, hdropD, digitsVal_fmtNat, hpre, fmtNat_ne_nil, false_or,
    not_true_eq_false, or_false]
  rw [if_neg (by omega)]

theorem length_trailerLine_le {n : Nat} (hn : n < 10 ^ 10) : (trailerLine n).length ≤ 17 := by
  have h1 : (bytes " ").length = 1 := rfl
  have h2 : (bytes " rows.").length = 6 := rfl
  have := length_fmtNat_le (k := 10) (by norm_num) hn
  simp only [trailerLine, length_append, h1, h2]
  omega

theorem mem_trailerLine {n : Nat} {x : UInt8} (hx : x ∈ trailerLine n) : x ≠ lf ∧ x ≠ 0 := by
  simp only [trailerLine, mem_append] at hx
  rcases hx with (hx | hx) | hx
  · rw [show bytes " " = [32] by rfl, mem_singleton] at hx
    subst hx
    decide
  · exact ⟨ne_of_isDigit (fmtNat_isDigit hx) rfl, ne_of_isDigit (fmtNat_isDigit hx) rfl⟩
  · have : ∀ x ∈ bytes " rows.", x ≠ lf ∧ x ≠ 0 := by decide +kernel
    exact this x hx

/-! ## Lines in the body -/

theorem dropWhile_append_of_ne {α : Type} {p : α → Bool} {a b : List α}
    (h : a.dropWhile p ≠ []) : (a ++ b).dropWhile p = a.dropWhile p ++ b := by
  induction a with
  | nil => exact absurd rfl h
  | cons x a ih =>
    by_cases hx : p x = true
    · simp only [cons_append, dropWhile_cons_of_pos hx] at h ⊢
      exact ih h
    · simp only [cons_append, dropWhile_cons_of_neg hx]

theorem mem_lineBuf {l : Bytes} {x : UInt8} (hx : x ∈ lineBuf l) : x ∈ l :=
  mem_of_mem_take ((takeWhile_sublist _).subset hx)

theorem dbRowFields_of_le {body : Bytes} {k i : Nat} (hcount : dbRowCount body = some k)
    (hi : k ≤ i) : dbRowFields body i = none := by
  unfold dbRowFields
  rw [hcount]
  split
  · rename_i heq _
    cases heq
    exact if_neg (by omega)
  · rfl

/-! ## A printed table -/

/-- `Query.execute` puts a tab behind each name. -/
def headerLine (columns : List Bytes) : Bytes := columns.flatMap (· ++ [tab])

def dashes (columns : List Bytes) : Bytes :=
  List.replicate ((headerLine columns).length + columns.length * 4) 45

/-- The trailer with the counter that it prints, which is an `int`. -/
def countLine (n : Nat) : Bytes := bytes " " ++ fmtInt (toInt32 n) ++ bytes " rows."

def tableLines (columns : List Bytes) (rows : List (List Bytes)) : List Bytes :=
  headerLine columns :: dashes columns :: (rows.map (join tab) ++ [[], countLine rows.length])

/-- The answer to a select, with what else is printed before and after the
table. Nothing before it is read as a rule; names are identifiers. -/
structure SelectReply where
  before : List Bytes
  columns : List Bytes
  rows : List (List Bytes)
  after : List Bytes
  noRule : ∀ l ∈ before, isRule (lineBuf l) = false
  columns_ne : columns ≠ []
  name : ∀ c ∈ columns, 0 ∉ c ∧ lf ∉ c
  row : ∀ r ∈ rows, r.length = columns.length ∧ r ≠ [[]]
  value : ∀ r ∈ rows, ∀ f ∈ r, tab ∉ f ∧ cr ∉ f ∧ lf ∉ f
  line : ∀ l ∈ before ++ tableLines columns rows ++ after,
    lf ∉ l ∧ l.length < dbBodyMax ∧ isMarker l = false

namespace SelectReply

variable (o : SelectReply)

def lines : List Bytes := o.before ++ tableLines o.columns o.rows ++ o.after

def size : Nat := (bodyText (o.before ++ tableLines o.columns o.rows)).length

/-- The reply is received into a buffer of `cap` bytes; then the rows are
counted right or, if the trailer did not fit, not at all, and the fields of
each row that counts are those of the table. -/
def ParsedExactly (cap : Nat) : Prop :=
  ∀ rest, ∃ body, dbWireResponse cap (o.lines ++ dbMarkOk :: rest) [] = some (.ok, body, rest) ∧
    (dbRowCount body = some o.rows.length ∨ dbRowCount body = none ∧ cap ≤ o.size) ∧
    ∀ n, dbRowCount body = some n → ∀ i < n, dbRowFields body i = o.rows[i]?

/-! ### Its text -/

theorem lineBuf_of_lt {l : Bytes} (hlen : l.length < dbBodyMax) (h0 : 0 ∉ l) : lineBuf l = l := by
  rw [lineBuf, take_of_length_le (by omega), cText_eq_self h0]

theorem header_ne : headerLine o.columns ≠ [] := by
  obtain ⟨c, cs, hc⟩ := exists_cons_of_ne_nil o.columns_ne
  simp [headerLine, hc]

theorem lineBuf_header : lineBuf (headerLine o.columns) = headerLine o.columns := by
  refine lineBuf_of_lt (o.line _ (by simp [tableLines])).2.1 fun h0 => ?_
  obtain ⟨c, hc, h0⟩ := mem_flatMap.mp h0
  rcases mem_append.mp h0 with h0 | h0
  · exact (o.name c hc).1 h0
  · exact absurd (mem_singleton.mp h0) (by decide)

theorem isRule_header : isRule (headerLine o.columns) = false := by
  obtain ⟨c, cs, hc⟩ := exists_cons_of_ne_nil o.columns_ne
  have hmem : tab ∈ headerLine o.columns := by simp [headerLine, hc]
  rw [isRule, Bool.and_eq_false_iff]
  refine Or.inr (all_eq_false.mpr ⟨tab, hmem, by decide⟩)

theorem isRule_dashes : isRule (dashes o.columns) = true := by
  have hpos := length_pos_of_ne_nil o.columns_ne
  rw [isRule, Bool.and_eq_true, decide_eq_true_eq, all_eq_true]
  refine ⟨ne_nil_of_length_pos ?_, fun c hc => ?_⟩
  · rw [dashes, length_replicate]
    omega
  · rw [decide_eq_true_eq]
    exact eq_of_mem_replicate hc

theorem lineBuf_dashes : lineBuf (dashes o.columns) = dashes o.columns :=
  lineBuf_of_lt (o.line _ (by simp [tableLines])).2.1 fun h0 =>
    absurd (eq_of_mem_replicate h0) (by decide)

theorem lineBuf_countLine : lineBuf (countLine o.rows.length) = countLine o.rows.length := by
  refine lineBuf_of_lt (o.line _ (by simp [tableLines])).2.1 fun h0 => ?_
  simp only [countLine, mem_append] at h0
  rcases h0 with (h0 | h0) | h0
  · exact absurd h0 (by decide)
  · exact notMem_fmtInt rfl (by decide) h0
  · exact absurd h0 (by decide)

def above : List Bytes := (o.before.map lineBuf ++ [headerLine o.columns]).dropWhile (· = [])

def rowBufs : List Bytes := o.rows.map fun r => lineBuf (join tab r)

theorem above_ne : o.above ≠ [] := by
  intro h
  have := dropWhile_eq_nil_iff.mp h (headerLine o.columns) (by simp)
  exact o.header_ne (by simpa using this)

theorem isRule_above : ∀ l ∈ o.above, isRule l = false := by
  intro l hl
  rcases mem_append.mp ((dropWhile_sublist _).subset hl) with hl | hl
  · obtain ⟨l', hl', rfl⟩ := mem_map.mp hl
    exact o.noRule l' hl'
  · rw [mem_singleton.mp hl, o.isRule_header]

def below (ls : List Bytes) : List Bytes :=
  o.rowBufs ++ [] :: countLine o.rows.length :: ls.map lineBuf

theorem map_lineBuf (ls : List Bytes) :
    (o.before ++ tableLines o.columns o.rows ++ ls).map lineBuf =
      (o.before.map lineBuf ++ [headerLine o.columns]) ++ dashes o.columns :: o.below ls := by
  simp only [tableLines, below, rowBufs, map_append, map_cons, map_map,
    o.lineBuf_header, o.lineBuf_dashes, o.lineBuf_countLine, append_assoc, cons_append,
    nil_append]
  rfl

theorem bodyText_eq (ls : List Bytes) :
    bodyText (o.before ++ tableLines o.columns o.rows ++ ls) =
      join lf (o.above ++ dashes o.columns :: o.below ls) := by
  rw [bodyText, o.map_lineBuf, dropWhile_append_of_ne o.above_ne]
  rfl

theorem mem_lines {l : Bytes} (hl : l ∈ o.above ++ dashes o.columns :: o.below o.after) :
    ∃ l' ∈ o.lines, lineBuf l' = l := by
  refine mem_map.mp (?_ : l ∈ o.lines.map lineBuf)
  rw [lines, o.map_lineBuf]
  rcases mem_append.mp hl with hl | hl
  · exact mem_append_left _ ((dropWhile_sublist _).subset hl)
  · exact mem_append_right _ hl

theorem noLf : ∀ l ∈ o.above ++ dashes o.columns :: o.below o.after, lf ∉ l := by
  intro l hl hlf
  obtain ⟨l', hl', rfl⟩ := o.mem_lines hl
  exact (o.line l' hl').1 (mem_lineBuf hlf)

theorem received (cap : Nat) (rest : List Bytes) :
    dbWireResponse cap (o.lines ++ dbMarkOk :: rest) [] = some (.ok,
      (join lf (o.above ++ dashes o.columns :: o.below o.after)).take (cap - 1), rest) := by
  have hm : isMarker (lineBuf dbMarkOk) = true := rfl
  rw [lines, dbWireResponse_eq (fun l hl => (isMarker_lineBuf l).trans (o.line l hl).2.2) hm,
    o.bodyText_eq]
  rfl

theorem size_eq : o.size =
    (join lf (o.above ++
      dashes o.columns :: (o.rowBufs ++ [[], countLine o.rows.length]))).length := by
  rw [size, ← append_nil (o.before ++ _), o.bodyText_eq]
  rfl

/-! ### What is read -/

theorem fields_eq {m n i : Nat} (hcount : dbRowCount
    ((join lf (o.above ++ dashes o.columns :: o.below o.after)).take m) = some n) (hi : i < n)
    (hn : n ≤ o.rows.length) :
    dbRowFields ((join lf (o.above ++ dashes o.columns :: o.below o.after)).take m) i =
      (o.rows[i]?).map fun r => split tab (lineBuf (join tab r)) := by
  obtain ⟨-, hfields⟩ := dbRowCount_cut o.above_ne o.isRule_above o.isRule_dashes o.noLf hcount
  rw [hfields i hi, below, List.getElem?_append_left (by rw [rowBufs, length_map]; omega),
    rowBufs, List.getElem?_map, Option.map_map]
  rfl

/-- Where the rows have no NUL. -/
structure Legible : Prop where
  count : o.rows.length < 2 ^ 31
  noNul : ∀ r ∈ o.rows, ∀ f ∈ r, 0 ∉ f

variable {o}

theorem Legible.lineBuf_row (h : o.Legible) {r : List Bytes} (hr : r ∈ o.rows) :
    lineBuf (join tab r) = join tab r := by
  have hline : join tab r ∈ tableLines o.columns o.rows :=
    mem_cons_of_mem _ <| mem_cons_of_mem _ <| mem_append_left _ <|
      mem_map_of_mem hr
  refine lineBuf_of_lt (o.line _ (by simp [hline])).2.1 fun h0 => ?_
  obtain ⟨f, hf, h0⟩ := mem_join (by decide) h0
  exact h.noNul r hr f hf h0

theorem Legible.rowBufs_ne (h : o.Legible) : ∀ l ∈ o.rowBufs, l ≠ [] := by
  intro l hl hnil
  obtain ⟨r, hr, rfl⟩ := mem_map.mp hl
  have hlen := (o.row r hr).1
  have hpos := length_pos_of_ne_nil o.columns_ne
  rw [h.lineBuf_row hr] at hnil
  match r, hlen with
  | [], hlen => simp at hlen; omega
  | [f], _ => exact (o.row [f] hr).2 (by rw [← hnil]; rfl)
  | f :: g :: r, _ => simp [join] at hnil

theorem Legible.trailer (h : o.Legible) :
    trailerCount (countLine o.rows.length) = some o.rows.length := by
  have hint : toInt32 o.rows.length = o.rows.length :=
    toInt32_eq_self ⟨by omega, by exact_mod_cast h.count⟩
  have hline : countLine o.rows.length = trailerLine o.rows.length := by rw [countLine, hint]; rfl
  rw [hline, trailerCount_trailerLine h.count]

theorem Legible.count_eq (h : o.Legible) {m n : Nat} (hcount : dbRowCount
    ((join lf (o.above ++ dashes o.columns :: o.below o.after)).take m) = some n) :
    n = o.rows.length := by
  obtain ⟨⟨ls, rest, heq, hlen, hls⟩, -⟩ :=
    dbRowCount_cut o.above_ne o.isRule_above o.isRule_dashes o.noLf hcount
  have hfirst := first_unique (P := fun l : Bytes => l = []) heq
    (fun l hl => by simpa using h.rowBufs_ne l hl) rfl (fun l hl => by simpa using hls l hl) rfl
  rw [← hlen, ← hfirst.1, rowBufs, length_map]

theorem Legible.parsed (h : o.Legible) (cap : Nat) : o.ParsedExactly cap := by
  intro rest
  refine ⟨_, o.received cap rest, ?_, fun n hn i hi => ?_⟩
  · by_cases hfits : o.size < cap
    · left
      have hcount := dbRowCount_fits (m := cap - 1) (o.after.map lineBuf) o.above_ne o.isRule_above
        o.isRule_dashes (t := countLine o.rows.length) ?_ h.rowBufs_ne ?_
        (by rw [← o.size_eq]; omega)
      · rwa [rowBufs, length_map] at hcount
      · intro l hl
        refine o.noLf l ?_
        simp only [below, mem_append, mem_cons, not_mem_nil, or_false] at hl ⊢
        tauto
      · rw [h.trailer, rowBufs, length_map]
    · cases hcount : dbRowCount _ with
      | none => exact Or.inr ⟨rfl, by omega⟩
      | some n => exact Or.inl (by rw [h.count_eq hcount])
  · rw [o.fields_eq hn hi (h.count_eq hn).le]
    cases hr : o.rows[i]? with
    | none => rfl
    | some r =>
      have hmem := mem_of_getElem? hr
      have hne : r ≠ [] := by
        have hpos := length_pos_of_ne_nil o.columns_ne
        rw [← (o.row r hmem).1] at hpos
        exact ne_nil_of_length_pos hpos
      rw [Option.map_some, h.lineBuf_row hmem,
        split_join hne fun f hf => (o.value r hmem f hf).1]

end SelectReply

/-- A reply is parsed exactly, whatever the size of the buffer, if and only
if no value in it has a NUL and its rows can be counted in an `int`. -/
theorem select_parsed_iff (o : SelectReply) :
    (∀ cap, o.ParsedExactly cap) ↔
      o.rows.length < 2 ^ 31 ∧ ∀ r ∈ o.rows, ∀ f ∈ r, 0 ∉ f := by
  refine ⟨fun hall => ?_, fun h cap => SelectReply.Legible.parsed ⟨h.1, h.2⟩ cap⟩
  -- a buffer that holds everything
  obtain ⟨body, hbody, hcount, hfields⟩ := hall (o.size + 1) []
  rw [o.received, Option.some.injEq, Prod.mk.injEq, Prod.mk.injEq] at hbody
  obtain ⟨-, rfl, -⟩ := hbody
  replace hcount := hcount.resolve_right fun h => by omega
  refine ⟨?_, fun r hr f hf h0 => ?_⟩
  · obtain ⟨rows, -, hblock⟩ := Option.bind_eq_some_iff.mp hcount
    obtain ⟨_, _, _, _, _, _, ht⟩ := blockCount_eq_some hblock
    exact trailerCount_lt ht
  · obtain ⟨i, hi, hr⟩ := getElem_of_mem hr
    have hread := hfields _ hcount i hi
    rw [o.fields_eq hcount hi le_rfl, List.getElem?_eq_getElem hi, hr, Option.map_some,
      Option.some.injEq] at hread
    rw [← hread] at hf
    exact zero_notMem_cText _ (mem_of_mem_split hf h0)

def nulReply : SelectReply where
  before := []
  columns := [bytes "c"]
  rows := [[[0]], [bytes " 0 rows."]]
  after := []
  noRule := by decide
  columns_ne := by decide
  name := by decide +kernel
  row := by decide +kernel
  value := by decide +kernel
  line := by decide +kernel

/-- Two rows, of which the first is a NUL and the second looks like the count
of none, are read as none. -/
theorem nul_row_miscounted : (dbWireResponse 1000 (nulReply.lines ++ [dbMarkOk]) []).map
    (fun r => dbRowCount r.2.1) = some (some 0) := by
  decide +kernel

end Corestack.Db
