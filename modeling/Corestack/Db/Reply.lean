import Corestack.Lib.Text

/-!
# Replies of the store, as text

`wire.c` reads a reply line by line up to the `<<END ...>>` line and keeps
what stands above it in a buffer of the caller's size. `rows.c` then finds
the table in that text: a rule of dashes, one line per row with TABs
between the fields, a blank line and the trailer with the row count.

A text is handled here as the list of its lines: a pointer to the start of
a line is the list of the lines from there on, `NULL` the empty list.
-/

namespace Corestack.Db

open List Lib

/-- `db_status_t`. -/
inductive DbStatus where
  | ok
  | error
  | retry
  | io
  | timeout
deriving DecidableEq, Repr

def lf : UInt8 := 10
def cr : UInt8 := 13
def tab : UInt8 := 9

/-! ## Reading a reply off the wire (`wire.c`) -/

def dbMarkEnd : Bytes := bytes "<<END "
def dbMarkOk : Bytes := bytes "<<END ok>>"
def dbMarkRetry : Bytes := bytes "<<END retry>>"

/-- The client has no name for this one: what is not another end line is it. -/
def dbMarkError : Bytes := bytes "<<END error>>"

/-- The size of the line buffer in `db_wire_response`. -/
def dbBodyMax : Nat := 1024

def isMarker (line : Bytes) : Bool := dbMarkEnd.isPrefixOf line

def classify (line : Bytes) : DbStatus :=
  if line = dbMarkOk then .ok else if line = dbMarkRetry then .retry else .error

/-- A line as it stands in the line buffer: what does not fit is dropped,
and the C string ends at the first NUL. -/
def lineBuf (line : Bytes) : Bytes := cText (line.take (dbBodyMax - 1))

/-- One more line for the body buffer of `cap` bytes (0 for `NULL`). -/
def appendLine (cap : Nat) (body line : Bytes) : Bytes :=
  if body.length + 1 < cap then
    body ++ ((if body ≠ [] then [lf] else []) ++ line).take (cap - body.length - 1)
  else body

/-- `db_wire_response` over the lines still to be read: the status, the
body and the lines left unread. `none` when the lines run out first. -/
def dbWireResponse (cap : Nat) : List Bytes → Bytes → Option (DbStatus × Bytes × List Bytes)
  | [], _ => none
  | l :: rest, body =>
    let line := lineBuf l
    if isMarker line then some (classify line, body, rest)
    else dbWireResponse cap rest (appendLine cap body line)

/-! ## Finding the rows (`rows.c`) -/

def isRule (line : Bytes) : Bool := line ≠ [] && line.all (· = 45)

/-- The lines below the first rule, if there are any. -/
def belowRule : List Bytes → Option (List Bytes)
  | [] => none
  | l :: rest => if isRule l then (if rest = [] then none else some rest) else belowRule rest

/-- A rule needs a header above it, so the search starts at the second line. -/
def rowsBegin (body : Bytes) : Option (List Bytes) := belowRule (split lf body).tail

/-- The row count a trailer line states. -/
def trailerCount (t : Bytes) : Option Nat :=
  let t := t.dropWhile (· = 32)
  let ds := t.takeWhile isDigit
  if ds = [] ∨ digitsVal ds > 2 ^ 31 - 1 ∨ ¬ (bytes " rows.").isPrefixOf (t.dropWhile isDigit)
  then none else some (digitsVal ds)

/-- `block_count`, from row `n` on: the rows end at a blank line, and the
trailer under it must state their number. `none` is `-1`. -/
def blockCount (n : Nat) : List Bytes → Option Nat
  | [] => none
  | l :: rest =>
    if l ≠ [] then blockCount (n + 1) rest
    else match rest with
      | [] => none
      | t :: _ => if trailerCount t = some n then some n else none

def dbRowCount (body : Bytes) : Option Nat := (rowsBegin body).bind (blockCount 0)

/-- The fields of one row. `none` is `-1`. -/
def dbRowFields (body : Bytes) (row : Nat) : Option (List Bytes) :=
  match dbRowCount body, rowsBegin body with
  | some count, some rows =>
    if row < count then (rows[row]?).map (split tab) else none
  | _, _ => none

theorem isMarker_lineBuf (l : Bytes) : isMarker (lineBuf l) = isMarker l := by
  rw [Bool.eq_iff_iff, isMarker, isMarker, isPrefixOf_iff_prefix, isPrefixOf_iff_prefix]
  constructor
  · intro h
    refine h.trans (IsPrefix.trans ?_ <| take_prefix (dbBodyMax - 1) l)
    exact takeWhile_prefix _
  · rintro ⟨t, rfl⟩
    exact prefix_append _ _

theorem lineBuf_eq_self {l : Bytes} (hlen : l.length < dbBodyMax) (h0 : 0 ∉ l) : lineBuf l = l := by
  rw [lineBuf, take_of_length_le (by omega), cText_eq_self h0]

/-! ## The body of a reply -/

def glue (body line : Bytes) : Bytes := if body ≠ [] then body ++ lf :: line else line

theorem appendLine_take (cap : Nat) (full line : Bytes) :
    appendLine cap (full.take (cap - 1)) line = (glue full line).take (cap - 1) := by
  unfold appendLine glue
  by_cases hlt : full.length + 1 < cap
  · rw [take_of_length_le (by omega), if_pos hlt]
    by_cases hne : full = []
    · subst hne
      simp
    · have htake : (full ++ lf :: line).take (cap - 1) =
          full ++ (lf :: line).take (cap - 1 - full.length) := by
        rw [take_append, take_of_length_le (by omega)]
      rw [if_pos hne, if_pos hne, htake, singleton_append, Nat.sub_right_comm]
  · rw [if_neg (by simp only [length_take]; omega)]
    split
    · rw [take_append_of_le_length (by omega)]
    · rename_i hne
      simp only [ne_eq, not_not] at hne
      subst hne
      simp only [length_nil] at hlt
      rw [show cap - 1 = 0 by omega]
      simp

theorem foldl_appendLine (cap : Nat) (ls : List Bytes) (full : Bytes) :
    ls.foldl (appendLine cap) (full.take (cap - 1)) = (ls.foldl glue full).take (cap - 1) := by
  induction ls generalizing full with
  | nil => rfl
  | cons l ls ih => simp only [foldl_cons, appendLine_take, ih]

theorem foldl_glue_ne_nil {full : Bytes} (hne : full ≠ []) (ls : List Bytes) :
    ls.foldl glue full = join lf (full :: ls) := by
  induction ls generalizing full with
  | nil => rfl
  | cons l ls ih =>
    have hg : glue full l = full ++ lf :: l := if_pos hne
    rw [foldl_cons, hg, ih (by simp), join]
    cases ls <;> simp [join]

theorem foldl_glue (ls : List Bytes) :
    ls.foldl glue [] = join lf (ls.dropWhile (· = [])) := by
  induction ls with
  | nil => rfl
  | cons l ls ih =>
    by_cases hl : l = []
    · subst hl
      simpa [glue] using ih
    · rw [dropWhile_cons_of_neg (by simpa using hl), foldl_cons,
        show glue [] l = l from if_neg (by simp), foldl_glue_ne_nil hl]

variable {cap : Nat} {ls rest : List Bytes} {m : Bytes}

theorem dbWireResponse_lines (hls : ∀ l ∈ ls, isMarker (lineBuf l) = false)
    (hm : isMarker (lineBuf m) = true) (body : Bytes) :
    dbWireResponse cap (ls ++ m :: rest) body =
      some (classify (lineBuf m), (ls.map lineBuf).foldl (appendLine cap) body, rest) := by
  induction ls generalizing body with
  | nil => simp [dbWireResponse, hm]
  | cons l ls ih =>
    have hl := hls l (by simp)
    simp only [cons_append, dbWireResponse, hl, Bool.false_eq_true, if_false]
    rw [ih fun x hx => hls x (mem_cons_of_mem _ hx)]
    rfl

def bodyText (ls : List Bytes) : Bytes := join lf ((ls.map lineBuf).dropWhile (· = []))

/-- A reply is read up to its first end line; its body is the text above,
cut to the buffer. -/
theorem dbWireResponse_eq (hls : ∀ l ∈ ls, isMarker (lineBuf l) = false)
    (hm : isMarker (lineBuf m) = true) :
    dbWireResponse cap (ls ++ m :: rest) [] =
      some (classify (lineBuf m), (bodyText ls).take (cap - 1), rest) := by
  have h0 := foldl_appendLine cap (ls.map lineBuf) []
  rw [take_nil] at h0
  rw [dbWireResponse_lines hls hm, h0, foldl_glue]
  rfl

/-! ## Reading a table back

The lines of a select reply are `pre ++ rule :: below`, where `pre` ends
in the header and no line of it is a rule. The body may be cut short, by
the buffer or by a row that looks like an end line; what `dbRowCount` then
accepts is still a prefix of the lines below the rule. -/

variable {rows : List Bytes}

theorem belowRule_eq_some (h : belowRule ls = some rows) :
    ∃ pre r, ls = pre ++ r :: rows ∧ isRule r = true ∧ (∀ l ∈ pre, isRule l = false) ∧
      rows ≠ [] := by
  induction ls with
  | nil => simp [belowRule] at h
  | cons l ls ih =>
    rw [belowRule] at h
    by_cases hl : isRule l = true
    · rw [if_pos hl] at h
      split at h
      · cases h
      · cases h
        exact ⟨[], l, rfl, hl, by simp, ‹_›⟩
    · rw [if_neg hl] at h
      obtain ⟨pre, r, rfl, hr, hpre, hne⟩ := ih h
      refine ⟨l :: pre, r, rfl, hr, ?_, hne⟩
      simpa [hl] using hpre

variable {pre : List Bytes} {r : Bytes}

theorem belowRule_append (hpre : ∀ l ∈ pre, isRule l = false) (hr : isRule r = true)
    (hne : rows ≠ []) : belowRule (pre ++ r :: rows) = some rows := by
  induction pre with
  | nil => simp [belowRule, hr, hne]
  | cons l pre ih =>
    rw [cons_append, belowRule, if_neg (by simp [hpre l (by simp)])]
    exact ih fun x hx => hpre x (mem_cons_of_mem _ hx)

variable {α : Type}

theorem first_unique {P : α → Bool} {a b c d : List α} {x y : α} (h : a ++ x :: b = c ++ y :: d)
    (ha : ∀ z ∈ a, P z = false) (hx : P x = true) (hc : ∀ z ∈ c, P z = false) (hy : P y = true) :
    a = c ∧ x = y ∧ b = d := by
  induction a generalizing c with
  | nil =>
    cases c with
    | nil => simpa using h
    | cons z c =>
      simp only [nil_append, cons_append, List.cons.injEq] at h
      have := hc z (by simp)
      rw [← h.1, hx] at this
      cases this
  | cons w a ih =>
    cases c with
    | nil =>
      simp only [nil_append, cons_append, List.cons.injEq] at h
      have := ha w (by simp)
      rw [h.1, hy] at this
      cases this
    | cons z c =>
      simp only [cons_append, List.cons.injEq] at h
      obtain ⟨h1, h2, h3⟩ := ih h.2 (fun z hz => ha z (mem_cons_of_mem _ hz))
        (fun z hz => hc z (mem_cons_of_mem _ hz))
      exact ⟨by rw [h.1, h1], h2, h3⟩

theorem exists_first (P : α → Bool) {ls : List α} (h : ∃ l ∈ ls, P l = true) :
    ∃ a m b, ls = a ++ m :: b ∧ (∀ l ∈ a, P l = false) ∧ P m = true := by
  induction ls with
  | nil => simp at h
  | cons l ls ih =>
    by_cases hl : P l = true
    · exact ⟨[], l, ls, rfl, by simp, hl⟩
    · obtain ⟨x, hx, hPx⟩ := h
      rcases mem_cons.mp hx with rfl | hx
      · exact absurd hPx hl
      · obtain ⟨a, m, b, rfl, ha, hm⟩ := ih ⟨x, hx, hPx⟩
        exact ⟨l :: a, m, b, rfl, by simpa [hl] using ha, hm⟩

theorem blockCount_cons_of_ne {l : Bytes} (hl : l ≠ []) (n : Nat) (rest : List Bytes) :
    blockCount n (l :: rest) = blockCount (n + 1) rest := by
  exact if_pos hl

theorem blockCount_blank (n : Nat) (t : Bytes) (rest : List Bytes) :
    blockCount n ([] :: t :: rest) = if trailerCount t = some n then some n else none := rfl

variable {k n : Nat}

theorem trailerCount_lt {t : Bytes} {n : Nat} (h : trailerCount t = some n) : n < 2 ^ 31 := by
  unfold trailerCount at h
  dsimp only at h
  split at h
  · cases h
  · cases h
    omega

theorem blockCount_eq_some (h : blockCount k rows = some n) :
    ∃ ls t rest, rows = ls ++ [] :: t :: rest ∧ (∀ l ∈ ls, l ≠ []) ∧ n = k + ls.length ∧
      trailerCount t = some n := by
  induction rows generalizing k with
  | nil => simp [blockCount] at h
  | cons l rows ih =>
    by_cases hl : l = []
    · subst hl
      cases rows with
      | nil => cases h
      | cons t rest =>
        rw [blockCount_blank] at h
        split at h
        · cases h
          exact ⟨[], t, rest, rfl, by simp, rfl, ‹_›⟩
        · cases h
    · rw [blockCount_cons_of_ne hl] at h
      obtain ⟨ls, t, rest, rfl, hls, rfl, ht⟩ := ih h
      refine ⟨l :: ls, t, rest, rfl, ?_, by simp; omega, ht⟩
      simpa [hl] using hls

variable {t : Bytes}

theorem blockCount_rows (rest : List Bytes) (hls : ∀ l ∈ ls, l ≠ [])
    (ht : trailerCount t = some (k + ls.length)) :
    blockCount k (ls ++ [] :: t :: rest) = some (k + ls.length) := by
  induction ls generalizing k with
  | nil => simpa [blockCount] using ht
  | cons l ls ih =>
    have hlen : k + (l :: ls).length = k + 1 + ls.length := by
      simp only [length_cons]; omega
    rw [cons_append, blockCount_cons_of_ne (hls l (by simp)), hlen]
    exact ih (fun x hx => hls x (mem_cons_of_mem _ hx)) (hlen ▸ ht)

/-- A table that was read from a body, cut at any place, is the start of
the one that was printed. -/
theorem dbRowCount_cut {below : List Bytes} {m : Nat} (hpre : pre ≠ [])
    (hrules : ∀ l ∈ pre, isRule l = false) (hr : isRule r = true)
    (hlf : ∀ l ∈ pre ++ r :: below, lf ∉ l)
    (hcount : dbRowCount ((join lf (pre ++ r :: below)).take m) = some n) :
    (∃ ls rest, below = ls ++ [] :: rest ∧ ls.length = n ∧ ∀ l ∈ ls, l ≠ []) ∧
      ∀ i < n, dbRowFields ((join lf (pre ++ r :: below)).take m) i =
        (below[i]?).map (split tab) := by
  set body := (join lf (pre ++ r :: below)).take m with hbody
  obtain ⟨rows, hrows, hblock⟩ := Option.bind_eq_some_iff.mp hcount
  obtain ⟨A, r', htail, hr', hA, hne⟩ := belowRule_eq_some hrows
  obtain ⟨ls, t, rest, rfl, hls, hn, -⟩ := blockCount_eq_some hblock
  obtain ⟨l₀, tl, hsplit⟩ := exists_cons_of_ne_nil (split_ne_nil lf body)
  have hcut := dropLast_split_take_prefix lf (join lf (pre ++ r :: below)) m
  rw [← hbody, split_join (by simp) hlf, hsplit] at hcut
  rw [hsplit, tail_cons] at htail
  subst htail
  -- The lines read, but for the last one, are lines printed; so the rule
  -- that was found is the rule that was printed.
  have hdrop : (l₀ :: (A ++ r' :: (ls ++ [] :: t :: rest))).dropLast =
      l₀ :: (A ++ r' :: (ls ++ [] :: (t :: rest).dropLast)) := by
    rw [show l₀ :: (A ++ r' :: (ls ++ [] :: t :: rest)) =
      (l₀ :: (A ++ r' :: (ls ++ [[]]))) ++ (t :: rest) by simp,
      dropLast_append_of_ne_nil (by simp)]
    simp
  rw [hdrop] at hcut
  obtain ⟨suf, hsuf⟩ := hcut
  obtain ⟨p₀, pre, rfl⟩ := exists_cons_of_ne_nil hpre
  have hlines : pre ++ r :: below = A ++ r' :: (ls ++ [] :: ((t :: rest).dropLast ++ suf)) := by
    simpa using (List.cons.inj hsuf.symm).2
  obtain ⟨-, -, rfl⟩ := first_unique hlines
    (fun z hz => hrules z (mem_cons_of_mem _ hz)) hr hA hr'
  refine ⟨⟨ls, _, rfl, by omega, hls⟩, fun i hi => ?_⟩
  have hlt : i < ls.length := by omega
  simp [dbRowFields, hcount, hrows, hi, List.getElem?_append_left hlt]

/-- A field is a piece of one line of the body. -/
theorem mem_dbRowFields {body : Bytes} {i : Nat} {fs : List Bytes} {f : Bytes}
    (hfs : dbRowFields body i = some fs) (hf : f ∈ fs) : lf ∉ f ∧ f ⊆ body := by
  unfold dbRowFields at hfs
  split at hfs
  · rename_i count rows _ hrows
    split at hfs
    · obtain ⟨l, hl, rfl⟩ := Option.map_eq_some_iff.mp hfs
      obtain ⟨pre, r, hlines, -⟩ := belowRule_eq_some hrows
      have hmem : l ∈ split lf body := by
        refine mem_of_mem_tail ?_
        rw [hlines]
        exact mem_append_right _ (mem_cons_of_mem _ (mem_of_getElem? hl))
      exact ⟨fun h => notMem_of_mem_split hmem (mem_of_mem_split hf h),
        fun c hc => mem_of_mem_split hmem (mem_of_mem_split hf hc)⟩
    · cases hfs
  · cases hfs

/-- A table whose rows are not blank and whose trailer fits into the
buffer is read completely. -/
theorem dbRowCount_fits {m : Nat} (after : List Bytes) (hpre : pre ≠ [])
    (hrules : ∀ l ∈ pre, isRule l = false) (hr : isRule r = true)
    (hlf : ∀ l ∈ pre ++ r :: (rows ++ [[], t]), lf ∉ l) (hrows : ∀ l ∈ rows, l ≠ [])
    (ht : trailerCount t = some rows.length)
    (hfit : (join lf (pre ++ r :: (rows ++ [[], t]))).length ≤ m) :
    dbRowCount ((join lf (pre ++ r :: (rows ++ [] :: t :: after))).take m) =
      some rows.length := by
  obtain ⟨Z, hZ⟩ := split_take_join (by simp) hlf hfit after
  obtain ⟨p₀, pre, rfl⟩ := exists_cons_of_ne_nil hpre
  have hbegin : rowsBegin
      ((join lf (p₀ :: pre ++ r :: (rows ++ [] :: t :: after))).take m) =
      some (rows ++ [] :: t :: Z) := by
    rw [show p₀ :: pre ++ r :: (rows ++ [] :: t :: after) =
      (p₀ :: pre ++ r :: (rows ++ [[], t])) ++ after by simp, rowsBegin, hZ]
    simp only [cons_append, tail_cons, append_assoc, nil_append]
    exact belowRule_append (fun l hl => hrules l (mem_cons_of_mem _ hl)) hr (by simp)
  rw [dbRowCount, hbegin]
  have := blockCount_rows Z hrows (k := 0) (by simpa using ht)
  simpa using this

end Corestack.Db
