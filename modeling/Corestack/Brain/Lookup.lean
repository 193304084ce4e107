import Corestack.Brain.Elections
import Corestack.Brain.Read

/-!
# What the reads of the seam return

Each read command prints rows, reads the reply back and parses fields. On
rows that print as tidy lines the command returns what is stored. Names of
eligible voters are the one exception: they stand alone on their lines, so
a name may look like anything, and then fewer names are read.
-/

namespace Corestack.Brain

open List Lib Db Prog

/-! ## Clean fields -/

/-- A field that neither ends its line nor shifts the fields after it. -/
structure CleanField (f : Bytes) : Prop where
  noTab : tab ∉ f
  noLf : lf ∉ f
  noNul : 0 ∉ f

/-- A field that starts neither like an end line nor like an error message. -/
def PlainHead (f : Bytes) : Prop := ∃ c s, f = c :: s ∧ c ≠ 60 ∧ c ≠ 73 ∧ c ≠ 67

theorem cleanField_fmtInt (v : Int) : CleanField (fmtInt v) :=
  ⟨notMem_fmtInt rfl (by decide), notMem_fmtInt rfl (by decide), notMem_fmtInt rfl (by decide)⟩

variable {f : Bytes}

theorem plainHead_of_forall (hne : f ≠ []) (hf : ∀ c ∈ f, c ≠ 60 ∧ c ≠ 73 ∧ c ≠ 67) :
    PlainHead f := by
  obtain ⟨c, s, rfl⟩ := exists_cons_of_ne_nil hne
  exact ⟨c, s, rfl, hf c (by simp)⟩

theorem plainHead_fmtInt (v : Int) : PlainHead (fmtInt v) := by
  refine plainHead_of_forall (fmtInt_ne_nil v) fun c hc => ?_
  rcases mem_fmtInt hc with h | rfl
  · exact ⟨ne_of_isDigit h rfl, ne_of_isDigit h rfl, ne_of_isDigit h rfl⟩
  · decide

theorem unsafeField_eq_false {s : Bytes} :
    unsafeField s = false ↔ tab ∉ s ∧ lf ∉ s ∧ cr ∉ s := by
  simp only [unsafeField, any_eq_false, Bool.or_eq_true, decide_eq_true_eq, not_or]
  constructor
  · intro h
    exact ⟨fun hx => (h _ hx).1.1 rfl, fun hx => (h _ hx).1.2 rfl, fun hx => (h _ hx).2 rfl⟩
  · rintro ⟨h1, h2, h3⟩ c hc
    exact ⟨⟨fun h => h1 (h ▸ hc), fun h => h2 (h ▸ hc)⟩, fun h => h3 (h ▸ hc)⟩

theorem cleanField_quoted {n : Nat} {s : CStr n} (htab : tab ∉ s.val) (hlf : lf ∉ s.val) :
    CleanField (quoted s.val) :=
  ⟨fun h => htab (mem_quoted.mp h), fun h => hlf (mem_quoted.mp h),
    fun h => s.noNul (mem_quoted.mp h)⟩

variable {fs : List Bytes}

theorem rawLine_join (hclean : ∀ f ∈ fs, CleanField f) (hlen : (join tab fs).length < dbBodyMax) :
    RawLine (join tab fs) := by
  refine ⟨fun h => ?_, fun h => ?_, hlen⟩
  · obtain ⟨p, hp, hmem⟩ := mem_join (by decide) h
    exact (hclean p hp).noLf hmem
  · obtain ⟨p, hp, hmem⟩ := mem_join (by decide) h
    exact (hclean p hp).noNul hmem

theorem tidyRow_of_clean (hhead : PlainHead f) (hclean : ∀ g ∈ f :: fs, CleanField g)
    (hlen : (join tab (f :: fs)).length < dbBodyMax) : TidyRow (f :: fs) := by
  have hraw := rawLine_join hclean hlen
  obtain ⟨c, s, rfl, hc⟩ := hhead
  obtain ⟨l, hl⟩ : ∃ l, join tab ((c :: s) :: fs) = c :: l := by
    cases fs with
    | nil => exact ⟨s, rfl⟩
    | cons g fs => exact ⟨s ++ tab :: join tab (g :: fs), rfl⟩
  refine ⟨by simp, fun g hg => (hclean g hg).noTab, ?_, by simp [hl]⟩
  rw [hl] at hraw ⊢
  exact textLine_of_head hc hraw.noLf hraw.noNul hraw.short

variable {v : Int}

theorem fieldInt_fmtInt (hv : IsInt32 v) : fieldInt (fmtInt v) = v := by
  rw [fieldInt, CStr.copy_val (lt_of_le_of_lt (length_fmtInt_le hv) (by decide))
    (cleanField_fmtInt v).noNul, atoi_fmtInt hv]

theorem copy_fmtInt (hv : IsInt32 v) : (CStr.copy 24 (fmtInt v)).val = fmtInt v :=
  CStr.copy_val (lt_of_le_of_lt (length_fmtInt_le hv) (by decide)) (cleanField_fmtInt v).noNul

/-- An `int` that is not negative, as the tables hold them. -/
def IsCount (v : Int) : Prop := 0 ≤ v ∧ v < 2 ^ 31

theorem IsCount.isInt32 (hv : IsCount v) : IsInt32 v := by
  unfold IsCount IsInt32 at *
  omega

/-! ## Receipt hashes -/

def isHex (c : UInt8) : Bool := isDigit c || 97 ≤ c && c ≤ 102

/-- A hash consists of hex digits. -/
structure IsHash (h : Hash) : Prop where
  ne : h.val ≠ []
  hex : ∀ c ∈ h.val, isHex c = true

theorem isHex_hexDigit (n : UInt32) : isHex (hexDigit (n &&& 15)) = true := by
  have hall : ∀ k : Fin 16, isHex (hexDigit (UInt32.ofNat k)) = true := by decide
  have hlt : (n &&& 15).toNat < 16 := by
    exact Nat.lt_of_le_of_lt Nat.and_le_right (by decide)
  have := hall ⟨_, hlt⟩
  rwa [UInt32.ofNat_toNat] at this

theorem isHex_hashDigits {k : Nat} : ∀ {state : UInt32}, ∀ c ∈ hashDigits state k,
    isHex c = true := by
  induction k with
  | zero => simp [hashDigits]
  | succ k ih =>
    intro state c hc
    rcases mem_cons.mp hc with rfl | hc
    · exact isHex_hexDigit _
    · exact ih c hc

theorem length_hashDigits (state : UInt32) (k : Nat) : (hashDigits state k).length = k := by
  induction k generalizing state with
  | zero => rfl
  | succ k ih => simp [hashDigits, ih]

theorem not_isHex {c d : UInt8} (hc : isHex c = true) (hd : isHex d = false) : c ≠ d := by
  rintro rfl
  rw [hc] at hd
  cases hd

theorem val_receiptHash (nonce : Nonce) (version : Int) :
    (receiptHash nonce version).val =
      hashFromSeed (fold nonce.val ^^^ UInt32.ofInt version * 2246822519) := by
  refine CStr.copy_val ?_ fun h => ?_
  · rw [hashFromSeed, length_hashDigits]
    decide
  · exact not_isHex (isHex_hashDigits _ h) rfl rfl

theorem isHash_receiptHash (nonce : Nonce) (version : Int) :
    IsHash (receiptHash nonce version) := by
  constructor
  · rw [val_receiptHash]
    refine ne_nil_of_length_pos ?_
    rw [hashFromSeed, length_hashDigits]
    decide
  · rw [val_receiptHash]
    exact isHex_hashDigits

namespace IsHash

variable {h : Hash}

theorem quoted_eq (hh : IsHash h) : quoted h.val = h.val :=
  quoted_eq_self fun hmem => not_isHex (hh.hex _ hmem) rfl rfl

theorem cleanField (hh : IsHash h) : CleanField (quoted h.val) := by
  rw [hh.quoted_eq]
  exact ⟨fun hx => not_isHex (hh.hex _ hx) rfl rfl, fun hx => not_isHex (hh.hex _ hx) rfl rfl,
    fun hx => not_isHex (hh.hex _ hx) rfl rfl⟩

theorem plainHead (hh : IsHash h) : PlainHead (quoted h.val) := by
  rw [hh.quoted_eq]
  exact plainHead_of_forall hh.ne fun c hc =>
    ⟨not_isHex (hh.hex c hc) rfl, not_isHex (hh.hex c hc) rfl, not_isHex (hh.hex c hc) rfl⟩

theorem length_quoted (hh : IsHash h) : (quoted h.val).length ≤ 64 := by
  rw [hh.quoted_eq]
  exact Nat.le_of_lt_succ h.fits

theorem copy_quoted (hh : IsHash h) : CStr.copy bbHashLen (quoted h.val) = h := by
  rw [hh.quoted_eq, CStr.copy_self]

end IsHash

/-! ## Selects of the ballot tables -/

section Select

variable {c : Chatter} {n cap : Nat} {sql : Stmt} {rows : List (List Bytes)} {db : Tables}
  {txn : Option Tables} {st : DbStatus} {body : Bytes}

theorem select_tidy_reply (hrows : ∀ r ∈ rows, TidyRow r) (hsize : rowsSize rows + 2200 ≤ cap)
    (hcap : cap ≤ 2 ^ 20)
    (hreply : ownReply cap (done c n sql db txn (some rows)) = (st, body)) :
    dbRowCount body = some rows.length ∧ ∀ i, dbRowFields body i = rows[i]? := by
  obtain ⟨body', hreply', h⟩ := select_tidy c n sql hrows hsize hcap db txn
  rw [hreply] at hreply'
  cases hreply'
  exact h

theorem rowsSize_le {k : Nat} (h : ∀ r ∈ rows, (join tab r).length + 1 ≤ k) :
    rowsSize rows ≤ rows.length * k := by
  unfold rowsSize
  induction rows with
  | nil => simp
  | cons r rows ih =>
    have h1 := h r (by simp)
    have h2 := ih fun r hr => h r (mem_cons_of_mem _ hr)
    rw [map_cons, sum_cons, length_cons, Nat.add_mul]
    omega

end Select

theorem length_join_two (a b : Bytes) : (join tab [a, b]).length = a.length + b.length + 1 := by
  simp [join]
  omega

theorem tidyRow_owner {hash : Hash} (hh : IsHash hash) (hv : IsCount v) :
    TidyRow [quoted hash.val, fmtInt v] ∧
      (join tab [quoted hash.val, fmtInt v]).length + 1 ≤ 77 := by
  have h1 := hh.length_quoted
  have h2 := length_fmtInt_le hv.isInt32
  have hlen := length_join_two (quoted hash.val) (fmtInt v)
  refine ⟨tidyRow_of_clean hh.plainHead ?_ ?_, by omega⟩
  · intro g hg
    simp only [mem_cons, not_mem_nil, or_false] at hg
    rcases hg with rfl | rfl
    · exact hh.cleanField
    · exact cleanField_fmtInt v
  · unfold dbBodyMax
    omega

theorem tidyRow_marked {o : Int} (ho : IsCount o) (hv : IsCount v) :
    TidyRow [fmtInt o, fmtInt v] ∧ (join tab [fmtInt o, fmtInt v]).length + 1 ≤ 77 := by
  have h1 := length_fmtInt_le ho.isInt32
  have h2 := length_fmtInt_le hv.isInt32
  have hlen := length_join_two (fmtInt o) (fmtInt v)
  refine ⟨tidyRow_of_clean (plainHead_fmtInt o) ?_ ?_, by omega⟩
  · intro g hg
    simp only [mem_cons, not_mem_nil, or_false] at hg
    rcases hg with rfl | rfl
    all_goals exact cleanField_fmtInt _
  · unfold dbBodyMax
    omega

section Reads

variable {c : Chatter} {t t' : Work}

def Tables.ownersOf (T : Tables) (eid : Id) (cert : CertName) : List OwnerRow :=
  T.owner.filter fun r => r.electionId = quoted eid.val ∧ r.certName = quoted cert.val

def Tables.ballotsOf (T : Tables) (eid : Id) (hash : Hash) : List BallotRow :=
  T.ballot.filter fun r => r.electionId = quoted eid.val ∧ r.hash = quoted hash.val

/-- The rows of an election that count. -/
def Tables.liveOf (T : Tables) (eid : Id) : List BallotRow :=
  T.ballot.filter fun r => r.electionId = quoted eid.val ∧ r.superseded = 0

variable {eid : Id} {cert : CertName} {found : BbDbResult}

theorem ideal_getPriorBallot
    (hrun : run (idealHandle c) (runOp (.getPriorBallot eid cert)) t = (.ok found, t')) :
    ∃ body, ownReply bodyMax (done c t.clock (.selectOwner eid cert) t.tables none
        (t.tables.query (.selectOwner eid cert))) = (.ok, body) ∧
      readPrior body =
        .ok (if found.found then some (found.row.hash, found.row.version) else none) := by
  obtain ⟨body, t₁, h₁, h₂⟩ := run_bind_ok hrun
  obtain ⟨-, hw, hreply⟩ := ideal_execStmt_ok h₁
  refine ⟨body, hreply, ?_⟩
  cases hp : readPrior body with
  | error e =>
    rw [hp] at h₂
    cases h₂
  | ok prior =>
    rw [hp] at h₂
    cases prior with
    | none | some p =>
      cases h₂
      rfl

theorem prior_none
    (hrun : run (idealHandle c) (runOp (.getPriorBallot eid cert)) t = (.ok found, t'))
    (hrows : t.tables.ownersOf eid cert = []) : found.found = false := by
  obtain ⟨body, hreply, hread⟩ := ideal_getPriorBallot hrun
  have hq : t.tables.query (.selectOwner eid cert) =
      some ((t.tables.ownersOf eid cert).map fun r => [r.hash, fmtInt r.version]) := rfl
  rw [hq, hrows] at hreply
  obtain ⟨hcount, -⟩ := select_tidy_reply (by simp) (by decide) (by decide) hreply
  simp only [readPrior, hcount, map_nil, length_nil] at hread
  by_contra hf
  simp [hf] at hread

variable {hash : Hash}

theorem prior_some {r : OwnerRow}
    (hrun : run (idealHandle c) (runOp (.getPriorBallot eid cert)) t = (.ok found, t'))
    (hrows : t.tables.ownersOf eid cert = [r]) (hr : r.hash = quoted hash.val) (hh : IsHash hash)
    (hv : IsCount r.version) :
    found.found = true ∧ found.row.hash = hash ∧ found.row.version = r.version := by
  obtain ⟨body, hreply, hread⟩ := ideal_getPriorBallot hrun
  have hq : t.tables.query (.selectOwner eid cert) =
      some ((t.tables.ownersOf eid cert).map fun r => [r.hash, fmtInt r.version]) := rfl
  rw [hq, hrows, map_singleton, hr] at hreply
  obtain ⟨htidy, hlen⟩ := tidyRow_owner hh hv
  obtain ⟨hcount, hfields⟩ := select_tidy_reply (by simpa using htidy)
    (by simp only [rowsSize, map_singleton, sum_singleton, bodyMax]; omega)
    (by decide) hreply
  simp only [readPrior, hcount, length_singleton, hfields, List.getElem?_cons_zero,
    hh.copy_quoted, fieldInt_fmtInt hv.isInt32] at hread
  by_cases hf : found.found = true
  · simpa [hf, Prod.ext_iff, eq_comm] using hread
  · simp [hf] at hread

variable {T : Tables} {opt ver : Int}

/-- Superseding reads one of the rows with the hash, however many there are. -/
theorem markRead_mem (hread : MarkRead c T eid hash opt ver)
    (hrows : ∀ r ∈ T.ballotsOf eid hash, IsCount r.optionIndex ∧ IsCount r.version) :
    ∃ r ∈ T.ballotsOf eid hash, opt = r.optionIndex ∧ ver = r.version := by
  obtain ⟨n, body, o, v, hreply, hm, hopt, hver⟩ := hread
  have htidy : ∀ r ∈ (T.ballotsOf eid hash).map (fun r => [fmtInt r.optionIndex, fmtInt r.version]),
      TidyRow r := by
    intro r hr
    obtain ⟨x, hx, rfl⟩ := mem_map.mp hr
    exact (tidyRow_marked (hrows x hx).1 (hrows x hx).2).1
  have hraw : ∀ r ∈ (T.ballotsOf eid hash).map (fun r => [fmtInt r.optionIndex, fmtInt r.version]),
      RawLine (join tab r) := fun r hr => (htidy r hr).text.toRawLine
  cases hcount : dbRowCount body with
  | none => simp [readMarked, hcount] at hm
  | some k =>
    cases k with
    | zero => simp [readMarked, hcount] at hm
    | succ k =>
      obtain ⟨hk, hfields⟩ := select_raw hraw hreply hcount
      rw [length_map] at hk
      obtain ⟨r, rs, hcons⟩ := exists_cons_of_length_pos (Nat.lt_of_lt_of_le k.succ_pos hk)
      have hmem : r ∈ T.ballotsOf eid hash := by simp [hcons]
      obtain ⟨ho, hv⟩ := hrows r hmem
      have hrow := htidy _ (mem_map_of_mem hmem)
      have h0 : dbRowFields body 0 = some [fmtInt r.optionIndex, fmtInt r.version] := by
        rw [hfields 0 k.succ_pos, hcons, map_cons, List.getElem?_cons_zero, Option.map_some,
          split_join hrow.ne hrow.noTab]
      simp only [readMarked, hcount, h0, copy_fmtInt ho.isInt32, copy_fmtInt hv.isInt32,
        Option.some.injEq, Prod.mk.injEq] at hm
      obtain ⟨rfl, rfl⟩ := hm
      exact ⟨r, hmem, (readInt_fmtInt_some hopt).1, (readInt_fmtInt_some hver).1⟩

theorem markRead_single {r : BallotRow} (hread : MarkRead c T eid hash opt ver)
    (hrows : T.ballotsOf eid hash = [r]) (ho : IsCount r.optionIndex) (hv : IsCount r.version) :
    opt = r.optionIndex ∧ ver = r.version := by
  obtain ⟨r', hr', h⟩ := markRead_mem hread (by simpa [hrows] using ⟨ho, hv⟩)
  rw [hrows, mem_singleton] at hr'
  exact hr' ▸ h

/-! ## Tally and hash list -/

variable {α β : Type} {L : List α}

theorem foldl_range_eq {f : β → Nat → β} {g : β → α → β}
    (h : ∀ i x b, L[i]? = some x → f b i = g b x) (b : β) :
    (List.range L.length).foldl f b = L.foldl g b := by
  induction L using List.reverseRecOn generalizing b with
  | nil => rfl
  | append_singleton L x ih =>
    have h' : ∀ i y b, L[i]? = some y → f b i = g b y := by
      intro i y b hy
      refine h i y b ?_
      rw [List.getElem?_append_left (List.getElem?_eq_some_iff.mp hy).1, hy]
    rw [length_append, length_singleton, range_succ, foldl_append, ih h' b,
      foldl_append, foldl_cons, foldl_nil, foldl_cons, foldl_nil]
    exact h _ _ _ (by simp)

theorem filterMap_range_eq {f : Nat → Option β} {g : α → β}
    (h : ∀ i x, L[i]? = some x → f i = some (g x)) :
    (List.range L.length).filterMap f = L.map g := by
  induction L using List.reverseRecOn with
  | nil => rfl
  | append_singleton L x ih =>
    have h' : ∀ i y, L[i]? = some y → f i = some (g y) := by
      intro i y hy
      refine h i y ?_
      rw [List.getElem?_append_left (List.getElem?_eq_some_iff.mp hy).1, hy]
    rw [length_append, length_singleton, range_succ, filterMap_append, ih h',
      map_append, map_singleton]
    congr 1
    exact filterMap_cons_some (h _ _ (by simp))

theorem foldl_count {L : List BallotRow} (acc : Fin bbMaxOptions → Nat) (i : Fin bbMaxOptions) :
    (L.foldl (fun (a : Fin bbMaxOptions → Nat) r =>
      fun j => if (j : Int) = r.optionIndex then a j + 1 else a j) acc) i =
      acc i + L.countP fun r => r.optionIndex = (i : Int) := by
  induction L generalizing acc with
  | nil => simp
  | cons r L ih =>
    rw [foldl_cons, ih, countP_cons]
    by_cases hi : r.optionIndex = (i : Int)
    · simp [hi]
      omega
    · simp [hi, Ne.symm hi]

theorem tidyRow_option {o : Int} (ho : IsCount o) :
    TidyRow [fmtInt o] ∧ (join tab [fmtInt o]).length + 1 ≤ 12 := by
  have h1 : (join tab [fmtInt o]).length ≤ 11 := length_fmtInt_le ho.isInt32
  refine ⟨tidyRow_of_clean (plainHead_fmtInt o) ?_ ?_, by omega⟩
  · intro g hg
    rw [mem_singleton.mp hg]
    exact cleanField_fmtInt o
  · unfold dbBodyMax
    omega

theorem tidy_map {f : α → List Bytes} {k : Nat}
    (h : ∀ r ∈ L, TidyRow (f r) ∧ (join tab (f r)).length + 1 ≤ k) (hk : L.length * k ≤ 14000) :
    (∀ r ∈ L.map f, TidyRow r) ∧ rowsSize (L.map f) + 2200 ≤ bodyMax := by
  have hall : ∀ r ∈ L.map f, TidyRow r ∧ (join tab r).length + 1 ≤ k := by
    intro r hr
    obtain ⟨x, hx, rfl⟩ := mem_map.mp hr
    exact h x hx
  have hsize := rowsSize_le fun r hr => (hall r hr).2
  rw [length_map] at hsize
  refine ⟨fun r hr => (hall r hr).1, ?_⟩
  unfold bodyMax
  omega

/-- The tally is the count of the live rows, option by option, while they fit
into a reply. A thousand rows do. -/
theorem tally_eq {out : BbDbResult}
    (hrun : run (idealHandle c) (runOp (.getTally eid)) t = (.ok out, t'))
    (hopt : ∀ r ∈ t.tables.liveOf eid, IsCount r.optionIndex)
    (hfew : (t.tables.liveOf eid).length ≤ 1000) (i : Fin bbMaxOptions) :
    out.tally i = (t.tables.liveOf eid).countP fun r => r.optionIndex = (i : Int) := by
  obtain ⟨body, t₁, h₁, h₂⟩ := run_bind_ok hrun
  cases h₂
  obtain ⟨-, hw, hreply⟩ := ideal_execStmt_ok h₁
  obtain ⟨htidy, hsize⟩ := tidy_map (fun r hr => tidyRow_option (hopt r hr)) (k := 12)
    (L := t.tables.liveOf eid) (by omega)
  obtain ⟨hcount, hfields⟩ := select_tidy_reply htidy hsize (by decide) hreply
  show readTally body i = _
  rw [readTally, hcount, Option.getD_some, length_map,
    foldl_range_eq (g := fun (a : Fin bbMaxOptions → Nat) (r : BallotRow) =>
      fun j => if (j : Int) = r.optionIndex then a j + 1 else a j), foldl_count, Nat.zero_add]
  intro k r a hk
  have hr := hopt r (mem_of_getElem? hk)
  simp only [countOption, hfields, List.getElem?_map, hk, Option.map_some,
    fieldInt_fmtInt hr.isInt32]

/-! ## Reading an election -/

variable {res : BbDbResult}

theorem ideal_getElection
    (hrun : run (idealHandle c) (runOp (.getElection eid)) t = (.ok res, t')) :
    ∃ body, ownReply bodyMax (done c t.clock (.selectElection eid) t.tables none
        (t.tables.query (.selectElection eid))) = (.ok, body) ∧
      ((readElection body = .ok none ∧ res = {}) ∨
        ∃ e b₁ b₂ n₁ n₂, readElection body = .ok (some e) ∧
          ownReply bodyMax (done c n₁ (.selectOptions eid) t.tables none
            (t.tables.query (.selectOptions eid))) = (.ok, b₁) ∧
          ownReply bodyMax (done c n₂ (.selectEligible eid) t.tables none
            (t.tables.query (.selectEligible eid))) = (.ok, b₂) ∧
          res = { found := true, election := readEligible b₂ (readOptions b₁ e) }) := by
  obtain ⟨body, t₁, h₁, h₂⟩ := run_bind_ok hrun
  obtain ⟨-, hw₁, hreply⟩ := ideal_execStmt_ok h₁
  have ht₁ : t₁.tables = t.tables := (Option.some.inj hw₁).symm
  refine ⟨body, hreply, ?_⟩
  cases he : readElection body with
  | error e =>
    rw [he] at h₂
    cases h₂
  | ok e =>
    rw [he] at h₂
    cases e with
    | none =>
      cases h₂
      exact .inl ⟨rfl, rfl⟩
    | some e =>
      obtain ⟨b₁, t₂, h₃, h₄⟩ := run_bind_ok h₂
      obtain ⟨b₂, t₃, h₅, h₆⟩ := run_bind_ok h₄
      cases h₆
      obtain ⟨-, hw₂, hreply₂⟩ := ideal_execStmt_ok h₃
      have ht₂ : t₂.tables = t₁.tables := (Option.some.inj hw₂).symm
      obtain ⟨-, hw₃, hreply₃⟩ := ideal_execStmt_ok h₅
      have ht₃ : t'.tables = t₂.tables := (Option.some.inj hw₃).symm
      rw [ht₂, ht₁] at hreply₂
      rw [ht₃, ht₂, ht₁] at hreply₃
      exact .inr ⟨e, b₁, b₂, _, _, rfl, hreply₂, hreply₃, rfl⟩

/-- The names that can be read as eligible: the first `BB_MAX_VOTERS` rows. -/
def Tables.roll (T : Tables) (eid : Id) : List CertName :=
  ((T.eligible.filter (·.electionId = quoted eid.val)).take bbMaxVoters).map fun r =>
    CStr.copy _ r.certName

/-- The names of the eligible table are clean. -/
def CleanRoll (T : Tables) : Prop :=
  ∀ r ∈ T.eligible, CleanField r.certName ∧ r.certName.length < dbBodyMax

theorem mem_readEligible {n : Nat} {body : Bytes} {e : BbElection} (hclean : CleanRoll T)
    (hreply : ownReply bodyMax (done c n (.selectEligible eid) T none
      (T.query (.selectEligible eid))) = (.ok, body)) {name : CertName}
    (hname : name ∈ (readEligible body e).eligible) : name ∈ T.roll eid := by
  obtain ⟨i, hi, hname⟩ := mem_map.mp hname
  rw [mem_range] at hi
  cases hcount : dbRowCount body with
  | none => simp [hcount] at hi
  | some k =>
    rw [hcount, Option.getD_some] at hi
    have hraw : ∀ r ∈ (T.eligible.filter (·.electionId = quoted eid.val)).map
        (fun r => [r.certName]), RawLine (join tab r) := by
      intro r hr
      obtain ⟨x, hx, rfl⟩ := mem_map.mp hr
      obtain ⟨hf, hlen⟩ := hclean x (mem_of_mem_filter hx)
      exact rawLine_join (by simpa using hf) hlen
    obtain ⟨hk, hfields⟩ := select_raw hraw hreply hcount
    rw [length_map] at hk
    obtain ⟨r, hr⟩ : ∃ r, (T.eligible.filter (·.electionId = quoted eid.val))[i]? = some r :=
      ⟨_, List.getElem?_eq_getElem (by omega)⟩
    have htab := (hclean r (mem_of_mem_filter (mem_of_getElem? hr))).1.noTab
    rw [hfields i (by omega), List.getElem?_map, hr, Option.map_some, Option.map_some, join,
      split_piece htab] at hname
    rw [← hname]
    refine mem_map_of_mem (mem_of_getElem? (i := i) ?_)
    rw [List.getElem?_take_of_lt (by omega), hr]

/-- A ballot that is admitted comes from a voter on the roll and chooses one
of at most `BB_MAX_OPTIONS` options. -/
theorem admitted_roll {b : BbBallot} (hclean : CleanRoll t.tables)
    (hrun : run (idealHandle c) (runOp (.getElection eid)) t = (.ok res, t'))
    (hfound : res.found = true) (hadm : Admitted res.election b) :
    b.certName ∈ t.tables.roll eid ∧ 0 ≤ b.option ∧ b.option < bbMaxOptions := by
  obtain ⟨body, -, ⟨-, rfl⟩ | ⟨e, b₁, b₂, n₁, n₂, -, -, hreply, rfl⟩⟩ := ideal_getElection hrun
  · cases hfound
  · refine ⟨?_, hadm.option_nonneg, ?_⟩
    · obtain ⟨name, hname, heq⟩ := any_eq_true.mp hadm.eligible
      have : name = b.certName := CStr.ext (by simpa using heq)
      exact this ▸ mem_readEligible hclean hreply hname
    · refine lt_of_lt_of_le hadm.option_lt ?_
      exact_mod_cast Nat.min_le_right _ _

end Reads

end Corestack.Brain
