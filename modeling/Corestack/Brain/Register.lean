import Corestack.Brain.Lookup

/-!
# What is read of an election

The rows of an election start with a number or a hash, so they print as
tidy lines and are read back as they are stored. The results of an election
are then a function of its row, its options and the ballot rows that count.
-/

namespace Corestack.Brain

open List Lib Db

def Tables.electionOf (T : Tables) (eid : Id) : List ElectionRow :=
  T.election.filter (·.id = quoted eid.val)

def Tables.optionsOf (T : Tables) (eid : Id) : List OptionRow :=
  T.option.filter (·.electionId = quoted eid.val)

/-! ## Rows as the seam writes them -/

/-- A text field of at most `k` bytes that prints as it is stored. -/
structure TextField (k : Nat) (f : Bytes) : Prop extends CleanField f where
  short : f.length ≤ k

theorem textField_quoted {n : Nat} {s : CStr n} (htab : tab ∉ s.val) (hlf : lf ∉ s.val) :
    TextField (2 * n) (quoted s.val) := by
  have h1 := length_quoted_le s.val
  have h2 := s.fits
  exact ⟨cleanField_quoted htab hlf, by omega⟩

/-- An election row with the state `st`. -/
structure Filed (r : ElectionRow) (st : BbState) : Prop where
  seq : IsCount r.seq
  id : TextField (2 * bbIdLen) r.id
  title : TextField (2 * bbTitleLen) r.title
  state : r.state = bbStateStr st
  openTime : TextField (2 * bbTimeLen) r.openTime
  closeTime : TextField (2 * bbTimeLen) r.closeTime

structure FiledOption (r : OptionRow) : Prop where
  idx : IsCount r.idx
  name : TextField (2 * bbOptionLen) r.name

/-- A ballot row as it is listed. -/
structure FiledBallot (r : BallotRow) : Prop where
  hash : ∃ hash : Hash, r.hash = quoted hash.val ∧ IsHash hash
  option : IsCount r.optionIndex
  version : IsCount r.version
  superseded : IsCount r.superseded

theorem textField_stateStr (st : BbState) : TextField 9 (bbStateStr st) := by
  cases st <;>
    exact ⟨⟨by decide +kernel, by decide +kernel, by decide +kernel⟩, by decide +kernel⟩

variable {r : ElectionRow} {st : BbState}

theorem tidyRow_election (h : Filed r st) :
    TidyRow [fmtInt r.seq, r.id, r.title, r.state, r.openTime, r.closeTime] ∧
      (join tab [fmtInt r.seq, r.id, r.title, r.state, r.openTime, r.closeTime]).length + 1 ≤
        400 := by
  have hstate := textField_stateStr st
  rw [← h.state] at hstate
  have h0 := length_fmtInt_le h.seq.isInt32
  have h1 : r.id.length ≤ 2 * 16 := h.id.short
  have h2 : r.title.length ≤ 2 * 64 := h.title.short
  have h3 := hstate.short
  have h4 : r.openTime.length ≤ 2 * 32 := h.openTime.short
  have h5 : r.closeTime.length ≤ 2 * 32 := h.closeTime.short
  have hlen : (join tab [fmtInt r.seq, r.id, r.title, r.state, r.openTime, r.closeTime]).length
      ≤ 399 := by
    simp only [join, length_append, length_cons]
    omega
  refine ⟨tidyRow_of_clean (plainHead_fmtInt _) ?_ (lt_of_le_of_lt hlen (by decide)), by omega⟩
  intro g hg
  simp only [mem_cons, not_mem_nil, or_false] at hg
  rcases hg with rfl | rfl | rfl | rfl | rfl | rfl
  · exact cleanField_fmtInt _
  · exact h.id.toCleanField
  · exact h.title.toCleanField
  · exact hstate.toCleanField
  · exact h.openTime.toCleanField
  · exact h.closeTime.toCleanField

theorem tidyRow_carried (h : Filed r st) :
    TidyRow [fmtInt r.seq, r.title, r.openTime, r.closeTime] ∧
      (join tab [fmtInt r.seq, r.title, r.openTime, r.closeTime]).length + 1 ≤ 400 := by
  have h0 := length_fmtInt_le h.seq.isInt32
  have h2 : r.title.length ≤ 2 * 64 := h.title.short
  have h4 : r.openTime.length ≤ 2 * 32 := h.openTime.short
  have h5 : r.closeTime.length ≤ 2 * 32 := h.closeTime.short
  have hlen : (join tab [fmtInt r.seq, r.title, r.openTime, r.closeTime]).length ≤ 399 := by
    simp only [join, length_append, length_cons]
    omega
  refine ⟨tidyRow_of_clean (plainHead_fmtInt _) ?_ (lt_of_le_of_lt hlen (by decide)), by omega⟩
  intro g hg
  simp only [mem_cons, not_mem_nil, or_false] at hg
  rcases hg with rfl | rfl | rfl | rfl
  · exact cleanField_fmtInt _
  · exact h.title.toCleanField
  · exact h.openTime.toCleanField
  · exact h.closeTime.toCleanField

theorem tidyRow_placed {r : OptionRow} (h : FiledOption r) :
    TidyRow [fmtInt r.idx, r.name] ∧ (join tab [fmtInt r.idx, r.name]).length + 1 ≤ 77 := by
  have h0 := length_fmtInt_le h.idx.isInt32
  have h1 : r.name.length ≤ 2 * 32 := h.name.short
  have hlen := length_join_two (fmtInt r.idx) r.name
  refine ⟨tidyRow_of_clean (plainHead_fmtInt _) ?_ ?_, by omega⟩
  · intro g hg
    simp only [mem_cons, not_mem_nil, or_false] at hg
    rcases hg with rfl | rfl
    · exact cleanField_fmtInt _
    · exact h.name.toCleanField
  · unfold dbBodyMax
    omega

theorem tidyRow_listed {r : BallotRow} (h : FiledBallot r) :
    TidyRow [r.hash, fmtInt r.optionIndex, fmtInt r.version, fmtInt r.superseded] ∧
      (join tab [r.hash, fmtInt r.optionIndex, fmtInt r.version, fmtInt r.superseded]).length + 1
        ≤ 101 := by
  obtain ⟨hash, hr, hh⟩ := h.hash
  have h0 := hh.length_quoted
  have h1 := length_fmtInt_le h.option.isInt32
  have h2 := length_fmtInt_le h.version.isInt32
  have h3 := length_fmtInt_le h.superseded.isInt32
  rw [hr]
  have hlen : (join tab [quoted hash.val, fmtInt r.optionIndex, fmtInt r.version,
      fmtInt r.superseded]).length ≤ 100 := by
    simp only [join, length_append, length_cons]
    omega
  refine ⟨tidyRow_of_clean hh.plainHead ?_ (lt_of_le_of_lt hlen (by decide)), by omega⟩
  intro g hg
  simp only [mem_cons, not_mem_nil, or_false] at hg
  rcases hg with rfl | rfl | rfl | rfl
  · exact hh.cleanField
  all_goals exact cleanField_fmtInt _

/-! ## Reading the election -/

section Reads

variable {c : Chatter} {t t' : Work}

/-- The options as the rows place them. -/
def placed (rows : List OptionRow) : Fin bbMaxOptions → OptionName :=
  rows.foldl (fun opts r => fun j => if (j : Int) = r.idx then CStr.copy _ r.name else opts j)
    fun _ => default

theorem parseState_stateStr (st : BbState) :
    parseState (CStr.copy 16 (bbStateStr st)).val = some st := by
  cases st <;> decide +kernel

variable {T : Tables} {eid : Id} {n : Nat} {r : ElectionRow} {st : BbState}

theorem readElection_filed {body : Bytes}
    (hreply : ownReply bodyMax (done c n (.selectElection eid) T none
      (T.query (.selectElection eid))) = (.ok, body)) (hrows : T.electionOf eid = [r])
    (hr : Filed r st) :
    readElection body = .ok (some { (default : BbElection) with
      id := CStr.copy _ r.id, title := CStr.copy _ r.title, state := st,
      openTime := CStr.copy _ r.openTime, closeTime := CStr.copy _ r.closeTime }) := by
  have hq : T.query (.selectElection eid) = some ((T.electionOf eid).map fun r =>
      [fmtInt r.seq, r.id, r.title, r.state, r.openTime, r.closeTime]) := rfl
  rw [hq, hrows] at hreply
  obtain ⟨htidy, hsize⟩ := tidy_map (L := [r]) (k := 400)
    (fun x hx => mem_singleton.mp hx ▸ tidyRow_election hr) (by simp)
  obtain ⟨hcount, hfields⟩ := select_tidy_reply htidy hsize (by decide) hreply
  simp only [readElection, hcount, hfields, map_cons, map_nil, length_singleton,
    List.getElem?_cons_zero, hr.state, parseState_stateStr]

theorem readElection_none {body : Bytes}
    (hreply : ownReply bodyMax (done c n (.selectElection eid) T none
      (T.query (.selectElection eid))) = (.ok, body)) (hrows : T.electionOf eid = []) :
    readElection body = .ok none := by
  have hq : T.query (.selectElection eid) = some ((T.electionOf eid).map fun r =>
      [fmtInt r.seq, r.id, r.title, r.state, r.openTime, r.closeTime]) := rfl
  rw [hq, hrows] at hreply
  obtain ⟨hcount, -⟩ := select_tidy_reply (by simp) (by decide) (by decide) hreply
  simp only [readElection, hcount, map_nil, length_nil]

theorem readOptions_filed {body : Bytes} {e : BbElection}
    (hreply : ownReply bodyMax (done c n (.selectOptions eid) T none
      (T.query (.selectOptions eid))) = (.ok, body)) (hrows : ∀ r ∈ T.optionsOf eid, FiledOption r)
    (hfew : (T.optionsOf eid).length ≤ bbMaxOptions) (he : e.options = fun _ => default) :
    readOptions body e = { e with options := placed (T.optionsOf eid),
                                  optionCount := (T.optionsOf eid).length } := by
  have hfew' : (T.optionsOf eid).length ≤ 16 := hfew
  obtain ⟨htidy, hsize⟩ := tidy_map (fun r hr => tidyRow_placed (hrows r hr)) (k := 77)
    (L := T.optionsOf eid) (by omega)
  obtain ⟨hcount, hfields⟩ := select_tidy_reply htidy hsize (by decide) hreply
  have hfold : (List.range (T.optionsOf eid).length).foldl (placeOption body) e.options =
      placed (T.optionsOf eid) := by
    rw [he, placed]
    refine foldl_range_eq (fun i r opts hi => ?_) _
    have hr := hrows r (mem_of_getElem? hi)
    simp only [placeOption, hfields, List.getElem?_map, hi, Option.map_some,
      fieldInt_fmtInt hr.idx.isInt32]
  simp only [readOptions, hcount, Option.getD_some, length_map, hfold, Nat.min_eq_left hfew]

/-- What is read of an election that has one row. -/
structure ReadAs (T : Tables) (eid : Id) (r : ElectionRow) (st : BbState) (res : BbDbResult) :
    Prop where
  found : res.found = true
  state : res.election.state = st
  title : res.election.title = CStr.copy _ r.title
  optionCount : res.election.optionCount = (T.optionsOf eid).length
  options : res.election.options = placed (T.optionsOf eid)

variable {res : BbDbResult}

theorem getElection_filed
    (hrun : Prog.run (idealHandle c) (runOp (.getElection eid)) t = (.ok res, t'))
    (hrow : t.tables.electionOf eid = [r]) (hr : Filed r st)
    (hopts : ∀ o ∈ t.tables.optionsOf eid, FiledOption o)
    (hfew : (t.tables.optionsOf eid).length ≤ bbMaxOptions) : ReadAs t.tables eid r st res := by
  obtain ⟨body, hreply, ⟨hread, -⟩ | ⟨e, b₁, b₂, n₁, n₂, hread, hreply₁, -, rfl⟩⟩ :=
    ideal_getElection hrun
  · rw [readElection_filed hreply hrow hr] at hread
    cases hread
  · rw [readElection_filed hreply hrow hr] at hread
    cases hread
    rw [readOptions_filed hreply₁ hopts hfew rfl]
    exact ⟨rfl, rfl, rfl, rfl, rfl⟩

theorem getElection_found
    (hrun : Prog.run (idealHandle c) (runOp (.getElection eid)) t = (.ok res, t'))
    (hrow : t.tables.electionOf eid = [r]) (hr : Filed r st) : res.found = true := by
  obtain ⟨body, hreply, ⟨hread, -⟩ | ⟨e, b₁, b₂, n₁, n₂, -, -, -, rfl⟩⟩ := ideal_getElection hrun
  · rw [readElection_filed hreply hrow hr] at hread
    cases hread
  · rfl

theorem getElection_none
    (hrun : Prog.run (idealHandle c) (runOp (.getElection eid)) t = (.ok res, t'))
    (hrow : t.tables.electionOf eid = []) : res.found = false := by
  obtain ⟨body, hreply, ⟨-, rfl⟩ | ⟨e, b₁, b₂, n₁, n₂, hread, -⟩⟩ := ideal_getElection hrun
  · rfl
  · rw [readElection_none hreply hrow] at hread
    cases hread

theorem readCarried_filed {body : Bytes}
    (hreply : ownReply bodyMax (done c n (.selectCarried eid) T none
      (T.query (.selectCarried eid))) = (.ok, body)) (hrows : T.electionOf eid = [r])
    (hr : Filed r st) :
    readCarried body = some (fmtInt r.seq, CStr.copy _ r.title, CStr.copy _ r.openTime,
      CStr.copy _ r.closeTime) := by
  have hq : T.query (.selectCarried eid) = some ((T.electionOf eid).map fun r =>
      [fmtInt r.seq, r.title, r.openTime, r.closeTime]) := rfl
  rw [hq, hrows] at hreply
  obtain ⟨htidy, hsize⟩ := tidy_map (L := [r]) (k := 400)
    (fun x hx => mem_singleton.mp hx ▸ tidyRow_carried hr) (by simp)
  obtain ⟨hcount, hfields⟩ := select_tidy_reply htidy hsize (by decide) hreply
  simp only [readCarried, hcount, hfields, map_cons, map_nil, length_singleton,
    List.getElem?_cons_zero, copy_fmtInt hr.seq.isInt32]

/-! ## The hash list and the results -/

/-- A ballot row in the hash list. -/
def BallotRow.listed (r : BallotRow) : BbBallotHash :=
  ⟨CStr.copy _ r.hash, r.optionIndex, r.version, r.superseded⟩

/-- The hash list is the list of the live rows, in the order of the table,
while they fit into the array of the result. -/
theorem hashes_eq {out : BbDbResult}
    (hrun : Prog.run (idealHandle c) (runOp (.getHashes eid)) t = (.ok out, t'))
    (hlive : ∀ r ∈ t.tables.liveOf eid, FiledBallot r)
    (hfew : (t.tables.liveOf eid).length ≤ bbMaxVoters) :
    out.hashes = (t.tables.liveOf eid).map BallotRow.listed := by
  obtain ⟨body, t₁, h₁, h₂⟩ := Prog.run_bind_ok hrun
  cases h₂
  obtain ⟨-, hw, hreply⟩ := ideal_execStmt_ok h₁
  have hfew' : (t.tables.liveOf eid).length ≤ 64 := hfew
  obtain ⟨htidy, hsize⟩ := tidy_map (fun r hr => tidyRow_listed (hlive r hr)) (k := 101)
    (L := t.tables.liveOf eid) (by omega)
  obtain ⟨hcount, hfields⟩ := select_tidy_reply htidy hsize (by decide) hreply
  rw [readHashes, hcount, Option.getD_some, length_map,
    filterMap_range_eq (g := BallotRow.listed) (L := t.tables.liveOf eid),
    take_of_length_le (by rw [length_map]; exact hfew)]
  intro i r hi
  have hr := hlive r (mem_of_getElem? hi)
  simp only [readHashRow, hfields, List.getElem?_map, hi, Option.map_some,
    fieldInt_fmtInt hr.option.isInt32, fieldInt_fmtInt hr.version.isInt32,
    fieldInt_fmtInt hr.superseded.isInt32, BallotRow.listed]

/-- The results of an election, from its row and the rows that belong to it. -/
def Tables.resultsOf (T : Tables) (eid : Id) (r : ElectionRow) : BbResults where
  title := CStr.copy _ r.title
  tally := fun i => if i < (T.optionsOf eid).length then
    (T.liveOf eid).countP fun r => r.optionIndex = (i : Int) else 0
  optionCount := (T.optionsOf eid).length
  options := fun i => if i < (T.optionsOf eid).length then placed (T.optionsOf eid) i else default
  hashes := (T.liveOf eid).map BallotRow.listed

end Reads

end Corestack.Brain
