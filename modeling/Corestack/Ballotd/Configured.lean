import Corestack.Ballotd.Returned
import Corestack.Db.Doubled

/-!
# The configuration of an election, stored and read

An election is created, its row is deleted and written anew with each
transition, and it is read back from printed tables. Its texts come back as
they were configured if doubling their quotes leaves them alone, and its
roll if no name on it looks like a line of the reply that is not a row.
-/

namespace Corestack.Ballotd

open Function List Lib Corestack.Core Db Brain Client Prog

/-! ## Options and rolls have their election -/

structure Housed (T : Tables) : Prop where
  option : ∀ r ∈ T.option, T.Has r.electionId
  eligible : ∀ r ∈ T.eligible, T.Has r.electionId

variable {T : Tables}

theorem Housed.mono {T' : Tables} (hT : Housed T) (ho : T'.option = T.option)
    (he : T'.eligible = T.eligible) (hhas : ∀ x, T.Has x → T'.Has x) : Housed T' :=
  ⟨fun r hr => hhas _ (hT.option r (ho ▸ hr)), fun r hr => hhas _ (hT.eligible r (he ▸ hr))⟩

theorem has_created (id : Id) (cfg : BbConfig) : (created T id cfg).Has (quoted id.val) :=
  ⟨draftRow id cfg, mem_append_right _ (mem_singleton_self _), rfl⟩

theorem Housed.created (hT : Housed T) (id : Id) (cfg : BbConfig) : Housed (created T id cfg) := by
  have hhas : ∀ x, T.Has x → (Brain.created T id cfg).Has x := by
    rintro x ⟨e, he, rfl⟩
    exact ⟨e, mem_append_left _ he, rfl⟩
  refine ⟨fun r hr => ?_, fun r hr => ?_⟩
  · rcases mem_append.mp hr with hr | hr
    · exact hhas _ (hT.option r hr)
    · rw [(mem_optionRows hr).1]
      exact has_created id cfg
  · rcases mem_append.mp hr with hr | hr
    · exact hhas _ (hT.eligible r hr)
    · obtain ⟨name, -, rfl⟩ := mem_map.mp hr
      exact has_created id cfg

theorem Housed.moved (hT : Housed T) (eid : Id) (seq : Int) (title : Title) (st : BbState)
    (openTime closeTime : Time) : Housed (moved T eid seq title st openTime closeTime) := by
  refine hT.mono rfl rfl ?_
  rintro x ⟨e, he, rfl⟩
  by_cases heid : e.id = quoted eid.val
  · exact ⟨_, mem_append_right _ (mem_singleton_self _), heid.symm⟩
  · exact ⟨e, mem_append_left _ (mem_filter.mpr ⟨he, by simpa using heid⟩), rfl⟩

theorem lasting_housed : Lasting Housed where
  empty := ⟨by simp [Tables.empty], by simp [Tables.empty]⟩
  create := fun hT _ _ _ => hT.created _ _
  move := fun hT hrun => by
    obtain ⟨_, _, seq, title, openTime, closeTime, -, -, -, -, hT'⟩ := ideal_updateState hrun
    simp only at hT'
    rw [hT']
    exact hT.moved _ _ _ _ _ _
  record := fun hT hstep => hT.mono hstep.option hstep.eligible fun x ⟨e, he, hx⟩ =>
    ⟨e, hstep.election ▸ he, hx⟩

variable {id : Id}

theorem Housed.fresh (hT : Housed T) (hid : T.electionOf id = []) :
    T.optionsOf id = [] ∧ T.eligible.filter (·.electionId = quoted id.val) = [] := by
  have hno : ¬ T.Has (quoted id.val) := by
    rintro ⟨e, he, heq⟩
    have hmem : e ∈ T.electionOf id := mem_filter.mpr ⟨he, by simpa using heq⟩
    rw [hid] at hmem
    cases hmem
  refine ⟨filter_eq_nil_iff.mpr fun r hr heq => hno ?_,
    filter_eq_nil_iff.mpr fun r hr heq => hno ?_⟩
  · exact of_decide_eq_true heq ▸ hT.option r hr
  · exact of_decide_eq_true heq ▸ hT.eligible r hr

theorem Issued.not_found (hT : Issued T) {c : Chatter} {eid : Id} {res : BbDbResult} {n : Nat}
    {t' : Work} (hrun : run (idealHandle c) (runOp (.getElection eid)) ⟨T, n⟩ = (.ok res, t'))
    (hfound : res.found = false) : T.electionOf eid = [] := by
  obtain ⟨body, hreply, ⟨hread, -⟩ | ⟨e, b₁, b₂, n₁, n₂, -, -, -, rfl⟩⟩ := ideal_getElection hrun
  · have hcount : dbRowCount body = some 0 := by
      unfold readElection at hread
      split at hread
      · cases hread
      · assumption
      · split at hread
        · split at hread <;> cases hread
        · cases hread
    have htidy : ∀ x ∈ (T.electionOf eid).map fun r =>
        [fmtInt r.seq, r.id, r.title, r.state, r.openTime, r.closeTime], TidyRow x := by
      intro x hx
      obtain ⟨r, hr, rfl⟩ := mem_map.mp hx
      obtain ⟨st, hfiled⟩ := (hT.election r (mem_of_mem_filter hr)).filed
      exact (tidyRow_election hfiled).1
    obtain ⟨-, -, -, hblank⟩ :=
      select_counted (fun r hr => (htidy r hr).text.toRawLine) hreply hcount
    cases hrows : T.electionOf eid with
    | nil => rfl
    | cons r rs =>
      rw [hrows] at hblank htidy
      exact absurd (hblank _ rfl) (htidy _ (by simp)).notBlank
  · cases hfound

/-! ## What is stored -/

/-- The rows of an election that was configured, in a state, after its row
was written anew `k` times. -/
structure Stored (T : Tables) (id : Id) (cfg : BbConfig) (k : Nat) (st : BbState) : Prop where
  row : ∃ r, T.electionOf id = [r] ∧ Filed r st ∧
    r.title = quoted (doubled^[k] cfg.title).val ∧
    r.openTime = quoted (doubled^[k] cfg.openTime).val ∧
    r.closeTime = quoted (doubled^[k] cfg.closeTime).val
  options : T.optionsOf id = optionRows id 0 cfg.options
  roll : T.eligible.filter (·.electionId = quoted id.val) = eligibleRows id cfg.eligible
  safe : SafeConfig id cfg

variable {cfg : BbConfig}

theorem Housed.stored (hT : Housed T) (hfresh : T.electionOf id = []) (hsafe : SafeConfig id cfg)
    (hseq : IsCount (idSeq id.val)) : Stored (Brain.created T id cfg) id cfg 0 .draft := by
  obtain ⟨hopt, hroll⟩ := hT.fresh hfresh
  refine ⟨⟨draftRow id cfg, ?_, filed_draft hsafe hseq, rfl, rfl, rfl⟩, ?_, ?_, hsafe⟩
  · rw [electionOf_created, hfresh, if_pos rfl, nil_append]
  · rw [optionsOf_created, hopt, if_pos rfl, nil_append]
  · have hall : (eligibleRows id cfg.eligible).filter (·.electionId = quoted id.val) =
        eligibleRows id cfg.eligible := by
      refine filter_eq_self.mpr fun r hr => ?_
      obtain ⟨name, -, rfl⟩ := mem_map.mp hr
      simp
    rw [Brain.created, filter_append, hroll, hall, nil_append]

/-- Every time a text is read its quotes have been doubled once more. -/
theorem copy_iterate {n k : Nat} [NeZero n] {f : Bytes} {s : CStr n}
    (h : f = quoted (doubled^[k] s).val) : CStr.copy n f = doubled^[k + 1] s := by
  rw [h, iterate_succ_apply']
  rfl

theorem Stored.query_roll {k : Nat} {st : BbState} (h : Stored T id cfg k st) :
    T.query (.selectEligible id) = some (cfg.eligible.map fun name => [quoted name.val]) := by
  simp only [Tables.query, h.roll, eligibleRows, map_map]
  rfl

section Moves

variable {T T' : Tables} {c : Chatter} {id eid : Id} {cfg : BbConfig} {k : Nat} {st dst : BbState}
  {out : BbDbResult} {n n' : Nat}

theorem Stored.move_self (h : Stored T id cfg k st)
    (hrun : run (idealHandle c) (runOp (.updateState id dst)) ⟨T, n⟩ = (.ok out, ⟨T', n'⟩)) :
    Stored T' id cfg (k + 1) dst := by
  obtain ⟨body, seqText, seq, title, openTime, closeTime, hreply, hread, hseq, -, hT'⟩ :=
    ideal_updateState hrun
  simp only at hreply hT'
  obtain ⟨r, hrow, hr, htitle, hopen, hclose⟩ := h.row
  rw [readCarried_filed hreply hrow hr] at hread
  cases hread
  have hrseq : seq = r.seq := by
    have h1 := hr.seq.1
    have h2 := hr.seq.2
    rw [readInt_fmtInt, if_pos ⟨h1, h2⟩] at hseq
    exact (Option.some.inj hseq).symm
  subst hrseq
  rw [hT']
  exact ⟨⟨_, electionOf_moved_self .., filed_moved hrow hr dst, by rw [copy_iterate htitle],
    by rw [copy_iterate hopen], by rw [copy_iterate hclose]⟩, h.options, h.roll, h.safe⟩

theorem Stored.move_other (h : Stored T id cfg k st) (hne : id ≠ eid)
    (hrun : run (idealHandle c) (runOp (.updateState eid dst)) ⟨T, n⟩ = (.ok out, ⟨T', n'⟩)) :
    Stored T' id cfg k st := by
  obtain ⟨_, _, seq, title, openTime, closeTime, -, -, -, -, hT'⟩ := ideal_updateState hrun
  simp only at hT'
  obtain ⟨r, hrow, hr⟩ := h.row
  rw [hT']
  refine ⟨⟨r, ?_, hr⟩, h.options, h.roll, h.safe⟩
  rw [electionOf_moved_ne hne, hrow]

end Moves

/-! ## What is read -/

/-- The election as it was configured. -/
structure AsConfigured (cfg : BbConfig) (st : BbState) (e : BbElection) : Prop where
  title : e.title = cfg.title
  state : e.state = st
  openTime : e.openTime = cfg.openTime
  closeTime : e.closeTime = cfg.closeTime
  optionCount : e.optionCount = cfg.options.length
  options : ∀ i : Fin bbMaxOptions, ∀ o ∈ cfg.options[(i : Nat)]?, e.options i = o
  eligible : e.eligible = cfg.eligible

/-- A name that is found as a row of its own in a reply: not blank, no end
line and no error message. -/
structure Listable (name : CertName) : Prop where
  ne : name.val ≠ []
  noMarker : isMarker (quoted name.val) = false
  noError : isErrorLine (quoted name.val) = false

/-- A configuration that comes back as it was. -/
structure Storable (cfg : BbConfig) : Prop where
  title : Unharmed cfg.title
  openTime : Unharmed cfg.openTime
  closeTime : Unharmed cfg.closeTime
  options : ∀ o ∈ cfg.options, Unharmed o
  eligible : ∀ name ∈ cfg.eligible, Unharmed name ∧ Listable name

theorem placed_optionRows (id : Id) :
    ∀ (os : List OptionName) (i : Nat) (opts : Fin bbMaxOptions → OptionName)
      (j : Fin bbMaxOptions),
      (optionRows id i os).foldl (fun opts r => fun j : Fin bbMaxOptions =>
          if (j : Int) = r.idx then CStr.copy _ r.name else opts j) opts j =
        if i ≤ j then ((os[(j : Nat) - i]?).map doubled).getD (opts j) else opts j
  | [], i, opts, j => by simp [optionRows]
  | o :: os, i, opts, j => by
    rw [optionRows, foldl_cons, placed_optionRows id os (i + 1)]
    rcases Nat.lt_trichotomy (j : Nat) i with h | h | h
    · have hne : ¬ (j : Int) = (i : Int) := by omega
      simp only [hne, show ¬ i + 1 ≤ (j : Nat) by omega, show ¬ i ≤ (j : Nat) by omega, if_false]
    · simp only [h, show ¬ i + 1 ≤ i by omega, Nat.le_refl, Nat.sub_self,
        List.getElem?_cons_zero, if_true, if_false]
      rfl
    · have hne : ¬ (j : Int) = (i : Int) := by omega
      obtain ⟨d, hd⟩ : ∃ d, (j : Nat) - i = d + 1 := ⟨(j : Nat) - i - 1, by omega⟩
      simp only [hne, show i + 1 ≤ (j : Nat) by omega, show i ≤ (j : Nat) by omega, hd,
        List.getElem?_cons_succ, show (j : Nat) - (i + 1) = d by omega, if_true, if_false]

section Reads

variable {T : Tables} {c : Chatter} {id : Id} {cfg : BbConfig} {k : Nat} {st : BbState}

variable {name : CertName}

theorem rawLine_name (h : unsafeField name.val = false) : RawLine (join tab [quoted name.val]) := by
  obtain ⟨htab, hlf, -⟩ := unsafeField_eq_false.mp h
  have htext := textField_quoted htab hlf
  have hshort : (quoted name.val).length ≤ 2 * 32 := htext.short
  exact ⟨htext.noLf, htext.noNul, by rw [join]; unfold dbBodyMax; omega⟩

theorem tidyRow_name (h : unsafeField name.val = false) (hl : Listable name) :
    TidyRow [quoted name.val] ∧ (join tab [quoted name.val]).length + 1 ≤ 65 := by
  obtain ⟨htab, hlf, -⟩ := unsafeField_eq_false.mp h
  have htext := textField_quoted htab hlf
  have hshort : (quoted name.val).length ≤ 2 * 32 := htext.short
  refine ⟨⟨by simp, by simpa using htext.noTab, ⟨rawLine_name h, hl.noMarker, hl.noError⟩, ?_⟩, ?_⟩
  · exact fun hnil => hl.ne (quoted_injective hnil)
  · rw [join]
    omega

theorem length_roll_le (cfg : BbConfig) : cfg.eligible.length ≤ 64 := cfg.eligible_le

variable {n : Nat}

/-- The roll comes back as it was configured exactly if every name on it is
found as a row and none has quotes that are doubled. -/
theorem readEligible_iff (h : Stored T id cfg k st) {body : Bytes} (e : BbElection)
    (hreply : ownReply bodyMax (done c n (.selectEligible id) T none
      (T.query (.selectEligible id))) = (.ok, body)) :
    (readEligible body e).eligible = cfg.eligible ↔
      ∀ name ∈ cfg.eligible, Unharmed name ∧ Listable name := by
  rw [h.query_roll] at hreply
  have hlen := length_roll_le cfg
  have hmax : bbMaxVoters = 64 := rfl
  have hraw : ∀ r ∈ cfg.eligible.map fun name => [quoted name.val], RawLine (join tab r) := by
    intro r hr
    obtain ⟨name, hname, rfl⟩ := mem_map.mp hr
    exact rawLine_name (h.safe.eligible name hname)
  -- all names are found: each is read from its own row
  have hfound : dbRowCount body = some cfg.eligible.length →
      (readEligible body e).eligible = cfg.eligible.map doubled := by
    intro hcount
    obtain ⟨-, hfields⟩ := select_raw hraw hreply hcount
    simp only [readEligible, hcount, Option.getD_some, hmax, Nat.min_eq_left hlen]
    refine ext_getElem (by simp) fun i hi hi' => ?_
    rw [length_map] at hi'
    obtain ⟨htab, -, -⟩ := unsafeField_eq_false.mp
      (h.safe.eligible cfg.eligible[i] (getElem_mem hi'))
    have htab' : tab ∉ quoted cfg.eligible[i].val := fun hx => htab (mem_quoted.mp hx)
    simp only [getElem_map, getElem_range, hfields i hi', List.getElem?_map,
      List.getElem?_eq_getElem hi', Option.map_some, join, split_piece htab']
    rfl
  constructor
  · intro heq name hname
    have hall : dbRowCount body = some cfg.eligible.length := by
      have hsame := congrArg List.length heq
      have hpos := length_pos_of_mem hname
      simp only [readEligible, length_map, length_range, hmax] at hsame
      cases hcount : dbRowCount body with
      | none =>
        rw [hcount, Option.getD_none] at hsame
        omega
      | some m =>
        rw [hcount, Option.getD_some] at hsame
        have hle := (select_raw hraw hreply hcount).1
        rw [length_map] at hle
        congr 1
        omega
    obtain ⟨htext, hblank⟩ := select_all hraw (by rw [length_map]; omega) hreply
      (by rw [length_map]; exact hall) _ (mem_map_of_mem hname)
    refine ⟨(doubled_eq_iff name).mp ?_, fun hnil => hblank ?_, htext.noMarker, htext.noError⟩
    · have hmap : cfg.eligible.map doubled = cfg.eligible.map fun x => x := by
        rw [← hfound hall, heq, map_id']
      exact map_inj_left.mp hmap name hname
    · rw [join, hnil]
      rfl
  · intro hnames
    obtain ⟨htidy, hsize⟩ := tidy_map (f := fun name : CertName => [quoted name.val]) (k := 65)
      (fun name hname => tidyRow_name (h.safe.eligible name hname) (hnames name hname).2)
      (L := cfg.eligible) (by omega)
    obtain ⟨hcount, -⟩ := select_tidy_reply htidy hsize (by decide) hreply
    rw [length_map] at hcount
    rw [hfound hcount]
    refine (map_congr_left fun name hname => ?_).trans (map_id _)
    exact (doubled_eq_iff name).mpr (hnames name hname).1

theorem length_optionRows (id : Id) (i : Nat) (os : List OptionName) :
    (optionRows id i os).length = os.length := by
  induction os generalizing i with
  | nil => rfl
  | cons o os ih => rw [optionRows, length_cons, ih, length_cons]

/-- What is read of a stored election: it is as configured exactly if the
configuration is storable. -/
theorem Stored.read (h : Stored T id cfg k st) {res : BbDbResult} {t' : Work}
    (hrun : run (idealHandle c) (runOp (.getElection id)) ⟨T, n⟩ = (.ok res, t')) :
    res.found = true ∧ (AsConfigured cfg st res.election ↔ Storable cfg) := by
  obtain ⟨r, hrow, hr, htitle, hopen, hclose⟩ := h.row
  obtain ⟨body, hreply, ⟨hread, -⟩ | ⟨e, b₁, b₂, n₁, n₂, hread, hreply₁, hreply₂, rfl⟩⟩ :=
    ideal_getElection hrun
  · rw [readElection_filed hreply hrow hr] at hread
    cases hread
  · refine ⟨rfl, ?_⟩
    rw [readElection_filed hreply hrow hr] at hread
    cases hread
    have hmax : cfg.options.length ≤ bbMaxOptions := cfg.options_le
    have hlen := length_optionRows id 0 cfg.options
    rw [readOptions_filed hreply₁ (fun o ho => (filed_optionRows h.safe (h.options ▸ ho)).1)
      (by rw [h.options, hlen]; exact hmax) rfl]
    have hroll := fun e => readEligible_iff h e hreply₂
    have htitle' := copy_iterate htitle
    have hopen' := copy_iterate hopen
    have hclose' := copy_iterate hclose
    have hplaced : ∀ (i : Fin bbMaxOptions), ∀ o ∈ cfg.options[(i : Nat)]?,
        placed (T.optionsOf id) i = doubled o := by
      intro i o ho
      rw [h.options, placed, placed_optionRows, if_pos (Nat.zero_le _), Nat.sub_zero, ho]
      rfl
    constructor
    · intro has
      refine ⟨(iterate_doubled_eq_iff _ k).mp (htitle' ▸ has.title),
        (iterate_doubled_eq_iff _ k).mp (hopen' ▸ has.openTime),
        (iterate_doubled_eq_iff _ k).mp (hclose' ▸ has.closeTime), fun o ho => ?_,
        (hroll _).mp has.eligible⟩
      obtain ⟨i, hi, rfl⟩ := mem_iff_getElem.mp ho
      have hget := List.getElem?_eq_getElem hi
      rw [← doubled_eq_iff, ← hplaced ⟨i, by omega⟩ _ hget]
      exact has.options ⟨i, by omega⟩ _ hget
    · intro hs
      refine ⟨htitle'.trans ((iterate_doubled_eq_iff _ k).mpr hs.title), rfl,
        hopen'.trans ((iterate_doubled_eq_iff _ k).mpr hs.openTime),
        hclose'.trans ((iterate_doubled_eq_iff _ k).mpr hs.closeTime), ?_, fun i o ho => ?_,
        (hroll _).mpr hs.eligible⟩
      · show (T.optionsOf id).length = _
        rw [h.options, hlen]
      · show placed (T.optionsOf id) i = o
        rw [hplaced i o ho]
        exact (doubled_eq_iff o).mpr (hs.options o (mem_of_getElem? ho))

end Reads

/-! ## A store that answers -/

/-- From some call on, every statement is carried out and answered. -/
def Answering (env : Env) (n : Nat) : Prop := ∀ m, n ≤ m → env.fate m = .answer

def IsSelect (op : Op) : Prop := ∃ sql cap, op = .exec sql cap ∧ sql.isSelect = true

section Answers

variable {env : Env} {T : Tables} {w : World} {t : Work} {sql : Brain.Stmt} {cap : Nat}

theorem exec_answering (hk : env.keepsUnread = false) (hsel : sql.isSelect = true)
    (hw : InAuto T w t) (hfate : env.fate w.clock = .answer) :
    (exec env sql cap w).1 = (idealExec env.chatter sql cap t).1 ∧
      InAuto T (exec env sql cap w).2 (idealExec env.chatter sql cap t).2 ∧
      w.clock ≤ (exec env sql cap w).2.clock := by
  obtain ⟨hs, rfl, ht, hc⟩ := hw
  have hwr := write_of_isSelect hsel t.tables
  unfold exec idealExec
  simp only [hs]
  split
  · exact ⟨rfl, ⟨hs, rfl, ht, hc⟩, Nat.le_refl _⟩
  · simp only [hfate, readReply_own hk, serve_auto (isData_of_isSelect hsel), ← ht, hwr, ← hc]
    exact ⟨trivial, ⟨rfl, rfl, rfl, rfl⟩, Nat.le_succ _⟩

theorem run_answering {α : Type} (hk : env.keepsUnread = false) {p : BrainM α}
    (hp : p.Quiet IsSelect fun _ => True) (hw : InAuto T w t) (hans : Answering env w.clock) :
    (run (handle env) p w).1 = (run (idealHandle env.chatter) p t).1 := by
  induction p generalizing w t with
  | ret a => rfl
  | fail e => rfl
  | call op k ih =>
    obtain ⟨⟨sql, cap, rfl, hsel⟩, hrest⟩ := hp
    obtain ⟨hreply, hw', hclock⟩ := @exec_answering env T w t sql cap hk hsel hw
      (hans _ (Nat.le_refl _))
    have h := ih (exec env sql cap w).1 (hrest _) hw' fun m hm => hans m (hclock.trans hm)
    simp only [run_call, handle, idealHandle]
    rw [h, hreply]

theorem quiet_execStmt (hsel : sql.isSelect = true) :
    (execStmt sql cap).Quiet IsSelect fun _ => True := by
  refine ⟨⟨sql, cap, rfl, hsel⟩, fun r => ?_⟩
  obtain ⟨st, body⟩ := r
  cases st <;> trivial

theorem quiet_getElection (id : Id) :
    (runOp (.getElection id)).Quiet IsSelect fun _ => True := by
  refine Quiet.bind (quiet_execStmt rfl) fun body _ => ?_
  split
  · trivial
  · trivial
  · exact Quiet.bind (quiet_execStmt rfl) fun _ _ =>
      Quiet.bind (quiet_execStmt rfl) fun _ _ => trivial

theorem dbExec_answering (hk : env.keepsUnread = false) {cmd : BbDbCmd}
    (hcmd : opIsWrite cmd = false) (hquiet : (runOp cmd).Quiet IsSelect fun _ => True)
    (hans : Answering env w.clock) {out : BbDbResult} {t' : Work}
    (hideal : run (idealHandle env.chatter) (runOp cmd) ⟨w.tables, w.clock + 1⟩ =
      (.ok out, t')) :
    ∃ w', run (handle env) (dbExec ⟨false⟩ cmd) w = (.ok out, w') := by
  have hbody : oneShotBody cmd = runOp cmd := if_neg (by rw [hcmd]; decide)
  have hrun := @run_answering env w.tables { w with log := w.log ++ [logCmd cmd] }.connected
    ⟨w.tables, w.clock + 1⟩ _ hk _ hquiet ⟨rfl, rfl, rfl, rfl⟩ fun m hm => hans m (by
      have : w.clock + 1 ≤ m := hm
      omega)
  rw [hideal] at hrun
  have hattempt : ∃ w', run (handle env) (oneShotAttempt cmd)
      { w with log := w.log ++ [logCmd cmd] } = (.ok out, w') := by
    rw [oneShotAttempt, run_dbSocketOpen, if_pos (hans _ (Nat.le_refl _)), if_pos rfl, hbody,
      run_bind_of_ok (run_attempt _ _), hrun]
    exact ⟨_, rfl⟩
  obtain ⟨w', hw'⟩ := hattempt
  refine ⟨w', ?_⟩
  show run (handle env) (oneShot cmd 3) { w with log := w.log ++ [logCmd cmd] } = _
  rw [oneShot, run_bind_attempt hw']
  rfl

theorem ideal_select {c : Chatter} (hsel : sql.isSelect = true) (hb : breaksLine sql.text = false)
    {body : Bytes} (hreply : ownReply cap (done c t.clock sql t.tables none (t.tables.query sql)) =
      (.ok, body)) :
    run (idealHandle c) (execStmt sql cap) t = (.ok body, ⟨t.tables, t.clock + 1⟩) := by
  rw [run_execStmt]
  simp only [idealHandle, idealExec, hb, write_of_isSelect hsel, hreply]
  rfl

end Answers

theorem Stored.readable {T : Tables} {c : Chatter} {id : Id} {cfg : BbConfig} {k : Nat}
    {st : BbState} (h : Stored T id cfg k st) (hs : Storable cfg) (n : Nat) :
    ∃ res t', run (idealHandle c) (runOp (.getElection id)) ⟨T, n⟩ = (.ok res, t') := by
  obtain ⟨r, hrow, hr, -⟩ := h.row
  have hlen := length_roll_le cfg
  have hmax : cfg.options.length ≤ 16 := cfg.options_le
  have hbreaks : breaksLine id.val = false :=
    breaksLine_eq_false.mpr (unsafeField_eq_false.mp h.safe.id).2
  have htext : ∀ sql ∈ [Brain.Stmt.selectElection id, .selectOptions id, .selectEligible id],
      breaksLine sql.text = false := by
    intro sql hsql
    simp only [mem_cons, not_mem_nil, or_false] at hsql
    rcases hsql with rfl | rfl | rfl <;>
    · rw [breaksLine_text]
      simp only [Stmt.breaks, Stmt.pieces, any_cons, any_nil, Piece.breaks, hbreaks,
        Bool.or_false]
  have hq₀ : T.query (.selectElection id) = some ([r].map fun r =>
      [fmtInt r.seq, r.id, r.title, r.state, r.openTime, r.closeTime]) := by
    rw [← hrow]
    rfl
  have hq₁ : T.query (.selectOptions id) =
      some ((optionRows id 0 cfg.options).map fun r => [fmtInt r.idx, r.name]) := by
    rw [← h.options]
    rfl
  obtain ⟨htidy₀, hsize₀⟩ := tidy_map (L := [r]) (k := 400)
    (fun x hx => mem_singleton.mp hx ▸ tidyRow_election hr) (by simp)
  obtain ⟨htidy₁, hsize₁⟩ := tidy_map (L := optionRows id 0 cfg.options) (k := 77)
    (fun o ho => tidyRow_placed (filed_optionRows h.safe ho).1)
    (by rw [length_optionRows]; omega)
  obtain ⟨htidy₂, hsize₂⟩ := tidy_map (f := fun name : CertName => [quoted name.val]) (k := 65)
    (fun name hname => tidyRow_name (h.safe.eligible name hname) (hs.eligible name hname).2)
    (L := cfg.eligible) (by omega)
  obtain ⟨b₀, hreply₀, -⟩ := select_tidy c n (.selectElection id) htidy₀ hsize₀ (by decide) T none
  obtain ⟨b₁, hreply₁, -⟩ :=
    select_tidy c (n + 1) (.selectOptions id) htidy₁ hsize₁ (by decide) T none
  obtain ⟨b₂, hreply₂, -⟩ :=
    select_tidy c (n + 2) (.selectEligible id) htidy₂ hsize₂ (by decide) T none
  rw [← hq₀] at hreply₀
  rw [← hq₁] at hreply₁
  rw [← h.query_roll] at hreply₂
  have h₀ := @ideal_select ⟨T, n⟩ _ _ c rfl (htext _ (by simp)) _ hreply₀
  have h₁ := @ideal_select ⟨T, n + 1⟩ _ _ c rfl (htext _ (by simp)) _ hreply₁
  have h₂ := @ideal_select ⟨T, n + 2⟩ _ _ c rfl (htext _ (by simp)) _ hreply₂
  obtain ⟨e, he⟩ : ∃ e, readElection b₀ = .ok (some e) :=
    ⟨_, readElection_filed hreply₀ hrow hr⟩
  refine ⟨{ found := true, election := readEligible b₂ (readOptions b₁ e) }, ⟨T, n + 3⟩,
    (run_bind_of_ok h₀).trans ?_⟩
  rw [he]
  exact (run_bind_of_ok h₁).trans (run_bind_of_ok h₂)

/-! ## Creation, transitions and back -/

section Lifecycle

variable {env : Env} {w w' : World} {id eid : Id} {cfg : BbConfig} {k : Nat} {st dst : BbState}

theorem transition_ok (hs : w.session = none)
    (hrun : run (handle env) (bbTransitionState ⟨false⟩ eid dst) w = (.ok (), w')) :
    w'.session = none ∧ ∃ out n n',
      run (idealHandle env.chatter) (runOp (.updateState eid dst)) ⟨w.tables, n⟩ =
        (.ok out, ⟨w'.tables, n'⟩) := by
  rw [(alone_transition env eid dst w hs).1] at hrun
  have hk : env.paired.keepsUnread = false := rfl
  obtain ⟨res, w₁, h₁, h₂⟩ := run_bind_ok hrun
  obtain ⟨hs₁, hT₁, -⟩ := dbExec_read hk hs rfl h₁
  split at h₂
  · cases h₂
  · split at h₂
    · obtain ⟨_, _, -, h₃⟩ := run_bind_ok h₂
      cases h₃
    · obtain ⟨out, w₂, h₃, h₄⟩ := run_bind_ok h₂
      cases h₄
      obtain ⟨hs₂, hout⟩ := dbExec_outcome hk hs₁ h₃
      rw [hT₁] at hout
      exact ⟨hs₂, out, hout⟩

/-- Transitions that succeed one after the other. -/
inductive Moves (env : Env) : World → List (Id × BbState) → World → Prop
  | nil (w : World) : Moves env w [] w
  | cons {w w₁ w' : World} {eid : Id} {dst : BbState} {ms : List (Id × BbState)}
      (hrun : run (handle env) (bbTransitionState ⟨false⟩ eid dst) w = (.ok (), w₁))
      (hrest : Moves env w₁ ms w') : Moves env w ((eid, dst) :: ms) w'

/-- The state of an election after transitions. -/
def stateAfter (id : Id) (st : BbState) (ms : List (Id × BbState)) : BbState :=
  ms.foldl (fun st m => if m.1 = id then m.2 else st) st

theorem Stored.moves {ms : List (Id × BbState)} (hm : Moves env w ms w') :
    ∀ {k : Nat} {st : BbState}, w.session = none → Stored w.tables id cfg k st →
      w'.session = none ∧ ∃ k', Stored w'.tables id cfg k' (stateAfter id st ms) := by
  induction hm with
  | nil w => exact fun hs h => ⟨hs, _, h⟩
  | cons hrun hrest ih =>
    rename_i w w₁ w' eid dst ms
    intro k st hs h
    obtain ⟨hs₁, out, n, n', hideal⟩ := transition_ok hs hrun
    by_cases heid : eid = id
    · subst heid
      have hstep : stateAfter eid st ((eid, dst) :: ms) = stateAfter eid dst ms := by
        simp [stateAfter]
      rw [hstep]
      exact ih hs₁ (h.move_self hideal)
    · have hstep : stateAfter id st ((eid, dst) :: ms) = stateAfter id st ms := by
        simp [stateAfter, heid]
      rw [hstep]
      exact ih hs₁ (h.move_other (Ne.symm heid) hideal)

/-- `BB_DB_GET_ELECTION` returns the election as it was configured. -/
def GivesBack (env : Env) (w : World) (id : Id) (cfg : BbConfig) (st : BbState) : Prop :=
  ∃ res w', run (handle env) (dbExec ⟨false⟩ (.getElection id)) w = (.ok res, w') ∧
    res.found = true ∧ AsConfigured cfg st res.election

theorem Stored.givesBack_iff (h : Stored w.tables id cfg k st) (hs : w.session = none)
    (hans : Answering env w.clock) : GivesBack env w id cfg st ↔ Storable cfg := by
  have hpaired := (alone_dbExec env (.getElection id) w hs).1
  constructor
  · rintro ⟨res, w', hrun, -, has⟩
    rw [hpaired] at hrun
    obtain ⟨-, -, hideal⟩ := @dbExec_read env.paired w _ rfl hs _ rfl _ hrun
    obtain ⟨n, n', hread⟩ := hideal res rfl
    exact (h.read hread).2.mp has
  · intro hstore
    obtain ⟨res, t', hread⟩ := @Stored.readable _ env.chatter _ _ _ _ h hstore (w.clock + 1)
    obtain ⟨w', hrun⟩ := @dbExec_answering env.paired w rfl (.getElection id) rfl
      (quiet_getElection id) hans res t' hread
    rw [← hpaired] at hrun
    obtain ⟨hfound, has⟩ := h.read hread
    exact ⟨res, w', hrun, hfound, has.mpr hstore⟩

end Lifecycle

/-- Whatever was requested before: an election is created under an id that
no election has, which is so for every id that was asked for, and any
transitions succeed after that. From a store that answers,
`BB_DB_GET_ELECTION` returns the configuration and the state reached exactly
if the configuration is storable. -/
theorem configuration_survives_iff {env : Env} (reqs : List BclRequest) {desired : Id}
    {w w' : World}
    (hcreate : run (handle env) (bbCreateElection ⟨false⟩ cfg desired)
      (runRequests env reqs).world = (.ok id, w))
    (hnew : desired.val = [] → (tablesAfter env reqs).electionOf id = []) {ms : List (Id × BbState)}
    (hmoves : Moves env w ms w') (hans : Answering env w'.clock) :
    GivesBack env w' id cfg (stateAfter id .draft ms) ↔ Storable cfg := by
  have hs₀ := (runRequests_idle env reqs).session
  have hissued := lasting_issued.run env reqs
  have hhoused := lasting_housed.run env reqs
  rw [(alone_create env cfg desired _ hs₀).1] at hcreate
  obtain ⟨hs, ⟨w₁, hchoose⟩, hsafe, hseq, hT⟩ := @create_ok env.paired _ _ rfl hs₀ _ _ _ hcreate
  have hfresh : (tablesAfter env reqs).electionOf id = [] := by
    obtain ⟨-, -, hid⟩ := @chooseId_outcome env.paired _ _ rfl hs₀ _ _ hchoose
    cases hid id rfl with
    | desired hne hrun hfound => exact hissued.not_found hrun hfound
    | next hne => exact hnew hne
    | fallback hne => exact hnew hne
  have hstored : Stored w.tables id cfg 0 .draft := by
    rw [hT]
    exact hhoused.stored hfresh hsafe hseq
  obtain ⟨hs', k, hstored'⟩ := hstored.moves hmoves hs
  exact hstored'.givesBack_iff hs' hans

def pollStored (cfg : BbConfig) : Except BbErr Id × World :=
  run (handle pollSocketEnv) (bbCreateElection ⟨false⟩ cfg pollId)
    (runRequests pollSocketEnv []).world

/-- The small election is created, opened, closed and read. -/
theorem poll_configuration_survives :
    ∃ w w', pollStored pollConfig = (.ok pollId, w) ∧
      Moves pollSocketEnv w [(pollId, .opened), (pollId, .closed)] w' ∧
      GivesBack pollSocketEnv w' pollId pollConfig .closed := by
  have hfacts : (pollStored pollConfig).1 = .ok pollId ∧
      (run (handle pollSocketEnv) (bbTransitionState ⟨false⟩ pollId .opened)
        (pollStored pollConfig).2).1 = .ok () ∧
      (run (handle pollSocketEnv) (bbTransitionState ⟨false⟩ pollId .closed)
        (run (handle pollSocketEnv) (bbTransitionState ⟨false⟩ pollId .opened)
          (pollStored pollConfig).2).2).1 = .ok () := by decide +kernel
  obtain ⟨hcreate, hopen, hclose⟩ := hfacts
  have hmoves := Moves.cons (Prod.ext hopen rfl) (.cons (Prod.ext hclose rfl) (.nil _))
  refine ⟨_, _, Prod.ext hcreate rfl, hmoves, ?_⟩
  refine (configuration_survives_iff [] (Prod.ext hcreate rfl) (fun h => absurd h (by decide))
    hmoves fun _ _ => rfl).mpr ⟨?_, ?_, ?_, ?_, fun name hname => ?_⟩
  · decide
  · decide
  · decide
  · decide
  · have hall : ∀ name ∈ pollConfig.eligible, Unharmed name ∧ name.val ≠ [] ∧
        isMarker (quoted name.val) = false ∧ isErrorLine (quoted name.val) = false := by
      decide +kernel
    obtain ⟨hun, hne, hmarker, herror⟩ := hall name hname
    exact ⟨hun, hne, hmarker, herror⟩

def annsConfig : BbConfig := { pollConfig with title := CStr.copy _ (bytes "Ann's poll") }

def namelessConfig : BbConfig :=
  { pollConfig with eligible := [CStr.copy _ [], pollAnn], eligible_le := by decide }

/-- Both are accepted. The title comes back with two quotes, and the roll
comes back without a name. -/
theorem configuration_changes :
    ((pollStored annsConfig).1 = .ok pollId ∧
      ¬ GivesBack pollSocketEnv (pollStored annsConfig).2 pollId annsConfig .draft) ∧
    (pollStored namelessConfig).1 = .ok pollId ∧
      ¬ GivesBack pollSocketEnv (pollStored namelessConfig).2 pollId namelessConfig .draft := by
  have hfacts : (pollStored annsConfig).1 = .ok pollId ∧
      (run (handle pollSocketEnv) (dbExec ⟨false⟩ (.getElection pollId))
        (pollStored annsConfig).2).1.toOption.map (·.election.title) =
          some (CStr.copy _ (bytes "Ann''s poll")) ∧
      (pollStored namelessConfig).1 = .ok pollId ∧
      (run (handle pollSocketEnv) (dbExec ⟨false⟩ (.getElection pollId))
        (pollStored namelessConfig).2).1.toOption.map (·.election.eligible) = some [] := by
    decide +kernel
  obtain ⟨hann, htitle, hnameless, hroll⟩ := hfacts
  refine ⟨⟨hann, ?_⟩, hnameless, ?_⟩
  · rintro ⟨res, w, hrun, -, has⟩
    rw [hrun] at htitle
    have hread : res.election.title = CStr.copy _ (bytes "Ann''s poll") := Option.some.inj htitle
    rw [has.title] at hread
    exact absurd hread (by decide)
  · rintro ⟨res, w, hrun, -, has⟩
    rw [hrun] at hroll
    have hread : res.election.eligible = [] := Option.some.inj hroll
    rw [has.eligible] at hread
    exact absurd hread (by decide)

end Corestack.Ballotd
