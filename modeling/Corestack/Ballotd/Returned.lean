import Corestack.Ballotd.Answered
import Corestack.Ballotd.Lasting
import Corestack.Client.ResponseTrip

/-!
# What a granted request returns

Whatever was requested before and however the store behaved: the texts in
the tables have no line breaks in them, every election has an id, and every
ballot that counts is stored under a receipt hash. So the response to a
request that is granted has nothing in it that its lines could not carry.
-/

namespace Corestack.Ballotd

open List Lib Corestack.Core Db Brain Client Prog

/-! ## The tables -/

/-- An election row with an id and without line breaks. -/
structure IssuedRow (r : ElectionRow) : Prop where
  filed : ∃ st, Filed r st
  id : r.id ≠ []
  noCr : ∀ f ∈ [r.id, r.title, r.openTime, r.closeTime], cr ∉ f

/-- What holds of the tables whatever was requested. -/
structure Issued (T : Tables) : Prop where
  election : ∀ r ∈ T.election, IssuedRow r
  option : ∀ r ∈ T.option, FiledOption r ∧ cr ∉ r.name
  ballot : ∀ r ∈ T.ballot, r.superseded = 0 → FiledBallot r

theorem issued_empty : Issued .empty := by
  constructor <;> simp [Tables.empty]

theorem mem_of_rowFields {c : Chatter} {n cap : Nat} {sql : Brain.Stmt} {rows : List (List Bytes)}
    {db : Tables} {txn : Option Tables} {st : DbStatus} {body : Bytes}
    (hrows : ∀ r ∈ rows, TidyRow r)
    (hreply : ownReply cap (done c n sql db txn (some rows)) = (st, body)) {i : Nat}
    {fields : List Bytes} (hf : dbRowFields body i = some fields) : fields ∈ rows := by
  obtain ⟨k, hcount, hk⟩ : ∃ k, dbRowCount body = some k ∧ i < k := by
    unfold dbRowFields at hf
    split at hf
    · rename_i k _ hcount _
      split at hf
      · exact ⟨k, hcount, ‹_›⟩
      · cases hf
    · cases hf
  obtain ⟨-, hfields⟩ := select_raw (fun r hr => (hrows r hr).text.toRawLine) hreply hcount
  rw [hfields i hk] at hf
  obtain ⟨r, hr, rfl⟩ := Option.map_eq_some_iff.mp hf
  have hmem := mem_of_getElem? hr
  rw [split_join (hrows r hmem).ne (hrows r hmem).noTab]
  exact hmem

section Step

variable {T T' : Tables} {c : Chatter}

variable {n : Nat}

theorem cr_quoted {s : CStr n} (h : unsafeField s.val = false) : cr ∉ quoted s.val :=
  fun hcr => (unsafeField_eq_false.mp h).2.2 (mem_quoted.mp hcr)

variable {f : Bytes}

theorem cr_copy [NeZero n] (h : cr ∉ f) : cr ∉ (CStr.copy n f).val :=
  fun hcr => h (CStr.mem_of_mem_copy hcr)

variable {id : Id}

theorem chosenId_ne_nil {desired : Id} (h : ChosenId c T desired id) : id.val ≠ [] := by
  have hnumber : ∀ k : Int, (CStr.copy bbIdLen (bytes "E-" ++ fmtInt k)).val ≠ [] := by
    intro k hk
    have hpre : bytes "E-" = [69, 45] := by decide +kernel
    rw [hpre] at hk
    simp [CStr.copy, cText] at hk
  cases h with
  | desired hne => exact hne
  | next => exact hnumber _
  | fallback => exact hnumber _

variable {cfg : BbConfig}

theorem filed_optionRows (hsafe : SafeConfig id cfg) {r : OptionRow}
    (hr : r ∈ optionRows id 0 cfg.options) : FiledOption r ∧ cr ∉ r.name := by
  obtain ⟨-, ⟨j, hj, hlt⟩, o, ho, hname⟩ := mem_optionRows hr
  have hmax : cfg.options.length ≤ 16 := cfg.options_le
  refine ⟨⟨?_, ?_⟩, ?_⟩
  · unfold IsCount
    omega
  · rw [hname]
    exact textField_safe (hsafe.options o ho)
  · rw [hname]
    exact cr_quoted (hsafe.options o ho)

theorem Issued.created (hT : Issued T) (hid : id.val ≠ []) (hsafe : SafeConfig id cfg)
    (hseq : IsCount (idSeq id.val)) : Issued (Brain.created T id cfg) := by
  refine ⟨fun r hr => ?_, fun r hr => ?_, hT.ballot⟩
  · rcases mem_append.mp hr with hr | hr
    · exact hT.election r hr
    · rw [mem_singleton.mp hr]
      refine ⟨⟨_, filed_draft hsafe hseq⟩, fun h => hid ?_, fun f hf => ?_⟩
      · exact eq_nil_iff_forall_not_mem.mpr fun x hx =>
          eq_nil_iff_forall_not_mem.mp h x (mem_quoted.mpr hx)
      · simp only [draftRow, mem_cons, not_mem_nil, or_false] at hf
        rcases hf with rfl | rfl | rfl | rfl
        · exact cr_quoted hsafe.id
        · exact cr_quoted hsafe.title
        · exact cr_quoted hsafe.openTime
        · exact cr_quoted hsafe.closeTime
  · rcases mem_append.mp hr with hr | hr
    · exact hT.option r hr
    · exact filed_optionRows hsafe hr

/-- An election as it is read. -/
structure Told (e : BbElection) : Prop extends CleanElection e where
  id : e.id.val ≠ []

variable {e : BbElection}

theorem readCarried_some {body : Bytes} {seq : Bytes} {title : Title} {openTime closeTime : Time}
    (h : readCarried body = some (seq, title, openTime, closeTime)) :
    ∃ f₀ f₁ f₂ f₃ fs, dbRowFields body 0 = some (f₀ :: f₁ :: f₂ :: f₃ :: fs) ∧
      title = CStr.copy _ f₁ ∧ openTime = CStr.copy _ f₂ ∧ closeTime = CStr.copy _ f₃ := by
  unfold readCarried at h
  split at h
  · cases h
  · cases h
  · split at h
    · cases h
      exact ⟨_, _, _, _, _, ‹_›, rfl, rfl, rfl⟩
    · cases h

theorem copy_ne_nil [NeZero n] (hn : 1 < n) (hne : f ≠ []) (h0 : 0 ∉ f) :
    (CStr.copy n f).val ≠ [] := by
  obtain ⟨x, f, rfl⟩ := exists_cons_of_ne_nil hne
  simp only [CStr.copy, cText_eq_self h0]
  obtain ⟨k, hk⟩ : ∃ k, n - 1 = k + 1 := ⟨n - 2, by omega⟩
  rw [hk, take_succ_cons]
  exact cons_ne_nil _ _

variable {eid : Id}

theorem Issued.row (hT : Issued T) {body : Bytes}
    (hreply : ownReply bodyMax (done c n (.selectElection eid) T none
      (T.query (.selectElection eid))) = (.ok, body)) (hread : readElection body = .ok (some e)) :
    ∃ r ∈ T.election, ∃ st, r.id = quoted eid.val ∧ e = { (default : BbElection) with
      id := CStr.copy _ r.id, title := CStr.copy _ r.title, state := st,
      openTime := CStr.copy _ r.openTime, closeTime := CStr.copy _ r.closeTime } := by
  obtain ⟨f₀, f₁, f₂, f₃, f₄, f₅, fs, st, hfields, rfl⟩ := readElection_some hread
  have hmem := mem_of_rowFields (fun x hx => ?_) hreply hfields
  · obtain ⟨r, hr, heq⟩ := mem_map.mp hmem
    obtain ⟨hr, hid⟩ := mem_filter.mp hr
    cases heq
    exact ⟨r, hr, st, of_decide_eq_true hid, rfl⟩
  · obtain ⟨r, hr, rfl⟩ := mem_map.mp hx
    obtain ⟨st, hfiled⟩ := (hT.election r (mem_of_mem_filter hr)).filed
    exact (tidyRow_election hfiled).1

theorem IssuedRow.clean {r : ElectionRow} (hr : IssuedRow r) :
    ∀ f ∈ [r.id, r.title, r.openTime, r.closeTime], CleanField f := by
  obtain ⟨st, hfiled⟩ := hr.filed
  intro f hf
  simp only [mem_cons, not_mem_nil, or_false] at hf
  rcases hf with rfl | rfl | rfl | rfl
  · exact hfiled.id.toCleanField
  · exact hfiled.title.toCleanField
  · exact hfiled.openTime.toCleanField
  · exact hfiled.closeTime.toCleanField

theorem Issued.readOptions (hT : Issued T) {body : Bytes}
    (hreply : ownReply bodyMax (done c n (.selectOptions eid) T none
      (T.query (.selectOptions eid))) = (.ok, body))
    (he : ∀ i, breaksLine (e.options i).val = false) (i : Fin bbMaxOptions) :
    breaksLine ((Brain.readOptions body e).options i).val = false := by
  have htidy : ∀ x ∈ (T.optionsOf eid).map fun r => [fmtInt r.idx, r.name], TidyRow x := by
    intro x hx
    obtain ⟨r, hr, rfl⟩ := mem_map.mp hx
    exact (tidyRow_placed (hT.option r (mem_of_mem_filter hr)).1).1
  refine clean_readOptions (P := fun t => breaksLine t = false) (fun k f₀ f₁ fs hfields => ?_) he i
  -- every row placed is one that is stored
  obtain ⟨r, hr, heq⟩ := mem_map.mp (mem_of_rowFields htidy hreply hfields)
  obtain ⟨hfiled, hcr⟩ := hT.option r (mem_of_mem_filter hr)
  cases heq
  exact breaksLine_copy hfiled.name.noLf hcr

variable {t' : Work}

/-- An election that is found is stored under the id asked for, and told
without line breaks. -/
theorem Issued.read (hT : Issued T) {res : BbDbResult}
    (hrun : run (idealHandle c) (runOp (.getElection eid)) ⟨T, n⟩ = (.ok res, t'))
    (hfound : res.found = true) :
    eid.val ≠ [] ∧ breaksLine eid.val = false ∧ Told res.election := by
  obtain ⟨body, hreply, ⟨-, rfl⟩ | ⟨e, b₁, b₂, n₁, n₂, hread, hreply₁, -, rfl⟩⟩ :=
    ideal_getElection hrun
  · cases hfound
  · obtain ⟨r, hr, st, hid, rfl⟩ := hT.row hreply hread
    have hrow := hT.election r hr
    have hclean := hrow.clean
    have hcopy : ∀ {n : Nat} [NeZero n], ∀ f ∈ [r.id, r.title, r.openTime, r.closeTime],
        breaksLine (CStr.copy n f).val = false :=
      fun f hf => breaksLine_copy (hclean f hf).noLf (hrow.noCr f hf)
    refine ⟨?_, ?_, ⟨?_, hT.readOptions hreply₁ fun _ => rfl⟩, ?_⟩
    · intro h
      rw [h] at hid
      exact hrow.id hid
    · rw [← breaksLine_quoted, ← hid]
      exact breaksLine_eq_false.mpr ⟨(hclean r.id (by simp)).noLf, hrow.noCr r.id (by simp)⟩
    · intro t ht
      simp only [readEligible, Brain.readOptions, mem_cons, not_mem_nil, or_false] at ht
      rcases ht with rfl | rfl | rfl | rfl <;> exact hcopy _ (by simp)
    · exact copy_ne_nil (by decide) hrow.id (hclean r.id (by simp)).noNul

variable {out : BbDbResult}

theorem Issued.moved (hT : Issued T) {st : BbState} {n' : Nat}
    (hrun : run (idealHandle c) (runOp (.updateState eid st)) ⟨T, n⟩ = (.ok out, ⟨T', n'⟩)) :
    Issued T' := by
  obtain ⟨body, seqText, seq, title, openTime, closeTime, hreply, hread, hseq, -, hT'⟩ :=
    ideal_updateState hrun
  simp only at hreply hT'
  obtain ⟨f₀, f₁, f₂, f₃, fs, hfields, rfl, rfl, rfl⟩ := readCarried_some hread
  have hmem := mem_of_rowFields (fun x hx => ?_) hreply hfields
  · obtain ⟨r, hr, heq⟩ := mem_map.mp hmem
    cases heq
    obtain ⟨hr, hid⟩ := mem_filter.mp hr
    have hid : r.id = quoted eid.val := of_decide_eq_true hid
    have hrow := hT.election r hr
    obtain ⟨st₀, hfiled⟩ := hrow.filed
    rw [hT']
    refine ⟨fun x hx => ?_, hT.option, hT.ballot⟩
    rcases mem_append.mp hx with hx | hx
    · exact hT.election x (mem_of_mem_filter hx)
    · rw [mem_singleton.mp hx]
      refine ⟨⟨st, readInt_nonneg hseq, hid ▸ hfiled.id, textField_copy hfiled.title.toCleanField,
        rfl, textField_copy hfiled.openTime.toCleanField,
        textField_copy hfiled.closeTime.toCleanField⟩, hid ▸ hrow.id, fun f hf => ?_⟩
      have hcr := hrow.noCr
      simp only [mem_cons, not_mem_nil, or_false, forall_eq_or_imp, forall_eq] at hf hcr
      rcases hf with rfl | rfl | rfl | rfl
      · exact hid ▸ hcr.1
      · exact fun h => cr_copy hcr.2.1 (mem_quoted.mp h)
      · exact fun h => cr_copy hcr.2.2.1 (mem_quoted.mp h)
      · exact fun h => cr_copy hcr.2.2.2 (mem_quoted.mp h)
  · obtain ⟨r, hr, rfl⟩ := mem_map.mp hx
    obtain ⟨st, hfiled⟩ := (hT.election r (mem_of_mem_filter hr)).filed
    exact (tidyRow_carried hfiled).1

theorem Issued.hashes (hT : Issued T)
    (hrun : run (idealHandle c) (runOp (.getHashes eid)) ⟨T, n⟩ = (.ok out, t')) :
    ∀ row ∈ out.hashes, IsHash row.hash := by
  obtain ⟨body, t₁, h₁, h₂⟩ := run_bind_ok hrun
  cases h₂
  obtain ⟨-, hw, hreply⟩ := ideal_execStmt_ok h₁
  have hlive : ∀ r ∈ T.liveOf eid, FiledBallot r := fun r hr => by
    obtain ⟨hr, hcond⟩ := mem_filter.mp hr
    exact hT.ballot r hr (of_decide_eq_true hcond).2
  intro row hrow
  obtain ⟨i, -, hi⟩ := mem_filterMap.mp (mem_of_mem_take hrow)
  unfold readHashRow at hi
  split at hi
  · rename_i f₀ f₁ f₂ f₃ fs hfields
    cases hi
    have hmem := mem_of_rowFields (fun x hx => ?_) hreply hfields
    · obtain ⟨r, hr, heq⟩ := mem_map.mp hmem
      cases heq
      obtain ⟨hash, hquoted, hh⟩ := (hlive r hr).hash
      rw [hquoted]
      exact hh.copy_quoted.symm ▸ hh
    · obtain ⟨r, hr, rfl⟩ := mem_map.mp hx
      exact (tidyRow_listed (hlive r hr)).1
  · cases hi

end Step

theorem lasting_issued : Lasting Issued where
  empty := issued_empty
  create := fun hT hid hsafe hseq => hT.created (chosenId_ne_nil hid) hsafe hseq
  move := fun hT hrun => hT.moved hrun
  record := fun hT hstep => by
    refine ⟨hstep.election ▸ hT.election, hstep.option ▸ hT.option, fun r hr hsup => ?_⟩
    rcases hstep.ballot r hr with hr | hone | hr
    · exact hT.ballot r hr hsup
    · rw [hsup] at hone
      cases hone
    · exact hr

/-! ## What is granted -/

section Grant

variable {env : Env} {w w' : World} {eid : Id} {op : BclOp} {resp : BclResponse}

variable {e : BbElection}

theorem told_of_load (hk : env.keepsUnread = false) (hs : w.session = none) (hT : Issued w.tables)
    (hrun : run (handle env) (loadElection ⟨false⟩ eid) w = (.ok e, w')) :
    w'.session = none ∧ w'.tables = w.tables ∧ breaksLine eid.val = false ∧ Told e := by
  obtain ⟨hs', hT', res, n, n', hread, hfound, rfl⟩ := loadElection_ok hk hs hrun
  obtain ⟨-, heid, htold⟩ := hT.read hread hfound
  exact ⟨hs', hT', heid, htold⟩

theorem granted_id (hs : Shaped resp) (hst : resp.status = none)
    (hop : op = .create ∨ op = .adminNextId) (hid : breaksLine resp.election.id.val = false)
    (hh : resp.hashes = []) : Granted op resp := by
  refine ⟨hst, hs, clean_id hop hid, ?_, ?_, ?_, by simp [hh], ?_⟩
  all_goals rcases hop with rfl | rfl <;> simp

theorem readableHash_isHash {h : Hash} (hh : IsHash h) : ReadableHash h :=
  ⟨hh.ne, fun hc => absurd (hh.hex _ hc) (by decide)⟩

theorem granted_results (hk : env.keepsUnread = false) (hs : w.session = none)
    (hT : Issued w.tables) (heid : breaksLine eid.val = false) (he : Told e)
    (hop : op = .results ∨ op = .adminResults) {out : BbResults}
    (hrun : run (handle env) (fetchResults ⟨false⟩ eid e) w = (.ok out, w'))
    (hshape : Shaped (resultsResponse eid out)) : Granted op (resultsResponse eid out) := by
  obtain ⟨tally, w₁, h₁, h₂⟩ := run_bind_ok hrun
  obtain ⟨hashes, w₂, h₃, h₄⟩ := run_bind_ok h₂
  cases h₄
  obtain ⟨hs₁, hT₁, -⟩ := dbExec_read hk hs rfl h₁
  obtain ⟨-, -, hideal⟩ := dbExec_read hk hs₁ rfl h₃
  obtain ⟨n, n', hlist⟩ := hideal hashes rfl
  rw [hT₁] at hlist
  have hhash : ∀ row ∈ hashes.hashes.take bbMaxVoters, IsHash row.hash := fun row hrow =>
    hT.hashes hlist row (mem_of_mem_take hrow)
  refine ⟨rfl, hshape, clean_results hop heid (he.texts e.title.val (by simp)) (fun i => ?_)
    fun row hrow => breaksLine_isHash (hhash row hrow), ?_, ?_, ?_,
    fun r hr => readableHash_isHash (hhash r hr), ?_⟩
  · show breaksLine (if _ then _ else _ : OptionName).val = false
    split
    · exact he.options i
    · rfl
  all_goals rcases hop with rfl | rfl <;> simp

theorem granted_join (hok : resp.status = none) (hshape : Shaped resp) (he : Told resp.election)
    (hcount : resp.election.optionCount ≤ bbMaxOptions) (hh : resp.hashes = []) :
    Granted .join resp :=
  ⟨hok, hshape, clean_join he.toCleanElection, fun _ => he.id, fun _ => hcount, by simp,
    by simp [hh], by simp⟩

theorem granted_check (hop : op = .check ∨ op = .adminCheck) (hok : resp.status = none)
    (hshape : Shaped resp) (hfound : resp.found = true)
    (hname : breaksLine resp.foundOptionName.val = false) (hh : resp.hashes = []) :
    Granted op resp := by
  refine ⟨hok, hshape, clean_check hop hname, ?_, ?_, ?_, by simp [hh], fun _ => hfound⟩
  all_goals rcases hop with rfl | rfl <;> simp

theorem joined (hk : env.keepsUnread = false) (hs : w.session = none) (hT : Issued w.tables)
    {cert : CertName} {prior : Except BbErr (Option Int)}
    (hrun : run (handle env) (bbJoin ⟨false⟩ eid cert) w = (.ok (e, prior), w')) :
    Told e ∧ e.optionCount ≤ bbMaxOptions := by
  obtain ⟨e', w₁, hload, h₁⟩ := run_bind_ok hrun
  have hcount := (ends_loadElection (G := fun _ _ => True) eid).run (h := handle env) (s := w)
    fun _ _ => trivial
  rw [hload] at hcount
  obtain ⟨-, -, -, he⟩ := told_of_load hk hs hT hload
  obtain ⟨status, w₂, -, h₂⟩ := run_bind_ok h₁
  cases status with
  | invalid | expired | notEligible => cases h₂
  | valid =>
    dsimp only at h₂
    split at h₂
    · obtain ⟨_, _, -, h₃⟩ := run_bind_ok h₂
      cases h₃
    · split at h₂
      · obtain ⟨_, _, -, h₃⟩ := run_bind_ok h₂
        cases h₃
      · obtain ⟨_, _, -, h₃⟩ := run_bind_ok h₂
        cases h₃
        exact ⟨he, hcount.1⟩

theorem looked (hk : env.keepsUnread = false) (hs : w.session = none) (hT : Issued w.tables)
    {hash : Hash} {row : BbBallotHash} {name : OptionName}
    (hrun : run (handle env) (bbLookupHash ⟨false⟩ eid hash) w = (.ok (row, name), w')) :
    breaksLine name.val = false := by
  obtain ⟨e, w₁, hload, h₁⟩ := run_bind_ok hrun
  obtain ⟨-, -, -, he⟩ := told_of_load hk hs hT hload
  obtain ⟨res, w₂, -, h₂⟩ := run_bind_ok h₁
  split at h₂
  · cases h₂
  · cases h₂
    split
    · exact he.options _
    · rfl

variable {req : BclRequest} {ctx : BbCtx}

/-- A response with status BB_OK is one to a handler that returned. -/
theorem handler_returned {α : Type} {p : BrainM α}
    {f : Except BbErr α → BrainM (BclResponse × BbCtx)}
    (herror : ∀ e, f (.error e) = .ret (.of (some e), ⟨false⟩)) (hok : resp.status = none)
    (hrun : run (handle env) (p.attempt >>= f) w = (.ok (resp, ctx), w')) :
    ∃ a w₁, run (handle env) p w = (.ok a, w₁) ∧
      run (handle env) (f (.ok a)) w₁ = (.ok (resp, ctx), w') := by
  rcases hp : run (handle env) p w with ⟨e | a, w₁⟩
  · rw [run_bind_attempt hp, herror] at hrun
    cases hrun
    cases hok
  · rw [run_bind_attempt hp] at hrun
    exact ⟨a, w₁, rfl, hrun⟩

theorem granted_read (hk : env.keepsUnread = false) (hs : w.session = none) (hT : Issued w.tables)
    (hreq : callOf req = none)
    (hrun : run (handle env) (ballotdDispatch ⟨false⟩ req) w = (.ok (resp, ctx), w'))
    (hshape : Shaped resp) (hok : resp.status = none) : Granted req.op resp := by
  obtain ⟨op, cert, eid, ballot, hash, config⟩ := req
  cases op with
  | create | opening | closing | publish | cast | update => cases hreq
  | adminNextId =>
    obtain ⟨id, w₁, h₁, h₂⟩ := run_bind_ok hrun
    cases h₂
    obtain ⟨k, hk⟩ := ends_bbAllocId.run (h := handle env) w
    rw [h₁] at hk
    cases hk
    exact granted_id hshape hok (.inr rfl) (breaksLine_allocated k) rfl
  | join =>
    obtain ⟨⟨e, prior⟩, w₁, hjoin, h₂⟩ := handler_returned (fun _ => rfl) hok hrun
    obtain ⟨he, hcount⟩ := joined hk hs hT hjoin
    cases prior with
    | error e =>
      cases h₂
      cases hok
    | ok prior =>
      cases h₂
      exact granted_join hok hshape he hcount rfl
  | results =>
    obtain ⟨out, w₁, hres, h₂⟩ := handler_returned (fun _ => rfl) hok hrun
    cases h₂
    obtain ⟨e, w₁, hload, h₃⟩ := run_bind_ok hres
    obtain ⟨hs₁, hT₁, heid, he⟩ := told_of_load hk hs hT hload
    split at h₃
    · cases h₃
    · split at h₃
      · cases h₃
      · exact granted_results hk hs₁ (hT₁ ▸ hT) heid he (.inl rfl) h₃ hshape
  | adminResults =>
    obtain ⟨out, w₁, hres, h₂⟩ := handler_returned (fun _ => rfl) hok hrun
    cases h₂
    obtain ⟨e, w₁, hload, h₃⟩ := run_bind_ok hres
    obtain ⟨hs₁, hT₁, heid, he⟩ := told_of_load hk hs hT hload
    split at h₃
    · cases h₃
    · exact granted_results hk hs₁ (hT₁ ▸ hT) heid he (.inr rfl) h₃ hshape
  | check | adminCheck =>
    obtain ⟨⟨row, name⟩, w₁, hlook, h₂⟩ := handler_returned (fun _ => rfl) hok hrun
    cases h₂
    exact granted_check (by simp) hok hshape rfl (looked hk hs hT hlook) rfl

theorem granted_status (hop : op = .opening ∨ op = .closing ∨ op = .publish)
    (hshape : Shaped resp) (hok : resp.status = none) (hh : resp.hashes = []) :
    Granted op resp := by
  refine ⟨hok, hshape, fun t ht => ?_, ?_, ?_, ?_, by simp [hh], ?_⟩
  · rcases hop with rfl | rfl | rfl <;> cases ht
  all_goals rcases hop with rfl | rfl | rfl <;> simp

theorem granted_recorded (hop : op = .cast ∨ op = .update) (hshape : Shaped resp)
    (hclean : Clean op resp) (hok : resp.status = none) (hh : resp.hashes = [])
    (hr : resp.receipt.hash.val ≠ []) : Granted op resp := by
  refine ⟨hok, hshape, hclean, ?_, ?_, fun _ => hr, by simp [hh], ?_⟩
  all_goals rcases hop with rfl | rfl <;> simp

theorem receipt_accepted {b : BbBallot} {r : Except BbErr BbReceipt} {receipt : BbReceipt}
    (hrun : run (handle env) (bbRecordBallot ⟨false⟩ eid b default) w =
      (.ok (r, receipt, ctx), w')) (hok : (statusOf (r.map fun _ => ())).status = none) :
    receipt.hash.val ≠ [] := by
  obtain ⟨res, out, heq, hhand⟩ := (ends_bbRecordBallot (G := fun _ _ => True) eid b).run
    (h := handle env) (s := w) fun _ _ => trivial
  rw [hrun] at heq
  cases heq
  cases r with
  | error e => cases hok
  | ok rcpt =>
    obtain ⟨v, rfl⟩ := hhand.accepted rcpt rfl
    exact (isHash_receiptHash b.nonce v).ne

theorem granted_call (hs : w.session = none) {call : Call} (hreq : callOf req = some call)
    (hrun : run (handle env) (ballotdDispatch ⟨false⟩ req) w = (.ok (resp, ctx), w'))
    (hshape : Shaped resp) (hclean : Records req.op → Clean req.op resp) (hok : resp.status = none)
    : Granted req.op resp := by
  obtain ⟨op, cert, eid, ballot, hash, config⟩ := req
  cases op with
  | adminNextId | join | results | adminResults | check | adminCheck => cases hreq
  | create =>
    obtain ⟨id, w₁, hnew, h₂⟩ := handler_returned (fun _ => rfl) hok hrun
    cases h₂
    rw [(alone_create env config eid w hs).1] at hnew
    obtain ⟨-, -, hsafe, -⟩ := create_ok rfl hs hnew
    exact granted_id hshape hok (.inl rfl)
      (breaksLine_eq_false.mpr (unsafeField_eq_false.mp hsafe.id).2) rfl
  | opening | closing | publish =>
    obtain ⟨r, w₁, -, h₂⟩ := run_bind_ok hrun
    cases h₂
    cases r with
    | error e => cases hok
    | ok u => exact granted_status (by simp) hshape hok rfl
  | cast | update =>
    obtain ⟨⟨r, receipt, ctx⟩, w₁, h₁, h₂⟩ := run_bind_ok hrun
    cases h₂
    refine granted_recorded (by simp) hshape (hclean (by simp [Records])) hok ?_
      (receipt_accepted h₁ hok)
    cases r <;> rfl

end Grant

theorem granted_answer {env : Env} {d : Daemon} (hd : d.Idle) (hT : Issued d.world.tables)
    {req : BclRequest} (hok : (answer env d req).1.status = none) :
    Granted req.op (answer env d req).1 := by
  obtain ⟨resp, hres, hshape, hclean, -⟩ := dispatched (handle env) d.world req
  obtain ⟨ctx, w⟩ := d
  obtain ⟨rfl, hs⟩ := hd
  have hrun : run (handle env) (ballotdDispatch ⟨false⟩ req) w = (.ok (resp, ⟨false⟩), _) :=
    Prod.ext hres rfl
  have hresp : (answer env ⟨⟨false⟩, w⟩ req).1 = resp := by
    rw [answer, hrun]
  rw [hresp] at hok ⊢
  cases hcall : callOf req with
  | none =>
    rw [(alone_dispatch env (not_records hcall) w hs).1] at hrun
    exact granted_read rfl hs hT hcall hrun hshape hok
  | some call => exact granted_call hs hcall hrun hshape (fun hop => hclean (.inl hop)) hok

/-- Whatever was requested before and however the store behaves: a response
with status BB_OK is encoded, and parsed and decoded on the other side it is
the response the daemon built, in the fields of its operation. -/
theorem response_comes_back (env : Env) (reqs : List BclRequest) (req : BclRequest) (now : Tm)
    (hok : (responseTo env reqs req).status = none) :
    ComesBack now req.op (responseTo env reqs req) := by
  exact (granted_answer (runRequests_idle env reqs) (lasting_issued.run env reqs) hok).comesBack now

/-- The published results of two ballots come back. -/
theorem poll_results_come_back :
    (responseTo pollSocketEnv (pollPublished.take 7)
        { pollRequest .results with certName := pollAnn }).hashes.length = 2 ∧
      ComesBack ⟨0, 1, 0, 126, 12, 0, 0⟩ .results
        (responseTo pollSocketEnv (pollPublished.take 7)
          { pollRequest .results with certName := pollAnn }) :=
  ⟨by decide +kernel, response_comes_back _ _ { pollRequest .results with certName := pollAnn } _
    (by decide +kernel)⟩

end Corestack.Ballotd
