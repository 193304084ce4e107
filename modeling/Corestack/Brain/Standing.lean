import Corestack.Brain.Calls

/-!
# The tables and the ledger of accepted ballots

The history of a run has a ledger: every accepted ballot with its version,
the voter's latest one live. The owner table is the list of the live
entries, and the rows of the ballot table that count are those of the live
entries, as long as no ballot supersedes one whose hash it got itself or
which is also on another voter's current ballot.
-/

namespace Corestack.Brain

open Function List Lib Db

/-- The ballot row of a ledger entry. -/
def ballotRow (e : Entry Voter Vote) : BallotRow :=
  ⟨quoted e.key.1.val, quoted e.val.hash.val, e.val.option, e.version, if e.live then 0 else 1⟩

/-- The owner row of a live ledger entry. -/
def ownerRow (e : Entry Voter Vote) : OwnerRow :=
  ⟨quoted e.key.1.val, quoted e.key.2.val, quoted e.val.hash.val, e.version⟩

/-- Recording a ballot with this hash retires the voter's own previous ballot
and nothing else: the hash it supersedes is neither the new one nor that of
another voter's current ballot in the election. -/
def HashFree (h : History) (k : Voter) (hash : Hash) : Prop :=
  ∀ v, (valuesOf k h).head? = some v →
    hash ≠ v.hash ∧ ∀ e ∈ current h, e.key.1 = k.1 → e.val.hash = v.hash → e.key = k

/-- Every recording of the history met `HashFree`. -/
def AllHashFree : History → Prop
  | [] => True
  | (k, v) :: h => HashFree h k v.hash ∧ AllHashFree h

/-- The tables hold what the history says. -/
structure Standing (h : History) (T : Tables) : Prop where
  cleanRoll : CleanRoll T
  roll : ∀ v ∈ h, v.1.2 ∈ T.roll v.1.1
  hash : ∀ v ∈ h, IsHash v.2.hash
  option : ∀ v ∈ h, 0 ≤ v.2.option ∧ v.2.option < bbMaxOptions
  version : ∀ k, (valuesOf k h).length < 2 ^ 31
  owner : T.owner.Perm ((current h).map ownerRow)
  live : (T.ballot.filter (·.superseded = 0)).Perm ((current h).map ballotRow)

theorem standing_empty : Standing [] .empty where
  cleanRoll := by simp [CleanRoll, Tables.empty]
  roll := by simp
  hash := by simp
  option := by simp
  version := fun k => Nat.pos_of_ne_zero (by decide)
  owner := List.Perm.refl _
  live := List.Perm.refl _

/-! ## Elections come and go -/

variable {n : Nat}

theorem quoted_val_inj {a b : CStr n} : quoted a.val = quoted b.val ↔ a = b :=
  quoted_inj.trans ⟨CStr.ext, fun h => h ▸ rfl⟩

variable {T T' : Tables}

theorem roll_mono (h : T.eligible <+: T'.eligible) (eid : Id) : T.roll eid ⊆ T'.roll eid := by
  obtain ⟨suf, hsuf⟩ := h
  refine map_subset _ ?_
  rw [← hsuf, filter_append, take_append]
  exact subset_append_left _ _

variable {id : Id} {cfg : BbConfig}

theorem cleanRoll_created (hT : CleanRoll T) (hsafe : SafeConfig id cfg) :
    CleanRoll (created T id cfg) := by
  intro r hr
  rcases mem_append.mp hr with hr | hr
  · exact hT r hr
  · obtain ⟨name, hname, rfl⟩ := mem_map.mp hr
    obtain ⟨htab, hlf, -⟩ := unsafeField_eq_false.mp (hsafe.eligible name hname)
    refine ⟨cleanField_quoted htab hlf, ?_⟩
    have h1 := length_quoted_le name.val
    have h2 : name.val.length < 32 := name.fits
    unfold dbBodyMax
    simp only
    omega

variable {h : History}

theorem Standing.congr (hst : Standing h T) (hclean : CleanRoll T')
    (helig : T.eligible <+: T'.eligible) (hballot : T'.ballot = T.ballot)
    (howner : T'.owner = T.owner) : Standing h T' where
  cleanRoll := hclean
  roll := fun v hv => roll_mono helig _ (hst.roll v hv)
  hash := hst.hash
  option := hst.option
  version := hst.version
  owner := by rw [howner]; exact hst.owner
  live := by rw [hballot]; exact hst.live

theorem Standing.created (hst : Standing h T) (hsafe : SafeConfig id cfg) :
    Standing h (created T id cfg) :=
  hst.congr (cleanRoll_created hst.cleanRoll hsafe) (prefix_append _ _) rfl rfl

theorem Standing.moved (hst : Standing h T) {seq : Int} {title : Title} {st : BbState}
    {openTime closeTime : Time} (hT' : T' = moved T id seq title st openTime closeTime) :
    Standing h T' := by
  subst hT'
  exact hst.congr hst.cleanRoll prefix_rfl rfl rfl

/-! ## The voter's own row -/

theorem Standing.ownersOf (hst : Standing h T) (k : Voter) :
    (T.ownersOf k.1 k.2).Perm (((valuesOf k h).head?.map fun b =>
      ownerRow ⟨k, b, (valuesOf k h).length, true⟩).toList) := by
  have hperm := hst.owner.filter fun r =>
    r.electionId = quoted k.1.val ∧ r.certName = quoted k.2.val
  rw [filter_map] at hperm
  have hkey : (current h).filter ((fun r : OwnerRow => decide (r.electionId = quoted k.1.val ∧
      r.certName = quoted k.2.val)) ∘ ownerRow) = (current h).filter (·.key = k) := by
    refine filter_congr fun e _ => ?_
    simp only [comp, ownerRow, quoted_val_inj, Prod.ext_iff]
  rw [hkey, current_filter_key] at hperm
  refine hperm.trans (List.Perm.of_eq ?_)
  cases (valuesOf k h).head? <;> rfl

/-! ## One more ballot -/

/-- What recording a ballot does in a standing state: the ballot gets the
next version, and the voter's latest ballot, if any, is superseded. -/
structure RecordedAs (c : Chatter) (h : History) (T : Tables) (eid : Id) (b : BbBallot)
    (rcpt : BbReceipt) (T' : Tables) : Prop where
  roll : b.certName ∈ T.roll eid
  option : 0 ≤ b.option ∧ b.option < bbMaxOptions
  rcpt_eq : rcpt = receiptOf b ((valuesOf (eid, b.certName) h).length + 1)
  version : (valuesOf (eid, b.certName) h).length + 1 < 2 ^ 31
  tables : (valuesOf (eid, b.certName) h = [] ∧ T' = recorded T eid b rcpt.hash 1 none) ∨
    ∃ v vs opt ver, valuesOf (eid, b.certName) h = v :: vs ∧
      T' = recorded T eid b rcpt.hash (vs.length + 2 : Nat) (some ⟨v.hash, opt, ver⟩) ∧
      MarkRead c { T with ballot := T.ballot ++ [liveRow eid rcpt.hash b.option
        (vs.length + 2 : Nat)] } eid v.hash opt ver

theorem nextVersion_some {found : BbDbResult} {m : Nat} (hfound : found.found = true)
    (hv : found.row.version = m) (hm : m < 2 ^ 31)
    (hrange : 0 ≤ nextVersion found ∧ nextVersion found < 2 ^ 31) :
    nextVersion found = (m + 1 : Nat) ∧ m + 1 < 2 ^ 31 := by
  simp only [nextVersion, hfound, if_true, hv] at hrange ⊢
  by_cases hlt : m + 1 < 2 ^ 31
  · exact ⟨toInt32_eq_self ⟨by omega, by omega⟩, hlt⟩
  · have hm' : m = 2 ^ 31 - 1 := by omega
    subst hm'
    rw [show toInt32 (((2 ^ 31 - 1 : Nat) : Int) + 1) = -(2 ^ 31) by decide] at hrange
    omega

theorem Standing.recorded_of_run {c : Chatter} {eid : Id} {b : BbBallot} {rcpt : BbReceipt}
    {n' : Nat} (hst : Standing h T)
    (hrun : Prog.run (idealHandle c) (recordBallotLocked ⟨true⟩ eid b) ⟨T, n⟩ =
      (.ok rcpt, ⟨T', n'⟩)) : RecordedAs c h T eid b rcpt T' := by
  obtain ⟨res, seen, found, t₁, t₂, t₃, hget, hfound, hadm, -, -, hprior, ⟨hT₁, hT₂, -⟩, hrcpt,
    hrange, prior, hread, hT'⟩ := ideal_recordBallotLocked hrun
  simp only at hT₁ hT₂ hread hT'
  obtain ⟨hroll, hopt⟩ := admitted_roll hst.cleanRoll hget hfound hadm
  have howner := hst.ownersOf (eid, b.certName)
  rw [← hT₂] at howner
  have hlen := hst.version (eid, b.certName)
  cases hvals : valuesOf (eid, b.certName) h with
  | nil =>
    rw [hvals] at howner
    have hnone := prior_none hprior howner.eq_nil
    have hnext : nextVersion found = 1 := by simp [nextVersion, hnone]
    refine ⟨hroll, hopt, ?_, by rw [hvals]; decide, .inl ⟨hvals, ?_⟩⟩
    · rw [hrcpt, hnext, hvals]
      rfl
    · rw [hT', hread.none_of hnone, hnext]
  | cons v vs =>
    rw [hvals] at howner hlen
    have hmem : ((eid, b.certName), v) ∈ h := by
      have : v ∈ valuesOf (eid, b.certName) h := by rw [hvals]; simp
      obtain ⟨p, hp, rfl⟩ := mem_map.mp this
      obtain ⟨hp, hk⟩ := mem_filter.mp hp
      rw [decide_eq_true_eq] at hk
      rw [← hk]
      exact hp
    obtain ⟨hsome, hhash, hver⟩ := prior_some hprior (perm_singleton.mp howner) rfl
      (hst.hash _ hmem) ⟨by simp only [ownerRow]; omega, by
        simp only [ownerRow]; exact_mod_cast hlen⟩
    obtain ⟨hnext, hlt⟩ := nextVersion_some hsome hver hlen hrange
    obtain ⟨opt, ver, hprior', hmark⟩ := hread.some_of hsome
    refine ⟨hroll, hopt, ?_, by rw [hvals]; exact hlt, .inr ⟨v, vs, opt, ver, hvals, ?_, ?_⟩⟩
    · rw [hrcpt, hnext, hvals]
      rfl
    · rw [hT', hprior', hnext, hhash]
      rfl
    · rw [hhash, hnext] at hmark
      rw [hrcpt, hnext]
      exact hmark

variable {k : Voter}

theorem current_filter_ne (hnone : valuesOf k h = []) :
    (current h).filter (·.key ≠ k) = current h := by
  refine filter_eq_self.mpr fun e he => ?_
  rw [decide_eq_true_eq]
  intro hek
  have : e ∈ (current h).filter (·.key = k) := mem_filter.mpr ⟨he, by simpa using hek⟩
  rw [current_filter_key, hnone] at this
  cases this

variable {v : Vote} {vs : List Vote}

theorem current_of_key (hv : valuesOf k h = v :: vs) {e : Entry Voter Vote} (he : e ∈ current h)
    (hek : e.key = k) : e = ⟨k, v, vs.length + 1, true⟩ := by
  have : e ∈ (current h).filter (·.key = k) := mem_filter.mpr ⟨he, by simpa using hek⟩
  rw [current_filter_key, hv] at this
  exact mem_singleton.mp this

section Record

variable {c : Chatter} {h : History} {T T' : Tables} {eid : Id} {b : BbBallot} {rcpt : BbReceipt}

theorem Standing.owner_record (hst : Standing h T) (m : Nat)
    (hm : m = (valuesOf (eid, b.certName) h).length + 1) :
    (setOwner eid b.certName rcpt.hash m T.owner).Perm
      ((current (((eid, b.certName), ⟨rcpt.hash, b.option⟩) :: h)).map ownerRow) := by
  subst hm
  rw [current_cons, map_cons]
  refine perm_append_comm.trans (List.Perm.cons _ ?_)
  refine (hst.owner.filter _).trans (List.Perm.of_eq ?_)
  rw [filter_map]
  congr 1
  refine filter_congr fun e _ => ?_
  simp only [comp, ownerRow, quoted_val_inj, ne_eq, Prod.ext_iff]

theorem Standing.live_none (hst : Standing h T) (hvals : valuesOf (eid, b.certName) h = []) :
    ((T.ballot ++ [liveRow eid rcpt.hash b.option 1]).filter (·.superseded = 0)).Perm
      ((current (((eid, b.certName), ⟨rcpt.hash, b.option⟩) :: h)).map ballotRow) := by
  rw [filter_append, current_cons, current_filter_ne hvals, hvals, map_cons]
  exact perm_append_comm.trans (List.Perm.cons _ hst.live)

theorem Standing.live_some (hst : Standing h T) {v : Vote} {vs : List Vote} {opt ver : Int}
    (hvals : valuesOf (eid, b.certName) h = v :: vs)
    (hfree : HashFree h (eid, b.certName) rcpt.hash) :
    ((supersede eid ⟨v.hash, opt, ver⟩ (T.ballot ++
        [liveRow eid rcpt.hash b.option (vs.length + 2 : Nat)])).filter (·.superseded = 0)).Perm
      ((current (((eid, b.certName), ⟨rcpt.hash, b.option⟩) :: h)).map ballotRow) := by
  obtain ⟨hself, hother⟩ := hfree v (by rw [hvals]; rfl)
  have hval : ¬ rcpt.hash.val = v.hash.val := fun h => hself (CStr.ext h)
  have hsup : [(⟨quoted eid.val, quoted v.hash.val, opt, ver, 1⟩ : BallotRow)].filter
      (·.superseded = 0) = [] := rfl
  have hnew : ([liveRow eid rcpt.hash b.option (vs.length + 2 : Nat)].filter fun r =>
      decide (¬ (r.electionId = quoted eid.val ∧ r.hash = quoted v.hash.val))).filter
        (·.superseded = 0) = [liveRow eid rcpt.hash b.option (vs.length + 2 : Nat)] := by
    simp [liveRow, hval]
  rw [supersede, filter_append, filter_append, filter_append, hsup, append_nil, hnew, current_cons,
    map_cons, hvals]
  refine perm_append_comm.trans (List.Perm.cons _ ?_)
  rw [filter_filter, filter_congr fun _ _ => Bool.and_comm _ _, ← filter_filter]
  refine (hst.live.filter _).trans (List.Perm.of_eq ?_)
  rw [filter_map]
  congr 1
  refine filter_congr fun e he => ?_
  simp only [comp, ballotRow, quoted_val_inj, ne_eq, decide_eq_decide, not_iff_not]
  constructor
  · rintro ⟨h1, h2⟩
    exact hother e he h1 h2
  · intro hek
    rw [current_of_key hvals he hek]
    exact ⟨rfl, rfl⟩

/-- A recording that meets `HashFree` keeps the tables in step with the
history: what it supersedes is the live row of the same voter and no other. -/
theorem Standing.record (hst : Standing h T) (hrec : RecordedAs c h T eid b rcpt T')
    (hfree : HashFree h (eid, b.certName) rcpt.hash) :
    Standing (accepted eid b (.ok rcpt) ++ h) T' := by
  have helig : T'.eligible = T.eligible := by
    rcases hrec.tables with ⟨-, rfl⟩ | ⟨v, vs, opt, ver, -, rfl, -⟩ <;> rfl
  have hroll : ∀ id, T'.roll id = T.roll id := fun id => by rw [Tables.roll, helig, ← Tables.roll]
  constructor
  · exact fun r hr => hst.cleanRoll r (helig ▸ hr)
  · intro v hv
    rw [hroll]
    rcases mem_cons.mp hv with rfl | hv
    · exact hrec.roll
    · exact hst.roll v hv
  · intro v hv
    rcases mem_cons.mp hv with rfl | hv
    · rw [hrec.rcpt_eq]
      exact isHash_receiptHash _ _
    · exact hst.hash v hv
  · intro v hv
    rcases mem_cons.mp hv with rfl | hv
    · exact hrec.option
    · exact hst.option v hv
  · intro k
    show (valuesOf k (((eid, b.certName), _) :: h)).length < _
    by_cases hk : (eid, b.certName) = k
    · rw [← hk, valuesOf_cons_self]
      exact hrec.version
    · rw [valuesOf_cons_of_ne hk]
      exact hst.version k
  · rcases hrec.tables with ⟨hvals, rfl⟩ | ⟨v, vs, opt, ver, hvals, rfl, -⟩
    · exact hst.owner_record 1 (by rw [hvals]; rfl)
    · exact hst.owner_record _ (by rw [hvals]; rfl)
  · rcases hrec.tables with ⟨hvals, rfl⟩ | ⟨v, vs, opt, ver, hvals, rfl, -⟩
    · exact hst.live_none hvals
    · exact hst.live_some hvals hfree

end Record

/-! ## The rows that count -/

section Live

variable {h : History} {T : Tables}

theorem Standing.liveOf (hst : Standing h T) (eid : Id) :
    (T.liveOf eid).Perm (((current h).filter (·.key.1 = eid)).map ballotRow) := by
  have hperm := hst.live.filter fun r => r.electionId = quoted eid.val
  rw [filter_filter, filter_map] at hperm
  refine (List.Perm.of_eq ?_).trans (hperm.trans (List.Perm.of_eq ?_))
  · exact filter_congr fun r _ => by simp
  · congr 1
    refine filter_congr fun e _ => ?_
    simp only [comp, ballotRow, quoted_val_inj]

theorem Standing.length_current_le (hst : Standing h T) (eid : Id) :
    ((current h).filter (·.key.1 = eid)).length ≤ bbMaxVoters := by
  have hnodup : (((current h).filter (·.key.1 = eid)).map (·.key.2)).Nodup := by
    refine List.Nodup.map_on ?_ (((current_keys_nodup h).of_map _).filter _)
    intro x hx y hy hxy
    obtain ⟨hx, hx1⟩ := mem_filter.mp hx
    obtain ⟨hy, hy1⟩ := mem_filter.mp hy
    have hkey : x.key = y.key := Prod.ext (by simp_all) hxy
    exact inj_on_of_nodup_map (current_keys_nodup h) hx hy hkey
  have hsub : ((current h).filter (·.key.1 = eid)).map (·.key.2) ⊆ T.roll eid := by
    intro cert hcert
    obtain ⟨e, he, rfl⟩ := mem_map.mp hcert
    obtain ⟨he, heid⟩ := mem_filter.mp he
    rw [decide_eq_true_eq] at heid
    rw [← heid]
    exact hst.roll _ (mem_of_mem_ledger (mem_of_mem_filter he))
  have hle := (subperm_of_subset hnodup hsub).length_le
  rw [length_map] at hle
  refine hle.trans ?_
  rw [Tables.roll, length_map]
  exact length_take_le _ _

theorem Standing.tally (hst : Standing h T) {c : Chatter} {eid : Id} {out : BbDbResult}
    {n n' : Nat}
    (hrun : Prog.run (idealHandle c) (runOp (.getTally eid)) ⟨T, n⟩ = (.ok out, ⟨T, n'⟩))
    (i : Fin bbMaxOptions) :
    out.tally i =
      ((current h).filter fun e => e.key.1 = eid ∧ e.val.option = (i : Int)).length := by
  have hlive := hst.liveOf eid
  have hfew := hst.length_current_le eid
  rw [tally_eq hrun ?_ ?_ i]
  · rw [hlive.countP_eq, countP_map, countP_eq_length_filter, filter_filter]
    congr 1
    refine filter_congr fun e _ => ?_
    rw [Bool.eq_iff_iff]
    simp only [comp, Bool.and_eq_true, decide_eq_true_eq]
    exact and_comm
  · intro r hr
    obtain ⟨e, he, rfl⟩ := mem_map.mp (hlive.mem_iff.mp hr)
    have hmem := mem_of_mem_ledger (mem_of_mem_filter (mem_of_mem_filter he))
    exact ⟨(hst.option _ hmem).1, lt_trans (hst.option _ hmem).2 (by decide)⟩
  · have hlen := hlive.length_eq
    rw [length_map] at hlen
    show (T.liveOf eid).length ≤ 1000
    unfold bbMaxVoters at hfew
    omega

end Live

end Corestack.Brain
