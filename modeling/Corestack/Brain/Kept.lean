import Corestack.Brain.Standing
import Corestack.Brain.Register

/-!
# What every change keeps of the tables

The rows of an election are as the seam writes them, an election has no more
live ballots than owners, and no more owners than its roll has names. So the
results of an election always fit into the replies they are read from.

`Advance` says once what a change does to such tables; the invariant, the
order of the states and what stands still in a closed election follow from
it.
-/

namespace Corestack.Brain

open List Lib Db

def DistinctIds (T : Tables) : Prop := (T.election.map (·.id)).Nodup

instance (T : Tables) : Decidable (DistinctIds T) := inferInstanceAs (Decidable (List.Nodup _))

def Tables.Has (T : Tables) (id : Bytes) : Prop := ∃ e ∈ T.election, e.id = id

/-- An owner row of a voter on the roll. -/
structure FiledOwner (T : Tables) (r : OwnerRow) (eid : Id) (cert : CertName) (hash : Hash) :
    Prop where
  electionId : r.electionId = quoted eid.val
  certName : r.certName = quoted cert.val
  hash_eq : r.hash = quoted hash.val
  isHash : IsHash hash
  version : IsCount r.version
  roll : cert ∈ T.roll eid

/-- A ballot row of an election, for one of its options. -/
structure Chosen (T : Tables) (r : BallotRow) (eid : Id) : Prop where
  electionId : r.electionId = quoted eid.val
  option : r.optionIndex < (T.optionsOf eid).length
  has : T.Has r.electionId

structure Kept (T : Tables) : Prop where
  election : ∀ r ∈ T.election, ∃ st, Filed r st
  option : ∀ r ∈ T.option, FiledOption r ∧ T.Has r.electionId
  options_le : ∀ eid, (T.optionsOf eid).length ≤ bbMaxOptions
  cleanRoll : CleanRoll T
  owner : ∀ r ∈ T.owner, ∃ eid cert hash, FiledOwner T r eid cert hash
  owner_nodup : (T.owner.map fun r => (r.electionId, r.certName)).Nodup
  ballot : ∀ r ∈ T.ballot, FiledBallot r ∧ ∃ eid, Chosen T r eid
  live : ((T.ballot.filter (·.superseded = 0)).map fun r => (r.electionId, r.hash)).Subperm
    (T.owner.map fun r => (r.electionId, r.hash))

theorem kept_empty : Kept .empty where
  election := by simp [Tables.empty]
  option := by simp [Tables.empty]
  options_le := fun _ => Nat.zero_le _
  cleanRoll := by simp [CleanRoll, Tables.empty]
  owner := by simp [Tables.empty]
  owner_nodup := by simp [Tables.empty]
  ballot := by simp [Tables.empty]
  live := List.Subperm.refl _

/-! ## What a change does -/

/-- One change of kept tables. -/
inductive Advance (T : Tables) : Tables → Prop
  | create {id : Id} {cfg : BbConfig} (hfresh : T.electionOf id = []) (hsafe : SafeConfig id cfg)
      (hseq : IsCount (idSeq id.val)) : Advance T (created T id cfg)
  | move {eid : Id} {r : ElectionRow} {st dst : BbState} (hrow : T.electionOf eid = [r])
      (hr : Filed r st) (hlegal : bbIsLegalTransition st dst = true) :
      Advance T (moved T eid r.seq (CStr.copy _ r.title) dst (CStr.copy _ r.openTime)
        (CStr.copy _ r.closeTime))
  | first {eid : Id} {b : BbBallot} {r : ElectionRow} (hrow : T.electionOf eid = [r])
      (hr : Filed r .opened) (hroll : b.certName ∈ T.roll eid)
      (hopt : 0 ≤ b.option ∧ b.option < (T.optionsOf eid).length)
      (howner : T.ownersOf eid b.certName = []) :
      Advance T (recorded T eid b (receiptHash b.nonce 1) 1 none)
  | again {eid : Id} {b : BbBallot} {r : ElectionRow} {o : OwnerRow} {p : BallotRow} {hash : Hash}
      {version : Int} (hrow : T.electionOf eid = [r]) (hr : Filed r .opened)
      (hroll : b.certName ∈ T.roll eid)
      (hopt : 0 ≤ b.option ∧ b.option < (T.optionsOf eid).length)
      (howner : T.ownersOf eid b.certName = [o]) (ho : o.hash = quoted hash.val)
      (hversion : IsCount version)
      (hp : p ∈ T.ballot ++ [liveRow eid (receiptHash b.nonce version) b.option version])
      (hpkey : p.electionId = quoted eid.val ∧ p.hash = quoted hash.val) :
      Advance T (recorded T eid b (receiptHash b.nonce version) version
        (some ⟨hash, p.optionIndex, p.version⟩))

section Inversion

variable {T T' : Tables}

theorem electionOf_cases (hids : DistinctIds T) (eid : Id) :
    T.electionOf eid = [] ∨ ∃ r, T.electionOf eid = [r] := by
  cases h : T.electionOf eid with
  | nil => exact .inl rfl
  | cons r rs =>
    cases rs with
    | nil => exact .inr ⟨r, rfl⟩
    | cons r' rs =>
      have hsub : ((T.electionOf eid).map (·.id)).Sublist (T.election.map (·.id)) :=
        filter_sublist.map _
      have hnodup := hids.sublist hsub
      have hid : ∀ x ∈ T.electionOf eid, x.id = quoted eid.val := fun x hx => by
        simpa using (mem_filter.mp hx).2
      rw [h] at hnodup hid
      have h1 := hid r (by simp)
      have h2 := hid r' (by simp)
      simp [h1, h2] at hnodup

variable {eid : Id}

theorem Kept.filed (hT : Kept T) {r : ElectionRow} (hrow : T.electionOf eid = [r]) :
    ∃ st, Filed r st :=
  hT.election r (mem_of_mem_filter (p := (·.id = quoted eid.val))
    (by rw [← Tables.electionOf, hrow]; simp))

theorem Kept.filedOptions (hT : Kept T) (eid : Id) : ∀ o ∈ T.optionsOf eid, FiledOption o :=
  fun o ho => (hT.option o (mem_of_mem_filter ho)).1

variable {c : Chatter} {n n' : Nat}

theorem Kept.read (hT : Kept T) (hids : DistinctIds T) {res : BbDbResult}
    (hrun : Prog.run (idealHandle c) (runOp (.getElection eid)) ⟨T, n⟩ = (.ok res, ⟨T, n'⟩))
    (hfound : res.found = true) :
    ∃ r st, T.electionOf eid = [r] ∧ Filed r st ∧ ReadAs T eid r st res := by
  rcases electionOf_cases hids eid with hnone | ⟨r, hrow⟩
  · rw [getElection_none hrun hnone] at hfound
    cases hfound
  · obtain ⟨st, hr⟩ := hT.filed hrow
    exact ⟨r, st, hrow, hr,
      getElection_filed hrun hrow hr (hT.filedOptions eid) (hT.options_le eid)⟩

theorem Kept.ownersOf_cases (hT : Kept T) (eid : Id) (cert : CertName) :
    T.ownersOf eid cert = [] ∨ ∃ o, T.ownersOf eid cert = [o] := by
  cases h : T.ownersOf eid cert with
  | nil => exact .inl rfl
  | cons o os =>
    cases os with
    | nil => exact .inr ⟨o, rfl⟩
    | cons o' os =>
      have hsub : ((T.ownersOf eid cert).map fun r => (r.electionId, r.certName)).Sublist
          (T.owner.map fun r => (r.electionId, r.certName)) := filter_sublist.map _
      have hnodup := hT.owner_nodup.sublist hsub
      have hkey : ∀ x ∈ T.ownersOf eid cert, x.electionId = quoted eid.val ∧
          x.certName = quoted cert.val := fun x hx => by simpa using (mem_filter.mp hx).2
      rw [h] at hnodup hkey
      obtain ⟨h1, h2⟩ := hkey o (by simp)
      obtain ⟨h3, h4⟩ := hkey o' (by simp)
      simp [h1, h2, h3, h4] at hnodup

theorem Kept.owner_hash (hT : Kept T) {cert : CertName} {o : OwnerRow}
    (ho : T.ownersOf eid cert = [o]) :
    ∃ hash : Hash, o.hash = quoted hash.val ∧ IsHash hash ∧ IsCount o.version := by
  have hmem : o ∈ T.owner := mem_of_mem_filter (p := fun r : OwnerRow =>
    decide (r.electionId = quoted eid.val ∧ r.certName = quoted cert.val))
    (by rw [← Tables.ownersOf, ho]; simp)
  obtain ⟨_, _, hash, h⟩ := hT.owner o hmem
  exact ⟨hash, h.hash_eq, h.isHash, h.version⟩

/-- A ballot is recorded in an open election, for a voter on its roll and one
of its options, and supersedes what the voter's row names. -/
theorem advance_record (hT : Kept T) (hids : DistinctIds T) {b : BbBallot} {rcpt : BbReceipt}
    (hrun : Prog.run (idealHandle c) (recordBallotLocked ⟨true⟩ eid b) ⟨T, n⟩ =
      (.ok rcpt, ⟨T', n'⟩)) : Advance T T' := by
  obtain ⟨res, seen, found, t₁, t₂, t₃, hget, hfound, hadm, -, -, hprior, ⟨hT₁, hT₂, -⟩, hrcpt,
    hrange, prior, hread, hT'⟩ := ideal_recordBallotLocked hrun
  simp only at hT₁ hT₂ hread hT'
  obtain ⟨hroll, -⟩ := admitted_roll hT.cleanRoll hget hfound hadm
  have hget' : Prog.run (idealHandle c) (runOp (.getElection eid)) ⟨T, n⟩ =
      (.ok res, ⟨T, t₁.clock⟩) := by rw [hget, ← hT₁]
  obtain ⟨r, st, hrow, hr, has⟩ := hT.read hids hget' hfound
  have hopened : st = .opened := by rw [← has.state, hadm.opened]
  subst hopened
  have hopt : 0 ≤ b.option ∧ b.option < (T.optionsOf eid).length := by
    refine ⟨hadm.option_nonneg, ?_⟩
    have := hadm.option_lt
    rwa [has.optionCount] at this
  rw [hrcpt] at hT'
  rcases hT.ownersOf_cases eid b.certName with hnone | ⟨o, hone⟩
  · have hf : found.found = false := prior_none hprior (by rw [hT₂, hnone])
    rw [hread.none_of hf, show nextVersion found = 1 by simp [nextVersion, hf]] at hT'
    rw [hT']
    exact .first hrow hr hroll hopt hnone
  · obtain ⟨hash, ho, hh, hv⟩ := hT.owner_hash hone
    obtain ⟨hf, hhash, -⟩ := prior_some hprior (by rw [hT₂, hone]) ho hh hv
    obtain ⟨opt, ver, hprior', hmark⟩ := hread.some_of hf
    obtain ⟨p, hp, rfl, rfl⟩ := markRead_mem hmark (by
      intro x hx
      rcases mem_append.mp (mem_of_mem_filter hx) with hx | hx
      · exact ⟨(hT.ballot x hx).1.option, (hT.ballot x hx).1.version⟩
      · have hle : (T.optionsOf eid).length ≤ 16 := hT.options_le eid
        rw [mem_singleton.mp hx]
        exact ⟨⟨hopt.1, by simp only [liveRow]; omega⟩, hrange⟩)
    obtain ⟨hpmem, hpkey⟩ := mem_filter.mp hp
    rw [hprior', hhash] at hT'
    rw [hT']
    exact .again hrow hr hroll hopt hone ho hrange hpmem (by rw [← hhash]; simpa using hpkey)

/-- What a change does to kept tables, as far as later requests can tell: a
new election, a transition of one, or a ballot in one that is open. -/
theorem Change.advance (hT : Kept T) (hids : DistinctIds T) (hids' : DistinctIds T') {call : Call}
    {evs : History} (h : Change c T call evs T') : Advance T T' := by
  cases h with
  | @create cfg desired id hid hsafe hseq =>
    refine .create ?_ hsafe hseq
    rw [DistinctIds, created, map_append, nodup_append] at hids'
    refine filter_eq_nil_iff.mpr fun r hr hrid => ?_
    exact hids'.2.2 r.id (mem_map_of_mem hr) _ (mem_singleton_self _)
      (by simpa [draftRow] using hrid)
  | @transition eid dst res out n₁ n₁' n₂ n₂' _ hread hfound hlegal hrun =>
    obtain ⟨r, st, hrow, hr, has⟩ := hT.read hids hread hfound
    obtain ⟨body, seqText, seq, title, openTime, closeTime, hreply, hcarried, hseq, -, hT'⟩ :=
      ideal_updateState hrun
    simp only at hT'
    rw [readCarried_filed hreply hrow hr] at hcarried
    cases hcarried
    rw [(readInt_fmtInt_some hseq).1] at hT'
    rw [hT']
    exact .move hrow hr (by rwa [← has.state])
  | record hrun => exact advance_record hT hids hrun

end Inversion

/-! ## Creating and moving an election -/

theorem mem_optionRows {id : Id} {os : List OptionName} {r : OptionRow} :
    ∀ {i : Nat}, r ∈ optionRows id i os → r.electionId = quoted id.val ∧
      (∃ j : Nat, r.idx = j ∧ j < i + os.length) ∧ ∃ o ∈ os, r.name = quoted o.val := by
  induction os with
  | nil => simp [optionRows]
  | cons o os ih =>
    intro i hr
    rcases mem_cons.mp hr with rfl | hr
    · exact ⟨rfl, ⟨i, rfl, by simp⟩, o, by simp, rfl⟩
    · obtain ⟨h1, ⟨j, hj, hlt⟩, o', ho', hname⟩ := ih hr
      exact ⟨h1, ⟨j, hj, by simp; omega⟩, o', by simp [ho'], hname⟩

theorem length_optionRows (id : Id) (i : Nat) (os : List OptionName) :
    (optionRows id i os).length = os.length := by
  induction os generalizing i with
  | nil => rfl
  | cons o os ih => simp [optionRows, ih]

theorem optionsOf_created (T : Tables) (id : Id) (cfg : BbConfig) (eid : Id) :
    (created T id cfg).optionsOf eid =
      T.optionsOf eid ++ if eid = id then optionRows id 0 cfg.options else [] := by
  have hrows : (optionRows id 0 cfg.options).filter (·.electionId = quoted eid.val) =
      if eid = id then optionRows id 0 cfg.options else [] := by
    split
    · rename_i h
      refine filter_eq_self.mpr fun r hr => ?_
      simp [(mem_optionRows hr).1, h]
    · rename_i h
      refine filter_eq_nil_iff.mpr fun r hr => ?_
      simp only [(mem_optionRows hr).1, quoted_val_inj, decide_eq_true_eq]
      exact Ne.symm h
  rw [← hrows]
  exact filter_append ..

variable {n : Nat}

theorem textField_safe {s : CStr n} (h : unsafeField s.val = false) :
    TextField (2 * n) (quoted s.val) := by
  obtain ⟨htab, hlf, -⟩ := unsafeField_eq_false.mp h
  exact textField_quoted htab hlf

theorem textField_copy [NeZero n] {f : Bytes} (h : CleanField f) :
    TextField (2 * n) (quoted (CStr.copy n f).val) := by
  have hsub : ∀ x ∈ (CStr.copy n f).val, x ∈ f := by
    intro x hx
    simp only [CStr.copy, cText_eq_self h.noNul] at hx
    exact mem_of_mem_take hx
  exact textField_quoted (fun hx => h.noTab (hsub _ hx)) fun hx => h.noLf (hsub _ hx)

section Step

variable {T T' : Tables}

variable {id : Id} {cfg : BbConfig}

theorem filed_draft (hsafe : SafeConfig id cfg) (hseq : IsCount (idSeq id.val)) :
    Filed (draftRow id cfg) .draft where
  seq := hseq
  id := textField_safe hsafe.id
  title := textField_safe hsafe.title
  state := rfl
  openTime := textField_safe hsafe.openTime
  closeTime := textField_safe hsafe.closeTime

theorem Kept.created (hT : Kept T) (hfresh : T.electionOf id = []) (hsafe : SafeConfig id cfg)
    (hseq : IsCount (idSeq id.val)) : Kept (created T id cfg) := by
  have hhas : ∀ x, T.Has x → (Brain.created T id cfg).Has x := by
    rintro x ⟨e, he, rfl⟩
    exact ⟨e, mem_append_left _ he, rfl⟩
  have hnone : T.optionsOf id = [] := by
    refine filter_eq_nil_iff.mpr fun r hr hrid => ?_
    obtain ⟨e, he, heid⟩ := (hT.option r hr).2
    refine filter_eq_nil_iff.mp hfresh e he ?_
    simpa [heid] using hrid
  have hmore : ∀ eid,
      (T.optionsOf eid).length ≤ ((Brain.created T id cfg).optionsOf eid).length := by
    intro eid
    rw [optionsOf_created, length_append]
    omega
  refine ⟨?_, ?_, ?_, cleanRoll_created hT.cleanRoll hsafe, ?_, hT.owner_nodup, ?_, hT.live⟩
  · intro r hr
    rcases mem_append.mp hr with hr | hr
    · exact hT.election r hr
    · exact ⟨.draft, mem_singleton.mp hr ▸ filed_draft hsafe hseq⟩
  · intro r hr
    rcases mem_append.mp hr with hr | hr
    · exact ⟨(hT.option r hr).1, hhas _ (hT.option r hr).2⟩
    · obtain ⟨heid, ⟨j, hj, hlt⟩, o, ho, hname⟩ := mem_optionRows hr
      have hle : cfg.options.length ≤ 16 := cfg.options_le
      refine ⟨⟨?_, ?_⟩, draftRow id cfg, by simp [Brain.created], heid.symm⟩
      · exact ⟨by omega, by omega⟩
      · rw [hname]
        exact textField_safe (hsafe.options o ho)
  · intro eid
    rw [optionsOf_created]
    split
    · rename_i h
      rw [h, hnone, nil_append, length_optionRows]
      exact cfg.options_le
    · rw [append_nil]
      exact hT.options_le eid
  · intro r hr
    obtain ⟨eid, cert, hash, h⟩ := hT.owner r hr
    exact ⟨eid, cert, hash, { h with roll := roll_mono (prefix_append _ _) _ h.roll }⟩
  · intro r hr
    obtain ⟨hfiled, eid, h⟩ := hT.ballot r hr
    refine ⟨hfiled, eid, h.electionId, lt_of_lt_of_le h.option ?_, hhas _ h.has⟩
    exact_mod_cast hmore eid

variable {eid : Id} {r : ElectionRow}

theorem id_of_electionOf (hrow : T.electionOf eid = [r]) : r.id = quoted eid.val := by
  have hmem : r ∈ T.electionOf eid := by simp [hrow]
  simpa using (mem_filter.mp hmem).2

variable {st : BbState}

theorem filed_moved (hrow : T.electionOf eid = [r]) (hr : Filed r st) (dst : BbState) :
    Filed ⟨r.seq, quoted eid.val, quoted (CStr.copy bbTitleLen r.title).val, bbStateStr dst,
      quoted (CStr.copy bbTimeLen r.openTime).val, quoted (CStr.copy bbTimeLen r.closeTime).val⟩
      dst where
  seq := hr.seq
  id := id_of_electionOf hrow ▸ hr.id
  title := textField_copy hr.title.toCleanField
  state := rfl
  openTime := textField_copy hr.openTime.toCleanField
  closeTime := textField_copy hr.closeTime.toCleanField

theorem Kept.moved (hT : Kept T) (hrow : T.electionOf eid = [r]) (hr : Filed r st) (dst : BbState) :
    Kept (moved T eid r.seq (CStr.copy _ r.title) dst (CStr.copy _ r.openTime)
      (CStr.copy _ r.closeTime)) := by
  have hhas : ∀ x, T.Has x → (Brain.moved T eid r.seq (CStr.copy _ r.title) dst
      (CStr.copy _ r.openTime) (CStr.copy _ r.closeTime)).Has x := by
    rintro x ⟨e, he, rfl⟩
    by_cases heid : e.id = quoted eid.val
    · exact ⟨_, mem_append_right _ (mem_singleton_self _), heid.symm⟩
    · exact ⟨e, mem_append_left _ (mem_filter.mpr ⟨he, by simpa using heid⟩), rfl⟩
  refine ⟨?_, fun r hr => ⟨(hT.option r hr).1, hhas _ (hT.option r hr).2⟩, hT.options_le,
    hT.cleanRoll, ?_, hT.owner_nodup, ?_, hT.live⟩
  · intro x hx
    rcases mem_append.mp hx with hx | hx
    · exact hT.election x (mem_of_mem_filter hx)
    · exact ⟨dst, mem_singleton.mp hx ▸ filed_moved hrow hr dst⟩
  · intro x hx
    obtain ⟨eid, cert, hash, h⟩ := hT.owner x hx
    exact ⟨eid, cert, hash, { h with }⟩
  · intro x hx
    obtain ⟨hfiled, eid, h⟩ := hT.ballot x hx
    exact ⟨hfiled, eid, h.electionId, h.option, hhas _ h.has⟩

/-! ## Recording a ballot -/

/-- The key under which ballots and owners are compared. -/
abbrev BallotRow.key (r : BallotRow) : Bytes × Bytes := (r.electionId, r.hash)

abbrev OwnerRow.key (r : OwnerRow) : Bytes × Bytes := (r.electionId, r.hash)

variable {eid : Id} {b : BbBallot} {version : Int}

theorem isCount_one : IsCount 1 := ⟨by decide, by decide⟩

theorem filedBallot_live (hT : Kept T)
    (hopt : 0 ≤ b.option ∧ b.option < (T.optionsOf eid).length) (hv : IsCount version) :
    FiledBallot (liveRow eid (receiptHash b.nonce version) b.option version) where
  hash := ⟨_, rfl, isHash_receiptHash _ _⟩
  option := by
    have hle : (T.optionsOf eid).length ≤ 16 := hT.options_le eid
    exact ⟨hopt.1, by simp only [liveRow]; omega⟩
  version := hv
  superseded := ⟨le_refl 0, by simp only [liveRow]; omega⟩

theorem Kept.setOwner_filed (hT : Kept T) (hroll : b.certName ∈ T.roll eid) (hv : IsCount version) :
    ∀ r ∈ setOwner eid b.certName (receiptHash b.nonce version) version T.owner,
      ∃ eid cert hash, FiledOwner T r eid cert hash := by
  intro r hr
  rcases mem_append.mp hr with hr | hr
  · exact hT.owner r (mem_of_mem_filter hr)
  · rw [mem_singleton.mp hr]
    exact ⟨eid, b.certName, _, rfl, rfl, rfl, isHash_receiptHash _ _, hv, hroll⟩

theorem Kept.setOwner_nodup (hT : Kept T) (hash : Hash) :
    ((setOwner eid b.certName hash version T.owner).map fun r =>
      (r.electionId, r.certName)).Nodup := by
  rw [setOwner, map_append, nodup_append]
  refine ⟨hT.owner_nodup.sublist (filter_sublist.map _), by simp, ?_⟩
  rintro x hx y hy rfl
  obtain ⟨r, hr, hrx⟩ := mem_map.mp hx
  obtain ⟨-, hne⟩ := mem_filter.mp hr
  rw [map_singleton, mem_singleton, ← hrx, Prod.mk.injEq] at hy
  simp [hy] at hne

/-- The rows of elections, options and the roll stand; ballots and owners are
as the hypotheses say. -/
theorem Kept.withBallots (hT : Kept T) (helection : T'.election = T.election)
    (hoption : T'.option = T.option) (heligible : T'.eligible = T.eligible)
    (howner : ∀ r ∈ T'.owner, ∃ eid cert hash, FiledOwner T r eid cert hash)
    (hnodup : (T'.owner.map fun r => (r.electionId, r.certName)).Nodup)
    (hballot : ∀ r ∈ T'.ballot, FiledBallot r ∧ ∃ eid, Chosen T r eid)
    (hlive : ((T'.ballot.filter (·.superseded = 0)).map BallotRow.key).Subperm
      (T'.owner.map OwnerRow.key)) : Kept T' := by
  have hroll : ∀ eid, T'.roll eid = T.roll eid := fun eid => by
    rw [Tables.roll, heligible, ← Tables.roll]
  have hopts : ∀ eid, T'.optionsOf eid = T.optionsOf eid := fun eid => by
    rw [Tables.optionsOf, hoption, ← Tables.optionsOf]
  have hhas : ∀ x, T.Has x → T'.Has x := fun x => by
    rintro ⟨e, he, hx⟩
    exact ⟨e, helection ▸ he, hx⟩
  refine ⟨?_, ?_, fun eid => hopts eid ▸ hT.options_le eid, ?_, ?_, hnodup, ?_, hlive⟩
  · exact fun r hr => hT.election r (helection ▸ hr)
  · intro r hr
    rw [hoption] at hr
    exact ⟨(hT.option r hr).1, hhas _ (hT.option r hr).2⟩
  · exact fun r hr => hT.cleanRoll r (heligible ▸ hr)
  · intro r hr
    obtain ⟨eid, cert, hash, h⟩ := howner r hr
    exact ⟨eid, cert, hash, { h with roll := hroll eid ▸ h.roll }⟩
  · intro r hr
    obtain ⟨hfiled, eid, h⟩ := hballot r hr
    exact ⟨hfiled, eid, h.electionId, hopts eid ▸ h.option, hhas _ h.has⟩

theorem Kept.append_ballot (hT : Kept T) (hrow : T.electionOf eid = [r])
    (hopt : 0 ≤ b.option ∧ b.option < (T.optionsOf eid).length) (hv : IsCount version) :
    ∀ x ∈ T.ballot ++ [liveRow eid (receiptHash b.nonce version) b.option version],
      FiledBallot x ∧ ∃ eid, Chosen T x eid := by
  intro x hx
  rcases mem_append.mp hx with hx | hx
  · exact hT.ballot x hx
  · rw [mem_singleton.mp hx]
    refine ⟨filedBallot_live hT hopt hv, eid, rfl, hopt.2, r, ?_, id_of_electionOf hrow⟩
    exact mem_of_mem_filter (p := (·.id = quoted eid.val))
      (by rw [← Tables.electionOf, hrow]; simp)

theorem Kept.first (hT : Kept T) {r : ElectionRow} (hrow : T.electionOf eid = [r])
    (hroll : b.certName ∈ T.roll eid)
    (hopt : 0 ≤ b.option ∧ b.option < (T.optionsOf eid).length)
    (howner : T.ownersOf eid b.certName = []) :
    Kept (recorded T eid b (receiptHash b.nonce 1) 1 none) := by
  refine hT.withBallots rfl rfl rfl (hT.setOwner_filed hroll isCount_one) (hT.setOwner_nodup _)
    (hT.append_ballot hrow hopt isCount_one) ?_
  have hsame : T.owner.filter (fun r => ¬ (r.electionId = quoted eid.val ∧
      r.certName = quoted b.certName.val)) = T.owner := by
    refine filter_eq_self.mpr fun x hx => ?_
    have hx' := filter_eq_nil_iff.mp howner x hx
    rw [decide_eq_true_eq] at hx' ⊢
    exact hx'
  show (((T.ballot ++ [_]).filter _).map _).Subperm ((setOwner ..).map _)
  rw [setOwner, hsame, filter_append, map_append, map_append]
  exact hT.live.append (List.Subperm.refl _)

/-- The row is not one with the hash. -/
def otherKey (eid : Id) (hash : Hash) (k : Bytes × Bytes) : Bool :=
  ¬ (k.1 = quoted eid.val ∧ k.2 = quoted hash.val)

theorem live_supersede (eid : Id) (p : Prior) (rows : List BallotRow) :
    ((supersede eid p rows).filter (·.superseded = 0)).map BallotRow.key =
      ((rows.filter (·.superseded = 0)).map BallotRow.key).filter (otherKey eid p.hash) := by
  have hsup : [(⟨quoted eid.val, quoted p.hash.val, p.option, p.version, 1⟩ : BallotRow)].filter
      (·.superseded = 0) = [] := rfl
  rw [supersede, filter_append, hsup, append_nil, filter_map, filter_filter,
    filter_filter]
  congr 1
  exact filter_congr fun x _ => Bool.and_comm _ _

theorem owners_left {o : OwnerRow} {hash : Hash} (howner : T.ownersOf eid b.certName = [o])
    (ho : o.hash = quoted hash.val) :
    ((T.owner.map OwnerRow.key).filter (otherKey eid hash)).Sublist ((T.owner.filter fun r =>
      ¬ (r.electionId = quoted eid.val ∧ r.certName = quoted b.certName.val)).map
        OwnerRow.key) := by
  have hsame : T.owner.filter (otherKey eid hash ∘ OwnerRow.key) = (T.owner.filter fun r =>
      ¬ (r.electionId = quoted eid.val ∧ r.certName = quoted b.certName.val)).filter
        (otherKey eid hash ∘ OwnerRow.key) := by
    rw [filter_filter]
    refine filter_congr fun x hx => ?_
    by_cases hvoter : x.electionId = quoted eid.val ∧ x.certName = quoted b.certName.val
    · have hxo : x ∈ T.ownersOf eid b.certName := mem_filter.mpr ⟨hx, by simpa using hvoter⟩
      rw [howner, mem_singleton] at hxo
      subst hxo
      simp [otherKey, hvoter, ho]
    · simp only [hvoter, not_false_eq_true, decide_true, Bool.and_true]
  rw [filter_map, hsame]
  exact filter_sublist.map _

theorem Kept.again (hT : Kept T) {r : ElectionRow} {o : OwnerRow} {p : BallotRow} {hash : Hash}
    (hrow : T.electionOf eid = [r]) (hroll : b.certName ∈ T.roll eid)
    (hopt : 0 ≤ b.option ∧ b.option < (T.optionsOf eid).length)
    (howner : T.ownersOf eid b.certName = [o]) (ho : o.hash = quoted hash.val)
    (hv : IsCount version)
    (hp : p ∈ T.ballot ++ [liveRow eid (receiptHash b.nonce version) b.option version])
    (hpkey : p.electionId = quoted eid.val ∧ p.hash = quoted hash.val) :
    Kept (recorded T eid b (receiptHash b.nonce version) version
      (some ⟨hash, p.optionIndex, p.version⟩)) := by
  have hrows := hT.append_ballot hrow hopt hv
  refine hT.withBallots rfl rfl rfl (hT.setOwner_filed hroll hv) (hT.setOwner_nodup _) ?_ ?_
  · intro x hx
    rcases mem_append.mp hx with hx | hx
    · exact hrows x (mem_of_mem_filter hx)
    · obtain ⟨hfiled, e, hchosen⟩ := hrows p hp
      rw [mem_singleton.mp hx, ← hpkey.1, ← hpkey.2]
      exact ⟨⟨hfiled.hash, hfiled.option, hfiled.version, isCount_one⟩, e,
        hchosen.electionId, hchosen.option, hchosen.has⟩
  · -- every live row with the hash goes, and of the owners only one that has it
    show List.Subperm (((supersede ..).filter _).map _) ((setOwner ..).map _)
    rw [live_supersede, filter_append, map_append, filter_append, setOwner,
      map_append]
    exact ((hT.live.filter _).trans (owners_left howner ho).subperm).append
      filter_sublist.subperm

/-- A change keeps the tables as they should be. -/
theorem Advance.kept (h : Advance T T') (hT : Kept T) : Kept T' := by
  cases h with
  | create hfresh hsafe hseq => exact hT.created hfresh hsafe hseq
  | move hrow hr hlegal => exact hT.moved hrow hr _
  | first hrow hr hroll hopt howner => exact hT.first hrow hroll hopt howner
  | again hrow hr hroll hopt howner ho hversion hp hpkey =>
    exact hT.again hrow hroll hopt howner ho hversion hp hpkey

end Step

/-! ## States, records and results along a change -/

/-- The state stored for an election, `none` before it is created. -/
def Tables.stateOf (T : Tables) (eid : Id) : Option BbState :=
  (T.electionOf eid).head?.bind fun r => parseState r.state

/-- The next state along DRAFT, OPEN, CLOSED, PUBLISHED. -/
def nextState : Option BbState → Option BbState
  | none => some .draft
  | some .draft => some .opened
  | some .opened => some .closed
  | some .closed => some .published
  | some .published => some .published

/-- The rows of ballot, ballot_owner and nonce for an election. -/
def Tables.records (T : Tables) (eid : Id) : List BallotRow × List OwnerRow × List NonceRow :=
  (T.ballot.filter (·.electionId = quoted eid.val), T.owner.filter (·.electionId = quoted eid.val),
    T.nonce.filter (·.electionId = quoted eid.val))

/-- The election is CLOSED or PUBLISHED. -/
def Tables.Over (T : Tables) (eid : Id) : Prop :=
  T.stateOf eid = some .closed ∨ T.stateOf eid = some .published

section Along

variable {T T' : Tables}

variable {eid : Id} {r : ElectionRow} {st : BbState}

theorem stateOf_filed (hrow : T.electionOf eid = [r]) (hr : Filed r st) :
    T.stateOf eid = some st := by
  have hparse : ∀ st, parseState (bbStateStr st) = some st := by
    intro st
    cases st <;> decide +kernel
  rw [Tables.stateOf, hrow, List.head?_cons, Option.bind_some, hr.state, hparse]

theorem electionOf_created (T : Tables) (id : Id) (cfg : BbConfig) (eid : Id) :
    (created T id cfg).electionOf eid =
      T.electionOf eid ++ if eid = id then [draftRow id cfg] else [] := by
  have hrow : [draftRow id cfg].filter (·.id = quoted eid.val) =
      if eid = id then [draftRow id cfg] else [] := by
    by_cases h : eid = id
    · simp [h, draftRow]
    · have hval : ¬ id.val = eid.val := fun hval => h (CStr.ext hval).symm
      simp [h, draftRow, hval]
  rw [← hrow]
  exact filter_append ..

variable {id : Id}

theorem electionOf_moved_ne (hne : eid ≠ id) (seq : Int) (title : Title) (st : BbState)
    (openTime closeTime : Time) :
    (moved T id seq title st openTime closeTime).electionOf eid = T.electionOf eid := by
  have hval : ¬ id.val = eid.val := fun hval => hne (CStr.ext hval).symm
  rw [Tables.electionOf, moved, filter_append, filter_filter, Tables.electionOf]
  have hnew : [(⟨seq, quoted id.val, quoted title.val, bbStateStr st, quoted openTime.val,
      quoted closeTime.val⟩ : ElectionRow)].filter (·.id = quoted eid.val) = [] := by simp [hval]
  rw [hnew, append_nil]
  refine filter_congr fun r _ => ?_
  by_cases hr : r.id = quoted eid.val
  · have hval' : ¬ eid.val = id.val := fun h => hval h.symm
    simp [hr, hval']
  · simp [hr]

theorem electionOf_moved_self (id : Id) (seq : Int) (title : Title) (st : BbState)
    (openTime closeTime : Time) :
    (moved T id seq title st openTime closeTime).electionOf id =
      [⟨seq, quoted id.val, quoted title.val, bbStateStr st, quoted openTime.val,
        quoted closeTime.val⟩] := by
  rw [Tables.electionOf, moved, filter_append, filter_filter]
  simp

theorem nextState_of_legal {dst : BbState} (h : bbIsLegalTransition st dst = true) :
    some dst = nextState (some st) := by
  cases st <;> cases dst <;> first | rfl | cases h

theorem Advance.stateOf (h : Advance T T') (eid : Id) :
    T'.stateOf eid = T.stateOf eid ∨ T'.stateOf eid = nextState (T.stateOf eid) := by
  cases h with
  | @create id cfg hfresh hsafe hseq =>
    by_cases heid : eid = id
    · subst heid
      right
      have hrow : (created T eid cfg).electionOf eid = [draftRow eid cfg] := by
        rw [electionOf_created, hfresh, if_pos rfl, nil_append]
      rw [stateOf_filed hrow (filed_draft hsafe hseq), Tables.stateOf, hfresh]
      rfl
    · left
      rw [Tables.stateOf, electionOf_created, if_neg heid, append_nil, Tables.stateOf]
  | @move id r st dst hrow hr hlegal =>
    by_cases heid : eid = id
    · subst heid
      right
      rw [stateOf_filed (electionOf_moved_self ..) (filed_moved hrow hr dst),
        stateOf_filed hrow hr, nextState_of_legal hlegal]
    · left
      rw [Tables.stateOf, electionOf_moved_ne heid, Tables.stateOf]
  | first => exact .inl rfl
  | again => exact .inl rfl

variable {α : Type} {x : α}

theorem filter_rewrite (key : α → Bytes) (hne : eid ≠ id) (drop : α → Prop) [DecidablePred drop]
    (hdrop : ∀ x, drop x → key x = quoted id.val) (rows : List α) (hx : key x = quoted id.val) :
    (rows.filter (fun y => ¬ drop y) ++ [x]).filter (fun y => key y = quoted eid.val) =
      rows.filter fun y => key y = quoted eid.val := by
  have hquoted : ¬ quoted id.val = quoted eid.val := fun h => hne (quoted_val_inj.mp h).symm
  have hnew : [x].filter (fun y => key y = quoted eid.val) = [] := by simp [hx, hquoted]
  rw [filter_append, hnew, append_nil, filter_filter]
  refine filter_congr fun y _ => ?_
  by_cases hy : key y = quoted eid.val
  · have hd : ¬ drop y := fun h => hquoted ((hdrop y h).symm.trans hy)
    simp [hy, hd]
  · simp [hy]

theorem filter_append_other (key : α → Bytes) (hne : eid ≠ id) {rows : List α}
    (hx : key x = quoted id.val) :
    (rows ++ [x]).filter (fun y => key y = quoted eid.val) =
      rows.filter fun y => key y = quoted eid.val := by
  have h := filter_rewrite key hne (fun _ => False) (fun _ h => h.elim) rows hx
  simpa using h

theorem records_recorded (hne : eid ≠ id) (b : BbBallot) (hash : Hash) (version : Int)
    (prior : Option Prior) : (recorded T id b hash version prior).records eid = T.records eid := by
  refine Prod.ext ?_ (Prod.ext ?_ ?_)
  · cases prior with
    | none => exact filter_append_other BallotRow.electionId hne rfl
    | some p =>
      refine (filter_rewrite BallotRow.electionId hne (fun r => r.electionId = quoted id.val ∧
        r.hash = quoted p.hash.val) (fun _ h => h.1) _ rfl).trans ?_
      exact filter_append_other BallotRow.electionId hne rfl
  · exact filter_rewrite OwnerRow.electionId hne (fun r => r.electionId = quoted id.val ∧
      r.certName = quoted b.certName.val) (fun _ h => h.1) _ rfl
  · exact filter_append_other NonceRow.electionId hne rfl

theorem liveOf_congr (h : T'.records eid = T.records eid) : T'.liveOf eid = T.liveOf eid := by
  have hlive : ∀ T : Tables, T.liveOf eid = (T.records eid).1.filter (·.superseded = 0) := by
    intro T
    rw [Tables.records, filter_filter, Tables.liveOf]
    refine filter_congr fun r _ => ?_
    rw [Bool.decide_and]
    exact Bool.and_comm _ _
  rw [hlive, hlive, h]

theorem not_over_of_opened (hrow : T.electionOf eid = [r]) (hr : Filed r .opened) :
    ¬ T.Over eid := by
  rw [Tables.Over, stateOf_filed hrow hr]
  decide

theorem not_over_of_fresh (hrow : T.electionOf eid = []) : ¬ T.Over eid := by
  rw [Tables.Over, Tables.stateOf, hrow]
  exact fun h => by rcases h with h | h <;> cases h

/-- Nothing is recorded in an election that is over, and its options stand,
so what is read of it stays what it was. -/
theorem Advance.over (h : Advance T T') (hover : T.Over eid) :
    T'.records eid = T.records eid ∧ T'.optionsOf eid = T.optionsOf eid := by
  cases h with
  | @create id cfg hfresh hsafe hseq =>
    have hne : eid ≠ id := by
      rintro rfl
      exact not_over_of_fresh hfresh hover
    exact ⟨rfl, by rw [optionsOf_created, if_neg hne, append_nil]⟩
  | move => exact ⟨rfl, rfl⟩
  | @first id b r hrow hr | @again id b r o p hash version hrow hr =>
    refine ⟨records_recorded ?_ b _ _ _, rfl⟩
    rintro rfl
    exact not_over_of_opened hrow hr hover

theorem Advance.over_again (h : Advance T T') (hover : T.Over eid) : T'.Over eid := by
  unfold Tables.Over at *
  rcases h.stateOf eid with h | h <;> rcases hover with ho | ho <;> rw [h, ho] <;> simp [nextState]

theorem Advance.published (h : Advance T T') (hpub : T.stateOf eid = some .published) :
    T'.electionOf eid = T.electionOf eid := by
  cases h with
  | @create id cfg hfresh hsafe hseq =>
    have hne : eid ≠ id := by
      rintro rfl
      exact not_over_of_fresh hfresh (.inr hpub)
    rw [electionOf_created, if_neg hne, append_nil]
  | @move id r st dst hrow hr hlegal =>
    refine electionOf_moved_ne ?_ ..
    rintro rfl
    rw [stateOf_filed hrow hr] at hpub
    cases hpub
    cases hlegal
  | first => rfl
  | again => rfl

end Along

/-! ## The results of kept tables -/

section Results

variable {T : Tables}

/-- An election has no more live ballots than its roll has names. -/
theorem Kept.length_liveOf_le (hT : Kept T) (eid : Id) : (T.liveOf eid).length ≤ bbMaxVoters := by
  let owners := T.owner.filter (·.electionId = quoted eid.val)
  have howners : (T.liveOf eid).length ≤ owners.length := by
    have h := (hT.live.filter fun k => k.1 = quoted eid.val).length_le
    rw [filter_map, length_map, filter_map, length_map, filter_filter] at h
    refine le_trans (le_of_eq ?_) h
    congr 1
    refine filter_congr fun r _ => ?_
    rw [Bool.decide_and]
    rfl
  have hnodup : (owners.map (·.certName)).Nodup := by
    have hkeys : (owners.map fun r => (r.electionId, r.certName)).Nodup :=
      hT.owner_nodup.sublist (filter_sublist.map _)
    refine List.Nodup.map_on (fun x hx y hy hxy => ?_) (hkeys.of_map _)
    refine inj_on_of_nodup_map hkeys hx hy (Prod.ext ?_ hxy)
    have hx' : x.electionId = quoted eid.val := by simpa using (mem_filter.mp hx).2
    have hy' : y.electionId = quoted eid.val := by simpa using (mem_filter.mp hy).2
    exact hx'.trans hy'.symm
  have hsub : owners.map (·.certName) ⊆ (T.roll eid).map fun cert => quoted cert.val := by
    intro x hx
    obtain ⟨r, hr, rfl⟩ := mem_map.mp hx
    obtain ⟨hr, hreid⟩ := mem_filter.mp hr
    obtain ⟨eid', cert, hash, h⟩ := hT.owner r hr
    rw [decide_eq_true_eq, h.electionId, quoted_val_inj] at hreid
    subst hreid
    exact mem_map.mpr ⟨cert, h.roll, h.certName.symm⟩
  have hle := (subperm_of_subset hnodup hsub).length_le
  rw [length_map, length_map, Tables.roll, length_map] at hle
  exact howners.trans (hle.trans (length_take_le _ _))

theorem Kept.filedLive (hT : Kept T) (eid : Id) : ∀ r ∈ T.liveOf eid, FiledBallot r :=
  fun r hr => (hT.ballot r (mem_of_mem_filter hr)).1

theorem Kept.live_option (hT : Kept T) {eid : Id} {r : BallotRow} (hr : r ∈ T.liveOf eid) :
    0 ≤ r.optionIndex ∧ r.optionIndex < (T.optionsOf eid).length := by
  obtain ⟨hmem, hkey⟩ := mem_filter.mp hr
  obtain ⟨hfiled, eid', h⟩ := hT.ballot r hmem
  rw [decide_eq_true_eq, h.electionId, quoted_val_inj] at hkey
  obtain ⟨rfl, -⟩ := hkey
  exact ⟨hfiled.option.1, h.option⟩

end Results

end Corestack.Brain
