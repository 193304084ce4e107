import Corestack.Brain.Paired
import Corestack.Brain.Standing

/-!
# Ballot integrity over whole runs

While receipt hashes are distinct within each election, the ballot table
is exactly the ledger of the run: each voter has one row for every ballot
accepted, numbered from 1, and the last one counts.
-/

namespace Corestack.Brain

open Function List Lib Db

/-- No two accepted ballots of one election have the same hash. -/
def DistinctHashes (h : History) : Prop :=
  h.Pairwise fun a b => a.1.1 = b.1.1 → a.2.hash ≠ b.2.hash

instance (h : History) : Decidable (DistinctHashes h) :=
  inferInstanceAs (Decidable (List.Pairwise _ _))

variable {h : History}

theorem DistinctHashes.entry_eq (hd : DistinctHashes h) {e e' : Entry Voter Vote}
    (he : e ∈ ledger h) (he' : e' ∈ ledger h) (heid : e.key.1 = e'.key.1)
    (hhash : e.val.hash = e'.val.hash) : e = e' := by
  rw [DistinctHashes, ← map_ledger h, pairwise_map] at hd
  by_contra hne
  have hsymm : Std.Symm fun a b : Entry Voter Vote =>
      a.key.1 = b.key.1 → a.val.hash ≠ b.val.hash :=
    ⟨fun a b hab hk hv => hab hk.symm hv.symm⟩
  exact hd.forall he he' hne heid hhash

theorem DistinctHashes.hashFree {k : Voter} {w : Vote} (hd : DistinctHashes ((k, w) :: h)) :
    HashFree h k w.hash := by
  obtain ⟨hnew, hd⟩ := pairwise_cons.mp hd
  intro v hv
  obtain ⟨vs, hvs⟩ := List.head?_eq_some_iff.mp hv
  have hmem := mem_ledger_of_head hvs
  exact ⟨hnew _ (mem_of_mem_ledger hmem) rfl, fun e he heid hhash =>
    congrArg Entry.key (DistinctHashes.entry_eq hd (mem_of_mem_filter he) hmem heid hhash)⟩

section Exact

variable {c : Chatter} {h : History} {T T' : Tables} {eid : Id} {b : BbBallot} {rcpt : BbReceipt}

/-- Among the rows of the ledger and the new one, only the voter's live row
has the hash that is superseded. -/
theorem ballotsOf_superseded (hT : T.ballot.Perm ((ledger h).map ballotRow)) {v : Vote}
    {vs : List Vote} (hvals : valuesOf (eid, b.certName) h = v :: vs)
    (hd : DistinctHashes (accepted eid b (.ok rcpt) ++ h)) {m : Int} :
    ({ T with ballot := T.ballot ++ [liveRow eid rcpt.hash b.option m] } : Tables).ballotsOf eid
      v.hash = [ballotRow ⟨(eid, b.certName), v, vs.length + 1, true⟩] := by
  obtain ⟨hnew, hd⟩ := pairwise_cons.mp hd
  have hmem := mem_ledger_of_head hvals
  have hne : rcpt.hash ≠ v.hash := hnew _ (mem_of_mem_ledger hmem) rfl
  have hval : ¬ rcpt.hash.val = v.hash.val := fun h => hne (CStr.ext h)
  rw [Tables.ballotsOf, filter_append]
  have hlast : [liveRow eid rcpt.hash b.option m].filter (fun r => decide (r.electionId =
      quoted eid.val ∧ r.hash = quoted v.hash.val)) = [] := by
    simp [liveRow, hval]
  rw [hlast, append_nil]
  refine perm_singleton.mp ((hT.filter _).trans (List.Perm.of_eq ?_))
  rw [filter_map, ← map_singleton]
  congr 1
  have hlive := current_filter_key (eid, b.certName) h
  rw [hvals] at hlive
  refine Eq.trans ?_ hlive
  rw [current, filter_filter]
  refine filter_congr fun e he => ?_
  rw [Bool.eq_iff_iff, Bool.and_eq_true, decide_eq_true_eq]
  simp only [comp, ballotRow, quoted_val_inj, decide_eq_true_eq]
  constructor
  · rintro ⟨h1, h2⟩
    rw [DistinctHashes.entry_eq hd he hmem h1 h2]
    exact ⟨rfl, rfl⟩
  · rintro ⟨h1, h2⟩
    rw [current_of_key hvals (mem_filter.mpr ⟨he, h2⟩) h1]
    exact ⟨rfl, rfl⟩

theorem ballot_record (hst : Standing h T) (hT : T.ballot.Perm ((ledger h).map ballotRow))
    (hrec : RecordedAs c h T eid b rcpt T') (hd : DistinctHashes (accepted eid b (.ok rcpt) ++ h)) :
    T'.ballot.Perm ((ledger (accepted eid b (.ok rcpt) ++ h)).map ballotRow) := by
  show T'.ballot.Perm ((ledger (((eid, b.certName), ⟨rcpt.hash, b.option⟩) :: h)).map ballotRow)
  rw [ledger, map_cons]
  rcases hrec.tables with ⟨hvals, rfl⟩ | ⟨v, vs, opt, ver, hvals, rfl, hmark⟩
  · have hid : (ledger h).map (Entry.retire (eid, b.certName)) = ledger h := by
      rw [map_congr_left (g := id) fun e he => ?_, map_id]
      refine Entry.retire_of_ne fun hek => ?_
      have : e ∈ (ledger h).filter (·.key = (eid, b.certName)) :=
        mem_filter.mpr ⟨he, by simpa using hek⟩
      rw [ledger_filter_key, hvals] at this
      cases this
    rw [hid, hvals]
    exact perm_append_comm.trans (List.Perm.cons _ hT)
  · obtain ⟨hnew, hd'⟩ := pairwise_cons.mp hd
    have hmem := mem_ledger_of_head hvals
    have hopt := hst.option _ (mem_of_mem_ledger hmem)
    have hver := hrec.version
    rw [hvals, length_cons] at hver
    obtain ⟨rfl, rfl⟩ := markRead_single hmark (ballotsOf_superseded hT hvals hd)
      ⟨hopt.1, lt_trans hopt.2 (by decide)⟩
      ⟨Int.natCast_nonneg _, by simp only [ballotRow]; exact_mod_cast Nat.lt_of_succ_lt hver⟩
    have hne : rcpt.hash ≠ v.hash := hnew _ (mem_of_mem_ledger hmem) rfl
    have hval : ¬ rcpt.hash.val = v.hash.val := fun h => hne (CStr.ext h)
    have hperm := (map_retire_perm hvals
      (p := fun e => e.key.1 = eid ∧ e.val.hash = v.hash) ?_).map ballotRow
    · have hlast : [liveRow eid rcpt.hash b.option (vs.length + 2 : Nat)].filter (fun r =>
          decide (¬ (r.electionId = quoted eid.val ∧ r.hash = quoted v.hash.val))) =
          [liveRow eid rcpt.hash b.option (vs.length + 2 : Nat)] := by
        simp [liveRow, hval]
      show (supersede eid _ (T.ballot ++ _)).Perm _
      rw [supersede, filter_append, hlast, append_assoc]
      refine perm_append_comm.trans ?_
      rw [append_assoc]
      refine (List.Perm.append (List.Perm.of_eq ?_) (perm_append_comm.trans
        (((hT.filter _).append_right _).trans ?_))).trans (List.Perm.of_eq singleton_append)
      · simp [liveRow, ballotRow, hvals]
        rfl
      · refine (List.Perm.of_eq ?_).trans hperm.symm
        rw [filter_map, map_append]
        congr 2
        refine filter_congr fun e _ => ?_
        simp only [comp, ballotRow, quoted_val_inj, Bool.decide_and, decide_not]
    · intro e he
      rw [decide_eq_true_eq]
      constructor
      · rintro ⟨h1, h2⟩
        exact DistinctHashes.entry_eq hd' he hmem h1 h2
      · rintro rfl
        exact ⟨rfl, rfl⟩

end Exact

/-! ## Whole runs -/

/-- The ballot table is the ledger of the history. -/
structure Exact (h : History) (T : Tables) : Prop extends Standing h T where
  ballot : T.ballot.Perm ((ledger h).map ballotRow)

variable {T : Tables}

theorem exact_of_change {c : Chatter} {T' : Tables} {call : Call} {evs : History}
    (hex : DistinctHashes h → Exact h T) (hch : Change c T call evs T')
    (hd : DistinctHashes (evs ++ h)) : Exact (evs ++ h) T' := by
  cases hch with
  | create hid hsafe hseq =>
    have hex := hex hd
    exact ⟨hex.toStanding.created hsafe, hex.ballot⟩
  | transition hread hfound hlegal hrun =>
    have hex := hex hd
    obtain ⟨-, -, seq, title, openTime, closeTime, -, -, -, -, rfl⟩ := ideal_updateState hrun
    exact ⟨hex.toStanding.moved rfl, hex.ballot⟩
  | record hrun =>
    have hex := hex (pairwise_cons.mp hd).2
    have hrec := hex.toStanding.recorded_of_run hrun
    exact ⟨hex.toStanding.record hrec (DistinctHashes.hashFree hd),
      ballot_record hex.toStanding hex.ballot hrec hd⟩

/-- The rows of the ballot table that come from a voter. -/
def Tables.rowsFrom (T : Tables) (h : History) (k : Voter) : List BallotRow :=
  T.ballot.filter fun r => r.electionId = quoted k.1.val ∧
    ∃ v ∈ valuesOf k h, r.hash = quoted v.hash.val

/-- What the tables say about a voter with `n` accepted ballots. -/
structure InOrder (h : History) (T : Tables) (k : Voter) : Prop where
  rows : (T.rowsFrom h k).length = (valuesOf k h).length
  versions : ((T.rowsFrom h k).map (·.version)).Perm
    ((List.range (valuesOf k h).length).map fun i : Nat => (i : Int) + 1)
  live : (T.rowsFrom h k).filter (·.superseded = 0) = ((valuesOf k h).head?.map fun v =>
    liveRow k.1 v.hash v.option (valuesOf k h).length).toList
  owner : T.ownersOf k.1 k.2 = ((valuesOf k h).head?.map fun v =>
    ⟨quoted k.1.val, quoted k.2.val, quoted v.hash.val, (valuesOf k h).length⟩).toList

/-- The number of voters of an election whose last accepted choice is `i`. -/
def lastChoices (h : History) (eid : Id) (i : Int) : Nat :=
  ((h.map (·.1)).dedup.filter fun k =>
    k.1 = eid ∧ (valuesOf k h).head?.map (·.option) = some i).length

theorem Exact.rowsFrom (hex : Exact h T) (hd : DistinctHashes h) (k : Voter) :
    (T.rowsFrom h k).Perm ((numbered k true (valuesOf k h)).map ballotRow) := by
  refine (hex.ballot.filter _).trans (List.Perm.of_eq ?_)
  rw [filter_map, ← ledger_filter_key]
  congr 1
  refine filter_congr fun e he => ?_
  rw [Bool.eq_iff_iff, decide_eq_true_eq]
  simp only [comp, ballotRow, quoted_val_inj, decide_eq_true_eq]
  constructor
  · rintro ⟨h1, v, hv, h2⟩
    -- The hash is that of an entry of the voter, so the entry is the voter's.
    have hkv : (k, v) ∈ h := by
      obtain ⟨p, hp, rfl⟩ := mem_map.mp hv
      obtain ⟨hp, hk⟩ := mem_filter.mp hp
      rw [decide_eq_true_eq] at hk
      exact hk ▸ hp
    rw [← map_ledger h] at hkv
    obtain ⟨e', he', heq⟩ := mem_map.mp hkv
    obtain ⟨rfl, rfl⟩ := Prod.mk.inj heq
    rw [hd.entry_eq he he' h1 h2]
  · rintro rfl
    refine ⟨rfl, e.val, ?_, rfl⟩
    exact mem_map.mpr ⟨_, mem_filter.mpr ⟨mem_of_mem_ledger he, by simp⟩, rfl⟩

theorem Exact.inOrder (hex : Exact h T) (hd : DistinctHashes h) (k : Voter) : InOrder h T k := by
  have hrows := hex.rowsFrom hd k
  have hversions : ((numbered k true (valuesOf k h)).map ballotRow).map (·.version) =
      ((List.range (valuesOf k h).length).map fun i : Nat => (i : Int) + 1).reverse := by
    have := congrArg (List.map (Nat.cast : Nat → Int)) (versions_numbered k true (valuesOf k h))
    simpa [comp_def, ballotRow] using this
  refine ⟨?_, ?_, ?_, ?_⟩
  · have := congrArg List.length hversions
    rw [hrows.length_eq]
    simpa using this
  · refine (hrows.map _).trans ?_
    rw [hversions]
    exact reverse_perm _
  · have hfilter := hrows.filter fun r => r.superseded = 0
    have hnumbered : ((numbered k true (valuesOf k h)).map ballotRow).filter
        (fun r => decide (r.superseded = 0)) = ((valuesOf k h).head?.map fun v =>
          liveRow k.1 v.hash v.option (valuesOf k h).length).toList := by
      cases hv : valuesOf k h with
      | nil => rfl
      | cons v vs =>
        rw [numbered, map_cons, filter_cons_of_pos (by simp [ballotRow]),
          filter_eq_nil_iff.mpr]
        · rfl
        · intro r hr
          obtain ⟨e, he, rfl⟩ := mem_map.mp hr
          simp [ballotRow, not_live_numbered k vs e he]
    rw [hnumbered] at hfilter
    cases hv : (valuesOf k h).head? with
    | none =>
      rw [hv] at hfilter
      exact hfilter.eq_nil
    | some v =>
      rw [hv] at hfilter
      exact perm_singleton.mp hfilter
  · have howner := hex.toStanding.ownersOf k
    cases hv : (valuesOf k h).head? with
    | none =>
      rw [hv] at howner
      exact howner.eq_nil
    | some v =>
      rw [hv] at howner
      exact perm_singleton.mp howner

/-- The live entries of an election with a choice are the voters who made it
last. -/
theorem length_current_choice (h : History) (eid : Id) (i : Int) :
    ((current h).filter fun e => e.key.1 = eid ∧ e.val.option = i).length =
      lastChoices h eid i := by
  rw [lastChoices, ← length_map (·.key)]
  refine List.Perm.length_eq ((perm_ext_iff_of_nodup ?_ ?_).mpr fun k => ?_)
  · exact (current_keys_nodup h).sublist (filter_sublist.map _)
  · exact (nodup_dedup _).filter _
  · simp only [mem_map, mem_filter, mem_dedup, decide_eq_true_eq]
    constructor
    · rintro ⟨e, ⟨he, heid, hopt⟩, rfl⟩
      refine ⟨⟨_, mem_of_mem_ledger (mem_of_mem_filter he), rfl⟩, heid, ?_⟩
      rw [(mem_current.mp he).1, Option.map_some, hopt]
    · rintro ⟨-, heid, hopt⟩
      obtain ⟨v, hv, rfl⟩ := Option.map_eq_some_iff.mp hopt
      exact ⟨⟨k, v, (valuesOf k h).length, true⟩, ⟨mem_current.mpr ⟨hv, rfl, rfl⟩, heid, rfl⟩, rfl⟩

/-- Ballot integrity. After any run of calls, whatever statements failed,
each voter's rows are the ballots accepted from them, numbered from 1 with
the last one live, and the tally counts each voter's last choice. This takes
distinct receipt hashes, that no commit takes effect unnoticed and, on a
socket, that no nonce and no name on a roll is the end line of an answer. -/
theorem ballots_match_history {env : Env} (hl : env.lostCommitApplies = false) {calls : List Call}
    (hcalls : ReadInStep env calls) {d : Daemon} (hrun : runCalls env calls = (h, d))
    (hd : DistinctHashes h) :
    (∀ k, InOrder h d.world.tables k) ∧
      ∀ eid out w', Prog.run (handle env) (dbExec d.ctx (.getTally eid)) d.world = (.ok out, w') →
        ∀ i : Fin bbMaxOptions, out.tally i = lastChoices h eid i := by
  obtain ⟨hidle, hex⟩ := @runCalls_inv env.paired rfl hl
    (fun h T => DistinctHashes h → Exact h T) (fun _ => ⟨standing_empty, List.Perm.refl _⟩)
    (fun h T call evs T' hex hch => exact_of_change hex hch) calls
  rw [← hcalls.runCalls_eq, hrun] at hidle hex
  have hex := hex hd
  refine ⟨hex.inOrder hd, ?_⟩
  intro eid out w' htally i
  rw [hidle.ctx, (alone_dbExec env (.getTally eid) _ hidle.session).1] at htally
  obtain ⟨-, -, hideal⟩ := @dbExec_read env.paired _ _ rfl hidle.session _ rfl _ htally
  obtain ⟨n, n', hideal⟩ := hideal out rfl
  rw [hex.toStanding.tally hideal i, length_current_choice]

theorem ballots_match_history_poll :
    ((runCalls pollSocketEnv pollRun).1.length = 3 ∧
      DistinctHashes (runCalls pollSocketEnv pollRun).1) ∧
      ∀ k, InOrder (runCalls pollSocketEnv pollRun).1
        (runCalls pollSocketEnv pollRun).2.world.tables k := by
  have hd : (runCalls pollSocketEnv pollRun).1.length = 3 ∧
      DistinctHashes (runCalls pollSocketEnv pollRun).1 := by decide +kernel
  exact ⟨hd, (ballots_match_history rfl (fun _ => pollRun_plain) Prod.mk.eta.symm hd.2).1⟩

end Corestack.Brain
