import Corestack.Brain.Alone
import Corestack.Brain.Kept

/-!
# Fresh election ids

An id that is asked for is looked up before it is used. An id that is
allocated follows the highest number stored, and the number of an id is
stored with it, so it is fresh as well. The exception is the id handed out
when the store does not tell its highest number: that is E-100, whether or
not there is an election E-100 already.

Creating an election reads in step whatever names are on the rolls: the
roll is the last thing read on a connection.
-/

namespace Corestack.Brain

open List Lib Db

/-! ## Numbers and ids -/

def numberedId (k : Int) : Id := CStr.copy _ (bytes "E-" ++ fmtInt k)

def firstId : Id := numberedId 100

theorem numberedId_val {k : Int} (hk : IsInt32 k) :
    (numberedId k).val = bytes "E-" ++ fmtInt k := by
  refine CStr.copy_val ?_ fun h0 => ?_
  · have hlen := length_fmtInt_le hk
    have hpre : (bytes "E-").length = 2 := by decide +kernel
    rw [length_append, hpre]
    unfold bbIdLen
    omega
  · rcases mem_append.mp h0 with h | h
    · exact absurd h (by decide +kernel)
    · exact (cleanField_fmtInt k).noNul h

theorem dash_notMem_fmtInt {k : Int} (hk : 0 ≤ k) : 45 ∉ fmtInt k := by
  obtain ⟨n, rfl⟩ := Int.eq_ofNat_of_zero_le hk
  exact fun h => absurd (fmtNat_isDigit h) (by decide)

theorem idSeq_numberedId {k : Int} (hk : IsCount k) : idSeq (numberedId k).val = k := by
  have h1 := hk.1
  have h2 := hk.2
  have hval : (numberedId k).val = [69] ++ 45 :: fmtInt k := numberedId_val hk.isInt32
  have hsplit : split 45 (numberedId k).val = [[69], fmtInt k] := by
    rw [hval, split_append (by decide), split_piece (dash_notMem_fmtInt h1)]
  simp only [idSeq, hsplit, reverse_cons, reverse_nil, nil_append,
    singleton_append, strtol_fmtInt (by omega : -(2 ^ 63) < k) (by omega)]
  rw [if_neg (by simp [h1]), toInt32_eq_self hk.isInt32]

/-- Every row stores the number of its id. -/
structure Numbered (T : Tables) : Prop where
  rows : ∀ r ∈ T.election, (∃ id : Id, r.id = quoted id.val ∧ r.seq = idSeq id.val) ∧
    ∃ st, Filed r st
  distinct : DistinctIds T

section Choose

variable {env : Env} {w w' : World} {T : Tables}

theorem nextSeq_told (hT : Numbered T) {c : Chatter} {n : Nat} {body : Bytes}
    (hreply : ownReply 4096 (done c n .selectMaxSeq T none (T.query .selectMaxSeq)) = (.ok, body)) :
    T.election = [] ∨ ∃ m, IsCount m ∧ (∀ r ∈ T.election, r.seq ≤ m) ∧
      nextSeq body = toInt32 (m + 1) := by
  cases hmax : (T.election.map (·.seq)).max? with
  | none =>
    left
    rw [List.max?_eq_none_iff, map_eq_nil_iff] at hmax
    exact hmax
  | some m =>
    right
    obtain ⟨hmem, hle⟩ := List.max?_eq_some_iff.mp hmax
    obtain ⟨r, hr, rfl⟩ := mem_map.mp hmem
    obtain ⟨st, hfiled⟩ := (hT.rows r hr).2
    have hq : T.query .selectMaxSeq = some [[fmtInt r.seq]] := by
      rw [Tables.query, hmax]
      rfl
    rw [hq] at hreply
    obtain ⟨htidy, hlen⟩ := tidyRow_option hfiled.seq
    obtain ⟨hcount, hfields⟩ := select_tidy_reply (by simpa using htidy)
      (by simp only [rowsSize, map_singleton, sum_singleton]; omega) (by decide) hreply
    refine ⟨r.seq, hfiled.seq, fun x hx => hle _ (mem_map_of_mem hx), ?_⟩
    have h1 := hfiled.seq.1
    have h2 := hfiled.seq.2
    simp only [nextSeq, hcount, length_singleton, hfields, List.getElem?_cons_zero,
      copy_fmtInt hfiled.seq.isInt32, strtol_fmtInt (by omega : -(2 ^ 63) < r.seq) (by omega),
      h1, and_self, if_true, toInt32_eq_self hfiled.seq.isInt32]

theorem next_fresh (hT : Numbered T) {c : Chatter} {n : Nat} {body : Bytes}
    (hreply : ownReply 4096 (done c n .selectMaxSeq T none (T.query .selectMaxSeq)) = (.ok, body))
    (hseq : IsCount (idSeq (numberedId (nextSeq body)).val)) :
    T.electionOf (numberedId (nextSeq body)) = [] := by
  rcases nextSeq_told hT hreply with hnil | ⟨m, hm, hle, hnext⟩
  · rw [Tables.electionOf, hnil]
    rfl
  · obtain ⟨h1, h2⟩ := hm
    by_cases hlast : m + 1 < 2 ^ 31
    · have hcount : IsCount (m + 1) := ⟨by omega, hlast⟩
      rw [hnext, toInt32_eq_self hcount.isInt32]
      refine filter_eq_nil_iff.mpr fun r hr hid => ?_
      obtain ⟨id, hrid, hrseq⟩ := (hT.rows r hr).1
      rw [decide_eq_true_eq, hrid, quoted_val_inj] at hid
      have := hle r hr
      rw [hrseq, hid, idSeq_numberedId hcount] at this
      omega
    · -- the number after the last one wraps around, and its row is refused
      have hwrap : m = 2 ^ 31 - 1 := by omega
      subst hwrap
      rw [hnext] at hseq
      exact absurd hseq.1 (by decide +kernel)

/-- The store is reached and told to answer `select max(seq)`. -/
def Told (env : Env) (w : World) : Prop :=
  env.fate w.clock = .answer ∧ env.fate (w.clock + 1) = .answer

instance (env : Env) (w : World) : Decidable (Told env w) := inferInstanceAs (Decidable (_ ∧ _))

/-- An id is asked for, or the store tells its highest number, or there is no
election E-100. -/
def Allocates (env : Env) (w : World) (desired : Id) : Prop :=
  desired.val ≠ [] ∨ Told env w ∨ w.tables.electionOf firstId = []

instance (env : Env) (w : World) (desired : Id) : Decidable (Allocates env w desired) :=
  inferInstanceAs (Decidable (_ ∨ _))

theorem maxSeq_ok (hT : Numbered T) (c : Chatter) (n : Nat) :
    (ownReply 4096 (done c n .selectMaxSeq T none (T.query .selectMaxSeq))).1 = .ok := by
  have hrows : ∀ r ∈ (T.election.map (·.seq)).max?.toList.map (fun v => [fmtInt v]),
      TidyRow r ∧ (join tab r).length + 1 ≤ 12 := by
    intro r hr
    obtain ⟨v, hv, rfl⟩ := mem_map.mp hr
    rw [Option.mem_toList] at hv
    obtain ⟨x, hx, rfl⟩ := mem_map.mp (List.max?_mem hv)
    obtain ⟨st, hfiled⟩ := (hT.rows x hx).2
    exact tidyRow_option hfiled.seq
  have hsize := rowsSize_le fun r hr => (hrows r hr).2
  have hlen : ((T.election.map (·.seq)).max?.toList.map fun v => [fmtInt v]).length ≤ 1 := by
    cases (T.election.map (·.seq)).max? <;> simp
  obtain ⟨body, hreply, -⟩ := select_tidy c n .selectMaxSeq (fun r hr => (hrows r hr).1)
    (show _ + 2200 ≤ 4096 by omega) (by decide) T none
  exact congrArg Prod.fst hreply

theorem bbAllocId_told (hk : env.keepsUnread = false) (hT : Numbered w.tables)
    (htold : Told env w) {id : Id}
    (hrun : Prog.run (handle env) bbAllocId w = (.ok id, w')) :
    ∃ n body, ownReply 4096 (done env.chatter n .selectMaxSeq w.tables none
        (w.tables.query .selectMaxSeq)) = (.ok, body) ∧ id = numberedId (nextSeq body) := by
  obtain ⟨hopen, hanswer⟩ := htold
  rw [bbAllocId, run_dbSocketOpen, if_pos hopen] at hrun
  have hexec : (exec env .selectMaxSeq 4096 w.connected).1 =
      ownReply 4096 (done env.chatter (w.clock + 1) .selectMaxSeq w.tables none
        (w.tables.query .selectMaxSeq)) := by
    simp only [exec, World.connected, hanswer]
    rw [if_neg (by rw [breaksLine_text]; decide), readReply_own hk]
    rfl
  have hst := maxSeq_ok hT env.chatter (w.clock + 1)
  refine ⟨w.clock + 1, (exec env .selectMaxSeq 4096 w.connected).1.2, ?_, ?_⟩
  · rw [hexec]
    exact Prod.ext hst rfl
  · have hid : CStr.copy bbIdLen (bytes "E-" ++ fmtInt
        (if (exec env .selectMaxSeq 4096 w.connected).1.1 = .ok then
          nextSeq (exec env .selectMaxSeq 4096 w.connected).1.2 else 100)) = id :=
      Except.ok.inj (congrArg Prod.fst hrun)
    rw [hexec, hst, if_pos rfl, ← hexec] at hid
    exact hid.symm

theorem chooseId_fresh (hk : env.keepsUnread = false) (hs : w.session = none)
    (hT : Numbered w.tables) {desired id : Id} (halloc : Allocates env w desired)
    (hrun : Prog.run (handle env) (chooseId ⟨false⟩ desired) w = (.ok id, w'))
    (hseq : IsCount (idSeq id.val)) : w.tables.electionOf id = [] := by
  obtain ⟨-, -, hid⟩ := chooseId_outcome hk hs hrun
  cases hid id rfl with
  | desired hne hget hfound =>
    rcases electionOf_cases hT.distinct desired with hnil | ⟨r, hrow⟩
    · exact hnil
    · have hmem : r ∈ w.tables.election := mem_of_mem_filter (p := (·.id = quoted desired.val))
        (by rw [← Tables.electionOf, hrow]; simp)
      obtain ⟨st, hr⟩ := (hT.rows r hmem).2
      rw [getElection_found hget hrow hr] at hfound
      cases hfound
  | next hne hreply => exact next_fresh hT hreply hseq
  | fallback hne =>
    rcases halloc with h | htold | hfree
    · exact absurd hne h
    · rw [chooseId, if_neg (not_not.mpr hne)] at hrun
      obtain ⟨n, body, hreply, hnext⟩ := bbAllocId_told hk hT htold hrun
      rw [hnext] at hseq ⊢
      exact next_fresh hT hreply hseq
    · exact hfree

end Choose

/-! ## Runs of `bb_create_election` -/

/-- Create one election: the id returned, if any, and the state after it. -/
def create (env : Env) (d : Daemon) (req : BbConfig × Id) : List Id × Daemon :=
  match Prog.run (handle env) (bbCreateElection d.ctx req.1 req.2) d.world with
  | (.ok id, w) => ([id], ⟨d.ctx, w⟩)
  | (.error _, w) => ([], ⟨d.ctx, w⟩)

/-- Create elections one after the other, from empty tables: the ids returned
and the state in the end. -/
def runCreates (env : Env) (reqs : List (BbConfig × Id)) : List Id × Daemon :=
  reqs.foldl (fun s req => (s.1 ++ (create env s.2 req).1, (create env s.2 req).2)) ([], .start)

theorem runCreates_concat (env : Env) (reqs : List (BbConfig × Id)) (req : BbConfig × Id) :
    runCreates env (reqs ++ [req]) =
      ((runCreates env reqs).1 ++ (create env (runCreates env reqs).2 req).1,
        (create env (runCreates env reqs).2 req).2) := by
  rw [runCreates, foldl_append]
  rfl

section Runs

variable {env : Env} {d : Daemon} {T : Tables}

theorem Numbered.created (hT : Numbered T) {id : Id} {cfg : BbConfig}
    (hfresh : T.electionOf id = []) (hsafe : SafeConfig id cfg) (hseq : IsCount (idSeq id.val)) :
    Numbered (created T id cfg) := by
  constructor
  · intro r hr
    rcases mem_append.mp hr with hr | hr
    · exact hT.rows r hr
    · rw [mem_singleton.mp hr]
      exact ⟨⟨id, rfl, rfl⟩, .draft, filed_draft hsafe hseq⟩
  · rw [DistinctIds, Brain.created, map_append, nodup_append]
    refine ⟨hT.distinct, by simp, ?_⟩
    rintro x hx y hy rfl
    obtain ⟨r, hr, rfl⟩ := mem_map.mp hx
    refine filter_eq_nil_iff.mp hfresh r hr ?_
    simpa [draftRow] using hy

/-- What holds between two calls: every id returned so far is stored. -/
structure Allocated (ids : List Id) (d : Daemon) : Prop where
  idle : d.Idle
  numbered : Numbered d.world.tables
  stored : ∀ id ∈ ids, d.world.tables.electionOf id ≠ []
  nodup : ids.Nodup

theorem Allocated.create {ids : List Id} (h : Allocated ids d) {req : BbConfig × Id}
    (halloc : Allocates env d.world req.2) :
    Allocated (ids ++ (create env d req).1) (create env d req).2 := by
  obtain ⟨ctx, w⟩ := d
  obtain ⟨⟨rfl, hs⟩, hT, hstored, hnodup⟩ := h
  obtain ⟨cfg, desired⟩ := req
  obtain ⟨heq, -⟩ := alone_create env cfg desired w hs
  rcases hrun : Prog.run (handle env) (bbCreateElection ⟨false⟩ cfg desired) w with ⟨r, w'⟩
  obtain ⟨hs', hout⟩ := @create_cases env.paired w w' rfl hs _ _ _ (heq.symm.trans hrun)
  have hsame : (Brain.create env ⟨⟨false⟩, w⟩ (cfg, desired)).2 = ⟨⟨false⟩, w'⟩ := by
    simp only [Brain.create, hrun]
    cases r <;> rfl
  rw [hsame]
  rcases hout with ⟨hT', hno⟩ | ⟨id, w₁, hchoose, hsafe, hseq, hT', hr⟩
  · have hnone : (Brain.create env ⟨⟨false⟩, w⟩ (cfg, desired)).1 = [] := by
      cases r with
      | ok id => exact absurd rfl (hno id)
      | error e => simp only [Brain.create, hrun]
    rw [hnone, append_nil]
    exact ⟨⟨rfl, hs'⟩, hT' ▸ hT, by rw [hT']; exact hstored, hnodup⟩
  · have hfresh := @chooseId_fresh env.paired _ _ rfl hs hT _ _ halloc hchoose hseq
    have hgrow : ∀ x, x = id ∨ w.tables.electionOf x ≠ [] → w'.tables.electionOf x ≠ [] := by
      intro x hx
      rw [hT', electionOf_created]
      rcases hx with rfl | hx
      · simp
      · exact fun hnil => hx (append_eq_nil_iff.mp hnil).1
    have hnumbered : Numbered w'.tables := hT' ▸ hT.created hfresh hsafe hseq
    rcases hr with rfl | ⟨-, e, rfl⟩
    · have hone : (Brain.create env ⟨⟨false⟩, w⟩ (cfg, desired)).1 = [id] := by
        simp only [Brain.create, hrun]
      rw [hone]
      refine ⟨⟨rfl, hs'⟩, hnumbered, fun x hx => hgrow x ?_, ?_⟩
      · rcases mem_append.mp hx with hx | hx
        · exact .inr (hstored x hx)
        · exact .inl (mem_singleton.mp hx)
      · rw [nodup_append]
        refine ⟨hnodup, by simp, ?_⟩
        rintro x hx y hy rfl
        rw [mem_singleton.mp hy] at hx
        exact hstored id hx hfresh
    · have hnone : (Brain.create env ⟨⟨false⟩, w⟩ (cfg, desired)).1 = [] := by
        simp only [Brain.create, hrun]
      rw [hnone, append_nil]
      exact ⟨⟨rfl, hs'⟩, hnumbered, fun x hx => hgrow x (.inr (hstored x hx)), hnodup⟩

theorem runCreates_allocated {reqs : List (BbConfig × Id)}
    (h : ∀ pre req, pre ++ [req] <+: reqs → Allocates env (runCreates env pre).2.world req.2) :
    Allocated (runCreates env reqs).1 (runCreates env reqs).2 := by
  induction reqs using List.reverseRecOn with
  | nil =>
    have hempty : Numbered .empty := ⟨fun r hr => (not_mem_nil hr).elim, nodup_nil⟩
    exact ⟨⟨rfl, rfl⟩, hempty, fun id hid => (not_mem_nil hid).elim, nodup_nil⟩
  | append_singleton reqs req ih =>
    rw [runCreates_concat]
    refine (ih fun pre req' hpre => h pre req' ?_).create (h reqs req prefix_rfl)
    exact hpre.trans (prefix_append _ _)

end Runs

/-- In every run of `bb_create_election` in which each call that leaves the
id to the store is told its highest number or finds no election E-100, the
ids returned differ, and no two election rows ever share one. -/
theorem created_ids_fresh {env : Env} {reqs : List (BbConfig × Id)}
    (h : ∀ pre req, pre ++ [req] <+: reqs → Allocates env (runCreates env pre).2.world req.2) :
    (runCreates env reqs).1.Nodup ∧
      ∀ pre, pre <+: reqs → DistinctIds (runCreates env pre).2.world.tables :=
  ⟨(runCreates_allocated h).nodup, fun _ hpre => (runCreates_allocated fun p req hp =>
    h p req (hp.trans hpre)).numbered.distinct⟩

def pollCreates : List (BbConfig × Id) :=
  [(pollConfig, CStr.copy _ []), (pollConfig, numberedId 105), (pollConfig, CStr.copy _ [])]

theorem created_ids_fresh_poll :
    (runCreates pollEnv pollCreates).1 = [numberedId 100, numberedId 105, numberedId 106] ∧
      (runCreates pollEnv pollCreates).1.Nodup ∧
      ∀ pre, pre <+: pollCreates → DistinctIds (runCreates pollEnv pre).2.world.tables := by
  refine ⟨by decide +kernel, created_ids_fresh fun pre req hpre => ?_⟩
  exact .inr (.inl ⟨rfl, rfl⟩)

/-- The second election is created while `select max(seq)` is refused. -/
def pollUntoldEnv : Env :=
  { pollEnv with fate := fun n => if n = 11 then .refuse false else .answer }

/-- Both calls succeed and return E-100: a caller that is not told the
highest number starts over. -/
theorem untold_number_repeats_id :
    (runCreates pollUntoldEnv [(pollConfig, CStr.copy _ []), (pollConfig, CStr.copy _ [])]).1 =
        [firstId, firstId] ∧
      ¬ DistinctIds (runCreates pollUntoldEnv
        [(pollConfig, CStr.copy _ []), (pollConfig, CStr.copy _ [])]).2.world.tables := by
  decide +kernel

end Corestack.Brain
