import Corestack.Brain.Paired
import Corestack.Brain.Standing

/-!
# Whose ballot a recording replaces

Superseding deletes every row of the election with a given hash, and the
hash is a fold of nonce and version that is not injective. So a recording
may delete the row of another voter, or the very row it has just added. Each
voter's last accepted choice is counted exactly once throughout a run if and
only if no recording does that.
-/

namespace Corestack.Brain

open List Lib Db

theorem standing_of_change {c : Chatter} {h : History} {T T' : Tables} {call : Call} {evs : History}
    (hst : AllHashFree h → Standing h T) (hch : Change c T call evs T')
    (hfree : AllHashFree (evs ++ h)) : Standing (evs ++ h) T' := by
  cases hch with
  | create hid hsafe hseq => exact (hst hfree).created hsafe
  | transition hread hfound hlegal hrun =>
    obtain ⟨-, -, seq, title, openTime, closeTime, -, -, -, -, rfl⟩ := ideal_updateState hrun
    exact (hst hfree).moved rfl
  | record hrun => exact (hst hfree.2).record ((hst hfree.2).recorded_of_run hrun) hfree.1

theorem standing_of_run {env : Env} (hk : env.keepsUnread = false)
    (hl : env.lostCommitApplies = false) {calls : List Call} {h : History} {d : Daemon}
    (hrun : runCalls env calls = (h, d)) (hfree : AllHashFree h) :
    d.Idle ∧ Standing h d.world.tables := by
  obtain ⟨hidle, hst⟩ := runCalls_inv hk hl (I := fun h T => AllHashFree h → Standing h T)
    (fun _ => standing_empty) (fun h T call evs T' hst hch => standing_of_change hst hch) calls
  rw [hrun] at hidle hst
  exact ⟨hidle, hst hfree⟩

theorem live_ne_superseded {eid : Id} {p : Prior} {rows : List BallotRow} {r : BallotRow}
    (hr : r ∈ supersede eid p rows) (hlive : r.superseded = 0) :
    ¬ (r.electionId = quoted eid.val ∧ r.hash = quoted p.hash.val) := by
  rcases mem_append.mp hr with hr | hr
  · exact of_decide_eq_true (mem_filter.mp hr).2
  · rw [mem_singleton.mp hr] at hlive
    cases hlive

/-- Each voter's last accepted choice is counted exactly once: the rows that
count in an election are one for each voter who has voted in it, with the
option chosen last. -/
def AllCounted (h : History) (T : Tables) : Prop :=
  ∀ eid, (T.liveOf eid).Perm (((current h).filter (·.key.1 = eid)).map ballotRow)

theorem hashFree_of_counted {c : Chatter} {h : History} {T T' : Tables} {eid : Id} {b : BbBallot}
    {rcpt : BbReceipt} (hrec : RecordedAs c h T eid b rcpt T')
    (hall : AllCounted (accepted eid b (.ok rcpt) ++ h) T') :
    HashFree h (eid, b.certName) rcpt.hash := by
  have hrow : ∀ e, e ∈ current (accepted eid b (.ok rcpt) ++ h) → e.key.1 = eid →
      ballotRow e ∈ T'.ballot ∧ (ballotRow e).superseded = 0 := by
    intro e he heid
    have hmem : ballotRow e ∈ T'.liveOf eid := (hall eid).mem_iff.mpr
      (mem_map_of_mem (mem_filter.mpr ⟨he, by simpa using heid⟩))
    obtain ⟨hmem, hlive⟩ := mem_filter.mp hmem
    exact ⟨hmem, (of_decide_eq_true hlive).2⟩
  intro v hv
  obtain ⟨vs, hvals⟩ := head?_eq_some_iff.mp hv
  rcases hrec.tables with ⟨hnil, -⟩ | ⟨v', vs', opt, ver, hvals', rfl, -⟩
  · rw [hnil] at hvals
    cases hvals
  rw [hvals] at hvals'
  obtain ⟨rfl, rfl⟩ := List.cons.inj hvals'
  have hne : ∀ e, e ∈ current (accepted eid b (.ok rcpt) ++ h) → e.key.1 = eid →
      e.val.hash ≠ v.hash := by
    intro e he heid hhash
    obtain ⟨hmem, hlive⟩ := hrow e he heid
    exact live_ne_superseded hmem hlive ⟨quoted_val_inj.mpr heid, quoted_val_inj.mpr hhash⟩
  have hcons := current_cons (eid, b.certName) (⟨rcpt.hash, b.option⟩ : Vote) h
  refine ⟨fun hhash => hne ⟨_, _, _, true⟩ (hcons ▸ mem_cons_self) rfl hhash, ?_⟩
  intro e he heid hhash
  by_contra hkey
  refine hne e (hcons ▸ mem_cons_of_mem _ (mem_filter.mpr ⟨he, ?_⟩)) heid hhash
  simpa using hkey

instance (h : History) (k : Voter) (hash : Hash) : Decidable (HashFree h k hash) :=
  match hv : (valuesOf k h).head? with
  | none => .isTrue fun v hv' => by rw [hv] at hv'; cases hv'
  | some v => decidable_of_iff
      (hash ≠ v.hash ∧ ∀ e ∈ current h, e.key.1 = k.1 → e.val.hash = v.hash → e.key = k)
      ⟨fun hall v' hv' => by rw [hv] at hv'; cases hv'; exact hall, fun hfree => hfree v hv⟩

instance : (h : History) → Decidable (AllHashFree h)
  | [] => .isTrue trivial
  | (k, v) :: h =>
    have := instDecidableAllHashFree h
    inferInstanceAs (Decidable (HashFree h k v.hash ∧ AllHashFree h))

theorem AllHashFree.of_append {evs h : History} (hfree : AllHashFree (evs ++ h)) :
    AllHashFree h := by
  induction evs with
  | nil => exact hfree
  | cons ev evs ih => exact ih hfree.2

theorem history_append (env : Env) (before after : List Call) :
    ∃ evs, (runCalls env (before ++ after)).1 = evs ++ (runCalls env before).1 := by
  induction after using List.reverseRecOn with
  | nil => exact ⟨[], by rw [append_nil]; rfl⟩
  | append_singleton after call ih =>
    obtain ⟨evs, ih⟩ := ih
    rw [← append_assoc, runCalls_snoc, ih, ← append_assoc]
    exact ⟨_, rfl⟩

theorem allHashFree_of_counted {env : Env} (hk : env.keepsUnread = false)
    (hl : env.lostCommitApplies = false) {calls : List Call} (hall : ∀ pre, pre <+: calls →
      AllCounted (runCalls env pre).1 (runCalls env pre).2.world.tables) :
    AllHashFree (runCalls env calls).1 := by
  induction calls using List.reverseRecOn with
  | nil => exact trivial
  | append_singleton calls call ih =>
    have hfree := ih fun pre hpre => hall pre (hpre.trans (prefix_append _ _))
    obtain ⟨hidle, hst⟩ := standing_of_run hk hl Prod.mk.eta.symm hfree
    have hlast := hall _ prefix_rfl
    rw [runCalls_snoc] at hlast ⊢
    obtain ⟨-, ⟨hevs, -⟩ | hch | ⟨hlost, -⟩⟩ := perform_cases hk hidle call
    · rw [hevs]
      exact hfree
    · revert hch hlast
      generalize perform env (runCalls env calls).2 call = res
      obtain ⟨evs, ⟨ctx, ⟨T, session, clock, log⟩⟩⟩ := res
      intro hlast hch
      cases hch with
      | create hid hsafe hseq => exact hfree
      | transition hread hfound hlegal hrun => exact hfree
      | record hrun => exact ⟨hashFree_of_counted (hst.recorded_of_run hrun) hlast, hfree⟩
    · cases hlost.symm.trans hl

/-- Votes and other voters. In every state of a run each voter's last
accepted choice is counted exactly once, if and only if every ballot that
superseded an earlier one of its voter met `HashFree`: the hash it
superseded was neither its own new one nor on another voter's current
ballot. This takes that no commit takes effect unnoticed and, on a socket,
that no nonce and no name on a roll is the end line of an answer. -/
theorem votes_counted_iff {env : Env} (hl : env.lostCommitApplies = false) {calls : List Call}
    (hcalls : ReadInStep env calls) :
    (∀ pre, pre <+: calls →
      AllCounted (runCalls env pre).1 (runCalls env pre).2.world.tables) ↔
    AllHashFree (runCalls env calls).1 := by
  have heq : ∀ pre, pre <+: calls → runCalls env pre = runCalls env.paired pre := fun pre hpre =>
    ReadInStep.runCalls_eq fun hk call hcall => hcalls hk call (hpre.subset hcall)
  rw [heq calls prefix_rfl]
  constructor
  · intro hall
    refine @allHashFree_of_counted env.paired rfl hl _ fun pre hpre => ?_
    rw [← heq pre hpre]
    exact hall pre hpre
  · rintro hfree pre ⟨rest, rfl⟩
    rw [heq pre (prefix_append _ _)]
    obtain ⟨evs, hevs⟩ := history_append env.paired pre rest
    rw [hevs] at hfree
    exact (@standing_of_run env.paired rfl hl _ _ _ Prod.mk.eta.symm hfree.of_append).2.liveOf

/-- Both voters vote, and one of them votes again. -/
theorem votes_counted_poll :
    ((runCalls pollSocketEnv pollRun).1.length = 3 ∧
      AllHashFree (runCalls pollSocketEnv pollRun).1) ∧
    AllCounted (runCalls pollSocketEnv pollRun).1
      (runCalls pollSocketEnv pollRun).2.world.tables := by
  have hfree : (runCalls pollSocketEnv pollRun).1.length = 3 ∧
      AllHashFree (runCalls pollSocketEnv pollRun).1 := by decide +kernel
  have hiff := @votes_counted_iff pollSocketEnv rfl pollRun fun _ => pollRun_plain
  exact ⟨hfree, hiff.mpr hfree.2 pollRun prefix_rfl⟩

/-- The nonces `ab` and `bA` fold to one hash. Ann and Bob each use one of
them, and Bob votes again. -/
def pollCollision : List Call :=
  pollOpened ++ [.record pollId (pollBallot pollAnn "ab" 1),
    .record pollId (pollBallot pollBob "bA" 0), .record pollId (pollBallot pollBob "x" 0)]

/-- All three ballots are accepted. Superseding goes by the hash, which Ann's
ballot shares with Bob's first one, so Ann's choice is not counted. -/
theorem collision_removes_other_ballot :
    (runCalls pollEnv pollCollision).1.length = 3 ∧
      (valuesOf (pollId, pollAnn) (runCalls pollEnv pollCollision).1).map (·.option) = [1] ∧
      ((runCalls pollEnv pollCollision).2.world.tables.liveOf pollId).map (·.optionIndex) =
        [0] := by
  decide +kernel

/-- A voter's own two ballots may collide too: version 1 of `wn` and version 2
of `ciaa` have one hash, and the second ballot deletes its own row. -/
example :
    let r := runCalls pollEnv (pollOpened ++ [.record pollId (pollBallot pollBob "wn" 1),
      .record pollId (pollBallot pollBob "ciaa" 0)])
    r.1.length = 2 ∧ r.2.world.tables.liveOf pollId = [] := by
  decide +kernel

end Corestack.Brain
