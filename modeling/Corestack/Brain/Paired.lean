import Corestack.Brain.Alone

/-!
# Calls on a socket

On a socket a statement may read what an earlier one left unread. A call
that mentions no name and no nonce that is the end line of an answer runs as
if every statement read its own reply, provided the tables are legible, and
leaves legible tables behind. So does a run of such calls, from the empty
tables on. What is proved of runs in which replies are paired with their
statements therefore holds on a socket too, for plain calls.

One nonce is enough to break this. A ballot whose nonce is stored as
`<<END ok>>` shifts the replies of the next ballot that uses it, and then
recording is no longer all or nothing.
-/

namespace Corestack.Brain

open List Lib Db

/-! ## Calls and runs -/

/-- The call mentions no name and no nonce that is the end line of an
answer. -/
structure Call.Plain (call : Call) : Prop where
  roll : call.PlainRoll
  nonce : ∀ eid n, call.Spends eid n → n.val ≠ dbMarkOk

/-- The replies to these calls are read in step: every statement reads its
own reply, or the connection is a socket and the calls are plain. -/
def ReadInStep (env : Env) (calls : List Call) : Prop :=
  env.keepsUnread = true → ∀ call ∈ calls, call.Plain

section Runs

variable {env : Env} {d : Daemon} {call : Call} {calls : List Call}

theorem Env.paired_eq (hk : env.keepsUnread = false) : env.paired = env := by
  rw [Env.paired, ← hk]

theorem perform_paired (hd : d.Idle) (hT : Legible d.world.tables) (hcall : call.Plain) :
    perform env d call = perform env.paired d call := by
  cases call with
  | create | transition => exact (perform_alone env hd (by simp)).1
  | record eid b =>
    obtain ⟨ctx, w⟩ := d
    obtain ⟨rfl, hs⟩ := hd
    simp only [perform, bbRecordBallot_paired env hs hT eid (hcall.nonce eid b.nonce ⟨rfl, rfl⟩)]

/-- A run of plain calls, step by step as if replies could not shift. The
tables stay legible on the way, which is what the next call needs. -/
theorem runCalls_paired (env : Env) (hcalls : ∀ call ∈ calls, call.Plain) :
    runCalls env calls = runCalls env.paired calls ∧
      Legible (runCalls env calls).2.world.tables := by
  induction calls using List.reverseRecOn with
  | nil => exact ⟨rfl, legible_empty⟩
  | append_singleton calls call ih =>
    obtain ⟨heq, hleg⟩ := ih fun c hc => hcalls c (mem_append_left _ hc)
    have hidle := runCalls_idle env calls
    have hcall := hcalls call (by simp)
    rw [runCalls_snoc, runCalls_snoc, ← heq, ← perform_paired hidle hleg hcall]
    exact ⟨rfl, perform_legible env hidle hleg hcall.roll⟩

/-- Read in step, a run is the one with every reply paired with its
statement. -/
theorem ReadInStep.runCalls_eq (h : ReadInStep env calls) :
    runCalls env calls = runCalls env.paired calls := by
  cases hk : env.keepsUnread with
  | false => rw [Env.paired_eq hk]
  | true => exact (runCalls_paired env (h hk)).1

end Runs

/-! ## Recording is all or nothing -/

def pollFate (n : Nat) (f : Fate) : Env :=
  { pollSocketEnv with fate := fun m => if m = n then f else .answer }

theorem pollRun_plain : ∀ call ∈ pollRun, call.Plain := by
  have hroll : ∀ cert ∈ pollConfig.eligible, cert.val ≠ dbMarkOk := by decide +kernel
  have hnonce : ∀ s ∈ ["n1", "n2", "n3"],
      (CStr.copy _ (bytes s) : Nonce).val ≠ dbMarkOk := by decide +kernel
  have hrecord : ∀ s ∈ ["n1", "n2", "n3"], ∀ cert option,
      (Call.record pollId (pollBallot cert s option)).Plain := by
    refine fun s hs cert option => ⟨fun _ h => h.elim, ?_⟩
    rintro _ _ ⟨rfl, rfl⟩
    exact hnonce s hs
  intro call hcall
  simp only [pollRun, pollOpened, cons_append, nil_append, mem_cons, not_mem_nil,
    or_false] at hcall
  rcases hcall with rfl | rfl | rfl | rfl | rfl
  · exact ⟨hroll, fun _ _ h => h.elim⟩
  · exact ⟨fun _ h => h.elim, fun _ _ h => h.elim⟩
  · exact hrecord _ (by simp) _ _
  · exact hrecord _ (by simp) _ _
  · exact hrecord _ (by simp) _ _

/-- Ann has voted with the nonce `<<END ok>>`. -/
def pollMarked : List Call := pollOpened ++ [.record pollId (pollBallot pollAnn "<<END ok>>" 1)]

/-- What the next ballot with that nonce comes to: whether it was accepted,
and how many rows there are in the ballot, owner and nonce tables. -/
def pollReplayed (env : Env) : Bool × Nat × Nat × Nat :=
  let r := perform env (runCalls pollSocketEnv pollMarked).2
    (.record pollId (pollBallot pollBob "<<END ok>>" 0))
  (!r.1.isEmpty, r.2.world.tables.ballot.length, r.2.world.tables.owner.length,
    r.2.world.tables.nonce.length)

end Corestack.Brain
