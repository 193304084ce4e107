import Corestack.Ballotd.Results
import Corestack.Brain.Fresh

/-!
# What lasts whatever is requested

Creating an election and moving it read their replies in step, whatever the
requests mention. A ballot may not; what can be said of it is which
statements it sends. So a property of the tables holds after all requests if
it holds of empty tables, of an election created, of one that was moved, and
if the statements a ballot may send keep it.
-/

namespace Corestack.Ballotd

open Lib Db Brain Client

/-! ## What a ballot may write -/

/-- What a statement of a ballot does to the tables: elections, options and
rolls stay, and what is new among the ballots is superseded or as it is
listed. -/
structure BallotStep (T T' : Tables) : Prop where
  election : T'.election = T.election
  option : T'.option = T.option
  eligible : T'.eligible = T.eligible
  ballot : ∀ r ∈ T'.ballot, r ∈ T.ballot ∨ r.superseded = 1 ∨ FiledBallot r

theorem ballotStep_refl (T : Tables) : BallotStep T T := ⟨rfl, rfl, rfl, fun _ hr => .inl hr⟩

theorem ballotStep_insertBallot {T T' : Tables} {eid : Id} {hash : Hash} {opt ver sup : Bytes}
    (h : IsHash hash ∨ sup = bytes "1")
    (hw : T.write (.insertBallot eid hash opt ver sup) = some T') : BallotStep T T' := by
  simp only [Tables.write, Option.bind_eq_bind, Option.bind_eq_some_iff, Option.pure_def,
    Option.some.injEq] at hw
  obtain ⟨o, ho, v, hv, s, hs, rfl⟩ := hw
  refine ⟨rfl, rfl, rfl, fun r hr => ?_⟩
  rcases List.mem_append.mp hr with hr | hr
  · exact .inl hr
  · rw [List.mem_singleton.mp hr]
    rcases h with hh | rfl
    · exact .inr (.inr ⟨⟨hash, rfl, hh⟩, readInt_nonneg ho, readInt_nonneg hv, readInt_nonneg hs⟩)
    · exact .inr (.inl (Option.some.inj hs).symm)

theorem permits_ballotStep (eid : Id) (b : BbBallot) :
    Permits (fun sql => ∀ T T', T.write sql = some T' → BallotStep T T')
      (Call.record eid b).MayRun where
  control := fun sql hsql T T' hw => by
    cases sql <;> cases hsql <;> cases hw <;> exact ballotStep_refl T
  own := fun cmd hcmd sql hsql T T' hw => by
    cases hcmd with
    | election | seen | prior => cases hsql <;> cases hw <;> exact ballotStep_refl T
    | append hv =>
      cases hsql with
      | append => exact ballotStep_insertBallot (.inl (isHash_receiptHash _ _)) hw
    | supersede =>
      cases hsql with
      | mark => exact ballotStep_insertBallot (.inr rfl) hw
      | marked =>
        cases hw
        exact ballotStep_refl T
      | dropBallot =>
        cases hw
        exact ⟨rfl, rfl, rfl, fun r hr => .inl (List.mem_of_mem_filter hr)⟩
    | owner hv =>
      cases hsql with
      | dropOwner =>
        cases hw
        exact ⟨rfl, rfl, rfl, fun _ hr => .inl hr⟩
      | owner =>
        simp only [Tables.write, Option.bind_eq_bind, Option.bind_eq_some_iff, Option.pure_def,
          Option.some.injEq] at hw
        obtain ⟨v, -, rfl⟩ := hw
        exact ⟨rfl, rfl, rfl, fun _ hr => .inl hr⟩
    | spend =>
      cases hsql
      cases hw
      exact ⟨rfl, rfl, rfl, fun _ hr => .inl hr⟩

/-! ## Whole runs -/

/-- What a property needs to hold of the tables after any requests. -/
structure Lasting (K : Tables → Prop) : Prop where
  empty : K .empty
  create : ∀ {c : Chatter} {T : Tables} {desired id : Id} {cfg : BbConfig}, K T →
    ChosenId c T desired id → SafeConfig id cfg → IsCount (idSeq id.val) → K (created T id cfg)
  move : ∀ {c : Chatter} {T T' : Tables} {eid : Id} {st : BbState} {out : BbDbResult} {n n' : Nat},
    K T → Prog.run (idealHandle c) (runOp (.updateState eid st)) ⟨T, n⟩ = (.ok out, ⟨T', n'⟩) → K T'
  record : ∀ {T T' : Tables}, K T → BallotStep T T' → K T'

section Run

variable {K : Tables → Prop} {env : Env} {d : Daemon} {req : BclRequest}

namespace Lasting

theorem change {c : Chatter} {T T' : Tables} {call : Call} {evs : History} (hK : Lasting K)
    (hT : K T) (hch : Change c T call evs T') (hcall : ∀ eid b, call ≠ .record eid b) : K T' := by
  cases hch with
  | create hid hsafe hseq => exact hK.create hT hid hsafe hseq
  | transition hread hfound hlegal hrun => exact hK.move hT hrun
  | record => exact absurd rfl (hcall _ _)

theorem ended {T T' : Tables} {call : Call} {evs : History} (hK : Lasting K) (hT : K T)
    (hend : Ended env T call evs T') (hcall : ∀ eid b, call ≠ .record eid b) : K T' := by
  obtain ⟨-, rfl⟩ | hch | ⟨-, -, evs', hch⟩ := hend
  · exact hT
  all_goals exact hK.change hT hch hcall

theorem perform (hK : Lasting K) (hd : d.Idle) (hT : K d.world.tables) (call : Call) :
    K (perform env d call).2.world.tables := by
  cases call with
  | create | transition =>
    rw [(perform_alone env hd (by simp)).1]
    exact hK.ended hT (perform_cases rfl hd _).2 (by simp)
  | record eid b =>
    have h := (Sends.recordAttempts (permits_ballotStep eid b) (fun _ h => h) bbTxnAttempts d.ctx
      .db default).run_keeps (fun _ t t' hsql ht hw => hK.record ht (hsql t t' hw)) env
        (hd.keeps hT)
    rw [Brain.perform, bbRecordBallot]
    revert h
    generalize Prog.run (handle env) (recordAttempts d.ctx eid b bbTxnAttempts .db default)
      d.world = res
    obtain ⟨r, w⟩ := res
    intro h
    cases r <;> exact h.1

theorem step (hK : Lasting K) (hd : d.Idle) (hT : K d.world.tables) (req : BclRequest) :
    K (answer env d req).2.world.tables := by
  cases hcall : callOf req with
  | some call =>
    rw [answer_call hcall]
    exact hK.perform hd hT call
  | none => exact (answer_read hd hcall).2 ▸ hT

/-- A lasting property holds after any requests: it holds of the empty tables,
and a creation, a transition and a recording keep it. -/
theorem run (hK : Lasting K) (env : Env) (reqs : List BclRequest) :
    K (tablesAfter env reqs) := by
  induction reqs using List.reverseRecOn with
  | nil => exact hK.empty
  | append_singleton reqs req ih =>
    rw [tablesAfter, runRequests_concat]
    exact hK.step (runRequests_idle env reqs) ih req

end Lasting

end Run

end Corestack.Ballotd
