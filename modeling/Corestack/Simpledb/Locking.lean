import Corestack.Simpledb.LockManager

/-!
# Locking under any schedule

Every transaction is run by one thread, and the threads take turns at the
synchronized blocks of the lock manager. Two things hold in between: the
lock table is well formed, and the wait-for graph has no cycle. The second
is kept although only the requester looks for a cycle: a refused request
adds edges at the requester only, and a granted one adds edges only to a
transaction that has just stopped waiting.

Being listed as waiting is not the same as being held up. A waiting
transaction polls, so it stays listed for a while after the page it waits
for has become free, and at such a moment all transactions can be listed.
-/

namespace Corestack.Simpledb

open Function List Lib Relation

/-- The lock manager and the call of `acquire` that each thread is in. -/
structure Threads (T P : Type) where
  manager : LockManager T P
  pending : T → Option (P × Bool)

/-- The synchronized blocks, by the transaction whose thread runs them. -/
inductive LockEvent (T P : Type) where
  | round (tid : T) (pid : P) (exclusive : Bool)
  | interrupt (tid : T)
  | release (tid : T) (pid : P)
  | releaseAll (tid : T)

variable {T P : Type}

def LockEvent.tid : LockEvent T P → T
  | .round t _ _ => t
  | .interrupt t => t
  | .release t _ => t
  | .releaseAll t => t

/-- The event gives back the lock of `t` on `p`. -/
def LockEvent.GivesUp (t : T) (p : P) : LockEvent T P → Prop
  | .release u q => u = t ∧ q = p
  | .releaseAll u => u = t
  | _ => False

namespace Threads

def start : Threads T P := ⟨LockManager.empty, fun _ => none⟩

/-- A thread in a call of `acquire` goes on with that call or is
interrupted in it. Other calls come from threads that are not in one. -/
def Allowed (s : Threads T P) : LockEvent T P → Prop
  | .round t p x => s.pending t = none ∨ s.pending t = some (p, x)
  | .interrupt t => s.pending t ≠ none
  | .release t _ => s.pending t = none
  | .releaseAll t => s.pending t = none

variable [DecidableEq T] [DecidableEq P]

def step (s : Threads T P) : LockEvent T P → Threads T P
  | .round t p x =>
    let (outcome, m) := s.manager.acquireRound t p x
    { manager := m
      pending := update s.pending t
        (if outcome = .waiting then some (p, x) else none) }
  | .interrupt t =>
    { manager := s.manager.stopWaiting t, pending := update s.pending t none }
  | .release t p => { s with manager := s.manager.release t p }
  | .releaseAll t => { s with manager := s.manager.releaseAll t }

inductive Run : Threads T P → List (LockEvent T P) → Threads T P → Prop
  | nil (s : Threads T P) : Run s [] s
  | cons {s s' : Threads T P} {e : LockEvent T P} {es : List (LockEvent T P)}
      (he : s.Allowed e) (hes : Run (s.step e) es s') : Run s (e :: es) s'

/-- `t` holds `p`, exclusively if `x` says so. -/
def Holds (s : Threads T P) (t : T) (p : P) (x : Bool) : Prop :=
  t ∈ s.manager.holders p ∧ (x = true → s.manager.exclusive p = true)

end Threads

/-! ## The wait-for graph -/

namespace LockManager

variable [DecidableEq T] {m m' : LockManager T P} {t u : T} {p q : P} {x : Bool}

theorem mem_waitEdges : u ∈ m.waitEdges t ↔
    ∃ q, m.waitingFor.lookup t = some q ∧ u ≠ t ∧ u ∈ m.holders q := by
  unfold waitEdges
  cases m.waitingFor.lookup t with
  | none => simp
  | some q => simp [(m.holders_nodup q).mem_erase_iff]

theorem waitEdges_dom (m : LockManager T P) (t : T) :
    t ∈ m.waitingFor.keys ∨ m.waitEdges t = [] := by
  by_cases ht : t ∈ m.waitingFor
  · exact Or.inl ht
  · right
    rw [waitEdges, AList.lookup_eq_none.mpr ht]

theorem hasDeadlock_iff : m.hasDeadlock t = true ↔ TransGen (Points m.waitEdges) t t :=
  search_cycle_iff m.waitEdges_dom (le_refl _)

theorem waitEdges_stopWaiting (m : LockManager T P) (t u : T) :
    (m.stopWaiting t).waitEdges u = if u = t then [] else m.waitEdges u := by
  by_cases hu : u = t
  · subst hu
    simp [waitEdges, stopWaiting]
  · rw [if_neg hu, waitEdges, waitEdges]
    simp only [stopWaiting, AList.lookup_erase_ne hu]
    rfl

theorem Acyclic.stopWaiting (h : Acyclic m.waitEdges) (t : T) :
    Acyclic (m.stopWaiting t).waitEdges := by
  refine h.mono fun a b hb => ?_
  rw [waitEdges_stopWaiting] at hb
  split at hb
  · cases hb
  · exact hb

variable [DecidableEq P]

/-- After a grant every new edge leads to `t`, which waits no more. -/
theorem Grants.acyclic (hg : Grants m t p x m') (h : Acyclic m.waitEdges) :
    Acyclic (m'.stopWaiting t).waitEdges := by
  refine h.into_sink (t := t) (by rw [waitEdges_stopWaiting, if_pos rfl]) fun a b hb => ?_
  rw [waitEdges_stopWaiting] at hb
  split at hb
  · cases hb
  obtain ⟨q, hq, hba, hmem⟩ := mem_waitEdges.mp hb
  rw [hg.waitingFor] at hq
  by_cases hqp : q = p
  · subst hqp
    rcases (hg.holders b).mp hmem with hbt | hmem
    · exact Or.inl hbt
    · exact Or.inr (mem_waitEdges.mpr ⟨q, hq, hba, hmem⟩)
  · rw [holders_congr (hg.others q hqp)] at hmem
    exact Or.inr (mem_waitEdges.mpr ⟨q, hq, hba, hmem⟩)

omit [DecidableEq P] in
theorem Acyclic.wait (h : Acyclic m.waitEdges)
    (hm : m' = { m with waitingFor := m.waitingFor.insert t p })
    (hfree : m'.hasDeadlock t = false) : Acyclic m'.waitEdges := by
  refine h.changed_at (t := t) (fun a ha => ?_) fun hcycle => ?_
  · intro b hb
    obtain ⟨q, hq, hba, hmem⟩ := mem_waitEdges.mp hb
    subst hm
    rw [AList.lookup_insert_ne ha] at hq
    exact mem_waitEdges.mpr ⟨q, hq, hba, hmem⟩
  · rw [hasDeadlock_iff.mpr hcycle] at hfree
    cases hfree

/-- The three ways a round of `acquire` ends: the lock is granted, or the
request is noted and waits, or it would close a cycle and is withdrawn. -/
theorem acquireRound_cases (m : LockManager T P) (t : T) (p : P) (x : Bool) :
    (∃ m', Grants m t p x m' ∧ m.acquireRound t p x = (.granted, m'.stopWaiting t)) ∨
    (m.tryAcquire t p x = none ∧
      ({ m with waitingFor := m.waitingFor.insert t p } : LockManager T P).hasDeadlock t = false ∧
      m.acquireRound t p x =
        (.waiting, { m with waitingFor := m.waitingFor.insert t p })) ∨
    (m.tryAcquire t p x = none ∧
      ({ m with waitingFor := m.waitingFor.insert t p } : LockManager T P).hasDeadlock t = true ∧
      m.acquireRound t p x = (.deadlock,
        ({ m with waitingFor := m.waitingFor.insert t p } : LockManager T P).stopWaiting t)) := by
  unfold acquireRound
  cases h : m.tryAcquire t p x with
  | some m' => exact Or.inl ⟨m', tryAcquire_some h, rfl⟩
  | none =>
    right
    dsimp only
    cases hd : ({ m with waitingFor := m.waitingFor.insert t p } :
      LockManager T P).hasDeadlock t with
    | false => exact Or.inl ⟨rfl, rfl, rfl⟩
    | true => exact Or.inr ⟨rfl, rfl, rfl⟩

/-- A transaction that no other one holds up is granted what it asks for. -/
theorem acquireRound_granted (hwait : m.waitingFor.lookup t = some p)
    (hfree : m.waitEdges t = []) (x : Bool) : (m.acquireRound t p x).1 = .granted := by
  cases h : m.tryAcquire t p x with
  | some m' => simp [acquireRound, h]
  | none =>
    obtain ⟨u, hu, hut⟩ := tryAcquire_none h
    have := mem_waitEdges.mpr ⟨p, hwait, hut, hu⟩
    rw [hfree] at this
    cases this

end LockManager

/-! ## The invariant -/

namespace Threads

variable [DecidableEq T] {s s' : Threads T P} {t u : T} {p q : P} {x : Bool}

structure Orderly (s : Threads T P) : Prop where
  exact : s.manager.Exact
  acyclic : Acyclic s.manager.waitEdges
  waiting : ∀ t, s.manager.waitingFor.lookup t = (s.pending t).map Prod.fst

theorem orderly_start : (start : Threads T P).Orderly where
  exact _ hx := absurd hx Bool.false_ne_true
  acyclic a h := by
    obtain ⟨b, hb, -⟩ := TransGen.head'_iff.mp h
    cases hb
  waiting _ := rfl

theorem waiting_stop (h : ∀ t, s.manager.waitingFor.lookup t = (s.pending t).map Prod.fst)
    (t u : T) : (s.manager.waitingFor.erase t).lookup u =
      (update s.pending t none u).map Prod.fst := by
  by_cases hu : u = t
  · subst hu
    simp
  · simp [hu, h u]

variable [DecidableEq P]

theorem Orderly.round (h : s.Orderly) (t : T) (p : P) (x : Bool) :
    (s.step (.round t p x)).Orderly := by
  rcases s.manager.acquireRound_cases t p x with
    ⟨m', hg, heq⟩ | ⟨-, hfree, heq⟩ | ⟨-, -, heq⟩
  · simp only [step, heq]
    refine ⟨fun q hx => ?_, hg.acyclic h.acyclic, fun u => ?_⟩
    · by_cases hq : q = p
      · subst hq
        exact ⟨t, hg.exact h.exact hx⟩
      · have hlocks := hg.others q hq
        obtain ⟨a, ha⟩ := h.exact q (LockManager.exclusive_congr hlocks ▸ hx)
        exact ⟨a, (LockManager.holders_congr hlocks).trans ha⟩
    · simp only [LockManager.stopWaiting, hg.waitingFor]
      exact waiting_stop h.waiting t u
  · simp only [step, heq]
    refine ⟨h.exact, LockManager.Acyclic.wait h.acyclic rfl hfree, fun u => ?_⟩
    by_cases hu : u = t
    · subst hu
      simp
    · simp [hu, h.waiting u]
  · simp only [step, heq]
    refine ⟨h.exact, h.acyclic.mono fun a b hb => ?_, fun u => ?_⟩
    · rw [LockManager.waitEdges_stopWaiting] at hb
      split at hb
      · cases hb
      · rename_i hat
        obtain ⟨q, hq, hba, hmem⟩ := LockManager.mem_waitEdges.mp hb
        rw [AList.lookup_insert_ne hat] at hq
        exact LockManager.mem_waitEdges.mpr ⟨q, hq, hba, hmem⟩
    · by_cases hu : u = t
      · subst hu
        simp [LockManager.stopWaiting]
      · simp [LockManager.stopWaiting, hu, h.waiting u]

theorem Orderly.step (h : s.Orderly) (e : LockEvent T P) : (s.step e).Orderly := by
  cases e with
  | round t p x => exact h.round t p x
  | interrupt t =>
    exact ⟨h.exact, LockManager.Acyclic.stopWaiting h.acyclic t, waiting_stop h.waiting t⟩
  | release t p =>
    have hg := s.manager.givesBack_release t p
    exact ⟨hg.exact h.exact, h.acyclic.mono hg.waitEdges, fun u => hg.waitingFor ▸ h.waiting u⟩
  | releaseAll t =>
    have hg := s.manager.givesBack_releaseAll t
    exact ⟨hg.exact h.exact, h.acyclic.mono hg.waitEdges, fun u => hg.waitingFor ▸ h.waiting u⟩

variable {es : List (LockEvent T P)}

theorem Orderly.run (hrun : Run s es s') (h : s.Orderly) : s'.Orderly := by
  induction hrun with
  | nil => exact h
  | cons _ _ ih => exact ih (h.step _)

/-! ## Locks are kept -/

theorem holds_granted (h : (s.manager.acquireRound t p x).1 = .granted) :
    (s.step (.round t p x)).Holds t p x := by
  rcases s.manager.acquireRound_cases t p x with ⟨m', hg, heq⟩ | ⟨-, -, heq⟩ | ⟨-, -, heq⟩
  · simp only [step, heq]
    exact ⟨(hg.holders t).mpr (Or.inl rfl), hg.mode⟩
  · rw [heq] at h
    cases h
  · rw [heq] at h
    cases h

theorem Holds.round (h : s.Holds t p x) (u : T) (q : P) (y : Bool) :
    (s.step (.round u q y)).Holds t p x := by
  rcases s.manager.acquireRound_cases u q y with ⟨m', hg, heq⟩ | ⟨-, -, heq⟩ | ⟨-, -, heq⟩
  · simp only [Threads.step, heq]
    by_cases hp : p = q
    · subst hp
      exact ⟨(hg.holders t).mpr (Or.inr h.1), fun hx => hg.keeps t h.1 (h.2 hx)⟩
    · have hlocks := hg.others p hp
      refine ⟨?_, fun hx => ?_⟩
      · have := h.1
        rwa [← LockManager.holders_congr hlocks] at this
      · have := h.2 hx
        rwa [← LockManager.exclusive_congr hlocks] at this
  all_goals
    simp only [Threads.step, heq]
    exact h

theorem Holds.step (h : s.Holds t p x) {e : LockEvent T P} (he : ¬ e.GivesUp t p) :
    (s.step e).Holds t p x := by
  cases e with
  | round u q y => exact h.round u q y
  | interrupt u => exact h
  | release u q =>
    by_cases hut : u = t
    · -- it is the lock on another page that `t` gives back
      have hq : p ≠ q := fun hp => he ⟨hut, hp.symm⟩
      have hlocks : (s.manager.release u q).locks p = s.manager.locks p := by
        unfold LockManager.release
        cases s.manager.locks q with
        | none => rfl
        | some st => rw [LockManager.setLock_locks, if_neg hq]
      refine ⟨?_, fun hx => ?_⟩
      · have := h.1
        rwa [← LockManager.holders_congr hlocks] at this
      · have := h.2 hx
        rwa [← LockManager.exclusive_congr hlocks] at this
    · obtain ⟨hmem, hx⟩ := (s.manager.givesBack_release u q).keeps h.1 (Ne.symm hut)
      exact ⟨hmem, fun hxt => hx.trans (h.2 hxt)⟩
  | releaseAll u =>
    have hut : t ≠ u := fun htu => he htu.symm
    obtain ⟨hmem, hx⟩ := (s.manager.givesBack_releaseAll u).keeps h.1 hut
    exact ⟨hmem, fun hxt => hx.trans (h.2 hxt)⟩

theorem Holds.run (hrun : Run s es s') (h : s.Holds t p x) (hes : ∀ e ∈ es, ¬ e.GivesUp t p) :
    s'.Holds t p x := by
  induction hrun with
  | nil => exact h
  | cons _ _ ih =>
    exact ih (h.step (hes _ mem_cons_self)) fun e he => hes e (mem_cons_of_mem _ he)

/-! ## Somebody can go on -/

/-- `t` is in no call of `acquire`, or the next round of its call will grant
it the lock. -/
def CanGoOn (s : Threads T P) (t : T) : Prop :=
  ∀ p x, s.pending t = some (p, x) → (s.manager.acquireRound t p x).1 = .granted

theorem Orderly.canGoOn (h : s.Orderly) (hfree : s.manager.waitEdges t = []) : s.CanGoOn t := by
  intro p x hpending
  refine LockManager.acquireRound_granted ?_ hfree x
  rw [h.waiting t, hpending]
  rfl

end Threads

variable {es : List (LockEvent T P)} {s : Threads T P}

/-- In every state that any schedule reaches: locks are exclusive or shared
as their marks say, a granted lock is kept until it is given back, the
wait-for graph has no cycle, and from every transaction its edges lead to
one that waits for nobody and can go on. -/
theorem lock_table_invariant [DecidableEq T] [DecidableEq P] (hrun : Threads.Run .start es s) :
    (∀ p, s.manager.exclusive p = true →
      ∀ t ∈ s.manager.holders p, ∀ u ∈ s.manager.holders p, t = u) ∧
    (∀ p, s.manager.exclusive p = true → (s.manager.holders p).length = 1) ∧
    (∀ t p x es' s', s.Allowed (.round t p x) → (s.manager.acquireRound t p x).1 = .granted →
      Threads.Run (s.step (.round t p x)) es' s' → (∀ e ∈ es', ¬ e.GivesUp t p) →
      s'.Holds t p x) ∧
    Acyclic s.manager.waitEdges ∧
    ∀ t, ∃ u, ReflTransGen (Points s.manager.waitEdges) t u ∧ s.manager.waitEdges u = [] ∧
      s.CanGoOn u := by
  have h := Threads.orderly_start.run hrun
  refine ⟨fun p hx t ht u hu => ?_, fun p hx => ?_, fun t p x es' s' _ hg hrun' hes => ?_,
    h.acyclic, fun t => ?_⟩
  · obtain ⟨a, ha⟩ := h.exact p hx
    rw [ha, mem_singleton] at ht hu
    rw [ht, hu]
  · obtain ⟨a, ha⟩ := h.exact p hx
    rw [ha]
    rfl
  · exact (Threads.holds_granted hg).run hrun' hes
  · obtain ⟨u, hreach, hu⟩ := h.acyclic.reaches_sink s.manager.waitEdges_dom t
    exact ⟨u, hreach, hu, h.canGoOn hu⟩

/-- Transaction 1 reads page 0, transaction 2 writes page 1 and asks for page
0, transaction 1 gives page 0 back (as an insert does with a full page) and
asks for page 1. -/
def crossedRequests : List (LockEvent Nat Nat) :=
  [.round 1 0 false, .round 2 1 true, .round 2 0 true, .release 1 0, .round 1 1 false]

theorem run_crossedRequests :
    Threads.Run .start crossedRequests (crossedRequests.foldl Threads.step .start) := by
  refine .cons (Or.inl rfl) <| .cons (Or.inl rfl) <| .cons (Or.inl ?_) <| .cons ?_ <|
    .cons (Or.inl ?_) (.nil _)
  · decide +kernel
  · show Threads.pending _ 1 = none
    decide +kernel
  · decide +kernel

/-- After these requests both are listed as waiting, there is no cycle, and
2, for which 1 waits, can go on. -/
theorem lock_table_invariant_crossed :
    let s := crossedRequests.foldl Threads.step .start
    (∀ t ∈ [1, 2], (s.manager.waitingFor.lookup t).isSome) ∧ s.manager.waitEdges 1 = [2] ∧
      Acyclic s.manager.waitEdges ∧ s.CanGoOn 2 := by
  obtain ⟨-, -, -, hacyclic, hsink⟩ := lock_table_invariant run_crossedRequests
  have hfree : (crossedRequests.foldl Threads.step .start).manager.waitEdges 2 = [] := by
    decide +kernel
  refine ⟨by decide +kernel, by decide +kernel, hacyclic, ?_⟩
  obtain ⟨u, hreach, -, hu⟩ := hsink 2
  rcases hreach.cases_head with rfl | ⟨v, hv, -⟩
  · exact hu
  · rw [Points, hfree] at hv
    cases hv

/-- Every transaction of the run is waiting. -/
theorem crossed_requests_all_waiting :
    Threads.Run .start crossedRequests (crossedRequests.foldl Threads.step .start) ∧
    ∀ e ∈ crossedRequests,
      ((crossedRequests.foldl Threads.step .start).manager.waitingFor.lookup e.tid).isSome := by
  refine ⟨run_crossedRequests, ?_⟩
  decide +kernel

/-! ## Whom a deadlock is found between -/

namespace Threads

/-- The request of `t` is in conflict with a lock that `u` holds. -/
def Conflicts (s : Threads T P) (t u : T) : Prop :=
  ∃ p x, s.pending t = some (p, x) ∧ u ≠ t ∧ u ∈ s.manager.holders p ∧
    (x = true ∨ s.manager.exclusive p = true)

/-- No transaction is still listed with a request that could be granted to
it next to the other readers of the page. -/
def NoStaleReader (s : Threads T P) : Prop :=
  ∀ t p, s.pending t = some (p, false) →
    s.manager.exclusive p = true ∨ ∀ u ∈ s.manager.holders p, u = t

/-- What the threads wait for while `t` is refused `p`. -/
def refused [DecidableEq T] (s : Threads T P) (t : T) (p : P) (x : Bool) : Threads T P :=
  { s with pending := update s.pending t (some (p, x)) }

end Threads

namespace LockManager

variable [DecidableEq T] [DecidableEq P] {m : LockManager T P} {t : T} {p : P}

theorem tryAcquire_shared_none (h : m.tryAcquire t p false = none) : m.exclusive p = true := by
  unfold tryAcquire at h
  unfold exclusive
  cases hl : m.locks p with
  | none => simp [hl] at h
  | some st =>
    simp only [hl, Bool.not_false, Bool.or_true, if_true, Bool.true_and] at h
    split at h
    · cases h
    split at h
    · cases h
    split at h
    · cases h
    · rename_i hwriter
      rwa [Bool.not_eq_true, Bool.not_eq_false'] at hwriter

end LockManager

variable {t : T}

/-- When `acquire` gives up on a deadlock, and no reader that could go on is
listed as waiting, then there is a cycle of transactions through the caller
each of which asks for what the next one denies it. -/
theorem deadlock_abort_real [DecidableEq T] [DecidableEq P] (hrun : Threads.Run .start es s) {p : P}
    {x : Bool} (hthrown : (s.manager.acquireRound t p x).1 = .deadlock) (hstale : s.NoStaleReader) :
    TransGen (s.refused t p x).Conflicts t t := by
  have h := Threads.orderly_start.run hrun
  rcases s.manager.acquireRound_cases t p x with
    ⟨m', -, heq⟩ | ⟨-, -, heq⟩ | ⟨hnone, hdead, -⟩
  · rw [heq] at hthrown
    cases hthrown
  · rw [heq] at hthrown
    cases hthrown
  refine TransGen.mono (fun a b hab => ?_) t t (LockManager.hasDeadlock_iff.mp hdead)
  obtain ⟨q, hq, hba, hmem⟩ := LockManager.mem_waitEdges.mp hab
  have hmem' : b ∈ s.manager.holders q := hmem
  by_cases hat : a = t
  · subst hat
    rw [AList.lookup_insert, Option.some.injEq] at hq
    subst hq
    refine ⟨p, x, by simp [Threads.refused], hba, hmem', ?_⟩
    cases x with
    | true => exact Or.inl rfl
    | false => exact Or.inr (LockManager.tryAcquire_shared_none hnone)
  · rw [AList.lookup_insert_ne hat, h.waiting a] at hq
    obtain ⟨⟨q', y⟩, hpending, rfl⟩ := Option.map_eq_some_iff.mp hq
    refine ⟨q', y, by simp [Threads.refused, hat, hpending], hba, hmem', ?_⟩
    cases y with
    | true => exact Or.inl rfl
    | false => exact Or.inr ((hstale a q' hpending).resolve_right fun hall => hba (hall b hmem'))

theorem Threads.pending_foldl [DecidableEq T] [DecidableEq P] (h : ∀ e ∈ es, t ≠ e.tid) :
    (es.foldl Threads.step s).pending t = s.pending t := by
  induction es generalizing s with
  | nil => rfl
  | cons e es ih =>
    have hstep : (s.step e).pending t = s.pending t := by
      have ht := h e mem_cons_self
      cases e with
      | round u p x | interrupt u => exact update_of_ne ht _ _
      | release u p => rfl
      | releaseAll u => rfl
    exact (ih fun e he => h e (mem_cons_of_mem _ he)).trans hstep

/-- Two transactions that write a page each; 1 asks for the page of 2. -/
def crossedWrites : List (LockEvent Nat Nat) :=
  [.round 1 0 true, .round 2 1 true, .round 1 1 true]

/-- Then 2 asks for the page of 1. -/
theorem deadlock_abort_real_crossed :
    TransGen ((crossedWrites.foldl Threads.step .start).refused 2 0 true).Conflicts 2 2 := by
  have hrun : Threads.Run .start crossedWrites (crossedWrites.foldl Threads.step .start) :=
    .cons (Or.inl rfl) <| .cons (Or.inl rfl) <| .cons (Or.inl rfl) (.nil _)
  refine deadlock_abort_real hrun (by decide +kernel) fun t p ht => ?_
  by_cases hother : ∀ e ∈ crossedWrites, t ≠ e.tid
  · rw [Threads.pending_foldl hother] at ht
    cases ht
  · simp only [crossedWrites, forall_mem_cons, LockEvent.tid, not_mem_nil,
      false_implies, implies_true, and_true] at hother
    obtain rfl | rfl : t = 1 ∨ t = 2 := by omega
    · cases ht
    · cases ht

/-- Transaction 2 waits to read page 0, which 1 writes. 1 gives the page
back, and 3 reads it before 2 looks again. -/
def overtakenReader : List (LockEvent Nat Nat) :=
  [.round 1 0 true, .round 2 1 true, .round 2 0 false, .releaseAll 1, .round 3 0 false]

/-- Then 3 asks for page 1, which 2 writes, and is aborted. 2 is not in its
way: the next try of 2 is granted. -/
theorem overtaken_reader_aborts :
    Threads.Run .start overtakenReader (overtakenReader.foldl Threads.step .start) ∧
    (overtakenReader.foldl Threads.step .start).Allowed (.round 3 1 true) ∧
    ((overtakenReader.foldl Threads.step .start).manager.acquireRound 3 1 true).1 = .deadlock ∧
    ¬ TransGen ((overtakenReader.foldl Threads.step .start).refused 3 1 true).Conflicts 3 3 := by
  refine ⟨.cons (Or.inl rfl) <| .cons (Or.inl rfl) <| .cons (Or.inl rfl) <| .cons rfl <|
    .cons (Or.inl rfl) (.nil _), Or.inl rfl, by decide +kernel, fun hcycle => ?_⟩
  -- nobody's request is in conflict with the lock of 3, which is a shared one
  obtain ⟨b, -, p, x, hpending, hb, hholds, hmode⟩ := TransGen.tail'_iff.mp hcycle
  replace hpending := (update_of_ne (Ne.symm hb) _ _).symm.trans hpending
  by_cases hother : ∀ e ∈ overtakenReader, b ≠ e.tid
  · rw [Threads.pending_foldl hother] at hpending
    cases hpending
  · simp only [overtakenReader, forall_mem_cons, LockEvent.tid, not_mem_nil,
      false_implies, implies_true, and_true] at hother
    obtain rfl | rfl : b = 1 ∨ b = 2 := by omega
    · cases hpending
    · cases hpending
      exact absurd hmode (by decide +kernel)

end Corestack.Simpledb
