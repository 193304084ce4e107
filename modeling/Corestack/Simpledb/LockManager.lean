import Corestack.Lib.Search
import Mathlib.Data.List.AList

/-!
# The lock manager of the store (`LockManager.java`)

Page locks, shared or exclusive, with a wait-for graph that every refused
request is checked against. A thread that must wait polls: it stays in
`waitingFor` while it sleeps and tries again. What is atomic is the body of
a `synchronized` block, so those are the steps here, and a call of
`acquire` in progress is what a thread remembers between two of them.

Nothing depends on what pages and transactions are, only on telling them
apart.
-/

namespace Corestack.Simpledb

open List Lib

/-- `LockState`. The holders are a `HashSet`; no result depends on the order
in which they are listed. -/
structure LockState (T : Type) where
  holders : List T
  nodup : holders.Nodup
  exclusive : Bool
deriving DecidableEq

/-- A lock without the holder `tid`, which is none when no holder is left. -/
def LockState.without {T : Type} [DecidableEq T] (st : LockState T) (tid : T) :
    Option (LockState T) :=
  if st.holders.erase tid = [] then none
  else some ⟨st.holders.erase tid, st.nodup.erase tid, st.exclusive⟩

structure LockManager (T P : Type) where
  locks : P → Option (LockState T)
  waitingFor : AList fun _ : T => P

namespace LockManager

variable {T P : Type} [DecidableEq T] [DecidableEq P]

def empty : LockManager T P := ⟨fun _ => none, ∅⟩

def setLock (m : LockManager T P) (p : P) (st : Option (LockState T)) : LockManager T P :=
  { m with locks := Function.update m.locks p st }

def holders (m : LockManager T P) (p : P) : List T :=
  match m.locks p with
  | none => []
  | some st => st.holders

def exclusive (m : LockManager T P) (p : P) : Bool :=
  match m.locks p with
  | none => false
  | some st => st.exclusive

/-- `tryAcquire`: the table with the lock granted, or nothing on a
conflict. -/
def tryAcquire (m : LockManager T P) (tid : T) (pid : P) (exclusive : Bool) :
    Option (LockManager T P) :=
  match m.locks pid with
  | none => some (m.setLock pid (some ⟨[tid], nodup_singleton _, exclusive⟩))
  | some st =>
    if st.holders = [] then
      some (m.setLock pid (some ⟨[tid], nodup_singleton _, exclusive⟩))
    else if tid ∈ st.holders then
      if st.exclusive || !exclusive then some m
      else if st.holders.length = 1 then
        some (m.setLock pid (some { st with exclusive := true }))
      else none
    else if !exclusive && !st.exclusive then
      some (m.setLock pid (some ⟨st.holders.insert tid, st.nodup.insert, st.exclusive⟩))
    else none

/-- `waitEdges`: the other holders of the page that `t` waits for. -/
def waitEdges (m : LockManager T P) (t : T) : List T :=
  match m.waitingFor.lookup t with
  | none => []
  | some pid => (m.holders pid).erase t

/-- `hasDeadlock`. A transaction joins the frontier along an edge of the
graph, so the number of edges bounds the loop. -/
def hasDeadlock (m : LockManager T P) (start : T) : Bool :=
  search m.waitEdges start
    ((m.waitEdges start).length + pendingEdges m.waitEdges m.waitingFor.keys []) []
    (m.waitEdges start)

/-- How one round of `acquire` ends. -/
inductive Outcome where
  | granted
  | waiting
  | deadlock
deriving DecidableEq, Repr

/-- The synchronized block of `acquire`. -/
def acquireRound (m : LockManager T P) (tid : T) (pid : P) (exclusive : Bool) :
    Outcome × LockManager T P :=
  match m.tryAcquire tid pid exclusive with
  | some m' => (.granted, { m' with waitingFor := m'.waitingFor.erase tid })
  | none =>
    let m' := { m with waitingFor := m.waitingFor.insert tid pid }
    if m'.hasDeadlock tid then
      (.deadlock, { m' with waitingFor := m'.waitingFor.erase tid })
    else (.waiting, m')

/-- The synchronized block of an interrupted `acquire`. -/
def stopWaiting (m : LockManager T P) (tid : T) : LockManager T P :=
  { m with waitingFor := m.waitingFor.erase tid }

def release (m : LockManager T P) (tid : T) (pid : P) : LockManager T P :=
  match m.locks pid with
  | none => m
  | some st => m.setLock pid (st.without tid)

def holdsLock (m : LockManager T P) (tid : T) (pid : P) : Bool := tid ∈ m.holders pid

/-- `pagesHeldBy`, as the test for being one of them. -/
def pagesHeldBy (m : LockManager T P) (tid : T) (pid : P) : Bool := m.holdsLock tid pid

/-- `releaseAll`: only locks that `tid` held can end up without a holder. -/
def releaseAll (m : LockManager T P) (tid : T) : LockManager T P :=
  { m with
    locks := fun pid =>
      match m.locks pid with
      | none => none
      | some st => if tid ∈ st.holders then st.without tid else some st }

/-! ## Holders and modes after each step -/

section

omit [DecidableEq T] [DecidableEq P]

theorem holders_nodup (m : LockManager T P) (p : P) : (m.holders p).Nodup := by
  unfold holders
  cases m.locks p with
  | none => exact nodup_nil
  | some st => exact st.nodup

theorem holders_congr {m m' : LockManager T P} {p : P} (h : m'.locks p = m.locks p) :
    m'.holders p = m.holders p := by
  rw [holders, holders, h]

theorem exclusive_congr {m m' : LockManager T P} {p : P} (h : m'.locks p = m.locks p) :
    m'.exclusive p = m.exclusive p := by
  rw [exclusive, exclusive, h]

/-- A page is marked exclusive only while one transaction holds it. -/
def Exact (m : LockManager T P) : Prop :=
  ∀ p, m.exclusive p = true → ∃ t, m.holders p = [t]

end

variable {m m' : LockManager T P} {t u : T} {p q : P} {x : Bool}

omit [DecidableEq T] in
theorem setLock_locks (st : Option (LockState T)) (q : P) :
    (m.setLock p st).locks q = if q = p then st else m.locks q := by
  by_cases hq : q = p
  · subst hq; simp [setLock]
  · simp [setLock, hq]

/-! ### Giving back -/

/-- `t` has given back its lock on some pages. -/
structure GivesBack (m : LockManager T P) (t : T) (m' : LockManager T P) : Prop where
  waitingFor : m'.waitingFor = m.waitingFor
  locks : ∀ q, m'.locks q = m.locks q ∨ m'.locks q = (m.locks q).bind fun st => st.without t

theorem givesBack_release (m : LockManager T P) (t : T) (p : P) :
    GivesBack m t (m.release t p) := by
  unfold release
  cases hl : m.locks p with
  | none => exact ⟨rfl, fun _ => Or.inl rfl⟩
  | some st =>
    refine ⟨rfl, fun q => ?_⟩
    rw [setLock_locks]
    split
    · rename_i hq
      exact Or.inr (by rw [hq, hl]; rfl)
    · exact Or.inl rfl

omit [DecidableEq P] in
theorem givesBack_releaseAll (m : LockManager T P) (t : T) : GivesBack m t (m.releaseAll t) := by
  refine ⟨rfl, fun q => ?_⟩
  unfold releaseAll
  dsimp only
  cases m.locks q with
  | none => exact Or.inl rfl
  | some st =>
    dsimp only
    split
    · exact Or.inr rfl
    · exact Or.inl rfl

section GivesBack

omit [DecidableEq P]

theorem GivesBack.cases (h : GivesBack m t m') (q : P) :
    (m'.holders q = m.holders q ∧ m'.exclusive q = m.exclusive q) ∨
    (m'.holders q = (m.holders q).erase t ∧ m'.holders q ≠ [] ∧
      m'.exclusive q = m.exclusive q) ∨
    (m'.holders q = [] ∧ (m.holders q).erase t = [] ∧ m'.exclusive q = false) := by
  rcases h.locks q with hq | hq
  · exact Or.inl ⟨holders_congr hq, exclusive_congr hq⟩
  · right
    unfold LockManager.holders LockManager.exclusive
    rw [hq]
    cases m.locks q with
    | none => exact Or.inr ⟨rfl, rfl, rfl⟩
    | some st =>
      by_cases hnil : st.holders.erase t = []
      · simp only [Option.bind_some, LockState.without, if_pos hnil]
        exact Or.inr ⟨trivial, hnil, trivial⟩
      · simp only [Option.bind_some, LockState.without, if_neg hnil]
        exact Or.inl ⟨trivial, hnil, trivial⟩

theorem GivesBack.mem_of (h : GivesBack m t m') (hu : u ∈ m'.holders q) : u ∈ m.holders q := by
  rcases h.cases q with ⟨hq, -⟩ | ⟨hq, -, -⟩ | ⟨hq, -, -⟩
  · rwa [hq] at hu
  · rw [hq] at hu
    exact mem_of_mem_erase hu
  · rw [hq] at hu
    cases hu

theorem GivesBack.keeps (h : GivesBack m t m') (hu : u ∈ m.holders q) (hut : u ≠ t) :
    u ∈ m'.holders q ∧ m'.exclusive q = m.exclusive q := by
  have herase : u ∈ (m.holders q).erase t := (mem_erase_of_ne hut).mpr hu
  rcases h.cases q with ⟨hq, hx⟩ | ⟨hq, -, hx⟩ | ⟨-, hnil, -⟩
  · exact ⟨hq ▸ hu, hx⟩
  · exact ⟨hq ▸ herase, hx⟩
  · rw [hnil] at herase
    cases herase

theorem GivesBack.exact (h : GivesBack m t m') (hm : m.Exact) : m'.Exact := by
  intro q hx
  rcases h.cases q with ⟨hq, hx'⟩ | ⟨hq, hne, hx'⟩ | ⟨-, -, hx'⟩
  · rw [hq]
    exact hm q (hx' ▸ hx)
  · obtain ⟨a, ha⟩ := hm q (hx' ▸ hx)
    have hat : a ≠ t := by
      rintro rfl
      rw [hq, ha, erase_cons_head] at hne
      exact hne rfl
    exact ⟨a, by rw [hq, ha, erase_of_not_mem (by simpa using hat.symm)]⟩
  · rw [hx'] at hx
    cases hx

theorem GivesBack.waitEdges (h : GivesBack m t m') (u : T) : m'.waitEdges u ⊆ m.waitEdges u := by
  intro v hv
  unfold LockManager.waitEdges at hv ⊢
  rw [h.waitingFor] at hv
  cases hl : m.waitingFor.lookup u with
  | none => simp [hl] at hv
  | some q =>
    simp only [hl] at hv ⊢
    rw [(m'.holders_nodup q).mem_erase_iff] at hv
    rw [(m.holders_nodup q).mem_erase_iff]
    exact ⟨hv.1, h.mem_of hv.2⟩

end GivesBack

/-! ### Asking -/

/-- `t` has been granted a lock on `p`. -/
structure Grants (m : LockManager T P) (t : T) (p : P) (x : Bool) (m' : LockManager T P) :
    Prop where
  waitingFor : m'.waitingFor = m.waitingFor
  others : ∀ q, q ≠ p → m'.locks q = m.locks q
  holders : ∀ u, u ∈ m'.holders p ↔ u = t ∨ u ∈ m.holders p
  mode : x = true → m'.exclusive p = true
  keeps : ∀ u ∈ m.holders p, m.exclusive p = true → m'.exclusive p = true
  exact : m.Exact → m'.exclusive p = true → m'.holders p = [t]

omit [DecidableEq T] in
theorem grants_of_free (hfree : m.holders p = []) :
    Grants m t p x (m.setLock p (some ⟨[t], nodup_singleton _, x⟩)) where
  waitingFor := rfl
  others q hq := by rw [setLock_locks, if_neg hq]
  holders u := by
    rw [hfree]
    simp [LockManager.holders, setLock_locks]
  mode hx := by simp [LockManager.exclusive, setLock_locks, hx]
  keeps u hu := by
    rw [hfree] at hu
    cases hu
  exact _ _ := by simp [LockManager.holders, setLock_locks]

theorem tryAcquire_some (h : m.tryAcquire t p x = some m') : Grants m t p x m' := by
  unfold tryAcquire at h
  cases hl : m.locks p with
  | none =>
    simp only [hl, Option.some.injEq] at h
    exact h ▸ grants_of_free (by simp [holders, hl])
  | some st =>
    have hh : m.holders p = st.holders := by simp [holders, hl]
    have hx : m.exclusive p = st.exclusive := by simp [exclusive, hl]
    simp only [hl] at h
    split at h
    · rename_i hnil
      cases h
      exact grants_of_free (hh.trans hnil)
    split at h
    · rename_i hmem
      have hself : ∀ u, u ∈ st.holders ↔ u = t ∨ u ∈ st.holders := fun u =>
        ⟨Or.inr, fun hu => hu.elim (fun heq => heq ▸ hmem) id⟩
      split at h
      · rename_i hmode
        cases h
        refine ⟨rfl, fun _ _ => rfl, fun u => hh ▸ hself u, fun hx' => ?_, fun _ _ => id, ?_⟩
        · simpa [hx, hx'] using hmode
        · intro hm hex
          obtain ⟨a, ha⟩ := hm p hex
          rw [hh] at ha
          rw [ha, mem_singleton] at hmem
          rw [hh, ha, hmem]
      split at h
      · rename_i hone
        cases h
        obtain ⟨a, ha⟩ := length_eq_one_iff.mp hone
        have hat : t = a := by
          rw [ha] at hmem
          exact mem_singleton.mp hmem
        refine ⟨rfl, fun q hq => by rw [setLock_locks, if_neg hq], fun u => ?_, fun _ => ?_,
          fun _ _ _ => ?_, fun _ _ => ?_⟩
        · rw [hh, ← hself u]
          simp [LockManager.holders, setLock_locks]
        · simp [LockManager.exclusive, setLock_locks]
        · simp [LockManager.exclusive, setLock_locks]
        · simp [LockManager.holders, setLock_locks, ha, hat]
      · cases h
    · split at h
      · rename_i hshared
        simp only [Bool.and_eq_true, Bool.not_eq_eq_eq_not, Bool.not_true] at hshared
        cases h
        have hx' : (m.setLock p (some ⟨st.holders.insert t, st.nodup.insert,
            st.exclusive⟩)).exclusive p = false := by
          simp [LockManager.exclusive, setLock_locks, hshared.2]
        refine ⟨rfl, fun q hq => by rw [setLock_locks, if_neg hq], fun u => ?_, fun htrue => ?_,
          fun _ _ hex => ?_, fun _ hex => ?_⟩
        · rw [hh]
          simp [LockManager.holders, setLock_locks]
        · rw [hshared.1] at htrue
          cases htrue
        · rw [hx, hshared.2] at hex
          cases hex
        · rw [hx'] at hex
          cases hex
      · cases h

/-- A request is refused only while somebody else holds the page. -/
theorem tryAcquire_none (h : m.tryAcquire t p x = none) : ∃ u ∈ m.holders p, u ≠ t := by
  by_contra hno
  have hall : ∀ u ∈ m.holders p, u = t := by
    intro u hu
    by_contra hut
    exact hno ⟨u, hu, hut⟩
  unfold tryAcquire at h
  cases hl : m.locks p with
  | none => simp [hl] at h
  | some st =>
    have hh : m.holders p = st.holders := by simp [holders, hl]
    rw [hh] at hall
    simp only [hl] at h
    split at h
    · cases h
    rename_i hne
    obtain ⟨a, as, has⟩ := exists_cons_of_ne_nil hne
    have ha : a = t := hall a (by simp [has])
    -- distinct holders that are all `t` are one
    have hone : st.holders.length = 1 := by
      have hnil : as = [] := by
        refine eq_nil_iff_forall_not_mem.mpr fun b hb => ?_
        have hnd := st.nodup
        rw [has, nodup_cons] at hnd
        exact hnd.1 (ha.trans (hall b (by simp [has, hb])).symm ▸ hb)
      simp [has, hnil]
    have hmem : t ∈ st.holders := by simp [has, ha]
    rw [if_pos hmem, if_pos hone] at h
    split at h <;> cases h

end LockManager

end Corestack.Simpledb
