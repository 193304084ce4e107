import Mathlib.Logic.Function.Basic
import Mathlib.Logic.Relation
import Corestack.Lib.Prog

/-!
# Programs that share a state

Any number of programs make their calls one at a time, in any order, on one
state; what a call does to it is a relation, and the state may also change
by itself. A program is proved against what the others may do to the state
behind its back (its `rely`) and has to keep an invariant at every call of
its own (`Prog.Keeps`). If what each may do is within what the others
rely on, all of them keep their promises together (`Pool.run_keeps`).
-/

namespace Corestack.Lib

open Function

variable {Op : Type} {Reply : Op → Type} {ε α β σ ι : Type}

/-- The rule of a pool: what a call of a program may do, and what may happen
between calls. -/
structure Rules (Op : Type) (Reply : Op → Type) (σ ι : Type) where
  act : ι → (op : Op) → σ → Reply op → σ → Prop
  drift : σ → σ → Prop

structure Pool (Op : Type) (Reply : Op → Type) (ε α σ ι : Type) where
  state : σ
  procs : ι → Prog Op Reply ε α

/-- One program makes its next call, or the state drifts. -/
inductive Pool.Step [DecidableEq ι] (R : Rules Op Reply σ ι) :
    Pool Op Reply ε α σ ι → Pool Op Reply ε α σ ι → Prop
  | act {s s' : σ} {procs : ι → Prog Op Reply ε α} {p : ι} {op : Op}
      {k : Reply op → Prog Op Reply ε α} {r : Reply op} (hp : procs p = .call op k)
      (h : R.act p op s r s') : Step R ⟨s, procs⟩ ⟨s', update procs p (k r)⟩
  | drift {s s' : σ} {procs : ι → Prog Op Reply ε α} (h : R.drift s s') :
      Step R ⟨s, procs⟩ ⟨s', procs⟩

/-- What a proof about one program may assume and has to show. -/
structure Pact (σ ι : Type) where
  inv : σ → Prop
  rely : ι → σ → σ → Prop

/-- What each does is within what the others rely on. -/
structure Pact.Fits (C : Pact σ ι) (R : Rules Op Reply σ ι) : Prop where
  refl : ∀ p s, C.rely p s s
  trans : ∀ p s s' s'', C.rely p s s' → C.rely p s' s'' → C.rely p s s''
  act : ∀ p q op s r s', p ≠ q → C.inv s → R.act p op s r s' → C.rely q s s'
  drift : ∀ s s', C.inv s → R.drift s s' → C.inv s' ∧ ∀ q, C.rely q s s'

/-- Every call of the program keeps the invariant, and its outcome is as
`Q` says, whatever happens in between. -/
def Prog.Keeps (C : Pact σ ι) (R : Rules Op Reply σ ι) (p : ι) (Q : Except ε α → σ → Prop) :
    Prog Op Reply ε α → σ → Prop
  | .ret a, s => ∀ s', C.rely p s s' → Q (.ok a) s'
  | .fail e, s => ∀ s', C.rely p s s' → Q (.error e) s'
  | .call op k, s => ∀ s', C.rely p s s' → C.inv s' → ∀ r s'', R.act p op s' r s'' →
      C.inv s'' ∧ Keeps C R p Q (k r) s''

variable {C : Pact σ ι} {R : Rules Op Reply σ ι} {p : ι}

namespace Prog.Keeps

variable (hC : C.Fits R)
include hC

variable {Q : Except ε α → σ → Prop} {x : Prog Op Reply ε α} {s : σ}

theorem stable {s' : σ} (h : x.Keeps C R p Q s) (hs : C.rely p s s') : x.Keeps C R p Q s' := by
  cases x with
  | ret a | fail e | call op k => exact fun t ht => h t (hC.trans p _ _ _ hs ht)

theorem bind {Q : Except ε β → σ → Prop} {f : α → Prog Op Reply ε β}
    (h : x.Keeps C R p (fun
      | .ok a, t => (f a).Keeps C R p Q t
      | .error e, t => (Prog.fail e : Prog Op Reply ε β).Keeps C R p Q t) s) :
    (x >>= f).Keeps C R p Q s := by
  induction x generalizing s with
  | ret a | fail e => exact h s (hC.refl p s)
  | call op k ih =>
    intro t ht hinv r t' hact
    obtain ⟨hinv', hk⟩ := h t ht hinv r t' hact
    exact ⟨hinv', ih r hk⟩

omit hC in
theorem mono {Q' : Except ε α → σ → Prop} (h : x.Keeps C R p Q s) (hQ : ∀ r t, Q r t → Q' r t) :
    x.Keeps C R p Q' s := by
  induction x generalizing s with
  | ret a | fail e => exact fun t ht => hQ _ t (h t ht)
  | call op k ih =>
    intro t ht hinv r t' hact
    obtain ⟨hinv', hk⟩ := h t ht hinv r t' hact
    exact ⟨hinv', ih r hk⟩

omit hC in
theorem request {Q : Except ε β → σ → Prop} {op : Op} {k : Reply op → Prog Op Reply ε β}
    (h : ∀ s', C.rely p s s' → C.inv s' → ∀ r s'', R.act p op s' r s'' →
      C.inv s'' ∧ (k r).Keeps C R p Q s'') : (Prog.request op >>= k).Keeps C R p Q s :=
  h

end Prog.Keeps

/-- If every program keeps its contract from the start, then at every moment
of every run the invariant holds and every program keeps its contract for
what is left of it. -/
theorem Pool.run_keeps [DecidableEq ι] (hC : C.Fits R) {Q : ι → Except ε α → σ → Prop}
    {x y : Pool Op Reply ε α σ ι} (hinv : C.inv x.state)
    (hx : ∀ p, (x.procs p).Keeps C R p (Q p) x.state)
    (hrun : Relation.ReflTransGen (Pool.Step R) x y) :
    C.inv y.state ∧ ∀ p, (y.procs p).Keeps C R p (Q p) y.state := by
  induction hrun with
  | refl => exact ⟨hinv, hx⟩
  | tail _ hstep ih =>
    obtain ⟨hinv, hall⟩ := ih
    cases hstep with
    | @act s s' procs p op k r hp hact =>
      have hkeep := hall p
      simp only [hp] at hkeep
      obtain ⟨hinv', hk⟩ := hkeep s (hC.refl p s) hinv r s' hact
      refine ⟨hinv', fun q => ?_⟩
      by_cases hq : q = p
      · subst hq
        dsimp only
        rwa [update_self]
      · dsimp only
        rw [update_of_ne hq]
        exact (hall q).stable hC (hC.act p q op s r s' (Ne.symm hq) hinv hact)
    | drift hdrift =>
      obtain ⟨hinv', hrely⟩ := hC.drift _ _ hinv hdrift
      exact ⟨hinv', fun q => (hall q).stable hC (hrely q)⟩

theorem Prog.Keeps.ended (hC : C.Fits R) {Q : Except ε α → σ → Prop} {a : α} {s : σ}
    (h : (Prog.ret a : Prog Op Reply ε α).Keeps C R p Q s) : Q (.ok a) s :=
  h s (hC.refl p s)

end Corestack.Lib
