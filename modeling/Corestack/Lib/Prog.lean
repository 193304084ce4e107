import Mathlib.Tactic.Basic

/-!
# Interactive programs with early exit

A program that talks to an environment is a tree: it returns, it fails
with an error code, or it makes a call and continues with the reply. The
environment is a handler, a function from a call and a state to a reply
and a state, and `Prog.run` plays the program against it.

The one discipline studied here is *fail-stop*: once a reply is bad, the
program makes no call that matters any more and does not succeed. Two
rules say what fail-stop buys. `FailStop.run_sim` compares a handler that
may misbehave with an ideal one, and `FailStop.run_congr` compares two
handlers that agree until the first bad reply.
-/

namespace Corestack.Lib

theorem except_bind_ok {ε α β : Type} {x : Except ε α} {f : α → Except ε β} {b : β} :
    x >>= f = .ok b ↔ ∃ a, x = .ok a ∧ f a = .ok b := by
  cases x with
  | error e =>
    constructor
    · intro h
      cases h
    · rintro ⟨_, h, -⟩
      cases h
  | ok a =>
    constructor
    · exact fun h => ⟨a, rfl, h⟩
    · rintro ⟨_, ⟨⟩, h⟩
      exact h

/-- A program whose calls are `op : Op`, answered by a `Reply op`, that
returns an `α` or fails with an `ε`. -/
inductive Prog (Op : Type) (Reply : Op → Type) (ε α : Type) where
  | ret (a : α)
  | fail (e : ε)
  | call (op : Op) (k : Reply op → Prog Op Reply ε α)

namespace Prog

variable {Op : Type} {Reply : Op → Type} {ε ε' α β γ σ τ : Type}

def bind : Prog Op Reply ε α → (α → Prog Op Reply ε β) → Prog Op Reply ε β
  | .ret a, f => f a
  | .fail e, _ => .fail e
  | .call op k, f => .call op fun r => (k r).bind f

instance : Monad (Prog Op Reply ε) where
  pure := .ret
  bind := .bind

/-- Run a program to its end and hand its outcome to the continuation. -/
def attempt : Prog Op Reply ε α → Prog Op Reply ε' (Except ε α)
  | .ret a => .ret (.ok a)
  | .fail e => .ret (.error e)
  | .call op k => .call op fun r => (k r).attempt

def request (op : Op) : Prog Op Reply ε (Reply op) := .call op .ret

@[simp] theorem pure_eq (a : α) : (pure a : Prog Op Reply ε α) = .ret a := rfl

@[simp] theorem ret_bind (a : α) (f : α → Prog Op Reply ε β) :
    (Prog.ret a >>= f) = f a := rfl

@[simp] theorem fail_bind (e : ε) (f : α → Prog Op Reply ε β) :
    (Prog.fail e >>= f) = .fail e := rfl

@[simp] theorem call_bind (op : Op) (k : Reply op → Prog Op Reply ε α)
    (f : α → Prog Op Reply ε β) :
    (Prog.call op k >>= f) = .call op fun r => k r >>= f := rfl

theorem bind_assoc (p : Prog Op Reply ε α) (f : α → Prog Op Reply ε β)
    (g : β → Prog Op Reply ε γ) : (p >>= f) >>= g = p >>= fun a => f a >>= g := by
  induction p with
  | ret a => rfl
  | fail e => rfl
  | call op k ih => exact congrArg (Prog.call op) (funext ih)

/-! ## Running -/

/-- Play a program against a handler. -/
def run (h : (op : Op) → σ → Reply op × σ) :
    Prog Op Reply ε α → σ → Except ε α × σ
  | .ret a, s => (.ok a, s)
  | .fail e, s => (.error e, s)
  | .call op k, s => run h (k (h op s).1) (h op s).2

variable {h : (op : Op) → σ → Reply op × σ}

@[simp] theorem run_ret (a : α) (s : σ) :
    run h (.ret a : Prog Op Reply ε α) s = (.ok a, s) := rfl

@[simp] theorem run_fail (e : ε) (s : σ) :
    run h (.fail e : Prog Op Reply ε α) s = (.error e, s) := rfl

@[simp] theorem run_call (op : Op) (k : Reply op → Prog Op Reply ε α) (s : σ) :
    run h (.call op k) s = run h (k (h op s).1) (h op s).2 := rfl

theorem run_bind (p : Prog Op Reply ε α) (f : α → Prog Op Reply ε β) (s : σ) :
    run h (p >>= f) s =
      match run h p s with
      | (.ok a, s') => run h (f a) s'
      | (.error e, s') => (.error e, s') := by
  induction p generalizing s with
  | ret a => rfl
  | fail e => rfl
  | call op k ih => exact ih _ _

variable {p : Prog Op Reply ε α} {f : α → Prog Op Reply ε β} {s s' : σ}

theorem run_bind_ok {b : β} (hrun : run h (p >>= f) s = (.ok b, s')) :
    ∃ a s₁, run h p s = (.ok a, s₁) ∧ run h (f a) s₁ = (.ok b, s') := by
  rw [run_bind] at hrun
  rcases hp : run h p s with ⟨a | a, s₁⟩
  · rw [hp] at hrun
    cases hrun
  · rw [hp] at hrun
    exact ⟨a, s₁, rfl, hrun⟩

theorem run_bind_of_ok {a : α} (hp : run h p s = (.ok a, s')) :
    run h (p >>= f) s = run h (f a) s' := by
  rw [run_bind, hp]

theorem run_bind_of_error {e : ε} (hp : run h p s = (.error e, s')) :
    run h (p >>= f) s = (.error e, s') := by
  rw [run_bind, hp]

theorem run_attempt (p : Prog Op Reply ε α) (s : σ) :
    run h (p.attempt : Prog Op Reply ε' (Except ε α)) s =
      (.ok (run h p s).1, (run h p s).2) := by
  induction p generalizing s with
  | ret a => rfl
  | fail e => rfl
  | call op k ih => exact ih _ _

theorem run_bind_attempt {r : Except ε α} {f : Except ε α → Prog Op Reply ε' β}
    (hp : run h p s = (r, s')) : run h (p.attempt >>= f) s = run h (f r) s' := by
  rw [run_bind, run_attempt, hp]

/-- The calls of a run with their replies, in order. -/
def trace (h : (op : Op) → σ → Reply op × σ) :
    Prog Op Reply ε α → σ → List ((op : Op) × Reply op)
  | .ret _, _ => []
  | .fail _, _ => []
  | .call op k, s => ⟨op, (h op s).1⟩ :: trace h (k (h op s).1) (h op s).2

@[simp] theorem trace_ret (a : α) (s : σ) : trace h (.ret a : Prog Op Reply ε α) s = [] := rfl

@[simp] theorem trace_fail (e : ε) (s : σ) : trace h (.fail e : Prog Op Reply ε α) s = [] := rfl

@[simp] theorem trace_call (op : Op) (k : Reply op → Prog Op Reply ε α) (s : σ) :
    trace h (.call op k) s = ⟨op, (h op s).1⟩ :: trace h (k (h op s).1) (h op s).2 := rfl

/-- The calls of a run with the states they are made in. -/
def visits (h : (op : Op) → σ → Reply op × σ) : Prog Op Reply ε α → σ → List (Op × σ)
  | .ret _, _ => []
  | .fail _, _ => []
  | .call op k, s => (op, s) :: visits h (k (h op s).1) (h op s).2

/-! ## What a program may do -/

/-- Every call is a `quiet` one and every value returned satisfies `Q`. -/
def Quiet (quiet : Op → Prop) (Q : α → Prop) : Prog Op Reply ε α → Prop
  | .ret a => Q a
  | .fail _ => True
  | .call op k => quiet op ∧ ∀ r, (k r).Quiet quiet Q

/-- Every call is an `allowed` one. After the first `bad` reply all calls
are `quiet`, and the program fails or returns a value in `Q`. -/
def FailStop (allowed quiet : Op → Prop) (bad : (op : Op) → Reply op → Prop)
    (Q : α → Prop) : Prog Op Reply ε α → Prop
  | .ret _ => True
  | .fail _ => True
  | .call op k => allowed op ∧
      ∀ r, (bad op r → (k r).Quiet quiet Q) ∧
        (¬ bad op r → (k r).FailStop allowed quiet bad Q)

variable {allowed quiet : Op → Prop} {bad : (op : Op) → Reply op → Prop}
  {Q : α → Prop} {Q' : β → Prop}

theorem Quiet.mono {Q₂ : α → Prop} (hp : p.Quiet quiet Q) (hQ : ∀ a, Q a → Q₂ a) :
    p.Quiet quiet Q₂ := by
  induction p with
  | ret a => exact hQ a hp
  | fail e => trivial
  | call op k ih => exact ⟨hp.1, fun r => ih r (hp.2 r)⟩

theorem Quiet.bind (hp : p.Quiet quiet Q) (hf : ∀ a, Q a → (f a).Quiet quiet Q') :
    (p >>= f).Quiet quiet Q' := by
  induction p with
  | ret a => exact hf a hp
  | fail e => trivial
  | call op k ih => exact ⟨hp.1, fun r => ih r (hp.2 r)⟩

/-- Sequencing fail-stop programs: values returned after a bad reply must
lead the continuation to stay quiet. -/
theorem FailStop.bind (hp : p.FailStop allowed quiet bad Q) (hQ : ∀ a, Q a → (f a).Quiet quiet Q')
    (hf : ∀ a, (f a).FailStop allowed quiet bad Q') : (p >>= f).FailStop allowed quiet bad Q' := by
  induction p with
  | ret a => exact hf a
  | fail e => trivial
  | call op k ih =>
    exact ⟨hp.1, fun r => ⟨fun hb => ((hp.2 r).1 hb).bind hQ,
      fun hb => ih r ((hp.2 r).2 hb)⟩⟩

theorem FailStop.and_calls {P : Op → Prop} (hp : p.FailStop allowed quiet bad Q)
    (hP : p.Quiet P fun _ => True) : p.FailStop (fun op => allowed op ∧ P op) quiet bad Q := by
  induction p with
  | ret a => trivial
  | fail e => trivial
  | call op k ih =>
    exact ⟨⟨hp.1, hP.1⟩, fun r => ⟨(hp.2 r).1, fun hb => ih r ((hp.2 r).2 hb) (hP.2 r)⟩⟩

theorem Quiet.bind_attempt {f : Except ε α → Prog Op Reply ε' β} (hp : p.Quiet quiet Q)
    (hok : ∀ a, Q a → (f (.ok a)).Quiet quiet Q') (herr : ∀ e, (f (.error e)).Quiet quiet Q') :
    (p.attempt >>= f).Quiet quiet Q' := by
  induction p with
  | ret a => exact hok a hp
  | fail e => exact herr e
  | call op k ih => exact ⟨hp.1, fun r => ih r (hp.2 r)⟩

/-- Every failure code is in `E`. -/
def FailsIn (E : ε → Prop) : Prog Op Reply ε α → Prop
  | .ret _ => True
  | .fail e => E e
  | .call _ k => ∀ r, (k r).FailsIn E

variable {E : ε → Prop}

theorem FailsIn.bind (hp : p.FailsIn E) (hf : ∀ a, (f a).FailsIn E) : (p >>= f).FailsIn E := by
  induction p with
  | ret a => exact hf a
  | fail e => exact hp
  | call op k ih => exact fun r => ih r (hp r)

theorem FailsIn.bind_attempt {E' : ε' → Prop} {f : Except ε α → Prog Op Reply ε' β}
    (hp : p.FailsIn E) (hok : ∀ a, (f (.ok a)).FailsIn E')
    (herr : ∀ e, E e → (f (.error e)).FailsIn E') : (p.attempt >>= f).FailsIn E' := by
  induction p with
  | ret a => exact hok a
  | fail e => exact herr e hp
  | call op k ih => exact fun r => ih r (hp r)

theorem FailsIn.run_error (hp : p.FailsIn E) :
    ∀ {s s' : σ} {e : ε}, run h p s = (.error e, s') → E e := by
  induction p with
  | ret a =>
    intro s s' e hrun
    cases hrun
  | fail e =>
    intro s s' e hrun
    cases hrun
    exact hp
  | call op k ih => exact fun hrun => ih _ (hp _) hrun

/-- Whatever is replied: a program that starts with a note, and brings it up
to date after every reply, ends with a note and an outcome in `D`. -/
def Notes (note : τ → (op : Op) → Reply op → τ) (D : τ → Except ε α → Prop) :
    Prog Op Reply ε α → τ → Prop
  | .ret a, t => D t (.ok a)
  | .fail e, t => D t (.error e)
  | .call op k, t => ∀ r, (k r).Notes note D (note t op r)

section Notes

variable {note : τ → (op : Op) → Reply op → τ} {D : τ → Except ε α → Prop} {t : τ}

theorem Notes.bind {D' : τ → Except ε β → Prop} (hp : p.Notes note D t)
    (hok : ∀ a t', D t' (.ok a) → (f a).Notes note D' t')
    (herr : ∀ e t', D t' (.error e) → D' t' (.error e)) : (p >>= f).Notes note D' t := by
  induction p generalizing t with
  | ret a => exact hok a t hp
  | fail e => exact herr e t hp
  | call op k ih => exact fun r => ih r (hp r)

theorem Notes.bind_attempt {D' : τ → Except ε' β → Prop} {f : Except ε α → Prog Op Reply ε' β}
    (hp : p.Notes note D t) (hf : ∀ r t', D t' r → (f r).Notes note D' t') :
    (p.attempt >>= f).Notes note D' t := by
  induction p generalizing t with
  | ret a => exact hf _ t hp
  | fail e => exact hf _ t hp
  | call op k ih => exact fun r => ih r (hp r)

/-- The note a run ends with is the one its calls leave behind. -/
theorem Notes.run (hp : p.Notes note D t) (s : σ) :
    D ((trace h p s).foldl (fun t c => note t c.1 c.2) t) (Prog.run h p s).1 := by
  induction p generalizing t s with
  | ret a => exact hp
  | fail e => exact hp
  | call op k ih => exact ih _ (hp _) _

end Notes

/-- Every way the program can end is in `D`. -/
def Ends (D : Except ε α → Prop) (p : Prog Op Reply ε α) : Prop :=
  p.Notes (fun _ _ _ => ()) (fun _ => D) ()

theorem Ends.bind {D : Except ε α → Prop} {D' : Except ε β → Prop} (hp : p.Ends D)
    (hok : ∀ a, D (.ok a) → (f a).Ends D') (herr : ∀ e, D (.error e) → D' (.error e)) :
    (p >>= f).Ends D' :=
  Notes.bind hp (fun a _ => hok a) fun e _ => herr e

theorem Ends.bind_attempt {D : Except ε α → Prop} {D' : Except ε' β → Prop}
    {f : Except ε α → Prog Op Reply ε' β} (hp : p.Ends D) (hf : ∀ r, D r → (f r).Ends D') :
    (p.attempt >>= f).Ends D' :=
  Notes.bind_attempt hp fun r _ => hf r

theorem Ends.run {D : Except ε α → Prop} (hp : p.Ends D) (s : σ) : D (Prog.run h p s).1 :=
  Notes.run hp s

/-- As long as every reply is in `G`, the program ends in `D`. -/
def EndsIf (G : (op : Op) → Reply op → Prop) (D : Except ε α → Prop) : Prog Op Reply ε α → Prop
  | .ret a => D (.ok a)
  | .fail e => D (.error e)
  | .call op k => ∀ r, G op r → (k r).EndsIf G D

section EndsIf

variable {G : (op : Op) → Reply op → Prop} {D : Except ε α → Prop}

theorem EndsIf.bind {D' : Except ε β → Prop} (hp : p.EndsIf G D)
    (hok : ∀ a, D (.ok a) → (f a).EndsIf G D') (herr : ∀ e, D (.error e) → D' (.error e)) :
    (p >>= f).EndsIf G D' := by
  induction p with
  | ret a => exact hok a hp
  | fail e => exact herr e hp
  | call op k ih => exact fun r hr => ih r (hp r hr)

theorem EndsIf.bind_attempt {D' : Except ε' β → Prop} {f : Except ε α → Prog Op Reply ε' β}
    (hp : p.EndsIf G D) (hf : ∀ r, D r → (f r).EndsIf G D') : (p.attempt >>= f).EndsIf G D' := by
  induction p with
  | ret a => exact hf _ hp
  | fail e => exact hf _ hp
  | call op k ih => exact fun r hr => ih r (hp r hr)

theorem Notes.endsIf {note : τ → (op : Op) → Reply op → τ} {D' : τ → Except ε α → Prop} {t : τ}
    (hp : p.Notes note D' t) (hD : ∀ t r, D' t r → D r) : p.EndsIf G D := by
  induction p generalizing t with
  | ret a => exact hD _ _ hp
  | fail e => exact hD _ _ hp
  | call op k ih => exact fun r _ => ih r (hp r)

theorem EndsIf.run (hp : p.EndsIf G D) {s : σ} (hG : ∀ c ∈ trace h p s, G c.1 c.2) :
    D (Prog.run h p s).1 := by
  induction p generalizing s with
  | ret a => exact hp
  | fail e => exact hp
  | call op k ih =>
    rw [trace_call, List.forall_mem_cons] at hG
    exact ih _ (hp _ hG.1) hG.2

end EndsIf

/-! ## Runs from one state -/

/-- In the run from this state every call satisfies `G`, and the run ends in
`D`. -/
def Runs (h : (op : Op) → σ → Reply op × σ) (G : Op → Prop) (D : Except ε α → σ → Prop) :
    Prog Op Reply ε α → σ → Prop
  | .ret a, s => D (.ok a) s
  | .fail e, s => D (.error e) s
  | .call op k, s => G op ∧ Runs h G D (k (h op s).1) (h op s).2

variable {D : Except ε α → σ → Prop} {G : Op → Prop}

theorem Runs.bind {D' : Except ε β → σ → Prop} (hp : Runs h G D p s)
    (hok : ∀ a s', D (.ok a) s' → Runs h G D' (f a) s')
    (herr : ∀ e s', D (.error e) s' → D' (.error e) s') : Runs h G D' (p >>= f) s := by
  induction p generalizing s with
  | ret a => exact hok a s hp
  | fail e => exact herr e s hp
  | call op k ih => exact ⟨hp.1, ih _ hp.2⟩

theorem Runs.bind_attempt {D' : Except ε' β → σ → Prop} {f : Except ε α → Prog Op Reply ε' β}
    (hp : Runs h G D p s) (hf : ∀ r s', D r s' → Runs h G D' (f r) s') :
    Runs h G D' (p.attempt >>= f) s := by
  induction p generalizing s with
  | ret a => exact hf _ s hp
  | fail e => exact hf _ s hp
  | call op k ih => exact ⟨hp.1, ih _ hp.2⟩

variable {K : σ → Prop}

/-- A program that only makes calls in `G` does so from every state, and
keeps what these calls keep. -/
theorem Quiet.runs {Q : α → Prop} (hp : p.Quiet G Q) (hK : ∀ op s, G op → K s → K (h op s).2)
    (hs : K s) : Runs h G (fun _ s' => K s') p s := by
  induction p generalizing s with
  | ret a => exact hs
  | fail e => exact hs
  | call op k ih => exact ⟨hp.1, ih _ (hp.2 _) (hK op s hp.1 hs)⟩

theorem Runs.run (hp : Runs h G D p s) : D (Prog.run h p s).1 (Prog.run h p s).2 := by
  induction p generalizing s with
  | ret a => exact hp
  | fail e => exact hp
  | call op k ih => exact ih _ hp.2

theorem Runs.of_visits (hp : Runs h G D p s) : ∀ v ∈ visits h p s, G v.1 := by
  induction p generalizing s with
  | ret a => simp [visits]
  | fail e => simp [visits]
  | call op k ih =>
    intro v hv
    rcases List.mem_cons.mp hv with rfl | hv
    · exact hp.1
    · exact ih _ hp.2 v hv

/-! ## Fail-stop programs under two handlers -/

/-- Running a quiet program keeps what every quiet call keeps, and a result
meets what the program ensures. -/
theorem Quiet.run_inv (hp : p.Quiet quiet Q) (hK : ∀ op s, quiet op → K s → K (h op s).2) :
    ∀ s, K s → K (run h p s).2 ∧ ∀ a, (run h p s).1 = .ok a → Q a := by
  induction p with
  | ret a =>
    intro s hs
    exact ⟨hs, fun b hb => by cases hb; exact hp⟩
  | fail e =>
    intro s hs
    exact ⟨hs, fun b hb => by cases hb⟩
  | call op k ih =>
    intro s hs
    exact ih _ (hp.2 _) _ (hK op s hp.1 hs)

variable {g : (op : Op) → τ → Reply op × τ} {R : σ → τ → Prop}

/-- A fail-stop program against a handler that may misbehave. As long as
no reply is bad the handler simulates the ideal one `g` through `R`; a bad
reply only has to establish `K`. Then the run ends as the ideal run does,
or it went bad and ends in `K` without an ordinary result. -/
theorem FailStop.run_sim (hp : p.FailStop allowed quiet bad Q)
    (hstep : ∀ op s t, allowed op → R s t →
      (bad op (h op s).1 ∧ K (h op s).2) ∨
      (¬ bad op (h op s).1 ∧ (h op s).1 = (g op t).1 ∧ R (h op s).2 (g op t).2))
    (hK : ∀ op s, quiet op → K s → K (h op s).2) :
    ∀ s t, R s t →
      (K (run h p s).2 ∧ ∀ a, (run h p s).1 = .ok a → Q a) ∨
      ((run h p s).1 = (run g p t).1 ∧ R (run h p s).2 (run g p t).2) := by
  induction p with
  | ret a | fail e => exact fun s t hR => .inr ⟨rfl, hR⟩
  | call op k ih =>
    intro s t hR
    rcases hstep op s t hp.1 hR with ⟨hb, hKs⟩ | ⟨hb, heq, hR'⟩
    · exact .inl (((hp.2 _).1 hb).run_inv hK _ hKs)
    · simp only [run_call]
      rw [← heq]
      exact ih _ ((hp.2 _).2 hb) _ _ hR'

/-- Running a quiet program under two handlers that answer quiet calls
alike. -/
theorem Quiet.run_congr (hp : p.Quiet quiet Q)
    (hR : ∀ op s t, quiet op → R s t →
      (h op s).1 = (g op t).1 ∧ R (h op s).2 (g op t).2) :
    ∀ s t, R s t → (run h p s).1 = (run g p t).1 ∧ R (run h p s).2 (run g p t).2 ∧
      ∀ a, (run h p s).1 = .ok a → Q a := by
  induction p with
  | ret a =>
    refine fun s t hst => ⟨rfl, hst, fun b hb => ?_⟩
    cases hb
    exact hp
  | fail e => exact fun s t hst => ⟨rfl, hst, fun b hb => by cases hb⟩
  | call op k ih =>
    intro s t hst
    obtain ⟨heq, hst'⟩ := hR op s t hp.1 hst
    simp only [run_call]
    rw [← heq]
    exact ih _ (hp.2 _) _ _ hst'

/-- A fail-stop program under two handlers that give the same replies. The
strong relation `R` may degrade to the weak one `W` at a bad reply, since
from then on only quiet calls follow and no ordinary result. -/
theorem FailStop.run_congr {W : σ → τ → Prop} (hp : p.FailStop allowed quiet bad Q)
    (hsub : ∀ s t, R s t → W s t)
    (hstep : ∀ op s t, allowed op → R s t → (h op s).1 = (g op t).1 ∧
      (R (h op s).2 (g op t).2 ∨ bad op (h op s).1 ∧ W (h op s).2 (g op t).2))
    (hquiet : ∀ op s t, quiet op → W s t →
      (h op s).1 = (g op t).1 ∧ W (h op s).2 (g op t).2) :
    ∀ s t, R s t → (run h p s).1 = (run g p t).1 ∧
      (R (run h p s).2 (run g p t).2 ∨
        W (run h p s).2 (run g p t).2 ∧ ∀ a, (run h p s).1 = .ok a → Q a) := by
  induction p with
  | ret a | fail e => exact fun s t hR => ⟨rfl, .inl hR⟩
  | call op k ih =>
    intro s t hR
    obtain ⟨heq, hR' | ⟨hb, hR'⟩⟩ := hstep op s t hp.1 hR
    · simp only [run_call]
      rw [← heq]
      by_cases hb : bad op (h op s).1
      · obtain ⟨h1, h2⟩ := ((hp.2 _).1 hb).run_congr hquiet _ _ (hsub _ _ hR')
        exact ⟨h1, .inr h2⟩
      · exact ih _ ((hp.2 _).2 hb) _ _ hR'
    · simp only [run_call]
      rw [← heq]
      obtain ⟨h1, h2⟩ := ((hp.2 _).1 hb).run_congr hquiet _ _ hR'
      exact ⟨h1, .inr h2⟩

/-! ## Programs that run alike -/

/-- From every state in `P` the two handlers run the program alike, and `P`
holds again at its end. With one handler, `P` is kept. -/
def Agree (h g : (op : Op) → σ → Reply op × σ) (P : σ → Prop) (p : Prog Op Reply ε α) : Prop :=
  ∀ s, P s → run h p s = run g p s ∧ P (run h p s).2

variable {g : (op : Op) → σ → Reply op × σ} {P : σ → Prop}

theorem Agree.ret (a : α) : Agree h g P (.ret a : Prog Op Reply ε α) := fun _ hs => ⟨rfl, hs⟩

theorem Agree.fail (e : ε) : Agree h g P (.fail e : Prog Op Reply ε α) := fun _ hs => ⟨rfl, hs⟩

theorem Agree.bind (hp : Agree h g P p) (hf : ∀ a, Agree h g P (f a)) : Agree h g P (p >>= f) := by
  intro s hs
  obtain ⟨heq, hP⟩ := hp s hs
  rw [run_bind, run_bind, ← heq]
  rcases hrun : run h p s with ⟨e | a, s'⟩
  · rw [hrun] at hP
    exact ⟨rfl, hP⟩
  · rw [hrun] at hP
    exact hf a s' hP

theorem Agree.attempt (hp : Agree h g P p) :
    Agree h g P (p.attempt : Prog Op Reply ε' (Except ε α)) := by
  intro s hs
  obtain ⟨heq, hP⟩ := hp s hs
  rw [run_attempt, run_attempt, heq]
  exact ⟨rfl, heq ▸ hP⟩

end Prog

end Corestack.Lib
