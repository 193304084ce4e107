import Mathlib.Data.List.Basic
import Corestack.Lib.Prog

/-!
# Iterators with one element of lookahead

An iterator answers `hasNext` and `next`, may fail at either, and works on a
world that its consumer changes between two calls. A contract says what is
left for it to deliver and what it knows of an element it has gone past.
Iterators are built from a function that fetches one element, behind a cache
for the element that `hasNext` had to fetch.
-/

namespace Corestack.Lib

structure Cursor (ε W S α : Type) where
  hasNext : W → S → Except ε (Bool × W × S)
  next : W → S → Except ε (α × W × S)

/-! ## Contracts -/

/-- What an iterator promises in a state, as far as the world shows it. -/
structure Contract (V S α : Type) where
  Inv : S → Prop
  /-- What is left to deliver. -/
  rest : V → S → List α
  /-- Elements it has gone past. -/
  Past : S → α → Prop

namespace Contract

variable {V S α β : Type}

/-- A later state, past all that the earlier one was past. -/
structure Later (k : Contract V S α) (s s' : S) : Prop where
  inv : k.Inv s'
  past : ∀ x, k.Past s x → k.Past s' x

variable {k : Contract V S α} {s : S}

theorem Later.trans {s' s'' : S} (h : k.Later s s') (h' : k.Later s' s'') : k.Later s s'' :=
  ⟨h'.inv, fun x hx => h'.past x (h.past x hx)⟩

theorem Later.refl (h : k.Inv s) : k.Later s s :=
  ⟨h, fun _ h => h⟩

def filter (k : Contract V S α) (p : α → Bool) : Contract V S α :=
  { k with rest := fun v s => (k.rest v s).filter p }

def map (k : Contract V S α) (f : α → β) : Contract V S β where
  Inv := k.Inv
  rest := fun v s => (k.rest v s).map f
  Past := fun s y => ∃ x, k.Past s x ∧ f x = y

def cached (k : Contract V S α) : Contract V (Option α × S) α where
  Inv := fun s => k.Inv s.2 ∧ ∀ x ∈ s.1, k.Past s.2 x
  rest := fun v s => s.1.toList ++ k.rest v s.2
  Past := fun s => k.Past s.2

end Contract

section Meets

variable {ε W V S α β : Type}

/-- The iterator keeps the contract and leaves alone what the world shows. -/
structure Cursor.Meets (c : Cursor ε W S α) (view : W → V) (k : Contract V S α) : Prop where
  hasNext : ∀ {w s b w' s'}, k.Inv s → c.hasNext w s = .ok (b, w', s') →
    view w' = view w ∧ k.Later s s' ∧ k.rest (view w) s' = k.rest (view w) s ∧
      (b = true ↔ k.rest (view w) s ≠ [])
  next : ∀ {w s x w' s'}, k.Inv s → c.next w s = .ok (x, w', s') →
    view w' = view w ∧ k.Later s s' ∧ k.rest (view w) s = x :: k.rest (view w) s' ∧ k.Past s' x

/-- What a function that fetches one element has to do for it. -/
structure Fetches (fetch : W → S → Except ε (Option α × W × S)) (view : W → V)
    (k : Contract V S α) : Prop where
  fetch : ∀ {w s o w' s'}, k.Inv s → fetch w s = .ok (o, w', s') →
    view w' = view w ∧ k.Later s s' ∧ k.rest (view w) s = o.toList ++ k.rest (view w) s' ∧
      (o = none → k.rest (view w) s = []) ∧ ∀ x ∈ o, k.Past s' x

/-! ## The cache -/

/-- An iterator from a function that fetches one element. -/
def operator (empty : ε) (fetch : W → S → Except ε (Option α × W × S)) :
    Cursor ε W (Option α × S) α where
  hasNext := fun w s =>
    match s with
    | (some x, s) => .ok (true, w, (some x, s))
    | (none, s) => do
        let (o, w, s) ← fetch w s
        return (o.isSome, w, (o, s))
  next := fun w s =>
    match s with
    | (some x, s) => .ok (x, w, (none, s))
    | (none, s) => do
        let (o, w, s) ← fetch w s
        match o with
        | none => .error empty
        | some x => return (x, w, (none, s))

variable {view : W → V} {k : Contract V S α}

theorem operator_meets {empty : ε} {fetch : W → S → Except ε (Option α × W × S)}
    (h : Fetches fetch view k) : (operator empty fetch).Meets view k.cached where
  hasNext := by
    rintro w ⟨o, s⟩ b w' s' hs hrun
    cases o with
    | some x =>
      cases hrun
      exact ⟨rfl, .refl hs, rfl, by simp [Contract.cached]⟩
    | none =>
      obtain ⟨⟨o, w₁, s₁⟩, hf, hret⟩ := except_bind_ok.mp hrun
      cases hret
      obtain ⟨hview, hlater, hrest, hnone, hpast⟩ := h.fetch hs.1 hf
      refine ⟨hview, ⟨⟨hlater.inv, hpast⟩, hlater.past⟩, ?_, ?_⟩
      · exact hrest.symm
      · cases o with
        | none => simp [Contract.cached, hnone rfl]
        | some x => simp [Contract.cached, hrest]
  next := by
    rintro w ⟨o, s⟩ x w' s' hs hrun
    cases o with
    | some y =>
      cases hrun
      exact ⟨rfl, ⟨⟨hs.1, by simp⟩, fun _ h => h⟩, rfl, hs.2 _ rfl⟩
    | none =>
      obtain ⟨⟨o, w₁, s₁⟩, hf, hret⟩ := except_bind_ok.mp hrun
      obtain ⟨hview, hlater, hrest, -, hpast⟩ := h.fetch hs.1 hf
      cases o with
      | none => cases hret
      | some y =>
        cases hret
        exact ⟨hview, ⟨⟨hlater.inv, by simp⟩, hlater.past⟩, hrest, hpast _ rfl⟩

/-! ## Selection and projection -/

/-- The next element that passes, of an iterator with fuel for `n` elements. -/
def Cursor.find (stuck : ε) (c : Cursor ε W S α) (p : α → Bool) :
    Nat → W → S → Except ε (Option α × W × S)
  | 0, _, _ => .error stuck
  | n + 1, w, s => do
      let (b, w, s) ← c.hasNext w s
      if b then
        let (x, w, s) ← c.next w s
        if p x then return (some x, w, s) else c.find stuck p n w s
      else return (none, w, s)

variable {c : Cursor ε W S α}

theorem Cursor.find_fetches {stuck : ε} (h : c.Meets view k) (p : α → Bool) (n : Nat) :
    Fetches (c.find stuck p n) view (k.filter p) where
  fetch := by
    induction n with
    | zero => exact fun _ hrun => by cases hrun
    | succ n ih =>
      intro w s o w' s' hs hrun
      obtain ⟨⟨b, w₁, s₁⟩, hhas, hrun⟩ := except_bind_ok.mp hrun
      obtain ⟨hview₁, hlater₁, hrest₁, hb⟩ := h.hasNext hs hhas
      cases b with
      | false =>
        cases hrun
        have hnil : k.rest (view w) s = [] := by simpa using hb
        refine ⟨hview₁, ⟨hlater₁.inv, hlater₁.past⟩, ?_, fun _ => ?_, by simp⟩
        · simp only [Contract.filter, hrest₁, Option.toList_none, List.nil_append]
        · simp only [Contract.filter, hnil, List.filter_nil]
      | true =>
        obtain ⟨⟨x, w₂, s₂⟩, hnext, hrun⟩ := except_bind_ok.mp hrun
        obtain ⟨hview₂, hlater₂, hrest₂, hpast₂⟩ := h.next hlater₁.inv hnext
        rw [hview₁] at hview₂ hrest₂
        rw [hrest₁] at hrest₂
        have hlater := hlater₁.trans hlater₂
        cases hp : p x with
        | true =>
          simp only [hp, if_true] at hrun
          cases hrun
          refine ⟨hview₂, ⟨hlater.inv, hlater.past⟩, ?_, by simp, ?_⟩
          · simp only [Contract.filter, hrest₂, List.filter_cons_of_pos hp]
            rfl
          · rintro _ ⟨⟩
            exact hpast₂
        | false =>
          simp only [hp, Bool.false_eq_true, if_false] at hrun
          obtain ⟨hview₃, hlater₃, hrest₃, hnone₃, hpast₃⟩ := ih hlater₂.inv hrun
          rw [hview₂] at hview₃ hrest₃ hnone₃
          have hskip : (k.filter p).rest (view w) s = (k.filter p).rest (view w) s₂ := by
            simp only [Contract.filter, hrest₂, List.filter_cons_of_neg (by simpa using hp)]
          refine ⟨hview₃, ?_, hskip.trans hrest₃, fun ho => hskip.trans (hnone₃ ho), hpast₃⟩
          exact Contract.Later.trans ⟨hlater.inv, hlater.past⟩ hlater₃

/-- The next element, changed. -/
def Cursor.fetchMap (c : Cursor ε W S α) (f : α → β) (w : W) (s : S) :
    Except ε (Option β × W × S) := do
  let (b, w, s) ← c.hasNext w s
  if b then
    let (x, w, s) ← c.next w s
    return (some (f x), w, s)
  else return (none, w, s)

theorem Cursor.fetchMap_fetches (h : c.Meets view k) (f : α → β) :
    Fetches (c.fetchMap f) view (k.map f) where
  fetch := by
    intro w s o w' s' hs hrun
    obtain ⟨⟨b, w₁, s₁⟩, hhas, hrun⟩ := except_bind_ok.mp hrun
    obtain ⟨hview₁, hlater₁, hrest₁, hb⟩ := h.hasNext hs hhas
    have hmap : ∀ {s s'}, k.Later s s' → (k.map f).Later s s' := fun hl =>
      ⟨hl.inv, fun _ ⟨x, hx, hfx⟩ => ⟨x, hl.past x hx, hfx⟩⟩
    cases b with
    | false =>
      cases hrun
      have hnil : k.rest (view w) s = [] := by simpa using hb
      refine ⟨hview₁, hmap hlater₁, ?_, fun _ => ?_, by simp⟩
      · simp only [Contract.map, hrest₁, Option.toList_none, List.nil_append]
      · simp only [Contract.map, hnil, List.map_nil]
    | true =>
      obtain ⟨⟨x, w₂, s₂⟩, hnext, hrun⟩ := except_bind_ok.mp hrun
      obtain ⟨hview₂, hlater₂, hrest₂, hpast₂⟩ := h.next hlater₁.inv hnext
      rw [hview₁] at hview₂ hrest₂
      rw [hrest₁] at hrest₂
      cases hrun
      refine ⟨hview₂, hmap (hlater₁.trans hlater₂), ?_, by simp, ?_⟩
      · simp only [Contract.map, hrest₂, List.map_cons]
        rfl
      · rintro _ ⟨⟩
        exact ⟨x, hpast₂, rfl⟩

/-! ## All elements -/

/-- All that is left, with something done about each element. -/
def Cursor.each (stuck : ε) (c : Cursor ε W S α) (act : α → W → Except ε W) :
    Nat → W → S → Except ε (List α × W × S)
  | 0, _, _ => .error stuck
  | n + 1, w, s => do
      let (b, w, s) ← c.hasNext w s
      if b then
        let (x, w, s) ← c.next w s
        let w ← act x w
        let (xs, w, s) ← c.each stuck act n w s
        return (x :: xs, w, s)
      else return ([], w, s)

/-- What is done about an element that was delivered does not matter to the
elements that are left. -/
theorem Cursor.each_ok {stuck : ε} {c : Cursor ε W S α} {view : W → V} {k : Contract V S α}
    (h : c.Meets view k) {act : α → W → Except ε W} {effect : V → α → V}
    (heffect : ∀ {x w w'}, act x w = .ok w' → view w' = effect (view w) x)
    (hrest : ∀ {s x v}, k.Inv s → k.Past s x → k.rest (effect v x) s = k.rest v s) :
    ∀ {n w s xs w' s'}, k.Inv s → c.each stuck act n w s = .ok (xs, w', s') →
      xs = k.rest (view w) s ∧ view w' = xs.foldl effect (view w) := by
  intro n
  induction n with
  | zero => exact fun _ hrun => by cases hrun
  | succ n ih =>
    intro w s xs w' s' hs hrun
    obtain ⟨⟨b, w₁, s₁⟩, hhas, hrun⟩ := except_bind_ok.mp hrun
    obtain ⟨hview₁, hlater₁, hrest₁, hb⟩ := h.hasNext hs hhas
    cases b with
    | false =>
      cases hrun
      exact ⟨(by simpa using hb : k.rest (view w) s = []).symm, hview₁⟩
    | true =>
      obtain ⟨⟨x, w₂, s₂⟩, hnext, hrun⟩ := except_bind_ok.mp hrun
      obtain ⟨hview₂, hlater₂, hrest₂, hpast₂⟩ := h.next hlater₁.inv hnext
      obtain ⟨w₃, hact, hrun⟩ := except_bind_ok.mp hrun
      obtain ⟨⟨ys, w₄, s₄⟩, heach, hrun⟩ := except_bind_ok.mp hrun
      cases hrun
      have hview₃ : view w₃ = effect (view w) x := by rw [heffect hact, hview₂, hview₁]
      obtain ⟨hys, hview₄⟩ := ih hlater₂.inv heach
      rw [hview₃] at hys hview₄
      rw [hrest hlater₂.inv hpast₂] at hys
      rw [hview₁, hrest₁] at hrest₂
      exact ⟨by rw [hrest₂, hys], hview₄⟩

end Meets

end Corestack.Lib
