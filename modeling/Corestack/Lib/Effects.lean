import Mathlib.Data.List.Basic
import Mathlib.Data.List.Induction

/-!
# Changes and whose they are

Values at places, changed one at a time by several authors. `effects S` is
what the changes of the authors in `S` amount to, made in the order they
were made in, as if the other authors had never been there.
-/

namespace Corestack.Lib

structure Change (A P D : Type) where
  author : A
  place : P
  apply : D → D

variable {A P D : Type}

/-- The author has changed the place. -/
def Touched (cs : List (Change A P D)) (a : A) (p : P) : Prop :=
  ∃ c ∈ cs, c.author = a ∧ c.place = p

theorem not_touched_nil (a : A) (p : P) : ¬ Touched ([] : List (Change A P D)) a p := by
  rintro ⟨c, hc, -⟩
  cases hc

variable {cs : List (Change A P D)} {p : P}

theorem touched_snoc {c : Change A P D} {a : A} :
    Touched (cs ++ [c]) a p ↔ Touched cs a p ∨ c.author = a ∧ c.place = p := by
  simp [Touched, or_and_right, exists_or]

variable [DecidableEq P]

def effects (S : A → Bool) (init : P → D) (cs : List (Change A P D)) (p : P) : D :=
  cs.foldl (fun d c => if c.place = p ∧ S c.author = true then c.apply d else d) (init p)

theorem effects_snoc (S : A → Bool) (init : P → D) (cs : List (Change A P D))
    (c : Change A P D) (p : P) :
    effects S init (cs ++ [c]) p =
      if c.place = p ∧ S c.author = true then c.apply (effects S init cs p)
      else effects S init cs p := by
  simp [effects, List.foldl_append]

variable {S S' : A → Bool} {init : P → D}

theorem effects_congr (h : ∀ a, Touched cs a p → S a = S' a) :
    effects S init cs p = effects S' init cs p := by
  induction cs using List.reverseRecOn with
  | nil => rfl
  | append_singleton cs c ih =>
    rw [effects_snoc, effects_snoc, ih fun a ha => h a (touched_snoc.mpr (Or.inl ha))]
    by_cases hc : c.place = p
    · rw [h c.author (touched_snoc.mpr (Or.inr ⟨rfl, hc⟩))]
    · simp [hc]

theorem effects_filter (keep : A → Bool) (h : ∀ a, S a = true → keep a = true) :
    effects S init (cs.filter fun c => keep c.author) p = effects S init cs p := by
  induction cs using List.reverseRecOn with
  | nil => rfl
  | append_singleton cs c ih =>
    rw [List.filter_append, effects_snoc, ← ih]
    by_cases hkeep : keep c.author = true
    · have hc : [c].filter (fun c => keep c.author) = [c] := by simp [hkeep]
      rw [hc, effects_snoc]
    · have hc : [c].filter (fun c => keep c.author) = [] := by simp [hkeep]
      have hS : S c.author ≠ true := fun hS => hkeep (h _ hS)
      simp [hc, hS]

def changesAt (S : A → Bool) (p : P) (cs : List (Change A P D)) : List (Change A P D) :=
  cs.filter fun c => c.place = p && S c.author

theorem effects_changesAt (S : A → Bool) (init : P → D) (cs : List (Change A P D)) (p : P) :
    effects (fun _ => true) init (changesAt S p cs) p = effects S init cs p := by
  induction cs using List.reverseRecOn with
  | nil => rfl
  | append_singleton cs c ih =>
    rw [effects_snoc, ← ih, changesAt, List.filter_append]
    by_cases hc : c.place = p ∧ S c.author = true
    · have hone : [c].filter (fun c => c.place = p && S c.author) = [c] := by simp [hc]
      rw [hone, effects_snoc, if_pos ⟨hc.1, rfl⟩, if_pos hc]
      rfl
    · have hone : [c].filter (fun c => c.place = p && S c.author) = [] := by simpa using hc
      rw [hone, List.append_nil, if_neg hc]
      rfl

theorem changesAt_append (S : A → Bool) (p : P) (cs cs' : List (Change A P D)) :
    changesAt S p (cs ++ cs') = changesAt S p cs ++ changesAt S p cs' :=
  List.filter_append ..

theorem changesAt_congr (h : ∀ a, Touched cs a p → S a = S' a) :
    changesAt S p cs = changesAt S' p cs := by
  refine List.filter_congr fun c hc => ?_
  by_cases hp : c.place = p
  · rw [h c.author ⟨c, hc, rfl, hp⟩]
  · simp [hp]

theorem changesAt_sublist (h : ∀ a, S a = true → S' a = true) (p : P) (cs : List (Change A P D)) :
    (changesAt S p cs).Sublist (changesAt S' p cs) := by
  refine List.monotone_filter_right cs fun c hc => ?_
  simp only [Bool.and_eq_true] at hc ⊢
  exact ⟨hc.1, h _ hc.2⟩

end Corestack.Lib
