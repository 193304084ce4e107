import Mathlib.Algebra.Order.BigOperators.Group.List
import Mathlib.Algebra.Order.Ring.Nat
import Mathlib.Data.Finset.Card
import Mathlib.Logic.Relation

/-!
# Searching a graph for a cycle

Breadth-first search with a frontier and a set of visited nodes, over any
graph given by its lists of successors, and two facts about cycles in a
graph that changes: edges added at one node close a cycle only through that
node, and edges into a node without successors close none.
-/

namespace Corestack.Lib

open List Relation

variable {α : Type}

/-- There is an edge from `a` to `b`. -/
def Points (edges : α → List α) (a b : α) : Prop := b ∈ edges a

/-! ## The search -/

section Search

variable [DecidableEq α] (edges : α → List α) (goal : α)

/-- Take a node from the frontier until `goal` turns up or none is left.
The successors of a node join the frontier the first time it is taken. -/
def search : Nat → List α → List α → Bool
  | 0, _, _ => false
  | _ + 1, _, [] => false
  | fuel + 1, visited, t :: frontier =>
    if t = goal then true
    else if t ∈ visited then search fuel visited frontier
    else search fuel (t :: visited) (frontier ++ edges t)

/-- The edges that can still join the frontier, when `dom` holds every node
that has successors. -/
def pendingEdges (dom visited : List α) : Nat :=
  (dom.map fun t => if t ∈ visited then 0 else (edges t).length).sum

variable {edges goal}

theorem pendingEdges_cons_le (dom visited : List α) (t : α) :
    pendingEdges edges dom (t :: visited) ≤ pendingEdges edges dom visited := by
  refine sum_le_sum fun a _ => ?_
  by_cases ha : a ∈ visited
  · simp [ha]
  · split
    · exact Nat.zero_le _
    · exact le_refl _

variable {dom visited : List α} {t : α}

theorem length_add_pendingEdges (ht : t ∉ visited) (hdom : t ∈ dom ∨ edges t = []) :
    (edges t).length + pendingEdges edges dom (t :: visited) ≤ pendingEdges edges dom visited := by
  rcases hdom with hdom | hnil
  · obtain ⟨as, bs, rfl⟩ := append_of_mem hdom
    have has := @pendingEdges_cons_le _ _ edges as visited t
    have hbs := @pendingEdges_cons_le _ _ edges bs visited t
    simp only [pendingEdges, map_append, map_cons, sum_append, sum_cons, ht,
      mem_cons_self, if_true, if_false] at has hbs ⊢
    omega
  · rw [hnil, length_nil, Nat.zero_add]
    exact pendingEdges_cons_le dom visited t

variable {fuel : Nat} {frontier : List α}

theorem search_sound (h : search edges goal fuel visited frontier = true) :
    ∃ t ∈ frontier, ReflTransGen (Points edges) t goal := by
  induction fuel generalizing visited frontier with
  | zero => cases h
  | succ fuel ih =>
    cases frontier with
    | nil => cases h
    | cons t frontier =>
      unfold search at h
      split at h
      · rename_i heq
        exact ⟨t, mem_cons_self, heq ▸ .refl⟩
      split at h
      · obtain ⟨u, hu, hreach⟩ := ih h
        exact ⟨u, mem_cons_of_mem t hu, hreach⟩
      · obtain ⟨u, hu, hreach⟩ := ih h
        rcases mem_append.mp hu with hu | hu
        · exact ⟨u, mem_cons_of_mem t hu, hreach⟩
        · exact ⟨t, mem_cons_self, .head hu hreach⟩

omit [DecidableEq α] in
theorem not_reach_of_closed {seen : List α} (hclosed : ∀ v ∈ seen, v ≠ goal ∧ edges v ⊆ seen)
    (ht : t ∈ seen) : ¬ ReflTransGen (Points edges) t goal := by
  intro hreach
  have hin : ∀ {b}, ReflTransGen (Points edges) t b → b ∈ seen := by
    intro b hb
    induction hb with
    | refl => exact ht
    | tail _ hbc ih => exact (hclosed _ ih).2 hbc
  exact (hclosed goal (hin hreach)).1 rfl

/-- A search that ends without success has seen a set of nodes that no edge
leaves. -/
theorem search_complete (hdom : ∀ t, t ∈ dom ∨ edges t = [])
    (hfuel : frontier.length + pendingEdges edges dom visited ≤ fuel)
    (hclosed : ∀ v ∈ visited, v ≠ goal ∧ edges v ⊆ visited ++ frontier)
    (h : search edges goal fuel visited frontier = false) :
    ∀ t ∈ visited ++ frontier, ¬ ReflTransGen (Points edges) t goal := by
  induction fuel generalizing visited frontier with
  | zero =>
    obtain rfl : frontier = [] := eq_nil_of_length_eq_zero (by omega)
    rw [append_nil] at hclosed ⊢
    exact fun t ht => not_reach_of_closed hclosed ht
  | succ fuel ih =>
    cases frontier with
    | nil =>
      rw [append_nil] at hclosed ⊢
      exact fun t ht => not_reach_of_closed hclosed ht
    | cons t frontier =>
      unfold search at h
      split at h
      · cases h
      rename_i hne
      split at h
      · rename_i hmem
        -- nothing is lost with a node that was visited before
        have hsub : visited ++ t :: frontier ⊆ visited ++ frontier := by
          intro u hu
          simp only [mem_append, mem_cons] at hu ⊢
          rcases hu with hu | rfl | hu
          · exact Or.inl hu
          · exact Or.inl hmem
          · exact Or.inr hu
        refine fun u hu => ih ?_ (fun v hv => ?_) h u (hsub hu)
        · simp only [length_cons] at hfuel
          omega
        · exact ⟨(hclosed v hv).1, fun w hw => hsub ((hclosed v hv).2 hw)⟩
      · rename_i hmem
        have hsub : visited ++ t :: frontier ⊆ t :: visited ++ (frontier ++ edges t) := by
          intro u hu
          simp only [mem_append, mem_cons] at hu ⊢
          rcases hu with hu | hu | hu
          · exact Or.inl (Or.inr hu)
          · exact Or.inl (Or.inl hu)
          · exact Or.inr (Or.inl hu)
        refine fun u hu => ih ?_ (fun v hv => ?_) h u (hsub hu)
        · have := length_add_pendingEdges hmem (hdom t)
          simp only [length_cons, length_append] at hfuel ⊢
          omega
        · rcases mem_cons.mp hv with rfl | hv
          · refine ⟨hne, fun w hw => ?_⟩
            simp [hw]
          · exact ⟨(hclosed v hv).1, fun w hw => hsub ((hclosed v hv).2 hw)⟩

/-- With enough fuel, a search from the successors of a node finds it again
exactly when it lies on a cycle. -/
theorem search_cycle_iff (hdom : ∀ t, t ∈ dom ∨ edges t = [])
    (hfuel : (edges goal).length + pendingEdges edges dom [] ≤ fuel) :
    search edges goal fuel [] (edges goal) = true ↔ TransGen (Points edges) goal goal := by
  constructor
  · intro h
    obtain ⟨t, ht, hreach⟩ := search_sound h
    exact TransGen.head' ht hreach
  · intro hcycle
    obtain ⟨t, ht, hreach⟩ := TransGen.head'_iff.mp hcycle
    by_contra h
    rw [Bool.not_eq_true] at h
    exact search_complete hdom hfuel (fun v hv => by cases hv) h t (mem_append_right _ ht) hreach

end Search

/-! ## Cycles in a graph that changes -/

def Acyclic (edges : α → List α) : Prop := ∀ a, ¬ TransGen (Points edges) a a

section Change

variable {edges edges' : α → List α} {t : α}

theorem Acyclic.mono (h : Acyclic edges) (hsub : ∀ a, edges' a ⊆ edges a) : Acyclic edges' :=
  fun a hcycle => h a (TransGen.mono (fun b _ hbc => hsub b hbc) a a hcycle)

/-- A path in the new graph stays in the old one until it takes a new edge
at `t`. -/
theorem transGen_changed_at (hsame : ∀ a, a ≠ t → edges' a ⊆ edges a) {a b : α}
    (h : TransGen (Points edges') a b) :
    TransGen (Points edges) a b ∨
      ReflTransGen (Points edges') a t ∧ TransGen (Points edges') t b := by
  induction h with
  | @single b hab =>
    by_cases ha : a = t
    · subst ha
      exact Or.inr ⟨.refl, .single hab⟩
    · exact Or.inl (.single (hsame a ha hab))
  | @tail b c hab hbc ih =>
    rcases ih with hold | ⟨hat, htb⟩
    · by_cases hb : b = t
      · subst hb
        exact Or.inr ⟨hab.to_reflTransGen, .single hbc⟩
      · exact Or.inl (hold.tail (hsame b hb hbc))
    · exact Or.inr ⟨hat, htb.tail hbc⟩

theorem Acyclic.changed_at (h : Acyclic edges) (hsame : ∀ a, a ≠ t → edges' a ⊆ edges a)
    (hnew : ¬ TransGen (Points edges') t t) : Acyclic edges' := by
  intro a hcycle
  rcases transGen_changed_at hsame hcycle with hold | ⟨hat, hta⟩
  · exact h a hold
  · exact hnew (hta.trans_left hat)

theorem Acyclic.into_sink (h : Acyclic edges) (hsink : edges' t = [])
    (hsame : ∀ a, ∀ b ∈ edges' a, b = t ∨ b ∈ edges a) : Acyclic edges' := by
  have hnone : ∀ {b}, ¬ TransGen (Points edges') t b := by
    intro b htb
    obtain ⟨c, htc, -⟩ := TransGen.head'_iff.mp htb
    rw [Points, hsink] at htc
    cases htc
  -- a path that does not end at the sink takes only old edges
  have hold : ∀ {a b}, TransGen (Points edges') a b → b ≠ t → TransGen (Points edges) a b := by
    intro a b hab
    induction hab with
    | single hab => exact fun hb => .single ((hsame _ _ hab).resolve_left hb)
    | tail hab hbc ih =>
      intro hc
      refine (ih ?_).tail ((hsame _ _ hbc).resolve_left hc)
      rintro rfl
      exact hnone (.single hbc)
  intro a hcycle
  by_cases ha : a = t
  · subst ha
    exact hnone hcycle
  · exact h a (hold hcycle ha)

/-- In a graph without cycles in which only finitely many nodes have
successors, every walk ends at a node without successors. -/
theorem Acyclic.reaches_sink (h : Acyclic edges) {dom : List α}
    (hdom : ∀ a, a ∈ dom ∨ edges a = []) (a : α) :
    ∃ b, ReflTransGen (Points edges) a b ∧ edges b = [] := by
  classical
  -- induct on how many nodes of `dom` lie ahead
  generalize hn : (dom.toFinset.filter fun b => TransGen (Points edges) a b).card = n
  induction n using Nat.strong_induction_on generalizing a with
  | _ n ih =>
    by_cases hnil : edges a = []
    · exact ⟨a, .refl, hnil⟩
    obtain ⟨b, hab⟩ := exists_mem_of_ne_nil _ hnil
    by_cases hbnil : edges b = []
    · exact ⟨b, .single hab, hbnil⟩
    have hb : b ∈ dom := (hdom b).resolve_right hbnil
    have hlt : (dom.toFinset.filter fun c => TransGen (Points edges) b c).card < n := by
      rw [← hn]
      refine Finset.card_lt_card (Finset.ssubset_iff_of_subset ?_ |>.mpr ⟨b, ?_, ?_⟩)
      · intro c hc
        simp only [Finset.mem_filter] at hc ⊢
        exact ⟨hc.1, TransGen.head hab hc.2⟩
      · simpa [hb] using TransGen.single hab
      · simpa [hb] using h b
    obtain ⟨c, hbc, hc⟩ := ih _ hlt b rfl
    exact ⟨c, .head hab hbc, hc⟩

end Change

end Corestack.Lib
