import Corestack.Simpledb.Isolation

/-!
# Committed changes are in the page files

The file of a page has every change that has been committed to the page, in
order, and besides at most changes of the transaction that has the page now.
With what a transaction reads (`Isolation`) this is all that a client can
see of atomicity, as long as nobody flushes the pages of a transaction that
has been rolled back and not yet discarded them.
-/

namespace Corestack.Simpledb

open Lib

variable {T P D : Type} [DecidableEq T] [DecidableEq P] [Inhabited D]

namespace Database

variable {s s' : Database T P D} {cs : List (Change T P D)} {t u : T} {p : P} {init : P → D}
  {e : Event T P D}

/-- Who can have a change in a file: those that have committed and those
under way. -/
def present (s : Database T P D) (u : T) : Bool := (s.stage u).durable || (s.stage u).live

/-- The file of the page has every committed change of it, and none of an
aborted transaction. -/
def Filed (init : P → D) (cs : List (Change T P D)) (s : Database T P D) (p : P) : Prop :=
  ∃ cs', (changesAt (fun u => (s.stage u).durable) p cs).Sublist cs' ∧
    cs'.Sublist (changesAt s.present p cs) ∧ s.content p = effects (fun _ => true) init cs' p

omit [DecidableEq T] in
theorem filed_of_settled (h : s.content p = settled init cs s p) : Filed init cs s p := by
  refine ⟨_, List.Sublist.refl _, changesAt_sublist (fun u hu => by simp [present, hu]) p cs, ?_⟩
  rw [h, effects_changesAt]
  rfl

theorem filed_of_seen (h : s.content p = seen init cs s u p) (hu : (s.stage u).live = true) :
    Filed init cs s p := by
  refine ⟨changesAt (fun w => (s.stage w).durable || w = u) p cs,
    changesAt_sublist (fun w hw => by simp [hw]) p cs, changesAt_sublist (fun w hw => ?_) p cs, ?_⟩
  · simp only [Bool.or_eq_true, decide_eq_true_eq] at hw
    rcases hw with hw | rfl
    · simp [present, hw]
    · simp [present, hu]
  · rw [h, effects_changesAt]
    rfl

theorem Moves.over (hmoves : Moves s e s') (hg : s.Guarded) (hlive : (s.stage u).live = false)
    (hstarted : s.stage u ≠ .unstarted) :
    (s'.stage u).durable = (s.stage u).durable ∧ (s'.stage u).live = false := by
  -- the thread at work is another, or the one that logs its commit
  have hother : ∀ {t : T} {st : Stage T P D}, (s.stage t).live = true →
      ((Function.update s.stage t st) u).durable = (s.stage u).durable ∧
        ((Function.update s.stage t st) u).live = false := by
    intro t st ht
    have hut : u ≠ t := by
      rintro rfl
      rw [hlive] at ht
      cases ht
    rw [Function.update_of_ne hut]
    exact ⟨rfl, hlive⟩
  cases hmoves
  case start t hst =>
    have hut : u ≠ t := by
      rintro rfl
      exact hstarted hst
    simp [setStage, hut, hlive]
  case getPage hst =>
    rcases hst with hst | ⟨_, _, _, _, hst⟩
    all_goals exact hother (by rw [hst]; rfl)
  case acquire hst | interrupt hst | fetch hst _ _ | read hst _ _ _ | missing hst _ _ |
      modify hst | markDirty hst _ | leave hst | unsafeReleasePage hst | complete hst _ |
      discard hst _ => exact hother (by rw [hst]; rfl)
  case fail hst =>
    rcases hst with ⟨_, _, _, hst⟩ | ⟨_, _, _, _, hst⟩
    all_goals exact hother (by rw [hst]; rfl)
  case release t hm _ => exact hother (by rw [hg.committing t none hm]; rfl)
  case logCommit t hst =>
    by_cases hut : u = t
    · subst hut
      simp [setStage, hst, Stage.durable, Stage.live]
    · simp [setStage, hut, hlive]
  case logAbort hst _ =>
    rcases hst with hst | hst
    all_goals exact hother (by rw [hst]; rfl)
  case appendAbort t hm _ => exact hother (by rw [(hg.rollingBack t).mpr hm]; rfl)
  all_goals exact ⟨rfl, hlive⟩

theorem Moves.content (hmoves : Moves s e s') (p : P) :
    s'.content p = s.content p ∨
      (∃ tid frame, s'.monitor = .flush tid none ∧ s'.pages p = some frame ∧
        s'.content p = frame.data) ∨
      ∃ t image, s'.monitor = .rollback t ∧ s'.log.beforeImages t p = some image ∧
        s'.content p = image := by
  cases hmoves
  case createPage t q hst hf =>
    by_cases hpq : p = q
    · subst hpq
      simp [Database.content, hf]
    · simp [Database.content, hpq]
  case writePage tid q frame hm hq =>
    by_cases hpq : p = q
    · subst hpq
      exact Or.inr (Or.inl ⟨tid, { frame with dirty := none }, rfl, by simp,
        by simp [Database.content]⟩)
    · exact Or.inl (by simp [Database.content, hpq])
  case restorePage t q image hm himage =>
    by_cases hpq : p = q
    · subst hpq
      exact Or.inr (Or.inr ⟨t, image, hm, himage, by simp [Database.content]⟩)
    · exact Or.inl (by simp [Database.content, hpq])
  all_goals exact Or.inl rfl

theorem Moves.of_change {c : Change T P D} (hmoves : Moves s e s') (hc : e.change = some c) :
    s'.log = s.log ∧ (s'.stage c.author).durable = false := by
  cases hmoves <;> cases hc
  exact ⟨rfl, by simp [Stage.durable]⟩

/-- While a transaction has the page, the others that ever changed it are
over. -/
theorem Filed.keeps (h : Filed init cs s p) (hs : Sound init cs s) (hmoves : Moves s e s')
    (hcontent : s'.content p = s.content p) (hu : (s'.stage u).live = true)
    (htouched : Touched cs u p) : Filed init (cs ++ e.change.toList) s' p := by
  have hstarted : ∀ w, Touched cs w p → s.stage w ≠ .unstarted := fun w hw hst =>
    hs.locked.unstarted w p hst hw
  have hlive : (s.stage u).live = true := by
    cases hl : (s.stage u).live with
    | true => rfl
    | false =>
      rw [(hmoves.over hs.guarded hl (hstarted u htouched)).2] at hu
      cases hu
  have hdurable : ∀ {st : Stage T P D}, st.live = true → st.durable = false := by
    intro st hst
    cases st <;> first | rfl | cases hst
  have hsame : ∀ w, Touched cs w p → (s'.stage w).durable = (s.stage w).durable ∧
      s'.present w = s.present w := by
    intro w hw
    by_cases hwu : w = u
    · subst hwu
      simp [present, hdurable hu, hdurable hlive, hu, hlive]
    · have hl : (s.stage w).live = false := by
        cases hl : (s.stage w).live with
        | false => rfl
        | true => exact absurd (hs.locked.owner_unique htouched hlive hw hl) hwu
      obtain ⟨h₁, h₂⟩ := hmoves.over hs.guarded hl (hstarted w hw)
      exact ⟨h₁, by simp [present, h₁, h₂, hl]⟩
  -- a change that comes now is the transaction's own
  have hnew : changesAt (fun w => (s'.stage w).durable) p e.change.toList = [] := by
    refine List.filter_eq_nil_iff.mpr fun c hc hp => ?_
    simp only [Bool.and_eq_true] at hp
    rw [(hmoves.of_change (Option.mem_toList.mp hc)).2] at hp
    cases hp.2
  obtain ⟨cs', hall, honly, heffects⟩ := h
  refine ⟨cs', ?_, ?_, hcontent.trans heffects⟩
  · rw [changesAt_append, hnew, List.append_nil, changesAt_congr fun w hw => (hsame w hw).1]
    exact hall
  · rw [changesAt_append, changesAt_congr fun w hw => (hsame w hw).2]
    exact honly.trans (List.sublist_append_left _ _)

theorem Filed.moves (h : Filed init cs s p) (hs : Sound init cs s)
    (hs' : Sound init (cs ++ e.change.toList) s') (hmoves : Moves s e s') :
    Filed init (cs ++ e.change.toList) s' p := by
  by_cases hfree : Untouched (cs ++ e.change.toList) s' p
  · exact filed_of_settled ((hs'.kept p).file hfree)
  simp only [Untouched, not_forall, not_not] at hfree
  obtain ⟨u, hu, ht⟩ := hfree
  have howned := (hs'.kept p).owned u hu ht
  by_cases hst : s'.stage u = .aborting
  · exact filed_of_settled (howned.undone hst)
  have hundo := howned.undo hst
  cases himage : s'.log.images u p with
  | none =>
    rw [himage] at hundo
    exact filed_of_settled hundo
  | some d =>
    rw [himage, Option.getD_some] at hundo
    rcases hmoves.content p with hsame | ⟨tid, frame, hm, hp, hwritten⟩ | ⟨t, image, hm, hi, hback⟩
    · refine h.keeps hs hmoves hsame hu ?_
      cases hc : e.change with
      | none => simpa [hc] using ht
      | some c =>
        rw [(hmoves.of_change hc).1] at himage
        exact hs.logged.sound.touched u p (by rw [himage]; rfl)
    · refine filed_of_seen (u := u) ?_ hu
      rw [hwritten]
      exact (howned.pooled (hs'.guarded.not_undoing hm hst) frame hp).1
    · -- the page that is put back is one of the transaction that is rolled back
      have hroll : s'.stage t = .rollingBack := (hs'.guarded.rollingBack t).mpr hm
      rw [hs'.logged.sound.beforeImages (hs'.logged.listed t (by rw [hroll]; rfl))] at hi
      have htt := hs'.logged.sound.touched t p (by rw [hi]; rfl)
      obtain rfl := hs'.locked.owner_unique htt (by rw [hroll]; rfl) ht hu
      rw [himage] at hi
      cases hi
      exact filed_of_settled (hback.trans hundo)

theorem Run.filed {files : P → Option D} {es : List (Event T P D)}
    (hrun : Run Quiet (opened files) es s) (p : P) :
    Filed (fun p => (files p).getD default) (changes es) s p := by
  induction hrun with
  | nil => exact filed_of_settled rfl
  | snoc hrun he hq ih =>
    have hsound := hrun.sound
    have hmoves := moves_of_allowed he
    rw [changes_snoc]
    exact ih.moves hsound (hsound.moves hq hmoves) hmoves

/-- Whatever a thread has of a page is what was committed to it and the
changes of its own transaction. After an abort the pages read as without the
transaction, and after a commit its changes are in the page files. -/
theorem abort_atomic_reads_clean {files : P → Option D} {es : List (Event T P D)}
    (hrun : Run Quiet (opened files) es s) :
    let init := fun p => (files p).getD default
    (∀ t p frame, (s.stage t).hand = some (p, frame) →
      frame.data = seen init (changes es) s t p) ∧
    (∀ t, s.stage t = .aborted → s.Shows init (without t (changes es))) ∧
    ∀ t, (s.stage t).durable = true → ∀ p, ∃ cs,
      (changesAt (fun u => u = t) p (changes es)).Sublist cs ∧
        cs.Sublist (changesAt s.present p (changes es)) ∧
        s.content p = effects (fun _ => true) init cs p := by
  have hshows := hrun.sound.shows
  refine ⟨hshows.hand, fun t ht => hshows.without ht, fun t ht p => ?_⟩
  obtain ⟨cs, hall, honly, hcontent⟩ := hrun.filed p
  refine ⟨cs, (changesAt_sublist (fun u hu => ?_) p _).trans hall, honly, hcontent⟩
  rw [of_decide_eq_true hu]
  exact ht

/-! A page that is flushed after the rollback of its transaction. -/

/-- Transaction 0 changes the page and gets as far with its abort as the
rollback. -/
def abortBegun : List (Event Nat Nat Nat) :=
  [.start 0, .getPage 0 0 true, .acquire 0, .fetch 0, .modify 0 0 (· + 1), .markDirty 0,
    .logAbort 0, .appendAbort 0]

def flushOne : List (Event Nat Nat Nat) := [.flushAllPages, .logUpdate 0, .writePage]

def after (es : List (Event Nat Nat Nat)) : Database Nat Nat Nat :=
  es.foldl step (opened onePageFile)

theorem run_abortBegun {Q : Database Nat Nat Nat → Event Nat Nat Nat → Prop}
    (hQ : ∀ s, ∀ e ∈ abortBegun, Q s e) :
    Run Q (opened onePageFile) abortBegun (after abortBegun) := by
  simp only [abortBegun, List.mem_cons, List.not_mem_nil, or_false, forall_eq_or_imp,
    forall_eq] at hQ
  have h₁ := (@Run.nil _ _ _ _ _ _ Q (opened onePageFile)).snoc (e := .start 0) rfl (hQ _).1
  have h₂ := h₁.snoc (e := .getPage 0 0 true) rfl (hQ _).2.1
  have h₃ := h₂.snoc (e := .acquire 0) rfl (hQ _).2.2.1
  have h₄ := h₃.snoc (e := .fetch 0) ⟨rfl, rfl⟩ (hQ _).2.2.2.1
  have h₅ := h₄.snoc (e := .modify 0 0 (· + 1)) ⟨rfl, rfl⟩ (hQ _).2.2.2.2.1
  have h₆ := h₅.snoc (e := .markDirty 0) ⟨rfl, rfl⟩ (hQ _).2.2.2.2.2.1
  have h₇ := h₆.snoc (e := .logAbort 0) ⟨rfl, rfl⟩ (hQ _).2.2.2.2.2.2.1
  exact h₇.snoc (e := .appendAbort 0) ⟨rfl, fun p hp => by cases hp⟩ (hQ _).2.2.2.2.2.2.2

theorem abort_atomic_reads_clean_once : (after (abortBegun ++ [.discard 0])).stage 0 = .aborted ∧
    (after (abortBegun ++ [.discard 0])).Shows (fun p => (onePageFile p).getD default)
      (without 0 (changes (abortBegun ++ [.discard 0]))) := by
  have hquiet : ∀ s : Database Nat Nat Nat, ∀ e ∈ abortBegun, s.Quiet e := by
    simp [abortBegun, Quiet, FlushesNoAborted]
  have hrun := (run_abortBegun hquiet).snoc (e := .discard 0) ⟨rfl, rfl⟩ ⟨by simp, trivial⟩
  exact ⟨rfl, (abort_atomic_reads_clean hrun).2.1 0 rfl⟩

/-- `flushAllPages` comes in before the pages are discarded: the next
transaction reads what was never committed. -/
theorem flushed_abort_is_read : ∃ es s frame,
    Run (fun _ e => e ≠ .logCheckpoint) (opened onePageFile : Database Nat Nat Nat) es s ∧
      s.stage 0 = .aborted ∧ (s.stage 1).hand = some (0, frame) ∧
      frame.data ≠ seen (fun p => (onePageFile p).getD default) (changes es) s 1 0 := by
  have h₀ := run_abortBegun (Q := fun _ e => e ≠ .logCheckpoint) (by simp [abortBegun])
  have h₁ := h₀.snoc (e := .flushAllPages) rfl (by simp)
  have h₂ := h₁.snoc (e := .logUpdate 0) rfl (by simp)
  have h₃ := h₂.snoc (e := .writePage) rfl (by simp)
  have hclean : ∀ p, (after (abortBegun ++ flushOne)).pages p =
      if p = 0 then some ⟨1, none, 0⟩ else none := by
    intro p
    cases p with
    | zero => rfl
    | succ p => rfl
  have h₄ := h₃.snoc (e := .flushed) ⟨rfl, fun p => by
    show ((after (abortBegun ++ flushOne)).pages p).all _ = true
    rw [hclean p]
    split <;> rfl⟩ (by simp)
  have h₅ := h₄.snoc (e := .discard 0) ⟨rfl, rfl⟩ (by simp)
  have h₆ := h₅.snoc (e := .start 1) rfl (by simp)
  have h₇ := h₆.snoc (e := .getPage 1 0 false) rfl (by simp)
  have h₈ := h₇.snoc (e := .acquire 1) rfl (by simp)
  have h₉ := h₈.snoc (e := .fetch 1) ⟨rfl, rfl⟩ (by simp)
  exact ⟨_, _, _, h₉, rfl, rfl, by decide⟩

end Database

end Corestack.Simpledb
