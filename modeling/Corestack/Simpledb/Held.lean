import Corestack.Simpledb.Database

/-!
# Locks that transactions hold

The first thing that holds in every state of every run: a transaction that
has changed a page and has not finished has the page for itself, and a
thread that has a page in hand has the lock it asked for. The early release
of `insertTuple` does no harm, since it comes only where the transaction
had no lock on the page before the call.
-/

namespace Corestack.Simpledb

open Function Lib

namespace Stage

variable {T P D : Type} {st : Stage T P D}

def access : Stage T P D → Option (P × Bool)
  | .granted p x _ => some (p, x)
  | .page p x _ _ => some (p, x)
  | .changed p _ => some (p, true)
  | _ => none

/-- The page of a call, if the transaction had no lock on it before. -/
def newAt : Stage T P D → Option P
  | .acquiring p _ held => if held then none else some p
  | .granted p _ held => if held then none else some p
  | .page p _ held _ => if held then none else some p
  | _ => none

/-! What the tests in `Allowed` say. -/

theorem eq_unstarted (h : (st matches .unstarted) = true) : st = .unstarted := by
  cases st <;> first | rfl | cases h

theorem eq_idle (h : (st matches .idle) = true) : st = .idle := by
  cases st <;> first | rfl | cases h

theorem eq_acquiring (h : (st matches .acquiring ..) = true) :
    ∃ p x held, st = .acquiring p x held := by
  cases st <;> first | exact ⟨_, _, _, rfl⟩ | cases h

theorem eq_granted (h : (st matches .granted ..) = true) :
    ∃ p x held, st = .granted p x held := by
  cases st <;> first | exact ⟨_, _, _, rfl⟩ | cases h

theorem eq_page (h : (st matches .page ..) = true) :
    ∃ p x held frame, st = .page p x held frame := by
  cases st <;> first | exact ⟨_, _, _, _, rfl⟩ | cases h

theorem eq_page_true (h : (st matches .page _ true _ _) = true) :
    ∃ p held frame, st = .page p true held frame := by
  cases st with
  | page p x held frame =>
    cases x with
    | false => cases h
    | true => exact ⟨_, _, _, rfl⟩
  | _ => cases h

theorem eq_page_new (h : (st matches .page _ false false _) = true) :
    ∃ p frame, st = .page p false false frame := by
  cases st with
  | page p x held frame =>
    cases x with
    | true => cases h
    | false =>
      cases held with
      | true => cases h
      | false => exact ⟨_, _, rfl⟩
  | _ => cases h

theorem eq_changed (h : (st matches .changed ..) = true) : ∃ p frame, st = .changed p frame := by
  cases st <;> first | exact ⟨_, _, rfl⟩ | cases h

theorem eq_released (h : (st matches .released) = true) : st = .released := by
  cases st <;> first | rfl | cases h

theorem eq_aborting (h : (st matches .aborting) = true) : st = .aborting := by
  cases st <;> first | rfl | cases h

theorem eq_idle_or_page (h : (st matches .idle | .page ..) = true) :
    st = .idle ∨ ∃ p x held frame, st = .page p x held frame := by
  cases st <;> first | exact Or.inl rfl | exact Or.inr ⟨_, _, _, _, rfl⟩ | cases h

theorem eq_granted_or_page (h : (st matches .granted .. | .page ..) = true) :
    (∃ p x held, st = .granted p x held) ∨ ∃ p x held frame, st = .page p x held frame := by
  cases st <;> first | exact Or.inl ⟨_, _, _, rfl⟩ | exact Or.inr ⟨_, _, _, _, rfl⟩ | cases h

theorem eq_idle_or_failed (h : (st matches .idle | .failed) = true) :
    st = .idle ∨ st = .failed := by
  cases st <;> first | exact Or.inl rfl | exact Or.inr rfl | cases h

end Stage

variable {T P D : Type}

theorem changes_snoc (es : List (Event T P D)) (e : Event T P D) :
    changes (es ++ [e]) = changes es ++ e.change.toList := by
  cases h : e.change <;> simp [changes, h]

namespace Database

variable [DecidableEq T] {s s' : Database T P D} {t u : T} {p q : P}
  {cs : List (Change T P D)} {st : Stage T P D}

/-! ## What a step does -/

section Moves

variable [DecidableEq P] [Inhabited D]

/-- The steps again, each with what was so before it. -/
inductive Moves (s : Database T P D) : Event T P D → Database T P D → Prop
  | start {t : T} (hst : s.stage t = .unstarted) :
      Moves s (.start t) { s.setStage t .idle with log := s.log.logXactionBegin t }
  | getPage {t : T} {p : P} {x : Bool}
      (hst : s.stage t = .idle ∨ ∃ q y held frame, s.stage t = .page q y held frame) :
      Moves s (.getPage t p x)
        (s.setStage t (.acquiring p x (s.threads.manager.holdsLock t p)))
  | acquire {t : T} {p : P} {x held : Bool} (hst : s.stage t = .acquiring p x held) :
      Moves s (.acquire t)
        { s with
          threads := s.threads.step (.round t p x)
          stage := update s.stage t
            (.afterRound p x held (s.threads.manager.acquireRound t p x).1) }
  | interrupt {t : T} {p : P} {x held : Bool} (hst : s.stage t = .acquiring p x held) :
      Moves s (.interrupt t)
        { s.setStage t .failed with threads := s.threads.step (.interrupt t) }
  | fetch {t : T} {p : P} {x held : Bool} {frame : Frame T D}
      (hst : s.stage t = .granted p x held) (hfree : s.monitor = .free)
      (hp : s.pages p = some frame) :
      Moves s (.fetch t) (s.setStage t (.page p x held frame))
  | read {t : T} {p : P} {x held : Bool} {data : D}
      (hst : s.stage t = .granted p x held) (hfree : s.monitor = .free)
      (hp : s.pages p = none) (hf : s.files p = some data) :
      Moves s (.fetch t)
        { s with
          pages := update s.pages p (some ⟨data, none, data⟩)
          stage := update s.stage t (.page p x held ⟨data, none, data⟩) }
  | missing {t : T} {p : P} {x held : Bool} (hst : s.stage t = .granted p x held)
      (hp : s.pages p = none) (hf : s.files p = none) :
      Moves s (.fetch t) (s.setStage t .failed)
  | fail {t : T} (hst : (∃ p x held, s.stage t = .granted p x held) ∨
      ∃ p x held frame, s.stage t = .page p x held frame) :
      Moves s (.fail t) (s.setStage t .failed)
  | evictPage {p : P} {frame : Frame T D} (hp : s.pages p = some frame)
      (hclean : frame.dirty = none) (hfree : s.monitor = .free) :
      Moves s (.evictPage p) { s with pages := update s.pages p none }
  | modify {t : T} {p : P} {held : Bool} {frame : Frame T D} {change : D → D}
      (hst : s.stage t = .page p true held frame) :
      Moves s (.modify t p change)
        { s with
          pages := update s.pages p
            ((s.pages p).map fun pooled => { pooled with data := change frame.data })
          stage := update s.stage t
            (.changed p { frame with data := change frame.data }) }
  | markDirty {t : T} {p : P} {frame : Frame T D} (hst : s.stage t = .changed p frame)
      (hfree : s.monitor = .free) :
      Moves s (.markDirty t)
        { s.setStage t .idle with
          pages := update s.pages p (some { frame with dirty := some t }) }
  | leave {t : T} {p : P} {x held : Bool} {frame : Frame T D}
      (hst : s.stage t = .page p x held frame) : Moves s (.leave t) (s.setStage t .idle)
  | unsafeReleasePage {t : T} {p : P} {frame : Frame T D}
      (hst : s.stage t = .page p false false frame) :
      Moves s (.unsafeReleasePage t)
        { s.setStage t .idle with threads := s.threads.step (.release t p) }
  | createPage {t : T} {p : P} (hst : s.stage t = .idle) (hf : s.files p = none) :
      Moves s (.createPage t p) { s with files := update s.files p (some default) }
  | flushAllPages (hfree : s.monitor = .free) :
      Moves s .flushAllPages { s with monitor := .flush none none }
  | logUpdate {tid : Option T} {p : P} {frame : Frame T D} {u : T}
      (hm : s.monitor = .flush tid none) (hp : s.pages p = some frame)
      (hdirty : frame.dirty = some u) (hu : tid = none ∨ tid = some u) :
      Moves s (.logUpdate p)
        { s with
          log := s.log.logWrite u p frame.before frame.data
          monitor := .flush tid (some p) }
  | writePage {tid : Option T} {p : P} {frame : Frame T D}
      (hm : s.monitor = .flush tid (some p)) (hp : s.pages p = some frame) :
      Moves s .writePage
        { s with
          files := update s.files p (some frame.data)
          pages := update s.pages p (some { frame with dirty := none })
          monitor := .flush tid none }
  | writeNothing {tid : Option T} {p : P} (hm : s.monitor = .flush tid (some p))
      (hp : s.pages p = none) : Moves s .writePage s
  | flushed (hm : s.monitor = .flush none none) (hclean : s.Flushed none) :
      Moves s .flushed { s with monitor := .free }
  | logCheckpoint (hm : s.monitor = .flush none none) (hclean : s.Flushed none) :
      Moves s .logCheckpoint
        { s with log := s.log.preAppend.appendCheckpoint.logTruncate, monitor := .free }
  | complete {t : T} (hst : s.stage t = .idle) (hfree : s.monitor = .free) :
      Moves s (.complete t) { s.setStage t .committing with monitor := .flush (some t) none }
  | release {t : T} (hm : s.monitor = .flush (some t) none) (hclean : s.Flushed (some t)) :
      Moves s (.release t)
        { s.setStage t .released with
          pages := fun p =>
            if s.threads.manager.pagesHeldBy t p then
              (s.pages p).map fun frame => { frame with before := frame.data }
            else s.pages p
          threads := s.threads.step (.releaseAll t)
          monitor := .free }
  | logCommit {t : T} (hst : s.stage t = .released) :
      Moves s (.logCommit t) { s.setStage t .committed with log := s.log.logCommit t }
  | logAbort {t : T} (hst : s.stage t = .idle ∨ s.stage t = .failed)
      (hfree : s.monitor = .free) :
      Moves s (.logAbort t)
        { s.setStage t .rollingBack with log := s.log.preAppend, monitor := .rollback t }
  | restorePage {t : T} {p : P} {image : D} (hm : s.monitor = .rollback t)
      (himage : s.log.beforeImages t p = some image) :
      Moves s (.restorePage p)
        { s with
          pages := update s.pages p none
          files := update s.files p (some image) }
  | appendAbort {t : T} (hm : s.monitor = .rollback t) (hback : s.RolledBack t) :
      Moves s (.appendAbort t)
        { s.setStage t .aborting with log := s.log.appendAbort t, monitor := .free }
  | discard {t : T} (hst : s.stage t = .aborting) (hfree : s.monitor = .free) :
      Moves s (.discard t)
        { s.setStage t .aborted with
          pages := fun p => if s.threads.manager.pagesHeldBy t p then none else s.pages p
          threads := s.threads.step (.releaseAll t) }

theorem moves_of_allowed {e : Event T P D} (he : s.Allowed e) : Moves s e (s.step e) := by
  cases e with
  | start t => exact .start (Stage.eq_unstarted he)
  | getPage t p x => exact .getPage (Stage.eq_idle_or_page he)
  | acquire t =>
    obtain ⟨p, x, held, hst⟩ := Stage.eq_acquiring he
    simpa only [step, hst] using Moves.acquire hst
  | interrupt t =>
    obtain ⟨p, x, held, hst⟩ := Stage.eq_acquiring he
    exact .interrupt hst
  | fetch t =>
    obtain ⟨p, x, held, hst⟩ := Stage.eq_granted he.1
    simp only [step, hst, fetch]
    cases hp : s.pages p with
    | some frame => exact .fetch hst he.2 hp
    | none =>
      cases hf : s.files p with
      | some data => exact .read hst he.2 hp hf
      | none => exact .missing hst hp hf
  | fail t => exact .fail (Stage.eq_granted_or_page he)
  | evictPage p =>
    cases hp : s.pages p with
    | none => simp [Allowed, hp] at he
    | some frame => exact .evictPage hp (by simpa [hp] using he.1) he.2
  | modify t p change =>
    obtain ⟨q, held, frame, hst⟩ := Stage.eq_page_true he.1
    obtain rfl : q = p := by simpa [hst, Stage.hand] using he.2
    simpa only [step, hst] using Moves.modify hst
  | markDirty t =>
    obtain ⟨p, frame, hst⟩ := Stage.eq_changed he.1
    simpa only [step, hst] using Moves.markDirty hst he.2
  | leave t =>
    obtain ⟨p, x, held, frame, hst⟩ := Stage.eq_page he
    exact .leave hst
  | unsafeReleasePage t =>
    obtain ⟨p, frame, hst⟩ := Stage.eq_page_new he
    simpa only [step, hst] using Moves.unsafeReleasePage hst
  | createPage t p => exact .createPage (Stage.eq_idle he.1) (by simpa using he.2)
  | flushAllPages => exact .flushAllPages he
  | logUpdate p =>
    have he : s.ToFlush p = true := he
    unfold ToFlush at he
    split at he
    · rename_i tid frame hm hp
      cases hdirty : frame.dirty with
      | none =>
        rw [hdirty] at he
        cases he
      | some u =>
        rw [hdirty] at he
        simpa only [step, hm, hp, hdirty] using Moves.logUpdate hm hp hdirty (by simpa using he)
    · cases he
  | writePage =>
    simp only [Allowed] at he
    split at he
    · rename_i tid p hm
      simp only [step, hm]
      cases hp : s.pages p with
      | some frame => exact .writePage hm hp
      | none => exact .writeNothing hm hp
    · cases he
  | flushed => exact .flushed he.1 he.2
  | logCheckpoint => exact .logCheckpoint he.1 he.2
  | complete t => exact .complete (Stage.eq_idle he.1) he.2
  | release t => exact .release he.1 he.2
  | logCommit t => exact .logCommit (Stage.eq_released he)
  | logAbort t => exact .logAbort (Stage.eq_idle_or_failed he.1) he.2
  | restorePage p =>
    simp only [Allowed] at he
    split at he
    · rename_i t hm
      obtain ⟨image, himage⟩ := Option.isSome_iff_exists.mp he
      simpa only [step, hm, himage] using Moves.restorePage hm himage
    · cases he
  | appendAbort t => exact .appendAbort he.1 he.2
  | discard t => exact .discard (Stage.eq_aborting he.1) he.2

end Moves

/-- A thread after one of them went on. -/
theorem stage_cases (hstage : s'.stage = update s.stage t st) (u : T) :
    (u = t ∧ s'.stage u = st) ∨ (u ≠ t ∧ s'.stage u = s.stage u) := by
  by_cases hut : u = t
  · exact .inl ⟨hut, by rw [hstage, hut, update_self]⟩
  · exact .inr ⟨hut, by rw [hstage, update_of_ne hut]⟩

/-! ## Inside the buffer pool -/

/-- A thread is inside a method of the buffer pool exactly if `monitor` says
so. -/
structure Guarded (s : Database T P D) : Prop where
  committing : ∀ t logged, s.monitor = .flush (some t) logged → s.stage t = .committing
  rollingBack : ∀ t, s.stage t = .rollingBack ↔ s.monitor = .rollback t

omit [DecidableEq T] in
theorem guarded_opened (files : P → Option D) : Guarded (opened files : Database T P D) where
  committing _ _ h := by cases h
  rollingBack _ := by simp [opened]

theorem Guarded.outside (h : s.Guarded) (hold : s.stage t ≠ .committing ∧ s.stage t ≠ .rollingBack)
    (hnew : st ≠ .rollingBack) (hmonitor : s'.monitor = s.monitor)
    (hstage : s'.stage = update s.stage t st) : s'.Guarded := by
  refine ⟨fun u logged hm => ?_, fun u => ?_⟩
  · have hu := h.committing u logged (hmonitor ▸ hm)
    rcases stage_cases hstage u with ⟨rfl, -⟩ | ⟨-, heq⟩
    · exact absurd hu hold.1
    · rw [heq, hu]
  · rw [hmonitor, ← h.rollingBack u]
    rcases stage_cases hstage u with ⟨rfl, heq⟩ | ⟨-, heq⟩ <;> rw [heq]
    exact iff_of_false hnew hold.2

omit [DecidableEq T] in
theorem Guarded.congr (h : s.Guarded) (hmonitor : s'.monitor = s.monitor)
    (hstage : s'.stage = s.stage) : s'.Guarded := by
  obtain ⟨h₁, h₂⟩ := h
  rw [← hmonitor, ← hstage] at h₁ h₂
  exact ⟨h₁, h₂⟩

omit [DecidableEq T] in
theorem Guarded.flush {tid : Option T} {logged logged' : Option P} (h : s.Guarded)
    (hold : s.monitor = .flush tid logged) (hnew : s'.monitor = .flush tid logged')
    (hstage : s'.stage = s.stage) : s'.Guarded := by
  refine ⟨fun u l hm => ?_, fun u => ?_⟩
  · rw [hnew] at hm
    cases hm
    rw [hstage]
    exact h.committing u logged hold
  · rw [hstage, h.rollingBack u, hold, hnew]
    simp

omit [DecidableEq T] in
theorem Guarded.flushAll (h : s.Guarded) (hold : s.monitor = .free ∨ s.monitor = .flush none none)
    (hnew : s'.monitor = .free ∨ s'.monitor = .flush none none)
    (hstage : s'.stage = s.stage) : s'.Guarded := by
  refine ⟨fun u l hm => ?_, fun u => ?_⟩
  · rcases hnew with hnew | hnew <;> rw [hnew] at hm <;> cases hm
  · rw [hstage, h.rollingBack u]
    rcases hold with hold | hold <;> rcases hnew with hnew | hnew <;> simp [hold, hnew]

theorem Guarded.inOut (h : s.Guarded)
    (hold : s.monitor = .free ∨ (∃ logged, s.monitor = .flush (some t) logged) ∨
      s.monitor = .rollback t)
    (hnew : (s'.monitor = .free ∧ st ≠ .rollingBack) ∨
      (s'.monitor = .flush (some t) none ∧ st = .committing) ∨
      (s'.monitor = .rollback t ∧ st = .rollingBack))
    (hstage : s'.stage = update s.stage t st) : s'.Guarded := by
  have hothers : ∀ u, u ≠ t → s.stage u ≠ .rollingBack := by
    intro u hut hu
    rw [h.rollingBack u] at hu
    rcases hold with hold | ⟨_, hold⟩ | hold <;> rw [hold] at hu <;> cases hu
    exact hut rfl
  refine ⟨fun u logged hm => ?_, fun u => ?_⟩
  · rcases hnew with ⟨hm', -⟩ | ⟨hm', hst⟩ | ⟨hm', -⟩ <;> rw [hm'] at hm <;> cases hm
    rw [hstage, update_self, hst]
  · rcases stage_cases hstage u with ⟨rfl, heq⟩ | ⟨hut, heq⟩ <;> rw [heq]
    · rcases hnew with ⟨hm, hst⟩ | ⟨hm, hst⟩ | ⟨hm, hst⟩ <;> simp [hm, hst]
    · refine iff_of_false (hothers u hut) ?_
      rcases hnew with ⟨hm, -⟩ | ⟨hm, -⟩ | ⟨hm, -⟩ <;> simp [hm, Ne.symm hut]

theorem Guarded.moves [DecidableEq P] [Inhabited D] (h : s.Guarded) {e : Event T P D}
    (hmoves : Moves s e s') : s'.Guarded := by
  have out : ∀ {t st}, s.stage t = st → st ≠ .committing → st ≠ .rollingBack →
      s.stage t ≠ .committing ∧ s.stage t ≠ .rollingBack := fun hst h₁ h₂ => hst ▸ ⟨h₁, h₂⟩
  cases hmoves
  case start hst | interrupt hst | fetch hst _ _ | read hst _ _ _ | missing hst _ _ |
      modify hst | markDirty hst _ | leave hst | unsafeReleasePage hst | logCommit hst |
      discard hst hfree => exact h.outside (out hst (by simp) (by simp)) (by simp) rfl rfl
  case getPage hst =>
    rcases hst with hst | ⟨_, _, _, _, hst⟩
    all_goals exact h.outside (out hst (by simp) (by simp)) (by simp) rfl rfl
  case acquire t p x held hst =>
    refine h.outside (out hst (by simp) (by simp)) ?_ rfl rfl
    cases (s.threads.manager.acquireRound t p x).1 <;> simp [Stage.afterRound]
  case fail hst =>
    rcases hst with ⟨_, _, _, hst⟩ | ⟨_, _, _, _, hst⟩
    all_goals exact h.outside (out hst (by simp) (by simp)) (by simp) rfl rfl
  case flushAllPages hfree => exact h.flushAll (Or.inl hfree) (Or.inr rfl) rfl
  case logUpdate hm _ _ _ | writePage hm _ => exact h.flush hm rfl rfl
  case flushed hm _ | logCheckpoint hm _ => exact h.flushAll (Or.inr hm) (Or.inl rfl) rfl
  case complete hst hfree => exact h.inOut (Or.inl hfree) (Or.inr (Or.inl ⟨rfl, rfl⟩)) rfl
  case release hm _ =>
    exact h.inOut (Or.inr (Or.inl ⟨_, hm⟩)) (Or.inl ⟨rfl, by simp⟩) rfl
  case logAbort hst hfree => exact h.inOut (Or.inl hfree) (Or.inr (Or.inr ⟨rfl, rfl⟩)) rfl
  case appendAbort hm _ => exact h.inOut (Or.inr (Or.inr hm)) (Or.inl ⟨rfl, by simp⟩) rfl
  all_goals exact h.congr rfl rfl

/-- What holds between the lock table, the threads and the changes made. -/
structure Locked (cs : List (Change T P D)) (s : Database T P D) : Prop where
  orderly : s.threads.Orderly
  owner : ∀ t p, Touched cs t p → (s.stage t).live = true → s.threads.Holds t p true
  access : ∀ t p x, (s.stage t).access = some (p, x) → s.threads.Holds t p x
  newAt : ∀ t p, (s.stage t).newAt = some p → ¬ Touched cs t p
  unstarted : ∀ t p, s.stage t = .unstarted → ¬ Touched cs t p

theorem locked_opened (files : P → Option D) :
    Locked [] (opened files : Database T P D) where
  orderly := Threads.orderly_start
  owner _ _ h := absurd h (not_touched_nil _ _)
  access _ _ _ h := by cases h
  newAt _ _ _ := not_touched_nil _ _
  unstarted _ _ _ := not_touched_nil _ _

/-- A page locked for one transaction is locked for no other. -/
theorem Locked.sole {x : Bool} (h : Locked cs s) (ht : s.threads.Holds t p true)
    (hu : s.threads.Holds u p x) : u = t := by
  obtain ⟨a, ha⟩ := h.orderly.exact p (ht.2 rfl)
  have hta := ht.1
  have hua := hu.1
  rw [ha, List.mem_singleton] at hta hua
  rw [hta, hua]

/-- Two transactions that have not finished have not changed the same page,
because each holds an exclusive lock on what it has changed. -/
theorem Locked.owner_unique (h : Locked cs s) (ht : Touched cs t p)
    (htl : (s.stage t).live = true) (hu : Touched cs u p) (hul : (s.stage u).live = true) :
    u = t :=
  h.sole (h.owner t p ht htl) (h.owner u p hu hul)

/-- A thread that has got to a page which another transaction has changed
finds that one finished. -/
theorem Locked.owner_of_access {x : Bool} (h : Locked cs s) (ht : Touched cs t p)
    (htl : (s.stage t).live = true) (hu : (s.stage u).access = some (p, x)) : u = t :=
  h.sole (h.owner t p ht htl) (h.access u p x hu)

omit [DecidableEq T] in
theorem Stage.access_of_hand {frame : Frame T D} (h : st.hand = some (p, frame)) :
    ∃ x, st.access = some (p, x) := by
  cases st with
  | page q x held f =>
    cases h
    exact ⟨x, rfl⟩
  | changed q f =>
    cases h
    exact ⟨true, rfl⟩
  | _ => cases h

/-- The steps that change the state of one thread, and the lock table, and
no page. -/
theorem Locked.thread (h : Locked cs s) {threads : Threads T P}
    (horderly : threads.Orderly)
    (hothers : ∀ u p x, u ≠ t → s.threads.Holds u p x → threads.Holds u p x)
    (howner : ∀ p, Touched cs t p → st.live = true → threads.Holds t p true)
    (haccess : ∀ p x, st.access = some (p, x) → threads.Holds t p x)
    (hnew : ∀ p, st.newAt = some p → ¬ Touched cs t p) (hstarted : st ≠ .unstarted)
    (hthreads : s'.threads = threads) (hstage : s'.stage = update s.stage t st) :
    Locked cs s' := by
  subst hthreads
  refine ⟨horderly, fun u p hu hl => ?_, fun u p x hx => ?_, fun u p hn => ?_, fun u p hn => ?_⟩
  all_goals rcases stage_cases hstage u with ⟨rfl, heq⟩ | ⟨hut, heq⟩
  · exact howner p hu (heq ▸ hl)
  · exact hothers u p true hut (h.owner u p hu (heq ▸ hl))
  · exact haccess p x (heq ▸ hx)
  · exact hothers u p x hut (h.access u p x (heq ▸ hx))
  · exact hnew p (heq ▸ hn)
  · exact h.newAt u p (heq ▸ hn)
  · exact absurd (heq ▸ hn) hstarted
  · exact h.unstarted u p (heq ▸ hn)

theorem Locked.setStage (h : Locked cs s)
    (howner : ∀ p, Touched cs t p → st.live = true → (s.stage t).live = true)
    (haccess : ∀ p x, st.access = some (p, x) → s.threads.Holds t p x)
    (hnew : ∀ p, st.newAt = some p → ¬ Touched cs t p) (hstarted : st ≠ .unstarted)
    (hthreads : s'.threads = s.threads) (hstage : s'.stage = update s.stage t st) :
    Locked cs s' :=
  h.thread h.orderly (fun _ _ _ _ hx => hx) (fun p hp hl => h.owner t p hp (howner p hp hl))
    haccess hnew hstarted hthreads hstage

theorem Locked.congr (h : Locked cs s) (hthreads : s'.threads = s.threads)
    (hstage : s'.stage = s.stage) : Locked cs s' := by
  obtain ⟨h₁, h₂, h₃, h₄, h₅⟩ := h
  rw [← hthreads] at h₁ h₂ h₃
  rw [← hstage] at h₂ h₃ h₄ h₅
  exact ⟨h₁, h₂, h₃, h₄, h₅⟩

theorem Locked.getPage (h : Locked cs s) (hl : (s.stage t).live = true) (p : P) (x : Bool) :
    Locked cs (s.setStage t (.acquiring p x (s.threads.manager.holdsLock t p))) := by
  refine h.setStage (fun _ _ _ => hl) (fun _ _ hx => by cases hx) (fun q hq hp => ?_)
    (by simp) rfl rfl
  cases hheld : s.threads.manager.holdsLock t p with
  | true =>
    rw [hheld] at hq
    cases hq
  | false =>
    rw [hheld] at hq
    cases hq
    have := (h.owner t p hp hl).1
    simp [LockManager.holdsLock, this] at hheld

theorem Locked.got {x held : Bool} {frame : Frame T D} (h : Locked cs s)
    (hst : s.stage t = .granted p x held) (hthreads : s'.threads = s.threads)
    (hstage : s'.stage = update s.stage t (.page p x held frame)) :
    Locked cs s' := by
  refine h.setStage (fun _ _ _ => by rw [hst]; rfl) (fun q y hy => ?_) (fun q hq => ?_) (by simp)
    hthreads hstage
  · exact h.access t q y (by rw [hst]; exact hy)
  · exact h.newAt t q (by rw [hst]; exact hq)

/-- A page that changes is one its transaction has for itself. -/
theorem Locked.modify {held : Bool} {frame frame' : Frame T D} {change : D → D}
    (h : Locked cs s) (hst : s.stage t = .page p true held frame)
    (hthreads : s'.threads = s.threads)
    (hstage : s'.stage = update s.stage t (.changed p frame')) :
    Locked (cs ++ [⟨t, p, change⟩]) s' := by
  have hholds : s.threads.Holds t p true := h.access t p true (by rw [hst]; rfl)
  have hl : (s.stage t).live = true := by rw [hst]; rfl
  have h' : Locked cs s' := h.setStage (fun _ _ _ => hl)
    (fun q y hy => by cases hy; exact hholds) (fun _ hq => by cases hq) (by simp) hthreads hstage
  have htouch : ∀ {u q}, Touched (cs ++ [⟨t, p, change⟩]) u q →
      Touched cs u q ∨ u = t ∧ q = p := fun hu =>
    (touched_snoc.mp hu).imp id fun ⟨hu, hq⟩ => ⟨hu.symm, hq.symm⟩
  refine ⟨h'.orderly, fun u q hu hlive => ?_, h'.access, fun u q hq hu => ?_, fun u q hq hu => ?_⟩
  · rcases htouch hu with hu | ⟨rfl, rfl⟩
    · exact h'.owner u q hu hlive
    · rw [hthreads]
      exact hholds
  · rcases htouch hu with hu | ⟨rfl, rfl⟩
    · exact h'.newAt u q hq hu
    · rw [hstage, update_self] at hq
      cases hq
  · rcases htouch hu with hu | ⟨rfl, rfl⟩
    · exact h'.unstarted u q hq hu
    · rw [hstage, update_self] at hq
      cases hq

variable [DecidableEq P]

theorem Locked.acquire {x held : Bool} (h : Locked cs s) (hst : s.stage t = .acquiring p x held)
    (hthreads : s'.threads = s.threads.step (.round t p x))
    (hstage : s'.stage = update s.stage t
      (.afterRound p x held (s.threads.manager.acquireRound t p x).1)) : Locked cs s' := by
  have hl : (s.stage t).live = true := by rw [hst]; rfl
  refine h.thread (h.orderly.step _) (fun u q y _ hy => hy.round t p x)
    (fun q hq _ => (h.owner t q hq hl).round t p x) (fun q y hy => ?_) (fun q hq => ?_)
    ?_ hthreads hstage
  · cases ho : (s.threads.manager.acquireRound t p x).1 with
    | granted =>
      rw [ho] at hy
      cases hy
      exact Threads.holds_granted ho
    | waiting | deadlock => rw [ho] at hy; cases hy
  · refine h.newAt t q ?_
    rw [hst]
    cases ho : (s.threads.manager.acquireRound t p x).1 with
    | granted | waiting => rw [ho] at hq; exact hq
    | deadlock => rw [ho] at hq; cases hq
  · cases (s.threads.manager.acquireRound t p x).1 <;> simp [Stage.afterRound]

/-- A transaction that gives back everything is one that is no longer
live. -/
theorem Locked.releaseAll (h : Locked cs s) (st : Stage T P D) (hlive : st.live = false)
    (haccess : st.access = none) (hnew : st.newAt = none) (hstarted : st ≠ .unstarted)
    (hthreads : s'.threads = s.threads.step (.releaseAll t))
    (hstage : s'.stage = update s.stage t st) : Locked cs s' := by
  refine h.thread (h.orderly.step _)
    (fun u q y hut hy => hy.step (e := .releaseAll t) fun hg => hut hg.symm)
    (fun _ _ hl => ?_) (fun _ _ hy => ?_) (fun _ hq => ?_) hstarted hthreads hstage
  · rw [hlive] at hl; cases hl
  · rw [haccess] at hy; cases hy
  · rw [hnew] at hq; cases hq

theorem Locked.moves [Inhabited D] (h : Locked cs s) (hg : s.Guarded) {e : Event T P D}
    (hmoves : Moves s e s') : Locked (cs ++ e.change.toList) s' := by
  -- a step that leaves the lock table alone and takes `t` to no page
  have plain : ∀ {t st}, (s.stage t).live = true → st.access = none → st.newAt = none →
      st ≠ .unstarted → ∀ {s' : Database T P D}, s'.threads = s.threads →
      s'.stage = update s.stage t st → Locked cs s' := by
    intro t st hl ha hn hne s' hthreads hstage
    refine h.setStage (fun _ _ _ => hl) (fun _ _ hy => ?_) (fun _ hq => ?_) hne hthreads hstage
    · rw [ha] at hy; cases hy
    · rw [hn] at hq; cases hq
  have live : ∀ {t st}, s.stage t = st → st.live = true → (s.stage t).live = true :=
    fun hst hl => hst ▸ hl
  cases hmoves <;>
    simp only [Event.change, Option.toList_none, Option.toList_some, List.append_nil]
  case start t hst =>
    exact h.setStage (fun p hp _ => absurd hp (h.unstarted t p hst)) (fun _ _ hy => by cases hy)
      (fun _ hq => by cases hq) (by simp) rfl rfl
  case getPage t p x hst =>
    refine h.getPage ?_ p x
    rcases hst with hst | ⟨_, _, _, _, hst⟩
    · exact live hst rfl
    · exact live hst rfl
  case acquire hst => exact h.acquire hst rfl rfl
  case interrupt t p x held hst =>
    exact h.thread (h.orderly.step (.interrupt t)) (fun _ _ _ _ hy => hy)
      (fun q hq _ => h.owner t q hq (live hst rfl)) (fun _ _ hy => by cases hy)
      (fun _ hq => by cases hq) (by simp) rfl rfl
  case fetch hst _ _ | read hst _ _ _ => exact h.got hst rfl rfl
  case missing hst _ _ | markDirty hst _ | leave hst | complete hst _ =>
    exact plain (live hst rfl) rfl rfl (by simp) rfl rfl
  case fail hst =>
    rcases hst with ⟨_, _, _, hst⟩ | ⟨_, _, _, _, hst⟩
    all_goals exact plain (live hst rfl) rfl rfl (by simp) rfl rfl
  case modify hst => exact h.modify hst rfl rfl
  case unsafeReleasePage t p frame hst =>
    refine h.thread (h.orderly.step (.release t p))
      (fun u q y hut hy => hy.step (e := .release t p) fun hg => hut hg.1.symm)
      (fun q hq _ => ?_) (fun _ _ hy => by cases hy) (fun _ hq => by cases hq) (by simp) rfl rfl
    -- the lock given back is not one on a changed page
    refine (h.owner t q hq (live hst rfl)).step fun hg => ?_
    obtain rfl : p = q := hg.2
    exact h.newAt t p (by rw [hst]; rfl) hq
  case release t _ _ =>
    exact h.releaseAll (t := t) .released rfl rfl rfl (by simp) rfl rfl
  case logCommit t hst =>
    exact h.setStage (t := t) (fun _ _ hl => by cases hl) (fun _ _ hy => by cases hy)
      (fun _ hq => by cases hq) (by simp) rfl rfl
  case logAbort hst _ =>
    rcases hst with hst | hst
    all_goals exact plain (live hst rfl) rfl rfl (by simp) rfl rfl
  case appendAbort t hm _ =>
    exact plain (live ((hg.rollingBack t).mpr hm) rfl) rfl rfl (by simp) rfl rfl
  case discard t hst _ =>
    exact h.releaseAll (t := t) .aborted rfl rfl rfl (by simp) rfl rfl
  -- the rest touches no thread
  all_goals exact h.congr rfl rfl

end Database

end Corestack.Simpledb
