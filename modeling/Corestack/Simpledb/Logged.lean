import Corestack.Simpledb.Held

/-!
# Dirty pages and what the log has of them

A page is dirty in the pool only while the transaction that changed it is
under way, and an image in the log is of a page that its transaction
changed. A rollback starts at the first record of its transaction, and that
is early enough to find the first image of every page.

From here on no page of an aborting transaction is flushed. The buffer pool
does not see to that: between the rollback and the discarding of the pages
`flushAllPages` can come in.
-/

namespace Corestack.Simpledb

open Function List Lib

variable {T P D : Type} [DecidableEq T] [DecidableEq P]

/-! ## The log -/

namespace LogFile

variable {l : LogFile T P D} {cs : List (Change T P D)} {t u : T} {p q : P}

/-- The first image of the page that the transaction logged. -/
def images (l : LogFile T P D) (t : T) (p : P) : Option D :=
  l.records.findSome? (LogRecord.imageOf t p)

theorem images_append {r : LogRecord T P D} :
    (l.append r).images t p = (l.images t p).or (r.imageOf t p) := by
  simp [images, append, List.findSome?_append]

/-- The list of transactions under way has no position behind an image of
the transaction's own. -/
structure Sound (cs : List (Change T P D)) (l : LogFile T P D) : Prop where
  decided : l.recoveryUndecided = false
  first : ∀ t k, l.tidToFirstLogRecord.lookup t = some k →
    k ≤ l.records.length ∧ ∀ p, ∀ r ∈ l.records.take k, r.imageOf t p = none
  touched : ∀ t p, (l.images t p).isSome → Touched cs t p

theorem Sound.preAppend (h : l.Sound cs) : l.preAppend = l := by
  simp [LogFile.preAppend, h.decided]

/-- A rollback starts early enough in the log to miss nothing: all updates of
a transaction come after its first record, and that is where it starts. -/
theorem Sound.beforeImages (h : l.Sound cs) (ht : (l.tidToFirstLogRecord.lookup t).isSome) (p : P) :
    l.beforeImages t p = l.images t p := by
  obtain ⟨k, hk⟩ := Option.isSome_iff_exists.mp ht
  have hskip : (l.records.take k).findSome? (LogRecord.imageOf t p) = none :=
    List.findSome?_eq_none_iff.mpr ((h.first t k hk).2 p)
  simp only [LogFile.beforeImages, hk, images]
  conv_rhs => rw [← take_append_drop k l.records, List.findSome?_append, hskip]
  rfl

theorem Sound.append {r : LogRecord T P D} (h : l.Sound cs)
    (hr : ∀ t p, (r.imageOf t p).isSome → Touched cs t p) : (l.append r).Sound cs where
  decided := h.decided
  first t k hk := by
    obtain ⟨hle, hnone⟩ := h.first t k hk
    refine ⟨?_, fun p r' hr' => hnone p r' ?_⟩
    · simp only [LogFile.append, length_append]
      omega
    · rwa [LogFile.append, take_append_of_le_length hle] at hr'
  touched t p ht := by
    rw [images_append, Option.isSome_or, Bool.or_eq_true] at ht
    rcases ht with ht | ht
    · exact h.touched t p ht
    · exact hr t p ht

theorem Sound.erase (h : l.Sound cs) (t : T) :
    ({ l with tidToFirstLogRecord := l.tidToFirstLogRecord.erase t } : LogFile T P D).Sound cs where
  decided := h.decided
  first u k hk := by
    by_cases hu : u = t
    · subst hu
      simp at hk
    · exact h.first u k (by rwa [AList.lookup_erase_ne hu] at hk)
  touched := h.touched

theorem Sound.logCommit (h : l.Sound cs) (t : T) : (l.logCommit t).Sound cs := by
  unfold LogFile.logCommit
  rw [h.preAppend]
  exact (h.append fun _ _ h => by cases h).erase t

theorem Sound.appendAbort (h : l.Sound cs) (t : T) : (l.appendAbort t).Sound cs := by
  unfold LogFile.appendAbort
  rw [h.preAppend]
  exact (h.append fun _ _ h => by cases h).erase t

theorem Sound.logWrite (h : l.Sound cs) (ht : Touched cs t p) (before after : D) :
    (l.logWrite t p before after).Sound cs := by
  rw [LogFile.logWrite, h.preAppend]
  refine h.append fun u q hu => ?_
  simp only [LogRecord.imageOf] at hu
  split at hu
  · rename_i heq
    rwa [← heq.1, ← heq.2]
  · cases hu

theorem Sound.logXactionBegin (h : l.Sound cs) (ht : ∀ p, ¬ Touched cs t p) :
    (l.logXactionBegin t).Sound cs := by
  unfold LogFile.logXactionBegin
  split
  · exact h
  · simp only [h.preAppend]
    have happend := h.append (r := .begin t) fun _ _ h => by cases h
    refine ⟨happend.decided, fun u k hk => ?_, happend.touched⟩
    by_cases hu : u = t
    · subst hu
      rw [AList.lookup_insert] at hk
      cases hk
      refine ⟨by simp [LogFile.append], fun p r hr => ?_⟩
      have hnone : l.images u p = none :=
        Option.not_isSome_iff_eq_none.mp fun hsome => ht p (h.touched u p hsome)
      refine List.findSome?_eq_none_iff.mp hnone r ?_
      simpa [LogFile.append] using hr
    · rw [AList.lookup_insert_ne hu] at hk
      exact happend.first u k hk

theorem Sound.mono (h : l.Sound cs) (c : Change T P D) : l.Sound (cs ++ [c]) :=
  { h with touched := fun t p ht => touched_snoc.mpr (Or.inl (h.touched t p ht)) }

omit [DecidableEq P] in
theorem isSome_lookup_logXactionBegin (l : LogFile T P D) (t : T) :
    ((l.logXactionBegin t).tidToFirstLogRecord.lookup t).isSome := by
  unfold logXactionBegin
  split
  · rename_i hk
    simp [hk]
  · simp

omit [DecidableEq P] in
theorem lookup_logXactionBegin_ne (l : LogFile T P D) (hu : u ≠ t) :
    (l.logXactionBegin t).tidToFirstLogRecord.lookup u = l.tidToFirstLogRecord.lookup u := by
  unfold logXactionBegin
  split
  · rfl
  · simp only [AList.lookup_insert_ne hu]
    unfold preAppend
    split <;> rfl

/-! What is logged besides updates is no image of a page. -/

theorem Sound.images_logXactionBegin (h : l.Sound cs) (t u : T) (p : P) :
    (l.logXactionBegin t).images u p = l.images u p := by
  unfold LogFile.logXactionBegin
  split
  · rfl
  · simp [h.preAppend, images, LogFile.append, LogRecord.imageOf]

theorem Sound.images_logCommit (h : l.Sound cs) (t u : T) (p : P) :
    (l.logCommit t).images u p = l.images u p := by
  simp [LogFile.logCommit, h.preAppend, images, LogFile.append, LogRecord.imageOf]

theorem Sound.images_appendAbort (h : l.Sound cs) (t u : T) (p : P) :
    (l.appendAbort t).images u p = l.images u p := by
  simp [LogFile.appendAbort, h.preAppend, images, LogFile.append, LogRecord.imageOf]

theorem Sound.images_logWrite (h : l.Sound cs) (t u : T) (p q : P) (before after : D) :
    (l.logWrite t p before after).images u q =
      (l.images u q).or (if t = u ∧ p = q then some before else none) := by
  rw [LogFile.logWrite, h.preAppend, images_append]
  rfl

end LogFile

/-- The log still has the transaction as one that may be rolled back. -/
def Stage.listed (st : Stage T P D) : Bool :=
  st.live && !(st matches .aborting)

namespace Database

variable {s s' : Database T P D} {cs : List (Change T P D)} {t u : T} {p q : P}
  {st : Stage T P D}

/-- What holds between the log and the transactions. -/
structure Logged (cs : List (Change T P D)) (s : Database T P D) : Prop where
  sound : s.log.Sound cs
  listed : ∀ t, (s.stage t).listed = true → (s.log.tidToFirstLogRecord.lookup t).isSome

theorem logged_opened (files : P → Option D) : Logged [] (opened files : Database T P D) where
  sound := ⟨rfl, fun _ _ h => (by cases h), fun _ _ h => (by cases h)⟩
  listed _ h := by cases h

theorem Logged.congr (h : Logged cs s) (hlog : s'.log = s.log) (hstage : s'.stage = s.stage) :
    Logged cs s' := by
  obtain ⟨h₁, h₂⟩ := h
  rw [← hlog] at h₁ h₂
  rw [← hstage] at h₂
  exact ⟨h₁, h₂⟩

/-- The log changes at most in what it lists of the one transaction that
goes on. -/
theorem Logged.thread (h : Logged cs s) (hsound : s'.log.Sound cs)
    (hstage : s'.stage = update s.stage t st)
    (hothers : ∀ u, u ≠ t →
      s'.log.tidToFirstLogRecord.lookup u = s.log.tidToFirstLogRecord.lookup u)
    (hst : st.listed = true → (s'.log.tidToFirstLogRecord.lookup t).isSome) : Logged cs s' := by
  refine ⟨hsound, ?_⟩
  rw [hstage]
  exact (forall_update_iff s.stage fun u st => st.listed = true →
    (s'.log.tidToFirstLogRecord.lookup u).isSome).mpr
      ⟨hst, fun u hut hu => by rw [hothers u hut]; exact h.listed u hu⟩

theorem Logged.goesOn (h : Logged cs s) (hlog : s'.log = s.log)
    (hstage : s'.stage = update s.stage t st)
    (hst : st.listed = true → (s.stage t).listed = true) : Logged cs s' :=
  h.thread (hlog ▸ h.sound) hstage (fun _ _ => by rw [hlog]) fun hl => by
    rw [hlog]
    exact h.listed t (hst hl)

theorem Logged.mono (h : Logged cs s) (c : Change T P D) : Logged (cs ++ [c]) s :=
  { h with sound := h.sound.mono c }

/-! ## Dirty pages -/

/-- No page of an aborting transaction is flushed. -/
def FlushesNoAborted (s : Database T P D) : Event T P D → Prop
  | .logUpdate p => ∀ frame u, s.pages p = some frame → frame.dirty = some u →
      s.stage u ≠ .aborting
  | _ => True

/-- The steps of a run without checkpoints in which that is so. -/
def Quiet (s : Database T P D) (e : Event T P D) : Prop :=
  e ≠ .logCheckpoint ∧ s.FlushesNoAborted e

/-- A dirty page is one that an unfinished transaction has changed. `logged`
is about the page that is written next. -/
structure Dirtied (cs : List (Change T P D)) (s : Database T P D) : Prop where
  dirty : ∀ p frame u, s.pages p = some frame → frame.dirty = some u →
    (s.stage u).live = true ∧ Touched cs u p
  changed : ∀ t p frame, s.stage t = .changed p frame → Touched cs t p
  logged : ∀ tid p, s.monitor = .flush tid (some p) → ∃ frame u, s.pages p = some frame ∧
    frame.dirty = some u ∧ s.stage u ≠ .aborting ∧ (s.log.images u p).isSome

theorem dirtied_opened (files : P → Option D) : Dirtied [] (opened files : Database T P D) where
  dirty _ _ _ h := by cases h
  changed _ _ _ h := by cases h
  logged _ _ h := by cases h

theorem Dirtied.mono (h : Dirtied cs s) (c : Change T P D) : Dirtied (cs ++ [c]) s where
  dirty p frame u hp hu := (h.dirty p frame u hp hu).imp_right fun ht => touched_snoc.mpr (.inl ht)
  changed t p frame ht := touched_snoc.mpr (.inl (h.changed t p frame ht))
  logged := h.logged

/-- One transaction goes on. It may leave a page dirty that it has changed. -/
theorem Dirtied.turn (h : Dirtied cs s) (hstage : s'.stage = update s.stage t st)
    (hpages : ∀ q f, s'.pages q = some f → f.dirty = some t ∧ Touched cs t q ∨
      ∃ f', s.pages q = some f' ∧ f'.dirty = f.dirty)
    (hlive : ∀ q f, s'.pages q = some f → f.dirty = some t → st.live = true)
    (hchanged : ∀ p frame, st = .changed p frame → Touched cs t p)
    (hlogged : ∀ tid p, s'.monitor = .flush tid (some p) → st ≠ .aborting ∧
      ∃ frame u, s'.pages p = some frame ∧ frame.dirty = some u ∧ s.stage u ≠ .aborting ∧
        (s'.log.images u p).isSome) : Dirtied cs s' := by
  refine ⟨fun q f u hq hu => ?_, ?_, fun tid q hm => ?_⟩
  · by_cases hut : u = t
    · subst hut
      refine ⟨by rw [hstage, update_self, hlive q f hq hu], ?_⟩
      rcases hpages q f hq with ⟨-, ht⟩ | ⟨f', hf', hd⟩
      · exact ht
      · exact (h.dirty q f' u hf' (hd.trans hu)).2
    · rw [hstage, update_of_ne hut]
      rcases hpages q f hq with ⟨hf, -⟩ | ⟨f', hf', hd⟩
      · exact absurd (Option.some.inj (hu.symm.trans hf)) hut
      · exact h.dirty q f' u hf' (hd.trans hu)
  · rw [hstage]
    exact (forall_update_iff s.stage fun u st => ∀ p frame, st = .changed p frame →
      Touched cs u p).mpr ⟨hchanged, fun u _ => h.changed u⟩
  · obtain ⟨hst, frame, u, hp, hu, hab, hi⟩ := hlogged tid q hm
    refine ⟨frame, u, hp, hu, ?_, hi⟩
    rw [hstage, update_apply]
    split <;> assumption

/-- One transaction goes on, and every page is left to whom it was. -/
theorem Dirtied.thread (h : Dirtied cs s)
    (hpages : ∀ q, (s'.pages q).map Frame.dirty = (s.pages q).map Frame.dirty)
    (himages : ∀ u p, s'.log.images u p = s.log.images u p)
    (hstage : s'.stage = update s.stage t st)
    (hlive : (s.stage t).live = true → st.live = true)
    (hchanged : ∀ p frame, st = .changed p frame → Touched cs t p)
    (hmonitor : ∀ tid p, s'.monitor = .flush tid (some p) →
      s.monitor = .flush tid (some p) ∧ st ≠ .aborting) : Dirtied cs s' := by
  have hback : ∀ q f, s'.pages q = some f → ∃ f', s.pages q = some f' ∧ f'.dirty = f.dirty :=
    fun q f hq => Option.map_eq_some_iff.mp ((hpages q).symm.trans (by rw [hq]; rfl))
  refine h.turn hstage (fun q f hq => .inr (hback q f hq)) (fun q f hq hf => ?_) hchanged
    fun tid q hm => ?_
  · obtain ⟨f', hf', hd⟩ := hback q f hq
    exact hlive (h.dirty q f' t hf' (hd.trans hf)).1
  · obtain ⟨hm, hst⟩ := hmonitor tid q hm
    obtain ⟨f, u, hq, hu, hab, hi⟩ := h.logged tid q hm
    obtain ⟨f', hf', hd⟩ := Option.map_eq_some_iff.mp ((hpages q).trans (by rw [hq]; rfl))
    exact ⟨hst, f', u, hf', hd.trans hu, hab, by rwa [himages]⟩

/-- Pages come into the pool, go or are written while no page is logged and
not yet written. -/
theorem Dirtied.pool (h : Dirtied cs s)
    (hpages : ∀ p frame, s'.pages p = some frame → frame.dirty = none ∨
      ∃ frame', s.pages p = some frame' ∧ frame'.dirty = frame.dirty)
    (hstage : s'.stage = s.stage)
    (hmonitor : ∀ tid p, s'.monitor ≠ .flush tid (some p)) : Dirtied cs s' := by
  refine ⟨fun p frame u hp hu => ?_, fun u p frame hu => ?_, fun tid p hm =>
    absurd hm (hmonitor _ _)⟩
  · rw [hstage]
    rcases hpages p frame hp with hnone | ⟨frame', hp', heq⟩
    · rw [hnone] at hu
      cases hu
    · exact h.dirty p frame' u hp' (heq.trans hu)
  · rw [hstage] at hu
    exact h.changed u p frame hu

/-- One slot of the pool is emptied or gets a clean page. -/
theorem Dirtied.slot (h : Dirtied cs s) {slot : Option (Frame T D)}
    (hpages : s'.pages = update s.pages p slot)
    (hslot : ∀ frame, slot = some frame → frame.dirty = none) (hstage : s'.stage = s.stage)
    (hmonitor : ∀ tid p, s'.monitor ≠ .flush tid (some p)) : Dirtied cs s' := by
  refine h.pool (fun q f hq => ?_) hstage hmonitor
  rw [hpages, update_apply] at hq
  split at hq
  · exact .inl (hslot f hq)
  · exact .inr ⟨f, hq, rfl⟩

theorem Dirtied.markDirty {frame : Frame T D} (h : Dirtied cs s)
    (hst : s.stage t = .changed p frame) (hmonitor : s'.monitor = .free)
    (hpages : s'.pages = update s.pages p (some { frame with dirty := some t }))
    (hstage : s'.stage = update s.stage t .idle) : Dirtied cs s' := by
  refine h.turn hstage (fun q f hq => ?_) (fun _ _ _ _ => rfl) (by simp)
    (by simp [hmonitor])
  rw [hpages, update_apply] at hq
  split at hq
  · rename_i hqp
    cases hq
    exact .inl ⟨rfl, hqp ▸ h.changed t p frame hst⟩
  · exact .inr ⟨f, hq, rfl⟩

theorem Dirtied.finish (h : Dirtied cs s) (hmonitor : s'.monitor = .free)
    (hpages : ∀ q f, s'.pages q = some f → ∃ f', s.pages q = some f' ∧ f'.dirty = f.dirty)
    (hclean : ∀ q f, s'.pages q = some f → f.dirty ≠ some t)
    (hchanged : ∀ p frame, st ≠ .changed p frame)
    (hstage : s'.stage = update s.stage t st) : Dirtied cs s' :=
  h.turn hstage (fun q f hq => .inr (hpages q f hq)) (fun q f hq hf => absurd hf (hclean q f hq))
    (fun p frame hst => absurd hst (hchanged p frame)) (by simp [hmonitor])

omit [DecidableEq P] in
theorem not_dirty_of_flushed (h : s.Flushed (some t)) {frame : Frame T D}
    (hp : s.pages p = some frame) : frame.dirty ≠ some t := by
  have := h p
  simpa [hp] using this

theorem Logged.moves [Inhabited D] (h : Logged cs s) (hl : Locked cs s)
    (hd : Dirtied cs s) {e : Event T P D} (hq : s.Quiet e) (hmoves : Moves s e s') :
    Logged (cs ++ e.change.toList) s' := by
  have goes : ∀ {t st}, s.stage t = st → st.listed = true →
      ∀ {st' : Stage T P D}, st'.listed = true → (s.stage t).listed = true :=
    fun hst hl _ _ => hst ▸ hl
  cases hmoves <;>
    simp only [Event.change, Option.toList_none, Option.toList_some, append_nil]
  case start t hst =>
    exact h.thread (h.sound.logXactionBegin fun p => hl.unstarted t p hst) rfl
      (fun u hu => LogFile.lookup_logXactionBegin_ne s.log hu)
      fun _ => LogFile.isSome_lookup_logXactionBegin s.log t
  case getPage hst =>
    rcases hst with hst | ⟨_, _, _, _, hst⟩
    all_goals exact h.goesOn rfl rfl (goes hst rfl)
  case acquire hst | interrupt hst | fetch hst _ _ | read hst _ _ _ | missing hst _ _ |
      markDirty hst _ | leave hst | unsafeReleasePage hst | complete hst _ =>
    exact h.goesOn rfl rfl (goes hst rfl)
  case fail hst =>
    rcases hst with ⟨_, _, _, hst⟩ | ⟨_, _, _, _, hst⟩
    all_goals exact h.goesOn rfl rfl (goes hst rfl)
  case modify t p held frame change hst =>
    have hchanged : Logged cs { s with
        pages := update s.pages p
          ((s.pages p).map fun pooled => { pooled with data := change frame.data })
        stage := update s.stage t (.changed p { frame with data := change frame.data }) } :=
      h.goesOn rfl rfl (goes hst rfl)
    exact hchanged.mono _
  case logUpdate tid p frame u hm hp hdirty hu =>
    refine ⟨h.sound.logWrite (hd.dirty p frame u hp hdirty).2 _ _, fun t ht => ?_⟩
    have := h.listed t ht
    rwa [LogFile.logWrite, h.sound.preAppend]
  case logCheckpoint => exact absurd rfl hq.1
  case release t _ _ | discard t _ _ => exact h.goesOn (t := t) rfl rfl fun hst => by cases hst
  case logCommit t hst =>
    refine h.thread (t := t) (h.sound.logCommit t) rfl (fun u hu => ?_) fun hst => by cases hst
    simp only [LogFile.logCommit, h.sound.preAppend, AList.lookup_erase_ne hu]
  case logAbort t hst _ =>
    rcases hst with hst | hst
    all_goals exact h.goesOn h.sound.preAppend rfl (goes hst rfl)
  case appendAbort t hm _ =>
    refine h.thread (t := t) (h.sound.appendAbort t) rfl (fun u hu => ?_) fun hst => by cases hst
    simp only [LogFile.appendAbort, h.sound.preAppend, AList.lookup_erase_ne hu]
  all_goals exact h.congr rfl rfl

omit [DecidableEq P] in
/-- The transaction of a thread has the locks of its pages until it gives
them back. -/
theorem Locked.pagesHeldBy (h : Locked cs s) (ht : Touched cs t p)
    (hlive : (s.stage t).live = true) : s.threads.manager.pagesHeldBy t p = true := by
  have := (h.owner t p ht hlive).1
  simpa [LockManager.pagesHeldBy, LockManager.holdsLock] using this

theorem Dirtied.moves [Inhabited D] (h : Dirtied cs s) (hl : Locked cs s) (hlog : Logged cs s)
    {e : Event T P D} (hq : s.Quiet e) (hmoves : Moves s e s') :
    Dirtied (cs ++ e.change.toList) s' := by
  -- a thread goes on outside of the pool
  have goes : ∀ {t st}, (∀ p frame, st ≠ .changed p frame) → st ≠ .aborting → st.live = true →
      ∀ {s' : Database T P D}, s'.pages = s.pages → s'.log = s.log →
      s'.monitor = s.monitor → s'.stage = update s.stage t st → Dirtied cs s' := by
    intro t st hc hab hlive s' hpages hlog hmonitor hstage
    exact h.thread (by simp [hpages]) (by simp [hlog]) hstage (fun _ => hlive)
      (fun p frame hst => absurd hst (hc p frame)) fun tid p hm => ⟨hmonitor ▸ hm, hab⟩
  cases hmoves <;>
    simp only [Event.change, Option.toList_none, Option.toList_some, append_nil]
  case start t hst =>
    exact h.thread (t := t) (fun _ => rfl) (hlog.sound.images_logXactionBegin t) rfl (fun _ => rfl)
      (by simp)
      fun tid p hm => ⟨hm, by simp⟩
  case getPage | interrupt | fetch | missing | fail | leave | unsafeReleasePage =>
    exact goes (by simp) (by simp) rfl rfl rfl rfl rfl
  case acquire t p x held hst =>
    cases ho : (s.threads.manager.acquireRound t p x).1
    all_goals
      exact goes (by simp [Stage.afterRound]) (by simp [Stage.afterRound]) rfl rfl rfl rfl rfl
  case read t p x held data hst hfree hp hf =>
    have hloaded : Dirtied cs { s with
        pages := update s.pages p (some ⟨data, none, data⟩) } :=
      h.slot rfl (by simp) rfl (by simp [hfree])
    exact hloaded.thread (t := t) (fun _ => rfl) (fun _ _ => rfl) rfl (fun _ => rfl) (by simp)
      fun tid q hm => ⟨hm, by simp⟩
  case evictPage hfree => exact h.slot rfl (by simp) rfl (by simp [hfree])
  case modify t p held frame change hst =>
    refine (h.mono _).thread (t := t) (fun q => ?_) (fun _ _ => rfl) rfl (fun _ => rfl) ?_
      fun _ _ hm => ⟨hm, by simp⟩
    · -- the page keeps whoever has it dirty
      exact (forall_update_iff s.pages fun q slot => slot.map Frame.dirty =
        (s.pages q).map Frame.dirty).mpr ⟨by rw [Option.map_map]; rfl, fun _ _ => rfl⟩ q
    · rintro _ _ ⟨⟩
      exact touched_snoc.mpr (.inr ⟨rfl, rfl⟩)
  case markDirty hst hfree => exact h.markDirty hst hfree rfl rfl
  case createPage => exact ⟨h.dirty, h.changed, h.logged⟩
  case flushAllPages | flushed =>
    exact h.pool (fun q f hq => Or.inr ⟨f, hq, rfl⟩) rfl fun _ _ hm => by cases hm
  case logUpdate tid p frame u hm hp hdirty hu =>
    refine ⟨h.dirty, h.changed, fun tid' q hm' => ?_⟩
    cases hm'
    refine ⟨frame, u, hp, hdirty, hq.2 frame u hp hdirty, ?_⟩
    simp [hlog.sound.images_logWrite]
  case writePage => exact h.slot rfl (by simp) rfl (by simp)
  case writeNothing => exact h
  case logCheckpoint => exact absurd rfl hq.1
  case complete t hst hfree =>
    exact h.thread (t := t) (fun _ => rfl) (fun _ _ => rfl) rfl (fun _ => rfl) (by simp)
      fun _ _ hm => by cases hm
  case release t hm hclean =>
    have hkeeps : ∀ q f, (if s.threads.manager.pagesHeldBy t q then
        (s.pages q).map fun frame => { frame with before := frame.data } else s.pages q) = some f →
        ∃ f', s.pages q = some f' ∧ f'.dirty = f.dirty := by
      intro q f hq
      split at hq
      · obtain ⟨f', hf', rfl⟩ := Option.map_eq_some_iff.mp hq
        exact ⟨f', hf', rfl⟩
      · exact ⟨f, hq, rfl⟩
    refine h.finish (t := t) rfl hkeeps (fun q f hq hf => ?_) (by simp) rfl
    obtain ⟨f', hf', hd⟩ := hkeeps q f hq
    exact not_dirty_of_flushed hclean hf' (hd.trans hf)
  case logCommit t hst =>
    exact h.thread (t := t) (fun _ => rfl) (hlog.sound.images_logCommit t) rfl
      (fun hl => by rw [hst] at hl; cases hl) (by simp) fun _ _ hm => ⟨hm, by simp⟩
  case logAbort t hst hfree =>
    exact h.thread (t := t) (fun _ => rfl) (fun _ _ => by rw [hlog.sound.preAppend]) rfl
      (fun _ => rfl)
      (by simp) fun _ _ hm => by cases hm
  case restorePage hm _ => exact h.slot rfl (by simp) rfl (by simp [hm])
  case appendAbort t hm hback =>
    exact h.thread (t := t) (fun _ => rfl) (hlog.sound.images_appendAbort t) rfl (fun _ => rfl)
      (by simp)
      fun _ _ hm => by cases hm
  case discard t hst hfree =>
    have hkeeps : ∀ q f, (if s.threads.manager.pagesHeldBy t q then none else s.pages q) = some f →
        s.threads.manager.pagesHeldBy t q = false ∧ s.pages q = some f := by
      intro q f hq
      split at hq
      · cases hq
      · rename_i hheld
        exact ⟨Bool.eq_false_iff.mpr hheld, hq⟩
    refine h.finish (t := t) hfree (fun q f hq => ⟨f, (hkeeps q f hq).2, rfl⟩) (fun q f hq hf => ?_)
      (by simp) rfl
    -- the pages of the transaction are those it holds, and they are gone
    obtain ⟨hheld, hq⟩ := hkeeps q f hq
    obtain ⟨hlive, htouched⟩ := h.dirty q f t hq hf
    rw [hl.pagesHeldBy htouched hlive] at hheld
    cases hheld

end Database

end Corestack.Simpledb
