import Corestack.Simpledb.Logged

/-!
# What a transaction reads (`BufferPool.transactionComplete`, `LogFile.rollback`)

The changes of a page by transactions that have finished come first, and
after them those of the one transaction that has the page for itself. What
that transaction reads is the effect of all of them; what an abort leaves is
the effect of the first part. `Kept` says where on the way between pool,
file and log each of the two is to be found.
-/

namespace Corestack.Simpledb

open Function Lib

variable {T P D : Type} [DecidableEq T] [DecidableEq P]

/-- A transaction whose pages are being put back. -/
def Stage.undoing : Stage T P D → Bool
  | .rollingBack | .aborting => true
  | _ => false

/-- A page that an unfinished transaction has changed: the state of the
transaction, where the page is in the pool and in its file, and the first
image of it that the transaction logged. An abort has to leave `settled`;
the transaction reads `seen`. -/
structure Owned (st : Stage T P D) (p : P) (pool : Option (Frame T D)) (file : D)
    (image : Option D) (settled seen : D) : Prop where
  undo : st ≠ .aborting → image.getD file = settled
  undone : st = .aborting → file = settled
  pooled : st.undoing = false → ∀ frame, pool = some frame →
    frame.data = seen ∧ (image = none → frame.before = settled)
  held : ∀ frame, st.hand = some (p, frame) →
    frame.data = seen ∧ (image = none → frame.before = settled)
  filed : st.undoing = false → (∀ frame, st ≠ .changed p frame) →
    (∀ frame, pool = some frame → frame.dirty = none) → file = seen

omit [DecidableEq T] [DecidableEq P] in
theorem Owned.goesOn {st st' : Stage T P D} {p : P} {pool : Option (Frame T D)} {file : D}
    {image : Option D} {settled seen : D} (h : Owned st p pool file image settled seen)
    (hold : st.undoing = false) (hnew : st'.undoing = false)
    (hhand : ∀ frame, st'.hand = some (p, frame) → pool = some frame)
    (hchanged : (∀ frame, pool = some frame → frame.dirty = none) →
      ∀ frame, st ≠ .changed p frame) :
    Owned st' p pool file image settled seen where
  undo _ := h.undo fun hst => by rw [hst] at hold; cases hold
  undone hst := by rw [hst] at hnew; cases hnew
  pooled _ := h.pooled hold
  held frame hframe := h.pooled hold frame (hhand frame hframe)
  filed _ _ hclean := h.filed hold (hchanged hclean) hclean

namespace Database

variable {s s' : Database T P D} {cs : List (Change T P D)} {t u : T} {p q : P}
  {st : Stage T P D} {init : P → D}

/-! ## The two values -/

/-- What the transactions that have committed left on the page. -/
def settled (init : P → D) (cs : List (Change T P D)) (s : Database T P D) (p : P) : D :=
  effects (fun u => (s.stage u).durable) init cs p

/-- The same with the changes of one more transaction. -/
def seen (init : P → D) (cs : List (Change T P D)) (s : Database T P D) (t : T) (p : P) : D :=
  effects (fun u => (s.stage u).durable || u = t) init cs p

omit [DecidableEq T] in
theorem settled_congr (h : ∀ u, Touched cs u p → (s'.stage u).durable = (s.stage u).durable) :
    settled init cs s' p = settled init cs s p :=
  effects_congr h

theorem seen_congr (h : ∀ u, Touched cs u p → (s'.stage u).durable = (s.stage u).durable) :
    seen init cs s' t p = seen init cs s t p :=
  effects_congr fun u hu => by rw [h u hu]

theorem seen_of_not_touched (h : ¬ Touched cs t p) : seen init cs s t p = settled init cs s p := by
  refine effects_congr fun u hu => ?_
  have hut : u ≠ t := by
    rintro rfl
    exact h hu
  simp [hut]

omit [DecidableEq P] in
theorem durable_update (hstage : s'.stage = update s.stage t st)
    (hst : st.durable = (s.stage t).durable) (u : T) :
    (s'.stage u).durable = (s.stage u).durable := by
  rcases stage_cases hstage u with ⟨rfl, heq⟩ | ⟨-, heq⟩ <;> rw [heq]
  exact hst

/-- What a transaction saw is what everybody sees once it has committed. -/
theorem settled_update (hstage : s'.stage = update s.stage t st) (hst : st.durable = true) :
    settled init cs s' p = seen init cs s t p := by
  refine effects_congr fun u _ => ?_
  rcases stage_cases hstage u with ⟨rfl, heq⟩ | ⟨hut, heq⟩
  · simp [heq, hst]
  · simp [heq, hut]

omit [DecidableEq T] in
/-- A change by an unfinished transaction is seen by that one alone. -/
theorem settled_snoc {change : D → D} (ht : (s.stage t).durable = false) :
    settled init (cs ++ [⟨t, p, change⟩]) s q = settled init cs s q := by
  rw [settled, effects_snoc]
  simp [ht, settled]

theorem seen_snoc {change : D → D} (ht : (s.stage t).durable = false) :
    seen init (cs ++ [⟨t, p, change⟩]) s u q =
      if p = q ∧ t = u then change (seen init cs s u q) else seen init cs s u q := by
  rw [seen, effects_snoc]
  simp [ht, seen]

/-! ## Where they are kept -/

variable [Inhabited D]

/-- What is in the file of a page, which before the page is created is as
good as an empty page. -/
def content (s : Database T P D) (p : P) : D := (s.files p).getD default

/-- No unfinished transaction has changed the page. -/
def Untouched (cs : List (Change T P D)) (s : Database T P D) (p : P) : Prop :=
  ∀ t, (s.stage t).live = true → ¬ Touched cs t p

/-- A page that a transaction in state `st` has changed, as pool, file and log
have it. -/
abbrev OwnedAt (init : P → D) (cs : List (Change T P D)) (s : Database T P D) (t : T) (p : P)
    (st : Stage T P D) : Prop :=
  Owned st p (s.pages p) (s.content p) (s.log.images t p) (settled init cs s p) (seen init cs s t p)

structure KeptAt (init : P → D) (cs : List (Change T P D)) (s : Database T P D) (p : P) : Prop where
  file : Untouched cs s p → s.content p = settled init cs s p
  pool : ∀ frame, Untouched cs s p → s.pages p = some frame →
    frame.data = settled init cs s p ∧ frame.before = settled init cs s p
  hand : ∀ t frame, Untouched cs s p → (s.stage t).hand = some (p, frame) →
    frame.data = settled init cs s p ∧ frame.before = settled init cs s p
  owned : ∀ t, (s.stage t).live = true → Touched cs t p → OwnedAt init cs s t p (s.stage t)

def Kept (init : P → D) (cs : List (Change T P D)) (s : Database T P D) : Prop :=
  ∀ p, KeptAt init cs s p

theorem kept_opened (files : P → Option D) :
    Kept (fun p => (files p).getD default) [] (opened files : Database T P D) := fun _ =>
  ⟨fun _ => rfl, fun _ _ h => (by cases h), fun _ _ _ h => (by cases h), fun _ h => (by cases h)⟩

/-- A page that nobody changes. The transactions that did may go on, and a
thread may get it from the pool. -/
theorem KeptAt.turn (h : KeptAt init cs s p) (hcontent : s'.content p = s.content p)
    (hpool : ∀ frame, s'.pages p = some frame → ∃ frame', s.pages p = some frame' ∧
      frame.data = frame'.data ∧ (frame.before = frame'.before ∨ frame.before = frame'.data))
    (hdurable : ∀ u, Touched cs u p → (s'.stage u).durable = (s.stage u).durable)
    (hlive : ∀ u, Touched cs u p → (s'.stage u).live = (s.stage u).live)
    (hhand : ∀ u frame, (s'.stage u).hand = some (p, frame) →
      (s.stage u).hand = some (p, frame) ∨ s.pages p = some frame)
    (howned : ∀ u, Touched cs u p → (s.stage u).live = true → OwnedAt init cs s u p (s.stage u) →
      Owned (s'.stage u) p (s'.pages p) (s.content p) (s'.log.images u p) (settled init cs s p)
        (seen init cs s u p)) : KeptAt init cs s' p := by
  have hsettled : settled init cs s' p = settled init cs s p := settled_congr hdurable
  have hfree : Untouched cs s' p → Untouched cs s p := fun hp u hu ht =>
    hp u ((hlive u ht).trans hu) ht
  refine ⟨fun hp => ?_, fun frame hp hframe => ?_, fun u frame hp hframe => ?_, fun u hu ht => ?_⟩
  · rw [hcontent, hsettled]
    exact h.file (hfree hp)
  · rw [hsettled]
    obtain ⟨frame', hframe', hdata, hbefore⟩ := hpool frame hframe
    obtain ⟨hdata', hbefore'⟩ := h.pool frame' (hfree hp) hframe'
    refine ⟨hdata.trans hdata', ?_⟩
    rcases hbefore with hbefore | hbefore
    · exact hbefore.trans hbefore'
    · exact hbefore.trans hdata'
  · rw [hsettled]
    rcases hhand u frame hframe with hframe | hframe
    · exact h.hand u frame (hfree hp) hframe
    · exact h.pool frame (hfree hp) hframe
  · rw [hlive u ht] at hu
    rw [OwnedAt, hcontent, hsettled, seen_congr hdurable]
    exact howned u ht hu (h.owned u hu ht)

theorem KeptAt.goesOn (h : KeptAt init cs s p) (hpages : s'.pages p = s.pages p)
    (hcontent : s'.content p = s.content p) (himages : ∀ u, s'.log.images u p = s.log.images u p)
    (hstage : s'.stage = update s.stage t st)
    (hdurable : st.durable = (s.stage t).durable)
    (hlive : Touched cs t p → st.live = (s.stage t).live)
    (hhand : ∀ frame, st.hand = some (p, frame) → s.pages p = some frame)
    (howned : Touched cs t p → OwnedAt init cs s t p (s.stage t) → OwnedAt init cs s t p st) :
    KeptAt init cs s' p := by
  refine h.turn hcontent (fun frame hframe => ⟨frame, hpages ▸ hframe, rfl, Or.inl rfl⟩)
    (fun u _ => durable_update hstage hdurable u) (fun u ht => ?_) (fun u frame hframe => ?_)
    fun u ht _ ho => ?_
  all_goals rcases stage_cases hstage u with ⟨rfl, heq⟩ | ⟨-, heq⟩
  · rw [heq, hlive ht]
  · rw [heq]
  · exact Or.inr (hhand frame (heq ▸ hframe))
  · exact Or.inl (heq ▸ hframe)
  · rw [hpages, himages, heq]
    exact howned ht ho
  · rw [hpages, himages, heq]
    exact ho

theorem KeptAt.congr (h : KeptAt init cs s p) (hpages : s'.pages p = s.pages p)
    (hcontent : s'.content p = s.content p) (himages : ∀ u, s'.log.images u p = s.log.images u p)
    (hstage : s'.stage = s.stage) : KeptAt init cs s' p := by
  refine h.turn hcontent (fun frame hframe => ⟨frame, hpages ▸ hframe, rfl, Or.inl rfl⟩)
    (fun _ _ => by rw [hstage]) (fun _ _ => by rw [hstage])
    (fun _ _ hframe => Or.inl (hstage ▸ hframe))
    fun u _ _ ho => ?_
  rw [hstage, hpages, himages]
  exact ho

theorem Kept.congr (h : Kept init cs s) (hpages : s'.pages = s.pages)
    (hcontent : ∀ p, s'.content p = s.content p)
    (himages : ∀ u p, s'.log.images u p = s.log.images u p) (hstage : s'.stage = s.stage) :
    Kept init cs s' :=
  fun p => (h p).congr (by rw [hpages]) (hcontent p) (himages · p) hstage

/-- A transaction goes on, and the pages are where they are. A page that it
gets is the one in the pool. -/
theorem Kept.thread (h : Kept init cs s) (hpages : s'.pages = s.pages)
    (hcontent : ∀ p, s'.content p = s.content p)
    (himages : ∀ u p, s'.log.images u p = s.log.images u p)
    (hstage : s'.stage = update s.stage t st)
    (hdurable : st.durable = (s.stage t).durable)
    (hlive : ∀ p, Touched cs t p → st.live = (s.stage t).live)
    (hold : (s.stage t).undoing = false) (hnew : st.undoing = false)
    (hhand : ∀ p frame, st.hand = some (p, frame) → s.pages p = some frame)
    (hchanged : ∀ p, (∀ frame, s.pages p = some frame → frame.dirty = none) →
      ∀ frame, s.stage t ≠ .changed p frame) : Kept init cs s' :=
  fun p => (h p).goesOn (by rw [hpages]) (hcontent p) (himages · p) hstage hdurable (hlive p)
    (hhand p) fun _ ho => ho.goesOn hold hnew (hhand p) (hchanged p)

theorem Kept.onPage (h : Kept init cs s) (hstage : s'.stage = s.stage)
    (hpages : ∀ q, q ≠ p → s'.pages q = s.pages q)
    (hcontent : ∀ q, q ≠ p → s'.content q = s.content q)
    (himages : ∀ u q, q ≠ p → s'.log.images u q = s.log.images u q)
    (hfree : Untouched cs s p → s'.content p = settled init cs s p ∧
      ∀ frame, s'.pages p = some frame →
        frame.data = settled init cs s p ∧ frame.before = settled init cs s p)
    (howned : ∀ u, (s.stage u).live = true → Touched cs u p →
      Owned (s.stage u) p (s'.pages p) (s'.content p) (s'.log.images u p) (settled init cs s p)
        (seen init cs s u p)) : Kept init cs s' := by
  have hsettled : settled init cs s' = settled init cs s := by unfold settled; rw [hstage]
  have hseen : seen init cs s' = seen init cs s := by unfold seen; rw [hstage]
  have huntouched : Untouched cs s' = Untouched cs s := by unfold Untouched; rw [hstage]
  intro q
  by_cases hqp : q = p
  · subst hqp
    refine ⟨fun hq => ?_, fun frame hq => ?_, fun u frame hq hframe => ?_, fun u hl ht => ?_⟩
    · rw [hsettled]
      exact (hfree (huntouched ▸ hq)).1
    · rw [hsettled]
      exact (hfree (huntouched ▸ hq)).2 frame
    · rw [hsettled]
      exact (h q).hand u frame (huntouched ▸ hq) (hstage ▸ hframe)
    · rw [OwnedAt, hsettled, hseen, hstage]
      exact howned u (hstage ▸ hl) ht
  · exact (h q).congr (hpages q hqp) (hcontent q hqp) (fun u => himages u q hqp) hstage

theorem Kept.load {x held : Bool} {data : D} (h : Kept init cs s) (hl : Locked cs s)
    (hst : s.stage t = .granted p x held) (hp : s.pages p = none) (hf : s.files p = some data) :
    Kept init cs { s with pages := update s.pages p (some ⟨data, none, data⟩) } := by
  have hdata : s.content p = data := by simp [content, hf]
  refine h.onPage (p := p) rfl (fun q hq => by simp [hq]) (fun _ _ => rfl) (fun _ _ _ => rfl)
    (fun hfree => ?_) fun u hu ht => ?_
  · have hsettled : data = settled init cs s p := hdata.symm.trans ((h p).file hfree)
    refine ⟨(h p).file hfree, fun frame hframe => ?_⟩
    simp only [update_self, Option.some.injEq] at hframe
    subst hframe
    exact ⟨hsettled, hsettled⟩
  · obtain rfl : t = u := hl.owner_of_access ht hu (by rw [hst]; rfl)
    obtain ⟨hundo, hundone, -, -, hfile⟩ := (h p).owned t hu ht
    have hseen : s.content p = seen init cs s t p :=
      hfile (by rw [hst]; rfl) (by simp [hst]) (by simp [hp])
    refine ⟨hundo, hundone, fun _ frame hframe => ?_, fun frame hframe => ?_, fun _ _ _ => hseen⟩
    · simp only [update_self, Option.some.injEq] at hframe
      subst hframe
      refine ⟨hdata.symm.trans hseen, fun himage => ?_⟩
      have := hundo (by simp [hst])
      rwa [himage, Option.getD_none, hdata] at this
    · rw [hst] at hframe
      cases hframe

theorem Kept.evictPage {frame : Frame T D} (h : Kept init cs s) (hp : s.pages p = some frame)
    (hclean : frame.dirty = none) :
    Kept init cs { s with pages := update s.pages p none } := by
  refine h.onPage (p := p) rfl (fun q hq => by simp [hq]) (fun _ _ => rfl) (fun _ _ _ => rfl)
    (fun hfree => ⟨(h p).file hfree, fun frame hframe => by simp at hframe⟩) fun u hu ht => ?_
  obtain ⟨hundo, hundone, -, hhand, hfile⟩ := (h p).owned u hu ht
  refine ⟨hundo, hundone, fun _ frame hframe => by simp at hframe, hhand, fun hun hch _ => ?_⟩
  refine hfile hun hch fun frame' hframe' => ?_
  rw [hp] at hframe'
  cases hframe'
  exact hclean

theorem Kept.putBack {frame : Frame T D} (h : Kept init cs s) (hl : Locked cs s)
    (hd : Dirtied cs s) (hst : s.stage t = .changed p frame) :
    Kept init cs { s with
      pages := update s.pages p (some { frame with dirty := some t }) } := by
  have hlive : (s.stage t).live = true := by rw [hst]; rfl
  have htouched := hd.changed t p frame hst
  refine h.onPage (p := p) rfl (fun q hq => by simp [hq]) (fun _ _ => rfl) (fun _ _ _ => rfl)
    (fun hfree => absurd htouched (hfree t hlive)) fun u hu ht => ?_
  obtain rfl : t = u := hl.owner_unique ht hu htouched hlive
  obtain ⟨hundo, hundone, -, hhand, hfile⟩ := (h p).owned t hu ht
  refine ⟨hundo, hundone, fun _ f hf => ?_, hhand, fun _ hch => ?_⟩
  · simp only [update_self, Option.some.injEq] at hf
    subst hf
    exact hhand frame (by rw [hst]; rfl)
  · exact absurd hst (hch frame)

omit [DecidableEq T] [DecidableEq P] [Inhabited D] in
theorem Guarded.not_undoing {tid : Option T} {logged : Option P} (h : s.Guarded)
    (hm : s.monitor = .flush tid logged) (hu : s.stage u ≠ .aborting) :
    (s.stage u).undoing = false := by
  have hroll : s.stage u ≠ .rollingBack := fun hst => by
    rw [h.rollingBack u, hm] at hst
    cases hst
  cases hst : s.stage u <;> first | rfl | exact absurd hst hroll | exact absurd hst hu

theorem Kept.logUpdate {tid : Option T} {frame : Frame T D} (h : Kept init cs s)
    (hg : s.Guarded) (hlog : Logged cs s) (hm : s.monitor = .flush tid none)
    (hp : s.pages p = some frame) (hdirty : frame.dirty = some u)
    (hu : s.stage u ≠ .aborting) (hl : Locked cs s) (hd : Dirtied cs s) :
    Kept init cs { s with
      log := s.log.logWrite u p frame.before frame.data
      monitor := .flush tid (some p) } := by
  obtain ⟨hlive, htouched⟩ := hd.dirty p frame u hp hdirty
  refine h.onPage (p := p) rfl (fun _ _ => rfl) (fun _ _ => rfl) (fun w q hq => ?_)
    (fun hfree => absurd htouched (hfree u hlive)) fun w hw ht => ?_
  · rw [hlog.sound.images_logWrite]
    simp [Ne.symm hq]
  · obtain rfl : u = w := hl.owner_unique ht hw htouched hlive
    obtain ⟨hundo, hundone, hpool, hhand, hfile⟩ := (h p).owned u hw ht
    have hnot : (s.stage u).undoing = false := hg.not_undoing hm hu
    have himage : s.log.images u p = none → frame.before = settled init cs s p :=
      (hpool hnot frame hp).2
    have hlogged : (s.log.logWrite u p frame.before frame.data).images u p =
        some ((s.log.images u p).getD frame.before) := by
      rw [hlog.sound.images_logWrite]
      cases s.log.images u p <;> simp
    refine ⟨fun hst => ?_, fun hst => absurd hst hu, fun _ f hf => ?_, fun f hf => ?_, hfile⟩
    · rw [hlogged, Option.getD_some]
      cases hi : s.log.images u p with
      | none => exact himage hi
      | some d =>
        have := hundo hst
        rwa [hi] at this
    · exact ⟨(hpool hnot f hf).1, fun hi => by rw [hlogged] at hi; cases hi⟩
    · exact ⟨(hhand f hf).1, fun hi => by rw [hlogged] at hi; cases hi⟩

theorem Kept.writePage {tid : Option T} {frame : Frame T D} (h : Kept init cs s)
    (hg : s.Guarded) (hm : s.monitor = .flush tid (some p)) (hp : s.pages p = some frame)
    (hl : Locked cs s) (hd : Dirtied cs s) :
    Kept init cs { s with
      files := update s.files p (some frame.data)
      pages := update s.pages p (some { frame with dirty := none })
      monitor := .flush tid none } := by
  obtain ⟨frame', u, hp', hdirty, hu, himage⟩ := hd.logged tid p hm
  obtain rfl : frame' = frame := by
    rw [hp] at hp'
    exact (Option.some.inj hp').symm
  obtain ⟨hlive, htouched⟩ := hd.dirty p frame' u hp hdirty
  obtain ⟨image, himage⟩ := Option.isSome_iff_exists.mp himage
  have hnot : (s.stage u).undoing = false := hg.not_undoing hm hu
  refine h.onPage (p := p) rfl (fun q hq => by simp [hq]) (fun q hq => by simp [content, hq])
    (fun _ _ _ => rfl) (fun hfree => absurd htouched (hfree u hlive)) fun w hw ht => ?_
  obtain rfl : u = w := hl.owner_unique ht hw htouched hlive
  obtain ⟨hundo, hundone, hpool, hhand, hfile⟩ := (h p).owned u hw ht
  rw [himage] at hundo hpool hhand ⊢
  refine ⟨hundo, fun hst => absurd hst hu, fun _ f hf => ?_, hhand, fun _ _ _ => ?_⟩
  · simp only [update_self, Option.some.injEq] at hf
    subst hf
    exact ⟨(hpool hnot frame' hp).1, fun hi => by cases hi⟩
  · simp only [content, update_self, Option.getD_some]
    exact (hpool hnot frame' hp).1

theorem Kept.restorePage {image : D} (h : Kept init cs s) (hg : s.Guarded) (hlog : Logged cs s)
    (hl : Locked cs s) (hm : s.monitor = .rollback t)
    (himage : s.log.beforeImages t p = some image) :
    Kept init cs { s with
      pages := update s.pages p none
      files := update s.files p (some image) } := by
  have hst : s.stage t = .rollingBack := (hg.rollingBack t).mpr hm
  have hlive : (s.stage t).live = true := by rw [hst]; rfl
  rw [hlog.sound.beforeImages (hlog.listed t (by rw [hst]; rfl))] at himage
  have htouched : Touched cs t p := hlog.sound.touched t p (by rw [himage]; rfl)
  refine h.onPage (p := p) rfl (fun q hq => by simp [hq]) (fun q hq => by simp [content, hq])
    (fun _ _ _ => rfl) (fun hfree => absurd htouched (hfree t hlive)) fun u hu ht => ?_
  obtain rfl : t = u := hl.owner_unique ht hu htouched hlive
  have hundo := ((h p).owned t hu ht).undo (by simp [hst])
  rw [hst]
  rw [himage] at hundo ⊢
  exact ⟨fun _ => hundo, fun hne => (by cases hne), fun hne => (by cases hne),
    fun _ hne => (by cases hne), fun hne => (by cases hne)⟩

/-- A thread reads its own changes after everything that is settled. The page
it holds is its own to change or shared by readers only, so no other
unfinished transaction has touched it. -/
theorem Kept.read {frame : Frame T D} (h : Kept init cs s) (hl : Locked cs s)
    (hlive : (s.stage t).live = true) (hframe : (s.stage t).hand = some (p, frame)) :
    frame.data = seen init cs s t p := by
  by_cases ht : Touched cs t p
  · exact (((h p).owned t hlive ht).held frame hframe).1
  · rw [seen_of_not_touched ht]
    refine ((h p).hand t frame (fun u hu hut => ?_) hframe).1
    obtain ⟨x, hx⟩ := Stage.access_of_hand hframe
    obtain rfl := hl.owner_of_access hut hu hx
    exact ht hut

/-- A change of another page. -/
theorem KeptAt.snoc {change : D → D} (h : KeptAt init cs s q) (hqp : q ≠ p) :
    KeptAt init (cs ++ [⟨t, p, change⟩]) s q := by
  have htouched : ∀ u, Touched (cs ++ [⟨t, p, change⟩]) u q ↔ Touched cs u q := fun u => by
    simp [touched_snoc, Ne.symm hqp]
  have hsettled : settled init (cs ++ [⟨t, p, change⟩]) s q = settled init cs s q := by
    simp [settled, effects_snoc, Ne.symm hqp]
  have hseen : ∀ u, seen init (cs ++ [⟨t, p, change⟩]) s u q = seen init cs s u q := fun u => by
    simp [seen, effects_snoc, Ne.symm hqp]
  have hfree : Untouched (cs ++ [⟨t, p, change⟩]) s q ↔ Untouched cs s q := by
    simp only [Untouched, htouched]
  constructor
  · rw [hfree, hsettled]
    exact h.file
  · rw [hfree, hsettled]
    exact h.pool
  · rw [hfree, hsettled]
    exact h.hand
  · intro u hu ht
    rw [OwnedAt, hsettled, hseen]
    exact h.owned u hu ((htouched u).mp ht)

/-- What is known of a page before it is changed, whether or not it was
changed already. -/
theorem Kept.before {held : Bool} {frame : Frame T D} (h : Kept init cs s) (hl : Locked cs s)
    (hlog : Logged cs s) (hst : s.stage t = .page p true held frame) :
    (s.log.images t p).getD (s.content p) = settled init cs s p ∧
      (∀ f, s.pages p = some f → s.log.images t p = none → f.before = settled init cs s p) ∧
      (s.log.images t p = none → frame.before = settled init cs s p) := by
  have hlive : (s.stage t).live = true := by rw [hst]; rfl
  have hhand : (s.stage t).hand = some (p, frame) := by rw [hst]; rfl
  by_cases ht : Touched cs t p
  · have howned := (h p).owned t hlive ht
    exact ⟨howned.undo (by simp [hst]),
      fun f hf hi => (howned.pooled (by rw [hst]; rfl) f hf).2 hi,
      fun hi => (howned.held frame hhand).2 hi⟩
  · have hfree : Untouched cs s p := fun u hu hut => by
      obtain rfl : t = u := hl.owner_of_access hut hu (by rw [hst]; rfl)
      exact ht hut
    have himage : s.log.images t p = none :=
      Option.not_isSome_iff_eq_none.mp fun hi => ht (hlog.sound.touched t p hi)
    refine ⟨?_, fun f hf _ => ((h p).pool f hfree hf).2,
      fun _ => ((h p).hand t frame hfree hhand).2⟩
    rw [himage]
    exact (h p).file hfree

theorem Kept.modify {held : Bool} {frame : Frame T D} {change : D → D} (h : Kept init cs s)
    (hl : Locked cs s) (hlog : Logged cs s) (hst : s.stage t = .page p true held frame)
    (hcontent : ∀ p, s'.content p = s.content p) (hlog' : s'.log = s.log)
    (hpages : s'.pages = update s.pages p
      ((s.pages p).map fun pooled => { pooled with data := change frame.data }))
    (hstage : s'.stage = update s.stage t
      (.changed p { frame with data := change frame.data })) :
    Kept init (cs ++ [⟨t, p, change⟩]) s' := by
  intro q
  by_cases hqp : q = p
  · subst hqp
    have hlive : (s.stage t).live = true := by rw [hst]; rfl
    have hnot : (s.stage t).durable = false := by rw [hst]; rfl
    have hdata : frame.data = seen init cs s t q := h.read hl hlive (by rw [hst]; rfl)
    have hdurable : ∀ u, (s'.stage u).durable = (s.stage u).durable :=
      durable_update hstage (by rw [hst]; rfl)
    have hself : s'.stage t = .changed q { frame with data := change frame.data } := by
      rw [hstage, update_self]
    have hfree : ¬ Untouched (cs ++ [⟨t, q, change⟩]) s' q := fun hq =>
      hq t (by rw [hself]; rfl) (touched_snoc.mpr (Or.inr ⟨rfl, rfl⟩))
    refine ⟨fun hq => absurd hq hfree, fun _ hq => absurd hq hfree, fun _ _ hq => absurd hq hfree,
      fun u hu hut => ?_⟩
    -- nobody else has changed the page
    obtain rfl : u = t := by
      by_contra hne
      rw [hstage, update_of_ne hne] at hu
      rcases touched_snoc.mp hut with hut | ⟨htu, -⟩
      · exact hne (hl.owner_of_access hut hu (by rw [hst]; rfl)).symm
      · exact hne htu.symm
    obtain ⟨hundo, hpool, hhand⟩ := h.before hl hlog hst
    rw [OwnedAt, settled_congr fun u _ => hdurable u, settled_snoc hnot,
      seen_congr fun u _ => hdurable u, seen_snoc hnot, if_pos ⟨rfl, rfl⟩, ← hdata, hself, hcontent,
      hlog', hpages, update_self]
    refine ⟨fun _ => hundo, fun hne => (by cases hne), fun _ f hf => ?_, fun f hf => ?_,
      fun _ hch _ => absurd rfl (hch _)⟩
    · obtain ⟨f', hf', rfl⟩ := Option.map_eq_some_iff.mp hf
      exact ⟨rfl, hpool f' hf'⟩
    · cases hf
      exact ⟨rfl, hhand⟩
  · have hother : ∀ {f g : Frame T D}, (Stage.changed p g : Stage T P D).hand ≠ some (q, f) := by
      rintro f g ⟨⟩
      exact hqp rfl
    refine ((h q).snoc hqp).goesOn (by rw [hpages, update_of_ne hqp]) (hcontent q)
      (fun _ => by rw [hlog']) hstage (by rw [hst]; rfl) (fun _ => by rw [hst]; rfl)
      (fun f hf => absurd hf hother) fun _ ho => ?_
    exact ho.goesOn (by rw [hst]; rfl) rfl (fun f hf => absurd hf hother) fun _ f => by simp [hst]

/-- A transaction comes to its rollback, or the rollback to its end. The
pages are where they are. -/
theorem Kept.undoing (h : Kept init cs s) (hpages : s'.pages = s.pages)
    (hfiles : s'.files = s.files)
    (himages : ∀ u p, s'.log.images u p = s.log.images u p)
    (hstage : s'.stage = update s.stage t st)
    (hdurable : (s.stage t).durable = false) (hlive : (s.stage t).live = true)
    (hst : st.undoing = true)
    (hundo : ∀ p, Touched cs t p → (st ≠ .aborting → s.stage t ≠ .aborting) ∧
      (st = .aborting → s.content p = settled init cs s p)) : Kept init cs s' := by
  have hnew : st.durable = false ∧ st.live = true ∧ st.hand = none := by
    cases st <;> first | exact ⟨rfl, rfl, rfl⟩ | cases hst
  obtain ⟨hnewDurable, hnewLive, hnewHand⟩ := hnew
  refine fun p => (h p).goesOn (by rw [hpages]) (by rw [content, hfiles]; rfl) (himages · p) hstage
    (hnewDurable.trans hdurable.symm) (fun _ => hnewLive.trans hlive.symm)
    (fun frame hf => by rw [hnewHand] at hf; cases hf) fun ht ho => ?_
  exact ⟨fun hne => ho.undo ((hundo p ht).1 hne), (hundo p ht).2,
    fun hne => (by rw [hst] at hne; cases hne), fun f hf => (by rw [hnewHand] at hf; cases hf),
    fun hne => by rw [hst] at hne; cases hne⟩

theorem Kept.appendAbort (h : Kept init cs s) (hg : s.Guarded) (hlog : Logged cs s)
    (hm : s.monitor = .rollback t) (hback : s.RolledBack t) :
    Kept init cs { s.setStage t .aborting with log := s.log.appendAbort t, monitor := .free } := by
  have hst : s.stage t = .rollingBack := (hg.rollingBack t).mpr hm
  have hlive : (s.stage t).live = true := by rw [hst]; rfl
  refine h.undoing rfl rfl (hlog.sound.images_appendAbort t) rfl (by rw [hst]; rfl) hlive rfl
    fun p ht => ⟨fun hne => absurd rfl hne, fun _ => ?_⟩
  have hundo := ((h p).owned t hlive ht).undo (by simp [hst])
  have hback := hback p
  rw [hlog.sound.beforeImages (hlog.listed t (by rw [hst]; rfl))] at hback
  cases hi : s.log.images t p with
  | none => rwa [hi] at hundo
  | some image =>
    rw [hi] at hundo hback
    rw [content, (hback rfl).1]
    exact hundo

/-- What a transaction that leaves the pool has to leave there: what every
page then reads, in its file and in the pool. -/
theorem Kept.finish (h : Kept init cs s) (hl : Locked cs s) (hlive : (s.stage t).live = true)
    (hstage : s'.stage = update s.stage t st) (hlive' : st.live = false)
    (hhand : st.hand = none) (hcontent : ∀ p, s'.content p = s.content p)
    (himages : ∀ u p, s'.log.images u p = s.log.images u p)
    (hothers : ∀ p, s.threads.manager.pagesHeldBy t p = false → s'.pages p = s.pages p)
    (hpool : ∀ p frame, s'.pages p = some frame → ∃ frame', s.pages p = some frame' ∧
      frame.data = frame'.data ∧ (frame.before = frame'.before ∨ frame.before = frame'.data))
    (hown : ∀ p, Touched cs t p → s.content p = settled init cs s' p ∧
      ∀ frame, s'.pages p = some frame →
        frame.data = settled init cs s' p ∧ frame.before = settled init cs s' p) :
    Kept init cs s' := by
  have hself : s'.stage t = st := by rw [hstage, update_self]
  have hothers' : ∀ {u}, u ≠ t → s'.stage u = s.stage u := fun hut => by
    rw [hstage, update_of_ne hut]
  intro p
  by_cases ht : Touched cs t p
  · refine ⟨fun _ => (hcontent p).trans (hown p ht).1, fun frame _ => (hown p ht).2 frame,
      fun u frame _ hframe => ?_, fun u hu hup => ?_⟩
    · have hut : u ≠ t := by
        rintro rfl
        rw [hself, hhand] at hframe
        cases hframe
      rw [hothers' hut] at hframe
      obtain ⟨x, hx⟩ := Stage.access_of_hand hframe
      exact absurd (hl.owner_of_access ht hlive hx) hut
    · have hut : u ≠ t := by
        rintro rfl
        rw [hself, hlive'] at hu
        cases hu
      rw [hothers' hut] at hu
      exact absurd (hl.owner_unique ht hlive hup hu) hut
  · -- pages of other transactions are as they were
    have hne : ∀ {u}, Touched cs u p → u ≠ t := by
      rintro u hu rfl
      exact ht hu
    refine (h p).turn (hcontent p) (hpool p) (fun u hu => by rw [hothers' (hne hu)])
      (fun u hu => by rw [hothers' (hne hu)]) (fun u frame hframe => ?_) fun u hup hu ho => ?_
    · have hut : u ≠ t := by
        rintro rfl
        rw [hself, hhand] at hframe
        cases hframe
      exact Or.inl (hothers' hut ▸ hframe)
    · have hheld : s.threads.manager.pagesHeldBy t p = false := by
        refine Bool.eq_false_iff.mpr fun hheld => hne hup ?_
        have hmem : t ∈ s.threads.manager.holders p := by
          simpa [LockManager.pagesHeldBy, LockManager.holdsLock] using hheld
        exact (hl.sole (hl.owner u p hup hu) (x := false) ⟨hmem, fun hx => by cases hx⟩).symm
      rw [hothers' (hne hup), hothers p hheld, himages]
      exact ho

theorem Kept.release (h : Kept init cs s) (hg : s.Guarded) (hl : Locked cs s) (hd : Dirtied cs s)
    (hm : s.monitor = .flush (some t) none) (hclean : s.Flushed (some t)) :
    Kept init cs { s.setStage t .released with
      pages := fun p =>
        if s.threads.manager.pagesHeldBy t p then
          (s.pages p).map fun frame => { frame with before := frame.data }
        else s.pages p
      threads := s.threads.step (.releaseAll t)
      monitor := .free } := by
  have hst : s.stage t = .committing := hg.committing t none hm
  have hlive : (s.stage t).live = true := by rw [hst]; rfl
  refine h.finish (t := t) hl hlive rfl rfl rfl (fun _ => rfl) (fun _ _ => rfl)
    (fun p hp => by simp [hp]) (fun p frame hframe => ?_) fun p ht => ?_
  · simp only at hframe
    split at hframe
    · obtain ⟨frame', hframe', rfl⟩ := Option.map_eq_some_iff.mp hframe
      exact ⟨frame', hframe', rfl, Or.inr rfl⟩
    · exact ⟨frame, hframe, rfl, Or.inl rfl⟩
  · have howned := (h p).owned t hlive ht
    rw [settled_update rfl rfl]
    refine ⟨howned.filed (by rw [hst]; rfl) (by simp [hst]) fun frame hframe => ?_,
      fun frame hframe => ?_⟩
    · cases hu : frame.dirty with
      | none => rfl
      | some u =>
        obtain ⟨hulive, hutouched⟩ := hd.dirty p frame u hframe hu
        obtain rfl := hl.owner_unique ht hlive hutouched hulive
        exact absurd hu (not_dirty_of_flushed hclean hframe)
    · simp only [hl.pagesHeldBy ht hlive, if_true] at hframe
      obtain ⟨frame', hframe', rfl⟩ := Option.map_eq_some_iff.mp hframe
      have hdata := (howned.pooled (by rw [hst]; rfl) frame' hframe').1
      exact ⟨hdata, hdata⟩

theorem Kept.discard (h : Kept init cs s) (hl : Locked cs s) (hst : s.stage t = .aborting) :
    Kept init cs { s.setStage t .aborted with
      pages := fun p => if s.threads.manager.pagesHeldBy t p then none else s.pages p
      threads := s.threads.step (.releaseAll t) } := by
  have hlive : (s.stage t).live = true := by rw [hst]; rfl
  refine h.finish (t := t) hl hlive rfl rfl rfl (fun _ => rfl) (fun _ _ => rfl)
    (fun p hp => by simp [hp]) (fun p frame hframe => ?_) fun p ht => ⟨?_, fun frame hframe => ?_⟩
  · simp only at hframe
    split at hframe
    · cases hframe
    · exact ⟨frame, hframe, rfl, Or.inl rfl⟩
  · rw [((h p).owned t hlive ht).undone hst]
    exact (settled_congr fun u _ => durable_update rfl (by rw [hst]; rfl) u).symm
  · simp [hl.pagesHeldBy ht hlive] at hframe

theorem Kept.moves (h : Kept init cs s) (hg : s.Guarded) (hl : Locked cs s) (hlog : Logged cs s)
    (hd : Dirtied cs s) {e : Event T P D} (hq : s.Quiet e) (hmoves : Moves s e s') :
    Kept init (cs ++ e.change.toList) s' := by
  -- a thread goes on and gets no page
  have goes : ∀ {t st st'}, s.stage t = st → st.undoing = false → st.durable = false →
      st.live = true → (∀ p frame, st ≠ .changed p frame) →
      st'.undoing = false → st'.durable = false → st'.live = true → st'.hand = none →
      ∀ {s' : Database T P D}, s'.pages = s.pages → s'.files = s.files → s'.log = s.log →
      s'.stage = update s.stage t st' → Kept init cs s' := by
    rintro t _ st' rfl h₁ h₂ h₃ h₄ h₅ h₆ h₇ h₈ s' hpages hfiles hlog hstage
    refine h.thread hpages (fun p => ?_) (fun u p => by rw [hlog]) hstage (h₆.trans h₂.symm)
      (fun p _ => h₇.trans h₃.symm) h₁ h₅ (fun p frame hframe => ?_) fun p _ => h₄ p
    · rw [content, hfiles]
      rfl
    · rw [h₈] at hframe
      cases hframe
  cases hmoves <;>
    simp only [Event.change, Option.toList_none, Option.toList_some, List.append_nil]
  case start t hst =>
    exact h.thread (t := t) rfl (fun _ => rfl) (hlog.sound.images_logXactionBegin t) rfl
      (by rw [hst]; rfl) (fun p ht => absurd ht (hl.unstarted t p hst)) (by rw [hst]; rfl) rfl
      (fun _ _ hf => by cases hf) fun p _ => by simp [hst]
  case getPage hst =>
    rcases hst with hst | ⟨_, _, _, _, hst⟩
    all_goals exact goes hst rfl rfl rfl (by simp) rfl rfl rfl rfl rfl rfl rfl rfl
  case acquire t p x held hst =>
    cases ho : (s.threads.manager.acquireRound t p x).1
    all_goals exact goes hst rfl rfl rfl (by simp) rfl rfl rfl rfl rfl rfl rfl rfl
  case interrupt hst | missing hst _ _ | leave hst | unsafeReleasePage hst | complete hst _ =>
    exact goes hst rfl rfl rfl (by simp) rfl rfl rfl rfl rfl rfl rfl rfl
  case fetch t p x held frame hst hfree hp =>
    refine h.thread (t := t) rfl (fun _ => rfl) (fun _ _ => rfl) rfl (by rw [hst]; rfl)
      (fun _ _ => by rw [hst]; rfl) (by rw [hst]; rfl) rfl (fun q f hf => ?_)
      fun q _ => by simp [hst]
    cases hf
    exact hp
  case read t p x held data hst hfree hp hf =>
    refine (h.load hl hst hp hf).thread (t := t) rfl (fun _ => rfl) (fun _ _ => rfl) rfl
      (by simp only [hst]; rfl) (fun _ _ => by simp only [hst]; rfl) (by simp only [hst]; rfl) rfl
      (fun q f hf => ?_) fun q _ => by simp [hst]
    cases hf
    simp
  case fail hst =>
    rcases hst with ⟨_, _, _, hst⟩ | ⟨_, _, _, _, hst⟩
    all_goals exact goes hst rfl rfl rfl (by simp) rfl rfl rfl rfl rfl rfl rfl rfl
  case evictPage hp hclean _ => exact h.evictPage hp hclean
  case modify hst => exact h.modify hl hlog hst (fun _ => rfl) rfl rfl rfl
  case markDirty t p frame hst hfree =>
    refine (h.putBack hl hd hst).thread (t := t) rfl (fun _ => rfl) (fun _ _ => rfl) rfl
      (by simp only [hst]; rfl) (fun _ _ => by simp only [hst]; rfl) (by simp only [hst]; rfl) rfl
      (fun q f hf => by cases hf) fun q hclean f hf => ?_
    simp only [hst, Stage.changed.injEq] at hf
    obtain ⟨rfl, -⟩ := hf
    have := hclean _ (by simp only [update_self]; rfl)
    cases this
  case createPage t p hst hf =>
    refine h.congr rfl (fun q => ?_) (fun _ _ => rfl) rfl
    by_cases hqp : q = p
    · subst hqp
      simp [content, hf]
    · simp [content, hqp]
  case logUpdate hm hp hdirty hu =>
    exact h.logUpdate hg hlog hm hp hdirty (hq.2 _ _ hp hdirty) hl hd
  case writePage hm hp => exact h.writePage hg hm hp hl hd
  case logCheckpoint => exact absurd rfl hq.1
  case release hm hclean => exact h.release hg hl hd hm hclean
  case logCommit t hst =>
    exact h.thread (t := t) rfl (fun _ => rfl) (hlog.sound.images_logCommit t) rfl
      (by rw [hst]; rfl) (fun _ _ => by rw [hst]; rfl) (by rw [hst]; rfl) rfl
      (fun _ _ hf => by cases hf) fun p _ => by simp [hst]
  case logAbort t hst _ =>
    have hstage : (s.stage t).durable = false ∧ (s.stage t).live = true ∧
        s.stage t ≠ .aborting := by
      rcases hst with hst | hst <;> simp [hst, Stage.durable, Stage.live]
    exact h.undoing rfl rfl (fun _ _ => by rw [hlog.sound.preAppend]) rfl hstage.1 hstage.2.1 rfl
      fun _ _ => ⟨fun _ => hstage.2.2, fun hne => by cases hne⟩
  case restorePage hm himage => exact h.restorePage hg hlog hl hm himage
  case appendAbort hm hback => exact h.appendAbort hg hlog hm hback
  case discard hst _ => exact h.discard hl hst
  all_goals exact h.congr rfl (fun _ => rfl) (fun _ _ => rfl) rfl

/-! ## Every run -/

/-- What holds in every state. -/
structure Sound (init : P → D) (cs : List (Change T P D)) (s : Database T P D) : Prop where
  guarded : s.Guarded
  locked : Locked cs s
  logged : Logged cs s
  dirtied : Dirtied cs s
  kept : Kept init cs s

theorem Sound.moves (h : Sound init cs s) {e : Event T P D} (hq : s.Quiet e)
    (hmoves : Moves s e s') : Sound init (cs ++ e.change.toList) s' where
  guarded := h.guarded.moves hmoves
  locked := h.locked.moves h.guarded hmoves
  logged := h.logged.moves h.locked h.dirtied hq hmoves
  dirtied := h.dirtied.moves h.locked h.logged hq hmoves
  kept := h.kept.moves h.guarded h.locked h.logged h.dirtied hq hmoves

theorem sound_opened (files : P → Option D) :
    Sound (fun p => (files p).getD default) [] (opened files : Database T P D) where
  guarded := guarded_opened files
  locked := locked_opened files
  logged := logged_opened files
  dirtied := dirtied_opened files
  kept := kept_opened files

theorem Run.sound {files : P → Option D} {es : List (Event T P D)}
    (hrun : Run Quiet (opened files) es s) :
    Sound (fun p => (files p).getD default) (changes es) s := by
  induction hrun with
  | nil => exact sound_opened files
  | snoc _ he hq ih =>
    rw [changes_snoc]
    exact ih.moves hq (moves_of_allowed he)

/-- What `getPage` gives for a page. -/
def current (s : Database T P D) (p : P) : D := ((s.pages p).map Frame.data).getD (s.content p)

/-- The changes of everybody else. -/
def without (t : T) (cs : List (Change T P D)) : List (Change T P D) :=
  cs.filter fun c => c.author ≠ t

/-- What the pages read as: in every hand and in the pool what has been
committed, with the transaction's own changes where one is under way. -/
structure Shows (init : P → D) (cs : List (Change T P D)) (s : Database T P D) : Prop where
  hand : ∀ t p frame, (s.stage t).hand = some (p, frame) → frame.data = seen init cs s t p
  idle : ∀ t p, s.stage t = .idle → Touched cs t p → s.current p = seen init cs s t p
  settled : ∀ p, Untouched cs s p →
    s.current p = settled init cs s p ∧ s.content p = settled init cs s p

omit [DecidableEq T] [DecidableEq P] [Inhabited D] in
theorem live_of_hand {frame : Frame T D} (h : (s.stage t).hand = some (p, frame)) :
    (s.stage t).live = true := by
  cases hst : s.stage t <;> rw [hst] at h <;> first | rfl | cases h

theorem Sound.shows (h : Sound init cs s) : Shows init cs s where
  hand t p frame hframe := h.kept.read h.locked (live_of_hand hframe) hframe
  idle t p hst ht := by
    have howned := (h.kept p).owned t (by rw [hst]; rfl) ht
    cases hp : s.pages p with
    | some frame =>
      simp only [current, hp, Option.map_some, Option.getD_some]
      exact (howned.pooled (by rw [hst]; rfl) frame hp).1
    | none =>
      simp only [current, hp, Option.map_none, Option.getD_none]
      exact howned.filed (by rw [hst]; rfl) (by simp [hst]) (by simp [hp])
  settled p hp := by
    refine ⟨?_, (h.kept p).file hp⟩
    cases hpage : s.pages p with
    | some frame =>
      simp only [current, hpage, Option.map_some, Option.getD_some]
      exact ((h.kept p).pool frame hp hpage).1
    | none =>
      simp only [current, hpage, Option.map_none, Option.getD_none]
      exact (h.kept p).file hp

/-- An aborted transaction might as well never have been: none of its changes
is settled, and nobody else sees them. -/
theorem Shows.without (h : Shows init cs s) (hst : s.stage t = .aborted) :
    Shows init (without t cs) s := by
  have hsettled : ∀ p, Database.settled init (Database.without t cs) s p =
      Database.settled init cs s p := fun p => by
    refine effects_filter (fun a => a ≠ t) fun u hu => ?_
    have hut : u ≠ t := by
      rintro rfl
      rw [hst] at hu
      cases hu
    simpa using hut
  have hseen : ∀ u p, u ≠ t → seen init (Database.without t cs) s u p = seen init cs s u p := by
    intro u p hut
    refine effects_filter (fun a => a ≠ t) fun w hw => ?_
    have hwt : w ≠ t := by
      rintro rfl
      simp [hst, Stage.durable, Ne.symm hut] at hw
    simpa using hwt
  have htouched : ∀ {u p}, u ≠ t → (Touched (Database.without t cs) u p ↔ Touched cs u p) := by
    intro u p hut
    constructor
    · rintro ⟨c, hc, rfl, rfl⟩
      exact ⟨c, (List.mem_filter.mp hc).1, rfl, rfl⟩
    · rintro ⟨c, hc, rfl, rfl⟩
      exact ⟨c, List.mem_filter.mpr ⟨hc, by simpa using hut⟩, rfl, rfl⟩
  have hlive : ∀ {u}, (s.stage u).live = true → u ≠ t := by
    rintro u hu rfl
    rw [hst] at hu
    cases hu
  refine ⟨fun u p frame hframe => ?_, fun u p hu ht => ?_, fun p hp => ?_⟩
  · rw [hseen u p (hlive (live_of_hand hframe))]
    exact h.hand u p frame hframe
  · have hut : u ≠ t := hlive (by rw [hu]; rfl)
    rw [hseen u p hut]
    exact h.idle u p hu ((htouched hut).mp ht)
  · rw [hsettled]
    exact h.settled p fun u hu ht => hp u hu ((htouched (hlive hu)).mpr ht)

end Database

end Corestack.Simpledb
