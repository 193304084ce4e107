import Corestack.Simpledb.Isolation
import Corestack.Simpledb.StatementSession

/-!
# Sessions and their transactions

Every session has at most one transaction, and no two the same. Where a
session is in its code says how far its transaction can be: this holds in
every state of every run, however the sessions take turns, and with it the
pages are kept as `Isolation` has them. No session calls `flushAllPages`;
a commit flushes its own pages only.
-/

namespace Corestack.Simpledb

open Function Lib

/-! ## The transaction of a session -/

namespace Stage

variable {T P D : Type}

def working : Stage T P D → Bool
  | .idle | .acquiring .. | .granted .. | .page .. | .changed .. | .failed => true
  | _ => false

def leaving : Stage T P D → Bool
  | .idle | .committing | .released | .committed => true
  | _ => false

def withdrawn : Stage T P D → Bool
  | .idle | .failed | .rollingBack | .aborting | .aborted => true
  | _ => false

end Stage

namespace Database

variable {T P D : Type} [DecidableEq T] [DecidableEq P] [Inhabited D] {s s' : Database T P D}
  {e : Event T P D} {t u : T}

theorem Moves.works (hmoves : Moves s e s') (he : e.Reads t ∨ e.Writes t)
    (hst : (s.stage t).working = true) :
    (s'.stage t).working = true ∧ ∀ u, u ≠ t → s'.stage u = s.stage u := by
  cases hmoves <;> simp only [Event.Reads, Event.Writes, or_false, false_or, or_self] at he
  case createPage => exact ⟨hst, fun _ _ => rfl⟩
  case acquire t p x held hst =>
    subst he
    refine ⟨?_, fun u hu => by simp [hu]⟩
    cases ho : (s.threads.manager.acquireRound t p x).1 <;> simp [Stage.afterRound, Stage.working]
  all_goals
    subst he
    exact ⟨by simp [setStage, Stage.working], fun u hu => by simp [setStage, hu]⟩

theorem Moves.commits (hmoves : Moves s e s') (he : e.Commits t s.monitor)
    (hst : (s.stage t).leaving = true) :
    (s'.stage t).leaving = true ∧ ∀ u, u ≠ t → s'.stage u = s.stage u := by
  cases hmoves <;> simp only [Event.Commits] at he
  case logUpdate | writePage | writeNothing => exact ⟨hst, fun _ _ => rfl⟩
  all_goals
    subst he
    exact ⟨by simp [setStage, Stage.leaving], fun u hu => by simp [setStage, hu]⟩

theorem Moves.aborts (hmoves : Moves s e s') (he : e.Aborts t s.monitor)
    (hst : (s.stage t).withdrawn = true) :
    (s'.stage t).withdrawn = true ∧ ∀ u, u ≠ t → s'.stage u = s.stage u := by
  cases hmoves <;> simp only [Event.Aborts] at he
  case restorePage => exact ⟨hst, fun _ _ => rfl⟩
  all_goals
    subst he
    exact ⟨by simp [setStage, Stage.withdrawn], fun u hu => by simp [setStage, hu]⟩

theorem Moves.started (hmoves : Moves s e s') (hu : s.stage u ≠ .unstarted) :
    s'.stage u ≠ .unstarted := by
  have hset : ∀ {t : T} {st : Stage T P D}, st ≠ .unstarted →
      update s.stage t st u ≠ .unstarted := by
    intro t st hst
    rw [update_apply]
    split <;> assumption
  cases hmoves
  case acquire t p x held hst =>
    exact hset (by cases (s.threads.manager.acquireRound t p x).1 <;> simp [Stage.afterRound])
  all_goals first | exact hu | exact hset (by simp)

theorem Moves.quiet (hmoves : Moves s e s') (hg : s.Guarded)
    (he : e.Reads t ∨ e.Writes t ∨ e.Commits t s.monitor ∨ e.Aborts t s.monitor) :
    s.Quiet e := by
  cases hmoves
  case logUpdate tid p frame u hm hp hdirty hu =>
    simp only [Event.Reads, Event.Writes, Event.Commits, Event.Aborts, or_false, false_or] at he
    obtain ⟨logged, hmonitor⟩ := he
    refine ⟨by simp, fun frame' u' hp' hu' => ?_⟩
    rw [hp] at hp'
    cases hp'
    rw [hdirty] at hu'
    cases hu'
    rw [hm] at hmonitor
    cases hmonitor
    obtain rfl : t = u := by simpa using hu
    simp [hg.committing t none hm]
  case logCheckpoint => simp [Event.Reads, Event.Writes, Event.Commits, Event.Aborts] at he
  all_goals exact ⟨by simp, trivial⟩

end Database

/-! Changes of pages are made by inserts and deletes only. -/

theorem Event.Reads.change {T P D : Type} {t : T} {e : Event T P D} (h : e.Reads t) :
    e.change = none := by
  cases e <;> first | rfl | cases h

theorem Event.Commits.change {T P D : Type} {t : T} {m : Monitor T P} {e : Event T P D}
    (h : e.Commits t m) : e.change = none := by
  cases e <;> first | rfl | cases h

variable {I T P D : Type}

/-- Where the transaction is when its session is there. -/
def Phase.Expects : Phase T → Stage T P D → Prop
  | .ready, st => st = .idle
  | .body _, st => st.working = true
  | .committing, st | .commit, st => st.leaving = true
  | .aborting _, st | .rollback, st | .closing _, st => st.withdrawn = true
  | .closed, _ => False

/-- The session is there on account of a transaction. -/
def Phase.engaged : Phase T → Bool
  | .ready | .closed => false
  | _ => true

theorem Phase.Expects.started {phase : Phase T} {st : Stage T P D} (h : phase.Expects st) :
    st ≠ .unstarted := by
  rintro rfl
  cases phase <;> cases h

theorem Phase.Calls.author {phase : Phase T} {t : T} {m : Monitor T P} {e : Event T P D}
    {c : Change T P D} (h : phase.Calls t m e) (hc : e.change = some c) : c.author = t := by
  cases e with
  | modify u p change =>
    cases hc
    cases phase with
    | body w =>
      cases w with
      | insert | delete => exact h.resolve_left id
      | query => exact h.elim
      | other => exact h.elim
    | _ => simp [Phase.Calls, Event.Commits, Event.Aborts] at h
  | _ => cases hc

/-- A session's calls move its own transaction, and keep it where the session
expects it. -/
theorem Phase.Calls.moves [DecidableEq T] [DecidableEq P] [Inhabited D] {db db' : Database T P D}
    {phase : Phase T} {t : T} {e : Event T P D} (hcalls : phase.Calls t db.monitor e)
    (hexpects : phase.Expects (db.stage t)) (hmoves : db.Moves e db') (hg : db.Guarded) :
    (phase.Expects (db'.stage t) ∧ ∀ u, u ≠ t → db'.stage u = db.stage u) ∧
      db.Quiet e := by
  have hworks : ∀ h : e.Reads t ∨ e.Writes t, (db.stage t).working = true →
      ((db'.stage t).working = true ∧ ∀ u, u ≠ t → db'.stage u = db.stage u) ∧
        db.Quiet e := fun h hst =>
    ⟨hmoves.works h hst, hmoves.quiet hg (h.elim Or.inl fun h => Or.inr (Or.inl h))⟩
  have hcommits : ∀ h : e.Commits t db.monitor, (db.stage t).leaving = true →
      ((db'.stage t).leaving = true ∧ ∀ u, u ≠ t → db'.stage u = db.stage u) ∧
        db.Quiet e := fun h hst =>
    ⟨hmoves.commits h hst, hmoves.quiet hg (Or.inr (Or.inr (Or.inl h)))⟩
  have haborts : ∀ h : e.Aborts t db.monitor, (db.stage t).withdrawn = true →
      ((db'.stage t).withdrawn = true ∧ ∀ u, u ≠ t → db'.stage u = db.stage u) ∧
        db.Quiet e := fun h hst =>
    ⟨hmoves.aborts h hst, hmoves.quiet hg (Or.inr (Or.inr (Or.inr h)))⟩
  cases phase with
  | body w =>
    cases w with
    | insert | delete => exact hworks hcalls hexpects
    | query => exact hworks (Or.inl hcalls) hexpects
    | other => exact hcalls.elim
  | committing | commit => exact hcommits hcalls hexpects
  | aborting a | rollback | closing u => exact haborts hcalls hexpects
  | ready => exact hcalls.elim
  | closed => exact hcalls.elim

/-- What the three variables of a session say. -/
structure Session.Fits (σ : Session T) (stage : T → Stage T P D) : Prop where
  expects : ∀ t, σ.owned = some t → σ.phase.Expects (stage t)
  engaged : σ.phase.engaged = true → σ.owned.isSome = true
  user : σ.phase = .ready → σ.inUserTrans = σ.curtrans.isSome
  automatic : σ.phase = .committing → σ.inUserTrans = false
  failure : ∀ a, σ.phase = .aborting a → σ.lastStatementFailure = some a
  closing : ∀ t, σ.phase = .closing t → σ.curtrans = none

namespace Session

variable {σ σ' : Session T} {stage stage' : T → Stage T P D} {t : T}

theorem Fits.congr (h : σ.Fits stage) (hstage : ∀ t, σ.owned = some t → stage' t = stage t) :
    σ.Fits stage' :=
  { h with expects := fun t ht => hstage t ht ▸ h.expects t ht }

theorem fits_ready (hphase : σ.phase = .ready) (huser : σ.inUserTrans = σ.curtrans.isSome)
    (hidle : ∀ t, σ.curtrans = some t → stage t = .idle) : σ.Fits stage where
  expects t ht := by
    rw [owned, hphase] at ht
    rw [hphase]
    exact hidle t ht
  engaged h := by rw [hphase] at h; cases h
  user _ := huser
  automatic h := by rw [hphase] at h; cases h
  failure a h := by rw [hphase] at h; cases h
  closing t h := by rw [hphase] at h; cases h

theorem fits_engaged (ht : σ.owned = some t) (hexpects : σ.phase.Expects (stage t))
    (hready : σ.phase ≠ .ready) (hautomatic : σ.phase = .committing → σ.inUserTrans = false)
    (hfailure : ∀ a, σ.phase = .aborting a → σ.lastStatementFailure = some a)
    (hclosing : ∀ t, σ.phase = .closing t → σ.curtrans = none) : σ.Fits stage where
  expects u hu := by
    rw [ht] at hu
    cases hu
    exact hexpects
  engaged _ := by rw [ht]; rfl
  user h := absurd h hready
  automatic := hautomatic
  failure := hfailure
  closing := hclosing

theorem caught_fields (σ : Session T) (e : Throwable) :
    (σ.caught e).curtrans = σ.curtrans ∧ (σ.caught e).inUserTrans = σ.inUserTrans ∧
      (σ.caught e).phase = .ready := by
  cases e <;> exact ⟨rfl, rfl, rfl⟩

theorem owned_eq (h : ∀ t, σ.phase ≠ .closing t) : σ.owned = σ.curtrans := by
  unfold owned
  split
  · rename_i t ht
    exact absurd ht (h t)
  · rfl

theorem fits_closed (hphase : σ.phase = .closed) (ht : σ.curtrans = none) : σ.Fits stage where
  expects t hσ := by
    rw [owned, hphase] at hσ
    rw [show σ.curtrans = some t from hσ] at ht
    cases ht
  engaged h := by rw [hphase] at h; cases h
  user h := by rw [hphase] at h; cases h
  automatic h := by rw [hphase] at h; cases h
  failure a h := by rw [hphase] at h; cases h
  closing t h := by rw [hphase] at h; cases h

/-- The ways `commit` or `abort` can return. -/
inductive Completes (getId : T → Name) (σ : Session T) (t : T) : Stage T P D → Session T → Prop
  | committing (hphase : σ.phase = .committing) (ht : σ.curtrans = some t) :
      Completes getId σ t .committed ({
        σ.println ("Transaction ".toList ++ getId t ++ " committed.".toList) with
        curtrans := none }.returns false)
  | aborting (a : Throwable) (hphase : σ.phase = .aborting a) (ht : σ.curtrans = some t) :
      Completes getId σ t .aborted ({
        σ.println ("Transaction ".toList ++ getId t ++
          " aborted because of unhandled error".toList) with
        curtrans := none
        inUserTrans := false }.caught a.rethrown)
  | commit (hphase : σ.phase = .commit) (ht : σ.curtrans = some t) :
      Completes getId σ t .committed ({
        σ.println ("Transaction ".toList ++ getId t ++ " committed.".toList) with
        curtrans := none
        inUserTrans := false }.returns false)
  | rollback (hphase : σ.phase = .rollback) (ht : σ.curtrans = some t) :
      Completes getId σ t .aborted ({
        σ.println ("Transaction ".toList ++ getId t ++ " aborted.".toList) with
        curtrans := none
        inUserTrans := false }.returns false)
  | closing (hphase : σ.phase = .closing t) :
      Completes getId σ t .aborted { σ with phase := .closed }

/-- The ways a statement can begin, each with what was so before. -/
inductive Executes (getId : T → Name) (σ : Session T) (tid : T) :
    Except Throwable Statement → Session T → Prop
  | failed {read : Except Throwable Statement} (hbegins : σ.begins read = false) (e : Throwable) :
      Executes getId σ tid read (σ.reset.caught e)
  | commit {t : T} (ht : σ.curtrans = some t) :
      Executes getId σ tid (.ok (.transact .commit)) { σ.reset with phase := .commit }
  | rollback {t : T} (ht : σ.curtrans = some t) :
      Executes getId σ tid (.ok (.transact .rollback)) { σ.reset with phase := .rollback }
  | setTransaction (ht : σ.curtrans = none) :
      Executes getId σ tid (.ok (.transact .setTransaction))
        ({ σ.reset.started getId tid with inUserTrans := true }.returns false)
  | user {w : Work} (huser : σ.inUserTrans = true) :
      Executes getId σ tid (.ok (.work w)) { σ.reset with phase := .body w }
  | automatic {w : Work} (huser : σ.inUserTrans = false) :
      Executes getId σ tid (.ok (.work w)) { σ.reset.started getId tid with phase := .body w }

theorem executes_execute (getId : T → Name) (σ : Session T) (read : Except Throwable Statement)
    (tid : T) : Executes getId σ tid read (σ.execute getId read tid) := by
  obtain ⟨curtrans, inUserTrans, failure, captured, phase, status⟩ := σ
  cases read with
  | error e => exact .failed (by rfl) e
  | ok statement =>
    cases statement with
    | transact s =>
      cases s with
      | other => exact .failed (by rfl) (.parsingException "Unsupported operation".toList)
      | commit =>
        cases curtrans with
        | none =>
          exact .failed (by rfl)
            (.parsingException "No transaction is currently running".toList)
        | some t => exact .commit rfl
      | rollback =>
        cases curtrans with
        | none =>
          exact .failed (by rfl)
            (.parsingException "No transaction is currently running".toList)
        | some t => exact .rollback rfl
      | setTransaction =>
        cases curtrans with
        | none => exact .setTransaction rfl
        | some t => exact .failed (by rfl) (.parsingException _)
    | work w =>
      cases inUserTrans with
      | true => exact .user rfl
      | false => exact .automatic rfl

end Session

/-- The session whose thread is at work. -/
def ServerEvent.actor : ServerEvent I T P D → Option I
  | .evictPage _ => none
  | .execute i _ _ | .call i _ | .finish i _ | .thrown i _ _ _ | .completed i | .close i => some i

namespace Server

variable [DecidableEq I] [DecidableEq T] [DecidableEq P] [Inhabited D] {getId : T → Name}
  {s s' : Server I T P D} {e : ServerEvent I T P D} {i j : I} {t u : T} {init : P → D}
  {cs : List (Change T P D)}

structure Orderly (init : P → D) (cs : List (Change T P D)) (s : Server I T P D) : Prop where
  sound : Database.Sound init cs s.db
  fits : ∀ i, (s.sessions i).Fits s.db.stage
  sole : ∀ i j t, (s.sessions i).owned = some t → (s.sessions j).owned = some t → i = j

theorem started_step (he : s.Allowed e) (hu : s.db.stage u ≠ .unstarted) :
    (s.step getId e).db.stage u ≠ .unstarted := by
  cases e with
  | evictPage p => exact hu
  | call i e => exact (Database.moves_of_allowed he.1).started hu
  | execute i read tid =>
    simp only [step, dbEvent]
    cases hb : (s.sessions i).begins read with
    | false => exact hu
    | true => exact (Database.moves_of_allowed (he.2 hb)).started hu
  | _ => exact hu

theorem sessions_step_ne (he : e.actor ≠ some i) : (s.step getId e).sessions i = s.sessions i := by
  cases e <;> simp only [step, session]
  all_goals
    rw [update_of_ne]
    rintro rfl
    exact he rfl

variable (getId) in
/-- What an event does to the database. A transaction that the session at
work does not own stays where it is. -/
theorem db_step (h : Orderly init cs s) (he : s.Allowed e) :
    Database.Sound init (cs ++ e.change.toList) (s.step getId e).db ∧
    ∀ u, (∀ i, e.actor = some i → (s.sessions i).owned ≠ some u) → s.db.stage u ≠ .unstarted →
      (s.step getId e).db.stage u = s.db.stage u := by
  have hsame : ∀ {db : Database T P D}, db = s.db → e.change = none →
      Database.Sound init (cs ++ e.change.toList) db ∧
        ∀ u, (∀ i, e.actor = some i → (s.sessions i).owned ≠ some u) →
          s.db.stage u ≠ .unstarted → db.stage u = s.db.stage u := by
    rintro _ rfl hchange
    refine ⟨?_, fun _ _ _ => rfl⟩
    rw [hchange, Option.toList_none, List.append_nil]
    exact h.sound
  cases e with
  | evictPage p =>
    have he : s.db.Allowed (.evictPage p) := he
    exact ⟨h.sound.moves (e := .evictPage p) ⟨by simp, trivial⟩ (Database.moves_of_allowed he),
      fun _ _ _ => rfl⟩
  | execute i read tid =>
    simp only [step, dbEvent]
    cases hb : (s.sessions i).begins read with
    | false => exact hsame rfl rfl
    | true =>
      have hmoves := Database.moves_of_allowed (he.2 hb)
      refine ⟨h.sound.moves (e := .start tid) ⟨by simp, trivial⟩ hmoves, fun u _ hu => ?_⟩
      have hut : u ≠ tid := by
        rintro rfl
        exact hu (Stage.eq_unstarted (he.2 hb))
      simp [Database.step, Database.setStage, hut]
  | call i e =>
    obtain ⟨he, t, ht, hcalls⟩ := he
    have hmoves := Database.moves_of_allowed he
    obtain ⟨⟨-, hothers⟩, hq⟩ :=
      hcalls.moves ((h.fits i).expects t ht) hmoves h.sound.guarded
    refine ⟨h.sound.moves hq hmoves, fun u hu _ => hothers u ?_⟩
    rintro rfl
    exact hu i rfl ht
  | finish i printed | thrown i out err a | completed i | close i => exact hsame rfl rfl

/-- What a step is to the session at work. -/
structure Proceeds (getId : T → Name) (s : Server I T P D) (e : ServerEvent I T P D) (i : I) :
    Prop where
  fits : ((s.step getId e).sessions i).Fits (s.step getId e).db.stage
  owned : ∀ t, ((s.step getId e).sessions i).owned = some t →
    (s.sessions i).owned = some t ∨ s.db.stage t = .unstarted

variable (getId) in
theorem sessions_step_self {σ : Session T}
    (h : s.session getId e = update s.sessions i σ) :
    (s.step getId e).sessions i = σ := by
  show s.session getId e i = σ
  rw [h, update_self]

theorem proceeds_of {σ : Session T} (hself : s.session getId e = update s.sessions i σ)
    (hfits : σ.Fits (s.step getId e).db.stage)
    (howned : ∀ t, σ.owned = some t → (s.sessions i).owned = some t ∨ s.db.stage t = .unstarted) :
    Proceeds getId s e i := by
  rw [← sessions_step_self getId hself] at hfits howned
  exact ⟨hfits, howned⟩

theorem Orderly.execute {read : Except Throwable Statement} {tid : T} (h : Orderly init cs s)
    (he : s.Allowed (.execute i read tid)) : Proceeds getId s (.execute i read tid) i := by
  obtain ⟨hready, hstart⟩ := he
  have hfits := h.fits i
  have hcurtrans : (s.sessions i).owned = (s.sessions i).curtrans :=
    Session.owned_eq (by simp [hready])
  have hidle : ∀ t, (s.sessions i).curtrans = some t → s.db.stage t = .idle := fun t ht => by
    have := hfits.expects t (hcurtrans.trans ht)
    rwa [hready] at this
  have huser := hfits.user hready
  have hsame : (s.sessions i).begins read = false →
      (s.step getId (.execute i read tid)).db = s.db := fun hb => by
    simp [step, dbEvent, hb]
  have hbegun : (s.sessions i).begins read = true →
      (s.step getId (.execute i read tid)).db.stage tid = .idle ∧ s.db.stage tid = .unstarted := by
    intro hb
    refine ⟨?_, Stage.eq_unstarted (hstart hb)⟩
    simp [step, dbEvent, hb, Database.step, Database.setStage]
  have hexecutes := Session.executes_execute getId (s.sessions i) read tid
  refine proceeds_of rfl ?_ fun t ht => ?_ <;>
    generalize (s.sessions i).execute getId read tid = σ at *
  · cases hexecutes with
    | failed hb e =>
      obtain ⟨h₁, h₂, h₃⟩ := (s.sessions i).reset.caught_fields e
      rw [hsame hb]
      exact Session.fits_ready h₃ (by rw [h₁, h₂]; exact huser) fun t ht => hidle t (h₁ ▸ ht)
    | commit ht | rollback ht =>
      rw [hsame rfl]
      exact Session.fits_engaged ht (by rw [hidle _ ht]; rfl) (by simp) (by simp) (by simp)
        (by simp)
    | setTransaction ht =>
      have hb := hbegun (by simp [Session.begins, ht])
      refine Session.fits_ready rfl rfl fun t ht => ?_
      cases ht
      exact hb.1
    | user hu =>
      obtain ⟨t, ht⟩ := Option.isSome_iff_exists.mp (huser.symm.trans hu)
      rw [hsame (by simp [Session.begins, hu])]
      exact Session.fits_engaged ht (by rw [hidle _ ht]; rfl) (by simp) (by simp) (by simp)
        (by simp)
    | automatic hu =>
      have hb := hbegun (by simp [Session.begins, hu])
      exact Session.fits_engaged rfl (by rw [hb.1]; rfl) (by simp) (by simp) (by simp) (by simp)
  · rw [hcurtrans]
    cases hexecutes with
    | failed hb e =>
      obtain ⟨h₁, h₂, h₃⟩ := (s.sessions i).reset.caught_fields e
      rw [Session.owned_eq (by simp [h₃]), h₁] at ht
      exact Or.inl ht
    | commit _ | rollback _ | user _ => exact Or.inl ht
    | setTransaction hnone =>
      cases ht
      exact Or.inr (hbegun (by simp [Session.begins, hnone])).2
    | automatic hu =>
      cases ht
      exact Or.inr (hbegun (by simp [Session.begins, hu])).2

theorem Orderly.call {event : Event T P D} (h : Orderly init cs s)
    (he : s.Allowed (.call i event)) : Proceeds getId s (.call i event) i := by
  obtain ⟨hallowed, t, ht, hcalls⟩ := he
  have hexpects := (h.fits i).expects t ht
  obtain ⟨⟨hnew, -⟩, -⟩ :=
    hcalls.moves hexpects (Database.moves_of_allowed hallowed) h.sound.guarded
  refine ⟨?_, fun t ht => Or.inl ht⟩
  refine { h.fits i with expects := fun u hu => ?_ }
  obtain rfl : t = u := Option.some.inj (ht.symm.trans hu)
  exact hnew

theorem proceeds_finish {printed : Printed} (he : s.Allowed (.finish i printed)) :
    Proceeds getId s (.finish i printed) i := by
  obtain ⟨w, t, hphase, hprinted, ht, hidle⟩ := he
  refine proceeds_of rfl ?_ fun u hu => ?_
  · rw [Session.finish]
    cases huser : (s.sessions i).inUserTrans with
    | true =>
      refine Session.fits_ready rfl (by simp [Session.returns, ht]) fun u hu => ?_
      obtain rfl : t = u := Option.some.inj (ht.symm.trans hu)
      exact hidle
    | false =>
      refine Session.fits_engaged ht ?_ (by simp) (fun _ => rfl) (by simp) (by simp)
      show (s.db.stage t).leaving = true
      rw [hidle]
      rfl
  · rw [Session.finish] at hu
    rw [Session.owned_eq (by simp [hphase])]
    cases huser : (s.sessions i).inUserTrans <;> simp only [huser] at hu <;> exact Or.inl hu

theorem proceeds_thrown {out err : List (List Char)} {a : Throwable}
    (he : s.Allowed (.thrown i out err a)) : Proceeds getId s (.thrown i out err a) i := by
  obtain ⟨w, t, hphase, ht, hst⟩ := he
  refine proceeds_of rfl ?_ fun u hu => ?_
  · rw [Session.thrown]
    refine Session.fits_engaged ht ?_ (by simp) (by simp) (by simp) (by simp)
    show (s.db.stage t).withdrawn = true
    rcases hst with hst | hst <;> rw [hst] <;> rfl
  · rw [Session.owned_eq (by simp [hphase])]
    exact Or.inl hu

variable (getId) in
omit [DecidableEq I] [Inhabited D] in
theorem completes_completed (he : s.Allowed (.completed i)) : ∃ t, (s.sessions i).owned = some t ∧
    Session.Completes getId (s.sessions i) t (s.db.stage t) ((s.sessions i).completed getId) := by
  obtain ⟨t, ht, hst⟩ := he
  refine ⟨t, ht, ?_⟩
  rcases hσ : s.sessions i with ⟨curtrans, inUserTrans, failure, captured, phase, status⟩
  rw [hσ] at ht hst
  cases phase with
  | committing =>
    cases ht
    exact (show s.db.stage t = .committed from hst) ▸ .committing rfl rfl
  | aborting a =>
    cases ht
    exact (show s.db.stage t = .aborted from hst) ▸ .aborting a rfl rfl
  | commit =>
    cases ht
    exact (show s.db.stage t = .committed from hst) ▸ .commit rfl rfl
  | rollback =>
    cases ht
    exact (show s.db.stage t = .aborted from hst) ▸ .rollback rfl rfl
  | closing u =>
    cases ht
    exact (show s.db.stage t = .aborted from hst) ▸ .closing rfl
  | ready | body w | closed => exact hst.elim

theorem Orderly.completed (h : Orderly init cs s) (he : s.Allowed (.completed i)) :
    Proceeds getId s (.completed i) i := by
  obtain ⟨t, ht, hcompletes⟩ := completes_completed getId he
  -- the session has no transaction any more
  have hnone : ∀ {σ : Session T}, σ.phase = .ready → σ.curtrans = none → σ.inUserTrans = false →
      σ.Fits s.db.stage ∧ σ.owned = none := by
    intro σ hphase hcurtrans huser
    refine ⟨Session.fits_ready hphase (by rw [hcurtrans, huser]; rfl) fun u hu => ?_, ?_⟩
    · rw [hcurtrans] at hu
      cases hu
    · rw [Session.owned_eq (by simp [hphase]), hcurtrans]
  have hboth : ((s.sessions i).completed getId).Fits s.db.stage ∧
      ((s.sessions i).completed getId).owned = none := by
    generalize (s.sessions i).completed getId = σ at hcompletes
    generalize hst : s.db.stage t = st at hcompletes
    cases hcompletes with
    | committing hphase _ => exact hnone rfl rfl ((h.fits i).automatic hphase)
    | aborting a hphase _ =>
      obtain ⟨h₁, h₂, h₃⟩ := Session.caught_fields (T := T) { (s.sessions i).println
        ("Transaction ".toList ++ getId t ++ " aborted because of unhandled error".toList) with
        curtrans := none, inUserTrans := false } a.rethrown
      exact hnone h₃ h₁ h₂
    | commit _ _ | rollback _ _ => exact hnone rfl rfl rfl
    | closing hphase =>
      have hcurtrans := (h.fits i).closing t hphase
      exact ⟨Session.fits_closed rfl hcurtrans, hcurtrans⟩
  exact proceeds_of rfl hboth.1 fun u hu => by rw [hboth.2] at hu; cases hu

theorem Orderly.close (h : Orderly init cs s) (he : s.Allowed (.close i)) :
    Proceeds getId s (.close i) i := by
  have hready : (s.sessions i).phase = .ready := he
  have howned : (s.sessions i).owned = (s.sessions i).curtrans :=
    Session.owned_eq (by simp [hready])
  cases ht : (s.sessions i).curtrans with
  | none =>
    refine proceeds_of rfl ?_ fun u hu => ?_
    · rw [Session.close, ht]
      exact Session.fits_closed rfl rfl
    · rw [Session.close, ht, Session.owned] at hu
      exact absurd hu (by simp)
  | some t =>
    refine proceeds_of rfl ?_ fun u hu => ?_
    · rw [Session.close, ht]
      refine Session.fits_engaged rfl ?_ (by simp) (by simp) (by simp) (by simp)
      have hidle := (h.fits i).expects t (howned.trans ht)
      rw [hready] at hidle
      show (s.db.stage t).withdrawn = true
      rw [hidle]
      rfl
    · rw [Session.close, ht] at hu
      exact Or.inl (howned.trans (ht.trans hu))

theorem Orderly.proceeds (h : Orderly init cs s) (he : s.Allowed e) (hactor : e.actor = some i) :
    Proceeds getId s e i := by
  cases e <;> cases hactor
  case execute => exact h.execute he
  case call => exact h.call he
  case finish => exact proceeds_finish he
  case thrown => exact proceeds_thrown he
  case completed => exact h.completed he
  case close => exact h.close he

theorem Orderly.owned_step (h : Orderly init cs s) (he : s.Allowed e)
    (ht : ((s.step getId e).sessions i).owned = some t) :
    (s.sessions i).owned = some t ∨ s.db.stage t = .unstarted := by
  by_cases hactor : e.actor = some i
  · exact (h.proceeds he hactor).owned t ht
  · rw [sessions_step_ne hactor] at ht
    exact Or.inl ht

variable (getId) in
theorem Orderly.step (h : Orderly init cs s) (he : s.Allowed e) :
    Orderly init (cs ++ e.change.toList) (s.step getId e) := by
  obtain ⟨hsound, hstage⟩ := db_step getId h he
  refine ⟨hsound, fun i => ?_, fun i j t hi hj => ?_⟩
  · by_cases hactor : e.actor = some i
    · exact (h.proceeds he hactor).fits
    · rw [sessions_step_ne hactor]
      refine (h.fits i).congr fun t ht => hstage t (fun k hk hkt => ?_)
        ((h.fits i).expects t ht).started
      exact hactor (hk.trans (congrArg some (h.sole k i t hkt ht)))
  · -- two owners: one of them would have to begin what the other has begun
    by_contra hij
    have hold : ∀ {i j : I}, i ≠ j → ((s.step getId e).sessions i).owned = some t →
        ((s.step getId e).sessions j).owned = some t → (s.sessions i).owned = some t := by
      intro i j hij hi hj
      rcases h.owned_step he hi with hold | hst
      · exact hold
      · by_cases hactor : e.actor = some i
        · rw [sessions_step_ne (by rw [hactor]; exact fun h => hij (Option.some.inj h))] at hj
          exact absurd hst ((h.fits j).expects t hj).started
        · rwa [sessions_step_ne hactor] at hi
    exact hij (h.sole i j t (hold hij hi hj) (hold (Ne.symm hij) hj hi))

omit [DecidableEq I] [DecidableEq T] [DecidableEq P] [Inhabited D] in
theorem changes_snoc (es : List (ServerEvent I T P D)) (e : ServerEvent I T P D) :
    changes (es ++ [e]) = changes es ++ e.change.toList := by
  cases h : e.change <;> simp [changes, h]

omit [DecidableEq I] in
theorem orderly_start (files : P → Option D) :
    Orderly (fun p => (files p).getD default) [] (start files : Server I T P D) where
  sound := Database.sound_opened files
  fits _ := Session.fits_ready rfl rfl fun _ ht => by cases ht
  sole _ _ _ h := by cases h

theorem Orderly.run {es : List (ServerEvent I T P D)} (hrun : Run getId s es s')
    (h : Orderly init cs s) : Orderly init (cs ++ changes es) s' := by
  induction hrun with
  | nil =>
    rw [show changes ([] : List (ServerEvent I T P D)) = [] from rfl, List.append_nil]
    exact h
  | snoc _ he ih =>
    rw [changes_snoc, ← List.append_assoc]
    exact ih.step getId he

end Server

end Corestack.Simpledb
