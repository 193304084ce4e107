import Corestack.Simpledb.Sessions

/-!
# What the status of a statement tells (`StatementSession.execute`)

Whether a statement failed is read off from what it printed. What is thrown
leaves its mark there, whichever way it is caught, and what an insert or a
delete prints when all goes well has no such mark. So the three outcomes
correspond to three ways through the code: the transaction was aborted, or
nothing was changed, or the work was done and committed if the transaction
was the statement's own.

A select is another matter. The rows that it prints may look like a
failure; the status is then ERROR, and nothing has been changed.
-/

namespace Corestack.Simpledb

open List Lib

/-! ## Lines that tell of a failure -/

theorem hasErrorLine_cut (a b : List Char) :
    hasErrorLine (a ++ '\n' :: b) = (hasErrorLine a || hasErrorLine b) := by
  simp only [hasErrorLine, List.splitOn]
  rw [splitOnP_append_cons a b (by rfl), any_append]

theorem hasErrorLine_stdout (c : Captured) : hasErrorLine c.stdout = c.out.any hasErrorLine := by
  unfold Captured.stdout
  induction c.out with
  | nil => rfl
  | cons line out ih =>
    rw [flatMap_cons, append_assoc, singleton_append, hasErrorLine_cut, ih,
      any_cons]

/-- The beginning of a line that is no failure message. -/
def plainStart (text : List Char) : Bool :=
  !text.contains '\n' && text.head?.any fun c => c ≠ 'I' && c ≠ 'C'

theorem hasErrorLine_plain {text rest : List Char} (h : plainStart text = true)
    (hrest : '\n' ∉ rest) : hasErrorLine (text ++ rest) = false := by
  cases text with
  | nil => cases h
  | cons c text =>
    simp only [plainStart, contains_eq_mem, List.head?_cons, Option.any_some,
      Bool.and_eq_true, Bool.not_eq_true', decide_eq_false_iff_not, decide_eq_true_eq] at h
    have hline : '\n' ∉ (c :: text) ++ rest := by
      rw [mem_append]
      exact not_or.mpr ⟨h.1, hrest⟩
    have hI : ('I' == c) = false := by simpa using Ne.symm h.2.1
    have hC : ('C' == c) = false := by simpa using Ne.symm h.2.2
    rw [hasErrorLine, splitOn_eq_singleton hline]
    simp [isErrorLine, errorLinePrefixes, List.isPrefixOf, hI, hC]

theorem hasErrorLine_transaction {text after : List Char} (name : Name)
    (h : plainStart text = true) (hafter : '\n' ∉ after) :
    hasErrorLine (text ++ name ++ after) = false := by
  rw [append_assoc]
  refine hasErrorLine_plain h ?_
  rw [mem_append]
  exact not_or.mpr ⟨name.2, hafter⟩

theorem PlanLine.hasErrorLine_text (line : PlanLine) : hasErrorLine line.text = false := by
  have hjoined : ∀ {text between : List Char} (name name' : Name), plainStart text = true →
      '\n' ∉ between → hasErrorLine (text ++ name ++ between ++ name') = false := by
    intro text between name name' h hbetween
    rw [append_assoc, append_assoc]
    refine hasErrorLine_plain h ?_
    rw [mem_append, mem_append]
    exact not_or.mpr ⟨name.2, not_or.mpr ⟨hbetween, name'.2⟩⟩
  cases line with
  | addScan name => exact hasErrorLine_plain (by rfl) name.2
  | addJoin field1 field2 => exact hjoined field1 field2 (by rfl) (by decide)
  | addSubplanJoin field | addProjectField field | groupBy field =>
    exact hasErrorLine_plain (by rfl) field.2
  | withAggregator op => exact hasErrorLine_plain (by rfl) op.2
  | aggregate field aggFun => exact hjoined field aggFun (by rfl) (by decide +kernel)

/-- Nothing in the captured streams tells of a failure. -/
def Captured.Clean (c : Captured) : Prop := c.err = [] ∧ ∀ line ∈ c.out, hasErrorLine line = false

namespace Captured

variable {c : Captured}

theorem clean_empty : empty.Clean := ⟨rfl, fun _ h => by cases h⟩

theorem Clean.println {line : List Char} (h : c.Clean) (hline : hasErrorLine line = false) :
    (c.println line).Clean := by
  refine ⟨h.1, fun l hl => ?_⟩
  rcases mem_append.mp hl with hl | hl
  · exact h.2 l hl
  · rw [mem_singleton.mp hl, hline]

theorem hasErrorLine_toDigits (count : Nat) : hasErrorLine (Nat.toDigits 10 count) = false := by
  have hdigits : ∀ c ∈ Nat.toDigits 10 count, c.isDigit = true := fun c hc =>
    Nat.isDigit_of_mem_toDigits (by decide) (by decide) hc
  cases h : Nat.toDigits 10 count with
  | nil => rfl
  | cons c rest =>
    rw [h] at hdigits
    have hother : ∀ d ∈ c :: rest, d ≠ '\n' ∧ d ≠ 'I' ∧ d ≠ 'C' := by
      intro d hd
      have := hdigits d hd
      refine ⟨?_, ?_, ?_⟩ <;> rintro rfl <;> revert this <;> decide
    have hc := hother c mem_cons_self
    refine @hasErrorLine_plain [c] rest ?_ fun hmem =>
      (hother _ (mem_cons_of_mem c hmem)).1 rfl
    simp [plainStart, hc.2.1, hc.2.2, Ne.symm hc.1]

theorem Clean.update (h : c.Clean) (plan : List PlanLine) (count : Nat) :
    (c.print (.update plan count)).Clean := by
  refine ⟨h.1, fun l hl => ?_⟩
  rcases mem_append.mp hl with hl | hl
  · rcases mem_append.mp hl with hl | hl
    · exact h.2 l hl
    · obtain ⟨line, -, rfl⟩ := mem_map.mp hl
      exact line.hasErrorLine_text
  · simp only [countTable, mem_cons, not_mem_nil, or_false] at hl
    rcases hl with rfl | rfl | rfl | rfl
    · decide
    · rfl
    · exact hasErrorLine_toDigits count
    · decide

end Captured

/-! ## How a statement returns -/

namespace Session

variable {T : Type} {σ : Session T}

theorem status_returns_clean (h : σ.captured.Clean) : (σ.returns false).status = some .ok := by
  have hout : hasErrorLine σ.captured.stdout = false := by
    rw [hasErrorLine_stdout, any_eq_false]
    exact fun line hline => by simp [h.2 line hline]
  simp [returns, h.1, hout]

theorem status_returns_failed {threw : Bool}
    (h : threw = true ∨ σ.captured.err ≠ [] ∨ ∃ line ∈ σ.captured.out, hasErrorLine line = true) :
    (σ.returns threw).status = some
      (if σ.lastStatementFailure = some .transactionAborted then .retry else .error) := by
  have hfailed : (threw || !σ.captured.err.isEmpty || hasErrorLine σ.captured.stdout) = true := by
    rw [hasErrorLine_stdout]
    rcases h with h | h | ⟨line, hline, h⟩
    · simp [h]
    · simp [h]
    · have : σ.captured.out.any hasErrorLine = true := any_eq_true.mpr ⟨line, hline, h⟩
      simp [this]
  rw [returns, if_pos hfailed]

theorem status_returns (h : σ.lastStatementFailure = none) :
    (σ.returns false).status = some .error ∨ (σ.returns false).status = some .ok := by
  simp only [returns, h, reduceCtorEq, if_false]
  split
  · exact Or.inl rfl
  · exact Or.inr rfl

/-- Whatever was thrown, the statement counts as failed. -/
theorem status_caught (σ : Session T) (e : Throwable) :
    (σ.caught e).status = some .error ∨
      (σ.caught e).status = some .retry ∧ σ.lastStatementFailure = some .transactionAborted := by
  have hinvalid : ∀ {text rest : List Char},
      text = "Invalid SQL expression: ".toList ++ '\n' :: rest → ∀ m,
      hasErrorLine (text ++ m) = true := by
    rintro _ rest rfl m
    have hfirst : hasErrorLine "Invalid SQL expression: ".toList = true := rfl
    rw [append_assoc, cons_append, hasErrorLine_cut, hfirst, Bool.true_or]
  -- the catch keeps what the inner one has set
  have hkept : ∀ {τ : Session T} {threw : Bool},
      (τ.lastStatementFailure = σ.lastStatementFailure ∨
        τ.lastStatementFailure = σ.lastStatementFailure.or (some e) ∧ e ≠ .transactionAborted) →
      (threw = true ∨ τ.captured.err ≠ [] ∨ ∃ line ∈ τ.captured.out, hasErrorLine line = true) →
      (τ.returns threw).status = some .error ∨ (τ.returns threw).status = some .retry ∧
        σ.lastStatementFailure = some .transactionAborted := by
    intro τ threw hτ hfailed
    rw [status_returns_failed hfailed]
    by_cases h : τ.lastStatementFailure = some .transactionAborted
    · refine Or.inr ⟨by rw [if_pos h], ?_⟩
      rcases hτ with hτ | ⟨hτ, hne⟩
      · rw [← hτ, h]
      · rw [h] at hτ
        cases hσ : σ.lastStatementFailure with
        | none =>
          rw [hσ] at hτ
          exact absurd (Option.some.inj hτ).symm hne
        | some a =>
          rw [hσ] at hτ
          exact hτ.symm
    · exact Or.inl (by rw [if_neg h])
  cases e with
  | ioException m | dbException m =>
    exact hkept (Or.inr ⟨rfl, by simp⟩) (Or.inr (Or.inl (by simp [Captured.printStackTrace])))
  | parsingException m =>
    exact hkept (Or.inr ⟨rfl, by simp⟩) (Or.inr (Or.inr ⟨_, mem_append_right _
      (mem_singleton_self _), @hinvalid _ " \t".toList (by decide) _⟩))
  | parseException m =>
    exact hkept (Or.inr ⟨rfl, by simp⟩) (Or.inr (Or.inr ⟨_, mem_append_right _
      (mem_singleton_self _), @hinvalid _ " \t ".toList (by rfl) _⟩))
  | tokenMgrError m =>
    exact hkept (Or.inr ⟨rfl, by simp⟩) (Or.inr (Or.inr ⟨_, mem_append_right _
      (mem_singleton_self _), @hinvalid _ " \t ".toList (by decide +kernel) _⟩))
  | transactionAborted | other m => exact hkept (Or.inl rfl) (Or.inl rfl)

def tidOf (σ : Session T) (read : Except Throwable Statement) (tid : T) : Option T :=
  if σ.begins read then some tid else σ.curtrans

end Session

namespace Server

variable {I T P D : Type} {e : ServerEvent I T P D} {i : I}

/-! ## One statement -/

/-- The statement has done its work to the end. -/
def Ended (i : I) (es : List (ServerEvent I T P D)) : Prop := ∃ printed, .finish i printed ∈ es

/-- A select and what the parser does not handle change no page. -/
def Spared (w : Work) (tid : Option T) (es : List (ServerEvent I T P D)) : Prop :=
  w = .query ∨ w = .other → ∀ c ∈ changes es, tid ≠ some c.author

/-- What the status tells. `σ₀` is the session from before the statement,
`tid` the transaction it belonged to. -/
def Told (σ₀ : Session T) (read : Except Throwable Statement) (tid : Option T) (i : I)
    (es : List (ServerEvent I T P D)) (σ : Session T) (stage : T → Stage T P D) : Prop :=
  match σ.status with
  | some .retry => σ.curtrans = none ∧ ∃ t, tid = some t ∧ stage t = .aborted
  | some .error =>
    (σ.curtrans = σ₀.curtrans ∧ ∀ c ∈ changes es, tid ≠ some c.author) ∨
      (σ.curtrans = none ∧ ∃ t, tid = some t ∧ stage t = .aborted)
  | some .ok => ∀ w, read = .ok (.work w) → w ≠ .other → Ended i es ∧ σ.curtrans = σ₀.curtrans ∧
      ∃ t, tid = some t ∧ stage t = if σ₀.curtrans = none then .committed else .idle
  | none => False

/-- How far the statement has come, and what is so by then. -/
def Under (σ₀ : Session T) (read : Except Throwable Statement) (tid : Option T) (i : I)
    (es : List (ServerEvent I T P D)) (σ : Session T) (stage : T → Stage T P D) : Prop :=
  match σ.phase with
  | .body w => read = .ok (.work w) ∧ σ.curtrans = tid ∧
      σ₀.curtrans = (if σ.inUserTrans then tid else none) ∧
      σ.lastStatementFailure = none ∧ σ.captured.Clean ∧ Spared w tid es
  | .committing => ∃ w, read = .ok (.work w) ∧ σ.curtrans = tid ∧ σ₀.curtrans = none ∧
      σ.lastStatementFailure = none ∧ (w = .insert ∨ w = .delete → σ.captured.Clean) ∧
      Spared w tid es ∧ Ended i es
  | .aborting _ => σ.curtrans = tid
  | .commit | .rollback => σ.lastStatementFailure = none ∧ σ.captured.Clean ∧
      ∃ s, read = .ok (.transact s)
  | .ready => Told σ₀ read tid i es σ stage
  | .closing _ | .closed => False

structure During (σ₀ : Session T) (read : Except Throwable Statement) (tid : Option T) (i : I)
    (es : List (ServerEvent I T P D)) (s : Server I T P D) : Prop where
  others : ∀ j, j ≠ i → ∀ t, tid = some t → (s.sessions j).owned ≠ some t
  started : ∀ t, tid = some t → s.db.stage t ≠ .unstarted
  under : Under σ₀ read tid i es (s.sessions i) s.db.stage

variable {σ₀ σ : Session T} {es : List (ServerEvent I T P D)} {stage stage' : T → Stage T P D}
  {read : Except Throwable Statement} {tid : Option T} {w : Work}

theorem foreign_snoc (hes : ∀ c ∈ changes es, tid ≠ some c.author)
    (he : ∀ c ∈ changes [e], tid ≠ some c.author) :
    ∀ c ∈ changes (es ++ [e]), tid ≠ some c.author := by
  intro c hc
  rw [changes, filterMap_append, mem_append] at hc
  exact hc.elim (hes c) (he c)

theorem Ended.snoc (h : Ended i es) (e : ServerEvent I T P D) : Ended i (es ++ [e]) :=
  h.imp fun _ h => mem_append_left _ h

theorem Under.congr
    (h : Under σ₀ read tid i es σ stage) (hchanges : ∀ c ∈ changes [e], tid ≠ some c.author)
    (hstage : ∀ t, tid = some t → stage' t = stage t) :
    Under σ₀ read tid i (es ++ [e]) σ stage' := by
  have hspared : ∀ {w}, Spared w tid es → Spared w tid (es ++ [e]) :=
    fun h hw => foreign_snoc (h hw) hchanges
  have haborted : (∃ t, tid = some t ∧ stage t = .aborted) →
      ∃ t, tid = some t ∧ stage' t = .aborted :=
    fun ⟨t, ht, hst⟩ => ⟨t, ht, (hstage t ht).trans hst⟩
  unfold Under at h ⊢
  split <;> rename_i hphase <;> rw [hphase] at h
  · obtain ⟨h₁, h₂, h₃, h₄, h₅, h₆⟩ := h
    exact ⟨h₁, h₂, h₃, h₄, h₅, hspared h₆⟩
  · obtain ⟨w, h₁, h₂, h₃, h₄, h₅, h₆, h₇⟩ := h
    exact ⟨w, h₁, h₂, h₃, h₄, h₅, hspared h₆, h₇.snoc e⟩
  · exact h
  · exact h
  · exact h
  · unfold Told at h ⊢
    split <;> rename_i hstatus <;> rw [hstatus] at h
    · exact ⟨h.1, haborted h.2⟩
    · exact h.imp (fun h => ⟨h.1, foreign_snoc h.2 hchanges⟩) fun h => ⟨h.1, haborted h.2⟩
    · intro w hread hw
      obtain ⟨h₁, h₂, t, ht, hst⟩ := h w hread hw
      exact ⟨h₁.snoc e, h₂, t, ht, (hstage t ht).trans hst⟩
    · exact h
  · exact h
  · exact h

theorem told_transact {stmt : TransactStmt} (h : σ.status = some .ok) :
    Told σ₀ (.ok (.transact stmt)) tid i es σ stage := by
  rw [Told, h]
  intro w hw
  cases hw

/-- A statement that nothing went wrong with returns to the transaction it
found. -/
theorem told_returns (hread : read = .ok (.work w)) (hfailure : σ.lastStatementFailure = none)
    (hcurtrans : σ.curtrans = σ₀.curtrans) (hended : Ended i es) (hspared : Spared w tid es)
    (hclean : w = .insert ∨ w = .delete → σ.captured.Clean)
    (hstage : ∃ t, tid = some t ∧ stage t = if σ₀.curtrans = none then .committed else .idle) :
    Told σ₀ read tid i es (σ.returns false) stage := by
  have hok : (σ.returns false).status = some .ok →
      Told σ₀ read tid i es (σ.returns false) stage := by
    intro hstatus
    rw [Told, hstatus]
    exact fun _ _ _ => ⟨hended, hcurtrans, hstage⟩
  by_cases hw : w = .insert ∨ w = .delete
  · exact hok (Session.status_returns_clean (hclean hw))
  · rcases Session.status_returns hfailure with hstatus | hstatus
    · rw [Told, hstatus]
      refine Or.inl ⟨hcurtrans, hspared ?_⟩
      cases w <;> simp_all
    · exact hok hstatus

variable {t : T}

theorem Under.finish {printed : Printed} (h : Under σ₀ read tid i es σ stage)
    (hphase : σ.phase = .body w) (hprinted : printed.Fits w)
    (ht : σ.curtrans = some t) (hidle : stage t = .idle) :
    Under σ₀ read tid i (es ++ [.finish i printed]) (σ.finish printed) stage := by
  rw [Under, hphase] at h
  obtain ⟨hread, htid, huser, hfailure, hclean, hspared⟩ := h
  have hspared : Spared w tid (es ++ [.finish i printed]) :=
    fun hw => foreign_snoc (hspared hw) fun _ hc => by cases hc
  have hended : Ended i (es ++ [.finish i printed]) :=
    ⟨printed, mem_append_right _ (mem_singleton_self _)⟩
  have hclean : w = .insert ∨ w = .delete → (σ.captured.print printed).Clean := by
    rintro (rfl | rfl)
    all_goals
      cases printed with
      | update plan count => exact hclean.update plan count
      | query => cases hprinted
      | unsupported => cases hprinted
  unfold Session.finish
  cases hu : σ.inUserTrans with
  | false =>
    rw [hu] at huser
    exact ⟨w, hread, htid, huser, hfailure, hclean, hspared, hended⟩
  | true =>
    rw [hu, if_pos rfl] at huser
    refine told_returns hread hfailure (htid.trans huser.symm) hended hspared hclean
      ⟨t, htid.symm.trans ht, ?_⟩
    rw [hidle, huser, ← htid, ht]
    simp

theorem Under.call {m : Monitor T P} {event : Event T P D}
    (h : Under σ₀ read tid i es σ stage) (hcalls : σ.phase.Calls t m event) :
    Under σ₀ read tid i (es ++ [.call i event]) σ stage' := by
  have hspared : ∀ {w}, event.change = none ∨ w = .insert ∨ w = .delete → Spared w tid es →
      Spared w tid (es ++ [.call i event]) := by
    intro w hevent h hw
    have hnone : event.change = none := by
      rcases hevent with hevent | rfl | rfl
      · exact hevent
      · simp at hw
      · simp at hw
    exact foreign_snoc (h hw) (by simp [changes, ServerEvent.change, hnone])
  unfold Under at h ⊢
  cases hphase : σ.phase <;> simp only [hphase] at h hcalls ⊢
  case body w =>
    obtain ⟨h₁, h₂, h₃, h₄, h₅, h₆⟩ := h
    refine ⟨h₁, h₂, h₃, h₄, h₅, hspared ?_ h₆⟩
    cases w with
    | insert => exact Or.inr (Or.inl rfl)
    | delete => exact Or.inr (Or.inr rfl)
    | query => exact Or.inl (Event.Reads.change hcalls)
    | other => exact hcalls.elim
  case committing =>
    obtain ⟨w, h₁, h₂, h₃, h₄, h₅, h₆, h₇⟩ := h
    exact ⟨w, h₁, h₂, h₃, h₄, h₅, hspared (Or.inl (Event.Commits.change hcalls)) h₆, h₇.snoc _⟩
  case aborting => exact h
  case commit => exact h
  case rollback => exact h
  case ready => exact hcalls.elim

theorem Under.completed {σ' : Session T} {getId : T → Name} (h : Under σ₀ read tid i es σ stage)
    (hσ' : Session.Completes getId σ t (stage t) σ') :
    Under σ₀ read tid i (es ++ [.completed i]) σ' stage := by
  have hcommitted : hasErrorLine ("Transaction ".toList ++ getId t ++ " committed.".toList) =
      false := hasErrorLine_transaction (getId t) (by decide +kernel) (by decide +kernel)
  generalize hst : stage t = st at hσ'
  cases hσ' with
  | committing hphase ht =>
    rw [Under, hphase] at h
    obtain ⟨w, hread, htid, hσ₀, hfailure, hclean, hspared, hended⟩ := h
    refine told_returns hread hfailure hσ₀.symm (hended.snoc _)
      (fun hw => foreign_snoc (hspared hw) fun _ hc => by cases hc)
      (fun hw => (hclean hw).println hcommitted) ⟨t, htid.symm.trans ht, ?_⟩
    rw [hst, if_pos hσ₀]
  | aborting a hphase ht =>
    rw [Under, hphase] at h
    have haborted : ∃ t, tid = some t ∧ stage t = .aborted := ⟨t, h.symm.trans ht, hst⟩
    generalize hτ : ({ σ.println ("Transaction ".toList ++ getId t ++
      " aborted because of unhandled error".toList) with
      curtrans := none, inUserTrans := false } : Session T) = τ
    have hnone : τ.curtrans = none := by rw [← hτ]
    obtain ⟨h₁, -, h₃⟩ := τ.caught_fields a.rethrown
    rw [Under, h₃]
    rcases τ.status_caught a.rethrown with hstatus | ⟨hstatus, -⟩
    · rw [Told, hstatus]
      exact Or.inr ⟨h₁.trans hnone, haborted⟩
    · rw [Told, hstatus]
      exact ⟨h₁.trans hnone, haborted⟩
  | commit hphase ht =>
    rw [Under, hphase] at h
    obtain ⟨-, hclean, stmt, rfl⟩ := h
    exact told_transact (Session.status_returns_clean (hclean.println hcommitted))
  | rollback hphase ht =>
    rw [Under, hphase] at h
    obtain ⟨-, hclean, stmt, rfl⟩ := h
    exact told_transact (Session.status_returns_clean (hclean.println
      (hasErrorLine_transaction (getId t) (by decide) (by decide))))
  | closing hphase =>
    rw [Under, hphase] at h
    exact h.elim

variable [DecidableEq I] [DecidableEq T] [DecidableEq P] [Inhabited D] {getId : T → Name}
  {s : Server I T P D} {init : P → D} {cs : List (Change T P D)}

variable (getId) in
theorem During.begin {tid : T} (h : Orderly init cs s)
    (he : s.Allowed (.execute i read tid)) :
    During (s.sessions i) read ((s.sessions i).tidOf read tid) i [.execute i read tid]
      (s.step getId (.execute i read tid)) := by
  obtain ⟨hready, hstart⟩ := he
  have hself := sessions_step_self getId (s := s) (i := i)
    (e := .execute i read tid) rfl
  have howned : (s.sessions i).owned = (s.sessions i).curtrans :=
    Session.owned_eq (by simp [hready])
  have huser := (h.fits i).user hready
  -- the transaction is the session's own, or one that nobody has begun
  have hmine : ∀ t, (s.sessions i).tidOf read tid = some t →
      (s.sessions i).owned = some t ∨
        (s.sessions i).begins read = true ∧ t = tid ∧ s.db.stage t = .unstarted := by
    intro t ht
    unfold Session.tidOf at ht
    split at ht
    · rename_i hb
      cases ht
      exact Or.inr ⟨hb, rfl, Stage.eq_unstarted (hstart hb)⟩
    · exact Or.inl (howned.trans ht)
  have hstarted : hasErrorLine ("Started a new transaction tid = ".toList ++ getId tid) = false :=
    hasErrorLine_plain (by rfl) (getId tid).2
  have hnone : ∀ {w}, Spared w ((s.sessions i).tidOf read tid)
      [(.execute i read tid : ServerEvent I T P D)] := fun _ c hc => by cases hc
  refine ⟨fun j hj t ht hjt => ?_, fun t ht => ?_, ?_⟩
  · have hactor : (ServerEvent.execute i read tid : ServerEvent I T P D).actor ≠ some j :=
      fun h => hj (Option.some.inj h).symm
    rw [sessions_step_ne hactor] at hjt
    rcases hmine t ht with hi | ⟨-, -, hst⟩
    · exact hj (h.sole j i t hjt hi)
    · exact ((h.fits j).expects t hjt).started hst
  · rcases hmine t ht with hi | ⟨hb, rfl, -⟩
    · have hst := ((h.fits i).expects t hi).started
      by_cases hb : (s.sessions i).begins read = true
      · have hne : t ≠ tid := by
          rintro rfl
          exact hst (Stage.eq_unstarted (hstart hb))
        simpa [step, dbEvent, hb, Database.step, Database.setStage, hne] using hst
      · simpa [step, dbEvent, hb] using hst
    · simp [step, dbEvent, hb, Database.step, Database.setStage]
  · rw [hself]
    generalize hσ : (s.sessions i).execute getId read tid = σ
    have hexecutes := Session.executes_execute getId (s.sessions i) read tid
    rw [hσ] at hexecutes
    cases hexecutes with
    | failed hb e =>
      obtain ⟨h₁, h₂, h₃⟩ := (s.sessions i).reset.caught_fields e
      rw [Under, h₃]
      rcases (s.sessions i).reset.status_caught e with hstatus | ⟨-, hfailure⟩
      · rw [Told, hstatus]
        exact Or.inl ⟨h₁, fun c hc => by cases hc⟩
      · cases hfailure
    | commit _ | rollback _ => exact ⟨rfl, Captured.clean_empty, _, rfl⟩
    | setTransaction _ =>
      have hstatus : (Session.returns { (s.sessions i).reset.started getId tid with
          inUserTrans := true } false).status = some .ok :=
        Session.status_returns_clean (Captured.clean_empty.println hstarted)
      exact told_transact hstatus
    | user hu =>
      refine ⟨rfl, ?_, ?_, rfl, Captured.clean_empty, hnone⟩
      all_goals simp [Session.tidOf, Session.begins, hu, Session.reset]
    | automatic hu =>
      refine ⟨rfl, ?_, ?_, rfl, Captured.clean_empty.println hstarted, hnone⟩
      · simp [Session.tidOf, Session.begins, hu, Session.started, Session.println]
      · have hnone : (s.sessions i).curtrans = none := by simpa [hu] using huser.symm
        simp [Session.started, Session.println, Session.reset, hu, hnone]

/-- One step of the server, which is not the session's next statement, keeps
what is known of the statement underway: it is another session's, or one
more step of this one. -/
theorem During.step (h : During σ₀ read tid i es s) (ho : Orderly init cs s) (he : s.Allowed e)
    (hexecute : ∀ r t, e ≠ .execute i r t) (hclose : e ≠ .close i) :
    During σ₀ read tid i (es ++ [e]) (s.step getId e) := by
  obtain ⟨-, hstage⟩ := db_step getId ho he
  refine ⟨fun j hj t ht hjt => ?_, fun t ht => ?_, ?_⟩
  · rcases ho.owned_step he hjt with hjt | hst
    · exact h.others j hj t ht hjt
    · exact h.started t ht hst
  · exact started_step he (h.started t ht)
  · by_cases hactor : e.actor = some i
    · cases e with
      | evictPage p => cases hactor
      | execute j r t =>
        cases hactor
        exact absurd rfl (hexecute r t)
      | close j =>
        cases hactor
        exact absurd rfl hclose
      | call j event =>
        cases hactor
        obtain ⟨-, t, -, hcalls⟩ := he
        exact h.under.call hcalls
      | finish j printed =>
        cases hactor
        obtain ⟨w, t, hphase, hprinted, ht, hidle⟩ := he
        rw [sessions_step_self getId (i := i) rfl]
        exact h.under.finish hphase hprinted ht hidle
      | thrown j out err a =>
        cases hactor
        obtain ⟨w, t, hphase, ht, hst⟩ := he
        have hunder := h.under
        rw [Under, hphase] at hunder
        rw [sessions_step_self getId (i := i) rfl]
        exact hunder.2.1
      | completed j =>
        cases hactor
        obtain ⟨t, -, hcompletes⟩ := completes_completed getId he
        rw [sessions_step_self getId (i := i) rfl]
        exact h.under.completed hcompletes
    · rw [sessions_step_ne hactor]
      have hforeign : ∀ t, tid = some t → ∀ j, e.actor = some j → (s.sessions j).owned ≠ some t :=
        fun t ht j hj => h.others j (fun hji => hactor (hji ▸ hj)) t ht
      refine h.under.congr (fun c hc hauthor => ?_) fun t ht => hstage t (hforeign t ht)
        (h.started t ht)
      cases e with
      | call j event =>
        obtain ⟨-, t, ht, hcalls⟩ := he
        obtain ⟨c', hc', heq⟩ := mem_filterMap.mp hc
        rw [mem_singleton] at hc'
        subst hc'
        obtain rfl := hcalls.author heq
        exact hforeign c.author hauthor j rfl ht
      | _ => cases hc

variable {es' : List (ServerEvent I T P D)} {s' : Server I T P D}

theorem During.run (hrun : Run getId s es' s') (h : During σ₀ read tid i es s)
    (ho : Orderly init cs s)
    (hone : ∀ e ∈ es', (∀ r t, e ≠ .execute i r t) ∧ e ≠ .close i) :
    During σ₀ read tid i (es ++ es') s' := by
  induction hrun with
  | nil =>
    rw [append_nil]
    exact h
  | snoc hrun he ih =>
    rename_i s₁ es₁ e
    have hlast := hone e (mem_append_right _ (mem_singleton_self _))
    rw [← append_assoc]
    exact (ih fun e he => hone e (mem_append_left _ he)).step (ho.run hrun) he
      hlast.1 hlast.2

/-- The status of a statement tells what became of its transaction. After
RETRY the session has no transaction, and the pages read as if the one it
had had never been. After ERROR that is so too, or else the session has the
transaction it had, and the statement changed no page. After OK an insert,
a delete or a select has done its work to the end, and its transaction is
committed if it was its own and goes on if the client had opened it. -/
theorem status_tells_transaction {files : P → Option D} {tid : T}
    (hbefore : Run getId (start files) es s) (hexecute : s.Allowed (.execute i read tid))
    (hrest : Run getId (s.step getId (.execute i read tid)) es' s')
    (hone : ∀ e ∈ es', (∀ r t, e ≠ .execute i r t) ∧ e ≠ .close i)
    (hreturned : (s'.sessions i).phase = .ready) :
    let init := fun p => (files p).getD default
    let cs := changes es ++ changes es'
    let mine := (s.sessions i).tidOf read tid
    s'.db.Shows init cs ∧
    match (s'.sessions i).status with
    | some .retry => (s'.sessions i).curtrans = none ∧
        ∃ t, mine = some t ∧ s'.db.Shows init (Database.without t cs)
    | some .error =>
      ((s'.sessions i).curtrans = (s.sessions i).curtrans ∧
        (s'.sessions i).inUserTrans = (s.sessions i).inUserTrans ∧
        ∀ c ∈ changes es', mine ≠ some c.author) ∨
      ((s'.sessions i).curtrans = none ∧
        ∃ t, mine = some t ∧ s'.db.Shows init (Database.without t cs))
    | some .ok => ∀ w, read = .ok (.work w) → w ≠ .other →
        Ended i es' ∧ (s'.sessions i).curtrans = (s.sessions i).curtrans ∧
        ∃ t, mine = some t ∧
          s'.db.stage t = if (s.sessions i).curtrans = none then .committed else .idle
    | none => False := by
  have horderly := (orderly_start files).run hbefore
  have hbegun := horderly.step getId hexecute
  rw [show (ServerEvent.execute i read tid : ServerEvent I T P D).change.toList = [] from rfl,
    append_nil] at hbegun
  have hafter := hbegun.run hrest
  have hduring := (During.begin getId horderly hexecute).run hrest hbegun hone
  have hshows := hafter.sound.shows
  have huser : (s'.sessions i).curtrans = (s.sessions i).curtrans →
      (s'.sessions i).inUserTrans = (s.sessions i).inUserTrans := fun h => by
    rw [(hafter.fits i).user hreturned, (horderly.fits i).user hexecute.1, h]
  have haborted : (∃ t, (s.sessions i).tidOf read tid = some t ∧ s'.db.stage t = .aborted) →
      ∃ t, (s.sessions i).tidOf read tid = some t ∧ s'.db.Shows (fun p => (files p).getD default)
        (Database.without t (changes es ++ changes es')) :=
    fun ⟨t, ht, hst⟩ => ⟨t, ht, hshows.without hst⟩
  refine ⟨hshows, ?_⟩
  have htold := hduring.under
  rw [Under, hreturned] at htold
  unfold Told at htold
  split <;> rename_i hstatus <;> rw [hstatus] at htold
  · exact ⟨htold.1, haborted htold.2⟩
  · exact htold.imp (fun h => ⟨h.1, huser h.1, h.2⟩) fun h => ⟨h.1, haborted h.2⟩
  · intro w hw hother
    obtain ⟨⟨printed, hended⟩, hcurtrans, hstage⟩ := htold w hw hother
    refine ⟨⟨printed, ?_⟩, hcurtrans, hstage⟩
    simpa using hended
  · exact htold

/-- A session's insert into a file of one page, outside of any transaction
of the client's. -/
def insertEvents : List (ServerEvent Nat Nat Nat Nat) :=
  [.call 0 (.getPage 5 0 true), .call 0 (.acquire 5), .call 0 (.fetch 5),
    .call 0 (.modify 5 0 (· + 1)), .call 0 (.markDirty 5), .finish 0 (.update [] 1),
    .call 0 (.complete 5), .call 0 (.logUpdate 0), .call 0 .writePage, .call 0 (.release 5),
    .call 0 (.logCommit 5), .completed 0]

def someId : Nat → Name := fun _ => ⟨['5'], by decide⟩

def insertBegun : Server Nat Nat Nat Nat :=
  (start onePageFile).step someId (.execute 0 (.ok (.work .insert)) 5)

def insertDone : Server Nat Nat Nat Nat := insertEvents.foldl (step someId) insertBegun

theorem run_insertEvents : Run someId insertBegun insertEvents insertDone := by
  have call : ∀ {s s' : Server Nat Nat Nat Nat} {es} {e : Event Nat Nat Nat},
      Run someId s es s' → s'.db.Allowed e → (s'.sessions 0).owned = some 5 →
      (s'.sessions 0).phase.Calls 5 s'.db.monitor e →
      Run someId s (es ++ [.call 0 e]) (s'.step someId (.call 0 e)) :=
    fun hrun he ht hcalls => hrun.snoc ⟨he, 5, ht, hcalls⟩
  have h₁ := call (e := .getPage 5 0 true) (Run.nil insertBegun) rfl rfl (Or.inl rfl)
  have h₂ := call (e := .acquire 5) h₁ rfl rfl (Or.inl rfl)
  have h₃ := call (e := .fetch 5) h₂ ⟨rfl, rfl⟩ rfl (Or.inl rfl)
  have h₄ := call (e := .modify 5 0 (· + 1)) h₃ ⟨rfl, rfl⟩ rfl (Or.inr rfl)
  have h₅ := call (e := .markDirty 5) h₄ ⟨rfl, rfl⟩ rfl (Or.inr rfl)
  have h₆ := h₅.snoc (e := .finish 0 (.update [] 1)) ⟨.insert, 5, rfl, trivial, rfl, rfl⟩
  have h₇ := call (e := .complete 5) h₆ ⟨rfl, rfl⟩ rfl rfl
  have h₈ := call (e := .logUpdate 0) h₇ rfl rfl ⟨_, rfl⟩
  have h₉ := call (e := .writePage) h₈ rfl rfl ⟨_, rfl⟩
  have hclean : ∀ p, ((insertEvents.take 9).foldl (step someId) insertBegun).db.pages p =
      if p = 0 then some ⟨1, none, 0⟩ else none := by
    intro p
    cases p with
    | zero => rfl
    | succ p => rfl
  have h₁₀ := call (e := .release 5) h₉
    ⟨rfl, fun p => by
      show (((insertEvents.take 9).foldl (step someId) insertBegun).db.pages p).all _ = true
      rw [hclean p]
      split <;> rfl⟩ rfl rfl
  have h₁₁ := call (e := .logCommit 5) h₁₀ rfl rfl rfl
  exact h₁₁.snoc (e := .completed 0) ⟨5, rfl, rfl⟩

theorem insert_tells_committed : (insertDone.sessions 0).status = some .ok ∧
    (insertDone.sessions 0).curtrans = none ∧ insertDone.db.stage 5 = .committed ∧
    insertDone.db.content 0 = 1 := by
  have hallowed : (start onePageFile : Server Nat Nat Nat Nat).Allowed
      (.execute 0 (.ok (.work .insert)) 5) := ⟨rfl, fun _ => rfl⟩
  have htells := status_tells_transaction (Run.nil (start onePageFile)) hallowed run_insertEvents
    (by simp [insertEvents]) rfl
  have hstatus : (insertDone.sessions 0).status = some .ok := rfl
  obtain ⟨-, hnone, t, ht, hst⟩ := htells.2 .insert rfl (by decide)
  cases ht
  exact ⟨hstatus, hnone, hst, rfl⟩

end Server

end Corestack.Simpledb
