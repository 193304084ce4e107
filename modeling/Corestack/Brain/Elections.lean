import Corestack.Brain.Record

/-!
# What creating and moving an election does to the tables

The ideal runs of `run_insert_election` and `run_update_state`, as one
change of the tables each.
-/

namespace Corestack.Brain

open Option Lib Db Prog

/-! ## Changes -/

def optionRows (id : Id) : Nat → List OptionName → List OptionRow
  | _, [] => []
  | i, o :: os => ⟨quoted id.val, i, quoted o.val⟩ :: optionRows id (i + 1) os

def eligibleRows (id : Id) (names : List CertName) : List EligibleRow :=
  names.map fun name => ⟨quoted id.val, quoted name.val⟩

def draftRow (id : Id) (cfg : BbConfig) : ElectionRow :=
  ⟨idSeq id.val, quoted id.val, quoted cfg.title.val, bbStateStr .draft,
    quoted cfg.openTime.val, quoted cfg.closeTime.val⟩

def created (T : Tables) (id : Id) (cfg : BbConfig) : Tables :=
  { T with
    election := T.election ++ [draftRow id cfg]
    option := T.option ++ optionRows id 0 cfg.options
    eligible := T.eligible ++ eligibleRows id cfg.eligible }

/-- The tables after an election's row was written anew with another state. -/
def moved (T : Tables) (id : Id) (seq : Int) (title : Title) (st : BbState)
    (openTime closeTime : Time) : Tables :=
  { T with
    election := T.election.filter (fun r => ¬ r.id = quoted id.val) ++
      [⟨seq, quoted id.val, quoted title.val, bbStateStr st, quoted openTime.val,
        quoted closeTime.val⟩] }

/-- No field of the configuration is refused by `unsafe`. -/
structure SafeConfig (id : Id) (cfg : BbConfig) : Prop where
  id : unsafeField id.val = false
  title : unsafeField cfg.title.val = false
  openTime : unsafeField cfg.openTime.val = false
  closeTime : unsafeField cfg.closeTime.val = false
  options : ∀ o ∈ cfg.options, unsafeField o.val = false
  eligible : ∀ name ∈ cfg.eligible, unsafeField name.val = false

/-! ## Ideal runs -/

section Ideal

variable {c : Chatter} {t t' : Work}

theorem ideal_insertOptions {id : Id} {os : List OptionName} :
    ∀ {i : Nat} {t : Work},
      run (idealHandle c) (insertOptions id i os) t = (.ok (), t') →
      (∀ o ∈ os, unsafeField o.val = false) ∧
      t'.tables = { t.tables with option := t.tables.option ++ optionRows id i os } := by
  induction os with
  | nil =>
    rintro i t ⟨⟩
    simp [optionRows]
  | cons o os ih =>
    intro i t hrun
    rw [insertOptions] at hrun
    split at hrun
    · cases hrun
    · rename_i hsafe
      obtain ⟨_, t₁, h₁, h₂⟩ := run_bind_ok hrun
      obtain ⟨-, hw, -⟩ := ideal_execStmt_ok h₁
      simp only [Tables.write, bind_eq_bind, bind_eq_some_iff, pure_def,
        Option.some.injEq] at hw
      obtain ⟨idx, hidx, hT⟩ := hw
      obtain ⟨rfl, -⟩ := readInt_fmtInt_some hidx
      obtain ⟨hsafes, hT'⟩ := ih h₂
      refine ⟨?_, ?_⟩
      · intro o' ho'
        rcases List.mem_cons.mp ho' with rfl | ho'
        · simpa using hsafe
        · exact hsafes o' ho'
      · rw [hT', ← hT]
        simp [optionRows]

theorem ideal_insertEligibles {id : Id} {names : List CertName} :
    ∀ {t : Work}, run (idealHandle c) (insertEligibles id names) t = (.ok (), t') →
      (∀ name ∈ names, unsafeField name.val = false) ∧
      t'.tables = { t.tables with eligible := t.tables.eligible ++ eligibleRows id names } := by
  induction names with
  | nil =>
    rintro t ⟨⟩
    simp [eligibleRows]
  | cons name names ih =>
    intro t hrun
    rw [insertEligibles] at hrun
    split at hrun
    · cases hrun
    · rename_i hsafe
      obtain ⟨_, t₁, h₁, h₂⟩ := run_bind_ok hrun
      obtain ⟨-, hw, -⟩ := ideal_execStmt_ok h₁
      obtain ⟨hsafes, hT'⟩ := ih h₂
      refine ⟨?_, ?_⟩
      · intro name' hname'
        rcases List.mem_cons.mp hname' with rfl | hname'
        · simpa using hsafe
        · exact hsafes name' hname'
      · rw [hT', ← Option.some.inj hw]
        simp [eligibleRows]

theorem ideal_insertElection {id : Id} {cfg : BbConfig} {out : BbDbResult}
    (hrun : run (idealHandle c) (runOp (.insertElection id cfg)) t = (.ok out, t')) :
    SafeConfig id cfg ∧ (0 ≤ idSeq id.val ∧ idSeq id.val < 2 ^ 31) ∧
      t'.tables = created t.tables id cfg := by
  obtain ⟨_, t₁, h₁, h₂⟩ := run_bind_ok hrun
  cases h₂
  unfold runInsertElection at h₁
  split at h₁
  · cases h₁
  · rename_i hsafe
    simp only [Bool.or_eq_true, not_or, Bool.not_eq_true] at hsafe
    obtain ⟨⟨⟨hid, htitle⟩, hopen⟩, hclose⟩ := hsafe
    obtain ⟨_, t₂, h₂, h₃⟩ := run_bind_ok h₁
    obtain ⟨⟨⟩, t₃, h₄, h₅⟩ := run_bind_ok h₃
    obtain ⟨-, hw, -⟩ := ideal_execStmt_ok h₂
    simp only [Tables.write, bind_eq_bind, bind_eq_some_iff, pure_def,
      Option.some.injEq] at hw
    obtain ⟨seq, hseq, hT₂⟩ := hw
    obtain ⟨rfl, hrange⟩ := readInt_fmtInt_some hseq
    obtain ⟨hoptions, hT₃⟩ := ideal_insertOptions h₄
    obtain ⟨heligible, hT₄⟩ := ideal_insertEligibles h₅
    refine ⟨⟨hid, htitle, hopen, hclose, hoptions, heligible⟩, hrange, ?_⟩
    rw [hT₄, hT₃, ← hT₂]
    rfl

theorem ideal_updateState {id : Id} {st : BbState} {out : BbDbResult}
    (hrun : run (idealHandle c) (runOp (.updateState id st)) t = (.ok out, t')) :
    ∃ body seqText seq title openTime closeTime,
      ownReply bodyMax (done c t.clock (.selectCarried id) t.tables none
        (t.tables.query (.selectCarried id))) = (.ok, body) ∧
      readCarried body = some (seqText, title, openTime, closeTime) ∧
      readInt seqText = some seq ∧
      (breaksLine title.val = false ∧ breaksLine openTime.val = false ∧
        breaksLine closeTime.val = false) ∧
      t'.tables = moved t.tables id seq title st openTime closeTime := by
  obtain ⟨_, t₁, h₁, h₂⟩ := run_bind_ok hrun
  cases h₂
  obtain ⟨body, t₂, h₂, h₃⟩ := run_bind_ok h₁
  obtain ⟨-, hw₂, hreply⟩ := ideal_execStmt_ok h₂
  have ht₂ : t₂.tables = t.tables := (Option.some.inj hw₂).symm
  rw [ht₂] at hreply
  cases hm : readCarried body with
  | none =>
    rw [hm] at h₃
    cases h₃
  | some p =>
    obtain ⟨seqText, title, openTime, closeTime⟩ := p
    rw [hm] at h₃
    obtain ⟨_, t₃, h₄, h₅⟩ := run_bind_ok h₃
    obtain ⟨_, t₄, h₆, h₇⟩ := run_bind_ok h₅
    cases h₇
    obtain ⟨-, hw₃, -⟩ := ideal_execStmt_ok h₄
    obtain ⟨hb, hw₄, -⟩ := ideal_execStmt_ok h₆
    simp only [Tables.write, bind_eq_bind, bind_eq_some_iff, pure_def,
      Option.some.injEq] at hw₃ hw₄
    obtain ⟨seq, hseq, hT⟩ := hw₄
    rw [breaksLine_text] at hb
    simp only [Stmt.breaks, Stmt.pieces, List.any_cons, List.any_nil, Piece.breaks,
      Bool.or_eq_false_iff] at hb
    refine ⟨body, seqText, seq, title, openTime, closeTime, hreply, hm, hseq, ?_, ?_⟩
    · tauto
    · rw [← hT, ← hw₃, ht₂]
      rfl

end Ideal

end Corestack.Brain
