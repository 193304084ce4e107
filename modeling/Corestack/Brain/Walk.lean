import Corestack.Brain.Handlers

/-!
# Walking through the handlers

Many properties of a program hold of a sequence as soon as they hold of its
parts: the statements it sends are of some kind, it stops at the first
failure, two handlers run it alike. For all of them the seam and the
handlers are walked through once, here. What is left to show of such a
property is that it composes (`Walk`, and `FullWalk` where a caller looks at
how a call ended) and that the statements or the commands have it.
-/

namespace Corestack.Brain

open List Lib Db

/-- The statements a command may send. Where it writes a row back, the
numbers and texts of the row are what it read. -/
inductive BbDbCmd.MaySend : BbDbCmd → Stmt → Prop
  | election (id : Id) (cfg : BbConfig) : MaySend (.insertElection id cfg)
      (.insertElection (fmtInt (idSeq id.val)) id cfg.title .draft cfg.openTime cfg.closeTime)
  | option {id : Id} {cfg : BbConfig} {i : Nat} {name : OptionName} (hi : i < bbMaxOptions)
      (hname : name ∈ cfg.options) : MaySend (.insertElection id cfg)
      (.insertOption id (fmtInt i) name)
  | eligible {id : Id} {cfg : BbConfig} {cert : CertName} (hcert : cert ∈ cfg.eligible)
      (hsafe : unsafeField cert.val = false) : MaySend (.insertElection id cfg)
      (.insertEligible id cert)
  | carried {id : Id} {st : BbState} : MaySend (.updateState id st) (.selectCarried id)
  | dropElection {id : Id} {st : BbState} : MaySend (.updateState id st) (.deleteElection id)
  | state {id : Id} {st : BbState} {seq : Bytes} {title : Title} {openTime closeTime : Time} :
      MaySend (.updateState id st) (.insertElection seq id title st openTime closeTime)
  | append {id : Id} {row : BbBallotHash} : MaySend (.appendBallot id row)
      (.insertBallot id row.hash (fmtInt row.optionIndex) (fmtInt row.version)
        (fmtInt row.superseded))
  | marked {id : Id} {hash : Hash} : MaySend (.markSuperseded id hash) (.selectBallot id hash)
  | dropBallot {id : Id} {hash : Hash} : MaySend (.markSuperseded id hash) (.deleteBallot id hash)
  | mark {id : Id} {hash : Hash} {opt ver : Bytes} : MaySend (.markSuperseded id hash)
      (.insertBallot id hash opt ver (bytes "1"))
  | nonceMark {id : Id} {nonce : Nonce} : MaySend (.nonceMark id nonce) (.insertNonce id nonce)
  | dropOwner {id : Id} {cert : CertName} {hash : Hash} {version : Int} :
      MaySend (.setOwner id cert hash version) (.deleteOwner id cert)
  | owner {id : Id} {cert : CertName} {hash : Hash} {version : Int} :
      MaySend (.setOwner id cert hash version) (.insertOwner id cert hash (fmtInt version))
  | row {id : Id} : MaySend (.getElection id) (.selectElection id)
  | options {id : Id} : MaySend (.getElection id) (.selectOptions id)
  | roll {id : Id} : MaySend (.getElection id) (.selectEligible id)
  | tally {id : Id} : MaySend (.getTally id) (.selectTally id)
  | hashes {id : Id} : MaySend (.getHashes id) (.selectHashes id)
  | findHash {id : Id} {hash : Hash} : MaySend (.findHash id hash) (.selectHash id hash)
  | nonceSeen {id : Id} {nonce : Nonce} : MaySend (.nonceSeen id nonce) (.selectNonce id nonce)
  | prior {id : Id} {cert : CertName} : MaySend (.getPriorBallot id cert) (.selectOwner id cert)

/-- A property of programs that a sequence has if its parts have it, and a
failure if its code is in `E`. -/
structure Walk (E : BbErr → Prop) (P : ∀ {α : Type}, BrainM α → Prop) : Prop where
  ret : ∀ {α : Type} (a : α), P (.ret a : BrainM α)
  fail : ∀ {α : Type} {e : BbErr}, E e → P (.fail e : BrainM α)
  bind : ∀ {α β : Type} {p : BrainM α} {f : α → BrainM β}, P p → (∀ a, P (f a)) → P (p >>= f)
  log : ∀ line, P (bbLog line)

namespace Walk

variable {E : BbErr → Prop} {P : ∀ {α : Type}, BrainM α → Prop}

/-! ## The commands of the seam -/

theorem readElection_error {body : Bytes} {e : BbErr} (h : readElection body = .error e) :
    e = .db := by
  unfold readElection at h
  split at h
  · cases h
    rfl
  · cases h
  · split at h
    · split at h <;> cases h
      rfl
    · cases h
      rfl

theorem readPrior_error {body : Bytes} {e : BbErr} (h : readPrior body = .error e) :
    e = .db := by
  unfold readPrior at h
  split at h
  · cases h
  · cases h
  · split at h <;> cases h
    rfl

section Commands

variable (hP : Walk E P) (hdb : E .db)
include hP

theorem then_ {α : Type} {sql : Stmt} {cap : Nat} {p : BrainM α} (h : P (execStmt sql cap))
    (hp : P p) : P (execStmt sql cap >>= fun _ => p) :=
  hP.bind h fun _ => hp

include hdb

theorem insertOptions {id : Id} {cfg : BbConfig}
    (h : ∀ sql cap, (BbDbCmd.insertElection id cfg).MaySend sql → P (execStmt sql cap)) (i : Nat)
    (os : List OptionName) (hos : ∀ o ∈ os, o ∈ cfg.options) (hi : i + os.length ≤ bbMaxOptions) :
    P (insertOptions id i os) := by
  induction os generalizing i with
  | nil => exact hP.ret ()
  | cons o os ih =>
    simp only [length_cons] at hi
    rw [Brain.insertOptions]
    split
    · exact hP.fail hdb
    · exact hP.then_ (h _ _ (.option (by omega) (hos o (by simp))))
        (ih (i + 1) (fun x hx => hos x (by simp [hx])) (by omega))

theorem insertEligibles {id : Id} {cfg : BbConfig}
    (h : ∀ sql cap, (BbDbCmd.insertElection id cfg).MaySend sql → P (execStmt sql cap))
    (cs : List CertName) (hcs : ∀ c ∈ cs, c ∈ cfg.eligible) : P (insertEligibles id cs) := by
  induction cs with
  | nil => exact hP.ret ()
  | cons c cs ih =>
    rw [Brain.insertEligibles]
    split
    · exact hP.fail hdb
    · rename_i hsafe
      exact hP.then_ (h _ _ (.eligible (hcs c (by simp)) (by simpa using hsafe)))
        (ih fun x hx => hcs x (by simp [hx]))

/-- A command has the property if the statements it may send have it. -/
theorem runOp {cmd : BbDbCmd} (h : ∀ sql cap, cmd.MaySend sql → P (execStmt sql cap)) :
    P (runOp cmd) := by
  cases cmd with
  | insertElection id cfg =>
    refine hP.bind ?_ fun _ => hP.ret _
    unfold runInsertElection
    split
    · exact hP.fail hdb
    · exact hP.then_ (h _ _ (.election id cfg)) (hP.bind (hP.insertOptions hdb h 0 cfg.options
        (fun _ ho => ho) (by have := cfg.options_le; omega)) fun _ =>
          hP.insertEligibles hdb h cfg.eligible fun _ hc => hc)
  | updateState id st =>
    refine hP.bind (hP.bind (h _ _ .carried) fun body => ?_) fun _ => hP.ret _
    split
    · exact hP.fail hdb
    · exact hP.then_ (h _ _ .dropElection) (hP.then_ (h _ _ .state) (hP.ret _))
  | appendBallot id row =>
    exact hP.bind (hP.then_ (h _ _ .append) (hP.ret _)) fun _ => hP.ret _
  | markSuperseded id hash =>
    refine hP.bind (hP.bind (h _ _ .marked) fun body => ?_) fun _ => hP.ret _
    split
    · exact hP.fail hdb
    · exact hP.then_ (h _ _ .dropBallot) (hP.then_ (h _ _ .mark) (hP.ret _))
  | nonceMark id nonce =>
    exact hP.bind (hP.then_ (h _ _ .nonceMark) (hP.ret _)) fun _ => hP.ret _
  | setOwner id cert hash version =>
    exact hP.bind (hP.then_ (h _ _ .dropOwner) (hP.then_ (h _ _ .owner) (hP.ret _)))
      fun _ => hP.ret _
  | getElection id =>
    refine hP.bind (h _ _ .row) fun body => ?_
    cases hread : readElection body with
    | error e => exact hP.fail (readElection_error hread ▸ hdb)
    | ok found =>
      cases found with
      | none => exact hP.ret _
      | some e => exact hP.bind (h _ _ .options) fun _ => hP.bind (h _ _ .roll) fun _ => hP.ret _
  | getTally id => exact hP.bind (h _ _ .tally) fun _ => hP.ret _
  | getHashes id => exact hP.bind (h _ _ .hashes) fun _ => hP.ret _
  | findHash id hash =>
    refine hP.bind (h _ _ .findHash) fun body => ?_
    split
    · exact hP.ret _
    · exact hP.ret _
    · split
      · exact hP.fail hdb
      · exact hP.ret _
  | nonceSeen id nonce => exact hP.bind (h _ _ .nonceSeen) fun _ => hP.ret _
  | getPriorBallot id cert =>
    refine hP.bind (h _ _ .prior) fun body => ?_
    cases hprior : readPrior body with
    | error e => exact hP.fail (readPrior_error hprior ▸ hdb)
    | ok found => cases found <;> exact hP.ret _

end Commands

/-! ## Recording a ballot -/

section Record

variable (hP : Walk E P) {ctx : BbCtx} {eid : Id}
include hP

theorem logNotEligible (tag : Bytes) (eid : Id) (cert : CertName) (e : BbElection) :
    P (logNotEligible tag eid cert e) := by
  have hlist : ∀ (names : List CertName) (i : Nat), P (logNotEligible.logList tag i names) := by
    intro names
    induction names with
    | nil => exact fun i => hP.ret _
    | cons name names ih => exact fun i => hP.bind (hP.log _) fun _ => ih _
  exact hP.bind (hP.log _) fun _ => hlist _ _

theorem loadElection (hE : E .notFound) (h : P (dbExec ctx (.getElection eid))) :
    P (loadElection ctx eid) := by
  refine hP.bind h fun res => ?_
  split
  · exact hP.ret _
  · exact hP.fail hE

variable (hE : ∀ e, e ≠ .retry → E e) (h : ∀ cmd, P (dbExec ctx cmd))
include hE h

theorem recordChecks (eid : Id) (b : BbBallot) : P (recordChecks ctx eid b) := by
  have hfail : ∀ {α : Type} {e : BbErr}, e ≠ .retry → P (.fail e : BrainM α) :=
    fun he => hP.fail (hE _ he)
  have hgate : P (recordGate ctx eid b) := by
    refine hP.bind (hP.loadElection (hE _ (by simp)) (h _)) fun election => ?_
    split
    · exact hfail (by simp)
    · split
      · exact hfail (by simp)
      · split
        · exact hP.bind (hP.logNotEligible _ _ _ _) fun _ => hfail (by simp)
        · refine hP.bind (hP.bind (hP.log _) fun _ => hP.ret _) fun option => ?_
          split
          · exact hfail (by simp)
          · exact hP.ret _
  refine hP.bind hgate fun option => hP.bind (h _) fun seen => ?_
  split
  · exact hfail (by simp)
  · exact hP.bind (h _) fun prior => hP.ret _

omit hE in
theorem recordWrites (eid : Id) (b : BbBallot) (option : Int) (prior : BbDbResult) :
    P (recordWrites ctx eid b option prior) := by
  refine hP.bind (hP.bind (hP.log _) fun _ => hP.ret _) fun receipt => hP.bind (h _) fun _ =>
    hP.bind ?_ fun _ => hP.bind (h _) fun _ => hP.bind (h _) fun _ => hP.ret _
  unfold supersedePrior
  split
  · exact hP.bind (h _) fun _ => hP.ret _
  · exact hP.ret _

end Record

end Walk

/-! ## The other handlers -/

/-- The failure may have any code, and a caller may look at how a program
ended. -/
structure FullWalk (P : ∀ {α : Type}, BrainM α → Prop) : Prop extends Walk (fun _ => True) P where
  bind_attempt : ∀ {α β : Type} {p : BrainM α} {f : Except BbErr α → BrainM β},
    P p → (∀ r, P (f r)) → P (p.attempt >>= f)

namespace FullWalk

variable {P : ∀ {α : Type}, BrainM α → Prop} (hP : FullWalk P) {ctx : BbCtx} {eid : Id}
include hP

theorem dbExec_alone {cmd : BbDbCmd} (h : P (oneShotAttempt cmd)) : P (dbExec ⟨false⟩ cmd) := by
  have hloop : ∀ k, P (oneShot cmd k) := by
    intro k
    induction k with
    | zero => exact hP.fail trivial
    | succ k ih =>
      refine hP.bind_attempt h fun r => ?_
      cases r with
      | ok out => exact hP.ret _
      | error e =>
        dsimp only
        split
        · exact ih
        · exact hP.fail trivial
  exact hP.bind (hP.log _) fun _ => hloop _

variable (hload : P (dbExec ctx (.getElection eid)))
include hload

theorem create {cfg : BbConfig} (halloc : P bbAllocId)
    (hinsert : ∀ id, P (dbExec ctx (.insertElection id cfg))) :
    P (bbCreateElection ctx cfg eid) := by
  unfold bbCreateElection
  split
  · exact hP.bind (hP.log _) fun _ => hP.fail trivial
  · refine hP.bind ?_ fun id => hP.bind (hinsert id) fun _ => hP.ret _
    unfold chooseId
    split
    · refine hP.bind_attempt (hP.loadElection trivial hload) fun r => ?_
      split
      · exact hP.bind (hP.log _) fun _ => hP.fail trivial
      · split
        · exact hP.ret _
        · exact hP.fail trivial
    · exact halloc

theorem transition {dst : BbState} (hupdate : P (dbExec ctx (.updateState eid dst))) :
    P (bbTransitionState ctx eid dst) := by
  refine hP.bind hload fun res => ?_
  split
  · exact hP.fail trivial
  · split
    · exact hP.bind (hP.log _) fun _ => hP.fail trivial
    · exact hP.bind hupdate fun _ => hP.ret _

theorem join {cert : CertName} (hprior : P (dbExec ctx (.getPriorBallot eid cert))) :
    P (bbJoin ctx eid cert) := by
  refine hP.bind (hP.loadElection trivial hload) fun election => hP.bind ?_ fun status => ?_
  · unfold bbVerifyCert
    split
    · exact hP.ret _
    · exact hP.bind (hP.log _) fun _ => hP.ret _
  · split
    · exact hP.fail trivial
    · exact hP.fail trivial
    · exact hP.fail trivial
    · split
      · exact hP.bind (hP.logNotEligible _ _ _ _) fun _ => hP.fail trivial
      · split
        · exact hP.bind (hP.log _) fun _ => hP.fail trivial
        · exact hP.bind_attempt hprior fun _ => hP.ret _

theorem lookupHash {hash : Hash} (hfind : P (dbExec ctx (.findHash eid hash))) :
    P (bbLookupHash ctx eid hash) := by
  refine hP.bind (hP.loadElection trivial hload) fun election => hP.bind hfind fun res => ?_
  split
  · exact hP.fail trivial
  · exact hP.ret _

variable (htally : P (dbExec ctx (.getTally eid))) (hhashes : P (dbExec ctx (.getHashes eid)))
include htally hhashes

omit hload in
theorem fetchResults (e : BbElection) : P (fetchResults ctx eid e) :=
  hP.bind htally fun _ => hP.bind hhashes fun _ => hP.ret _

theorem results (cert : CertName) : P (bbGetResults ctx eid cert) := by
  refine hP.bind (hP.loadElection trivial hload) fun election => ?_
  split
  · exact hP.fail trivial
  · split
    · exact hP.fail trivial
    · exact hP.fetchResults htally hhashes _

theorem resultsAdmin : P (bbGetResultsAdmin ctx eid) := by
  refine hP.bind (hP.loadElection trivial hload) fun election => ?_
  split
  · exact hP.fail trivial
  · exact hP.fetchResults htally hhashes _

end FullWalk

end Corestack.Brain
