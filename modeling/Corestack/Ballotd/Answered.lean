import Corestack.Client.Answer
import Corestack.Ballotd.Dispatch

/-!
# Does every request get an answer?

Whatever the store replies, the response that `ballotd_dispatch` builds is
within the bounds of its arrays. What is left that can keep it from being
sent is a status without a name and a text with a line break in it. Both are
traced back to the replies: the status without a name is what a ballot ends
with if its last attempt was told to retry, and a text that comes from the
store can only have a carriage return in it if a reply has one.
-/

namespace Corestack.Ballotd

open List Lib Corestack.Core Db Brain Client

/-! ## Specifications of the calls -/

def replyBody : (op : Op) → Reply op → Bytes
  | .exec _ _, r => r.2
  | .log _, _ => []
  | .connect, _ => []
  | .close, _ => []

/-- No reply has a carriage return in it. -/
def NoCr (G : (op : Op) → Reply op → Prop) : Prop := ∀ op r, G op r → cr ∉ replyBody op r

variable {G : (op : Op) → Reply op → Prop}

section Specs

variable {α β : Type}

/-- Values in `Q`, codes in `E`. -/
def Spec (Q : α → Prop) (E : BbErr → Prop) : Except BbErr α → Prop
  | .ok a => Q a
  | .error e => E e

/-- The codes that leave the retry loops of the seam. -/
abbrev Final (e : BbErr) : Prop := e ≠ .retry

theorem ends_trivial (p : BrainM α) : p.EndsIf G fun _ => True := by
  induction p with
  | ret a => exact trivial
  | fail e => exact trivial
  | call op k ih => exact fun r _ => ih r

variable {Q' : β → Prop} {f : α → BrainM β}

theorem ends_bind {Q : α → Prop} {E : BbErr → Prop} {p : BrainM α} (hp : p.EndsIf G (Spec Q E))
    (hf : ∀ a, Q a → (f a).EndsIf G (Spec Q' E)) : (p >>= f).EndsIf G (Spec Q' E) :=
  hp.bind hf fun _ h => h

theorem ends_walk : Walk Final fun {_} p => p.EndsIf G (Spec (fun _ => True) Final) :=
  ⟨fun _ => trivial, fun h => h, fun hp hf => ends_bind hp fun a _ => hf a, fun _ _ _ => trivial⟩

/-- What a program returns, whatever codes it fails with. -/
abbrev Returns (G : (op : Op) → Reply op → Prop) (Q : α → Prop) (p : BrainM α) : Prop :=
  p.EndsIf G (Spec Q fun _ => True)

theorem returns_bind (p : BrainM α) (hf : ∀ a, Returns G Q' (f a)) : Returns G Q' (p >>= f) :=
  (ends_trivial p).bind (fun a _ => hf a) fun _ _ => trivial

theorem returns_execStmt (sql : Brain.Stmt) (cap : Nat) :
    Returns G (fun body => NoCr G → cr ∉ body) (execStmt sql cap) := by
  rintro ⟨st, body⟩ hr
  cases st with
  | ok => exact fun hG => hG _ _ hr
  | retry | error | io | timeout => exact trivial

end Specs

/-! ## What the seam returns -/

structure ShapedResult (out : BbDbResult) : Prop where
  optionCount : out.election.optionCount ≤ bbMaxOptions
  row : IntRow out.row
  tally : ∀ i, IsInt32 (out.tally i)
  hashes : out.hashes.length ≤ bbMaxVoters
  rows : ∀ h ∈ out.hashes, IntRow h

/-- No text that is told about an election breaks a line. -/
structure CleanElection (e : BbElection) : Prop where
  texts : ∀ t ∈ [e.id.val, e.title.val, e.openTime.val, e.closeTime.val], breaksLine t = false
  options : ∀ i, breaksLine (e.options i).val = false

/-- A result read from replies in `G`. -/
structure ResultFrom (G : (op : Op) → Reply op → Prop) (out : BbDbResult) : Prop
    extends ShapedResult out where
  election : NoCr G → CleanElection out.election
  hashTexts : NoCr G → ∀ h ∈ out.hashes, breaksLine h.hash.val = false

theorem isInt32_zero : IsInt32 0 := by decide

theorem intRow_default : IntRow default := ⟨isInt32_zero, isInt32_zero, isInt32_zero⟩

theorem cleanElection_default : CleanElection default := ⟨by decide, fun _ => rfl⟩

theorem result_none : ResultFrom G {} :=
  ⟨⟨Nat.zero_le _, intRow_default, fun _ => isInt32_zero, Nat.zero_le _,
    fun _ h => absurd h not_mem_nil⟩, fun _ => cleanElection_default,
    fun _ _ h => absurd h not_mem_nil⟩

theorem isInt32_fieldInt (f : Bytes) : IsInt32 (fieldInt f) := isInt32_toInt32 _

theorem dbRowCount_lt (body : Bytes) : (dbRowCount body).getD 0 < 2 ^ 31 := by
  cases h : dbRowCount body with
  | none => decide
  | some n =>
    obtain ⟨rows, -, hcount⟩ := Option.bind_eq_some_iff.mp h
    obtain ⟨_, _, _, _, _, _, ht⟩ := blockCount_eq_some hcount
    exact trailerCount_lt ht

theorem countOption_le (body : Bytes) (t : Fin bbMaxOptions → Nat) (i : Nat)
    (j : Fin bbMaxOptions) :
    countOption body t i j ≤ t j + 1 := by
  unfold countOption
  rcases dbRowFields body i with _ | _ | ⟨f, fs⟩
  · exact Nat.le_succ _
  · exact Nat.le_succ _
  · show (if _ then t j + 1 else t j) ≤ t j + 1
    split
    · exact Nat.le_refl _
    · exact Nat.le_succ _

theorem foldl_countOption_le (body : Bytes) (j : Fin bbMaxOptions) :
    ∀ (is : List Nat) (t : Fin bbMaxOptions → Nat),
      is.foldl (countOption body) t j ≤ t j + is.length
  | [], _ => Nat.le_refl _
  | i :: is, t => by
    have h1 := foldl_countOption_le body j is (countOption body t i)
    have h2 := countOption_le body t i j
    rw [foldl_cons, length_cons]
    omega

theorem isInt32_readTally (body : Bytes) (j : Fin bbMaxOptions) : IsInt32 (readTally body j) := by
  have h1 := foldl_countOption_le body j (List.range ((dbRowCount body).getD 0)) fun _ => 0
  have h2 := dbRowCount_lt body
  rw [length_range, Nat.zero_add] at h1
  unfold IsInt32 readTally
  omega

variable {h : BbBallotHash}

theorem intRow_readHashRow {body : Bytes} {i : Nat} (hh : readHashRow body i = some h) :
    IntRow h := by
  unfold readHashRow at hh
  split at hh
  · cases hh
    exact ⟨isInt32_fieldInt _, isInt32_fieldInt _, isInt32_fieldInt _⟩
  · cases hh

/-! ### The texts -/

section Texts

variable {n : Nat} {f body : Bytes}

theorem breaksLine_copy [NeZero n] (hlf : lf ∉ f) (hcr : cr ∉ f) :
    breaksLine (CStr.copy n f).val = false :=
  breaksLine_eq_false.mpr
    ⟨fun h => hlf (CStr.mem_of_mem_copy h), fun h => hcr (CStr.mem_of_mem_copy h)⟩

theorem breaksLine_field [NeZero n] (hcr : cr ∉ body) {i : Nat} {fs : List Bytes}
    (hfs : dbRowFields body i = some fs) (hf : f ∈ fs) :
    breaksLine (CStr.copy n f).val = false := by
  obtain ⟨hlf, hsub⟩ := mem_dbRowFields hfs hf
  exact breaksLine_copy hlf fun h => hcr (hsub h)

variable {e : BbElection}

theorem readElection_some (h : readElection body = .ok (some e)) :
    ∃ f₀ f₁ f₂ f₃ f₄ f₅ fs st, dbRowFields body 0 = some (f₀ :: f₁ :: f₂ :: f₃ :: f₄ :: f₅ :: fs) ∧
      e = { (default : BbElection) with
        id := CStr.copy _ f₁, title := CStr.copy _ f₂, state := st, openTime := CStr.copy _ f₄,
        closeTime := CStr.copy _ f₅ } := by
  unfold readElection at h
  split at h
  · cases h
  · cases h
  · split at h
    · rename_i f₀ f₁ f₂ f₃ f₄ f₅ fs hfields
      split at h
      · cases h
      · rename_i st _
        cases h
        exact ⟨f₀, f₁, f₂, f₃, f₄, f₅, fs, st, hfields, rfl⟩
    · cases h

theorem cleanElection_read (hcr : cr ∉ body) (hread : readElection body = .ok (some e)) :
    CleanElection e := by
  obtain ⟨f₀, f₁, f₂, f₃, f₄, f₅, fs, st, hfields, rfl⟩ := readElection_some hread
  refine ⟨fun t ht => ?_, fun _ => rfl⟩
  simp only [mem_cons, not_mem_nil, or_false] at ht
  rcases ht with rfl | rfl | rfl | rfl <;> exact breaksLine_field hcr hfields (by simp)

theorem clean_readOptions {P : Bytes → Prop}
    (hfield : ∀ k f₀ f₁ fs, dbRowFields body k = some (f₀ :: f₁ :: fs) →
      P (CStr.copy bbOptionLen f₁).val) (he : ∀ i, P (e.options i).val) (i : Fin bbMaxOptions) :
    P ((readOptions body e).options i).val := by
  have hplace : ∀ (opts : Fin bbMaxOptions → OptionName) k, (∀ i, P (opts i).val) →
      ∀ i, P (placeOption body opts k i).val := by
    intro opts k hopts i
    unfold placeOption
    rcases hfields : dbRowFields body k with _ | _ | ⟨f₀, _ | ⟨f₁, fs⟩⟩
    · exact hopts i
    · exact hopts i
    · exact hopts i
    · dsimp only
      split
      · exact hfield k f₀ f₁ fs hfields
      · exact hopts i
  have hfold : ∀ (ks : List Nat) (opts : Fin bbMaxOptions → OptionName),
      (∀ i, P (opts i).val) → ∀ i, P (ks.foldl (placeOption body) opts i).val := by
    intro ks
    induction ks with
    | nil => exact fun _ h => h
    | cons k ks ih => exact fun opts h => ih _ (hplace opts k h)
  exact hfold _ _ he i

theorem readHashes_row (hh : h ∈ readHashes body) :
    IntRow h ∧ (cr ∉ body → breaksLine h.hash.val = false) := by
  obtain ⟨i, -, hi⟩ := mem_filterMap.mp (mem_of_mem_take hh)
  refine ⟨intRow_readHashRow hi, fun hcr => ?_⟩
  unfold readHashRow at hi
  split at hi
  · rename_i hfields
    cases hi
    exact breaksLine_field hcr hfields (by simp)
  · cases hi

end Texts

theorem returns_runGetElection (eid : Id) : Returns G (ResultFrom G) (runGetElection eid) := by
  refine (returns_execStmt _ _).bind (fun body hbody => ?_) fun _ _ => trivial
  cases hread : readElection body with
  | error e => exact trivial
  | ok found =>
    cases found with
    | none => exact result_none
    | some e =>
      refine (returns_execStmt _ _).bind (fun opts hopts => ?_) fun _ _ => trivial
      refine returns_bind _ fun roll => ?_
      refine ⟨⟨Nat.min_le_right _ _, intRow_default, fun _ => isInt32_zero, Nat.zero_le _,
        fun _ h => absurd h not_mem_nil⟩, fun hG => ?_, fun _ _ h => absurd h not_mem_nil⟩
      have he := cleanElection_read (hbody hG) hread
      exact ⟨he.texts, clean_readOptions (P := fun t => breaksLine t = false)
        (fun _ _ _ _ hfields => breaksLine_field (hopts hG) hfields (by simp)) he.options⟩

theorem returns_runFindHash (eid : Id) (hash : Hash) :
    Returns G (ResultFrom G) (runFindHash eid hash) := by
  refine returns_bind _ fun body => ?_
  split
  · exact result_none
  · exact result_none
  · split
    · exact trivial
    · rename_i row hrow
      exact { result_none with row := intRow_readHashRow hrow }

theorem returns_runGetPriorBallot (eid : Id) (cert : CertName) :
    Returns G (ResultFrom G) (runGetPriorBallot eid cert) := by
  refine returns_bind _ fun body => ?_
  cases hprior : readPrior body with
  | error e => exact trivial
  | ok found =>
    cases found with
    | none => exact result_none
    | some x =>
      have hver : IsInt32 x.2 := by
        unfold readPrior at hprior
        split at hprior
        · cases hprior
        · cases hprior
        · split at hprior
          · cases hprior
            exact isInt32_fieldInt _
          · cases hprior
      exact { result_none with row := ⟨isInt32_zero, hver, isInt32_zero⟩ }

/-- Whatever the replies say, a result is within its bounds, and its texts
are no worse than theirs. -/
theorem returns_runOp (cmd : BbDbCmd) : Returns G (ResultFrom G) (runOp cmd) := by
  cases cmd with
  | insertElection | updateState | appendBallot | markSuperseded | nonceMark | setOwner =>
    exact returns_bind _ fun _ => result_none
  | getElection id => exact returns_runGetElection id
  | getTally id =>
    exact returns_bind _ fun body => { result_none with tally := isInt32_readTally body }
  | getHashes id =>
    refine (returns_execStmt _ _).bind (fun body hbody => ?_) fun _ _ => trivial
    exact { result_none with
      hashes := length_take_le _ _, rows := fun h hh => (readHashes_row hh).1,
      hashTexts := fun hG h hh => (readHashes_row hh).2 (hbody hG) }
  | findHash id hash => exact returns_runFindHash id hash
  | nonceSeen id nonce => exact returns_bind _ fun body => { result_none with }
  | getPriorBallot id cert => exact returns_runGetPriorBallot id cert

theorem returns_oneShotBody (cmd : BbDbCmd) : Returns G (ResultFrom G) (oneShotBody cmd) := by
  have hop := returns_runOp (G := G) cmd
  unfold oneShotBody
  split
  · refine (returns_bind _ fun _ => hop).bind_attempt fun r hr => ?_
    cases r with
    | ok out => exact returns_bind _ fun _ => hr
    | error e =>
      dsimp only
      split
      · exact trivial
      · exact returns_bind _ fun _ => trivial
  · exact hop

theorem returns_oneShotAttempt (cmd : BbDbCmd) :
    Returns G (ResultFrom G) (oneShotAttempt cmd) := by
  refine returns_bind _ fun ok => ?_
  cases ok with
  | false => exact trivial
  | true =>
    refine (returns_oneShotBody cmd).bind_attempt fun r hr => ?_
    exact returns_bind _ fun _ => by cases r <;> exact hr

/-- `db_exec` outside a transaction: `BB_ERR_RETRY` stays inside. -/
theorem ends_dbExec (cmd : BbDbCmd) :
    (dbExec ⟨false⟩ cmd).EndsIf G (Spec (ResultFrom G) Final) := by
  have hloop : ∀ n, (oneShot cmd n).EndsIf G (Spec (ResultFrom G) Final) := by
    intro n
    induction n with
    | zero => exact fun h => nomatch h
    | succ n ih =>
      refine (returns_oneShotAttempt cmd).bind_attempt fun r hr => ?_
      cases r with
      | ok out => exact hr
      | error e =>
        dsimp only
        split
        · exact ih
        · assumption
  exact fun _ _ => hloop _

/-! ### The texts of a response -/

section Clean

variable {op : BclOp} {resp : BclResponse}

theorem clean_id (hop : op = .create ∨ op = .adminNextId)
    (hid : breaksLine resp.election.id.val = false) : Clean op resp := by
  rcases hop with rfl | rfl <;> simp [Clean, responseTexts, hid]

theorem clean_join (he : CleanElection resp.election) : Clean .join resp := by
  intro t ht
  unfold responseTexts at ht
  dsimp only at ht
  split at ht
  · rcases mem_append.mp ht with ht | ht
    · exact he.texts t ht
    · obtain ⟨i, -, rfl⟩ := mem_map.mp ht
      exact he.options i
  · cases ht

theorem clean_results (hop : op = .results ∨ op = .adminResults)
    (hid : breaksLine resp.election.id.val = false)
    (htitle : breaksLine resp.election.title.val = false)
    (hopts : ∀ i, breaksLine (resp.options i).val = false)
    (hhashes : ∀ h ∈ resp.hashes, breaksLine h.hash.val = false) : Clean op resp := by
  have hused : ∀ t ∈ if 0 < resp.optionCount then (inUse resp.optionCount).map fun i =>
      (resp.options i).val else [], breaksLine t = false := by
    split <;> simp [hopts]
  rcases hop with rfl | rfl <;>
    simp only [Clean, responseTexts, forall_mem_append, forall_mem_cons, forall_mem_map] <;>
    exact ⟨⟨⟨hid, htitle, by simp⟩, hused⟩, hhashes⟩

theorem clean_check (hop : op = .check ∨ op = .adminCheck)
    (hname : breaksLine resp.foundOptionName.val = false) : Clean op resp := by
  rcases hop with rfl | rfl <;> simp [Clean, responseTexts, hname]

theorem clean_recorded (hop : op = .cast ∨ op = .update)
    (hhash : breaksLine resp.receipt.hash.val = false)
    (htime : breaksLine resp.receipt.issuedAt.val = false) : Clean op resp := by
  rcases hop with rfl | rfl <;> simp only [Clean, responseTexts] <;> split <;> simp [hhash, htime]

theorem clean_of (op : BclOp) (status : Option BbErr) : Clean op (.of status) := by
  cases op with
  | create | adminNextId => exact clean_id (by simp) rfl
  | opening | closing | publish => exact fun t ht => absurd ht not_mem_nil
  | join => exact clean_join cleanElection_default
  | cast | update => exact clean_recorded (by simp) rfl rfl
  | results | adminResults =>
    exact clean_results (by simp) rfl rfl (fun _ => rfl) fun h hh => absurd hh not_mem_nil
  | check | adminCheck => exact clean_check (by simp) rfl

end Clean

/-! ## What the handlers return -/

theorem ends_loadElection (eid : Id) :
    (loadElection ⟨false⟩ eid).EndsIf G
      (Spec (fun e => e.optionCount ≤ bbMaxOptions ∧ (NoCr G → CleanElection e)) Final) := by
  refine ends_bind (ends_dbExec _) fun res hres => ?_
  split
  · exact ⟨hres.optionCount, hres.election⟩
  · exact fun h => nomatch h

theorem ends_bbTransitionState (eid : Id) (dst : BbState) :
    (bbTransitionState ⟨false⟩ eid dst).EndsIf G (Spec (fun _ => True) Final) := by
  refine ends_bind (ends_dbExec _) fun res hres => ?_
  split
  · exact fun h => nomatch h
  · split
    · exact fun _ _ h => nomatch h
    · exact ends_bind (ends_dbExec _) fun _ _ => trivial

theorem breaksLine_allocated (k : Int) :
    breaksLine (CStr.copy bbIdLen (bytes "E-" ++ fmtInt k)).val = false := by
  refine breaksLine_copy (fun h => ?_) fun h => ?_
  all_goals
    rcases mem_append.mp h with h | h
    · exact absurd h (by decide +kernel)
    · exact notMem_fmtInt rfl (by decide) h

theorem ends_bbAllocId : bbAllocId.Ends fun r =>
    ∃ k, r = .ok (CStr.copy bbIdLen (bytes "E-" ++ fmtInt k)) := by
  intro ok
  cases ok with
  | false => exact ⟨100, rfl⟩
  | true => exact fun _ _ => ⟨_, rfl⟩

theorem ends_chooseId (desired : Id) :
    (chooseId ⟨false⟩ desired).EndsIf G
      (Spec (fun id => breaksLine desired.val = false → breaksLine id.val = false) Final) := by
  unfold chooseId
  split
  · refine (ends_loadElection desired).bind_attempt fun r hr => ?_
    cases r with
    | ok e => exact fun _ _ h => nomatch h
    | error e =>
      dsimp only
      split
      · exact id
      · exact hr
  · refine Prog.Notes.endsIf ends_bbAllocId ?_
    rintro - _ ⟨k, rfl⟩
    exact fun _ => breaksLine_allocated k

theorem ends_bbCreateElection (cfg : BbConfig) (desired : Id) :
    (bbCreateElection ⟨false⟩ cfg desired).EndsIf G
      (Spec (fun id => breaksLine desired.val = false → breaksLine id.val = false) Final) := by
  unfold bbCreateElection
  cases hcfg : bbValidateConfig cfg with
  | error e =>
    refine fun _ _ => ?_
    unfold bbValidateConfig at hcfg
    rintro rfl
    split at hcfg
    · cases hcfg
    · split at hcfg
      · cases hcfg
      · split at hcfg <;> cases hcfg
  | ok u =>
    exact ends_bind (ends_chooseId desired) fun id hid => ends_bind (ends_dbExec _) fun _ _ => hid

/-- The prior version that `bb_join` found, or the code its lookup ended with. -/
def PriorOk : Except BbErr (Option Int) → Prop := Spec (fun v => IsInt32 (v.getD 0)) Final

theorem ends_bbJoin (eid : Id) (cert : CertName) :
    (bbJoin ⟨false⟩ eid cert).EndsIf G
      (Spec (fun x => PriorOk x.2 ∧ (NoCr G → CleanElection x.1)) Final) := by
  refine ends_bind (ends_loadElection eid) fun election helection => ?_
  unfold bbVerifyCert
  split
  · exact fun h => nomatch h
  · intro _ _
    show (if _ then _ else _ : BrainM _).EndsIf G _
    split
    · exact ends_bind (ends_walk.logNotEligible _ _ _ _) fun _ _ h => nomatch h
    · split
      · exact fun _ _ h => nomatch h
      · refine (ends_dbExec _).bind_attempt fun r hr => ?_
        refine ⟨?_, helection.2⟩
        cases r with
        | error e => exact hr
        | ok res =>
          show IsInt32 (Option.getD (if res.found then some res.row.version else none) 0)
          split
          · exact hr.row.version
          · exact isInt32_zero

structure ResultsFrom (G : (op : Op) → Reply op → Prop) (eid : Id) (res : BbResults) : Prop where
  shaped : Shaped (resultsResponse eid res)
  clean : NoCr G → breaksLine eid.val = false →
    ∀ op, op = .results ∨ op = .adminResults → Clean op (resultsResponse eid res)

theorem ends_fetchResults (eid : Id) {e : BbElection} (he : e.optionCount ≤ bbMaxOptions)
    (hclean : NoCr G → CleanElection e) :
    (fetchResults ⟨false⟩ eid e).EndsIf G (Spec (ResultsFrom G eid) Final) := by
  refine ends_bind (ends_dbExec _) fun tally ht => ends_bind (ends_dbExec _) fun hashes hh => ?_
  refine ⟨⟨isInt32_zero, fun i => ?_, he, length_take_le _ _,
    fun h hmem => hh.rows h (mem_of_mem_take hmem), isInt32_zero⟩, fun hG heid op hop => ?_⟩
  · show IsInt32 ((if _ then _ else _ : Nat) : Int)
    split
    · exact ht.tally i
    · exact isInt32_zero
  · refine clean_results hop heid ((hclean hG).texts e.title.val (by simp)) (fun i => ?_)
      fun h hmem => hh.hashTexts hG h (mem_of_mem_take hmem)
    show breaksLine (if _ then _ else _ : OptionName).val = false
    split
    · exact (hclean hG).options i
    · rfl

theorem ends_bbGetResultsAdmin (eid : Id) :
    (bbGetResultsAdmin ⟨false⟩ eid).EndsIf G (Spec (ResultsFrom G eid) Final) := by
  refine ends_bind (ends_loadElection eid) fun e he => ?_
  split
  · exact fun h => nomatch h
  · exact ends_fetchResults eid he.1 he.2

theorem ends_bbGetResults (eid : Id) (cert : CertName) :
    (bbGetResults ⟨false⟩ eid cert).EndsIf G (Spec (ResultsFrom G eid) Final) := by
  refine ends_bind (ends_loadElection eid) fun e he => ?_
  split
  · exact fun h => nomatch h
  · split
    · exact fun h => nomatch h
    · exact ends_fetchResults eid he.1 he.2

theorem ends_bbLookupHash (eid : Id) (hash : Hash) :
    (bbLookupHash ⟨false⟩ eid hash).EndsIf G
      (Spec (fun x => IsInt32 x.1.optionIndex ∧ (NoCr G → breaksLine x.2.val = false)) Final) := by
  refine ends_bind (ends_loadElection eid) fun e he =>
    ends_bind (ends_dbExec _) fun res hres => ?_
  split
  · exact fun h => nomatch h
  · refine ⟨hres.row.optionIndex, fun hG => ?_⟩
    dsimp only
    split
    · exact (he.2 hG).options _
    · rfl

/-! ## The dispatcher -/

theorem shaped_of (status : Option BbErr) : Shaped (.of status) :=
  ⟨isInt32_zero, fun _ => isInt32_zero, Nat.zero_le _, Nat.zero_le _,
    fun _ h => absurd h not_mem_nil, isInt32_zero⟩

/-- What dispatching a request comes to: a response within its bounds, with
texts that are no worse than those of the request and the replies, and with
`BB_ERR_RETRY` only for a ballot. -/
def DispatchOk (G : (op : Op) → Reply op → Prop) (req : BclRequest)
    (r : Except BbErr (BclResponse × BbCtx)) : Prop :=
  ∃ resp, r = .ok (resp, ⟨false⟩) ∧ Shaped resp ∧
    (Records req.op ∨ (NoCr G ∧ breaksLine req.electionId.val = false) → Clean req.op resp) ∧
    (resp.status = some .retry → Records req.op)

variable {req : BclRequest} {resp : BclResponse}

theorem dispatchOk_ok (hop : ¬ Records req.op) (hs : Shaped resp)
    (hclean : NoCr G → breaksLine req.electionId.val = false → Clean req.op resp)
    (hst : resp.status = none) : DispatchOk G req (.ok (resp, ⟨false⟩)) :=
  ⟨resp, rfl, hs, fun h => (h.resolve_left hop).elim hclean, fun h => by rw [hst] at h; cases h⟩

/-- A handler that ends with a code is answered with that code. -/
theorem dispatch_attempt {α : Type} {Q : α → Prop} {p : BrainM α}
    {f : Except BbErr α → BrainM (BclResponse × BbCtx)} (hp : p.EndsIf G (Spec Q Final))
    (herror : ∀ e, f (.error e) = .ret (.of (some e), ⟨false⟩))
    (hok : ∀ a, Q a → (f (.ok a)).EndsIf G (DispatchOk G req)) :
    (p.attempt >>= f).EndsIf G (DispatchOk G req) := by
  refine hp.bind_attempt fun r hr => ?_
  cases r with
  | error e =>
    rw [herror]
    exact ⟨_, rfl, shaped_of _, fun _ => clean_of _ _, fun h => absurd (Option.some.inj h) hr⟩
  | ok a => exact hok a hr

theorem breaksLine_isHash {h : Hash} (hh : IsHash h) : breaksLine h.val = false :=
  breaksLine_eq_false.mpr
    ⟨fun h => absurd (hh.hex _ h) (by decide), fun h => absurd (hh.hex _ h) (by decide)⟩

variable {b : BbBallot} {receipt : BbReceipt}

/-- A response to a ballot: nothing but a status and a receipt that is
empty or was issued for the ballot. -/
theorem dispatchOk_recorded (hop : Records req.op)
    (hr : receipt = default ∨ ∃ v, receipt = receiptOf b v) (r : Except BbErr Unit) :
    DispatchOk G req (.ok ({ statusOf r with receipt }, ⟨false⟩)) := by
  refine ⟨_, rfl, ?_, fun _ => ?_, fun _ => hop⟩
  · cases r <;> exact { shaped_of none with }
  · rcases hr with rfl | ⟨v, rfl⟩
    · exact clean_recorded hop rfl rfl
    · have htime : breaksLine (CStr.copy bbTimeLen (bytes "1970-01-01T00:00:00Z")).val = false := by
        decide +kernel
      exact clean_recorded hop (breaksLine_isHash (isHash_receiptHash b.nonce v)) htime

/-! ## Told to retry -/

/-- Whether the attempt under way has been told to retry. Connecting starts
a new attempt, and nobody looks at the reply to a rollback. -/
def toldToRetry (told : Bool) : (op : Op) → Reply op → Bool
  | .connect, _ => false
  | .exec sql _, r => told || (r.1 = .retry && sql ≠ .rollback)
  | .log _, _ => told
  | .close, _ => told

/-- Whether the attempt that a sequence of calls ends with was told to
retry. -/
def retried (calls : List ((op : Op) × Reply op)) : Bool :=
  calls.foldl (fun told c => toldToRetry told c.1 c.2) false

section Heeds

variable {α β : Type}

/-- In an attempt that was not told to retry so far, a program fails with
`BB_ERR_RETRY` exactly if one of its statements is told to. -/
abbrev Heeds {α : Type} (p : BrainM α) : Prop :=
  p.Notes toldToRetry (fun told r => told = true ↔ r = .error .retry) false

theorem heeds_ret (a : α) : Heeds (.ret a) := by simp [Prog.Notes]

theorem heeds_fail {e : BbErr} (he : Final e) : Heeds (.fail e : BrainM α) := by
  simpa [Prog.Notes] using he

theorem heeds_bind {p : BrainM α} {f : α → BrainM β} (hp : Heeds p) (hf : ∀ a, Heeds (f a)) :
    Heeds (p >>= f) := by
  refine hp.bind (fun a told h => ?_) fun e told h => ?_
  · have htold : told = false := by simpa using h
    rw [htold]
    exact hf a
  · simpa using h

theorem heeds_execStmt {sql : Brain.Stmt} (hsql : sql ≠ .rollback) (cap : Nat) :
    Heeds (execStmt sql cap) := by
  rintro ⟨st, body⟩
  cases st with
  | retry => exact iff_of_true (decide_eq_true hsql) rfl
  | ok | error | io | timeout => exact iff_of_false Bool.false_ne_true fun h => nomatch h

theorem heeds_walk : Walk Final @Heeds :=
  ⟨heeds_ret, heeds_fail, heeds_bind, fun _ _ => heeds_ret ()⟩

theorem heeds_dbExec (cmd : BbDbCmd) : Heeds (dbExec ⟨true⟩ cmd) := fun _ =>
  heeds_walk.runOp (by simp) fun _ cap h => heeds_execStmt (by rintro rfl; cases h) cap

theorem heeds_recordChecks (eid : Id) (b : BbBallot) : Heeds (recordChecks ⟨true⟩ eid b) :=
  heeds_walk.recordChecks (fun _ h => h) heeds_dbExec eid b

theorem heeds_recordWrites (eid : Id) (b : BbBallot) (option : Int) (prior : BbDbResult) :
    Heeds (recordWrites ⟨true⟩ eid b option prior) :=
  heeds_walk.recordWrites heeds_dbExec eid b option prior

end Heeds

/-! ## Recording a ballot -/

/-- The receipt that goes with the result of recording a ballot: none or one
issued for the ballot, and one if the ballot was accepted. -/
structure Handed {α : Type} (b : BbBallot) (res : Except BbErr α) (receipt : BbReceipt) : Prop where
  own : receipt = default ∨ ∃ v, receipt = receiptOf b v
  accepted : ∀ a, res = .ok a → ∃ v, receipt = receiptOf b v

theorem handed_error {α : Type} (h : receipt = default ∨ ∃ v, receipt = receiptOf b v) (e : BbErr) :
    Handed b (.error e : Except BbErr α) receipt :=
  ⟨h, fun _ h => nomatch h⟩

/-- How an attempt to record a ballot ends: with the receipt that goes with
its result, and with `BB_ERR_RETRY` exactly if it was told to retry. -/
structure Recorded {α : Type} (b : BbBallot) (told : Bool) (res : Except BbErr α)
    (receipt : BbReceipt) : Prop extends Handed b res receipt where
  retry : told = true ↔ res = .error .retry

theorem notes_recordBallotLockedOut (eid : Id) (b : BbBallot) {out : BbReceipt}
    (hout : out = default ∨ ∃ v, out = receiptOf b v) :
    (recordBallotLockedOut ⟨true⟩ eid b out).Notes toldToRetry (fun told r =>
      ∃ res out', r = .ok (res, out') ∧ Recorded b told res out') false := by
  refine (heeds_recordChecks eid b).bind_attempt fun r told hr => ?_
  cases r with
  | error e => exact ⟨_, _, rfl, handed_error hout e, by simpa using hr⟩
  | ok x =>
    have htold : told = false := by simpa using hr
    rw [htold]
    refine (heeds_recordWrites eid b x.1 x.2).bind_attempt fun r told hr => ?_
    exact ⟨_, _, rfl, ⟨.inr ⟨_, rfl⟩, fun _ _ => ⟨_, rfl⟩⟩, hr⟩

theorem notes_bbDbBegin (told : Bool) :
    (bbDbBegin ⟨false⟩).Notes toldToRetry (fun told r =>
      (told = true ↔ r = .error .retry) ∧ ∀ ctx, r = .ok ctx → ctx = ⟨true⟩) told := by
  intro ok
  cases ok with
  | false => exact ⟨by simp [toldToRetry], fun _ h => nomatch h⟩
  | true =>
    refine (heeds_execStmt (by simp) 0).bind_attempt fun r told hr => ?_
    cases r with
    | ok body => exact ⟨by simpa using hr, fun _ h => (Except.ok.inj h).symm⟩
    | error e => exact fun _ => ⟨by simpa [toldToRetry] using hr, fun _ h => nomatch h⟩

theorem notes_bbDbCommit :
    (bbDbCommit ⟨true⟩).Notes toldToRetry (fun told r =>
      ∃ x, r = .ok (x, ⟨false⟩) ∧ (told = true ↔ x = .error .retry)) false := by
  refine (heeds_execStmt (by simp) 0).bind_attempt fun r told hr _ => ⟨_, rfl, ?_⟩
  cases r with
  | ok body => simpa [toldToRetry, Except.map] using hr
  | error e => simpa [toldToRetry, Except.map] using hr

theorem notes_bbDbRollback (told : Bool) :
    (bbDbRollback ⟨true⟩).Notes toldToRetry (fun told' r => told' = told ∧ r = .ok ⟨false⟩) told :=
  fun _ _ => ⟨by simp [toldToRetry], rfl⟩

/-- Recording a ballot returns, outside a transaction, with a receipt that
was issued for the ballot or with none, and with `BB_ERR_RETRY` exactly if
the last attempt was told to retry. -/
theorem notes_recordAttempts (eid : Id) (b : BbBallot) :
    ∀ (n : Nat) {e : BbErr} {out : BbReceipt} {told : Bool},
      (out = default ∨ ∃ v, out = receiptOf b v) → (told = true ↔ e = .retry) →
      (recordAttempts ⟨false⟩ eid b n e out).Notes toldToRetry (fun told r =>
        ∃ res out', r = .ok (res, out', ⟨false⟩) ∧ Recorded b told res out') told
  | 0, e, out, told, hout, htold => ⟨_, out, rfl, handed_error hout e, by simpa using htold⟩
  | n + 1, _, out, told, hout, _ => by
    refine (notes_bbDbBegin told).bind_attempt fun r told hr => ?_
    cases r with
    | error e => exact ⟨_, out, rfl, handed_error hout e, by simpa using hr.1⟩
    | ok ctx =>
      have htold : told = false := by simpa using hr.1
      rw [hr.2 ctx rfl, htold]
      refine (notes_recordBallotLockedOut eid b hout).bind ?_ ?_
      · rintro ⟨res, out'⟩ told ⟨_, _, h, hrec⟩
        cases h
        cases res with
        | error e =>
          refine (notes_bbDbRollback told).bind ?_ fun e told h => nomatch h.2
          rintro ctx told' ⟨hsame, h⟩
          cases h
          rw [hsame]
          have hretry : told = true ↔ e = .retry := by simpa using hrec.retry
          show (if e = .retry then _ else _ : BrainM _).Notes _ _ _
          split
          · exact notes_recordAttempts eid b n hrec.own hretry
          · exact ⟨_, out', rfl, hrec⟩
        | ok receipt =>
          have htold : told = false := by simpa using hrec.retry
          rw [htold]
          refine notes_bbDbCommit.bind ?_ fun e told h => nomatch h.choose_spec.1
          rintro ⟨r, c⟩ told ⟨_, h, hr⟩
          cases h
          cases r with
          | ok u => exact ⟨_, out', rfl, hrec.toHanded, by simpa using hr⟩
          | error e =>
            have hretry : told = true ↔ e = .retry := by simpa using hr
            show (if e = .retry then _ else _ : BrainM _).Notes _ _ _
            split
            · exact notes_recordAttempts eid b n hrec.own hretry
            · exact ⟨_, out', rfl, handed_error hrec.own e, by simpa using hretry⟩
      · rintro e told ⟨_, _, h, -⟩
        cases h

theorem ends_bbRecordBallot (eid : Id) (b : BbBallot) :
    (bbRecordBallot ⟨false⟩ eid b default).EndsIf G fun r =>
      ∃ res out, r = .ok (res, out, ⟨false⟩) ∧ Handed b res out := by
  refine (notes_recordAttempts eid b bbTxnAttempts (.inl rfl)
    (show false = true ↔ BbErr.db = .retry by simp)).endsIf ?_
  rintro told r ⟨res, out, h, hrec⟩
  exact ⟨res, out, h, hrec.toHanded⟩

theorem status_retry_iff {α : Type} (res : Except BbErr α) :
    (statusOf (res.map fun _ => ())).status = some .retry ↔ res = .error .retry := by
  cases res with
  | ok a => exact iff_of_false (fun h => nomatch h) fun h => nomatch h
  | error e => simp [statusOf, Except.map, BclResponse.of]

/-! ## Every request -/

theorem ends_ballotdDispatch (req : BclRequest) :
    (ballotdDispatch ⟨false⟩ req).EndsIf G (DispatchOk G req) := by
  obtain ⟨op, cert, eid, ballot, hash, config⟩ := req
  cases op with
  | create =>
    refine dispatch_attempt (ends_bbCreateElection config eid) (fun _ => rfl) fun id hid => ?_
    exact dispatchOk_ok (by simp) { shaped_of none with }
      (fun _ heid => clean_id (.inl rfl) (hid heid)) rfl
  | adminNextId =>
    refine Prog.EndsIf.bind (Prog.Notes.endsIf ends_bbAllocId fun _ _ h => h) ?_ ?_
    · rintro _ ⟨k, ⟨⟩⟩
      exact dispatchOk_ok (by simp) { shaped_of none with }
        (fun _ _ => clean_id (.inr rfl) (breaksLine_allocated k)) rfl
    · rintro e ⟨id, h⟩
      cases h
  | opening | closing | publish =>
    exact dispatch_attempt (ends_bbTransitionState eid _) (fun _ => rfl) fun _ _ =>
      dispatchOk_ok (by simp) (shaped_of _) (fun _ _ => clean_of _ _) rfl
  | join =>
    refine dispatch_attempt (ends_bbJoin eid cert) (fun _ => rfl) ?_
    rintro ⟨election, prior⟩ ⟨hprior, hclean⟩
    cases prior with
    | error e =>
      exact ⟨_, rfl, { shaped_of (some e) with },
        fun h => clean_join (hclean (h.resolve_left (by simp)).1),
        fun h => absurd (Option.some.inj h) hprior⟩
    | ok v =>
      exact dispatchOk_ok (by simp) { shaped_of none with priorBallotVersion := hprior }
        (fun hG _ => clean_join (hclean hG)) rfl
  | cast | update =>
    refine (ends_bbRecordBallot eid ballot).bind ?_ ?_
    · rintro ⟨res, receipt, ctx⟩ ⟨_, _, h, hreceipt⟩
      cases h
      exact dispatchOk_recorded (by simp [Records]) hreceipt.own _
    · rintro e ⟨_, _, h, -⟩
      cases h
  | results =>
    exact dispatch_attempt (ends_bbGetResults eid cert) (fun _ => rfl) fun _ hres =>
      dispatchOk_ok (by simp) hres.shaped (fun hG heid => hres.clean hG heid _ (.inl rfl)) rfl
  | adminResults =>
    exact dispatch_attempt (ends_bbGetResultsAdmin eid) (fun _ => rfl) fun _ hres =>
      dispatchOk_ok (by simp) hres.shaped (fun hG heid => hres.clean hG heid _ (.inr rfl)) rfl
  | check | adminCheck =>
    exact dispatch_attempt (ends_bbLookupHash eid hash) (fun _ => rfl) fun _ hx =>
      dispatchOk_ok (by simp) { shaped_of none with foundOption := hx.1 }
        (fun hG _ => clean_check (by simp) (hx.2 hG)) rfl

section Requests

variable {σ : Type}

/-- The calls made for a request, with their replies. -/
def callsFor (h : (op : Op) → σ → Reply op × σ) (s : σ) (req : BclRequest) :
    List ((op : Op) × Reply op) :=
  Prog.trace h (ballotdDispatch ⟨false⟩ req) s

/-- The request is a ballot, and the last attempt to record it was told to
retry. -/
def GivenUp (req : BclRequest) (calls : List ((op : Op) × Reply op)) : Prop :=
  Records req.op ∧ retried calls = true

/-- The request is a ballot, or neither its election id nor what the store
replies can put a line break into the response. -/
def Unbroken (req : BclRequest) (calls : List ((op : Op) × Reply op)) : Prop :=
  Records req.op ∨
    ((∀ c ∈ calls, cr ∉ replyBody c.1 c.2) ∧ breaksLine req.electionId.val = false)

theorem dispatched (h : (op : Op) → σ → Reply op × σ) (s : σ) (req : BclRequest) :
    ∃ resp, (Prog.run h (ballotdDispatch ⟨false⟩ req) s).1 = .ok (resp, ⟨false⟩) ∧ Shaped resp ∧
      (Unbroken req (callsFor h s req) → Clean req.op resp) ∧
      (resp.status = some .retry → Records req.op) := by
  obtain ⟨resp, hrun, hshape, hclean, hretry⟩ := (ends_ballotdDispatch req).run
    (G := fun op r => ⟨op, r⟩ ∈ callsFor h s req) fun c hc => hc
  exact ⟨resp, hrun, hshape,
    fun hu => hclean (hu.imp_right fun hu => ⟨fun op r hr => hu.1 ⟨op, r⟩ hr, hu.2⟩), hretry⟩

/-- `BB_ERR_RETRY` is the status of a ballot that was given up, and of
nothing else: every other command runs on a connection of its own, which
does not pass a request to retry on (`ends_dbExec`). -/
theorem dispatched_retry_iff (h : (op : Op) → σ → Reply op × σ) (s : σ) (req : BclRequest)
    {resp : BclResponse} {ctx : BbCtx}
    (hrun : (Prog.run h (ballotdDispatch ⟨false⟩ req) s).1 = .ok (resp, ctx)) :
    resp.status = some .retry ↔ GivenUp req (callsFor h s req) := by
  obtain ⟨resp', hrun', -, -, hretry⟩ := dispatched h s req
  rw [hrun] at hrun'
  cases hrun'
  by_cases hop : Records req.op
  · have hballot : (ballotdDispatch ⟨false⟩ req).Notes toldToRetry (fun told r =>
        ∀ resp ctx, r = .ok (resp, ctx) → (told = true ↔ resp.status = some .retry)) false := by
      obtain ⟨op, cert, eid, ballot, hash, config⟩ := req
      have hrecord := notes_recordAttempts eid ballot bbTxnAttempts (.inl rfl)
        (show false = true ↔ BbErr.db = .retry by simp)
      rcases hop with rfl | rfl <;>
      · refine hrecord.bind ?_ ?_
        · rintro ⟨res, receipt, ctx⟩ told ⟨_, _, h, hrec⟩ _ _ hresp
          cases h
          cases hresp
          exact hrec.retry.trans (status_retry_iff res).symm
        · rintro e told ⟨_, _, h, -⟩
          cases h
    exact (hballot.run s _ _ hrun).symm.trans (iff_and_self.mpr fun _ => hop)
  · exact iff_of_false (fun h => hop (hretry h)) fun h => hop h.1

end Requests

theorem bclEncodeResponse_retry (hst : resp.status = some .retry) (now : Tm) (op : BclOp)
    (cap : Nat) : bclEncodeResponse now op resp cap = none := by
  have hname : nameFromResult (some .retry) = none := by decide +kernel
  rw [bclEncodeResponse, responseBody, hst, hname]
  rfl

/-- The lookup of the election is answered with a request to retry, in each
of the three attempts. -/
def contendedEnv : Env := ⟨.terse, fun n => if n % 4 = 2 then .deadlock else .answer, false, false⟩

example : GivenUp { BclRequest.of .cast with electionId := pollId }
    (callsFor (handle contendedEnv) Daemon.start.world
      { BclRequest.of .cast with electionId := pollId }) :=
  ⟨.inl rfl, by decide +kernel⟩

end Corestack.Ballotd
