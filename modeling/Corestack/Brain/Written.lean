import Corestack.Brain.Numbers

/-!
# What the calls put on the connection

Every statement that a call sends has numbers where numbers are meant, in
every state the tables can be in and whatever was read before. For most
commands this needs no look at the replies. The two commands that write
numbers back are followed statement by statement, with what is unread on
the connection.
-/

namespace Corestack.Brain

open List Lib Db Prog

/-! ## Sound statements -/

/-- A statement with numbers where numbers are meant, and no TAB in a name
for a roll. -/
structure Stmt.Sound (sql : Stmt) : Prop where
  numeric : sql.Numeric
  careful : sql.Careful

variable {sql : Stmt}

theorem Stmt.numeric_of_strings (h : ∀ v ∈ sql.intended.values, ∃ s, v = .str s) : sql.Numeric := by
  intro s hs
  obtain ⟨t, ht⟩ := h _ hs
  cases ht

theorem isNumber_zero : IsNumber (bytes "0") := ⟨0, by unfold IsInt32; omega, by decide +kernel⟩

theorem isNumber_one : IsNumber (bytes "1") := ⟨1, by unfold IsInt32; omega, by decide +kernel⟩

theorem sound_insertElection {seq : Bytes} (hseq : IsNumber seq) (id : Id) (title : Title)
    (st : BbState) (o c : Time) : (Stmt.insertElection seq id title st o c).Sound := by
  refine ⟨fun s hs => ?_, trivial⟩
  simp only [Stmt.intended, Sql.values, mem_cons, Value.num.injEq, reduceCtorEq,
    not_mem_nil, or_false] at hs
  exact hs ▸ hseq

theorem sound_insertBallot (eid : Id) (hash : Hash) {opt ver sup : Bytes} (ho : IsNumber opt)
    (hv : IsNumber ver) (hs : IsNumber sup) : (Stmt.insertBallot eid hash opt ver sup).Sound := by
  refine ⟨fun s hmem => ?_, trivial⟩
  simp only [Stmt.intended, Sql.values, mem_cons, Value.num.injEq, reduceCtorEq,
    not_mem_nil, or_false, false_or] at hmem
  rcases hmem with rfl | rfl | rfl
  · exact ho
  · exact hv
  · exact hs

/-- The commands that write no number they read, and only numbers of the
size of an `int`. -/
def BbDbCmd.Tame : BbDbCmd → Prop
  | .updateState .. | .markSuperseded .. => False
  | .appendBallot _ row => IsInt32 row.optionIndex ∧ IsInt32 row.version ∧ IsInt32 row.superseded
  | .setOwner _ _ _ version => IsInt32 version
  | _ => True

theorem isInt32_idSeq (id : Bytes) : IsInt32 (idSeq id) := by
  have hzero : IsInt32 0 := by unfold IsInt32; omega
  unfold idSeq
  split
  · split
    split
    · exact hzero
    · exact isInt32_toInt32 _
  · exact hzero

theorem sound_control (h : sql.isControl = true) : sql.Sound := by
  cases sql <;> first | exact ⟨fun s hs => (not_mem_nil hs).elim, trivial⟩ | cases h

/-- What a tame command sends is sound. -/
theorem permits_sound : Permits Stmt.Sound BbDbCmd.Tame where
  control := fun sql h => sound_control h
  own := fun cmd hcmd sql hsql => by
    cases hsql with
    | election id cfg => exact sound_insertElection (isNumber_fmtInt (isInt32_idSeq _)) _ _ _ _ _
    | @option id cfg i name hi hname =>
      refine ⟨fun s hs => ?_, trivial⟩
      simp only [Stmt.intended, Sql.values, mem_cons, Value.num.injEq, reduceCtorEq,
        not_mem_nil, or_false, false_or] at hs
      rw [hs]
      exact isNumber_fmtInt (by unfold IsInt32 bbMaxOptions at *; omega)
    | @eligible id cfg cert hcert hsafe =>
      refine ⟨Stmt.numeric_of_strings (by simp [Stmt.intended, Sql.values]), ?_⟩
      exact (unsafeField_eq_false.mp hsafe).1
    | carried | dropElection | state | marked | dropBallot | mark => exact hcmd.elim
    | append =>
      exact sound_insertBallot _ _ (isNumber_fmtInt hcmd.1) (isNumber_fmtInt hcmd.2.1)
        (isNumber_fmtInt hcmd.2.2)
    | owner =>
      refine ⟨fun s hs => ?_, trivial⟩
      simp only [Stmt.intended, Sql.values, mem_cons, Value.num.injEq, reduceCtorEq,
        not_mem_nil, or_false, false_or] at hs
      rw [hs]
      exact isNumber_fmtInt hcmd
    | tally | hashes | findHash =>
      refine ⟨fun s hs => ?_, trivial⟩
      simp only [Stmt.intended, Sql.values, map_cons, map_nil, mem_cons,
        Value.num.injEq, reduceCtorEq, not_mem_nil, or_false, false_or] at hs
      rw [hs]
      exact isNumber_zero
    | _ => exact ⟨Stmt.numeric_of_strings (by simp [Stmt.intended, Sql.values]), trivial⟩

/-! ## Runs that send sound statements -/

section Runs

variable {env : Env} {α β : Type} {w : World}

/-- Every statement of the run is sound, and the run ends in `D`. -/
abbrev SendsSound (env : Env) (D : Except BbErr α → World → Prop) (p : BrainM α)
    (w : World) : Prop :=
  Runs (handle env) (sends Stmt.Sound) D p w

theorem sends_careful {op : Op} (h : sends Stmt.Sound op) : sends Stmt.Careful op := by
  cases op with
  | exec sql cap => exact h.careful
  | _ => trivial

variable {p : BrainM α}

theorem Sends.sound (hp : Sends Stmt.Sound p) (hw : w.Keeps Stored) :
    SendsSound env (fun _ w' => w'.Keeps Stored) p w :=
  hp.runs (fun _ _ hop hs => handle_stored (sends_careful hop) hs) hw

/-- From tables as tables are, the program sends sound statements and leaves
such tables. -/
def KeepsSound (env : Env) {α : Type} (p : BrainM α) : Prop :=
  ∀ w, w.Keeps Stored → SendsSound env (fun _ w' => w'.Keeps Stored) p w

theorem keepsSound_walk (env : Env) : FullWalk (@KeepsSound env) :=
  ⟨⟨fun _ _ h => h, fun _ _ h => h, fun hp hf w hw => (hp w hw).bind (fun a w' => hf a w')
    fun _ _ h => h, fun _ _ h => ⟨trivial, h⟩⟩,
    fun hp hf w hw => (hp w hw).bind_attempt fun r w' => hf r w'⟩

/-- An open connection with unread replies in `Q`. -/
structure Connected (Q : List Segment → Prop) (w : World) : Prop where
  keeps : w.Keeps Stored
  queue : ∃ txn q, w.session = some ⟨none, txn, queueLines q⟩ ∧ Q q

/-- The connection is left open if the program succeeds. -/
def Leaves (Q : α → List Segment → Prop) (r : Except BbErr α) (w : World) : Prop :=
  w.Keeps Stored ∧ ∀ a, r = .ok a → Connected (Q a) w

variable {Q : α → List Segment → Prop}

theorem SendsSound.then {D : Except BbErr β → World → Prop} {f : α → BrainM β}
    (hp : SendsSound env (Leaves Q) p w)
    (hok : ∀ a w', Connected (Q a) w' → SendsSound env D (f a) w')
    (herr : ∀ e w', w'.Keeps Stored → D (.error e) w') : SendsSound env D (p >>= f) w :=
  Runs.bind hp (fun a w' h => hok a w' (h.2 a rfl)) fun e w' h => herr e w' h.1

theorem leaves_error {e : BbErr} (hw : w.Keeps Stored) :
    Leaves Q (.error e) w := ⟨hw, fun a h => by cases h⟩

theorem Connected.leaves {a : α} (hw : Connected (Q a) w) : Leaves Q (.ok a) w := by
  refine ⟨hw.keeps, ?_⟩
  rintro _ ⟨⟩
  exact hw

theorem Connected.log {Q : List Segment → Prop} (hw : Connected Q w) (line : Bytes) :
    SendsSound env (Leaves fun _ => Q) (bbLog line) w :=
  ⟨trivial, Connected.leaves ⟨hw.keeps, hw.queue⟩⟩

variable {sql : Stmt} {cap : Nat}

theorem Connected.execStmt {Q : List Segment → Prop} {Q' : Bytes → List Segment → Prop}
    (hw : Connected Q w) (hsql : sql.Sound)
    (hstep : ∀ q qa s q', Q q → ReplyTo env.chatter sql qa → q ++ qa = s :: q' → s.status = .ok →
      Q' (s.body cap) q' ∧ Q' (s.body cap) []) :
    SendsSound env (Leaves Q') (execStmt sql cap) w := by
  obtain ⟨hkeeps, txn, q, hs, hq⟩ := hw
  refine ⟨hsql, ?_⟩
  have hkeeps' := @exec_stored env sql hsql.careful cap w hkeeps
  have hout := @exec_queue env sql cap w txn q hkeeps hs
  rw [show handle env (.exec sql cap) w = exec env sql cap w from rfl]
  dsimp only [Prog.bind]
  by_cases hok : (exec env sql cap w).1.1 = .ok
  · obtain ⟨qa, s, q', txn', hqa, hqq, hst, hbody, hsess⟩ := hout hok
    rw [mapStatus_ok hok]
    obtain ⟨h1, h2⟩ := hstep q qa s q' hq hqa hqq hst
    rw [hbody]
    refine Connected.leaves ⟨hkeeps', txn', _, hsess, ?_⟩
    split
    · exact h1
    · exact h2
  · obtain ⟨e, he, -⟩ := mapStatus_error hok
    rw [he]
    exact leaves_error hkeeps'

/-! ## Changing the state of an election -/

theorem sound_runUpdateState (id : Id) (st : BbState) (hw : Connected (· = []) w) :
    SendsSound env (fun _ w' => w'.Keeps Stored) (runUpdateState id st) w := by
  have hread : SendsSound env (Leaves fun body _ => ∀ seq title o c,
      readCarried body = some (seq, title, o, c) → IsNumber seq)
      (execStmt (.selectCarried id) bodyMax) w := by
    refine hw.execStmt ⟨Stmt.numeric_of_strings (by simp [Stmt.intended, Sql.values]), trivial⟩ ?_
    rintro _ qa s q' rfl hqa rfl hst
    have hnum : ∀ seq title o c, readCarried (s.body bodyMax) = some (seq, title, o, c) →
        IsNumber seq := fun seq title o c h => hqa.carried hst h
    exact ⟨hnum, hnum⟩
  refine hread.then (fun body w' hw' => ?_) fun e w' h => h
  obtain ⟨hkeeps, -, -, -, hnum⟩ := hw'
  split
  · exact hkeeps
  · rename_i seq title o c hbody
    refine Sends.sound
      ((Sends.execStmt _ ?_).bind fun _ => (Sends.execStmt _ ?_).bind fun _ => .ret _) hkeeps
    · exact ⟨Stmt.numeric_of_strings (by simp [Stmt.intended, Sql.values]), trivial⟩
    · exact sound_insertElection (hnum seq title o c hbody) _ _ _ _ _

theorem Connected.setTransaction (hw : Connected (· = []) w) :
    SendsSound env (Leaves fun _ => (· = [])) (Brain.execStmt .setTransaction 0) w := by
  refine hw.execStmt (sound_control rfl) ?_
  rintro _ qa s q' rfl hqa hq -
  obtain ⟨-, t, rfl⟩ := hqa.of_noRows fun T => rfl
  cases hq
  exact ⟨rfl, rfl⟩

theorem connected_fresh (hw : w.Keeps Stored) : Connected (· = []) w.connected := by
  refine ⟨⟨hw.1, ?_⟩, none, [], rfl, rfl⟩
  rintro s t ⟨⟩ ht
  cases ht

theorem Keeps.closed {w : World} (hw : w.Keeps Stored) :
    ({ w with session := none } : World).Keeps Stored := ⟨hw.1, fun s t h => by cases h⟩

theorem sound_updateState (id : Id) (st : BbState) :
    KeepsSound env (dbExec ⟨false⟩ (.updateState id st)) := by
  have hbody : ∀ w : World, Connected (· = []) w →
      SendsSound env (fun _ w' => w'.Keeps Stored) (oneShotBody (.updateState id st)) w := by
    intro w hw
    refine Runs.bind_attempt (D := fun _ w' => w'.Keeps Stored) ?_ fun r w' hkeeps => ?_
    · refine hw.setTransaction.then (fun _ w' hw' => ?_) fun e w' h => h
      exact (sound_runUpdateState id st hw').bind (fun _ w' h => h) fun _ _ h => h
    · refine Sends.sound ?_ hkeeps
      split
      · exact (Sends.execStmt _ (sound_control rfl)).bind fun _ => .ret _
      · split
        · exact .fail _
        · exact ⟨sound_control rfl, fun _ => trivial⟩
  refine (keepsSound_walk env).dbExec_alone fun w hw => ⟨trivial, ?_⟩
  simp only [handle]
  split
  · refine Runs.bind_attempt (hbody w.connected (connected_fresh hw)) fun r w' hkeeps => ?_
    refine ⟨trivial, ?_⟩
    have hclosed := Keeps.closed hkeeps
    cases r <;> exact hclosed
  · exact hw

/-! ## Recording a ballot

What is unread along the transaction: nothing up to the roll; then harmless
segments; after the look for the nonce, harmless ones but for the last; and
if a prior ballot is found, harmless ones but for the first. -/

theorem strings_sound (hc : sql.Careful) (h : ∀ v ∈ sql.intended.values, ∃ s, v = .str s) :
    sql.Sound :=
  ⟨Stmt.numeric_of_strings h, hc⟩

theorem Connected.select_numbers (hw : Connected (· = []) w) (hsql : sql.Sound)
    (hnum : ∀ (T : Tables) rows, T.query sql = some rows → ∀ r ∈ rows,
      ∃ v fs, r = fmtInt v :: fs) :
    SendsSound env (Leaves fun _ => (· = [])) (Brain.execStmt sql cap) w := by
  refine hw.execStmt hsql ?_
  rintro _ qa s q' rfl hqa hq -
  obtain ⟨t, rfl⟩ := hqa.of_numbers hnum
  cases hq
  exact ⟨rfl, rfl⟩

theorem sound_getElection (eid : Id) (hw : Connected (· = []) w) :
    SendsSound env (Leaves fun _ => Settled) (runGetElection eid) w := by
  have hempty : ∀ {w : World}, Connected (· = []) w → Connected Settled w := by
    rintro w ⟨hkeeps, txn, q, hs, rfl⟩
    exact ⟨hkeeps, txn, [], hs, fun s hs => by cases hs⟩
  have hrow :
      SendsSound env (Leaves fun _ => (· = [])) (execStmt (.selectElection eid) bodyMax) w :=
    hw.select_numbers (strings_sound trivial (by simp [Stmt.intended, Sql.values]))
      fun T rows h r hr => by
        cases h
        obtain ⟨x, -, rfl⟩ := mem_map.mp hr
        exact ⟨_, _, rfl⟩
  refine hrow.then (fun body w₁ hw₁ => ?_) fun e w' h => leaves_error h
  split
  · exact leaves_error hw₁.keeps
  · exact (hempty hw₁).leaves
  · have hopts :
        SendsSound env (Leaves fun _ => (· = [])) (execStmt (.selectOptions eid) bodyMax) w₁ :=
      hw₁.select_numbers (strings_sound trivial (by simp [Stmt.intended, Sql.values]))
        fun T rows h r hr => by
          cases h
          obtain ⟨x, -, rfl⟩ := mem_map.mp hr
          exact ⟨_, _, rfl⟩
    refine hopts.then (fun body w₂ hw₂ => ?_) fun e w' h => leaves_error h
    have hroll :
        SendsSound env (Leaves fun _ => Settled) (execStmt (.selectEligible eid) bodyMax) w₂ := by
      refine hw₂.execStmt (strings_sound trivial (by simp [Stmt.intended, Sql.values])) ?_
      rintro _ qa s q' rfl hqa hq -
      have htail := hqa.eligible
      rw [show qa = s :: q' from hq] at htail
      exact ⟨htail, fun t ht => by cases ht⟩
    exact hroll.then (fun body w₃ hw₃ => hw₃.leaves) fun e w' h => leaves_error h

theorem sound_recordGate (eid : Id) (b : BbBallot) (hw : Connected (· = []) w) :
    SendsSound env (Leaves fun option q => option = b.option ∧ Settled q)
      (recordGate ⟨true⟩ eid b) w := by
  have hload : SendsSound env (Leaves fun _ => Settled) (loadElection ⟨true⟩ eid) w := by
    refine SendsSound.then (Q := fun _ => Settled) ?_ (fun res w' hw' => ?_) fun e w' h =>
      leaves_error h
    · exact (hw.log _).then (fun _ w' hw' => sound_getElection eid hw') fun e w' h => leaves_error h
    · split
      · exact hw'.leaves
      · exact leaves_error hw'.keeps
  refine hload.then (fun e w' hw' => ?_) fun e w' h => leaves_error h
  split
  · exact leaves_error hw'.keeps
  · split
    · exact leaves_error hw'.keeps
    · split
      · refine Runs.bind (((Sends.walk _).logNotEligible _ _ _ _).sound hw'.keeps)
          (fun _ w'' h => ?_)
          fun e w'' h => leaves_error h
        exact leaves_error h
      · refine (hw'.log _).then (fun _ w'' hw'' => ?_) fun e w'' h => leaves_error h
        show SendsSound env _ (if b.option < 0 ∨ _ then _ else _) w''
        split
        · exact leaves_error hw''.keeps
        · obtain ⟨hkeeps, txn, q, hs, hq⟩ := hw''
          exact Connected.leaves ⟨hkeeps, txn, q, hs, rfl, hq⟩

theorem queue_pop {q qa q' : List Segment} {s : Segment} (h : q ++ qa = s :: q') :
    (q = [] ∧ qa = s :: q') ∨ ∃ t, q = s :: t ∧ q' = t ++ qa := by
  cases q with
  | nil => exact .inl ⟨rfl, h⟩
  | cons t q =>
    cases h
    exact .inr ⟨q, rfl, rfl⟩

theorem sound_nonceSeen (eid : Id) (nonce : Nonce) (hw : Connected Settled w) :
    SendsSound env (Leaves fun _ q => Settled q.dropLast) (runNonceSeen eid nonce) w := by
  have hsel : SendsSound env (Leaves fun _ q => Settled q.dropLast)
      (execStmt (.selectNonce eid nonce) bodyMax) w := by
    refine hw.execStmt (strings_sound trivial (by simp [Stmt.intended, Sql.values])) ?_
    intro q qa s q' hq hqa hqq _
    refine ⟨?_, fun t ht => by cases ht⟩
    have hall : Settled (q ++ qa).dropLast := by
      rcases hqa.nonce with hset | ⟨t, rfl⟩
      · exact fun t ht => settled_append hq hset t (dropLast_subset _ ht)
      · rw [dropLast_concat]
        exact hq
    rw [hqq] at hall
    cases q' with
    | nil => exact fun t ht => by cases ht
    | cons t q' => exact fun x hx => hall x (mem_cons_of_mem _ hx)
  exact hsel.then (fun body w' hw' => hw'.leaves) fun e w' h => leaves_error h

theorem readPrior_found {body : Bytes} {hash : Hash} {version : Int}
    (h : readPrior body = .ok (some (hash, version))) :
    ∃ f g fs, dbRowFields body 0 = some (f :: g :: fs) := by
  unfold readPrior at h
  split at h
  · cases h
  · cases h
  · split at h
    · exact ⟨_, _, _, ‹_›⟩
    · cases h

theorem sound_getPriorBallot (eid : Id) (cert : CertName)
    (hw : Connected (fun q => Settled q.dropLast) w) :
    SendsSound env (Leaves fun res q => res.found = true → Settled q.tail)
      (runGetPriorBallot eid cert) w := by
  have hsel : SendsSound env (Leaves fun body q => ∀ hash version,
      readPrior body = .ok (some (hash, version)) → Settled q.tail)
      (execStmt (.selectOwner eid cert) bodyMax) w := by
    refine hw.execStmt (strings_sound trivial (by simp [Stmt.intended, Sql.values])) ?_
    intro q qa s q' hq hqa hqq hst
    refine ⟨fun hash version hread => ?_, fun _ _ _ t ht => by cases ht⟩
    obtain ⟨f, g, fs, hfields⟩ := readPrior_found hread
    rcases queue_pop hqq with ⟨rfl, rfl⟩ | ⟨t, rfl, rfl⟩
    · exact hqa.owner.tail
    · -- A row of two fields was found, so the segment was the last one.
      cases t with
      | nil => exact hqa.owner
      | cons t ts => exact absurd hfields ((hq s (by simp)).fields hst)
  refine hsel.then (fun body w' hw' => ?_) fun e w' h => leaves_error h
  split
  · exact leaves_error hw'.keeps
  · obtain ⟨hkeeps, txn, q, hs, -⟩ := hw'
    exact Connected.leaves ⟨hkeeps, txn, q, hs, fun h => by cases h⟩
  · rename_i hash version hread
    obtain ⟨hkeeps, txn, q, hs, hq⟩ := hw'
    exact Connected.leaves ⟨hkeeps, txn, q, hs, fun _ => hq hash version hread⟩

theorem sound_recordChecks (eid : Id) (b : BbBallot) (hw : Connected (· = []) w) :
    SendsSound env (Leaves fun p q => p.1 = b.option ∧ (p.2.found = true → Settled q.tail))
      (recordChecks ⟨true⟩ eid b) w := by
  refine (sound_recordGate eid b hw).then (fun option w₁ hw₁ => ?_) fun e w' h => leaves_error h
  obtain ⟨hkeeps, txn, q, hs, ho, hq⟩ := hw₁
  have hseen : SendsSound env (Leaves fun _ q => Settled q.dropLast)
      (dbExec ⟨true⟩ (.nonceSeen eid b.nonce)) w₁ :=
    (Connected.log ⟨hkeeps, txn, q, hs, hq⟩ _).then
      (fun _ w' hw' => sound_nonceSeen eid b.nonce hw') fun e w' h => leaves_error h
  refine hseen.then (fun seen w₂ hw₂ => ?_) fun e w' h => leaves_error h
  split
  · exact leaves_error hw₂.keeps
  · have hprior : SendsSound env (Leaves fun res q => res.found = true → Settled q.tail)
        (dbExec ⟨true⟩ (.getPriorBallot eid b.certName)) w₂ :=
      (hw₂.log _).then (fun _ w' hw' => sound_getPriorBallot eid b.certName hw')
        fun e w' h => leaves_error h
    refine hprior.then (fun prior w₃ hw₃ => ?_) fun e w' h => leaves_error h
    obtain ⟨hkeeps₃, txn₃, q₃, hs₃, hq₃⟩ := hw₃
    exact Connected.leaves ⟨hkeeps₃, txn₃, q₃, hs₃, ho, hq₃⟩

theorem sound_markSuperseded (eid : Id) (hash : Hash) (hw : Connected Settled w) :
    SendsSound env (fun _ w' => w'.Keeps Stored) (runMarkSuperseded eid hash) w := by
  have hsel : SendsSound env (Leaves fun body _ => ∀ opt ver,
      readMarked body = some (opt, ver) → IsNumber opt ∧ IsNumber ver)
      (execStmt (.selectBallot eid hash) bodyMax) w := by
    refine hw.execStmt (strings_sound trivial (by simp [Stmt.intended, Sql.values])) ?_
    intro q qa s q' hq hqa hqq hst
    have hnum : ∀ opt ver, readMarked (s.body bodyMax) = some (opt, ver) →
        IsNumber opt ∧ IsNumber ver := by
      intro opt ver hread
      rcases queue_pop hqq with ⟨-, rfl⟩ | ⟨t, rfl, -⟩
      · exact hqa.marked hst hread
      · unfold readMarked at hread
        split at hread
        · cases hread
        · cases hread
        · split at hread
          · exact absurd ‹_› ((hq s (by simp)).fields hst)
          · cases hread
    exact ⟨hnum, hnum⟩
  refine hsel.then (fun body w' hw' => ?_) fun e w' h => h
  obtain ⟨hkeeps, -, -, -, hnum⟩ := hw'
  split
  · exact hkeeps
  · rename_i opt ver hread
    obtain ⟨ho, hv⟩ := hnum opt ver hread
    refine Sends.sound
      ((Sends.execStmt _ ?_).bind fun _ => (Sends.execStmt _ ?_).bind fun _ => .ret _) hkeeps
    · exact strings_sound trivial (by simp [Stmt.intended, Sql.values])
    · exact sound_insertBallot eid hash ho hv isNumber_one

theorem isInt32_option (b : BbBallot) : IsInt32 b.option := by
  unfold BbBallot.option IsInt32
  split
  · have := (b.payload 0).toNat_lt
    omega
  · omega

theorem sound_recordWrites (eid : Id) (b : BbBallot) {prior : BbDbResult}
    (hw : Connected (fun q => prior.found = true → Settled q.tail) w) :
    SendsSound env (fun _ w' => w'.Keeps Stored) (recordWrites ⟨true⟩ eid b b.option prior) w := by
  have hversion := isInt32_nextVersion prior
  refine (hw.log _).then (fun _ w₁ hw₁ => ?_) fun e w' h => h
  set version := nextVersion prior with hv
  have hins : (Stmt.insertBallot eid (receiptHash b.nonce version) (fmtInt b.option)
      (fmtInt version) (fmtInt 0)).Sound :=
    sound_insertBallot _ _ (isNumber_fmtInt (isInt32_option b)) (isNumber_fmtInt hversion)
      (isNumber_fmtInt (by unfold IsInt32; omega))
  -- The insert takes one segment; what may hold a prior ballot was the first.
  have happend : SendsSound env (Leaves fun _ q => prior.found = true → Settled q)
      (dbExec ⟨true⟩
        (.appendBallot eid ⟨receiptHash b.nonce version, b.option, version, 0⟩)) w₁ := by
    refine (hw₁.log _).then (fun _ w₂ hw₂ => ?_) fun e w' h => leaves_error h
    refine SendsSound.then (Q := fun _ q => prior.found = true → Settled q) ?_
      (fun _ w' hw' => hw'.leaves) fun e w' h => leaves_error h
    refine SendsSound.then (Q := fun _ q => prior.found = true → Settled q) ?_
      (fun _ w' hw' => hw'.leaves) fun e w' h => leaves_error h
    refine hw₂.execStmt hins ?_
    intro q qa s q' hq hqa hqq _
    refine ⟨fun hfound => ?_, fun _ t ht => by cases ht⟩
    have hset := (hqa.of_noRows fun T => rfl).1
    rcases queue_pop hqq with ⟨rfl, rfl⟩ | ⟨t, rfl, rfl⟩
    · exact hset.tail
    · exact settled_append (hq hfound) hset
  refine happend.then (fun _ w₂ hw₂ => ?_) fun e w' h => h
  have hsup : SendsSound env (fun _ w' => w'.Keeps Stored)
      (supersedePrior ⟨true⟩ eid prior) w₂ := by
    unfold supersedePrior
    split
    · rename_i hfound
      obtain ⟨hkeeps, txn, q, hs, hq⟩ := hw₂
      refine Runs.bind (D := fun _ w' => w'.Keeps Stored) ?_ (fun _ _ h => h) fun _ _ h => h
      refine (Connected.log ⟨hkeeps, txn, q, hs, hq hfound⟩ _).then (fun _ w' hw' => ?_)
        fun e w' h => h
      exact (sound_markSuperseded eid _ hw').bind (fun _ _ h => h) fun _ _ h => h
    · exact hw₂.keeps
  refine hsup.bind (fun _ w₃ hkeeps => ?_) fun _ _ h => h
  have howner : (BbDbCmd.setOwner eid b.certName (receiptHash b.nonce version) version).Tame :=
    hversion
  have hspend : (BbDbCmd.nonceMark eid b.nonce).Tame := trivial
  exact Sends.sound ((Sends.dbExec permits_sound ⟨true⟩ howner).bind fun _ =>
    (Sends.dbExec permits_sound ⟨true⟩ hspend).bind fun _ => .ret _) hkeeps

theorem sound_recordAttempts (eid : Id) (b : BbBallot) (k : Nat) :
    ∀ r out, KeepsSound env (recordAttempts ⟨false⟩ eid b k r out) := by
  induction k with
  | zero => exact fun r out w hw => hw
  | succ k ih =>
    intro r out w hw
    have hbegin : SendsSound env (fun r w' => w'.Keeps Stored ∧
        ∀ ctx, r = .ok ctx → ctx = ⟨true⟩ ∧ Connected (· = []) w') (bbDbBegin ⟨false⟩) w := by
      refine ⟨trivial, ?_⟩
      simp only [handle]
      split
      · refine Runs.bind_attempt (connected_fresh hw).setTransaction fun r w' hr => ?_
        cases r with
        | ok body =>
          refine ⟨hr.1, ?_⟩
          rintro _ ⟨⟩
          exact ⟨rfl, hr.2 body rfl⟩
        | error e => exact ⟨trivial, Keeps.closed hr.1, fun ctx h => by cases h⟩
      · exact ⟨hw, fun ctx h => by cases h⟩
    refine Runs.bind_attempt hbegin fun r w₁ hr => ?_
    cases r with
    | error e => exact hr.1
    | ok ctx =>
      obtain ⟨rfl, hconn⟩ := hr.2 ctx rfl
      have hlocked : SendsSound env (fun _ w' => w'.Keeps Stored)
          (recordBallotLockedOut ⟨true⟩ eid b out) w₁ := by
        refine Runs.bind_attempt (sound_recordChecks eid b hconn) fun r w₂ hr => ?_
        cases r with
        | error e => exact hr.1
        | ok p =>
          obtain ⟨option, prior⟩ := p
          obtain ⟨hkeeps, txn, q, hs, ho, hq⟩ := hr.2 _ rfl
          obtain rfl : option = b.option := ho
          exact Runs.bind_attempt (sound_recordWrites eid b ⟨hkeeps, txn, q, hs, hq⟩)
            fun r w₃ h => h
      refine hlocked.bind (fun p w₂ hkeeps => ?_) fun e w₂ h => h
      obtain ⟨r, out⟩ := p
      cases r with
      | error e =>
        refine ⟨sound_control rfl, trivial, ?_⟩
        have hclosed := Keeps.closed (@handle_stored env (.exec .rollback 0) trivial _
          hkeeps)
        split
        · exact ih _ _ _ hclosed
        · exact hclosed
      | ok rcpt =>
        have hcommit : SendsSound env (fun _ w' => w'.Keeps Stored) (execStmt .commit 0) w₂ :=
          Sends.sound (Sends.execStmt 0 (sound_control rfl)) hkeeps
        refine Runs.bind (D := fun r w' => w'.Keeps Stored ∧
          ∀ x, r = .ok x → x.2 = ⟨false⟩) ?_ (fun x w₃ hx => ?_) fun e w₃ h => h.1
        · refine Runs.bind_attempt hcommit fun r w₃ h => ⟨trivial, Keeps.closed h, ?_⟩
          rintro _ ⟨⟩
          rfl
        · obtain ⟨r, ctx⟩ := x
          obtain ⟨hkeeps₃, hctx⟩ := hx
          obtain rfl : ctx = ⟨false⟩ := hctx _ rfl
          cases r with
          | ok u => exact hkeeps₃
          | error e =>
            dsimp only
            split
            · exact ih _ _ _ hkeeps₃
            · exact hkeeps₃

end Runs

end Corestack.Brain
