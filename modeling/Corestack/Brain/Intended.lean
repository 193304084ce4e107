import Mathlib.Algebra.Order.BigOperators.Group.List
import Corestack.Db.Lex
import Corestack.Brain.Lookup

/-!
# What the statements mean to say

Each statement of the seam is meant as one SQL statement with values in its
places. Read with SQL lexing, its text is that statement: the strings are
whole literals, and as long as the numbers are numbers nothing else of it
depends on the values.
-/

namespace Corestack.Brain

open List Lib Db

/-! ## Intended statements -/

inductive Table where
  | election
  | electionOption
  | electionEligible
  | ballot
  | ballotOwner
  | nonce
deriving DecidableEq

def Table.sqlName : Table → String
  | .election => "election"
  | .electionOption => "election_option"
  | .electionEligible => "election_eligible"
  | .ballot => "ballot"
  | .ballotOwner => "ballot_owner"
  | .nonce => "nonce"

inductive Column where
  | seq
  | id
  | title
  | state
  | openTime
  | closeTime
  | electionId
  | idx
  | name
  | certName
  | hash
  | optionIndex
  | version
  | superseded
  | nonce
deriving DecidableEq

def Column.sqlName : Column → String
  | .seq => "seq"
  | .id => "id"
  | .title => "title"
  | .state => "state"
  | .openTime => "open_time"
  | .closeTime => "close_time"
  | .electionId => "election_id"
  | .idx => "idx"
  | .name => "name"
  | .certName => "cert_name"
  | .hash => "hash"
  | .optionIndex => "option_index"
  | .version => "version"
  | .superseded => "superseded"
  | .nonce => "nonce"

inductive Value where
  | num (s : Bytes)
  | str (s : Bytes)
deriving DecidableEq

/-- The SQL that the seam uses. -/
inductive Sql where
  | setTransaction
  | commit
  | rollback
  | insert (table : Table) (values : List Value)
  | delete (table : Table) (conds : List (Column × Value))
  | select (columns : List Column) (table : Table) (conds : List (Column × Value))
  | selectMax (column : Column) (table : Table)
deriving DecidableEq

def Sql.values : Sql → List Value
  | .insert _ values => values
  | .delete _ conds | .select _ _ conds => conds.map (·.2)
  | _ => []

def Stmt.intended : Stmt → Sql
  | .setTransaction => .setTransaction
  | .commit => .commit
  | .rollback => .rollback
  | .insertElection seq id title state openTime closeTime =>
    .insert .election [.num seq, .str id.val, .str title.val, .str (bbStateStr state),
      .str openTime.val, .str closeTime.val]
  | .insertOption eid idx name => .insert .electionOption [.str eid.val, .num idx, .str name.val]
  | .insertEligible eid cert => .insert .electionEligible [.str eid.val, .str cert.val]
  | .insertBallot eid hash opt ver sup =>
    .insert .ballot [.str eid.val, .str hash.val, .num opt, .num ver, .num sup]
  | .insertOwner eid cert hash ver =>
    .insert .ballotOwner [.str eid.val, .str cert.val, .str hash.val, .num ver]
  | .insertNonce eid nonce => .insert .nonce [.str eid.val, .str nonce.val]
  | .deleteElection id => .delete .election [(.id, .str id.val)]
  | .deleteBallot eid hash => .delete .ballot [(.electionId, .str eid.val), (.hash, .str hash.val)]
  | .deleteOwner eid cert =>
    .delete .ballotOwner [(.electionId, .str eid.val), (.certName, .str cert.val)]
  | .selectElection id =>
    .select [.seq, .id, .title, .state, .openTime, .closeTime] .election [(.id, .str id.val)]
  | .selectCarried id =>
    .select [.seq, .title, .openTime, .closeTime] .election [(.id, .str id.val)]
  | .selectOptions eid => .select [.idx, .name] .electionOption [(.electionId, .str eid.val)]
  | .selectEligible eid => .select [.certName] .electionEligible [(.electionId, .str eid.val)]
  | .selectBallot eid hash =>
    .select [.optionIndex, .version] .ballot
      [(.electionId, .str eid.val), (.hash, .str hash.val)]
  | .selectOwner eid cert =>
    .select [.hash, .version] .ballotOwner
      [(.electionId, .str eid.val), (.certName, .str cert.val)]
  | .selectNonce eid nonce =>
    .select [.nonce] .nonce [(.electionId, .str eid.val), (.nonce, .str nonce.val)]
  | .selectTally eid =>
    .select [.optionIndex] .ballot
      [(.electionId, .str eid.val), (.superseded, .num (bytes "0"))]
  | .selectHashes eid =>
    .select [.hash, .optionIndex, .version, .superseded] .ballot
      [(.electionId, .str eid.val), (.superseded, .num (bytes "0"))]
  | .selectHash eid hash =>
    .select [.hash, .optionIndex, .version, .superseded] .ballot
      [(.electionId, .str eid.val), (.hash, .str hash.val), (.superseded, .num (bytes "0"))]
  | .selectMaxSeq => .selectMax .seq .election

/-- The text of an `int`. -/
def IsNumber (s : Bytes) : Prop := ∃ v, IsInt32 v ∧ s = fmtInt v

theorem isNumber_fmtInt {v : Int} (hv : IsInt32 v) : IsNumber (fmtInt v) := ⟨v, hv, rfl⟩

/-- What stands in the places for numbers are numbers. -/
def Stmt.Numeric (sql : Stmt) : Prop := ∀ s, .num s ∈ sql.intended.values → IsNumber s

/-! ## Their text -/

theorem Table.plain (t : Table) : 39 ∉ bytes t.sqlName := by cases t <;> decide

theorem Column.plain (c : Column) : 39 ∉ bytes c.sqlName := by cases c <;> decide

def Value.part : Value → Part
  | .num s => .num s
  | .str s => .str s

def commaParts : List Part → List Part
  | [] => []
  | [p] => [p]
  | p :: q :: ps => p :: .code ", " :: commaParts (q :: ps)

def andParts : List (Column × Value) → List Part
  | [] => []
  | (c, v) :: conds =>
    .code " and " :: .code c.sqlName c.plain :: .code " = " :: v.part :: andParts conds

def whereParts : List (Column × Value) → List Part
  | [] => []
  | (c, v) :: conds =>
    .code " where " :: .code c.sqlName c.plain :: .code " = " :: v.part :: andParts conds

def Sql.parts : Sql → List Part
  | .setTransaction => [.code "set transaction read write"]
  | .commit => [.code "commit"]
  | .rollback => [.code "rollback"]
  | .insert table values =>
    .code "insert into " :: .code table.sqlName table.plain :: .code " values (" ::
      (commaParts (values.map Value.part) ++ [.code ")"])
  | .delete table conds =>
    .code "delete from " :: .code table.sqlName table.plain :: whereParts conds
  | .select columns table conds =>
    .code "select " :: (commaParts (columns.map fun c => .code c.sqlName c.plain) ++
      .code " from " :: .code table.sqlName table.plain :: whereParts conds)
  | .selectMax column table =>
    [.code "select max(", .code column.sqlName column.plain, .code ") from ",
      .code table.sqlName table.plain]

def Sql.text (q : Sql) : Bytes := (q.parts ++ [Part.code ";"]).flatMap Part.text

def Sql.lexemes (q : Sql) : List Lexeme := (q.parts ++ [Part.code ";"]).flatMap Part.lexemes

theorem Piece.text_fixed (s : String) (plain : breaksLine (bytes s) = false) :
    (Piece.fixed s plain).text = bytes s := rfl

theorem Piece.text_raw (s : Bytes) : (Piece.raw s).text = s := rfl

theorem Piece.text_str {n : Nat} (s : CStr n) (short : 2 * n + 1 ≤ quoteMax) :
    (Piece.str s short).text = 39 :: quoted s.val ++ [39] := by
  have hfits := s.fits
  rw [Piece.text, dbQuote, if_neg (by decide), quoteLoop_eq_quoted]
  omega

theorem quoted_bbStateStr (st : BbState) : quoted (bbStateStr st) = bbStateStr st := by
  cases st <;> decide +kernel

/-- The text the seam builds with its format strings is the text of the
statement it means, part by part. -/
theorem Stmt.text_eq (sql : Stmt) : sql.text = sql.intended.text := by
  cases sql <;>
    simp only [Stmt.text, Stmt.pieces, Stmt.intended, Sql.text, Sql.parts, whereParts, andParts,
      commaParts, Value.part, map_cons, map_nil, flatMap_cons, flatMap_nil,
      cons_append, nil_append, append_nil, Piece.text_fixed,
      Piece.text_raw, Piece.text_str, Part.text, quoted_bbStateStr, append_assoc]
  all_goals rfl

/-! ## Reading the text -/

variable {s : Bytes}

theorem IsNumber.notMem (hs : IsNumber s) {c : UInt8} (hd : isDigit c = false) (hc : c ≠ 45) :
    c ∉ s := by
  obtain ⟨v, -, rfl⟩ := hs
  exact notMem_fmtInt hd hc

theorem notQuoted_code {s : String} (plain : 39 ∉ bytes s) (hne : bytes s ≠ []) (ps : List Part) :
    NotQuoted ((Part.code s plain :: ps).flatMap Part.text) := by
  obtain ⟨c, t, hc⟩ := exists_cons_of_ne_nil hne
  have htext : (Part.code s plain :: ps).flatMap Part.text = c :: (t ++ ps.flatMap Part.text) := by
    rw [flatMap_cons, Part.text, hc]
    rfl
  rw [htext]
  rintro ⟨⟩
  exact plain (by rw [hc]; simp)

section Readable

variable {ps : List Part}

theorem readable_values {vs : List Value} (hnum : ∀ s, .num s ∈ vs → 39 ∉ s) (hps : Readable ps)
    (hq : NotQuoted (ps.flatMap Part.text)) :
    Readable (commaParts (vs.map Value.part) ++ ps) := by
  induction vs with
  | nil => exact hps
  | cons v vs ih =>
    have ih := ih fun s hs => hnum s (by simp [hs])
    cases vs with
    | nil =>
      cases v with
      | num s => exact ⟨hnum s (by simp), hps⟩
      | str s => exact ⟨hq, hps⟩
    | cons w vs =>
      cases v with
      | num s => exact ⟨hnum s (by simp), ih⟩
      | str s => exact ⟨notQuoted_code _ (by decide) _, ih⟩

theorem readable_columns (cs : List Column) (hps : Readable ps) :
    Readable (commaParts (cs.map fun c => .code c.sqlName c.plain) ++ ps) := by
  induction cs with
  | nil => exact hps
  | cons c cs ih =>
    cases cs with
    | nil => exact hps
    | cons d cs => exact ih

theorem notQuoted_and (conds : List (Column × Value)) (hq : NotQuoted (ps.flatMap Part.text)) :
    NotQuoted ((andParts conds ++ ps).flatMap Part.text) := by
  cases conds with
  | nil => exact hq
  | cons cond conds => exact notQuoted_code _ (by decide +kernel) _

theorem readable_cond (c : Column) {v : Value} (hnum : ∀ s, v = .num s → 39 ∉ s)
    (hps : Readable ps) (hq : NotQuoted (ps.flatMap Part.text)) :
    Readable (.code c.sqlName c.plain :: .code " = " :: v.part :: ps) := by
  cases v with
  | num s => exact ⟨hnum s rfl, hps⟩
  | str s => exact ⟨hq, hps⟩

variable {conds : List (Column × Value)}

theorem readable_and (hnum : ∀ s, .num s ∈ conds.map (·.2) → 39 ∉ s) (hps : Readable ps)
    (hq : NotQuoted (ps.flatMap Part.text)) : Readable (andParts conds ++ ps) := by
  induction conds with
  | nil => exact hps
  | cons cond conds ih =>
    exact readable_cond cond.1 (fun s hs => hnum s (by simp [hs]))
      (ih fun s hs => hnum s (by simp only [map_cons, mem_cons]; exact .inr hs))
      (notQuoted_and conds hq)

theorem readable_where (hnum : ∀ s, .num s ∈ conds.map (·.2) → 39 ∉ s) (hps : Readable ps)
    (hq : NotQuoted (ps.flatMap Part.text)) : Readable (whereParts conds ++ ps) := by
  cases conds with
  | nil => exact hps
  | cons cond conds =>
    exact readable_cond cond.1 (fun s hs => hnum s (by simp [hs]))
      (readable_and (fun s hs => hnum s (by simp only [map_cons, mem_cons]; exact .inr hs))
        hps hq) (notQuoted_and conds hq)

end Readable

theorem Sql.readable {q : Sql} (hnum : ∀ s, .num s ∈ q.values → 39 ∉ s) :
    Readable (q.parts ++ [Part.code ";"]) := by
  have hend : NotQuoted ([Part.code ";"].flatMap Part.text) :=
    notQuoted_code _ (by decide +kernel) _
  cases q with
  | setTransaction | commit | rollback | selectMax column table => exact trivial
  | insert table values =>
    simp only [Sql.parts, cons_append, append_assoc]
    exact readable_values hnum trivial (notQuoted_code _ (by decide +kernel) _)
  | delete table conds => exact readable_where hnum trivial hend
  | select columns table conds =>
    simp only [Sql.parts, cons_append, append_assoc]
    exact readable_columns columns (readable_where hnum trivial hend)

variable {sql : Stmt}

/-- The text of a statement is read as the statement that is meant, whatever
the strings in it are: each of them is one literal. Texts that stand for
numbers are not quoted, so they have to be numbers. -/
theorem Stmt.Numeric.lexSql_text (hsql : sql.Numeric) :
    lexSql none sql.text = some sql.intended.lexemes := by
  rw [Stmt.text_eq]
  exact lexSql_parts (Sql.readable fun s hs => (hsql s hs).notMem rfl (by decide))

/-! ## One statement -/

/-- The part holds no semicolon but in a string. -/
def Silent (p : Part) : Prop := Lexeme.sym 59 ∉ p.lexemes

theorem silent_code {s : String} (plain : 39 ∉ bytes s) (h : 59 ∉ bytes s) :
    Silent (.code s plain) := by
  simpa [Silent, Part.lexemes] using h

theorem Table.silent (t : Table) : Silent (.code t.sqlName t.plain) :=
  silent_code _ (by cases t <;> decide +kernel)

theorem Column.silent (c : Column) : Silent (.code c.sqlName c.plain) :=
  silent_code _ (by cases c <;> decide)

theorem Value.silent {v : Value} (hv : ∀ s, v = .num s → IsNumber s) : Silent v.part := by
  cases v with
  | num s => simpa [Silent, Value.part, Part.lexemes] using (hv s rfl).notMem rfl (by decide)
  | str s => simp [Silent, Value.part, Part.lexemes]

theorem silent_comma {ps : List Part} (hps : ∀ p ∈ ps, Silent p) :
    ∀ p ∈ commaParts ps, Silent p := by
  induction ps with
  | nil => exact hps
  | cons p ps ih =>
    cases ps with
    | nil => exact hps
    | cons q ps =>
      intro r hr
      simp only [commaParts, mem_cons] at hr
      rcases hr with rfl | rfl | hr
      · exact hps _ (by simp)
      · exact silent_code _ (by decide)
      · exact ih (fun x hx => hps x (by simp [hx])) r hr

variable {conds : List (Column × Value)}

theorem silent_and (hnum : ∀ s, .num s ∈ conds.map (·.2) → IsNumber s) :
    ∀ p ∈ andParts conds, Silent p := by
  induction conds with
  | nil => simp [andParts]
  | cons cond conds ih =>
    intro p hp
    simp only [andParts, mem_cons] at hp
    rcases hp with rfl | rfl | rfl | rfl | hp
    · exact silent_code _ (by decide +kernel)
    · exact cond.1.silent
    · exact silent_code _ (by decide +kernel)
    · exact Value.silent fun s hs => hnum s (by simp [hs])
    · exact ih (fun s hs => hnum s (by simp only [map_cons, mem_cons]; exact .inr hs)) p hp

theorem silent_where (hnum : ∀ s, .num s ∈ conds.map (·.2) → IsNumber s) :
    ∀ p ∈ whereParts conds, Silent p := by
  cases conds with
  | nil => simp [whereParts]
  | cons cond conds =>
    intro p hp
    simp only [whereParts, mem_cons] at hp
    rcases hp with rfl | hp
    · exact silent_code _ (by decide +kernel)
    · exact silent_and hnum p (mem_cons_of_mem _ (by simpa using hp))

theorem Sql.silent {q : Sql} (hnum : ∀ s, .num s ∈ q.values → IsNumber s) :
    ∀ p ∈ q.parts, Silent p := by
  cases q with
  | setTransaction | commit | rollback =>
    intro p hp
    rw [mem_singleton.mp hp]
    exact silent_code _ (by decide +kernel)
  | selectMax column table =>
    intro p hp
    simp only [Sql.parts, mem_cons, not_mem_nil, or_false] at hp
    rcases hp with rfl | rfl | rfl | rfl
    · exact silent_code _ (by decide +kernel)
    · exact column.silent
    · exact silent_code _ (by decide +kernel)
    · exact table.silent
  | insert table values =>
    intro p hp
    simp only [Sql.parts, mem_cons, mem_append, not_mem_nil, or_false] at hp
    rcases hp with rfl | rfl | rfl | hp | rfl
    · exact silent_code _ (by decide +kernel)
    · exact table.silent
    · exact silent_code _ (by decide)
    · refine silent_comma (fun x hx => ?_) p hp
      obtain ⟨v, hv, rfl⟩ := mem_map.mp hx
      exact Value.silent fun s hs => hnum s (hs ▸ hv)
    · exact silent_code _ (by decide +kernel)
  | delete table conds =>
    intro p hp
    simp only [Sql.parts, mem_cons] at hp
    rcases hp with rfl | rfl | hp
    · exact silent_code _ (by decide +kernel)
    · exact table.silent
    · exact silent_where hnum p hp
  | select columns table conds =>
    intro p hp
    simp only [Sql.parts, mem_cons, mem_append] at hp
    rcases hp with rfl | hp | rfl | rfl | hp
    · exact silent_code _ (by decide +kernel)
    · refine silent_comma (fun x hx => ?_) p hp
      obtain ⟨c, -, rfl⟩ := mem_map.mp hx
      exact c.silent
    · exact silent_code _ (by decide +kernel)
    · exact table.silent
    · exact silent_where hnum p hp

/-- The only semicolon outside the literals stands at the end. -/
theorem Stmt.Numeric.one_statement (hsql : sql.Numeric) :
    ∃ ls, sql.intended.lexemes = ls ++ [.sym 59] ∧ .sym 59 ∉ ls := by
  refine ⟨sql.intended.parts.flatMap Part.lexemes, ?_, fun h => ?_⟩
  · rw [Sql.lexemes, flatMap_append]
    congr 1
  · obtain ⟨p, hp, hmem⟩ := mem_flatMap.mp h
    exact Sql.silent hsql p hp hmem

/-! ## The buffers -/

def sqlMax : Nat := 4096

/-- What a piece takes at most, a number taken for 11 bytes. -/
def Piece.room : Piece → Nat
  | .fixed s _ => (bytes s).length
  | .str _ _ => quoteMax
  | .raw _ => 11

theorem Stmt.room_lt (sql : Stmt) : (sql.pieces.map Piece.room).sum < sqlMax := by
  cases sql <;>
    simp only [Stmt.pieces, map_cons, map_nil, sum_cons, sum_nil, Piece.room]
  all_goals decide

theorem Stmt.Numeric.length_raw (hsql : sql.Numeric) (hs : Piece.raw s ∈ sql.pieces) :
    s.length ≤ 11 := by
  have hnum : ∀ s, .num s ∈ sql.intended.values → s.length ≤ 11 := by
    intro s hs
    obtain ⟨v, hv, rfl⟩ := hsql s hs
    exact length_fmtInt_le hv
  have hstate : ∀ st, (bbStateStr st).length ≤ 11 := fun st => by cases st <;> decide
  cases sql <;>
    simp only [Stmt.pieces, Stmt.intended, Sql.values, mem_cons, not_mem_nil, or_false,
      reduceCtorEq, false_or, Piece.raw.injEq, Value.num.injEq] at hs hnum
  case insertElection =>
    rcases hs with rfl | rfl
    · exact hnum _ rfl
    · exact hstate _
  case insertBallot =>
    rcases hs with rfl | rfl | rfl
    · exact hnum _ (.inl rfl)
    · exact hnum _ (.inr (.inl rfl))
    · exact hnum _ (.inr (.inr rfl))
  all_goals exact hnum _ hs

theorem Piece.length_text_le {p : Piece} (hraw : ∀ s, p = .raw s → s.length ≤ 11) :
    p.text.length ≤ p.room := by
  cases p with
  | fixed s plain => exact le_refl _
  | str s short =>
    have hlen := length_quoted_le s.val
    have hfits := s.fits
    rw [Piece.text_str]
    simp only [cons_append, length_cons, length_append, length_nil, Piece.room]
    omega
  | raw s => exact hraw s rfl

theorem Stmt.Numeric.length_text_lt (hsql : sql.Numeric) : sql.text.length < sqlMax := by
  refine lt_of_le_of_lt ?_ sql.room_lt
  rw [Stmt.text, length_flatMap]
  exact sum_le_sum fun p hp => Piece.length_text_le fun s hs => hsql.length_raw (hs ▸ hp)

end Corestack.Brain
