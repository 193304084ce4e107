import Corestack.Db.Literal
import Corestack.Db.Table
import Corestack.Brain.Types

/-!
# The ballot store

The six tables of `libballotbrain/db.c`, the statements the seam sends to
them, and what SimpleDB does with each: a statement reads or changes the
tables and prints lines. A table is the list of its rows; the byte strings
in a row are literals as they are stored.
-/

namespace Corestack.Brain

open Lib Db

def bbStateStr : BbState → Bytes
  | .draft => bytes "DRAFT"
  | .opened => bytes "OPEN"
  | .closed => bytes "CLOSED"
  | .published => bytes "PUBLISHED"

/-! ## Tables -/

structure ElectionRow where
  seq : Int
  id : Bytes
  title : Bytes
  state : Bytes
  openTime : Bytes
  closeTime : Bytes
deriving DecidableEq

structure OptionRow where
  electionId : Bytes
  idx : Int
  name : Bytes
deriving DecidableEq

structure EligibleRow where
  electionId : Bytes
  certName : Bytes
deriving DecidableEq

structure BallotRow where
  electionId : Bytes
  hash : Bytes
  optionIndex : Int
  version : Int
  superseded : Int
deriving DecidableEq

structure OwnerRow where
  electionId : Bytes
  certName : Bytes
  hash : Bytes
  version : Int
deriving DecidableEq

structure NonceRow where
  electionId : Bytes
  nonce : Bytes
deriving DecidableEq

structure Tables where
  election : List ElectionRow
  option : List OptionRow
  eligible : List EligibleRow
  ballot : List BallotRow
  owner : List OwnerRow
  nonce : List NonceRow
deriving DecidableEq

def Tables.empty : Tables := ⟨[], [], [], [], [], []⟩

/-! ## Statements -/

/-- The statements of the seam. String arguments are the values before
`db_quote`; numbers are the text that stands in the statement. -/
inductive Stmt where
  | setTransaction
  | commit
  | rollback
  | insertElection (seq : Bytes) (id : Id) (title : Title) (state : BbState)
      (openTime closeTime : Time)
  | insertOption (eid : Id) (idx : Bytes) (name : OptionName)
  | insertEligible (eid : Id) (cert : CertName)
  | insertBallot (eid : Id) (hash : Hash) (opt ver sup : Bytes)
  | insertOwner (eid : Id) (cert : CertName) (hash : Hash) (ver : Bytes)
  | insertNonce (eid : Id) (nonce : Nonce)
  | deleteElection (id : Id)
  | deleteBallot (eid : Id) (hash : Hash)
  | deleteOwner (eid : Id) (cert : CertName)
  | selectElection (id : Id)
  | selectCarried (id : Id)
  | selectOptions (eid : Id)
  | selectEligible (eid : Id)
  | selectBallot (eid : Id) (hash : Hash)
  | selectOwner (eid : Id) (cert : CertName)
  | selectNonce (eid : Id) (nonce : Nonce)
  | selectTally (eid : Id)
  | selectHashes (eid : Id)
  | selectHash (eid : Id) (hash : Hash)
  | selectMaxSeq
deriving DecidableEq

/-- `QUOTE_MAX` of the seam. -/
def quoteMax : Nat := 512

/-- A piece of a statement's text: fixed text, which has no line break in
it, a quoted string, or text put in as it is. -/
inductive Piece where
  | fixed (s : String) (plain : breaksLine (bytes s) = false := by decide +kernel)
  | str {n : Nat} (s : CStr n) (short : 2 * n + 1 ≤ quoteMax := by decide)
  | raw (s : Bytes)

def Piece.text : Piece → Bytes
  | .fixed s _ => bytes s
  | .str s _ => dbQuote quoteMax s.val
  | .raw s => s

def Piece.breaks : Piece → Bool
  | .fixed _ _ => false
  | .str s _ => breaksLine s.val
  | .raw s => breaksLine s

/-- A statement as the seam's `snprintf` calls build it. -/
def Stmt.pieces : Stmt → List Piece
  | .setTransaction =>
    [.fixed "set transaction read write;"]
  | .commit =>
    [.fixed "commit;"]
  | .rollback =>
    [.fixed "rollback;"]
  | .insertElection seq id title state openTime closeTime =>
    [.fixed "insert into election values (", .raw seq, .fixed ", ", .str id, .fixed ", ",
      .str title, .fixed ", '", .raw (bbStateStr state), .fixed "', ", .str openTime,
      .fixed ", ", .str closeTime, .fixed ");"]
  | .insertOption eid idx name =>
    [.fixed "insert into election_option values (", .str eid, .fixed ", ", .raw idx,
      .fixed ", ", .str name, .fixed ");"]
  | .insertEligible eid cert =>
    [.fixed "insert into election_eligible values (", .str eid, .fixed ", ", .str cert,
      .fixed ");"]
  | .insertBallot eid hash opt ver sup =>
    [.fixed "insert into ballot values (", .str eid, .fixed ", ", .str hash, .fixed ", ",
      .raw opt, .fixed ", ", .raw ver, .fixed ", ", .raw sup, .fixed ");"]
  | .insertOwner eid cert hash ver =>
    [.fixed "insert into ballot_owner values (", .str eid, .fixed ", ", .str cert,
      .fixed ", ", .str hash, .fixed ", ", .raw ver, .fixed ");"]
  | .insertNonce eid nonce =>
    [.fixed "insert into nonce values (", .str eid, .fixed ", ", .str nonce, .fixed ");"]
  | .deleteElection id =>
    [.fixed "delete from election where id = ", .str id, .fixed ";"]
  | .deleteBallot eid hash =>
    [.fixed "delete from ballot where election_id = ", .str eid, .fixed " and hash = ",
      .str hash, .fixed ";"]
  | .deleteOwner eid cert =>
    [.fixed "delete from ballot_owner where election_id = ", .str eid,
      .fixed " and cert_name = ", .str cert, .fixed ";"]
  | .selectElection id =>
    [.fixed
        "select seq, id, title, state, open_time, close_time from election where id = ",
      .str id, .fixed ";"]
  | .selectCarried id =>
    [.fixed "select seq, title, open_time, close_time from election where id = ",
      .str id, .fixed ";"]
  | .selectOptions eid =>
    [.fixed "select idx, name from election_option where election_id = ", .str eid,
      .fixed ";"]
  | .selectEligible eid =>
    [.fixed "select cert_name from election_eligible where election_id = ", .str eid,
      .fixed ";"]
  | .selectBallot eid hash =>
    [.fixed "select option_index, version from ballot where election_id = ", .str eid,
      .fixed " and hash = ", .str hash, .fixed ";"]
  | .selectOwner eid cert =>
    [.fixed "select hash, version from ballot_owner where election_id = ", .str eid,
      .fixed " and cert_name = ", .str cert, .fixed ";"]
  | .selectNonce eid nonce =>
    [.fixed "select nonce from nonce where election_id = ", .str eid,
      .fixed " and nonce = ", .str nonce, .fixed ";"]
  | .selectTally eid =>
    [.fixed "select option_index from ballot where election_id = ", .str eid,
      .fixed " and superseded = 0;"]
  | .selectHashes eid =>
    [.fixed
        "select hash, option_index, version, superseded from ballot where election_id = ",
      .str eid, .fixed " and superseded = 0;"]
  | .selectHash eid hash =>
    [.fixed
        "select hash, option_index, version, superseded from ballot where election_id = ",
      .str eid, .fixed " and hash = ", .str hash, .fixed " and superseded = 0;"]
  | .selectMaxSeq =>
    [.fixed "select max(seq) from election;"]

def Stmt.text (sql : Stmt) : Bytes := sql.pieces.flatMap Piece.text

/-- Only an argument can break the line of a statement. -/
def Stmt.breaks (sql : Stmt) : Bool := sql.pieces.any Piece.breaks

theorem breaksLine_piece (p : Piece) : breaksLine p.text = p.breaks := by
  cases p with
  | fixed s plain => exact plain
  | str s short => exact breaksLine_dbQuote (by have := s.fits; omega)
  | raw s => rfl

theorem breaksLine_text (sql : Stmt) : breaksLine sql.text = sql.breaks := by
  unfold Stmt.text Stmt.breaks
  induction sql.pieces with
  | nil => rfl
  | cons p ps ih =>
    rw [List.flatMap_cons, breaksLine_append, breaksLine_piece, ih, List.any_cons]

namespace Tables

/-- The rows a select prints, as their fields; `none` for other statements. -/
def query (t : Tables) : Stmt → Option (List (List Bytes))
  | .selectElection id => some <| (t.election.filter (·.id = quoted id.val)).map fun r =>
    [fmtInt r.seq, r.id, r.title, r.state, r.openTime, r.closeTime]
  | .selectCarried id => some <| (t.election.filter (·.id = quoted id.val)).map fun r =>
    [fmtInt r.seq, r.title, r.openTime, r.closeTime]
  | .selectOptions eid => some <| (t.option.filter (·.electionId = quoted eid.val)).map fun r =>
    [fmtInt r.idx, r.name]
  | .selectEligible eid => some <| (t.eligible.filter (·.electionId = quoted eid.val)).map fun r =>
    [r.certName]
  | .selectBallot eid hash => some <|
      (t.ballot.filter fun r =>
        r.electionId = quoted eid.val ∧ r.hash = quoted hash.val).map fun r =>
        [fmtInt r.optionIndex, fmtInt r.version]
  | .selectOwner eid cert => some <|
      (t.owner.filter fun r =>
        r.electionId = quoted eid.val ∧ r.certName = quoted cert.val).map fun r =>
        [r.hash, fmtInt r.version]
  | .selectNonce eid nonce => some <|
      (t.nonce.filter fun r =>
        r.electionId = quoted eid.val ∧ r.nonce = quoted nonce.val).map fun r =>
        [r.nonce]
  | .selectTally eid => some <|
      (t.ballot.filter fun r => r.electionId = quoted eid.val ∧ r.superseded = 0).map fun r =>
        [fmtInt r.optionIndex]
  | .selectHashes eid => some <|
      (t.ballot.filter fun r => r.electionId = quoted eid.val ∧ r.superseded = 0).map fun r =>
        [r.hash, fmtInt r.optionIndex, fmtInt r.version, fmtInt r.superseded]
  | .selectHash eid hash => some <|
      (t.ballot.filter fun r =>
        r.electionId = quoted eid.val ∧ r.hash = quoted hash.val ∧ r.superseded = 0).map fun r =>
        [r.hash, fmtInt r.optionIndex, fmtInt r.version, fmtInt r.superseded]
  | .selectMaxSeq => some <| (t.election.map (·.seq)).max?.toList.map fun v => [fmtInt v]
  | _ => none

/-- The tables after a write; `none` when a number in it is no `int`. -/
def write (t : Tables) : Stmt → Option Tables
  | .insertElection seq id title state openTime closeTime => do
      let seq ← readInt seq
      return { t with election := t.election ++
        [⟨seq, quoted id.val, quoted title.val, bbStateStr state, quoted openTime.val,
          quoted closeTime.val⟩] }
  | .insertOption eid idx name => do
      let idx ← readInt idx
      return { t with option := t.option ++ [⟨quoted eid.val, idx, quoted name.val⟩] }
  | .insertEligible eid cert =>
    some { t with eligible := t.eligible ++ [⟨quoted eid.val, quoted cert.val⟩] }
  | .insertBallot eid hash opt ver sup => do
      let opt ← readInt opt
      let ver ← readInt ver
      let sup ← readInt sup
      return { t with ballot := t.ballot ++ [⟨quoted eid.val, quoted hash.val, opt, ver, sup⟩] }
  | .insertOwner eid cert hash ver => do
      let ver ← readInt ver
      return { t with
        owner := t.owner ++ [⟨quoted eid.val, quoted cert.val, quoted hash.val, ver⟩] }
  | .insertNonce eid nonce =>
    some { t with nonce := t.nonce ++ [⟨quoted eid.val, quoted nonce.val⟩] }
  | .deleteElection id =>
    some { t with election := t.election.filter fun r => ¬ r.id = quoted id.val }
  | .deleteBallot eid hash =>
    some { t with ballot := t.ballot.filter fun r =>
      ¬ (r.electionId = quoted eid.val ∧ r.hash = quoted hash.val) }
  | .deleteOwner eid cert =>
    some { t with owner := t.owner.filter fun r =>
      ¬ (r.electionId = quoted eid.val ∧ r.certName = quoted cert.val) }
  | _ => some t

end Tables

/-! ## What a select prints

`Query.execute` prints a header, a rule, the rows, a blank line and the row
count. Around that stand lines about the plan and the transaction, which
carry no data the seam reads. -/

/-- The lines by which `StatementSession` recognises a failed statement. -/
def isErrorLine (l : Bytes) : Bool :=
  (bytes "Invalid SQL expression").isPrefixOf l || (bytes "Can't parse ").isPrefixOf l

/-- A line that fits into the line buffer as it was printed. -/
structure RawLine (l : Bytes) : Prop where
  noLf : lf ∉ l
  noNul : 0 ∉ l
  short : l.length < dbBodyMax

/-- A line that is neither an end line nor an error message. -/
structure TextLine (l : Bytes) : Prop extends RawLine l where
  noMarker : isMarker l = false
  noError : isErrorLine l = false

/-- A line that plays no part in reading a reply. -/
structure PlainLine (l : Bytes) : Prop extends TextLine l where
  noRule : isRule l = false

/-- What SimpleDB prints besides the rows, for the statement run as number
`n`: the plan and the like above and below, the header with the column
names, and the text of a refused statement. -/
structure Chatter where
  before : Nat → Stmt → List Bytes
  header : Stmt → Bytes
  after : Nat → Stmt → List Bytes
  refusal : Nat → Stmt → List Bytes
  before_plain : ∀ n sql, ∀ l ∈ before n sql, PlainLine l
  header_plain : ∀ sql, PlainLine (header sql)
  header_ne : ∀ sql, header sql ≠ []
  header_short : ∀ sql, (header sql).length ≤ 512
  after_plain : ∀ n sql, ∀ l ∈ after n sql, PlainLine l
  refusal_noMarker : ∀ n sql, ∀ l ∈ refusal n sql, isMarker (lineBuf l) = false
  size : ∀ n sql, (join lf (before n sql ++ [header sql])).length ≤ 1536

/-- A server that prints tables and nothing else. -/
def Chatter.terse : Chatter where
  before _ _ := []
  header _ := bytes "c"
  after _ _ := []
  refusal _ _ := []
  before_plain := by simp
  header_plain := fun _ => ⟨⟨⟨by decide +kernel, by decide +kernel, by decide +kernel⟩,
    by decide +kernel, by decide +kernel⟩, by decide +kernel⟩
  header_ne := fun _ => by decide +kernel
  header_short := fun _ => by decide +kernel
  after_plain := by simp
  refusal_noMarker := by simp
  size := fun _ _ => by decide +kernel

instance : Inhabited Chatter := ⟨.terse⟩

/-- How many columns a select prints. -/
def Stmt.columns : Stmt → Nat
  | .selectElection _ => 6
  | .selectCarried _ | .selectHashes _ | .selectHash _ _ => 4
  | .selectOptions _ | .selectBallot _ _ | .selectOwner _ _ => 2
  | _ => 1

def ruleLine (c : Chatter) (sql : Stmt) : Bytes :=
  List.replicate ((c.header sql).length + 4 * sql.columns) 45

def selectLines (c : Chatter) (n : Nat) (sql : Stmt) (rows : List (List Bytes)) : List Bytes :=
  (c.before n sql ++ [c.header sql]) ++ ruleLine c sql ::
    (rows.map (join tab) ++ [] :: trailerLine rows.length :: c.after n sql)

end Corestack.Brain
