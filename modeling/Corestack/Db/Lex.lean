import Corestack.Db.Literal

/-!
# Reading SQL text

How SQL text falls into lexemes, as far as strings go: a literal runs from
a quote to the next undoubled quote, and every other byte stands for
itself. A text put together from code without quotes and quoted strings is
read back as it was meant, whatever bytes the strings hold.

The server reads its input by lines, which end at LF, CR or CRLF.
-/

namespace Corestack.Db

open List Lib

/-! ## Lexemes -/

/-- A byte outside the literals, or a whole literal with its quotes
undoubled. -/
inductive Lexeme where
  | sym (c : UInt8)
  | lit (s : Bytes)
deriving DecidableEq

/-- Lex a text behind the literal read so far, if one is open. `none` when a
literal is still open in the end. -/
def lexSql : Option Bytes → Bytes → Option (List Lexeme)
  | none, [] => some []
  | some _, [] => none
  | none, c :: s => if c = 39 then lexSql (some []) s else (lexSql none s).map (.sym c :: ·)
  | some t, [c] => if c = 39 then some [.lit t] else none
  | some t, c :: d :: s =>
    if c = 39 then
      if d = 39 then lexSql (some (t ++ [39])) s
      else (lexSql none (d :: s)).map (.lit t :: ·)
    else lexSql (some (t ++ [c])) (d :: s)

/-- The text goes on with something else than a quote. -/
def NotQuoted (s : Bytes) : Prop := s.head? ≠ some 39

theorem lexSql_code {a : Bytes} (ha : 39 ∉ a) (s : Bytes) :
    lexSql none (a ++ s) = (lexSql none s).map (a.map Lexeme.sym ++ ·) := by
  induction a with
  | nil => simp
  | cons c a ih =>
    simp only [mem_cons, not_or] at ha
    rw [cons_append, lexSql, if_neg (Ne.symm ha.1), ih ha.2, Option.map_map]
    rfl

theorem lexSql_close (t : Bytes) {s : Bytes} (hs : NotQuoted s) :
    lexSql (some t) (39 :: s) = (lexSql none s).map (.lit t :: ·) := by
  cases s with
  | nil => rfl
  | cons d s =>
    have hd : d ≠ 39 := fun h => hs (by rw [h]; rfl)
    conv_lhs => rw [lexSql, if_pos rfl, if_neg hd]

theorem lexSql_inside (t : Bytes) {c : UInt8} (hc : c ≠ 39) {s : Bytes} (hs : s ≠ []) :
    lexSql (some t) (c :: s) = lexSql (some (t ++ [c])) s := by
  obtain ⟨d, s, rfl⟩ := exists_cons_of_ne_nil hs
  rw [lexSql, if_neg hc]

/-- The literal of a string is one lexeme, the string itself. -/
theorem lexSql_quoted (u t : Bytes) {s : Bytes} (hs : NotQuoted s) :
    lexSql (some t) (quoted u ++ 39 :: s) = (lexSql none s).map (.lit (t ++ u) :: ·) := by
  induction u generalizing t with
  | nil =>
    rw [append_nil]
    exact lexSql_close t hs
  | cons c u ih =>
    have hcons : t ++ c :: u = t ++ [c] ++ u := by simp
    rw [quoted_cons, hcons, ← ih]
    by_cases hc : c = 39
    · subst hc
      rfl
    · rw [if_neg hc]
      exact lexSql_inside t hc (by simp)

/-! ## Texts put together from parts -/

/-- A part of an SQL text: code, which has no quote in it, a number, or a
string to be quoted. -/
inductive Part where
  | code (s : String) (plain : 39 ∉ bytes s := by decide +kernel)
  | num (s : Bytes)
  | str (s : Bytes)

def Part.text : Part → Bytes
  | .code s _ => bytes s
  | .num s => s
  | .str s => 39 :: quoted s ++ [39]

def Part.lexemes : Part → List Lexeme
  | .code s _ => (bytes s).map .sym
  | .num s => s.map .sym
  | .str s => [.lit s]

/-- No number has a quote in it, and no string is followed by one. -/
def Readable : List Part → Prop
  | [] => True
  | .code _ _ :: ps => Readable ps
  | .num s :: ps => 39 ∉ s ∧ Readable ps
  | .str _ :: ps => NotQuoted (ps.flatMap Part.text) ∧ Readable ps

/-- A readable text is read as the parts it was put together from. No literal
ends early, because the part behind it does not start with a quote. -/
theorem lexSql_parts {ps : List Part} (hps : Readable ps) :
    lexSql none (ps.flatMap Part.text) = some (ps.flatMap Part.lexemes) := by
  induction ps with
  | nil => rfl
  | cons p ps ih =>
    rw [flatMap_cons, flatMap_cons]
    cases p with
    | code s plain => rw [Part.text, lexSql_code plain, ih hps, Option.map_some, Part.lexemes]
    | num s => rw [Part.text, lexSql_code hps.1, ih hps.2, Option.map_some, Part.lexemes]
    | str s =>
      have htext : Part.text (.str s) ++ ps.flatMap Part.text =
          39 :: (quoted s ++ 39 :: ps.flatMap Part.text) := by simp [Part.text]
      rw [htext, lexSql, if_pos rfl, lexSql_quoted s [] hps.1, ih hps.2]
      rfl

/-! ## Lines -/

/-- The lines of the server's input that are complete, and what stands
behind the last one. A line ends at LF, at CR or at CRLF: after a CR one LF
is skipped. If the stream ends there, what stands behind the last line is
read as one more line. -/
def serverLines (skipLf : Bool) : Bytes → List Bytes × Bytes
  | [] => ([], [])
  | c :: s =>
    if c = lf then
      if skipLf then serverLines false s
      else ([] :: (serverLines false s).1, (serverLines false s).2)
    else if c = cr then ([] :: (serverLines true s).1, (serverLines true s).2)
    else match serverLines false s with
      | (l :: ls, rest) => ((c :: l) :: ls, rest)
      | ([], rest) => ([], c :: rest)

theorem breaksLine_cons {c : UInt8} {s : Bytes} (h : breaksLine (c :: s) = false) :
    (c ≠ lf ∧ c ≠ cr) ∧ breaksLine s = false := by
  simpa [breaksLine] using h

/-- A text without line breaks, sent with a LF, is one line. -/
theorem serverLines_line {l : Bytes} (hl : breaksLine l = false) (s : Bytes) :
    serverLines false (l ++ lf :: s) =
      (l :: (serverLines false s).1, (serverLines false s).2) := by
  induction l with
  | nil => rfl
  | cons c l ih =>
    obtain ⟨hc, hl⟩ := breaksLine_cons hl
    rw [cons_append, serverLines, if_neg hc.1, if_neg hc.2, ih hl]

theorem serverLines_rest {s : Bytes} (hs : breaksLine s = false) :
    serverLines false s = ([], s) := by
  induction s with
  | nil => rfl
  | cons c s ih =>
    obtain ⟨hc, hs⟩ := breaksLine_cons hs
    rw [serverLines, if_neg hc.1, if_neg hc.2, ih hs]

/-- Lines sent one after the other, the last of them perhaps cut short, are
read one by one. What is left of the last one ends no line. -/
theorem serverLines_sent {ls : List Bytes} (hls : ∀ l ∈ ls, breaksLine l = false) {rest : Bytes}
    (hrest : breaksLine rest = false) :
    serverLines false (ls.flatMap (· ++ [lf]) ++ rest) = (ls, rest) := by
  induction ls with
  | nil => exact serverLines_rest hrest
  | cons l ls ih =>
    rw [flatMap_cons, append_assoc, append_assoc, singleton_append,
      serverLines_line (hls l (by simp)), ih fun x hx => hls x (by simp [hx])]

end Corestack.Db
