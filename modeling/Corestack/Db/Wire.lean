import Corestack.Db.Literal

/-!
# The line protocol, byte by byte (`wire.c`, `socket.c`)

`Reply` takes what a runner sends as a list of lines. Here are the functions
that cut the lines out of a byte stream: `read` hands over the bytes in
pieces of any size, and a buffer keeps what a line left over. The two views
agree, however the stream is cut (`dbWireResponse_stream`).

On top of that stands the exchange of statements and answers on one
connection, and when the two stay paired.
-/

namespace Corestack.Db.Wire

open List Lib Db

/-- What waiting for the socket and reading from it come to: some bytes
(none at the end of the stream), a reason to try again, a broken
descriptor, or the deadline. -/
inductive ReadEvent where
  | got (bs : Bytes)
  | again
  | failed
  | late
deriving DecidableEq

def ReadEvent.bytes : ReadEvent → Bytes
  | .got bs => bs
  | _ => []

def ReadEvent.calm : ReadEvent → Bool
  | .got bs => bs ≠ []
  | .again => true
  | _ => false

/-- `db_wire_t`: the bytes of `buf` from `pos` to `len`, and what its
descriptor will give. -/
structure DbWire where
  buf : Bytes
  reads : List ReadEvent
deriving DecidableEq

def DbWire.bytes (w : DbWire) : Bytes := w.buf ++ w.reads.flatMap ReadEvent.bytes

/-- The `DB_WIRE_*` results of `db_wire_line`. -/
inductive LineResult where
  | line (out : Bytes)
  | eof
  | io
  | late
deriving DecidableEq

/-- The inner loop of `db_wire_line`: bytes go from the buffer to `out`, as
long as there is room, up to a newline (`inr`) or the end of the buffer. -/
def takeLine (cap : Nat) (out : Bytes) : Bytes → Bytes ⊕ (Bytes × Bytes)
  | [] => .inl out
  | c :: buf =>
    if c = lf then .inr (out, buf)
    else takeLine cap (if out.length + 1 < cap then out ++ [c] else out) buf

def dbWireLine (cap : Nat) (out buf : Bytes) (reads : List ReadEvent) : LineResult × DbWire :=
  match takeLine cap out buf with
  | .inr (out, buf) => (.line out, ⟨buf, reads⟩)
  | .inl out =>
    match reads with
    -- nothing comes any more, so the deadline passes
    | [] => (.late, ⟨[], []⟩)
    | .late :: reads => (.late, ⟨[], reads⟩)
    | .failed :: reads => (.io, ⟨[], reads⟩)
    | .again :: reads => dbWireLine cap out [] reads
    | .got bs :: reads =>
      if bs = [] then (.eof, ⟨[], reads⟩) else dbWireLine cap out bs reads

/-- The loop of `db_wire_response`, for so many lines at most. -/
def responseLoop (cap : Nat) : Nat → DbWire → Bytes → (DbStatus × Bytes) × DbWire
  | 0, w, body => ((.io, body), w)
  | k + 1, w, body =>
    match dbWireLine dbBodyMax [] w.buf w.reads with
    | (.late, w) => ((.timeout, body), w)
    | (.line out, w) =>
      let line := cText out
      if isMarker line then ((classify line, body), w)
      else responseLoop cap k w (appendLine cap body line)
    | (_, w) => ((.io, body), w)

/-- Every line takes a byte at least, so the loop ends before the bound. -/
def dbWireResponse (cap : Nat) (w : DbWire) : (DbStatus × Bytes) × DbWire :=
  responseLoop cap (w.bytes.length + 1) w []

/-! ## Streams of lines -/

def stream (ls : List Bytes) : Bytes := ls.flatMap (· ++ [lf])

theorem stream_cons (l : Bytes) (ls : List Bytes) : stream (l :: ls) = l ++ lf :: stream ls := by
  simp [stream]

theorem stream_append (ls ls' : List Bytes) : stream (ls ++ ls') = stream ls ++ stream ls' := by
  simp [stream]

theorem length_le_stream (ls : List Bytes) : ls.length ≤ (stream ls).length := by
  induction ls with
  | nil => exact Nat.zero_le _
  | cons l ls ih =>
    rw [stream_cons, length_append, length_cons, length_cons]
    omega

variable {ls : List Bytes}

theorem stream_eq_nil : stream ls = [] ↔ ls = [] := by
  constructor
  · intro h
    have := length_le_stream ls
    rw [h] at this
    exact length_eq_zero_iff.mp (Nat.le_zero.mp this)
  · rintro rfl
    rfl

/-! ## One line -/

variable {cap : Nat}

theorem push_take (hcap : 0 < cap) {out : Bytes} (hout : out.length ≤ cap - 1) (c : UInt8) :
    (if out.length + 1 < cap then out ++ [c] else out) = (out ++ [c]).take (cap - 1) := by
  split
  · rw [take_of_length_le (by simp only [length_append, length_singleton]; omega)]
  · rw [take_append_of_le_length (by omega), take_of_length_le hout]

theorem take_append_take (k : Nat) (a b : Bytes) : (a.take k ++ b).take k = (a ++ b).take k := by
  by_cases h : a.length ≤ k
  · rw [take_of_length_le h]
  · have hlen : k ≤ (a.take k).length := by
      rw [length_take]
      omega
    rw [take_append_of_le_length hlen, take_take, Nat.min_self,
      take_append_of_le_length (by omega)]

variable {p : Bytes}

theorem takeLine_part (hcap : 0 < cap) (hp : lf ∉ p) :
    ∀ {out : Bytes}, out.length ≤ cap - 1 →
      takeLine cap out p = .inl ((out ++ p).take (cap - 1)) := by
  induction p with
  | nil =>
    intro out hout
    rw [takeLine, append_nil, take_of_length_le hout]
  | cons c p ih =>
    intro out hout
    rw [mem_cons, not_or] at hp
    obtain ⟨hc, hp⟩ := hp
    rw [takeLine, if_neg (Ne.symm hc), push_take hcap hout, ih hp (by rw [length_take]; omega),
      take_append_take, append_assoc, singleton_append]

theorem takeLine_whole (hcap : 0 < cap) (hp : lf ∉ p) (rest : Bytes) :
    ∀ {out : Bytes}, out.length ≤ cap - 1 →
      takeLine cap out (p ++ lf :: rest) = .inr ((out ++ p).take (cap - 1), rest) := by
  induction p with
  | nil =>
    intro out hout
    rw [nil_append, takeLine, if_pos rfl, append_nil, take_of_length_le hout]
  | cons c p ih =>
    intro out hout
    rw [mem_cons, not_or] at hp
    obtain ⟨hc, hp⟩ := hp
    rw [cons_append, takeLine, if_neg (Ne.symm hc), push_take hcap hout,
      ih hp (by rw [length_take]; omega), take_append_take, append_assoc, singleton_append]

theorem split_at_line {buf more rest : Bytes} (h : buf ++ more = p ++ lf :: rest) :
    (∃ p', p = buf ++ p' ∧ more = p' ++ lf :: rest) ∨
      ∃ b', buf = p ++ lf :: b' ∧ rest = b' ++ more := by
  rcases append_eq_append_iff.mp h with h | ⟨b', hb, hmore⟩
  · exact .inl h
  · cases b' with
    | nil => exact .inl ⟨[], by simpa using hb.symm, hmore.symm⟩
    | cons c b' =>
      obtain ⟨hc, hrest⟩ := List.cons.inj hmore
      subst hc
      exact .inr ⟨b', hb, hrest⟩

/-- A line is read whole, however its bytes come in, and nothing after it is
touched. -/
theorem dbWireLine_stream {cap : Nat} (hcap : 0 < cap) {reads : List ReadEvent} {rest : Bytes}
    (hcalm : ∀ e ∈ reads, e.calm = true) :
    ∀ {out buf p : Bytes}, lf ∉ p → out.length ≤ cap - 1 →
      buf ++ reads.flatMap ReadEvent.bytes = p ++ lf :: rest →
      ∃ w, dbWireLine cap out buf reads = (.line ((out ++ p).take (cap - 1)), w) ∧
        w.bytes = rest ∧ ∀ e ∈ w.reads, e.calm = true := by
  induction reads with
  | nil =>
    intro out buf p hp hout hbytes
    rw [flatMap_nil, append_nil] at hbytes
    rw [dbWireLine, hbytes, takeLine_whole hcap hp rest hout]
    exact ⟨_, rfl, by simp [DbWire.bytes], hcalm⟩
  | cons e reads ih =>
    intro out buf p hp hout hbytes
    have hcalm' : ∀ e ∈ reads, e.calm = true := fun e he => hcalm e (mem_cons_of_mem _ he)
    rcases split_at_line hbytes with ⟨p', hp', hrest⟩ | ⟨b', rfl, rfl⟩
    · -- The buffer ends within the line, so more of it has to be read.
      subst hp'
      have hbuf : lf ∉ buf := fun h => hp (mem_append_left _ h)
      have hp'' : lf ∉ p' := fun h => hp (mem_append_right _ h)
      have hmore : ∀ buf', buf' ++ reads.flatMap ReadEvent.bytes = p' ++ lf :: rest → _ :=
        fun buf' => @ih hcalm' ((out ++ buf).take (cap - 1)) buf' p' hp''
          (by rw [length_take]; omega)
      rw [take_append_take, append_assoc] at hmore
      rw [dbWireLine, takeLine_part hcap hbuf hout]
      cases e with
      | got bs =>
        have hbs : bs ≠ [] := by simpa [ReadEvent.calm] using hcalm (.got bs) (by simp)
        dsimp only
        rw [if_neg hbs]
        exact hmore _ hrest
      | again => exact hmore _ hrest
      | failed => exact absurd (hcalm .failed (by simp)) (by decide)
      | late => exact absurd (hcalm .late (by simp)) (by decide)
    · rw [dbWireLine, takeLine_whole hcap hp b' hout]
      exact ⟨_, rfl, rfl, hcalm⟩

/-! ## One reply -/

theorem responseLoop_stream (cap : Nat) (hls : ∀ l ∈ ls, lf ∉ l) :
    ∀ {k : Nat} {w : DbWire} {body : Bytes} {st : DbStatus} {body' : Bytes} {rest : List Bytes},
      ls.length ≤ k → (∀ e ∈ w.reads, e.calm = true) → w.bytes = stream ls →
      Db.dbWireResponse cap ls body = some (st, body', rest) →
      ∃ w', responseLoop cap k w body = ((st, body'), w') ∧ w'.bytes = stream rest := by
  induction ls with
  | nil =>
    intro k w body st body' rest hk hcalm hw hread
    cases hread
  | cons l ls ih =>
    intro k w body st body' rest hk hcalm hw hread
    obtain ⟨k, rfl⟩ : ∃ k', k = k' + 1 := ⟨k - 1, by simp only [length_cons] at hk; omega⟩
    rw [stream_cons] at hw
    obtain ⟨w₁, hline, hw₁, hcalm₁⟩ := @dbWireLine_stream dbBodyMax (by decide) w.reads _
      hcalm [] w.buf l (hls l (by simp)) (Nat.zero_le _) hw
    rw [nil_append] at hline
    rw [responseLoop, hline]
    rw [Db.dbWireResponse] at hread
    dsimp only at hread ⊢
    rw [show cText (l.take (dbBodyMax - 1)) = lineBuf l from rfl]
    split at hread
    · rename_i hm
      cases hread
      rw [if_pos hm]
      exact ⟨w₁, rfl, hw₁⟩
    · rename_i hm
      rw [if_neg hm]
      simp only [length_cons] at hk
      exact ih (fun x hx => hls x (by simp [hx])) (by omega) hcalm₁ hw₁ hread

variable {rest : List Bytes} {st : DbStatus}

/-- Reading a reply off the byte stream is reading it off the lines, however
the bytes come in. -/
theorem dbWireResponse_stream (hls : ∀ l ∈ ls, lf ∉ l) {w : DbWire}
    (hcalm : ∀ e ∈ w.reads, e.calm = true) (hw : w.bytes = stream ls) {body : Bytes}
    (hread : Db.dbWireResponse cap ls [] = some (st, body, rest)) :
    ∃ w', dbWireResponse cap w = ((st, body), w') ∧ w'.bytes = stream rest := by
  refine responseLoop_stream cap hls ?_ hcalm hw hread
  have := length_le_stream ls
  rw [hw]
  omega

/-! ## Statements on one connection (`socket.c`) -/

/-- `struct db_socket` without its descriptor and deadline: the unused bytes
in the buffer, and the failure the connection is stuck on. -/
structure DbSocket where
  buf : Bytes
  failed : Option DbStatus
deriving DecidableEq

/-- `db_socket_exec`, for the result of writing the statement (`none` is 0)
and what is to be read after it. -/
def dbSocketExec (sql : Bytes) (cap : Nat) (written : Option DbStatus) (reads : List ReadEvent)
    (c : DbSocket) : (DbStatus × Bytes) × DbSocket × List ReadEvent :=
  match c.failed with
  | some st => ((st, []), c, reads)
  | none =>
    if breaksLine sql then ((.error, []), c, reads)
    else
      match written with
      | some st => ((st, []), ⟨c.buf, some st⟩, reads)
      | none =>
        let (r, w) := dbWireResponse cap ⟨c.buf, reads⟩
        (r, ⟨w.buf, if r.1 = .timeout ∨ r.1 = .io then some r.1 else none⟩, w.reads)

/-- The outcome of a statement (`StatementSession.Status`). -/
inductive Outcome where
  | ok
  | error
  | retry
deriving DecidableEq

def Outcome.marker : Outcome → Bytes
  | .ok => dbMarkOk
  | .error => dbMarkError
  | .retry => dbMarkRetry

def Outcome.status : Outcome → DbStatus
  | .ok => .ok
  | .error => .error
  | .retry => .retry

/-- What the runner sends for a statement: the lines it printed, then the
end line. -/
structure Result where
  outcome : Outcome
  lines : List Bytes
  noLf : ∀ l ∈ lines, lf ∉ l

def Result.sent (r : Result) : Bytes := stream (r.lines ++ [r.outcome.marker])

/-- The printed text, as far as it fits into a buffer of `cap` bytes. -/
def Result.text (r : Result) (cap : Nat) : Bytes := (join lf r.lines).take (cap - 1)

/-- What the caller should get: the outcome, and the text that was printed. -/
def Result.reply (r : Result) (cap : Nat) : DbStatus × Bytes := (r.outcome.status, r.text cap)

/-- A statement, the size of the caller's buffer, what the runner answers,
and how the bytes in flight come in. -/
structure Exchange where
  sql : Bytes
  cap : Nat
  result : Result
  arrival : Bytes → List ReadEvent
  oneLine : breaksLine sql = false
  arrival_bytes : ∀ bs, (arrival bs).flatMap ReadEvent.bytes = bs
  arrival_calm : ∀ bs, ∀ e ∈ arrival bs, e.calm = true

/-- Both ends of a connection: the client's, and the bytes in flight. -/
structure Channel where
  socket : DbSocket
  inFlight : Bytes
deriving DecidableEq

/-- The next byte to be read is the first one of the next reply. -/
def Channel.inPlace : Channel := ⟨⟨[], none⟩, []⟩

def Channel.bytes (c : Channel) : Bytes := c.socket.buf ++ c.inFlight

def Channel.exchange (c : Channel) (x : Exchange) : (DbStatus × Bytes) × Channel :=
  let (r, socket, reads) :=
    dbSocketExec x.sql x.cap none (x.arrival (c.inFlight ++ x.result.sent)) c.socket
  (r, ⟨socket, reads.flatMap ReadEvent.bytes⟩)

/-- The connection after some exchanges. -/
def Channel.after (c : Channel) (xs : List Exchange) : Channel :=
  xs.foldl (fun c x => (c.exchange x).2) c

theorem classify_answers (l : Bytes) : classify l ≠ .timeout ∧ classify l ≠ .io := by
  unfold classify
  split
  · decide
  · split <;> decide

theorem dbWireResponse_answers :
    ∀ {body : Bytes} {st : DbStatus} {body' : Bytes} {rest : List Bytes},
      Db.dbWireResponse cap ls body = some (st, body', rest) → st ≠ .timeout ∧ st ≠ .io := by
  induction ls with
  | nil =>
    intro body st body' rest h
    cases h
  | cons l ls ih =>
    intro body st body' rest h
    rw [Db.dbWireResponse] at h
    split at h
    · cases h
      exact classify_answers _
    · exact ih h

theorem noLf_marker (o : Outcome) : lf ∉ o.marker := by
  cases o <;> decide

theorem exchange_lines {c : Channel} (hf : c.socket.failed = none) (hls : ∀ l ∈ ls, lf ∉ l)
    (hc : c.bytes = stream ls) (x : Exchange) {body : Bytes}
    (hread : Db.dbWireResponse x.cap
      (ls ++ x.result.lines ++ [x.result.outcome.marker]) [] = some (st, body, rest)) :
    ∃ c', c.exchange x = ((st, body), c') ∧ c'.bytes = stream rest ∧ c'.socket.failed = none := by
  have hall : ∀ l ∈ ls ++ x.result.lines ++ [x.result.outcome.marker], lf ∉ l := by
    intro l hl
    simp only [mem_append, mem_singleton] at hl
    rcases hl with (hl | hl) | rfl
    · exact hls l hl
    · exact x.result.noLf l hl
    · exact noLf_marker _
  obtain ⟨w, hresp, hw⟩ := dbWireResponse_stream hall
    (w := ⟨c.socket.buf, x.arrival (c.inFlight ++ x.result.sent)⟩) (x.arrival_calm _) (by
      rw [DbWire.bytes, x.arrival_bytes, ← append_assoc, show c.socket.buf ++ c.inFlight =
        stream ls from hc, Result.sent, ← stream_append, append_assoc]) hread
  obtain ⟨hlate, hio⟩ := dbWireResponse_answers hread
  simp only [Channel.exchange, dbSocketExec, hf, x.oneLine, Bool.false_eq_true, if_false, hresp,
    hlate, hio, or_self]
  exact ⟨_, rfl, hw, rfl⟩

/-! ## Text that comes through the line buffer

A line goes through a buffer of `dbBodyMax` bytes and then through `%s`, and
blank lines are glued on only behind some text. So a text arrives as it was
sent exactly if it has no NUL in it, no blank line at its start and no line
that is too long. -/

/-- What arrives as it was sent. -/
structure Faithful (t : Bytes) : Prop where
  noNul : 0 ∉ t
  noBlank : t.head? ≠ some lf
  short : ∀ l ∈ split lf t, l.length < dbBodyMax

theorem split_take_line (hp : lf ∉ p) (rest : Bytes) (n : Nat) :
    split lf ((p ++ lf :: rest).take n) =
      if n ≤ p.length then [p.take n] else p :: split lf (rest.take (n - p.length - 1)) := by
  split
  · rename_i hn
    rw [take_append_of_le_length hn, split_piece fun h => hp (mem_of_mem_take h)]
  · rename_i hn
    obtain ⟨k, rfl⟩ : ∃ k, n = p.length + (k + 1) := ⟨n - p.length - 1, by omega⟩
    rw [take_length_add_append, take_succ_cons, split_append hp]
    congr 3
    omega

theorem take_cText {n : Nat} {s : Bytes} (h0 : 0 ∉ s.take n) : (cText s).take n = s.take n := by
  have hpos : ∀ c ∈ s.take n, decide (c ≠ 0) = true := fun c hc =>
    decide_eq_true fun h => h0 (h ▸ hc)
  rw [cText]
  conv_lhs => rw [← take_append_drop n s, takeWhile_append_of_pos hpos]
  by_cases hn : n ≤ s.length
  · rw [take_append_of_le_length (by rw [length_take]; omega), take_take, Nat.min_self]
  · rw [drop_eq_nil_of_le (by omega), takeWhile_nil, append_nil, take_take, Nat.min_self]

theorem take_lineBuf {n : Nat} {l : Bytes} (h0 : 0 ∉ l.take n)
    (hlen : (l.take n).length < dbBodyMax) : (lineBuf l).take n = l.take n := by
  rw [length_take] at hlen
  have htake : (l.take (dbBodyMax - 1)).take n = l.take n := by
    rw [take_take]
    by_cases hn : n ≤ dbBodyMax - 1
    · rw [Nat.min_eq_left hn]
    · rw [take_of_length_le (by omega), take_of_length_le (by omega)]
  rw [lineBuf, take_cText (by rwa [htake]), htake]

theorem take_join_lineBuf {n : Nat} (hls : ∀ l ∈ ls, lf ∉ l) (h0 : 0 ∉ (join lf ls).take n)
    (hshort : ∀ l ∈ split lf ((join lf ls).take n), l.length < dbBodyMax) :
    (join lf (ls.map lineBuf)).take n = (join lf ls).take n := by
  induction ls generalizing n with
  | nil => rfl
  | cons l ls ih =>
    have hl := hls l mem_cons_self
    cases ls with
    | nil =>
      rw [join, split_piece fun h => hl (mem_of_mem_take h)] at hshort
      exact take_lineBuf h0 (hshort _ mem_cons_self)
    | cons l' ls =>
      rw [join, split_take_line hl] at hshort
      show (lineBuf l ++ lf :: join lf ((l' :: ls).map lineBuf)).take n = _
      rw [join] at h0 ⊢
      split at hshort
      · rename_i hn
        rw [take_append_of_le_length hn] at h0 ⊢
        have hline := take_lineBuf h0 (hshort _ mem_cons_self)
        have hlen := congrArg List.length hline
        rw [length_take, length_take] at hlen
        rw [take_append_of_le_length (by omega), hline]
      · rename_i hn
        obtain ⟨k, rfl⟩ : ∃ k, n = l.length + (k + 1) := ⟨n - l.length - 1, by omega⟩
        rw [take_length_add_append, take_succ_cons] at h0 ⊢
        simp only [mem_append, mem_cons, not_or] at h0
        rw [show l.length + (k + 1) - l.length - 1 = k by omega] at hshort
        have hline : lineBuf l = l := lineBuf_eq_self (hshort l mem_cons_self) h0.1
        rw [hline, take_length_add_append, take_succ_cons,
          ih (fun x hx => hls x (mem_cons_of_mem _ hx)) h0.2.2
            fun x hx => hshort x (mem_cons_of_mem _ hx)]

theorem short_take_join {n : Nat} (hls : ∀ l ∈ ls, lf ∉ l ∧ l.length < dbBodyMax) :
    ∀ l ∈ split lf ((join lf ls).take n), l.length < dbBodyMax := by
  induction ls generalizing n with
  | nil =>
    rw [join, take_nil, split_piece not_mem_nil]
    simp [dbBodyMax]
  | cons l ls ih =>
    obtain ⟨hl, hlen⟩ := hls l mem_cons_self
    have htake : ∀ k, (l.take k).length < dbBodyMax := fun k =>
      lt_of_le_of_lt (length_take_le' k l) hlen
    cases ls with
    | nil =>
      rw [join, split_piece fun h => hl (mem_of_mem_take h)]
      simpa using htake n
    | cons l' ls =>
      rw [join, split_take_line hl]
      split
      · simpa using htake n
      · intro x hx
        rcases mem_cons.mp hx with rfl | hx
        · exact hlen
        · exact ih (fun x hx => hls x (mem_cons_of_mem _ hx)) x hx

theorem lineBuf_line {l : Bytes} (hl : lf ∉ l) :
    lf ∉ lineBuf l ∧ 0 ∉ lineBuf l ∧ (lineBuf l).length < dbBodyMax := by
  refine ⟨fun h => hl (mem_of_mem_take ((takeWhile_sublist _).subset h)), zero_notMem_cText _, ?_⟩
  refine lt_of_le_of_lt (takeWhile_sublist _).length_le ?_
  rw [length_take]
  have : 0 < dbBodyMax := by decide
  omega

theorem head?_join_ne (hls : ∀ l ∈ ls, lf ∉ l) (hne : ls.head? ≠ some []) :
    (join lf ls).head? ≠ some lf := by
  cases ls with
  | nil => exact fun h => nomatch h
  | cons l ls =>
    cases l with
    | nil => exact absurd rfl hne
    | cons c l =>
      have hc : (join lf ((c :: l) :: ls)).head? = some c := by cases ls <;> rfl
      rw [hc]
      rintro h
      exact hls _ mem_cons_self (Option.some.inj h ▸ mem_cons_self)

/-- The body is the text that was printed exactly if that text comes
through. -/
theorem take_bodyText_iff (n : Nat) (hls : ∀ l ∈ ls, lf ∉ l) :
    (bodyText ls).take n = (join lf ls).take n ↔ Faithful ((join lf ls).take n) := by
  have hlines : ∀ l ∈ (ls.map lineBuf).dropWhile (· = []),
      lf ∉ l ∧ 0 ∉ l ∧ l.length < dbBodyMax := by
    intro l hl
    obtain ⟨x, hx, rfl⟩ := mem_map.mp ((dropWhile_sublist _).subset hl)
    exact lineBuf_line (hls x hx)
  constructor
  · intro heq
    rw [← heq]
    refine ⟨fun h => ?_, ?_, short_take_join fun l hl => ⟨(hlines l hl).1, (hlines l hl).2.2⟩⟩
    · obtain ⟨l, hl, h0⟩ := mem_join (by decide) (mem_of_mem_take h)
      exact (hlines l hl).2.1 h0
    · intro h
      obtain ⟨rest, hrest⟩ := head?_eq_some_iff.mp h
      refine head?_join_ne (fun l hl => (hlines l hl).1) (fun hnil => ?_) ?_
      · have := head?_dropWhile_not (fun l : Bytes => decide (l = [])) (ls.map lineBuf)
        rw [hnil] at this
        cases this
      · rw [← take_append_drop n (join lf _), ← bodyText, hrest]
        rfl
  · rintro ⟨h0, hblank, hshort⟩
    cases n with
    | zero => rfl
    | succ n =>
      cases ls with
      | nil => rfl
      | cons l ls =>
        by_cases hl : lineBuf l = []
        · -- The first line is blank, or a NUL makes it so.
          cases l with
          | nil =>
            cases ls with
            | nil => rfl
            | cons l' ls => exact absurd rfl hblank
          | cons c l =>
            have hc : c = 0 := by
              by_contra hc
              simp [lineBuf, dbBodyMax, cText, hc] at hl
            refine absurd ?_ h0
            cases ls <;> simp [join, hc]
        · rw [bodyText, map_cons, dropWhile_cons_of_neg (by simpa using hl), ← map_cons]
          exact take_join_lineBuf hls h0 hshort

/-! ## When statements and answers stay paired -/

theorem lineBuf_marker (o : Outcome) : lineBuf o.marker = o.marker := by
  cases o <;> rfl

theorem isMarker_marker (o : Outcome) : isMarker o.marker = true := by
  cases o <;> rfl

theorem classify_marker (o : Outcome) : classify o.marker = o.status := by
  cases o <;> rfl

variable {x : Exchange}

/-- A reply without a line that looks like its end is read to its end, and
the channel is in place for the next statement. -/
theorem exchange_inPlace (hx : ∀ l ∈ x.result.lines, isMarker l = false) :
    Channel.inPlace.exchange x =
      ((x.result.outcome.status, (bodyText x.result.lines).take (x.cap - 1)), .inPlace) := by
  have hread : Db.dbWireResponse x.cap ([] ++ x.result.lines ++ [x.result.outcome.marker]) [] =
      some (x.result.outcome.status, (bodyText x.result.lines).take (x.cap - 1), []) := by
    rw [nil_append, dbWireResponse_eq (fun l hl => (isMarker_lineBuf l).trans (hx l hl))
      (by rw [lineBuf_marker, isMarker_marker]), lineBuf_marker, classify_marker]
  obtain ⟨c', hc', hbytes, hfailed⟩ := exchange_lines (c := .inPlace) rfl (by simp) rfl x hread
  rw [hc']
  obtain ⟨⟨buf, failed⟩, inFlight⟩ := c'
  obtain ⟨rfl, rfl⟩ := append_eq_nil_iff.mp hbytes
  cases hfailed
  rfl

/-- A line that looks like the end of the reply leaves a rest unread, which
the next statement is answered with. -/
theorem exchange_leaves {l : Bytes} (hl : l ∈ x.result.lines) (hm : isMarker l = true) :
    (Channel.inPlace.exchange x).2 ≠ .inPlace := by
  obtain ⟨pre, m, post, hsplit, hpre, hmark⟩ :=
    exists_first (fun l => isMarker (lineBuf l)) ⟨l, hl, (isMarker_lineBuf l).trans hm⟩
  have hread : Db.dbWireResponse x.cap ([] ++ x.result.lines ++ [x.result.outcome.marker]) [] =
      some (classify (lineBuf m), (bodyText pre).take (x.cap - 1),
        post ++ [x.result.outcome.marker]) := by
    rw [nil_append, hsplit, append_assoc, cons_append, dbWireResponse_eq hpre hmark]
  obtain ⟨c', hc', hbytes, -⟩ := exchange_lines (c := .inPlace) rfl (by simp) rfl x hread
  rw [hc']
  intro h
  cases h
  have := stream_eq_nil.mp hbytes.symm
  simp at this

theorem after_concat (c : Channel) (xs : List Exchange) (x : Exchange) :
    c.after (xs ++ [x]) = ((c.after xs).exchange x).2 := by
  simp [Channel.after, foldl_append]

theorem after_inPlace {xs : List Exchange}
    (hxs : ∀ x ∈ xs, ∀ l ∈ x.result.lines, isMarker l = false) :
    Channel.inPlace.after xs = .inPlace := by
  induction xs using List.reverseRecOn with
  | nil => rfl
  | append_singleton xs x ih =>
    rw [after_concat, ih fun y hy => hxs y (by simp [hy]), exchange_inPlace (hxs x (by simp))]

/-- Every statement gets the status and the text of its own reply, and the
connection is then in place for the next one. -/
def Paired (xs : List Exchange) : Prop :=
  ∀ before x after, xs = before ++ x :: after →
    (Channel.inPlace.after before).exchange x = (x.result.reply x.cap, .inPlace)

/-- A reply that is read as it was printed: no line of it looks like the end
of a reply, and what fits of its text comes through the line buffer. -/
structure Exchange.Readable (x : Exchange) : Prop where
  noMarker : ∀ l ∈ x.result.lines, isMarker l = false
  faithful : Faithful (x.result.text x.cap)

theorem exchange_inPlace_iff (x : Exchange) :
    Channel.inPlace.exchange x = (x.result.reply x.cap, .inPlace) ↔ x.Readable := by
  have htext := take_bodyText_iff (x.cap - 1) x.result.noLf
  constructor
  · intro h
    have hmarker : ∀ l ∈ x.result.lines, isMarker l = false := by
      intro l hl
      by_contra hm
      exact exchange_leaves hl (by simpa using hm) (by rw [h])
    rw [exchange_inPlace hmarker] at h
    exact ⟨hmarker, htext.mp (Prod.mk.inj (Prod.mk.inj h).1).2⟩
  · rintro ⟨hmarker, hfaithful⟩
    rw [exchange_inPlace hmarker, htext.mpr hfaithful]
    rfl

/-- Replies stay paired with their statements exactly if every one of them is
read as it was printed. A printed line must not begin like an end line, and
in the part of the text that fits into the caller's buffer there must be no
NUL, no blank line at the start and no line longer than the line buffer. -/
theorem paired_iff (xs : List Exchange) : Paired xs ↔ ∀ x ∈ xs, x.Readable := by
  constructor
  · intro hpaired x hx
    obtain ⟨before, after, rfl⟩ := append_of_mem hx
    have hstart : Channel.inPlace.after before = .inPlace := by
      rcases eq_nil_or_concat before with rfl | ⟨ys, y, rfl⟩
      · rfl
      · rw [concat_eq_append] at hpaired ⊢
        rw [after_concat, hpaired ys y (x :: after) (by simp)]
    have h := hpaired before x after rfl
    rw [hstart] at h
    exact (exchange_inPlace_iff x).mp h
  · rintro hxs before x after rfl
    rw [after_inPlace fun y hy => (hxs y (by simp [hy])).noMarker]
    exact (exchange_inPlace_iff x).mpr (hxs x (by simp))

/-- All bytes in flight come in at once. -/
def Exchange.atOnce (sql : Bytes) (cap : Nat) (result : Result) (h : breaksLine sql = false) :
    Exchange where
  sql := sql
  cap := cap
  result := result
  arrival bs := if bs = [] then [] else [.got bs]
  oneLine := h
  arrival_bytes bs := by
    split
    · rename_i hbs
      exact hbs.symm
    · simp [ReadEvent.bytes]
  arrival_calm bs e he := by
    split at he
    · cases he
    · rename_i hbs
      rw [mem_singleton.mp he]
      simpa [ReadEvent.calm] using hbs

/-- The lookup of a nonce that is stored as an end line. -/
def nonceExchange : Exchange :=
  .atOnce (bytes "select nonce from nonce where election_id = 'E' and nonce = '<<END ok>>';") 16384
    ⟨.ok, [bytes "nonce", bytes "---------", dbMarkOk, [], bytes " 1 rows."], by decide⟩
    (by rfl)

def maxSeqExchange : Exchange :=
  .atOnce (bytes "select max(seq) from election;") 4096
    ⟨.ok, [bytes "max(seq)", bytes "------------", bytes "100", [], bytes " 1 rows."],
      by decide⟩ (by rfl)

/-- The first reply is cut at the stored value, and the second statement
gets the rest of it. -/
theorem stored_end_line_shifts_replies :
    (Channel.inPlace.exchange nonceExchange).1 = (.ok, bytes "nonce\n---------") ∧
      ((Channel.inPlace.after [nonceExchange]).exchange maxSeqExchange).1 =
        (.ok, bytes " 1 rows.") := by
  decide

end Corestack.Db.Wire
