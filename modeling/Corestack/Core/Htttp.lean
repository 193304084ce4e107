import Corestack.Lib.Prog
import Corestack.Lib.Text

/-!
# The message format (`libhtttp/htttp.c`)

Requests and responses as structures, and the two directions between them
and the bytes of one frame. A field that the code keeps in a `char[n]` is a
`CStr n`; the body is the bytes that `body` and `body_len` stand for.
-/

namespace Corestack.Core

open List Lib

abbrev htttpMaxMethod : Nat := 16
abbrev htttpMaxPath : Nat := 256
abbrev htttpMaxHeaders : Nat := 32
abbrev htttpMaxKey : Nat := 64
abbrev htttpMaxValue : Nat := 256

def htttpVersion : Bytes := bytes "HTTTP/1.0"

def crlf : Bytes := bytes "\r\n"

inductive HtttpErr where
  | malformed
  | tooLong
  | length
  | noSpace
deriving DecidableEq, Repr

structure HtttpHeader where
  key : CStr htttpMaxKey
  value : CStr htttpMaxValue
deriving DecidableEq

structure HtttpRequest where
  method : CStr htttpMaxMethod
  path : CStr htttpMaxPath
  headers : List HtttpHeader
  body : Bytes
  headers_le : headers.length ≤ htttpMaxHeaders
deriving DecidableEq

structure HtttpResponse where
  status : Nat
  headers : List HtttpHeader
  body : Bytes
  headers_le : headers.length ≤ htttpMaxHeaders
deriving DecidableEq

/-! ## Helpers -/

def toLower (c : UInt8) : UInt8 := if 65 ≤ c && c ≤ 90 then c - 65 + 97 else c

/-- Case-insensitive comparison. -/
def ciEq (a b : Bytes) : Bool := a.map toLower = b.map toLower

/-- `find_crlf`: the line up to the next CRLF, and the bytes behind it. -/
def findCrlf : Bytes → Option (Bytes × Bytes)
  | [] => none
  | c :: buf =>
    if c = 13 ∧ buf.head? = some 10 then some ([], buf.tail)
    else (findCrlf buf).map fun (line, rest) => (c :: line, rest)

/-- `copy_token`: wire bytes become a C string if they fit and hold no NUL. -/
def copyToken (cap : Nat) (src : Bytes) : Except HtttpErr (CStr cap) :=
  if hlen : cap ≤ src.length then .error .tooLong
  else if h0 : 0 ∈ src then .error .malformed
  else .ok ⟨src, Nat.lt_of_not_le hlen, h0⟩

/-- One digit of `parse_uint`, guarded before the multiplication. -/
def parseDigit (value : Nat) (c : UInt8) : Option Nat :=
  if isDigit c then
    let digit := c.toNat - 48
    if (2 ^ 32 - 1 - digit) / 10 < value then none else some (value * 10 + digit)
  else none

/-- `parse_uint`: digits only, no sign and no blanks. -/
def parseUint (src : Bytes) : Option Nat :=
  if src = [] ∨ 32 < src.length then none else src.foldlM parseDigit 0

variable {src : Bytes} {n : Nat}

theorem parseUint_eq_some : parseUint src = some n ↔
    src ≠ [] ∧ src.length ≤ 32 ∧ (∀ c ∈ src, isDigit c = true) ∧ digitsVal src = n ∧
      n < 2 ^ 32 := by
  have hread : src.foldlM parseDigit 0 = some n ↔
      (∀ c ∈ src, isDigit c = true) ∧ digitsVal src = n ∧ n ≤ 2 ^ 32 - 1 :=
    foldlM_guardedDigit (by norm_num) (Nat.zero_le _)
  rw [parseUint]
  split
  · rename_i hbad
    refine ⟨fun h => (by cases h), fun ⟨hne, hlen, _⟩ => ?_⟩
    rcases hbad with rfl | hbad
    · exact absurd rfl hne
    · omega
  · rename_i hgood
    rw [not_or, Nat.not_lt] at hgood
    refine hread.trans ?_
    rw [Nat.le_sub_one_iff_lt (by norm_num)]
    exact ⟨fun h => ⟨hgood.1, hgood.2, h⟩, fun h => h.2.2⟩

def htttpHeaderGet (headers : List HtttpHeader) (key : Bytes) : Option (CStr htttpMaxValue) :=
  (headers.find? fun h => ciEq h.key.val key).map (·.value)

/-! ## Parsing -/

/-- A header line `KEY: VALUE`, cut at the first colon. -/
def parseHeaderLine (line : Bytes) : Except HtttpErr (Bytes × Bytes) :=
  let key := line.takeWhile (· ≠ 58)
  match line.drop key.length with
  | 58 :: 32 :: value => if key = [] then .error .malformed else .ok (key, value)
  | _ => .error .malformed

/-- The header loop of `parse_tail`. A line takes two bytes at least, so the
length of the buffer is bound enough. -/
def parseHeaders : Nat → Bytes → List HtttpHeader → Except HtttpErr (List HtttpHeader × Bytes)
  | 0, _, _ => .error .malformed
  | n + 1, buf, headers =>
    match findCrlf buf with
    | none => .error .malformed
    | some ([], rest) => .ok (headers, rest)
    | some (line, rest) => do
        let (key, value) ← parseHeaderLine line
        if htttpMaxHeaders ≤ headers.length then .error .tooLong
        else
          let key ← copyToken htttpMaxKey key
          let value ← copyToken htttpMaxValue value
          parseHeaders n rest (headers ++ [⟨key, value⟩])

/-- The body: its declared length has to be what arrived. -/
def parseBody (headers : List HtttpHeader) (rest : Bytes) : Except HtttpErr Bytes :=
  match htttpHeaderGet headers (bytes "Content-Length") with
  | none => if rest = [] then .ok [] else .error .length
  | some cl =>
    match parseUint cl.val with
    | none => .error .malformed
    | some declared => if declared = rest.length then .ok rest else .error .length

/-- `parse_tail`: everything behind the first line. -/
def parseTail (buf : Bytes) : Except HtttpErr (List HtttpHeader × Bytes) := do
  let (headers, rest) ← parseHeaders buf.length buf []
  let body ← parseBody headers rest
  return (headers, body)

variable {cap : Nat}

theorem copyToken_ok {s : CStr cap} : copyToken cap src = .ok s ↔ s.val = src := by
  unfold copyToken
  constructor
  · intro h
    split at h
    · cases h
    · split at h
      · cases h
      · cases h
        rfl
  · rintro rfl
    rw [dif_neg (Nat.not_le.mpr s.fits), dif_neg s.noNul]

/-! ### What the parser accepts -/

theorem crlf_eq : crlf = [13, 10] := rfl

variable {buf rest : Bytes}

theorem findCrlf_eq_some {line : Bytes} :
    findCrlf buf = some (line, rest) ↔ buf = line ++ crlf ++ rest ∧ ¬ crlf <:+: line := by
  rw [crlf_eq]
  induction buf generalizing line with
  | nil => simp [findCrlf]
  | cons c buf ih =>
    rw [findCrlf]
    split
    · rename_i hend
      obtain ⟨rfl, hlf⟩ := hend
      obtain ⟨buf, rfl⟩ := List.head?_eq_some_iff.mp hlf
      rw [Option.some.injEq, Prod.mk.injEq, tail_cons]
      constructor
      · rintro ⟨rfl, rfl⟩
        exact ⟨rfl, by simp⟩
      · rintro ⟨htext, hline⟩
        cases line with
        | nil =>
          cases htext
          exact ⟨rfl, rfl⟩
        | cons d line =>
          cases line with
          | nil => cases htext
          | cons e line =>
            cases htext
            exact absurd (prefix_append [13, 10] line).isInfix hline
    · rename_i hend
      rw [Option.map_eq_some_iff]
      constructor
      · rintro ⟨⟨line', rest'⟩, hcut, heq⟩
        cases heq
        obtain ⟨rfl, hline⟩ := ih.mp hcut
        refine ⟨rfl, fun hin => ?_⟩
        rcases infix_cons_iff.mp hin with hpre | hin
        · obtain ⟨rfl, t, rfl⟩ := cons_prefix_cons.mp hpre
          exact hend ⟨rfl, rfl⟩
        · exact hline hin
      · rintro ⟨htext, hline⟩
        cases line with
        | nil =>
          cases htext
          exact absurd ⟨rfl, rfl⟩ hend
        | cons d line =>
          cases htext
          exact ⟨(line, rest), ih.mpr ⟨rfl, fun hin => hline (infix_cons hin)⟩, rfl⟩

theorem parseHeaderLine_ok {line key value : Bytes} :
    parseHeaderLine line = .ok (key, value) ↔
      line = key ++ bytes ": " ++ value ∧ key ≠ [] ∧ 58 ∉ key := by
  rw [show bytes ": " = [58, 32] by rfl]
  constructor
  · intro h
    unfold parseHeaderLine at h
    dsimp only at h
    split at h
    · rename_i hcut
      obtain ⟨-, hcolon, hline⟩ := drop_takeWhile_ne.mp hcut
      split at h
      · cases h
      · rename_i hne
        cases h
        exact ⟨by simpa using hline, hne, hcolon⟩
    · cases h
  · rintro ⟨rfl, hne, hcolon⟩
    have htake := takeWhile_ne_append hcolon (32 :: value)
    rw [append_assoc]
    simp only [parseHeaderLine, cons_append, nil_append, htake, drop_left,
      if_neg hne]

def headerText (key value : Bytes) : Bytes := key ++ bytes ": " ++ value ++ crlf

def headersText (headers : List HtttpHeader) : Bytes :=
  headers.flatMap fun h => headerText h.key.val h.value.val

/-- A header whose line is cut where it was put together. -/
structure HeaderLine (h : HtttpHeader) : Prop where
  ne : h.key.val ≠ []
  noColon : 58 ∉ h.key.val
  noCrlf : ¬ crlf <:+: h.key.val ++ bytes ": " ++ h.value.val

theorem headersText_cons (h : HtttpHeader) (hs : List HtttpHeader) (rest : Bytes) :
    headersText (h :: hs) ++ crlf ++ rest =
      h.key.val ++ bytes ": " ++ h.value.val ++ crlf ++ (headersText hs ++ crlf ++ rest) := by
  simp [headersText, headerText]

/-- The header loop reads the lines up to the first empty one, and nothing
else is accepted: the buffer is the text of the headers read, an empty line
and the rest. -/
theorem parseHeaders_ok :
    ∀ {buf : Bytes} {acc hs : List HtttpHeader}, buf.length ≤ n →
      acc.length ≤ htttpMaxHeaders →
      (parseHeaders n buf acc = .ok (hs, rest) ↔
        ∃ new, hs = acc ++ new ∧ hs.length ≤ htttpMaxHeaders ∧ (∀ h ∈ new, HeaderLine h) ∧
          buf = headersText new ++ crlf ++ rest) := by
  induction n with
  | zero =>
    intro buf acc hs hlen _
    obtain rfl := eq_nil_of_length_eq_zero (Nat.le_zero.mp hlen)
    refine ⟨fun h => (by cases h), fun ⟨_, _, _, _, htext⟩ => ?_⟩
    simp [crlf_eq] at htext
  | succ n ih =>
    intro buf acc hs hlen hacc
    constructor
    · intro h
      rw [parseHeaders] at h
      split at h
      · cases h
      · rename_i hcut
        cases h
        exact ⟨[], by simp, hacc, by simp, (findCrlf_eq_some.mp hcut).1⟩
      · rename_i line rest' _ hcut
        obtain ⟨rfl, hline⟩ := findCrlf_eq_some.mp hcut
        obtain ⟨⟨key, value⟩, hkv, hroom⟩ := except_bind_ok.mp h
        obtain ⟨rfl, hne, hcolon⟩ := parseHeaderLine_ok.mp hkv
        dsimp only at hroom
        by_cases hfull : htttpMaxHeaders ≤ acc.length
        · rw [if_pos hfull] at hroom
          cases hroom
        · rw [if_neg hfull] at hroom
          obtain ⟨k, hk, hvalue⟩ := except_bind_ok.mp hroom
          obtain ⟨v, hv, hnext⟩ := except_bind_ok.mp hvalue
          obtain rfl := copyToken_ok.mp hk
          obtain rfl := copyToken_ok.mp hv
          obtain ⟨new, rfl, hle, hnew, rfl⟩ := (ih
            (by simp only [crlf_eq, length_append, length_cons] at hlen; omega)
            (by rw [length_append, length_singleton]; omega)).mp hnext
          exact ⟨⟨k, v⟩ :: new, by simp, hle,
            forall_mem_cons.mpr ⟨⟨hne, hcolon, hline⟩, hnew⟩,
              (headersText_cons ⟨k, v⟩ new rest).symm⟩
    · rintro ⟨new, rfl, hle, hnew, rfl⟩
      cases new with
      | nil =>
        rw [parseHeaders, findCrlf_eq_some.mpr ⟨rfl, by simp [headersText, crlf_eq]⟩,
          append_nil]
        rfl
      | cons h new =>
        obtain ⟨hfirst, hrest⟩ := forall_mem_cons.mp hnew
        rw [headersText_cons] at hlen ⊢
        rw [length_append, length_cons] at hle
        obtain ⟨c, line, hcons⟩ := exists_cons_of_ne_nil
          (show h.key.val ++ bytes ": " ++ h.value.val ≠ [] by simp [hfirst.ne])
        rw [parseHeaders, findCrlf_eq_some.mpr ⟨rfl, hfirst.noCrlf⟩, hcons]
        dsimp only
        rw [← hcons]
        refine except_bind_ok.mpr
          ⟨_, parseHeaderLine_ok.mpr ⟨rfl, hfirst.ne, hfirst.noColon⟩, ?_⟩
        rw [if_neg (by omega)]
        refine except_bind_ok.mpr ⟨h.key, copyToken_ok.mpr rfl,
          except_bind_ok.mpr ⟨h.value, copyToken_ok.mpr rfl, (ih ?_ ?_).mpr
            ⟨new, by simp, ?_, hrest, rfl⟩⟩⟩
        · simp only [crlf_eq, length_append, length_cons] at hlen ⊢
          omega
        · rw [length_append, length_singleton]
          omega
        · rw [length_append, length_cons]
          omega

/-- The length of the body is the number in the first `Content-Length`, or
zero. -/
def BodyFits (headers : List HtttpHeader) (body : Bytes) : Prop :=
  match htttpHeaderGet headers (bytes "Content-Length") with
  | none => body = []
  | some cl => cl.val ≠ [] ∧ cl.val.length ≤ 32 ∧ (∀ c ∈ cl.val, isDigit c = true) ∧
      digitsVal cl.val = body.length

variable {headers : List HtttpHeader}

theorem parseBody_ok {body : Bytes} :
    parseBody headers rest = .ok body ↔
      rest = body ∧ BodyFits headers body ∧ body.length < 2 ^ 32 := by
  unfold parseBody BodyFits
  cases htttpHeaderGet headers (bytes "Content-Length") with
  | none =>
    dsimp only
    split
    · rename_i hempty
      rw [hempty, Except.ok.injEq]
      exact ⟨fun h => ⟨h, h.symm, h ▸ (by decide)⟩, fun h => h.1⟩
    · rename_i hne
      refine ⟨fun h => (by cases h), ?_⟩
      rintro ⟨rfl, h, -⟩
      exact absurd h hne
  | some cl =>
    dsimp only
    constructor
    · intro h
      split at h
      · cases h
      · rename_i n hn
        obtain ⟨hne, hle, hdigits, hval, hlt⟩ := parseUint_eq_some.mp hn
        split at h
        · rename_i heq
          cases h
          exact ⟨rfl, ⟨hne, hle, hdigits, hval.trans heq⟩, heq ▸ hlt⟩
        · cases h
    · rintro ⟨rfl, ⟨hne, hle, hdigits, hval⟩, hlt⟩
      rw [parseUint_eq_some.mpr ⟨hne, hle, hdigits, hval, hlt⟩]
      simp

/-- Everything behind the first line: header lines, an empty line, and a body
of the declared length. -/
theorem parseTail_ok {body : Bytes} :
    parseTail buf = .ok (headers, body) ↔
      headers.length ≤ htttpMaxHeaders ∧ (∀ h ∈ headers, HeaderLine h) ∧
        (BodyFits headers body ∧ body.length < 2 ^ 32) ∧
        buf = headersText headers ++ crlf ++ body := by
  constructor
  · intro h
    obtain ⟨⟨hs, rest⟩, hheaders, h⟩ := except_bind_ok.mp h
    obtain ⟨_, hbody, h⟩ := except_bind_ok.mp h
    cases h
    obtain ⟨_, rfl, hle, hlines, rfl⟩ := (parseHeaders_ok le_rfl (Nat.zero_le _)).mp hheaders
    obtain ⟨rfl, hfits⟩ := parseBody_ok.mp hbody
    exact ⟨hle, hlines, hfits, rfl⟩
  · rintro ⟨hle, hlines, hfits, rfl⟩
    refine except_bind_ok.mpr ⟨(headers, body), ?_, except_bind_ok.mpr ⟨body, ?_, rfl⟩⟩
    · exact (parseHeaders_ok le_rfl (Nat.zero_le _)).mpr ⟨headers, rfl, hle, hlines, rfl⟩
    · exact parseBody_ok.mpr ⟨rfl, hfits⟩

theorem parseTail_length {body : Bytes} (h : parseTail buf = .ok (headers, body)) :
    headers.length ≤ htttpMaxHeaders :=
  (parseTail_ok.mp h).1

/-- A request line `METHOD SP PATH SP VERSION`, cut at its first two spaces. -/
def parseRequestLine (line : Bytes) :
    Except HtttpErr (CStr htttpMaxMethod × CStr htttpMaxPath) := do
  let method := line.takeWhile (· ≠ 32)
  match line.drop method.length with
  | [] => .error .malformed
  | _ :: line =>
    if method = [] then .error .malformed
    else
      let method ← (copyToken htttpMaxMethod method).mapError fun _ => .tooLong
      let path := line.takeWhile (· ≠ 32)
      match line.drop path.length with
      | [] => .error .malformed
      | _ :: version =>
        if path = [] then .error .malformed
        else
          let path ← (copyToken htttpMaxPath path).mapError fun _ => .tooLong
          if version = htttpVersion then .ok (method, path) else .error .malformed

def requestLine (method path : Bytes) : Bytes :=
  method ++ bytes " " ++ path ++ bytes " " ++ htttpVersion

theorem mapError_eq_ok {ε ε' α : Type} {x : Except ε α} {f : ε → ε'} {a : α} :
    x.mapError f = .ok a ↔ x = .ok a := by
  cases x <;> simp [Except.mapError]

theorem parseRequestLine_ok {line : Bytes} {method : CStr htttpMaxMethod}
    {path : CStr htttpMaxPath} :
    parseRequestLine line = .ok (method, path) ↔
      (method.val ≠ [] ∧ 32 ∉ method.val) ∧ (path.val ≠ [] ∧ 32 ∉ path.val) ∧
        line = requestLine method.val path.val := by
  have htext : requestLine method.val path.val =
      method.val ++ 32 :: (path.val ++ 32 :: htttpVersion) := by
    simp [requestLine, show bytes " " = [32] from rfl]
  rw [htext]
  constructor
  · intro h
    unfold parseRequestLine at h
    dsimp only at h
    split at h
    · cases h
    rename_i hcut
    obtain ⟨-, hm, hline⟩ := drop_takeWhile_ne.mp hcut
    split at h
    · cases h
    rename_i hmne
    obtain ⟨m, hcopy, hpath⟩ := except_bind_ok.mp h
    have hmval := copyToken_ok.mp (mapError_eq_ok.mp hcopy)
    rw [← hmval] at hm hline hmne
    split at hpath
    · cases hpath
    rename_i hcut'
    obtain ⟨-, hp, hrest⟩ := drop_takeWhile_ne.mp hcut'
    split at hpath
    · cases hpath
    rename_i hpne
    obtain ⟨p, hcopy, hversion⟩ := except_bind_ok.mp hpath
    have hpval := copyToken_ok.mp (mapError_eq_ok.mp hcopy)
    rw [← hpval] at hp hrest hpne
    split at hversion
    · rename_i hv
      cases hversion
      exact ⟨⟨hmne, hm⟩, ⟨hpne, hp⟩, by rw [hline, hrest, hv]⟩
    · cases hversion
  · rintro ⟨⟨hmne, hm⟩, ⟨hpne, hp⟩, rfl⟩
    rw [parseRequestLine]
    simp only [takeWhile_ne_append hm, takeWhile_ne_append hp, drop_left, if_neg hmne,
      if_neg hpne, copyToken_ok.mpr (rfl : method.val = method.val),
      copyToken_ok.mpr (rfl : path.val = path.val), Except.mapError, bind, Except.bind, if_true]

def htttpParseRequest (buf : Bytes) : Except HtttpErr HtttpRequest :=
  match findCrlf buf with
  | none => .error .malformed
  | some (line, rest) =>
    match parseRequestLine line with
    | .error e => .error e
    | .ok (method, path) =>
      match h : parseTail rest with
      | .error e => .error e
      | .ok (headers, body) => .ok ⟨method, path, headers, body, parseTail_length h⟩

theorem htttpParseRequest_ok {req : HtttpRequest} :
    htttpParseRequest buf = .ok req ↔ ∃ line rest, findCrlf buf = some (line, rest) ∧
      parseRequestLine line = .ok (req.method, req.path) ∧
      parseTail rest = .ok (req.headers, req.body) := by
  unfold htttpParseRequest
  constructor
  · intro h
    split at h
    · cases h
    rename_i line rest hcut
    split at h
    · cases h
    rename_i hline
    split at h
    · cases h
    rename_i htail
    cases h
    exact ⟨line, rest, hcut, hline, htail⟩
  · rintro ⟨line, rest, hcut, hline, htail⟩
    simp only [hcut, hline]
    split
    · rename_i herr
      rw [htail] at herr
      cases herr
    · rename_i hok
      rw [htail] at hok
      cases hok
      rfl

/-- A status line `VERSION SP STATUS SP REASON`. -/
def parseStatusLine (line : Bytes) : Except HtttpErr Nat :=
  if line.take htttpVersion.length = htttpVersion then
    match line.drop htttpVersion.length with
    | 32 :: line =>
      let status := line.takeWhile (· ≠ 32)
      match line.drop status.length with
      | [] => .error .malformed
      | _ :: _ =>
        match parseUint status with
        | none => .error .malformed
        | some status =>
          if status < 100 ∨ 599 < status then .error .malformed else .ok status
    | _ => .error .malformed
  else .error .malformed

theorem parseStatusLine_ok {line : Bytes} {status : Nat} :
    parseStatusLine line = .ok status ↔ ∃ digits reason,
      line = htttpVersion ++ bytes " " ++ digits ++ bytes " " ++ reason ∧
      (digits ≠ [] ∧ digits.length ≤ 32 ∧ (∀ c ∈ digits, isDigit c = true) ∧
        digitsVal digits = status) ∧ 100 ≤ status ∧ status ≤ 599 := by
  constructor
  · intro h
    unfold parseStatusLine at h
    split at h
    · rename_i hversion
      split at h
      · rename_i rest hrest
        dsimp only at h
        split at h
        · cases h
        · rename_i c reason hcut
          obtain ⟨-, -, hstatus⟩ := drop_takeWhile_ne.mp hcut
          split at h
          · cases h
          · rename_i n hn
            obtain ⟨hne, hle, hdigits, hval, -⟩ := parseUint_eq_some.mp hn
            split at h
            · cases h
            · cases h
              refine ⟨_, reason, ?_, ⟨hne, hle, hdigits, hval⟩, by omega, by omega⟩
              rw [← take_append_drop htttpVersion.length line, hversion, hrest]
              conv_lhs => rw [hstatus]
              simp [show bytes " " = [32] from rfl]
      · cases h
    · cases h
  · rintro ⟨digits, reason, rfl, ⟨hne, hle, hdigits, hval⟩, hlo, hhi⟩
    have hline : htttpVersion ++ bytes " " ++ digits ++ bytes " " ++ reason =
        htttpVersion ++ (32 :: (digits ++ 32 :: reason)) := by
      simp [show bytes " " = [32] from rfl]
    have hsp : 32 ∉ digits := fun hmem => ne_of_isDigit (hdigits _ hmem) rfl rfl
    rw [hline, parseStatusLine, take_left, if_pos rfl, drop_left]
    simp only [takeWhile_ne_append hsp, drop_left,
      parseUint_eq_some.mpr ⟨hne, hle, hdigits, hval, (by omega : status < 2 ^ 32)⟩]
    rw [if_neg (by omega)]

def htttpParseResponse (buf : Bytes) : Except HtttpErr HtttpResponse :=
  match findCrlf buf with
  | none => .error .malformed
  | some (line, rest) =>
    match parseStatusLine line with
    | .error e => .error e
    | .ok status =>
      match h : parseTail rest with
      | .error e => .error e
      | .ok (headers, body) => .ok ⟨status, headers, body, parseTail_length h⟩

theorem htttpParseResponse_ok {res : HtttpResponse} :
    htttpParseResponse buf = .ok res ↔ ∃ line rest, findCrlf buf = some (line, rest) ∧
      parseStatusLine line = .ok res.status ∧ parseTail rest = .ok (res.headers, res.body) := by
  unfold htttpParseResponse
  constructor
  · intro h
    split at h
    · cases h
    rename_i line rest hcut
    split at h
    · cases h
    rename_i hline
    split at h
    · cases h
    rename_i htail
    cases h
    exact ⟨line, rest, hcut, hline, htail⟩
  · rintro ⟨line, rest, hcut, hline, htail⟩
    simp only [hcut, hline]
    split
    · rename_i herr
      rw [htail] at herr
      cases herr
    · rename_i hok
      rw [htail] at hok
      cases hok
      rfl

/-! ## Serializing -/

/-- `valid_field`: visible ASCII only, and blanks where they are allowed. -/
def validField (s : Bytes) (allowSpace : Bool) : Bool :=
  s.all fun c => 33 ≤ c && c ≤ 126 || allowSpace && c = 32

/-- `htttp_header_set`: one header more, if it is printable and fits. -/
def htttpHeaderSet (headers : List HtttpHeader) (key value : Bytes) :
    Except HtttpErr (List HtttpHeader) :=
  if key = [] then .error .malformed
  else if ¬ validField key false ∨ ¬ validField value true then .error .malformed
  else if htttpMaxHeaders ≤ headers.length then .error .tooLong
  else do
    let key ← (copyToken htttpMaxKey key).mapError fun _ => .tooLong
    let value ← (copyToken htttpMaxValue value).mapError fun _ => .tooLong
    return headers ++ [⟨key, value⟩]

/-- `buf_append`: the bytes written so far, and some more if there is room. -/
def bufAppend (cap : Nat) (out src : Bytes) : Except HtttpErr Bytes :=
  if cap - out.length < src.length then .error .noSpace else .ok (out ++ src)

/-- A chain of `buf_append` calls, up to the first that fails. -/
def bufAppendAll (cap : Nat) (out : Bytes) (srcs : List Bytes) : Except HtttpErr Bytes :=
  srcs.foldlM (bufAppend cap) out

def emitHeader (cap : Nat) (out key value : Bytes) : Except HtttpErr Bytes :=
  bufAppendAll cap out [key, bytes ": ", value, crlf]

/-- The headers of the caller, without those that are generated. -/
def emitHeaders (cap : Nat) (skipDate : Bool) :
    Bytes → List HtttpHeader → Except HtttpErr Bytes
  | out, [] => .ok out
  | out, h :: hs =>
    if ciEq h.key.val (bytes "Content-Length") || skipDate && ciEq h.key.val (bytes "Date") then
      emitHeaders cap skipDate out hs
    else if h.key.val = [] then .error .malformed
    else if ¬ validField h.key.val false ∨ ¬ validField h.value.val true then .error .malformed
    else do
      let out ← emitHeader cap out h.key.val h.value.val
      emitHeaders cap skipDate out hs

/-- `emit_body`: the generated length, the blank line, the body. -/
def emitBody (cap : Nat) (out body : Bytes) : Except HtttpErr Bytes := do
  let out ← if body = [] then .ok out
    else emitHeader cap out (bytes "Content-Length") (fmtNat body.length)
  bufAppendAll cap out [crlf, body]

def htttpSerializeRequest (req : HtttpRequest) (cap : Nat) : Except HtttpErr Bytes :=
  if req.method.val = [] ∨ req.path.val = [] then .error .malformed
  else if ¬ validField req.method.val false ∨ ¬ validField req.path.val false then
    .error .malformed
  else do
    let out ← bufAppendAll cap []
      [req.method.val, bytes " ", req.path.val, bytes " ", htttpVersion, crlf]
    let out ← emitHeaders cap false out req.headers
    emitBody cap out req.body

def htttpReason : Nat → Option Bytes
  | 200 => some (bytes "OK")
  | 201 => some (bytes "Created")
  | 400 => some (bytes "Bad Request")
  | 401 => some (bytes "Unauthorized")
  | 403 => some (bytes "Forbidden")
  | 404 => some (bytes "Not Found")
  | 409 => some (bytes "Conflict")
  | 413 => some (bytes "Payload Too Large")
  | 429 => some (bytes "Too Many Requests")
  | 500 => some (bytes "Internal Server Error")
  | 501 => some (bytes "Not Implemented")
  | _ => none

/-- What `gmtime_r` makes of the clock. -/
structure Tm where
  wday : Fin 7
  mday : Fin 32
  mon : Fin 12
  year : Fin (2 ^ 31)
  hour : Fin 24
  min : Fin 60
  sec : Fin 61
deriving DecidableEq

def fmt2 (n : Nat) : Bytes := if n < 10 then 48 :: fmtNat n else fmtNat n

def dayNames : Fin 7 → Bytes
  | 0 => bytes "Sun" | 1 => bytes "Mon" | 2 => bytes "Tue" | 3 => bytes "Wed"
  | 4 => bytes "Thu" | 5 => bytes "Fri" | 6 => bytes "Sat"

def monthNames : Fin 12 → Bytes
  | 0 => bytes "Jan" | 1 => bytes "Feb" | 2 => bytes "Mar" | 3 => bytes "Apr"
  | 4 => bytes "May" | 5 => bytes "Jun" | 6 => bytes "Jul" | 7 => bytes "Aug"
  | 8 => bytes "Sep" | 9 => bytes "Oct" | 10 => bytes "Nov" | 11 => bytes "Dec"

/-- The date as `strftime` prints it for `"%a, %d %b %Y %H:%M:%S GMT"`. -/
def Tm.date (tm : Tm) : Bytes :=
  dayNames tm.wday ++ bytes ", " ++ fmt2 tm.mday ++ bytes " " ++ monthNames tm.mon ++ bytes " "
    ++ fmtNat tm.year ++ bytes " " ++ fmt2 tm.hour ++ bytes ":" ++ fmt2 tm.min ++ bytes ":"
    ++ fmt2 tm.sec ++ bytes " GMT"

def htttpSerializeResponse (now : Tm) (res : HtttpResponse) (cap : Nat) :
    Except HtttpErr Bytes :=
  match htttpReason res.status with
  | none => .error .malformed
  | some reason => do
      let out ← bufAppendAll cap []
        [htttpVersion, bytes " ", fmtNat res.status, bytes " ", reason, crlf]
      let out ← emitHeader cap out (bytes "Date") now.date
      let out ← emitHeaders cap true out res.headers
      emitBody cap out res.body

/-! ## Reading back what was written -/

theorem not_crlf_infix {line : Bytes} (hcr : 13 ∉ line) : ¬ crlf <:+: line :=
  fun hin => hcr (hin.subset (by rw [crlf_eq]; exact mem_cons_self))

theorem findCrlf_append {line : Bytes} (hcr : 13 ∉ line) (rest : Bytes) :
    findCrlf (line ++ crlf ++ rest) = some (line, rest) :=
  findCrlf_eq_some.mpr ⟨rfl, not_crlf_infix hcr⟩

/-- A header whose line has no CR. -/
structure PlainHeader (h : HtttpHeader) : Prop where
  ne : h.key.val ≠ []
  noColon : 58 ∉ h.key.val
  keyNoCr : 13 ∉ h.key.val
  valueNoCr : 13 ∉ h.value.val

theorem PlainHeader.line {h : HtttpHeader} (hp : PlainHeader h) : HeaderLine h := by
  refine ⟨hp.ne, hp.noColon, not_crlf_infix ?_⟩
  have hsep : 13 ∉ bytes ": " := by decide
  simp [hp.keyNoCr, hp.valueNoCr, hsep]

theorem parseUint_fmtNat (hn : n < 2 ^ 32) : parseUint (fmtNat n) = some n := by
  have hlen := length_fmtNat_le (k := 10) (by norm_num) (show n < 10 ^ 10 by omega)
  exact parseUint_eq_some.mpr ⟨fmtNat_ne_nil n, by omega, fun c => fmtNat_isDigit,
    digitsVal_fmtNat n, hn⟩

theorem bufAppendAll_ok :
    ∀ {srcs : List Bytes} {out : Bytes}, out.length + srcs.flatten.length ≤ cap →
      bufAppendAll cap out srcs = .ok (out ++ srcs.flatten)
  | [], out, _ => by simp [bufAppendAll, pure, Except.pure]
  | src :: srcs, out, h => by
    rw [flatten_cons, length_append] at h
    have hfirst : bufAppend cap out src = .ok (out ++ src) := if_neg (by omega)
    have hrest : bufAppendAll cap (out ++ src) srcs = _ :=
      bufAppendAll_ok (by rw [length_append]; omega)
    rw [bufAppendAll, foldlM_cons, hfirst]
    rw [append_assoc] at hrest
    exact hrest

theorem validField_append (a b : Bytes) (allowSpace : Bool) :
    validField (a ++ b) allowSpace = (validField a allowSpace && validField b allowSpace) :=
  all_append

theorem validField_fmtNat (n : Nat) : validField (fmtNat n) true = true := by
  refine all_eq_true.mpr fun c hc => ?_
  have hd := fmtNat_isDigit hc
  simp only [isDigit, Bool.and_eq_true, decide_eq_true_eq, UInt8.le_iff_toNat_le] at hd
  simp only [Bool.or_eq_true, Bool.and_eq_true, decide_eq_true_eq, UInt8.le_iff_toNat_le]
  have h1 : (48 : UInt8).toNat = 48 := rfl
  have h2 : (57 : UInt8).toNat = 57 := rfl
  have h3 : (33 : UInt8).toNat = 33 := rfl
  have h4 : (126 : UInt8).toNat = 126 := rfl
  omega

theorem validField_fmt2 (n : Nat) : validField (fmt2 n) true = true := by
  unfold fmt2
  split
  · have := validField_append [48] (fmtNat n) true
    rw [validField_fmtNat] at this
    exact this
  · exact validField_fmtNat n

theorem validField_date (tm : Tm) : validField tm.date true = true := by
  have hday : ∀ i, validField (dayNames i) true = true := by decide
  have hmon : ∀ i, validField (monthNames i) true = true := by decide
  have h1 : validField (bytes ", ") true = true := by decide +kernel
  have h2 : validField (bytes " ") true = true := rfl
  have h3 : validField (bytes ":") true = true := rfl
  have h4 : validField (bytes " GMT") true = true := rfl
  simp only [Tm.date, validField_append, hday, hmon, h1, h2, h3, h4, validField_fmt2,
    validField_fmtNat, Bool.and_self]

theorem length_fmt2_le (hn : n < 100) : (fmt2 n).length ≤ 2 := by
  unfold fmt2
  split
  · have := length_fmtNat_le (k := 1) (by norm_num) (show n < 10 ^ 1 by omega)
    simp only [length_cons]
    omega
  · exact length_fmtNat_le (by norm_num) (show n < 10 ^ 2 by omega)

theorem length_date_le (tm : Tm) : tm.date.length ≤ 35 := by
  have hday : ∀ i, (dayNames i).length ≤ 3 := by decide
  have hmon : ∀ i, (monthNames i).length ≤ 3 := by decide +kernel
  have h1 : (bytes ", ").length = 2 := rfl
  have h2 : (bytes " ").length = 1 := rfl
  have h3 : (bytes ":").length = 1 := rfl
  have h4 : (bytes " GMT").length = 4 := by decide
  have hwday := hday tm.wday
  have hmonth := hmon tm.mon
  have hd := length_fmt2_le (show (tm.mday : Nat) < 100 by omega)
  have hh := length_fmt2_le (show (tm.hour : Nat) < 100 by omega)
  have hm := length_fmt2_le (show (tm.min : Nat) < 100 by omega)
  have hs := length_fmt2_le (show (tm.sec : Nat) < 100 by omega)
  have hy := length_fmtNat_le (k := 10) (by norm_num) (show (tm.year : Nat) < 10 ^ 10 by omega)
  simp only [Tm.date, length_append, h1, h2, h3, h4]
  omega

variable {c : UInt8}

theorem notMem_of_validField {s : Bytes} {allowSpace : Bool} (h : validField s allowSpace = true)
    (hc : c < 32) : c ∉ s := by
  intro hmem
  have := all_eq_true.mp h c hmem
  simp only [Bool.or_eq_true, Bool.and_eq_true, decide_eq_true_eq, UInt8.le_iff_toNat_le,
    ← UInt8.toNat_inj] at this
  rw [UInt8.lt_iff_toNat_lt] at hc
  have h1 : (32 : UInt8).toNat = 32 := rfl
  have h2 : (33 : UInt8).toNat = 33 := rfl
  omega

variable {reason : Bytes}

theorem htttpReason_some {status : Nat} (h : htttpReason status = some reason) :
    100 ≤ status ∧ status ≤ 599 ∧ validField reason true = true ∧ reason.length ≤ 21 := by
  unfold htttpReason at h
  split at h <;> first
    | cases h; decide
    | cases h

def statusLine (status : Nat) (reason : Bytes) : Bytes :=
  htttpVersion ++ bytes " " ++ fmtNat status ++ bytes " " ++ reason

theorem parseStatusLine_statusLine {status : Nat} (hlo : 100 ≤ status) (hhi : status ≤ 599) :
    parseStatusLine (statusLine status reason) = .ok status := by
  have hlen := length_fmtNat_le (k := 3) (by norm_num) (show status < 10 ^ 3 by omega)
  exact parseStatusLine_ok.mpr ⟨fmtNat status, reason, rfl, ⟨fmtNat_ne_nil _, by omega,
    fun c => fmtNat_isDigit, digitsVal_fmtNat _⟩, hlo, hhi⟩

def dateHeader (now : Tm) : HtttpHeader :=
  ⟨⟨bytes "Date", by decide, by decide⟩,
    ⟨now.date, lt_of_le_of_lt (length_date_le now) (by decide),
      notMem_of_validField (validField_date now) (by decide)⟩⟩

theorem notMem_fmtNat (hc : isDigit c = false) (n : Nat) : c ∉ fmtNat n := by
  intro h
  rw [fmtNat_isDigit h] at hc
  cases hc

def lengthHeader (n : Nat) (hn : n < 2 ^ 32) : HtttpHeader :=
  ⟨⟨bytes "Content-Length", by decide, by decide⟩,
    ⟨fmtNat n, lt_of_le_of_lt (length_fmtNat_le (k := 10) (by norm_num) (by omega)) (by decide),
      notMem_fmtNat rfl n⟩⟩

theorem plain_dateHeader (now : Tm) : PlainHeader (dateHeader now) :=
  ⟨by simp only [dateHeader]; decide, by simp only [dateHeader]; decide +kernel,
    by simp only [dateHeader]; decide +kernel,
    notMem_of_validField (validField_date now) (by decide)⟩

theorem plain_lengthHeader (n : Nat) (hn : n < 2 ^ 32) : PlainHeader (lengthHeader n hn) :=
  ⟨by simp only [lengthHeader]; decide +kernel, by simp only [lengthHeader]; decide +kernel,
    by simp only [lengthHeader]; decide, notMem_fmtNat rfl n⟩

theorem notMem_statusLine {status : Nat} (h : validField reason true = true) :
    13 ∉ statusLine status reason := by
  have h1 : 13 ∉ htttpVersion := by decide
  have h2 : 13 ∉ bytes " " := by decide +kernel
  have h3 : 13 ∉ fmtNat status := notMem_fmtNat rfl status
  have h4 : 13 ∉ reason := notMem_of_validField h (by decide)
  simp [statusLine, h1, h2, h3, h4]

end Corestack.Core
