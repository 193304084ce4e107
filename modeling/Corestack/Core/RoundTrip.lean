import Corestack.Core.Htttp

/-!
# What is serialized and parsed again

The serializers check fields with `valid_field` and count the headers of the
caller; the parser cuts a header line at its first colon and counts all
headers, those that were generated included. A message comes back exactly if
these two views agree on it: no key of its own holds a colon, and there is
room for the headers that are added.
-/

namespace Corestack.Core

open List Lib

/-- The headers that a serializer leaves out and writes itself. -/
def isGenerated (skipDate : Bool) (h : HtttpHeader) : Bool :=
  ciEq h.key.val (bytes "Content-Length") || skipDate && ciEq h.key.val (bytes "Date")

def ownHeaders (skipDate : Bool) (headers : List HtttpHeader) : List HtttpHeader :=
  headers.filter fun h => !isGenerated skipDate h

/-- A request that came back: all but the generated headers is the same. -/
structure RequestBack (req req' : HtttpRequest) : Prop where
  method : req'.method = req.method
  path : req'.path = req.path
  body : req'.body = req.body
  headers : ownHeaders false req'.headers = ownHeaders false req.headers

structure ResponseBack (res res' : HtttpResponse) : Prop where
  status : res'.status = res.status
  body : res'.body = res.body
  headers : ownHeaders true res'.headers = ownHeaders true res.headers

/-- What the parser asks of the headers of a message: no colon in a key, and
room for `Date` (in a response) and `Content-Length` (with a body). -/
def Readable (skipDate : Bool) (headers : List HtttpHeader) (body : Bytes) : Prop :=
  (∀ h ∈ ownHeaders skipDate headers, 58 ∉ h.key.val) ∧
  (ownHeaders skipDate headers).length + (if skipDate then 1 else 0) +
    (if body = [] then 0 else 1) ≤ htttpMaxHeaders

/-! ## What a serializer wrote -/

/-- What `emit_headers` asks of a header. -/
structure Printable (h : HtttpHeader) : Prop where
  ne : h.key.val ≠ []
  key : validField h.key.val false = true
  value : validField h.value.val true = true

theorem headersText_append (hs hs' : List HtttpHeader) :
    headersText (hs ++ hs') = headersText hs ++ headersText hs' := flatMap_append

def bodyHeaders (body : Bytes) (hn : body.length < 2 ^ 32) : List HtttpHeader :=
  if body = [] then [] else [lengthHeader body.length hn]

variable {cap : Nat}

theorem bufAppendAll_inv :
    ∀ {srcs : List Bytes} {out out' : Bytes}, out.length ≤ cap →
      bufAppendAll cap out srcs = .ok out' → out' = out ++ srcs.flatten ∧ out'.length ≤ cap
  | [], out, out', hle, h => by
    cases h
    exact ⟨by simp, hle⟩
  | src :: srcs, out, out', hle, h => by
    rw [bufAppendAll, foldlM_cons] at h
    unfold bufAppend at h
    split at h
    · cases h
    · rename_i hfits
      have hnext : (out ++ src).length ≤ cap := by
        rw [length_append]
        omega
      obtain ⟨heq, hle'⟩ := bufAppendAll_inv hnext h
      exact ⟨by rw [heq, flatten_cons, append_assoc], hle'⟩

variable {out out' : Bytes}

theorem emitHeader_inv {key value : Bytes} (hle : out.length ≤ cap)
    (h : emitHeader cap out key value = .ok out') :
    out' = out ++ headerText key value ∧ out'.length ≤ cap := by
  obtain ⟨heq, hle'⟩ := bufAppendAll_inv hle h
  refine ⟨?_, hle'⟩
  rw [heq]
  simp [headerText]

variable {skipDate : Bool}

theorem emitHeaders_inv :
    ∀ {headers : List HtttpHeader} {out out' : Bytes}, out.length ≤ cap →
      emitHeaders cap skipDate out headers = .ok out' →
      out' = out ++ headersText (ownHeaders skipDate headers) ∧ out'.length ≤ cap ∧
      ∀ h ∈ ownHeaders skipDate headers, Printable h
  | [], out, out', hle, h => by
    cases h
    exact ⟨by simp [ownHeaders, headersText], hle, by simp [ownHeaders]⟩
  | h :: hs, out, out', hle, hemit => by
    rw [emitHeaders] at hemit
    split at hemit
    · rename_i hskip
      have hown : ownHeaders skipDate (h :: hs) = ownHeaders skipDate hs :=
        filter_cons_of_neg (by simp [show isGenerated skipDate h = true from hskip])
      rw [hown]
      exact emitHeaders_inv hle hemit
    · rename_i hkeep
      have hgen : isGenerated skipDate h = false := Bool.eq_false_iff.mpr hkeep
      have hown : ownHeaders skipDate (h :: hs) = h :: ownHeaders skipDate hs :=
        filter_cons_of_pos (by simp [hgen])
      split at hemit
      · cases hemit
      · rename_i hne
        split at hemit
        · cases hemit
        · rename_i hvalid
          obtain ⟨mid, hmid, hrest⟩ := except_bind_ok.mp hemit
          obtain ⟨heq, hle'⟩ := emitHeader_inv hle hmid
          obtain ⟨heq', hle'', hprint⟩ := emitHeaders_inv hle' hrest
          have hfirst : Printable h := by
            simp only [not_or, not_not] at hvalid
            exact ⟨hne, hvalid.1, hvalid.2⟩
          rw [hown]
          refine ⟨?_, hle'', forall_mem_cons.mpr ⟨hfirst, hprint⟩⟩
          rw [heq', heq, append_assoc]
          rfl

theorem emitBody_inv {body : Bytes} (hle : out.length ≤ cap)
    (h : emitBody cap out body = .ok out') :
    body.length ≤ cap ∧
    ∀ hn, out' = out ++ headersText (bodyHeaders body hn) ++ (crlf ++ body) := by
  have hlast : ∀ {mid : Bytes}, mid.length ≤ cap → bufAppendAll cap mid [crlf, body] = .ok out' →
      body.length ≤ cap ∧ out' = mid ++ (crlf ++ body) := by
    intro mid hmidle hrest
    obtain ⟨heq, hle'⟩ := bufAppendAll_inv hmidle hrest
    rw [heq] at hle'
    refine ⟨?_, by rw [heq]; simp⟩
    simp only [flatten_cons, flatten_nil, append_nil, length_append] at hle'
    omega
  unfold emitBody at h
  split at h
  · rename_i hempty
    obtain ⟨hbody, heq⟩ := hlast hle h
    refine ⟨hbody, fun hn => ?_⟩
    rw [heq, bodyHeaders, if_pos hempty]
    simp [headersText]
  · rename_i hne
    obtain ⟨mid, hmid, hrest⟩ := except_bind_ok.mp h
    obtain ⟨heq, hmidle⟩ := emitHeader_inv hle hmid
    obtain ⟨hbody, heq'⟩ := hlast hmidle hrest
    refine ⟨hbody, fun hn => ?_⟩
    rw [heq', heq, bodyHeaders, if_neg hne]
    simp [headersText, lengthHeader]

/-! ## What the parser makes of it -/

theorem notMem_space {s : Bytes} (h : validField s false = true) : 32 ∉ s := by
  intro hmem
  have := all_eq_true.mp h 32 hmem
  revert this
  decide

variable {h : HtttpHeader}

theorem Printable.plain (hp : Printable h) (hc : 58 ∉ h.key.val) : PlainHeader h :=
  ⟨hp.ne, hc, notMem_of_validField hp.key (by decide), notMem_of_validField hp.value (by decide)⟩

theorem Printable.noCr (hp : Printable h) : 13 ∉ h.key.val ++ bytes ": " ++ h.value.val := by
  have hkey : 13 ∉ h.key.val := notMem_of_validField hp.key (by decide)
  have hvalue : 13 ∉ h.value.val := notMem_of_validField hp.value (by decide)
  have hsep : 13 ∉ bytes ": " := by decide
  simp [hkey, hvalue, hsep]

/-- The line is cut at the first colon of the key, and no blank follows it
there. -/
theorem parseHeaderLine_colon {key value : Bytes} (hsp : 32 ∉ key) (hc : 58 ∈ key) :
    parseHeaderLine (key ++ bytes ": " ++ value) = .error .malformed := by
  obtain ⟨before, behind, rfl, hbefore⟩ := eq_append_cons_of_mem hc
  have hall : ∀ c ∈ before, decide (c ≠ 58) = true := fun c hmem =>
    decide_eq_true fun heq => hbefore (heq ▸ hmem)
  have hline : before ++ 58 :: behind ++ bytes ": " ++ value =
      before ++ (58 :: (behind ++ (58 :: 32 :: value))) := by
    rw [show bytes ": " = [58, 32] by rfl]
    simp
  have htake : (before ++ (58 :: (behind ++ (58 :: 32 :: value)))).takeWhile (· ≠ 58) = before := by
    rw [takeWhile_append_of_pos hall]
    simp
  rw [hline, parseHeaderLine]
  simp only [htake, drop_left]
  cases behind with
  | nil => rfl
  | cons c behind =>
    have hne : c ≠ 32 := fun heq => hsp (by simp [heq])
    split
    · rename_i heq
      simp only [cons_append, List.cons.injEq] at heq
      exact absurd heq.2.1 hne
    · rfl

theorem parseHeaders_inv (rest : Bytes) :
    ∀ {hs : List HtttpHeader} {n : Nat} {acc : List HtttpHeader} {r : List HtttpHeader × Bytes},
      acc.length ≤ htttpMaxHeaders → (∀ h ∈ hs, Printable h) →
      parseHeaders n (headersText hs ++ crlf ++ rest) acc = .ok r →
      (∀ h ∈ hs, 58 ∉ h.key.val) ∧ acc.length + hs.length ≤ htttpMaxHeaders
  | [], _, _, _, hacc, _, _ => ⟨by simp, hacc⟩
  | _ :: _, 0, _, _, _, _, h => by cases h
  | h :: hs, n + 1, acc, r, hacc, hprint, hparse => by
    obtain ⟨hfirst, hrest⟩ := forall_mem_cons.mp hprint
    have hcut := findCrlf_append hfirst.noCr (headersText hs ++ crlf ++ rest)
    obtain ⟨c, line, hcons⟩ := exists_cons_of_ne_nil
      (show h.key.val ++ bytes ": " ++ h.value.val ≠ [] by simp [hfirst.ne])
    rw [headersText_cons, parseHeaders, hcut, hcons] at hparse
    simp only [← hcons] at hparse
    by_cases hcolon : 58 ∈ h.key.val
    · rw [parseHeaderLine_colon (notMem_space hfirst.key) hcolon] at hparse
      cases hparse
    · rw [parseHeaderLine_ok.mpr ⟨rfl, hfirst.ne, hcolon⟩] at hparse
      simp only [bind, Except.bind] at hparse
      split at hparse
      · cases hparse
      · rename_i hroom
        simp only [copyToken_ok.mpr (rfl : h.key.val = h.key.val),
          copyToken_ok.mpr (rfl : h.value.val = h.value.val)] at hparse
        obtain ⟨hcolons, hlen⟩ := parseHeaders_inv rest
          (by rw [length_append, length_singleton]; omega) hrest hparse
        rw [length_append, length_singleton] at hlen
        refine ⟨forall_mem_cons.mpr ⟨hcolon, hcolons⟩, ?_⟩
        rw [length_cons]
        omega

theorem parseTail_inv {hs : List HtttpHeader} {body : Bytes} {r : List HtttpHeader × Bytes}
    (hprint : ∀ h ∈ hs, Printable h) (hparse : parseTail (headersText hs ++ crlf ++ body) = .ok r) :
    (∀ h ∈ hs, 58 ∉ h.key.val) ∧ hs.length ≤ htttpMaxHeaders := by
  obtain ⟨x, hx, -⟩ := except_bind_ok.mp hparse
  have := parseHeaders_inv body (Nat.zero_le _) hprint hx
  rwa [length_nil, Nat.zero_add] at this

/-! ## The block behind the first line -/

section Tail

variable {skipDate : Bool} {first headers : List HtttpHeader} {body : Bytes}
  (hn : body.length < 2 ^ 32)

theorem isGenerated_lengthHeader (n : Nat) (h : n < 2 ^ 32) :
    isGenerated skipDate (lengthHeader n h) = true := by
  have : ciEq (lengthHeader n h).key.val (bytes "Content-Length") = true := by
    simp only [lengthHeader]
    decide
  rw [isGenerated, this, Bool.true_or]

theorem printable_lengthHeader (n : Nat) (h : n < 2 ^ 32) : Printable (lengthHeader n h) :=
  ⟨by simp only [lengthHeader]; decide, by simp only [lengthHeader]; rfl,
    validField_fmtNat n⟩

theorem printable_bodyHeaders : ∀ h ∈ bodyHeaders body hn, Printable h := by
  intro h hmem
  unfold bodyHeaders at hmem
  split at hmem
  · cases hmem
  · obtain rfl := mem_singleton.mp hmem
    exact printable_lengthHeader _ hn

theorem length_bodyHeaders : (bodyHeaders body hn).length = if body = [] then 0 else 1 := by
  unfold bodyHeaders
  split <;> rfl

/-- No header of the caller is taken for the length: the generated one is
found, if there is one. -/
theorem parseBody_generated
    (hfirst : ∀ h ∈ first, ciEq h.key.val (bytes "Content-Length") = false) :
    parseBody (first ++ ownHeaders skipDate headers ++ bodyHeaders body hn) body = .ok body := by
  have hown : ∀ h ∈ first ++ ownHeaders skipDate headers,
      ¬ ciEq h.key.val (bytes "Content-Length") = true := by
    intro h hmem
    rcases mem_append.mp hmem with hmem | hmem
    · rw [hfirst h hmem]
      exact Bool.false_ne_true
    · have hgen := (mem_filter.mp hmem).2
      simp only [isGenerated, Bool.not_or, Bool.and_eq_true, Bool.not_eq_eq_eq_not,
        Bool.not_true] at hgen
      rw [hgen.1]
      exact Bool.false_ne_true
  have hget : htttpHeaderGet (first ++ ownHeaders skipDate headers ++ bodyHeaders body hn)
      (bytes "Content-Length") = htttpHeaderGet (bodyHeaders body hn) (bytes "Content-Length") := by
    rw [htttpHeaderGet, List.find?_append, List.find?_eq_none.mpr hown, Option.none_or]
    rfl
  rw [parseBody, hget, bodyHeaders]
  by_cases hempty : body = []
  · rw [if_pos hempty, hempty]
    rfl
  · have hkey : ciEq (lengthHeader body.length hn).key.val (bytes "Content-Length") = true := by
      rfl
    have hfound : htttpHeaderGet [lengthHeader body.length hn] (bytes "Content-Length") =
        some (lengthHeader body.length hn).value := by
      simp [htttpHeaderGet, hkey]
    rw [if_neg hempty, hfound]
    simp only
    rw [show (lengthHeader body.length hn).value.val = fmtNat body.length from rfl,
      parseUint_fmtNat hn]
    simp

theorem ownHeaders_generated (hfirst : ∀ h ∈ first, isGenerated skipDate h = true) :
    ownHeaders skipDate (first ++ ownHeaders skipDate headers ++ bodyHeaders body hn) =
      ownHeaders skipDate headers := by
  have hnone : ownHeaders skipDate first = [] :=
    filter_eq_nil_iff.mpr fun h hmem => by simp [hfirst h hmem]
  have hlast : ownHeaders skipDate (bodyHeaders body hn) = [] := by
    refine filter_eq_nil_iff.mpr fun h hmem => ?_
    unfold bodyHeaders at hmem
    split at hmem
    · cases hmem
    · obtain rfl := mem_singleton.mp hmem
      simp [isGenerated_lengthHeader]
  have hagain : ownHeaders skipDate (ownHeaders skipDate headers) = ownHeaders skipDate headers :=
    filter_filter.trans (by simp [ownHeaders])
  rw [ownHeaders, filter_append, filter_append]
  show ownHeaders skipDate first ++ ownHeaders skipDate (ownHeaders skipDate headers) ++
    ownHeaders skipDate (bodyHeaders body hn) = _
  rw [hnone, hlast, hagain, nil_append, append_nil]

/-- The headers that come first: `Date`, in a response. -/
structure LeadHeaders (skipDate : Bool) (first : List HtttpHeader) : Prop where
  printable : ∀ h ∈ first, Printable h
  noColon : ∀ h ∈ first, 58 ∉ h.key.val
  generated : ∀ h ∈ first, isGenerated skipDate h = true
  notLength : ∀ h ∈ first, ciEq h.key.val (bytes "Content-Length") = false
  count : first.length = if skipDate then 1 else 0

theorem leadHeaders_nil : LeadHeaders false [] := by
  constructor <;> simp

theorem leadHeaders_date (now : Tm) : LeadHeaders true [dateHeader now] := by
  have hplain := plain_dateHeader now
  have hkey : validField (dateHeader now).key.val false = true := by
    rfl
  have hdate : ciEq (dateHeader now).key.val (bytes "Date") = true := by
    simp only [dateHeader]
    decide +kernel
  have hlength : ciEq (dateHeader now).key.val (bytes "Content-Length") = false := by
    rfl
  constructor
  · simpa using ⟨hplain.ne, hkey, validField_date now⟩
  · simpa using hplain.noColon
  · simpa [isGenerated] using Or.inr hdate
  · simpa using hlength
  · rfl

theorem noColon_bodyHeaders : ∀ h ∈ bodyHeaders body hn, 58 ∉ h.key.val := by
  intro h hmem
  unfold bodyHeaders at hmem
  split at hmem
  · cases hmem
  · obtain rfl := mem_singleton.mp hmem
    exact (plain_lengthHeader _ hn).noColon

variable (hlead : LeadHeaders skipDate first)
  (hprint : ∀ h ∈ ownHeaders skipDate headers, Printable h)

include hlead hprint

theorem printable_all :
    ∀ h ∈ first ++ ownHeaders skipDate headers ++ bodyHeaders body hn, Printable h := by
  intro h hmem
  rcases mem_append.mp hmem with hmem | hmem
  · rcases mem_append.mp hmem with hmem | hmem
    · exact hlead.printable h hmem
    · exact hprint h hmem
  · exact printable_bodyHeaders hn h hmem

theorem readable_of_parseTail {r : List HtttpHeader × Bytes}
    (hparse : parseTail
      (headersText (first ++ ownHeaders skipDate headers ++ bodyHeaders body hn) ++
      crlf ++ body) = .ok r) : Readable skipDate headers body := by
  obtain ⟨hcolon, hlen⟩ := parseTail_inv (printable_all hn hlead hprint) hparse
  refine ⟨fun h hmem => hcolon h (by simp [hmem]), ?_⟩
  rw [length_append, length_append, hlead.count, length_bodyHeaders] at hlen
  omega

/-- A readable block comes back. -/
theorem parseTail_of_readable (hread : Readable skipDate headers body) :
    parseTail (headersText (first ++ ownHeaders skipDate headers ++ bodyHeaders body hn) ++
      crlf ++ body) = .ok (first ++ ownHeaders skipDate headers ++ bodyHeaders body hn, body) := by
  obtain ⟨hcolon, hlen⟩ := hread
  refine parseTail_ok.mpr ⟨?_, fun h hmem => ?_,
    (parseBody_ok.mp (parseBody_generated hn hlead.notLength)).2, rfl⟩
  · rw [length_append, length_append, hlead.count, length_bodyHeaders]
    omega
  · refine ((printable_all hn hlead hprint h hmem).plain ?_).line
    rcases mem_append.mp hmem with hmem | hmem
    · rcases mem_append.mp hmem with hmem | hmem
      · exact hlead.noColon h hmem
      · exact hcolon h hmem
    · exact noColon_bodyHeaders hn h hmem

end Tail

/-! ## The first line -/

theorem notMem_requestLine {method path : Bytes} (hm : validField method false = true)
    (hp : validField path false = true) : 13 ∉ requestLine method path := by
  have h1 : 13 ∉ method := notMem_of_validField hm (by decide)
  have h2 : 13 ∉ path := notMem_of_validField hp (by decide)
  have h3 : 13 ∉ bytes " " := by decide
  have h4 : 13 ∉ htttpVersion := by decide +kernel
  simp [requestLine, h1, h2, h3, h4]

variable {req : HtttpRequest}

theorem htttpParseRequest_append {line : Bytes} (hcr : 13 ∉ line) {tail : Bytes} :
    htttpParseRequest (line ++ crlf ++ tail) = .ok req ↔
      parseRequestLine line = .ok (req.method, req.path) ∧
        parseTail tail = .ok (req.headers, req.body) := by
  rw [htttpParseRequest_ok, findCrlf_append hcr]
  simp

variable {res : HtttpResponse}

theorem htttpParseResponse_append {line : Bytes} (hcr : 13 ∉ line) {tail : Bytes} :
    htttpParseResponse (line ++ crlf ++ tail) = .ok res ↔
      parseStatusLine line = .ok res.status ∧ parseTail tail = .ok (res.headers, res.body) := by
  rw [htttpParseResponse_ok, findCrlf_append hcr]
  simp

/-! ## Results -/

theorem emitted_tail {mid body : Bytes} {headers : List HtttpHeader} (hcap : cap < 2 ^ 32)
    (hle : out.length ≤ cap) (hheaders : emitHeaders cap skipDate out headers = .ok mid)
    (hbody : emitBody cap mid body = .ok out') :
    ∃ hn : body.length < 2 ^ 32, (∀ h ∈ ownHeaders skipDate headers, Printable h) ∧
      out' = out ++ headersText (ownHeaders skipDate headers ++ bodyHeaders body hn) ++
        (crlf ++ body) := by
  obtain ⟨hmid, hle', hprint⟩ := emitHeaders_inv hle hheaders
  obtain ⟨hlen, hout⟩ := emitBody_inv hle' hbody
  have hn : body.length < 2 ^ 32 := by omega
  refine ⟨hn, hprint, ?_⟩
  rw [hout hn, hmid, headersText_append, append_assoc out]

theorem request_back_iff (hcap : cap < 2 ^ 32) (hser : htttpSerializeRequest req cap = .ok out) :
    (∃ req', htttpParseRequest out = .ok req' ∧ RequestBack req req') ↔
      Readable false req.headers req.body := by
  unfold htttpSerializeRequest at hser
  split at hser
  · cases hser
  · rename_i hne
    split at hser
    · cases hser
    · rename_i hvalid
      simp only [not_or, not_not] at hne hvalid
      obtain ⟨first, hfirst, hser⟩ := except_bind_ok.mp hser
      obtain ⟨mid, hheaders, hbody⟩ := except_bind_ok.mp hser
      obtain ⟨hline, hle⟩ := bufAppendAll_inv (Nat.zero_le _) hfirst
      obtain ⟨hn, hprint, hout⟩ := emitted_tail hcap hle hheaders hbody
      have htext : out = requestLine req.method.val req.path.val ++ crlf ++
          (headersText ([] ++ ownHeaders false req.headers ++ bodyHeaders req.body hn) ++ crlf ++
            req.body) := by
        rw [hout, hline]
        simp [requestLine]
      have hcr := notMem_requestLine hvalid.1 hvalid.2
      rw [htext]
      constructor
      · rintro ⟨req', hreq, -⟩
        exact readable_of_parseTail hn leadHeaders_nil hprint
          ((htttpParseRequest_append hcr).mp hreq).2
      · intro hread
        have htail := parseTail_of_readable hn leadHeaders_nil hprint hread
        have hfirst := parseRequestLine_ok.mpr
          ⟨⟨hne.1, notMem_space hvalid.1⟩, ⟨hne.2, notMem_space hvalid.2⟩, rfl⟩
        exact ⟨⟨req.method, req.path, _, req.body, parseTail_length htail⟩,
          (htttpParseRequest_append hcr).mpr ⟨hfirst, htail⟩,
          ⟨rfl, rfl, rfl, ownHeaders_generated hn leadHeaders_nil.generated⟩⟩

theorem response_back_iff (hcap : cap < 2 ^ 32) {now : Tm}
    (hser : htttpSerializeResponse now res cap = .ok out) :
    (∃ res', htttpParseResponse out = .ok res' ∧ ResponseBack res res') ↔
      Readable true res.headers res.body := by
  unfold htttpSerializeResponse at hser
  split at hser
  · cases hser
  · rename_i reason hreason
    obtain ⟨hlo, hhi, hvalid, -⟩ := htttpReason_some hreason
    obtain ⟨first, hfirst, hser⟩ := except_bind_ok.mp hser
    obtain ⟨dated, hdate, hser⟩ := except_bind_ok.mp hser
    obtain ⟨mid, hheaders, hbody⟩ := except_bind_ok.mp hser
    obtain ⟨hline, hle⟩ := bufAppendAll_inv (Nat.zero_le _) hfirst
    obtain ⟨hdated, hle'⟩ := emitHeader_inv hle hdate
    obtain ⟨hn, hprint, hout⟩ := emitted_tail hcap hle' hheaders hbody
    have htext : out = statusLine res.status reason ++ crlf ++
        (headersText ([dateHeader now] ++ ownHeaders true res.headers ++
          bodyHeaders res.body hn) ++ crlf ++ res.body) := by
      rw [hout, hdated, hline]
      simp [statusLine, headersText, dateHeader]
    have hcr : 13 ∉ statusLine res.status reason := notMem_statusLine hvalid
    rw [htext]
    constructor
    · rintro ⟨res', hres, -⟩
      exact readable_of_parseTail hn (leadHeaders_date now) hprint
        ((htttpParseResponse_append hcr).mp hres).2
    · intro hread
      have htail := parseTail_of_readable hn (leadHeaders_date now) hprint hread
      exact ⟨⟨res.status, _, res.body, parseTail_length htail⟩,
        (htttpParseResponse_append hcr).mpr ⟨parseStatusLine_statusLine hlo hhi, htail⟩,
        ⟨rfl, rfl, ownHeaders_generated hn (leadHeaders_date now).generated⟩⟩

/-- A response with a body and no headers of its own comes back with its
body. -/
theorem htttpSerializeResponse_parse (now : Tm) {status : Nat} {reason body : Bytes}
    (hreason : htttpReason status = some reason) (hne : body ≠ []) (hfits : body.length + 160 ≤ cap)
    (hcap : cap < 2 ^ 32) :
    ∃ out http, htttpSerializeResponse now ⟨status, [], body, Nat.zero_le _⟩ cap = .ok out ∧
      htttpParseResponse out = .ok http ∧ http.body = body := by
  obtain ⟨hlo, hhi, hvalid, hlen⟩ := htttpReason_some hreason
  have hstatus := length_fmtNat_le (k := 3) (by norm_num) (show status < 10 ^ 3 by omega)
  have hcount := length_fmtNat_le (k := 10) (by norm_num) (show body.length < 10 ^ 10 by omega)
  have hdate := length_date_le now
  have l1 : htttpVersion.length = 9 := rfl
  have l2 : (bytes " ").length = 1 := rfl
  have l3 : crlf.length = 2 := rfl
  have l4 : (bytes ": ").length = 2 := by decide
  have l5 : (bytes "Date").length = 4 := by decide
  have l6 : (bytes "Content-Length").length = 14 := rfl
  obtain ⟨out, hser⟩ : ∃ out,
      htttpSerializeResponse now ⟨status, [], body, Nat.zero_le _⟩ cap = .ok out := by
    simp only [htttpSerializeResponse, hreason]
    rw [bufAppendAll_ok (by simp [l1, l2, l3]; omega)]
    simp only [bind, Except.bind, emitHeader]
    rw [bufAppendAll_ok (by simp [l1, l2, l3, l4, l5]; omega)]
    simp only [emitHeaders, emitBody, if_neg hne, bind, Except.bind, emitHeader]
    rw [bufAppendAll_ok (by simp [l1, l2, l3, l4, l5, l6]; omega)]
    simp only
    rw [bufAppendAll_ok (by simp [l1, l2, l3, l4, l5, l6]; omega)]
    exact ⟨_, rfl⟩
  obtain ⟨http, hparse, hback⟩ := (response_back_iff hcap hser).mpr
    ⟨by simp [ownHeaders], by simp [ownHeaders, hne, htttpMaxHeaders]⟩
  exact ⟨out, http, hser, hparse, hback.body⟩

/-- A serialized message comes back exactly if its headers are readable: no
key has a colon, and with the `Date` and `Content-Length` that the
serializer adds there are no more than the parser takes. -/
theorem round_trip_iff (cap : UInt32) :
    (∀ req out, htttpSerializeRequest req cap.toNat = .ok out →
      ((∃ req', htttpParseRequest out = .ok req' ∧ RequestBack req req') ↔
        Readable false req.headers req.body)) ∧
    (∀ now res out, htttpSerializeResponse now res cap.toNat = .ok out →
      ((∃ res', htttpParseResponse out = .ok res' ∧ ResponseBack res res') ↔
        Readable true res.headers res.body)) :=
  ⟨fun _ _ => request_back_iff cap.toNat_lt, fun _ _ _ => response_back_iff cap.toNat_lt⟩

/-- A request with the header `key: v`, `count` times over. -/
def joinRequest (key : CStr htttpMaxKey) (count : Fin 33) (body : Bytes) : HtttpRequest where
  method := ⟨bytes "JOIN", by decide +kernel, by decide +kernel⟩
  path := ⟨bytes "/room/0", by decide +kernel, by decide⟩
  headers := List.replicate count ⟨key, ⟨bytes "v", by decide +kernel, by decide⟩⟩
  body := body
  headers_le := by
    rw [length_replicate]
    exact Nat.le_of_lt_succ count.isLt

theorem round_trip_one_header :
    ∃ req', htttpParseRequest (bytes "JOIN /room/0 HTTTP/1.0\r\nk: v\r\n\r\n") = .ok req' ∧
      RequestBack (joinRequest ⟨bytes "k", by decide, by decide +kernel⟩ 1 []) req' :=
  ((round_trip_iff 4096).1 (joinRequest ⟨bytes "k", by decide, by decide⟩ 1 [])
    (bytes "JOIN /room/0 HTTTP/1.0\r\nk: v\r\n\r\n") (by decide +kernel)).mpr
    ⟨by decide +kernel, by decide⟩

/-- Serialized without complaint and refused by the parser: a key with a
colon, and 32 headers next to a body. -/
theorem serialized_request_refused :
    (∃ out, htttpSerializeRequest
        (joinRequest ⟨bytes "a:b", by decide, by decide⟩ 1 []) 4096 = .ok out ∧
      htttpParseRequest out = .error .malformed) ∧
    (∃ out, htttpSerializeRequest
        (joinRequest ⟨bytes "k", by decide, by decide⟩ 32 (bytes "x")) 4096 =
          .ok out ∧
      htttpParseRequest out = .error .tooLong) :=
  ⟨⟨bytes "JOIN /room/0 HTTTP/1.0\r\na:b: v\r\n\r\n", by decide +kernel, by decide +kernel⟩,
    ⟨bytes "JOIN /room/0 HTTTP/1.0\r\n" ++ (List.replicate 32 (bytes "k: v\r\n")).flatten ++
      bytes "Content-Length: 1\r\n\r\nx", by decide +kernel, by decide +kernel⟩⟩

end Corestack.Core
