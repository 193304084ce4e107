import Corestack.Core.Htttp

/-!
# The grammar of messages

A message is a first line, header lines, an empty line and a body. The two
parsers read it from left to right; here it is one text put together from
its parts, with what each part may contain. The capacity of a field and the
absence of NUL are in its type, the number of headers in that of a message.
-/

namespace Corestack.Core

open Lib

/-- `buf` is the request: `METHOD SP PATH SP VERSION`, ended by the first
CRLF, header lines each ended by the next one, an empty line, the body. -/
structure RequestText (buf : Bytes) (req : HtttpRequest) : Prop where
  method : req.method.val ≠ [] ∧ 32 ∉ req.method.val
  path : req.path.val ≠ [] ∧ 32 ∉ req.path.val
  line : ¬ crlf <:+: requestLine req.method.val req.path.val
  headers : ∀ h ∈ req.headers, HeaderLine h
  body : BodyFits req.headers req.body
  text : buf = requestLine req.method.val req.path.val ++ crlf ++
    (headersText req.headers ++ crlf ++ req.body)

/-- `buf` is the response, whose first line is `VERSION SP STATUS SP REASON`
with the digits and the reason given. -/
structure ResponseText (buf : Bytes) (res : HtttpResponse) (digits reason : Bytes) : Prop where
  status : digits ≠ [] ∧ digits.length ≤ 32 ∧ (∀ c ∈ digits, isDigit c = true) ∧
    digitsVal digits = res.status
  range : 100 ≤ res.status ∧ res.status ≤ 599
  line : ¬ crlf <:+: htttpVersion ++ bytes " " ++ digits ++ bytes " " ++ reason
  headers : ∀ h ∈ res.headers, HeaderLine h
  body : BodyFits res.headers res.body
  text : buf = htttpVersion ++ bytes " " ++ digits ++ bytes " " ++ reason ++ crlf ++
    (headersText res.headers ++ crlf ++ res.body)

theorem body_lt {line headers body : Bytes}
    (h : (line ++ crlf ++ (headers ++ crlf ++ body)).length < 2 ^ 32) : body.length < 2 ^ 32 := by
  simp only [List.length_append] at h
  omega

theorem parseRequest_iff {buf : Bytes} (hlen : buf.length < 2 ^ 32) (req : HtttpRequest) :
    htttpParseRequest buf = .ok req ↔ RequestText buf req := by
  rw [htttpParseRequest_ok]
  constructor
  · rintro ⟨line, rest, hcut, hline, htail⟩
    obtain ⟨rfl, hcrlf⟩ := findCrlf_eq_some.mp hcut
    obtain ⟨hm, hp, rfl⟩ := parseRequestLine_ok.mp hline
    obtain ⟨-, hheaders, hbody, rfl⟩ := parseTail_ok.mp htail
    exact ⟨hm, hp, hcrlf, hheaders, hbody.1, rfl⟩
  · rintro ⟨hm, hp, hcrlf, hheaders, hbody, rfl⟩
    exact ⟨_, _, findCrlf_eq_some.mpr ⟨rfl, hcrlf⟩, parseRequestLine_ok.mpr ⟨hm, hp, rfl⟩,
      parseTail_ok.mpr ⟨req.headers_le, hheaders, ⟨hbody, body_lt hlen⟩, rfl⟩⟩

theorem parseResponse_iff {buf : Bytes} (hlen : buf.length < 2 ^ 32) (res : HtttpResponse) :
    htttpParseResponse buf = .ok res ↔ ∃ digits reason, ResponseText buf res digits reason := by
  rw [htttpParseResponse_ok]
  constructor
  · rintro ⟨line, rest, hcut, hline, htail⟩
    obtain ⟨rfl, hcrlf⟩ := findCrlf_eq_some.mp hcut
    obtain ⟨digits, reason, rfl, hstatus, hrange⟩ := parseStatusLine_ok.mp hline
    obtain ⟨-, hheaders, hbody, rfl⟩ := parseTail_ok.mp htail
    exact ⟨digits, reason, hstatus, hrange, hcrlf, hheaders, hbody.1, rfl⟩
  · rintro ⟨digits, reason, hstatus, hrange, hcrlf, hheaders, hbody, rfl⟩
    exact ⟨_, _, findCrlf_eq_some.mpr ⟨rfl, hcrlf⟩,
      parseStatusLine_ok.mpr ⟨digits, reason, rfl, hstatus, hrange⟩,
      parseTail_ok.mpr ⟨res.headers_le, hheaders, ⟨hbody, body_lt hlen⟩, rfl⟩⟩

/-- A parser accepts exactly the texts of its grammar, and returns the parts
that the text is put together from. The length is a `uint32_t`. -/
theorem parsers_accept_grammar (buf : Bytes) (hlen : buf.length < 2 ^ 32) :
    (∀ req, htttpParseRequest buf = .ok req ↔ RequestText buf req) ∧
    (∀ res, htttpParseResponse buf = .ok res ↔
      ∃ digits reason, ResponseText buf res digits reason) :=
  ⟨parseRequest_iff hlen, parseResponse_iff hlen⟩

/-- A request with a body, and a response without a reason. -/
theorem parsers_accept_grammar_short :
    (∃ req, RequestText (bytes "A b HTTTP/1.0\r\ncontent-LENGTH: 01\r\n\r\nx") req) ∧
    ∃ res digits reason, ResponseText (bytes "HTTTP/1.0 0200 \r\n\r\n") res digits reason := by
  refine ⟨⟨⟨⟨bytes "A", by decide, by decide⟩, ⟨bytes "b", by decide, by decide⟩,
    [⟨⟨bytes "content-LENGTH", by decide, by decide⟩, ⟨bytes "01", by decide, by decide⟩⟩],
    bytes "x", by decide⟩, ?_⟩, ⟨200, [], [], by decide⟩, ?_⟩
  · exact ((parsers_accept_grammar _ (by decide)).1 _).mp (by decide +kernel)
  · exact ((parsers_accept_grammar _ (by decide)).2 _).mp (by decide +kernel)

end Corestack.Core
