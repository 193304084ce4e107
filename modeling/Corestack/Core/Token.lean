import Corestack.Core.Account

/-!
# Tokens (`libtetrisauth/lib/token.c`)

A token is four claims, each ended by a newline, and the MAC of that text in
hex. `token_mint` prints it and `token_verify` reads it back: the decimal
reader refuses everything that `%lld` would not have printed for a number
that is not negative, so the text of a token is determined by its claims.

The MAC is any function of the secret and the text, which may also fail.
-/

namespace Corestack.Core

open Lib

abbrev tokenNameMax : Nat := 15
abbrev tokenSigHexLen : Nat := 64
abbrev tokenMaxLen : Nat := 256
abbrev tokenSecretMinLen : Nat := 32

/-- `token_claims_t`. -/
structure TokenClaims where
  sub : Int64
  name : Vector UInt8 (tokenNameMax + 1)
  iat : Int64
  exp : Int64
deriving DecidableEq

/-- The C string in the array of the name. -/
def TokenClaims.text (c : TokenClaims) : Bytes := cText c.name.toList

/-- `token_result_t`, with what is then in `*out`. -/
inductive TokenResult where
  | ok (out : TokenClaims)
  | malformed
  | signature
  | claims
  | expired
deriving DecidableEq

abbrev Mac := Bytes → Bytes → Option (Vector UInt8 32)

def isNameOk (s : Bytes) : Bool :=
  s.length ≠ 0 && s.length ≤ tokenNameMax && s.all fun c =>
    65 ≤ c && c ≤ 90 || 97 ≤ c && c ≤ 122 || 48 ≤ c && c ≤ 57 || c = 95 || c = 45

def secretOk (secret : Bytes) : Bool :=
  tokenSecretMinLen ≤ secret.length && secret.length ≤ 2 ^ 31 - 1

/-! ## Minting -/

def fieldsText (sub name iat exp : Bytes) : Bytes :=
  sub ++ 10 :: (name ++ 10 :: (iat ++ 10 :: (exp ++ [10])))

def writeClaims (cap : Nat) (c : TokenClaims) : Option Bytes :=
  if 0 ∉ c.name.toList then none
  else if !isNameOk c.text then none
  else
    let text := fieldsText (fmtInt c.sub.toInt) c.text (fmtInt c.iat.toInt) (fmtInt c.exp.toInt)
    if cap ≤ text.length then none else some text

def writeToken (mac : Mac) (cap : Nat) (c : TokenClaims) (secret : Bytes) : Option Bytes := do
  let text ← writeClaims cap c
  if cap < text.length + tokenSigHexLen + 1 then none
  else
    let sig ← mac secret text
    return text ++ hexEncode sig.toList

/-- The token, if it fits into the caller's buffer. -/
def tokenMint (mac : Mac) (outLen : Nat) (c : TokenClaims) (secret : Bytes) : Option Bytes :=
  if outLen = 0 ∨ secretOk secret = false then none
  else do
    let tok ← writeToken mac tokenMaxLen c secret
    if outLen < tok.length + 1 then none else some tok

/-! ## Verifying -/

structure TokenParts where
  sub : Bytes
  name : Bytes
  iat : Bytes
  exp : Bytes
  sig : Bytes
  /-- What the MAC covers: the received bytes before it. -/
  signing : Bytes

/-- Exactly four separators, and a MAC of the right length. -/
def splitToken (tok : Bytes) : Option TokenParts :=
  match split 10 tok with
  | [sub, name, iat, exp, sig] =>
    if sig.length ≠ tokenSigHexLen then none
    else some ⟨sub, name, iat, exp, sig, tok.take (tok.length - sig.length)⟩
  | _ => none

def parsePosLl (s : Bytes) : Option Int64 :=
  if s = [] then none
  else if s.head? = some 48 ∧ 1 < s.length then none
  else (s.foldlM (guardedDigit (2 ^ 63 - 1)) 0).map Int64.ofNat

/-- The name copied into an array that was cleared. -/
def readName (s : Bytes) : Vector UInt8 (tokenNameMax + 1) := Vector.ofFn fun i => s.getD i 0

def readClaims (p : TokenParts) : Option TokenClaims := do
  let sub ← parsePosLl p.sub
  let iat ← parsePosLl p.iat
  let exp ← parsePosLl p.exp
  if !isNameOk p.name then none else return ⟨sub, readName p.name, iat, exp⟩

/-- `tok` is a C string, which `strnlen` measures up to the limit. -/
def tokenVerify (mac : Mac) (tok secret : Bytes) (now : Int64) : TokenResult :=
  if secretOk secret = false ∨ tokenMaxLen ≤ tok.length then .malformed
  else
    match splitToken tok with
    | none => .malformed
    | some p =>
      match mac secret p.signing with
      | none => .signature
      | some sig =>
        if hexEncode sig.toList ≠ p.sig then .signature
        else
          match readClaims p with
          | none => .claims
          | some c => if now.toInt ≥ c.exp.toInt then .expired else .ok c

/-! ## The fields -/

theorem fieldsText_append (sub name iat exp sig : Bytes) :
    fieldsText sub name iat exp ++ sig = join 10 [sub, name, iat, exp, sig] := by
  simp [fieldsText, join]

theorem splitToken_fields {sub name iat exp sig : Bytes}
    (hplain : ∀ p ∈ [sub, name, iat, exp, sig], 10 ∉ p) (hsig : sig.length = tokenSigHexLen) :
    splitToken (fieldsText sub name iat exp ++ sig) =
      some ⟨sub, name, iat, exp, sig, fieldsText sub name iat exp⟩ := by
  have hsplit : split 10 (fieldsText sub name iat exp ++ sig) = [sub, name, iat, exp, sig] := by
    rw [fieldsText_append, split_join (by simp) hplain]
  rw [splitToken, hsplit]
  simp only [hsig, ne_eq, not_true, if_false, List.length_append, Nat.add_sub_cancel,
    List.take_left]

variable {tok : Bytes} {p : TokenParts}

theorem splitToken_inv (h : splitToken tok = some p) :
    tok = p.signing ++ p.sig ∧ p.signing = fieldsText p.sub p.name p.iat p.exp ∧
      p.sig.length = tokenSigHexLen := by
  unfold splitToken at h
  split at h
  · rename_i sub name iat exp sig hsplit
    split at h
    · cases h
    · rename_i hlen
      cases h
      have htok : tok = fieldsText sub name iat exp ++ sig := by
        rw [fieldsText_append, ← hsplit, join_split]
      have hsigning : tok.take (tok.length - sig.length) = fieldsText sub name iat exp := by
        rw [htok, List.length_append, Nat.add_sub_cancel, List.take_left]
      exact ⟨by rw [hsigning, htok], hsigning, not_not.mp hlen⟩
  · cases h

variable {s : Bytes}

/-- The reader accepts what `%lld` prints for a number that is not negative,
and nothing else. -/
theorem parsePosLl_eq_some {n : Int64} :
    parsePosLl s = some n ↔ 0 ≤ n.toInt ∧ s = fmtInt n.toInt := by
  have hread : ∀ {v : Nat}, s.foldlM (guardedDigit (2 ^ 63 - 1)) 0 = some v ↔
      (∀ c ∈ s, isDigit c = true) ∧ digitsVal s = v ∧ v ≤ 2 ^ 63 - 1 :=
    foldlM_guardedDigit (by norm_num) (Nat.zero_le _)
  constructor
  · intro h
    unfold parsePosLl at h
    split at h
    · cases h
    rename_i hne
    split at h
    · cases h
    rename_i hlead
    obtain ⟨v, hv, rfl⟩ := Option.map_eq_some_iff.mp h
    obtain ⟨hdigits, rfl, hle⟩ := hread.mp hv
    have hint : (Int64.ofNat (digitsVal s)).toInt = digitsVal s :=
      Int64.toInt_ofNat_of_lt (by omega)
    rw [hint]
    refine ⟨Int.natCast_nonneg _, (fmtNat_digitsVal hne hdigits ?_).symm⟩
    by_cases hhead : s.head? = some 48
    · obtain ⟨t, rfl⟩ := List.head?_eq_some_iff.mp hhead
      rw [not_and, Nat.not_lt, List.length_cons] at hlead
      have := hlead hhead
      exact .inl (by rw [List.eq_nil_of_length_eq_zero (by omega : t.length = 0)])
    · exact .inr hhead
  · rintro ⟨hpos, rfl⟩
    have hlt := n.toInt_lt
    obtain ⟨m, hm⟩ := Int.eq_ofNat_of_zero_le hpos
    have htext : fmtInt n.toInt = fmtNat m := by rw [hm]; rfl
    have hval : (fmtNat m).foldlM (guardedDigit (2 ^ 63 - 1)) 0 = some m := htext ▸ hread.mpr
      ⟨htext ▸ fun c => fmtNat_isDigit, htext ▸ digitsVal_fmtNat m, by omega⟩
    have hlead : ¬ ((fmtNat m).head? = some 48 ∧ 1 < (fmtNat m).length) := by
      rintro ⟨hhead, hlen⟩
      by_cases hzero : m = 0
      · subst hzero
        exact absurd hlen (by decide)
      · exact head?_fmtNat_ne hzero hhead
    rw [htext, parsePosLl, if_neg (fmtNat_ne_nil m), if_neg hlead, hval, Option.map_some,
      Option.some.injEq, ← Int64.toInt_inj, Int64.toInt_ofNat_of_lt (by omega), hm]

theorem cText_readName (h : isNameOk s = true) :
    0 ∈ (readName s).toList ∧ cText (readName s).toList = s := by
  simp only [isNameOk, Bool.and_eq_true, decide_eq_true_eq] at h
  obtain ⟨⟨-, hlen⟩, hall⟩ := h
  have h0 : 0 ∉ s := fun hmem => absurd (List.all_eq_true.mp hall 0 hmem) (by decide)
  have htext : (readName s).toList = s ++ List.replicate (tokenNameMax + 1 - s.length) 0 := by
    refine List.ext_getElem (by simp; omega) fun i hi hi' => ?_
    simp only [readName, Vector.getElem_toList, Vector.getElem_ofFn, List.getD_eq_getElem?_getD]
    by_cases hin : i < s.length
    · rw [List.getElem_append_left hin, List.getElem?_eq_getElem hin]
      rfl
    · rw [List.getElem_append_right (by omega), List.getElem?_eq_none (by omega),
        List.getElem_replicate]
      rfl
  rw [htext, show tokenNameMax + 1 - s.length = (tokenNameMax - s.length) + 1 by omega,
    List.replicate_succ, cText, takeWhile_ne_append h0]
  simp

/-! ## Minting and verifying -/

theorem length_hexEncode_mac (sig : Vector UInt8 32) :
    (hexEncode sig.toList).length = tokenSigHexLen := by
  rw [length_hexEncode, Vector.length_toList]

def TokenClaims.signing (c : TokenClaims) : Bytes :=
  fieldsText (fmtInt c.sub.toInt) c.text (fmtInt c.iat.toInt) (fmtInt c.exp.toInt)

variable {mac : Mac} {outLen : Nat} {c : TokenClaims} {secret : Bytes}

theorem tokenMint_eq_some :
    tokenMint mac outLen c secret = some tok ↔
      secretOk secret = true ∧ (0 ∈ c.name.toList ∧ isNameOk c.text = true) ∧
        (tok.length < tokenMaxLen ∧ tok.length < outLen) ∧
        ∃ sig, mac secret c.signing = some sig ∧ tok = c.signing ++ hexEncode sig.toList := by
  constructor
  · intro h
    unfold tokenMint at h
    split at h
    · cases h
    rename_i hargs
    rw [not_or, Bool.not_eq_false] at hargs
    obtain ⟨tok', hwrite, hfits⟩ := Option.bind_eq_some_iff.mp h
    split at hfits
    · cases hfits
    rename_i hout
    cases hfits
    obtain ⟨text, hclaims, hrest⟩ := Option.bind_eq_some_iff.mp hwrite
    split at hrest
    · cases hrest
    rename_i hcap
    obtain ⟨sig, hmac, htok⟩ := Option.bind_eq_some_iff.mp hrest
    cases htok
    unfold writeClaims at hclaims
    split at hclaims
    · cases hclaims
    rename_i hterm
    split at hclaims
    · cases hclaims
    rename_i hname
    dsimp only at hclaims
    split at hclaims
    · cases hclaims
    cases hclaims
    have hlen := length_hexEncode_mac sig
    rw [List.length_append] at hout ⊢
    refine ⟨hargs.2, ⟨not_not.mp hterm, by simpa using hname⟩, ⟨?_, ?_⟩, sig, hmac, rfl⟩
    · omega
    · omega
  · rintro ⟨hsecret, ⟨hterm, hname⟩, ⟨hlt, hout⟩, sig, hmac, rfl⟩
    have hlen := length_hexEncode_mac sig
    have hsize := hlt
    rw [List.length_append] at hsize
    have hclaims : writeClaims tokenMaxLen c = some c.signing := by
      rw [writeClaims, if_neg (not_not.mpr hterm), if_neg (by simp [hname])]
      exact if_neg (by show ¬ tokenMaxLen ≤ c.signing.length; omega)
    have hwrite : writeToken mac tokenMaxLen c secret =
        some (c.signing ++ hexEncode sig.toList) := by
      rw [writeToken, hclaims, Option.bind_eq_bind, Option.bind_some, if_neg (by omega), hmac]
      rfl
    rw [tokenMint, if_neg (by simp [hsecret]; omega), hwrite, Option.bind_eq_bind, Option.bind_some,
      if_neg (by omega)]

theorem readClaims_eq_some : readClaims p = some c ↔
    (0 ≤ c.sub.toInt ∧ p.sub = fmtInt c.sub.toInt) ∧
      (0 ≤ c.iat.toInt ∧ p.iat = fmtInt c.iat.toInt) ∧
      (0 ≤ c.exp.toInt ∧ p.exp = fmtInt c.exp.toInt) ∧
      isNameOk p.name = true ∧ c.name = readName p.name := by
  simp only [← parsePosLl_eq_some]
  constructor
  · intro h
    obtain ⟨sub, hsub, h⟩ := Option.bind_eq_some_iff.mp h
    obtain ⟨iat, hiat, h⟩ := Option.bind_eq_some_iff.mp h
    obtain ⟨exp, hexp, hname⟩ := Option.bind_eq_some_iff.mp h
    split at hname
    · cases hname
    · rename_i hok
      cases hname
      exact ⟨hsub, hiat, hexp, by simpa using hok, rfl⟩
  · rintro ⟨hsub, hiat, hexp, hok, hname⟩
    simp [readClaims, hsub, hiat, hexp, hok, ← hname]

/-- A token that is put together right is judged by its claims alone: they
have to be numbers as `token_mint` prints them, and not expired. -/
theorem tokenVerify_signed {sig : Vector UInt8 32} (hsecret : secretOk secret = true)
    (hlen : tok.length < tokenMaxLen) (hsplit : splitToken tok = some p)
    (hmac : mac secret p.signing = some sig) (hsig : p.sig = hexEncode sig.toList) (now : Int64) :
    tokenVerify mac tok secret now =
      match readClaims p with
      | none => .claims
      | some c => if now.toInt ≥ c.exp.toInt then .expired else .ok c := by
  rw [tokenVerify, if_neg (by simp [hsecret, hlen]), hsplit]
  simp only [hmac, hsig, ne_eq, not_true, if_false]

variable {now : Int64}

/-- What an accepted token is made of. -/
theorem tokenVerify_ok (h : tokenVerify mac tok secret now = .ok c) :
    secretOk secret = true ∧ tok.length < tokenMaxLen ∧
      ∃ p sig, splitToken tok = some p ∧ mac secret p.signing = some sig ∧
        p.sig = hexEncode sig.toList ∧ readClaims p = some c := by
  unfold tokenVerify at h
  split at h
  · cases h
  rename_i hargs
  rw [not_or, Bool.not_eq_false, Nat.not_le] at hargs
  split at h
  · cases h
  rename_i p hsplit
  split at h
  · cases h
  rename_i sig hmac
  split at h
  · cases h
  rename_i hsig
  split at h
  · cases h
  rename_i c' hclaims
  split at h
  · cases h
  · cases h
    exact ⟨hargs.1, hargs.2, p, sig, hsplit, hmac, (not_not.mp hsig).symm, hclaims⟩

theorem notMem_hexEncode (s : Bytes) : 10 ∉ hexEncode s := by
  have hbyte : ∀ n < 256, 10 ∉ [hexChar (UInt8.ofNat n >>> 4), hexChar (UInt8.ofNat n &&& 15)] := by
    decide +kernel
  intro hmem
  obtain ⟨c, -, hc⟩ := List.mem_flatMap.mp hmem
  have := hbyte c.toNat c.toNat_lt
  rw [UInt8.ofNat_toNat] at this
  exact this hc

theorem fields_plain (hname : isNameOk c.text = true) (sig : Bytes) :
    ∀ p ∈ [fmtInt c.sub.toInt, c.text, fmtInt c.iat.toInt, fmtInt c.exp.toInt, hexEncode sig],
      10 ∉ p := by
  have hplain : 10 ∉ c.text := by
    simp only [isNameOk, Bool.and_eq_true, List.all_eq_true] at hname
    exact fun hmem => absurd (hname.2 10 hmem) (by decide)
  have hint : ∀ v, 10 ∉ fmtInt v := fun v => notMem_fmtInt rfl (by decide)
  simp [hplain, hint, notMem_hexEncode]

theorem tokenVerify_minted (h : tokenMint mac outLen c secret = some tok) (now : Int64) :
    ∃ p : TokenParts, (p.sub = fmtInt c.sub.toInt ∧ p.name = c.text ∧ p.iat = fmtInt c.iat.toInt ∧
        p.exp = fmtInt c.exp.toInt) ∧ isNameOk c.text = true ∧
      tokenVerify mac tok secret now =
        match readClaims p with
        | none => .claims
        | some c => if now.toInt ≥ c.exp.toInt then .expired else .ok c := by
  obtain ⟨hsecret, ⟨-, hname⟩, ⟨hlen, -⟩, sig, hmac, rfl⟩ := tokenMint_eq_some.mp h
  have hsplit := splitToken_fields (fields_plain hname sig.toList) (length_hexEncode_mac sig)
  exact ⟨_, ⟨rfl, rfl, rfl, rfl⟩, hname, tokenVerify_signed hsecret hlen hsplit hmac rfl now⟩

/-- An accepted token is the one minted for its claims. The signature covers
the text of the claims, and each claim has one text that is accepted. -/
theorem tokenMint_accepted (h : tokenVerify mac tok secret now = .ok c) :
    tokenMint mac tokenMaxLen c secret = some tok := by
  obtain ⟨hsecret, hlen, p, sig, hsplit, hmac, hsig, hclaims⟩ := tokenVerify_ok h
  obtain ⟨⟨-, hsub⟩, ⟨-, hiat⟩, ⟨-, hexp⟩, hok, hname⟩ := readClaims_eq_some.mp hclaims
  obtain ⟨htok, hsigning, -⟩ := splitToken_inv hsplit
  obtain ⟨hterm, htext⟩ := cText_readName hok
  have hctext : c.text = p.name := by rw [TokenClaims.text, hname, htext]
  have hcsigning : c.signing = p.signing := by
    rw [TokenClaims.signing, hsigning, hsub, hiat, hexp, hctext]
  refine tokenMint_eq_some.mpr ⟨hsecret, ⟨hname ▸ hterm, hctext ▸ hok⟩, ⟨hlen, hlen⟩, sig, ?_, ?_⟩
  · rw [hcsigning, hmac]
  · rw [hcsigning, ← hsig, htok]

/-- The claims are those that were minted; the array behind the name may
differ. -/
def TokenClaims.Same (c c' : TokenClaims) : Prop :=
  c'.sub = c.sub ∧ c'.text = c.text ∧ c'.iat = c.iat ∧ c'.exp = c.exp

/-- A token minted for claims that are not negative is accepted with these
claims until it expires, and is expired from then on. A token that is
accepted is the one minted for the claims it carries, so there is only one. -/
theorem tokens_say_what_was_minted (mac : Mac) (secret : Bytes) :
    (∀ c outLen tok, 0 ≤ c.sub.toInt ∧ 0 ≤ c.iat.toInt ∧ 0 ≤ c.exp.toInt →
      tokenMint mac outLen c secret = some tok → ∀ now : Int64,
      (now.toInt < c.exp.toInt → ∃ c', tokenVerify mac tok secret now = .ok c' ∧ c.Same c') ∧
      (c.exp.toInt ≤ now.toInt → tokenVerify mac tok secret now = .expired)) ∧
    (∀ tok now c, tokenVerify mac tok secret now = .ok c →
      tokenMint mac tokenMaxLen c secret = some tok) ∧
    ∀ tok tok' now now' c, tokenVerify mac tok secret now = .ok c →
      tokenVerify mac tok' secret now' = .ok c → tok = tok' := by
  refine ⟨fun c outLen tok hpos hmint now => ?_, fun tok now c h => tokenMint_accepted h,
    fun tok tok' now now' c h h' => ?_⟩
  · obtain ⟨p, ⟨hsub, hname, hiat, hexp⟩, hok, hverify⟩ := tokenVerify_minted hmint now
    have hclaims : readClaims p = some ⟨c.sub, readName c.text, c.iat, c.exp⟩ :=
      readClaims_eq_some.mpr ⟨⟨hpos.1, hsub⟩, ⟨hpos.2.1, hiat⟩, ⟨hpos.2.2, hexp⟩,
        hname ▸ hok, by rw [hname]⟩
    rw [hclaims] at hverify
    dsimp only at hverify
    constructor
    · intro hbefore
      rw [if_neg (by omega)] at hverify
      exact ⟨_, hverify, rfl, (cText_readName hok).2, rfl, rfl⟩
    · intro hafter
      rw [hverify, if_pos hafter]
  · exact Option.some.inj ((tokenMint_accepted h).symm.trans (tokenMint_accepted h'))

def claimsOfA (sub : Int64) : TokenClaims := ⟨sub, readName (bytes "a"), 1, 60⟩

def zeroMac : Mac := fun _ _ => some (Vector.replicate 32 0)

theorem tokens_say_what_was_minted_a :
    ∃ tok, tokenMint zeroMac 256 (claimsOfA 7) (List.replicate 32 0) = some tok ∧
      tokenVerify zeroMac tok (List.replicate 32 0) 60 = .expired := by
  have hmint : ∃ tok, tokenMint zeroMac 256 (claimsOfA 7) (List.replicate 32 0) = some tok :=
    Option.isSome_iff_exists.mp (by decide +kernel)
  obtain ⟨tok, hmint⟩ := hmint
  exact ⟨tok, hmint, (((tokens_say_what_was_minted zeroMac (List.replicate 32 0)).1 (claimsOfA 7)
    256 tok (by decide) hmint 60).2 (by decide))⟩

/-- A negative claim is minted and never accepted. -/
theorem negative_claim_refused :
    ∃ tok, tokenMint zeroMac 256 (claimsOfA (-1)) (List.replicate 32 0) = some tok ∧
      tokenVerify zeroMac tok (List.replicate 32 0) 59 = .claims := by
  refine ⟨fieldsText (bytes "-1") (bytes "a") (bytes "1") (bytes "60") ++ List.replicate 64 48,
    ?_, ?_⟩
  · decide +kernel
  · decide +kernel

end Corestack.Core
