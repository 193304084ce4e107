import Corestack.Lib.Text

/-!
# Encrypted frames (`tetrissh.c`, `common.c`)

After the handshake both ends of a connection hold a session key and
exchange frames: a length of four bytes and a token, which is the
initialisation vector, the ciphertext and a MAC over both. `session_send`
writes one frame and `session_recv` reads one, through loops that take the
bytes in whatever pieces the socket moves. Allocations succeed here, and
`malloc(0)` gives a pointer.

The socket's calls, the random bytes and the primitives of OpenSSL are
parameters. What the frames need of the primitives is that decryption
inverts encryption and accepts nothing else (`Crypto.Seals`).
-/

namespace Corestack.Core.Tetrissh

open List Lib

/-! ## The socket -/

/-- What the `n`-th `recv` and the `n`-th `send` come to: at most so many
bytes moved (and at least one), or a failure. -/
structure Wire where
  recv : Nat → Option Nat
  send : Nat → Option Nat

/-- The wire moves bytes at every call. -/
structure Wire.Works (w : Wire) : Prop where
  recv : ∀ k, w.recv k ≠ none
  send : ∀ k, w.send k ≠ none

/-- One end of the connection: the bytes still to arrive, the bytes that
left, and how many calls were made. -/
structure Socket where
  inbox : Bytes
  outbox : Bytes
  recvs : Nat
  sends : Nat

/-- `recv`. Nothing left to arrive is the end of the stream, which like a
failure comes back as `none`. -/
def recv (w : Wire) (chunk : Nat) (sock : Socket) : Option Bytes × Socket :=
  match w.recv sock.recvs with
  | none => (none, { sock with recvs := sock.recvs + 1 })
  | some n =>
    let n := min chunk (max 1 n)
    (if sock.inbox = [] then none else some (sock.inbox.take n),
      { sock with inbox := sock.inbox.drop n, recvs := sock.recvs + 1 })

/-- The loop of `read_bytes`. Every round reads a byte at least, so `length`
rounds are enough. -/
def readLoop (w : Wire) (length : Nat) : Nat → Bytes → Socket → Option Bytes × Socket
  | 0, buffer, sock => (some buffer, sock)
  | rounds + 1, buffer, sock =>
    if buffer.length < length then
      match recv w (min (length - buffer.length) 1024) sock with
      | (none, sock) => (none, sock)
      | (some piece, sock) => readLoop w length rounds (buffer ++ piece) sock
    else (some buffer, sock)

def readBytes (w : Wire) (length : Nat) (sock : Socket) : Option Bytes × Socket :=
  readLoop w length length [] sock

/-- `send_all`: whether everything left, one round for each `send`. -/
def sendLoop (w : Wire) : Nat → Bytes → Socket → Bool × Socket
  | 0, _, sock => (true, sock)
  | rounds + 1, buf, sock =>
    if buf = [] then (true, sock)
    else
      match w.send sock.sends with
      | none => (false, { sock with sends := sock.sends + 1 })
      | some n =>
        sendLoop w rounds (buf.drop (max 1 n))
          { sock with outbox := sock.outbox ++ buf.take (max 1 n), sends := sock.sends + 1 }

def sendAll (w : Wire) (buf : Bytes) (sock : Socket) : Bool × Socket :=
  sendLoop w buf.length buf sock

section Socket

variable {w : Wire} (hw : w.Works)
include hw

theorem recv_some (chunk : Nat) {sock : Socket} (hne : sock.inbox ≠ []) :
    ∃ n, 1 ≤ n ∧ recv w chunk sock = (some (sock.inbox.take (min chunk n)),
      { sock with inbox := sock.inbox.drop (min chunk n), recvs := sock.recvs + 1 }) := by
  cases hn : w.recv sock.recvs with
  | none => exact absurd hn (hw.recv _)
  | some n =>
    refine ⟨max 1 n, le_max_left .., ?_⟩
    rw [recv, hn]
    dsimp only
    rw [if_neg hne]

/-- However the bytes are cut into pieces, the loop collects those it
wants and leaves the rest. -/
theorem readLoop_eq {length rounds : Nat} {buffer want rest : Bytes} {sock : Socket}
    (hlen : buffer.length + want.length = length) (hrounds : want.length ≤ rounds)
    (hin : sock.inbox = want ++ rest) :
    ∃ k, readLoop w length rounds buffer sock =
      (some (buffer ++ want), { sock with inbox := rest, recvs := k }) := by
  induction rounds generalizing buffer want sock with
  | zero =>
    obtain rfl : want = [] := length_eq_zero_iff.mp (by omega)
    refine ⟨sock.recvs, ?_⟩
    rw [readLoop, append_nil, ← nil_append rest, ← hin]
  | succ rounds ih =>
    rw [readLoop]
    by_cases hwant : want = []
    · subst hwant
      rw [if_neg (by simp at hlen; omega)]
      refine ⟨sock.recvs, ?_⟩
      rw [append_nil, ← nil_append rest, ← hin]
    · have hpos := length_pos_iff.mpr hwant
      rw [if_pos (by omega)]
      have hne : sock.inbox ≠ [] := by simp [hin, hwant]
      obtain ⟨n, hn, hr⟩ := recv_some hw (min (length - buffer.length) 1024) hne
      rw [hr]
      dsimp only
      -- one piece of `want` is in, and at least one byte of it
      set m := min (min (length - buffer.length) 1024) n
      have hm : m ≤ want.length := by omega
      have hsplit : sock.inbox.take m = want.take m ∧
          sock.inbox.drop m = want.drop m ++ rest := by
        rw [hin, take_append_of_le_length hm, drop_append_of_le_length hm]
        exact ⟨rfl, rfl⟩
      rw [hsplit.1]
      obtain ⟨k, hk⟩ := @ih (buffer ++ want.take m) (want.drop m)
        { sock with inbox := sock.inbox.drop m, recvs := sock.recvs + 1 }
        (by simp only [length_append, length_take, length_drop]; omega)
        (by simp only [length_drop]; omega) hsplit.2
      refine ⟨k, ?_⟩
      rw [hk, append_assoc, take_append_drop]

theorem readBytes_eq {want rest : Bytes} {sock : Socket} (hin : sock.inbox = want ++ rest) :
    ∃ k, readBytes w want.length sock =
      (some want, { sock with inbox := rest, recvs := k }) := by
  have hlen : ([] : Bytes).length + want.length = want.length := by simp
  obtain ⟨k, hk⟩ := readLoop_eq hw hlen le_rfl hin
  exact ⟨k, hk⟩

theorem sendLoop_eq {rounds : Nat} {buf : Bytes} {sock : Socket} (hrounds : buf.length ≤ rounds) :
    ∃ k, sendLoop w rounds buf sock =
      (true, { sock with outbox := sock.outbox ++ buf, sends := k }) := by
  induction rounds generalizing buf sock with
  | zero =>
    obtain rfl : buf = [] := length_eq_zero_iff.mp (by omega)
    refine ⟨sock.sends, ?_⟩
    rw [sendLoop, append_nil]
  | succ rounds ih =>
    rw [sendLoop]
    by_cases hbuf : buf = []
    · subst hbuf
      refine ⟨sock.sends, ?_⟩
      rw [if_pos rfl, append_nil]
    · rw [if_neg hbuf]
      cases hn : w.send sock.sends with
      | none => exact absurd hn (hw.send _)
      | some n =>
        obtain ⟨k, hk⟩ := @ih (buf.drop (max 1 n))
          { sock with
            outbox := sock.outbox ++ buf.take (max 1 n)
            sends := sock.sends + 1 }
          (by simp only [length_drop]; omega)
        refine ⟨k, ?_⟩
        dsimp only at hk ⊢
        rw [hk, append_assoc, take_append_drop]

end Socket

/-! ## Lengths on the wire -/

/-- `send_u32`: big-endian. -/
def u32Bytes (v : UInt32) : Bytes :=
  [(v >>> 24).toUInt8, (v >>> 16).toUInt8, (v >>> 8).toUInt8, v.toUInt8]

def u32OfBytes (buf : Bytes) : UInt32 :=
  ((buf.getD 0 0).toUInt32 <<< 24) ||| ((buf.getD 1 0).toUInt32 <<< 16) |||
    ((buf.getD 2 0).toUInt32 <<< 8) ||| (buf.getD 3 0).toUInt32

def readU32 (w : Wire) (sock : Socket) : Option UInt32 × Socket :=
  match readBytes w 4 sock with
  | (none, sock) => (none, sock)
  | (some buf, sock) => (some (u32OfBytes buf), sock)

theorem u32OfBytes_u32Bytes (v : UInt32) : u32OfBytes (u32Bytes v) = v := by
  apply UInt32.eq_of_toBitVec_eq
  simp only [u32OfBytes, u32Bytes, getD_cons_zero, getD_cons_succ, UInt32.toBitVec_or,
    UInt32.toBitVec_shiftLeft, UInt8.toBitVec_toUInt32, UInt32.toBitVec_toUInt8,
    UInt32.toBitVec_shiftRight]
  refine BitVec.eq_of_getLsbD_eq fun i hi => ?_
  interval_cases i <;> simp

theorem readU32_eq {w : Wire} (hw : w.Works) {v : UInt32} {rest : Bytes} {sock : Socket}
    (hin : sock.inbox = u32Bytes v ++ rest) :
    ∃ k, readU32 w sock = (some v, { sock with inbox := rest, recvs := k }) := by
  obtain ⟨k, hk⟩ := readBytes_eq hw hin
  refine ⟨k, ?_⟩
  rw [readU32, show (4 : Nat) = (u32Bytes v).length from rfl, hk]
  dsimp only
  rw [u32OfBytes_u32Bytes]

/-! ## Tokens -/

def aesIvLen : Nat := 16
def aesBlock : Nat := 16
def hmacKeyLen : Nat := 16
def hmacLen : Nat := 32

/-- The calls into OpenSSL: AES-128-CBC with padding, by key and
initialisation vector, and HMAC-SHA256. -/
structure Crypto where
  cbcEncrypt : Bytes → Bytes → Bytes → Option Bytes
  cbcDecrypt : Bytes → Bytes → Bytes → Option Bytes
  hmac : Bytes → Bytes → Option Bytes

namespace Crypto

variable (c : Crypto) (key : Bytes)

/-- `session_encrypt`, with what `RAND_bytes` gave. -/
def sessionEncrypt (iv : Option Bytes) (plain : Bytes) : Option Bytes := do
  let iv ← iv
  let ct ← c.cbcEncrypt (key.drop hmacKeyLen) iv plain
  let mac ← c.hmac (key.take hmacKeyLen) (iv ++ ct)
  some (iv ++ ct ++ mac)

def sessionDecrypt (token : Bytes) : Option Bytes :=
  if token.length < aesIvLen + aesBlock + hmacLen then none
  else
    let ctLen := token.length - aesIvLen - hmacLen
    let iv := token.take aesIvLen
    let ct := (token.drop aesIvLen).take ctLen
    let received := token.drop (aesIvLen + ctLen)
    match c.hmac (key.take hmacKeyLen) (token.take (aesIvLen + ctLen)) with
    | none => none
    | some computed =>
      if computed ≠ received then none else c.cbcDecrypt (key.drop hmacKeyLen) iv ct

/-- The token is what `session_encrypt` makes of the plaintext, for some
initialisation vector. -/
def Encrypts (plain token : Bytes) : Prop :=
  ∃ iv, iv.length = aesIvLen ∧ c.sessionEncrypt key (some iv) plain = some token

/-- `session_decrypt` inverts `session_encrypt` and rejects every other
byte string. -/
structure Seals : Prop where
  inverts : ∀ plain token, c.Encrypts key plain token → c.sessionDecrypt key token = some plain
  rejects : ∀ token, (∀ plain, ¬ c.Encrypts key plain token) → c.sessionDecrypt key token = none

/-- What AES and HMAC are: a bijection for each key and vector onto the
ciphertexts it accepts, none of them empty, and a function with 32 bytes of
output. -/
structure Lawful : Prop where
  inverse : ∀ k iv plain ct, c.cbcDecrypt k iv ct = some plain ↔ c.cbcEncrypt k iv plain = some ct
  block : ∀ k iv plain ct, c.cbcEncrypt k iv plain = some ct → aesBlock ≤ ct.length
  mac : ∀ k msg mac, c.hmac k msg = some mac → mac.length = hmacLen

variable {c key}

/-- Encrypting first and authenticating the result is enough for a token to
be accepted exactly if it was made with the key. -/
theorem Lawful.seals (h : c.Lawful) : c.Seals key where
  inverts := by
    rintro plain token ⟨iv, hiv, htoken⟩
    simp only [sessionEncrypt, Option.bind_eq_bind, Option.bind_some, Option.bind_eq_some_iff,
      Option.some.injEq] at htoken
    obtain ⟨ct, hct, mac, hmac, rfl⟩ := htoken
    have hblock := h.block _ _ _ _ hct
    have hlen := h.mac _ _ _ hmac
    have hctLen : (iv ++ ct ++ mac).length - aesIvLen - hmacLen = ct.length := by
      simp only [length_append]
      omega
    have hbody : aesIvLen + ct.length = (iv ++ ct).length := by rw [length_append, hiv]
    rw [sessionDecrypt, if_neg (by simp only [length_append]; omega)]
    dsimp only
    rw [hctLen, hbody, take_left, hmac, drop_left]
    dsimp only
    rw [if_neg (not_not_intro rfl), append_assoc, ← hiv, take_left, drop_left,
      take_left]
    exact (h.inverse _ _ _ _).mpr hct
  rejects := by
    intro token hno
    by_contra hsome
    obtain ⟨plain, hplain⟩ := Option.ne_none_iff_exists'.mp hsome
    rw [sessionDecrypt] at hplain
    split at hplain
    · cases hplain
    next hlen =>
      dsimp only at hplain
      split at hplain
      · cases hplain
      next mac hmac =>
        split at hplain
        · cases hplain
        next hsame =>
          refine hno plain ⟨token.take aesIvLen, by simp only [length_take]; omega, ?_⟩
          rw [not_not] at hsame
          have hct := (h.inverse _ _ _ _).mp hplain
          have hbody : token.take aesIvLen ++
              (token.drop aesIvLen).take (token.length - aesIvLen - hmacLen) =
                token.take (aesIvLen + (token.length - aesIvLen - hmacLen)) :=
            take_add.symm
          simp only [sessionEncrypt, Option.bind_eq_bind, Option.bind_some, hct, hbody, hmac,
            hsame, take_append_drop]

end Crypto

/-! ## Frames -/

def sessionMaxFrame : Nat := 64 * 1024

/-- `session_err_t`. -/
inductive Code where
  | ok
  | io
  | auth
  | crypto
  | tooBig
  | proto
  | noSpace
deriving DecidableEq, Repr

/-- `session_t`; the descriptor is passed as a `Socket`. -/
structure Session where
  key : Bytes
  established : Bool
  recvDead : Bool
deriving DecidableEq

def frame (token : Bytes) : Bytes := u32Bytes token.length.toUInt32 ++ token

variable (c : Crypto) (w : Wire)

/-- `session_send`, with what `RAND_bytes` gives it. -/
def sessionSend (s : Session) (iv : Option Bytes) (buf : Bytes) (sock : Socket) : Code × Socket :=
  if ¬ s.established then (.proto, sock)
  else if buf.length > sessionMaxFrame then (.tooBig, sock)
  else
    match c.sessionEncrypt s.key iv buf with
    | none => (.crypto, sock)
    | some message =>
      if message.length > sessionMaxFrame then (.tooBig, sock)
      else
        match sendAll w (u32Bytes message.length.toUInt32) sock with
        | (false, sock) => (.io, sock)
        | (true, sock) =>
          match sendAll w message sock with
          | (false, sock) => (.io, sock)
          | (true, sock) => (.ok, sock)

/-- What a call of `session_recv` leaves: its result, the caller's buffer
and length, and the session and the socket. -/
structure Received where
  code : Code
  buf : Bytes
  len : Nat
  session : Session
  sock : Socket

def sessionRecv (s : Session) (buf : Bytes) (len : Nat) (sock : Socket) : Received :=
  if ¬ s.established ∨ s.recvDead then ⟨.proto, buf, len, s, sock⟩
  else
    match readU32 w sock with
    | (none, sock) => ⟨.io, buf, len, s, sock⟩
    | (some tokenLen, sock) =>
      if tokenLen.toNat > sessionMaxFrame then
        ⟨.tooBig, buf, len, { s with recvDead := true }, sock⟩
      else
        match readBytes w tokenLen.toNat sock with
        | (none, sock) => ⟨.io, buf, len, s, sock⟩
        | (some token, sock) =>
          match c.sessionDecrypt s.key token with
          | none => ⟨.crypto, buf, len, s, sock⟩
          | some plain =>
            if plain.length > len then ⟨.noSpace, buf, len, s, sock⟩
            else ⟨.ok, plain ++ buf.drop plain.length, plain.length, s, sock⟩

end Corestack.Core.Tetrissh
