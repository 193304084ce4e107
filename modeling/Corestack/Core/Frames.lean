import Corestack.Core.Tetrissh

/-!
# The frame stream stays in step

One end gives plaintexts to `session_send`; an attacker on the way alters
frames and inserts others; the other end calls `session_recv` again and
again. Every call consumes one frame, whatever the frame was and in
whatever pieces it came. Only a length above the limit ends this, and then
for good (`stream_in_step`).
-/

namespace Corestack.Core.Tetrissh

open List Lib

/-- A frame of at most `SESSION_MAX_FRAME` bytes: one that `session_send`
made of a plaintext, or one that was not made with the key. -/
inductive Frame where
  | genuine (plain token : Bytes)
  | forged (token : Bytes)
deriving DecidableEq

namespace Frame

def token : Frame → Bytes
  | genuine _ token => token
  | forged token => token

def wire (f : Frame) : Bytes := frame f.token

/-- The frame is what its constructor says. -/
structure Is (c : Crypto) (key : Bytes) (f : Frame) : Prop where
  fits : f.token.length ≤ sessionMaxFrame
  made : match f with
    | genuine plain token => c.Encrypts key plain token
    | forged token => ∀ plain, ¬ c.Encrypts key plain token

/-- What a receiver with this buffer gets from the frame: the result, the
buffer and the length. -/
def yields (f : Frame) (buf : Bytes) (len : Nat) : Code × Bytes × Nat :=
  match f with
  | genuine plain _ =>
    if plain.length > len then (.noSpace, buf, len)
    else (.ok, plain ++ buf.drop plain.length, plain.length)
  | forged _ => (.crypto, buf, len)

end Frame

variable (c : Crypto) (w : Wire)

/-! ## Sending -/

def sentFrame (key : Bytes) (x : Option Bytes × Bytes) : Option Frame := do
  let token ← c.sessionEncrypt key x.1 x.2
  if x.2.length ≤ sessionMaxFrame ∧ token.length ≤ sessionMaxFrame then some (.genuine x.2 token)
  else none

/-- Plaintexts given to `session_send` one after the other, each with the
random bytes of its call. -/
def sendMany (s : Session) (xs : List (Option Bytes × Bytes)) (sock : Socket) : Socket :=
  xs.foldl (fun sock x => (sessionSend c w s x.1 x.2 sock).2) sock

section Sending

variable {c w} {s : Session} (hw : w.Works) (hs : s.established = true)
include hw hs

/-- A call writes the whole frame and succeeds, or it writes nothing and
fails. -/
theorem sessionSend_eq (x : Option Bytes × Bytes) (sock : Socket) :
    ((sessionSend c w s x.1 x.2 sock).1 = .ok ↔ (sentFrame c s.key x).isSome) ∧
    (sessionSend c w s x.1 x.2 sock).2.outbox =
      sock.outbox ++ (sentFrame c s.key x).toList.flatMap Frame.wire := by
  obtain ⟨iv, plain⟩ := x
  simp only [sessionSend, sentFrame, hs, not_true_eq_false, if_false]
  by_cases hplain : plain.length ≤ sessionMaxFrame
  · rw [if_neg (by omega)]
    cases htoken : c.sessionEncrypt s.key iv plain with
    | none => simp
    | some token =>
      by_cases hlen : token.length ≤ sessionMaxFrame
      · obtain ⟨k, hk⟩ := @sendLoop_eq w hw _ (u32Bytes token.length.toUInt32) sock le_rfl
        obtain ⟨k', hk'⟩ := @sendLoop_eq w hw _ token
          { sock with outbox := sock.outbox ++ u32Bytes token.length.toUInt32, sends := k } le_rfl
        dsimp only
        rw [if_neg (by omega), sendAll, hk]
        dsimp only
        rw [sendAll, hk']
        simp [hplain, hlen, Frame.wire, Frame.token, frame]
      · dsimp only
        rw [if_pos (by omega)]
        simp [hlen]
  · rw [if_pos (by omega)]
    cases c.sessionEncrypt s.key iv plain with
    | none => simp
    | some token => simp [hplain]

theorem sendMany_outbox (xs : List (Option Bytes × Bytes)) (sock : Socket) :
    (sendMany c w s xs sock).outbox =
      sock.outbox ++ (xs.filterMap (sentFrame c s.key)).flatMap Frame.wire := by
  induction xs generalizing sock with
  | nil => simp [sendMany]
  | cons x xs ih =>
    have hrest := ih (sessionSend c w s x.1 x.2 sock).2
    rw [(sessionSend_eq hw hs x sock).2] at hrest
    rw [show sendMany c w s (x :: xs) sock =
      sendMany c w s xs (sessionSend c w s x.1 x.2 sock).2 from rfl, hrest]
    cases hx : sentFrame c s.key x <;> simp [hx]

end Sending

theorem sentFrame_is {c : Crypto} {key : Bytes} {x : Option Bytes × Bytes} {f : Frame}
    (hiv : ∀ iv ∈ x.1, iv.length = aesIvLen) (h : sentFrame c key x = some f) : f.Is c key := by
  obtain ⟨iv?, plain⟩ := x
  simp only [sentFrame, Option.bind_eq_bind, Option.bind_eq_some_iff] at h
  obtain ⟨token, htoken, h⟩ := h
  split at h
  next hlen =>
    obtain rfl : Frame.genuine plain token = f := Option.some.inj h
    cases iv? with
    | none => cases htoken
    | some iv => exact ⟨hlen.2, iv, hiv iv rfl, htoken⟩
  next => cases h

/-! ## On the way -/

/-- What an attacker makes of the frames sent, keeping lengths and tokens
together. A frame they insert may be one they recorded. -/
inductive Tampered (key : Bytes) : List Frame → List Frame → Prop
  | done : Tampered key [] []
  | untouched {sent arriving} (f : Frame) (h : Tampered key sent arriving) :
      Tampered key (f :: sent) (f :: arriving)
  | altered {sent arriving} (f : Frame) {token : Bytes}
      (hg : (Frame.forged token).Is c key) (h : Tampered key sent arriving) :
      Tampered key (f :: sent) (.forged token :: arriving)
  | inserted {sent arriving} {g : Frame} (hg : g.Is c key) (h : Tampered key sent arriving) :
      Tampered key sent (g :: arriving)

theorem Tampered.is {c : Crypto} {key : Bytes} {sent arriving : List Frame}
    (h : Tampered c key sent arriving) (hsent : ∀ f ∈ sent, f.Is c key) :
    ∀ f ∈ arriving, f.Is c key := by
  induction h with
  | done => exact hsent
  | untouched f h ih =>
    intro g hg
    rcases mem_cons.mp hg with rfl | hg
    · exact hsent _ mem_cons_self
    · exact ih (fun f hf => hsent f (mem_cons_of_mem _ hf)) g hg
  | altered f hforged h ih =>
    intro g hg
    rcases mem_cons.mp hg with rfl | hg
    · exact hforged
    · exact ih (fun f hf => hsent f (mem_cons_of_mem _ hf)) g hg
  | inserted hg' h ih =>
    intro g hg
    rcases mem_cons.mp hg with rfl | hg
    · exact hg'
    · exact ih hsent g hg

/-! ## Receiving -/

/-- `session_recv` called once for each buffer. -/
def recvMany : Session → Socket → List (Bytes × Nat) → List Received
  | _, _, [] => []
  | s, sock, (buf, len) :: bufs =>
    let r := sessionRecv c w s buf len sock
    r :: recvMany r.session r.sock bufs

/-- The calls went frame by frame: each gave what its frame yields, left the
session as it was and stopped before the next frame. -/
def InStep (s : Session) (tail : Bytes) : List Frame → List (Bytes × Nat) → List Received → Prop
  | [], [], [] => True
  | f :: fs, (buf, len) :: bufs, r :: rs =>
    (r.code, r.buf, r.len) = f.yields buf len ∧ r.session = s ∧
    r.sock.inbox = fs.flatMap Frame.wire ++ tail ∧ InStep s tail fs bufs rs
  | _, _, _ => False

section Receiving

variable {c w} {s : Session} {sock : Socket} (hw : w.Works) (hs : s.established = true)
  (hlive : s.recvDead = false)
include hw hs hlive

/-- A frame of an allowed length is consumed, and what comes of it depends
on its token alone. -/
theorem sessionRecv_frame {token rest : Bytes} (hfits : token.length ≤ sessionMaxFrame)
    (hin : sock.inbox = frame token ++ rest) (buf : Bytes) (len : Nat) :
    ∃ k, sessionRecv c w s buf len sock =
      match c.sessionDecrypt s.key token with
      | none => ⟨.crypto, buf, len, s, { sock with inbox := rest, recvs := k }⟩
      | some plain =>
        if plain.length > len then
          ⟨.noSpace, buf, len, s, { sock with inbox := rest, recvs := k }⟩
        else
          ⟨.ok, plain ++ buf.drop plain.length, plain.length, s,
            { sock with inbox := rest, recvs := k }⟩ := by
  have hnat : token.length.toUInt32.toNat = token.length := by
    exact Nat.mod_eq_of_lt (lt_of_le_of_lt hfits (by decide))
  obtain ⟨k, hk⟩ := readU32_eq hw hin
  obtain ⟨k', hk'⟩ := @readBytes_eq w hw token rest
    { sock with inbox := token ++ rest, recvs := k } rfl
  refine ⟨k', ?_⟩
  rw [sessionRecv, if_neg (by simp [hs, hlive]), hk]
  dsimp only
  rw [hnat, if_neg (by omega)]
  exact hk' ▸ rfl

/-- An oversize length kills the receiving side before the body is read. The
caller's buffer and length stay as they were. -/
theorem sessionRecv_oversize {n : UInt32} {rest : Bytes} (hn : sessionMaxFrame < n.toNat)
    (hin : sock.inbox = u32Bytes n ++ rest) (buf : Bytes) (len : Nat) :
    ∃ k, sessionRecv c w s buf len sock =
      ⟨.tooBig, buf, len, { s with recvDead := true },
        { sock with inbox := rest, recvs := k }⟩ := by
  obtain ⟨k, hk⟩ := readU32_eq hw hin
  refine ⟨k, ?_⟩
  rw [sessionRecv, if_neg (by simp [hs, hlive]), hk]
  dsimp only
  rw [if_pos hn]

theorem sessionRecv_yields (hseal : c.Seals s.key) {f : Frame} (hf : f.Is c s.key) {rest : Bytes}
    (hin : sock.inbox = f.wire ++ rest) (buf : Bytes) (len : Nat) :
    let r := sessionRecv c w s buf len sock
    (r.code, r.buf, r.len) = f.yields buf len ∧ r.session = s ∧ r.sock.inbox = rest := by
  obtain ⟨k, hk⟩ := @sessionRecv_frame c w s sock hw hs hlive f.token rest hf.fits hin buf len
  rw [hk]
  cases f with
  | genuine plain token =>
    rw [show (Frame.genuine plain token).token = token from rfl, hseal.inverts _ _ hf.made]
    dsimp only [Frame.yields]
    split <;> exact ⟨rfl, rfl, rfl⟩
  | forged token =>
    rw [show (Frame.forged token).token = token from rfl, hseal.rejects _ hf.made]
    exact ⟨rfl, rfl, rfl⟩

theorem recvMany_inStep (hseal : c.Seals s.key) {fs : List Frame} (hfs : ∀ f ∈ fs, f.Is c s.key)
    {tail : Bytes} {bufs : List (Bytes × Nat)} (hbufs : bufs.length = fs.length)
    (hin : sock.inbox = fs.flatMap Frame.wire ++ tail) :
    InStep s tail fs bufs (recvMany c w s sock bufs) := by
  induction fs generalizing bufs sock with
  | nil =>
    obtain rfl := length_eq_zero_iff.mp hbufs
    trivial
  | cons f fs ih =>
    obtain ⟨⟨buf, len⟩, bufs, rfl⟩ := exists_cons_of_length_eq_add_one hbufs
    rw [flatMap_cons, append_assoc] at hin
    obtain ⟨hout, hsession, hrest⟩ :=
      sessionRecv_yields hw hs hlive hseal (hfs f mem_cons_self) hin buf len
    refine ⟨hout, hsession, hrest, ?_⟩
    rw [hsession]
    exact ih (fun g hg => hfs g (mem_cons_of_mem _ hg))
      (by simpa using hbufs) hrest

end Receiving

theorem recvMany_dead {s : Session} (hdead : s.recvDead = true) (sock : Socket)
    (bufs : List (Bytes × Nat)) :
    recvMany c w s sock bufs = bufs.map fun b => ⟨.proto, b.1, b.2, s, sock⟩ := by
  induction bufs with
  | nil => rfl
  | cons b bufs ih =>
    have hr : sessionRecv c w s b.1 b.2 sock = ⟨.proto, b.1, b.2, s, sock⟩ := by
      rw [sessionRecv, if_pos (.inr hdead)]
    rw [recvMany, hr, map_cons, ih]

/-- The frames sent leave whole and in order; whatever an attacker makes of
them, each call of `session_recv` consumes one frame and gives what that
frame yields; and a call that meets an oversize length delivers nothing, as
does every call after it, while `session_send` works as before. -/
theorem stream_in_step (c : Crypto) (w w' : Wire) (hw : w.Works) (hw' : w'.Works)
    (s peer : Session) (hs : s.established = true) (hlive : s.recvDead = false)
    (hpeer : peer.established = true) (hkey : peer.key = s.key) (hseal : c.Seals s.key)
    (xs : List (Option Bytes × Bytes)) (hiv : ∀ x ∈ xs, ∀ iv ∈ x.1, iv.length = aesIvLen)
    (out : Socket) (arriving : List Frame)
    (hway : Tampered c s.key (xs.filterMap (sentFrame c s.key)) arriving)
    (tail : Bytes) (sock : Socket) (hin : sock.inbox = arriving.flatMap Frame.wire ++ tail)
    (bufs : List (Bytes × Nat)) (hbufs : bufs.length = arriving.length) :
    (sendMany c w' peer xs out).outbox =
      out.outbox ++ (xs.filterMap (sentFrame c s.key)).flatMap Frame.wire ∧
    InStep s tail arriving bufs (recvMany c w s sock bufs) ∧
    ∀ (n : UInt32) (rest : Bytes) (sock : Socket), sessionMaxFrame < n.toNat →
      sock.inbox = u32Bytes n ++ rest → ∀ buf len,
        let r := sessionRecv c w s buf len sock
        (r.code, r.buf, r.len) = (.tooBig, buf, len) ∧
        (∀ later, recvMany c w r.session r.sock later =
          later.map fun b => ⟨.proto, b.1, b.2, r.session, r.sock⟩) ∧
        ∀ x : Option Bytes × Bytes,
          ((sessionSend c w r.session x.1 x.2 r.sock).1 = .ok ↔ (sentFrame c s.key x).isSome) ∧
          (sessionSend c w r.session x.1 x.2 r.sock).2.outbox =
            r.sock.outbox ++ (sentFrame c s.key x).toList.flatMap Frame.wire := by
  refine ⟨hkey ▸ sendMany_outbox hw' hpeer xs out, ?_, ?_⟩
  · refine recvMany_inStep hw hs hlive hseal (hway.is fun f hf => ?_) hbufs hin
    obtain ⟨x, hx, hxf⟩ := mem_filterMap.mp hf
    exact sentFrame_is (hiv x hx) hxf
  · intro n rest sock hn hin buf len
    obtain ⟨k, hk⟩ := @sessionRecv_oversize c w s sock hw hs hlive n rest hn hin buf len
    rw [hk]
    refine ⟨rfl, fun later => recvMany_dead c w rfl _ later, fun x => ?_⟩
    exact @sessionSend_eq c w { s with recvDead := true } hw hs x _

section Inputs

def openCrypto : Crypto where
  cbcEncrypt := fun _ _ plain => some (List.replicate aesBlock 0 ++ plain)
  cbcDecrypt := fun _ _ ct =>
    if ct.take aesBlock = List.replicate aesBlock 0 then some (ct.drop aesBlock) else none
  hmac := fun _ _ => some (List.replicate hmacLen 0)

theorem lawful_openCrypto : openCrypto.Lawful where
  inverse := by
    intro k iv plain ct
    simp only [openCrypto, Option.some.injEq, Option.ite_none_right_eq_some]
    constructor
    · rintro ⟨hpad, rfl⟩
      rw [← hpad, take_append_drop]
    · rintro rfl
      refine ⟨take_left' length_replicate, drop_left' length_replicate⟩
  block := by
    intro k iv plain ct h
    obtain rfl := Option.some.inj h
    rw [length_append, length_replicate]
    exact Nat.le_add_right ..
  mac := by
    intro k msg mac h
    obtain rfl := Option.some.inj h
    exact length_replicate

theorem forged_nil (key : Bytes) : (Frame.forged []).Is openCrypto key where
  fits := by decide
  made := by
    rintro plain ⟨iv, hiv, h⟩
    have hlen := congrArg List.length (Option.some.inj h)
    simp [hmacLen] at hlen

def slowWire : Wire := ⟨fun _ => some 1, fun _ => some 1⟩

def bothEnds : Session := ⟨List.replicate 32 7, true, false⟩

/-- One greeting is sent and an empty frame inserted before it; an oversize
length follows. -/
theorem stream_in_step_empty_frame :
    let token := List.replicate 32 0 ++ bytes "hi" ++ List.replicate 32 0
    let room : Bytes × Nat := (List.replicate 8 0, 8)
    InStep bothEnds (u32Bytes 65537) [.forged [], .genuine (bytes "hi") token] [room, room]
      (recvMany openCrypto slowWire bothEnds
        ⟨frame [] ++ (frame token ++ u32Bytes 65537), [], 0, 0⟩ [room, room]) := by
  refine (stream_in_step openCrypto slowWire slowWire ⟨by simp [slowWire], by simp [slowWire]⟩
    ⟨by simp [slowWire], by simp [slowWire]⟩ bothEnds bothEnds rfl rfl rfl rfl
    lawful_openCrypto.seals [(some (List.replicate 16 0), bytes "hi")] (by simp [aesIvLen])
    ⟨[], [], 0, 0⟩ _ ?_ _ _ ?_ _ rfl).2.1
  · exact .inserted (forged_nil _) (.untouched _ .done)
  · simp [Frame.wire, Frame.token]

end Inputs

end Corestack.Core.Tetrissh
