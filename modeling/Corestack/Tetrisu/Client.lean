import Corestack.Core.Tetrissh
import Corestack.Lib.Image
import Corestack.Tetrisd.Message

/-!
# The connection of a client (`tetrisu/net.c`)

What `tetrisu` knows, the commands it sends and what it makes of the frames
it receives. A struct that arrives as the body of a frame is kept as the
memory that `memcpy` fills, its fields at their places on a 64-bit machine.
A call of `session_recv` is the code it returns and the frame it leaves in
`rxbuf`; the descriptor of the connection is all that is kept of the
transport.
-/

namespace Corestack.Tetrisu

open Lib Corestack.Core Core.Tetrissh Tetrisd

/-! ## The structs on the wire -/

abbrev sizeofSessionState : Nat := 212
abbrev sizeofGameState : Nat := 1384
abbrev sizeofHistory : Nat := 100

abbrev SessionImage := Image sizeofSessionState
abbrev GameImage := Image sizeofGameState

def SessionImage.phase (s : SessionImage) : Int := Image.int s 0
def SessionImage.roomId (s : SessionImage) : Int := Image.int s 4
def SessionImage.playerId (s : SessionImage) : Int := Image.int s 8
def GameImage.gameOver (g : GameImage) : Bool := Image.bool g 1112

def SessionImage.setRoomId (s : SessionImage) (room : Int) : SessionImage :=
  Image.setInt s 4 room (by decide)

theorem SessionImage.roomId_setRoomId (s : SessionImage) {room : Int} (h : IsInt32 room) :
    SessionImage.roomId (SessionImage.setRoomId s room) = room :=
  (Image.int_setInt s room (by decide)).trans (toInt32_eq_self h)

/-- The values of `SessionPhase`. -/
def phaseCode : SessionPhase → Int
  | .none => 0
  | .idle => 1
  | .waiting => 2
  | .playing => 3
  | .gameOver => 4
  | .disconnected => 5

/-! ## What the client knows -/

inductive ClientPhase where
  | disconnected
  | connected
  | waiting
  | playing
  | gameOver
deriving DecidableEq, Repr

inductive AuthMethod where
  | none
  | login
  | register
  | guest
deriving DecidableEq, Repr

inductive ClientEvent where
  | none
  | game
  | session
  | result
  | reject
  | disconnect
  | history
  | authOk
  | authReply
deriving DecidableEq, Repr

structure Client where
  fd : Int
  phase : ClientPhase
  roomReq : Int
  assumeOwner : Bool
  session : SessionImage
  haveSession : Bool
  game : GameImage
  haveGame : Bool
  lastReject : Int
  lastWinner : Int
  history : Image sizeofHistory
  haveHistory : Bool
  framesSeen : UInt32
  authFailures : Int
  authRefusedLast : Bool
  authPending : AuthMethod
  authReply : AuthMethod
  reconnectOk : Bool
deriving DecidableEq

/-! ## Commands -/

def ctCommand : Bytes := bytes "application/tetris-command"

def authPath : Bytes := bytes "/auth"

/-- `htttp_header_set` whose result is ignored. -/
def setHeader (headers : List HtttpHeader) (key value : Bytes) : List HtttpHeader :=
  (htttpHeaderSet headers key value).toOption.getD headers

theorem length_setHeader_le (headers : List HtttpHeader) (key value : Bytes) :
    (setHeader headers key value).length ≤ headers.length + 1 := by
  unfold setHeader htttpHeaderSet
  split
  · exact Nat.le_succ _
  split
  · exact Nat.le_succ _
  split
  · exact Nat.le_succ _
  · cases (copyToken htttpMaxKey key).mapError fun _ => HtttpErr.tooLong with
    | error e => exact Nat.le_succ _
    | ok key =>
      cases (copyToken htttpMaxValue value).mapError fun _ => HtttpErr.tooLong with
      | error e => exact Nat.le_succ _
      | ok value =>
        show (headers ++ [_]).length ≤ _
        rw [List.length_append, List.length_singleton]

/-- The request of `send_cmd`. -/
def commandRequest (c : Client) (method path body : Bytes) : HtttpRequest :=
  let typed := if body = [] then [] else setHeader [] (bytes "Content-Type") ctCommand
  let named := if path = authPath then typed
    else setHeader typed (bytes "Player-Id") (fmtInt c.session.playerId)
  { method := CStr.copy _ method
    path := CStr.copy _ path
    headers := named
    body := body
    headers_le := by
      have htyped : typed.length ≤ 1 := by
        unfold typed
        split
        · exact Nat.zero_le _
        · exact length_setHeader_le [] _ _
      have hnamed : named.length ≤ typed.length + 1 := by
        unfold named
        split
        · exact Nat.le_succ _
        · exact length_setHeader_le typed _ _
      show named.length ≤ 32
      omega }

abbrev htttpMaxFrame : Nat := 64 * 1024

/-- `send_cmd`; `sends` says whether `session_send` takes a frame. -/
def sendCmd (sends : Bytes → Bool) (c : Client) (method path body : Bytes) : Int :=
  if c.fd < 0 then -1
  else
    match htttpSerializeRequest (commandRequest c method path body) htttpMaxFrame with
    | .error _ => -1
    | .ok out => if sends out then 0 else -1

def roomPath (room : Int) : Bytes := (CStr.copy htttpMaxPath (bytes "/room/" ++ fmtInt room)).val

def clientLeave (sends : Bytes → Bool) (c : Client) : Int × Client :=
  let path := roomPath (if c.haveSession then c.session.roomId else c.roomReq)
  (sendCmd sends c (bytes "LEAVE") path [],
    { c with
      phase := .connected
      roomReq := 0
      assumeOwner := false
      session := SessionImage.setRoomId c.session roomNone
      haveGame := false })

/-! ## Frames -/

/-- What `net_service` tells apart. -/
inductive Frame where
  | response (status : Nat)
  | state (body : GameImage)
  | session (body : SessionImage)
  | result (winner : Int)
  | history (body : Image sizeofHistory)
  | other
deriving DecidableEq

/-- A pushed request, whose body has to be exactly its struct. -/
def readPush (req : HtttpRequest) : Frame :=
  if req.method.val = bytes "STATE" then
    match Image.ofBytes sizeofGameState req.body with
    | none => .other
    | some body => .state body
  else if req.method.val = bytes "UPD_SESSION" then
    match Image.ofBytes sizeofSessionState req.body with
    | none => .other
    | some body => .session body
  else if req.method.val = bytes "UPD_RESULT" then
    match Image.ofBytes 4 req.body with
    | none => .other
    | some winner => .result (winner.int 0)
  else if req.method.val = bytes "UPD_HISTORY" then
    match Image.ofBytes sizeofHistory req.body with
    | none => .other
    | some body => .history body
  else .other

/-- A frame is a response if it parses as one, and else a request. -/
def readFrame (buf : Bytes) : Frame :=
  match htttpParseResponse buf with
  | .ok res => .response res.status
  | .error _ =>
    match htttpParseRequest buf with
    | .ok req => readPush req
    | .error _ => .other

/-! ## Receiving -/

def clearAuth (c : Client) : Client :=
  { c with authFailures := 0, authRefusedLast := false, authPending := .none, authReply := .none }

/-- The arm of `net_service` for a response. -/
def takeResponse (c : Client) (status : Nat) : ClientEvent × Client :=
  if 200 ≤ status ∧ status < 300 ∧ c.authPending = .none then (.none, c)
  else
    let c := { c with lastReject := status }
    if c.authPending ≠ .none then (.authReply, c) else (.reject, c)

/-- The arm for STATE: a board is dropped while the client is in no room. -/
def takeState (c : Client) (body : GameImage) : ClientEvent × Client :=
  if c.session.roomId = roomNone then (.none, c)
  else
    let c := { c with game := body, haveGame := true, framesSeen := c.framesSeen + 1 }
    let c := if c.phase = .waiting ∨ c.phase = .connected then { c with phase := .playing } else c
    let c := if GameImage.gameOver c.game then { c with phase := .gameOver } else c
    (.game, c)

/-- The phase that an UPD_SESSION leaves. -/
def sessionPhase (phase : ClientPhase) (code : Int) : ClientPhase :=
  if code = phaseCode .waiting then .waiting
  else if code = phaseCode .playing then .playing
  else if code = phaseCode .gameOver then .gameOver
  else if code = phaseCode .idle then .connected
  else phase

/-- The session is what arrived, and with it the phase. -/
def Client.withSession (c : Client) (body : SessionImage) (phase : ClientPhase) : Client :=
  { c with session := body, haveSession := true, phase := phase }

@[simp] theorem Client.withSession_phase (c : Client) (body : SessionImage) (phase : ClientPhase) :
    (c.withSession body phase).phase = phase := rfl

@[simp] theorem Client.withSession_haveGame (c : Client) (body : SessionImage)
    (phase : ClientPhase) : (c.withSession body phase).haveGame = c.haveGame := rfl

/-- The arm for UPD_SESSION. -/
def takeSession (c : Client) (body : SessionImage) : ClientEvent × Client :=
  (.session, c.withSession body (sessionPhase c.phase (SessionImage.phase body)))

def netService (c : Client) (code : Code) (buf : Bytes) : ClientEvent × Client :=
  if code = .io ∨ code = .tooBig then (.disconnect, { c with phase := .disconnected })
  else if code ≠ .ok then (.none, c)
  else
    match readFrame buf with
    | .response status => takeResponse c status
    | .state body => takeState c body
    | .session body => takeSession c body
    | .result winner => (.result, { c with lastWinner := winner })
    | .history body => (.history, { c with history := body, haveHistory := true })
    | .other => (.none, c)

def foldAuthReply (c : Client) : ClientEvent × Client :=
  let c := { c with authReply := c.authPending, authPending := .none }
  if 200 ≤ c.lastReject ∧ c.lastReject < 300 then (.authOk, { c with authRefusedLast := false })
  else
    (.reject, { c with authFailures := toInt32 (c.authFailures + 1), authRefusedLast := true })

def clientService (c : Client) (code : Code) (buf : Bytes) : ClientEvent × Client :=
  let possibleCap := c.authRefusedLast
  let (ev, c) := netService { c with authRefusedLast := false } code buf
  let (ev, c) := if ev = .authReply then foldAuthReply c else (ev, c)
  if ev = .disconnect then (ev, clearAuth { c with reconnectOk := possibleCap }) else (ev, c)

end Corestack.Tetrisu
