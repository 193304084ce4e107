import Corestack.Core.Auth

/-!
# Messages between a session and the admin thread (`adminmsg.h`, `session.c`)

An `AdminMsg` is a fixed-size record of which each type uses a few fields
and leaves the others zero, so a message is its type with those fields.
Also here: how a session process reads room and player numbers out of a
request path, since the number of a JOIN is whatever that accepts.
-/

namespace Corestack.Tetrisd

open Lib
open Corestack.Core (UserName)

/-! ## Limits and statuses -/

-- Nothing depends on the three table sizes, so proofs need not compute with them.
@[irreducible] def maxSessions : Nat := 1024
@[irreducible] def maxRooms : Nat := 1024
@[irreducible] def maxRoomMembers : Nat := 1024
abbrev maxStandings : Nat := 8

abbrev roomNone : Int := -1

abbrev rejectNotOwner : Int := 403
abbrev rejectConflict : Int := 409
abbrev rejectFull : Int := 429

/-! ## What travels -/

inductive SessionPhase where
  | none
  | idle
  | waiting
  | playing
  | gameOver
  | disconnected
deriving DecidableEq, Repr

structure RoomMember where
  playerId : Int
  name : UserName
  isOwner : Bool
deriving DecidableEq

/-- The all-zero row of a `memset`. -/
def RoomMember.zero : RoomMember := ⟨0, CStr.copy _ [], false⟩

/-- `roster` is the whole array: the rows past `rosterCount` are sent too. -/
structure SessionState where
  phase : SessionPhase
  roomId : Int
  playerId : Int
  isOwner : Bool
  roster : List RoomMember
  rosterCount : Nat
deriving DecidableEq

structure PlayerStanding where
  playerId : Int
  name : UserName
  score : Int
  lines : Int
  gameOver : Bool
deriving DecidableEq

inductive AdminMsg where
  | join (roomId : Int) (name : UserName)
  | leave
  | start
  | garbage (lines : Int)
  | gameover (score : Int)
  | session (state : SessionState) (created : Bool)
  | seed (seed : Nat)
  | recvGarbage (lines : Int)
  | result (winner : Int)
  | reject (reason : Int)
  | score (score lines : Int)
  | standings (standings : List PlayerStanding)
deriving DecidableEq

/-! ## Numbers in a path -/

/-- `sscanf`'s `%d`: blanks and a sign are taken, and a number outside an
`int` keeps its low 32 bits. -/
def scanInt (s : Bytes) : Option (Int × Bytes) :=
  let (v, rest) := strtol s
  if rest.length = s.length then none else some (toInt32 v, rest)

/-- Literal text of a `sscanf` format. -/
def scanLit (lit s : Bytes) : Option Bytes :=
  if lit.isPrefixOf s then some (s.drop lit.length) else none

inductive RouteShape where
  | room
  | roomPlayer
deriving DecidableEq, Repr

/-- `path_ids`: the room and player numbers of a path of the given shape,
which must be the whole path. -/
def pathIds (path : Bytes) : RouteShape → Option (Int × Int)
  | .room => do
      let rest ← scanLit (bytes "/room/") path
      let (room, rest) ← scanInt rest
      if rest = [] then some (room, -1) else none
  | .roomPlayer => do
      let rest ← scanLit (bytes "/room/") path
      let (room, rest) ← scanInt rest
      let rest ← scanLit (bytes "/player/") rest
      let (playerId, rest) ← scanInt rest
      if rest = [] then some (room, playerId) else none

/-- The messages a session process writes to the admin thread. The number
of a JOIN comes from the path of the request and is checked by nothing
else (`route_join`). -/
inductive AdminMsg.FromSession : AdminMsg → Prop
  | join {path : Bytes} {room playerId : Int} (name : UserName)
      (hpath : pathIds path .room = some (room, playerId)) : FromSession (.join room name)
  | leave : FromSession .leave
  | start : FromSession .start
  | garbage (lines : Int) : FromSession (.garbage lines)
  | gameover (score : Int) : FromSession (.gameover score)
  | score (score lines : Int) : FromSession (.score score lines)

end Corestack.Tetrisd
