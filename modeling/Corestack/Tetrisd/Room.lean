import Corestack.Lib.Slots
import Corestack.Tetrisd.Message

/-!
# The room module of tetrisd (`room.c`)

The admin thread keeps two arrays: one slot per connected session and one
per room. A room lists the descriptors of its members, a session names its
room; the six message handlers and the two ends of a connection keep the
two views in step. A `Client *` or `Room *` of the source is a slot number
here. What the module writes is recorded in the order written, together
with the sessions whose socketpair was full; what the writes return and
the seeds drawn come from the environment. Log lines are left out.
-/

namespace Corestack.Tetrisd

open Lib
open Corestack.Core (UserName)

/-! ## The tables -/

structure Client where
  fd : Int
  pid : Int
  state : SessionState
  score : Int
  lines : Int
  name : UserName
deriving DecidableEq

/-- `members` is the part of the array in use, so its length is `count`. -/
structure Room where
  id : Int
  phase : SessionPhase
  seed : Nat
  nextPlayerId : Int
  members : List Int
  standingsDirty : Bool
  haveStandings : Bool
  lastStandings : List PlayerStanding
deriving DecidableEq

/-- What `adminmsg_write` returns. -/
inductive Written where
  | ok
  | gone
  | wouldBlock
deriving DecidableEq, Repr

/-- What the module cannot decide: the outcome of its `n`-th write and the
`n`-th number that `gen_seed` draws. -/
structure Env where
  write : Nat → Written
  genSeed : Nat → Nat

structure State where
  clients : Fin maxSessions → Client
  rooms : Fin maxRooms → Room
  inited : Bool
  seeds : Nat
  wedged : List Int
  sent : List (Int × AdminMsg)

def Client.zero : Client where
  fd := 0
  pid := 0
  state := ⟨.none, 0, 0, false, List.replicate maxStandings .zero, 0⟩
  score := 0
  lines := 0
  name := CStr.copy _ []

def Room.zero : Room := ⟨0, .none, 0, 0, [], false, false, []⟩

def State.zero : State where
  clients := fun _ => .zero
  rooms := fun _ => .zero
  inited := false
  seeds := 0
  wedged := []
  sent := []

namespace State

def setClient (s : State) (i : Fin maxSessions) (c : Client) : State :=
  { s with clients := Function.update s.clients i c }

def setRoom (s : State) (j : Fin maxRooms) (r : Room) : State :=
  { s with rooms := Function.update s.rooms j r }

def ensureInit (s : State) : State :=
  if s.inited then s
  else
    { s with
      clients := fun i => { s.clients i with fd := -1 }
      rooms := fun j => { s.rooms j with id := 0, members := [] }
      inited := true }

/-! ## Lookups -/

def clientFind (s : State) (fd : Int) : Option (Fin maxSessions) :=
  firstSlot s.clients fun c => c.fd = fd

/-- A recycled slot keeps its roster, its line count and its name. -/
def clientAlloc (s : State) (fd pid : Int) : Option State := do
  let i ← firstSlot s.clients fun c => c.fd < 0
  let c := s.clients i
  some (s.setClient i
    { c with
      fd := fd
      pid := pid
      state := { c.state with phase := .idle, roomId := roomNone, playerId := 0, isOwner := false }
      score := 0 })

def roomFind (s : State) (id : Int) : Option (Fin maxRooms) :=
  if id ≤ 0 then none else firstSlot s.rooms fun r => r.id = id

/-- `room_create`: number 0 asks for the smallest free one. Any other
number is used as it is. -/
def roomCreate (s : State) (id : Int) : Option (Fin maxRooms × State) := do
  let id := if id = 0 then firstUnused (fun cand => (s.roomFind cand).isSome) maxRooms 1 else id
  let j ← firstSlot s.rooms fun r => r.id = 0
  some (j, s.setRoom j
    { s.rooms j with
      id := id
      phase := .waiting
      seed := 0
      nextPlayerId := 0
      members := []
      standingsDirty := false
      haveStandings := false })

/-! ## Sending -/

def wedgedMax : Nat := 16

def markWedged (s : State) (fd : Int) : State :=
  if fd ∈ s.wedged then s
  else if s.wedged.length < wedgedMax then { s with wedged := s.wedged ++ [fd] }
  else s

def clientTakeWedged (s : State) : Option Int × State :=
  match s.wedged with
  | [] => (none, s)
  | fd :: rest => (some fd, { s with wedged := rest })

variable (env : Env)

/-- A session that does not drain its socketpair is noted for the admin
thread to drop. -/
def sendMsg (s : State) (fd : Int) (m : AdminMsg) : State :=
  let s' := { s with sent := s.sent ++ [(fd, m)] }
  if env.write s.sent.length = .wouldBlock then s'.markWedged fd else s'

theorem sendMsg_eq (s : State) (fd : Int) (m : AdminMsg) :
    ∃ wedged, s.sendMsg env fd m = { s with wedged := wedged, sent := s.sent ++ [(fd, m)] } := by
  unfold sendMsg markWedged
  dsimp only
  split
  · split
    · exact ⟨_, rfl⟩
    · split <;> exact ⟨_, rfl⟩
  · exact ⟨_, rfl⟩

def sendSessionEx (s : State) (i : Fin maxSessions) (created : Bool) : State :=
  s.sendMsg env (s.clients i).fd (.session (s.clients i).state created)

def sendSession (s : State) (i : Fin maxSessions) : State := s.sendSessionEx env i false

def sendReject (s : State) (i : Fin maxSessions) (reason : Int) : State :=
  s.sendMsg env (s.clients i).fd (.reject reason)

def roomBroadcast (s : State) (j : Fin maxRooms) (m : AdminMsg) : State :=
  (s.rooms j).members.foldl (fun s fd => s.sendMsg env fd m) s

/-- The loops over a room that work on the client record of each member,
where it has one. -/
def eachMember (s : State) (j : Fin maxRooms) (f : State → Fin maxSessions → State) : State :=
  (s.rooms j).members.foldl
    (fun s fd =>
      match s.clientFind fd with
      | none => s
      | some i => f s i)
    s

/-- The client records of the members of a room. -/
def memberClients (s : State) (j : Fin maxRooms) : List Client :=
  (s.rooms j).members.filterMap fun fd => (s.clientFind fd).map s.clients

end State

/-! ## Rosters and standings -/

/-- Insertion into an array of at most `cap` rows, behind those that go
before the new one. When the array is full its last row is dropped. -/
def insertBounded {α : Type} (cap : Nat) (before : α → α → Bool) (rows : List α) (x : α) :
    List α :=
  let pos := (rows.takeWhile fun r => before r x).length
  if cap ≤ pos then rows else (rows.take pos ++ x :: rows.drop pos).take cap

def Client.rosterRow (c : Client) : RoomMember where
  playerId := c.state.playerId
  name := CStr.copy _ c.name.val
  isOwner := c.state.isOwner

def Client.standing (c : Client) : PlayerStanding where
  playerId := c.state.playerId
  name := CStr.copy _ c.name.val
  score := c.score
  lines := c.lines
  gameOver := c.state.phase = .gameOver

/-- Higher score first, then the lower player number. -/
def standingRanksBefore (a b : PlayerStanding) : Bool :=
  if a.score ≠ b.score then a.score > b.score else a.playerId < b.playerId

namespace State

variable (env : Env)

def roster (s : State) (j : Fin maxRooms) : List RoomMember :=
  ((s.memberClients j).map Client.rosterRow).foldl
    (insertBounded maxStandings fun a b => a.playerId < b.playerId) []

def standings (s : State) (j : Fin maxRooms) : List PlayerStanding :=
  ((s.memberClients j).map Client.standing).foldl
    (insertBounded maxStandings standingRanksBefore) []

/-- `room_push_sessions_ex`: `creator` is the descriptor of the member whose
JOIN made the room. Only the rows in use are copied over a member's
roster. -/
def roomPushSessionsEx (s : State) (j : Fin maxRooms) (creator : Option Int) : State :=
  if (s.rooms j).id = 0 ∨ (s.rooms j).members = [] then s
  else
    let rows := s.roster j
    s.eachMember j fun s i =>
      let c := s.clients i
      let s := s.setClient i
        { c with
          state := { c.state with
            roster := rows ++ c.state.roster.drop rows.length
            rosterCount := rows.length } }
      s.sendSessionEx env i (creator = some c.fd)

def roomPushSessions (s : State) (j : Fin maxRooms) : State := s.roomPushSessionsEx env j none

def roomPushStandings (s : State) (j : Fin maxRooms) : State :=
  if (s.rooms j).id = 0 ∨ (s.rooms j).members = [] then s
  else
    let rows := s.standings j
    if (s.rooms j).haveStandings ∧ (s.rooms j).lastStandings = rows then s
    else
      let s := s.setRoom j { s.rooms j with lastStandings := rows, haveStandings := true }
      s.roomBroadcast env j (.standings rows)

def roomMarkStandingsDirty (s : State) (j : Fin maxRooms) : State :=
  s.setRoom j { s.rooms j with standingsDirty := true }

/-- The pass of `room_flush_updates` for one room. -/
def flushRoom (s : State) (j : Fin maxRooms) : State :=
  if (s.rooms j).standingsDirty then
    let s := s.setRoom j { s.rooms j with standingsDirty := false }
    if (s.rooms j).id ≠ 0 then s.roomPushStandings env j else s
  else s

def roomFlushUpdates (s : State) : State :=
  (List.finRange maxRooms).foldl (flushRoom env) s.ensureInit

/-! ## The end of a round -/

/-- The winner among finished members: the highest score above -1, then the
lowest player number. -/
def winner (members : List Client) : Int :=
  (members.foldl
    (fun (acc : Int × Int) m =>
      if m.score > acc.2 ∨ (m.score = acc.2 ∧ m.state.playerId < acc.1)
      then (m.state.playerId, m.score) else acc)
    (-1, -1)).1

/-- `room_check_round_end`: whether the round ended, and the state. -/
def roomCheckRoundEnd (s : State) (j : Fin maxRooms) : Bool × State :=
  if (s.rooms j).phase ≠ .playing then (false, s)
  else if (s.rooms j).members = [] then (false, s)
  else if (s.memberClients j).any (fun m => m.state.phase ≠ .gameOver) then (false, s)
  else
    let won := winner (s.memberClients j)
    let s := s.setRoom j { s.rooms j with standingsDirty := false }
    let s := s.roomPushStandings env j
    let s := s.roomBroadcast env j (.result won)
    let s := s.setRoom j { s.rooms j with phase := .waiting }
    (true, s.eachMember j fun s i =>
      let m := s.clients i
      s.setClient i { m with state := { m.state with phase := .waiting }, score := 0, lines := 0 })

/-! ## The handlers -/

/-- The part of `handle_join` from `room_add_member` on. -/
def joinRoom (s : State) (i : Fin maxSessions) (j : Fin maxRooms) (name : UserName)
    (created : Bool) : State :=
  let c := s.clients i
  let r := s.rooms j
  if maxRoomMembers ≤ r.members.length then s.sendReject env i rejectFull
  else
    let playerId := r.nextPlayerId
    let r := { r with
      members := r.members ++ [c.fd]
      nextPlayerId := toInt32 (r.nextPlayerId + 1) }
    let s := s.setRoom j r
    let s := s.setClient i
      { c with
        state := { c.state with
          roomId := r.id
          playerId := playerId
          isOwner := r.members.length = 1
          phase := .waiting }
        name :=
          if name.val ≠ [] then CStr.copy _ name.val
          else CStr.copy _ (bytes "Player " ++ fmtInt playerId)
        score := 0
        lines := 0 }
    let s := s.roomPushSessionsEx env j (if created then some c.fd else none)
    let s := s.setRoom j { s.rooms j with haveStandings := false }
    s.roomMarkStandingsDirty j

def handleJoin (s : State) (i : Fin maxSessions) (want : Int) (name : UserName) : State :=
  if (s.clients i).state.roomId ≠ roomNone then s.sendReject env i rejectConflict
  else
    match if want = 0 then none else s.roomFind want with
    | some j =>
      if (s.rooms j).phase = .playing then s.sendReject env i rejectConflict
      else s.joinRoom env i j name false
    | none =>
      match s.roomCreate want with
      | none => s.sendReject env i rejectFull
      | some (j, s) => s.joinRoom env i j name true

/-- What `handle_leave` and `client_close` do to the room once the member is
off its list: free it, or find it a new owner and see whether this ended
the round. -/
def roomLeft (s : State) (j : Fin maxRooms) (wasOwner : Bool) : State :=
  match (s.rooms j).members with
  | [] => s.setRoom j { s.rooms j with id := 0 }
  | first :: _ =>
    let s :=
      if wasOwner then
        match s.clientFind first with
        | none => s
        | some o =>
          let c := s.clients o
          s.setClient o { c with state := { c.state with isOwner := true } }
      else s
    let (roundEnded, s) := s.roomCheckRoundEnd env j
    let s := s.roomPushSessions env j
    if roundEnded then s else s.roomMarkStandingsDirty j

def roomDelMember (s : State) (j : Fin maxRooms) (fd : Int) : State :=
  s.setRoom j { s.rooms j with members := swapRemove (s.rooms j).members fd }

def handleLeave (s : State) (i : Fin maxSessions) : State :=
  let c := s.clients i
  if c.state.roomId = roomNone then s.sendSession env i
  else
    let room := s.roomFind c.state.roomId
    let s := match room with
      | none => s
      | some j => s.roomDelMember j c.fd
    let s := s.setClient i
      { c with
        state := { c.state with
          roomId := roomNone
          playerId := 0
          isOwner := false
          phase := .idle
          rosterCount := 0 }
        score := 0 }
    let s := s.sendSession env i
    match room with
    | none => s
    | some j => s.roomLeft env j c.state.isOwner

def handleStart (s : State) (i : Fin maxSessions) : State :=
  let c := s.clients i
  if c.state.roomId = roomNone then s.sendReject env i rejectConflict
  else if ¬ c.state.isOwner then s.sendReject env i rejectNotOwner
  else
    match s.roomFind c.state.roomId with
    | none => s.sendReject env i rejectConflict
    | some j =>
      if (s.rooms j).phase = .playing then s.sendReject env i rejectConflict
      else
        let seed := env.genSeed s.seeds
        let s := { s with seeds := s.seeds + 1 }
        let s := s.setRoom j { s.rooms j with seed := seed, phase := .playing }
        let s := s.eachMember j fun s i =>
          let m := s.clients i
          s.setClient i { m with state := { m.state with phase := .playing } }
        let s := s.roomBroadcast env j (.seed seed)
        s.roomMarkStandingsDirty j

/-- The target of garbage: the member with the highest score among the
others still playing, the first of them on a tie. A best score of -1
counts as none found yet. -/
def garbageTarget (s : State) (sender : Int) (members : List Int) : Option Int :=
  (members.foldl
    (fun (acc : Option Int × Int) fd =>
      if fd = sender then acc
      else
        match s.clientFind fd with
        | none => acc
        | some i =>
          let t := s.clients i
          if t.state.phase ≠ .playing then acc
          else if acc.2 = -1 ∨ t.score > acc.2 then (some fd, t.score)
          else acc)
    (none, -1)).1

def handleGarbage (s : State) (i : Fin maxSessions) (lines : Int) : State :=
  let c := s.clients i
  if c.state.roomId = roomNone then s
  else if lines ≤ 0 then s
  else
    match s.roomFind c.state.roomId with
    | none => s
    | some j =>
      match s.garbageTarget c.fd (s.rooms j).members with
      | none => s
      | some target => s.sendMsg env target (.recvGarbage lines)

def handleScore (s : State) (i : Fin maxSessions) (score lines : Int) : State :=
  let c := s.clients i
  if c.state.roomId = roomNone then s
  else if c.score = score ∧ c.lines = lines then s
  else
    let s := s.setClient i { c with score := score, lines := lines }
    match s.roomFind c.state.roomId with
    | none => s
    | some j => s.roomMarkStandingsDirty j

def handleGameover (s : State) (i : Fin maxSessions) (score : Int) : State :=
  let c := s.clients i
  if c.state.roomId = roomNone then s
  else
    let s := s.setClient i
      { c with state := { c.state with phase := .gameOver }, score := score }
    match s.roomFind c.state.roomId with
    | none => s
    | some j => ((s.roomMarkStandingsDirty j).roomCheckRoundEnd env j).2

/-! ## Public calls -/

def clientAdd (s : State) (fd pid : Int) : State :=
  let s := s.ensureInit
  match s.clientAlloc fd pid with
  | some s => s
  | none => s.sendMsg env fd (.reject rejectFull)

def clientHandle (s : State) (fd : Int) (msg : AdminMsg) : State :=
  match s.clientFind fd with
  | none => s
  | some i =>
    match msg with
    | .join roomId name => s.handleJoin env i roomId name
    | .leave => s.handleLeave env i
    | .start => s.handleStart env i
    | .garbage lines => s.handleGarbage env i lines
    | .gameover score => s.handleGameover env i score
    | .score score lines => s.handleScore i score lines
    | _ => s

/-- Only the descriptor of a freed slot is cleared. -/
def clientClose (s : State) (fd : Int) : State :=
  match s.clientFind fd with
  | none => s
  | some i =>
    let c := s.clients i
    let s :=
      if c.state.roomId = roomNone then s
      else
        match s.roomFind c.state.roomId with
        | none => s
        | some j => (s.roomDelMember j fd).roomLeft env j c.state.isOwner
    s.setClient i { s.clients i with fd := -1 }

end State

/-- The calls the admin thread makes. -/
inductive Call where
  | add (fd pid : Int)
  | handle (fd : Int) (msg : AdminMsg)
  | close (fd : Int)
  | flush

def Call.run (env : Env) (s : State) : Call → State
  | .add fd pid => s.clientAdd env fd pid
  | .handle fd msg => s.clientHandle env fd msg
  | .close fd => s.clientClose env fd
  | .flush => s.roomFlushUpdates env

/-- The calls a server makes: a descriptor is registered once at a time, the
others are descriptors, and a JOIN names no negative number. `fds` are the
descriptors in the slots. -/
def Call.ProperFor (inited : Bool) (fds : Fin maxSessions → Int) : Call → Prop
  | .add fd _ => inited = true → ∀ i, 0 ≤ fds i → fds i ≠ fd
  | .handle fd (.join want _) => 0 ≤ fd ∧ 0 ≤ want
  | .handle fd _ => 0 ≤ fd
  | .close fd => 0 ≤ fd
  | .flush => True

def runCalls (env : Env) (s : State) (calls : List Call) : State :=
  calls.foldl (fun s c => c.run env s) s

end Corestack.Tetrisd
