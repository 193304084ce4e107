import Corestack.Tetris.Game
import Corestack.Tetrisd.Message

/-!
# A session process (`session.c`)

What one pass of the main loop does with a request of the client, a message
of the admin thread or a tick of the clock: the new session, and the
messages it writes to the admin thread, all of which arrive. What is pushed
to the client, the scoreboard that is passed on to it and the times of a
round are left out, since nothing here reads them.
-/

namespace Corestack.Tetrisd

open List Lib Corestack.Core Tetris

/-- `Session`, the name that the login left, and the two locals of
`session_main` that hold the figures last reported. -/
structure Sess where
  state : SessionState
  game : GameState
  userName : UserName
  lastScore : Int
  lastLines : Int

/-- `session_reset`, and the name that `auth_get_name` gives. -/
def sessionReset (name : UserName) : Sess where
  state := ⟨.idle, roomNone, 0, false, List.replicate maxStandings .zero, 0⟩
  game := clearedGame
  userName := name
  lastScore := -1
  lastLines := -1

def sessionStartGame (s : Sess) (seed : Nat) : Sess :=
  { s with
    game := tetrisbrainInit s.game (UInt32.ofNat seed)
    state := { s.state with phase := .playing } }

def sessionFlushGarbage (s : Sess) : Sess × List AdminMsg :=
  if s.game.garbageOut ≤ 0 then (s, [])
  else ({ s with game := { s.game with garbageOut := 0 } }, [.garbage s.game.garbageOut])

/-! ## Requests -/

inductive RouteWhen where
  | any
  | playing
deriving DecidableEq, Repr

inductive RouteFn where
  | move
  | rotate
  | drop
  | hold
  | join
  | leave
  | start
deriving DecidableEq, Repr

structure Route where
  method : Bytes
  when : RouteWhen
  shape : RouteShape
  ownsRoom : Bool
  fn : RouteFn

def routes : List Route :=
  [⟨bytes "MOVE", .playing, .roomPlayer, true, .move⟩,
    ⟨bytes "ROTATE", .playing, .roomPlayer, true, .rotate⟩,
    ⟨bytes "DROP", .playing, .roomPlayer, true, .drop⟩,
    ⟨bytes "HOLD", .playing, .roomPlayer, true, .hold⟩,
    ⟨bytes "JOIN", .any, .room, false, .join⟩,
    ⟨bytes "LEAVE", .any, .room, true, .leave⟩,
    ⟨bytes "START", .any, .room, true, .start⟩]

/-- The status a request earns, the session after it and what is written. -/
structure Routed where
  status : Nat
  sess : Sess
  out : List AdminMsg

def Sess.input (s : Sess) (m : Move) : Sess := { s with game := tetrisbrainInput s.game m }

/-- A request whose body is one of two words. -/
def routeWord (s : Sess) (req : HtttpRequest) (first second : Bytes) (m m' : Move) :
    Option Sess :=
  if req.body = first then some (s.input m)
  else if req.body = second then some (s.input m')
  else none

def routeMove (s : Sess) (req : HtttpRequest) : Routed :=
  match routeWord s req (bytes "LEFT") (bytes "RIGHT") .left .right with
  | some s => ⟨200, s, []⟩
  | none => ⟨400, s, []⟩

def routeRotate (s : Sess) (req : HtttpRequest) : Routed :=
  match routeWord s req (bytes "CW") (bytes "CCW") .rotRight .rotLeft with
  | some s => ⟨200, s, []⟩
  | none => ⟨400, s, []⟩

/-- A drop can complete a clear. -/
def routeDrop (s : Sess) (req : HtttpRequest) : Routed :=
  match routeWord s req (bytes "SOFT") (bytes "HARD") .softDrop .hardDrop with
  | some s => let (s, out) := sessionFlushGarbage s; ⟨200, s, out⟩
  | none => ⟨400, s, []⟩

def routeHold (s : Sess) : Routed := ⟨200, s.input .hold, []⟩

def routeJoin (s : Sess) (room : Int) : Routed := ⟨200, s, [.join room s.userName]⟩

def routeLeave (s : Sess) : Routed := ⟨200, s, [.leave]⟩

def routeStart (s : Sess) : Routed := ⟨200, s, [.start]⟩

def RouteFn.run (s : Sess) (req : HtttpRequest) (room : Int) : RouteFn → Routed
  | .move => routeMove s req
  | .rotate => routeRotate s req
  | .drop => routeDrop s req
  | .hold => routeHold s
  | .join => routeJoin s room
  | .leave => routeLeave s
  | .start => routeStart s

/-- The row of the table that a request meets. -/
def Route.dispatch (r : Route) (s : Sess) (req : HtttpRequest) : Routed :=
  if r.when = .playing ∧ s.state.phase ≠ .playing then ⟨409, s, []⟩
  else
    match htttpHeaderGet req.headers (bytes "Player-Id") with
    | none => ⟨401, s, []⟩
    | some playerId =>
      if s.state.roomId ≠ roomNone ∧ atoi playerId.val ≠ s.state.playerId then ⟨403, s, []⟩
      else
        match pathIds req.path.val r.shape with
        | none => ⟨404, s, []⟩
        | some (room, playerInPath) =>
          if r.ownsRoom ∧ (room ≠ s.state.roomId ∨
              r.shape = .roomPlayer ∧ playerInPath ≠ s.state.playerId) then ⟨403, s, []⟩
          else r.fn.run s req room

/-- `session_dispatch`. A login method is answered with 409 by `auth_offer`,
HISTORY by `history_offer`; neither touches the session. -/
def sessionDispatch (s : Sess) (req : HtttpRequest) : Routed :=
  if authMethodOf req ≠ .none then ⟨409, s, []⟩
  else if req.method.val = bytes "HISTORY" then
    ⟨if s.state.phase = .playing then 409 else 200, s, []⟩
  else
    match routes.find? fun r => req.method.val = r.method with
    | none => ⟨501, s, []⟩
    | some r => r.dispatch s req

/-! ## Messages of the admin thread -/

def sessionHandleAdmin (s : Sess) : AdminMsg → Sess
  | .session state _ => { s with state := state }
  | .seed seed => sessionStartGame s seed
  | .recvGarbage lines =>
    if s.state.phase = .playing ∧ s.game.gameOver = false then
      let (fits, game) := boardAddGarbage s.game lines
      { s with game := if fits then game else { game with gameOver := true } }
    else s
  | .result _ => { s with state := { s.state with phase := .waiting } }
  | _ => s

/-! ## The clock -/

/-- The row that `history_db_insert` is given. -/
structure HistoryRow where
  playerId : Int
  userName : UserName
  score : Int
  lines : Int
deriving DecidableEq

/-- What a tick does besides changing the session. -/
structure Ticked where
  sess : Sess
  out : List AdminMsg
  row : Option HistoryRow

/-- The report of the figures, if they differ from those last reported. -/
def reportScore (s : Sess) : Sess × List AdminMsg :=
  if s.game.score ≠ s.lastScore ∨ s.game.lines ≠ s.lastLines then
    ({ s with lastScore := s.game.score, lastLines := s.game.lines },
      [.score s.game.score s.game.lines])
  else (s, [])

/-- Part (3) of the main loop. -/
def sessionTick (s : Sess) : Ticked :=
  if s.state.phase ≠ .playing then ⟨s, [], none⟩
  else
    let s := { s with game := tetrisbrainTick s.game }
    let (s, attack) := sessionFlushGarbage s
    let (s, report) := reportScore s
    if s.game.gameOver then
      ⟨{ s with state := { s.state with phase := .gameOver } },
        attack ++ report ++ [.gameover s.game.score],
        some ⟨s.state.playerId, s.userName, s.game.score, s.game.lines⟩⟩
    else ⟨s, attack ++ report, none⟩

/-! ## A whole session -/

/-- What the main loop wakes up for. -/
inductive Wakeup where
  | request (req : HtttpRequest)
  | admin (m : AdminMsg)
  | tick

def Sess.step (s : Sess) : Wakeup → Ticked
  | .request req => ⟨(sessionDispatch s req).sess, (sessionDispatch s req).out, none⟩
  | .admin m => ⟨sessionHandleAdmin s m, [], none⟩
  | .tick => sessionTick s

/-- The session in the end, and all that was written on the way. -/
def sessionRun (s : Sess) : List Wakeup → Sess × List AdminMsg × List HistoryRow
  | [] => (s, [], [])
  | w :: ws =>
    let t := s.step w
    let r := sessionRun t.sess ws
    (r.1, t.out ++ r.2.1, t.row.toList ++ r.2.2)

def endScore : AdminMsg → Option Int
  | .gameover score => some score
  | _ => none

def figures : AdminMsg → Option (Int × Int)
  | .score score lines => some (score, lines)
  | _ => none

def Sess.reported (s : Sess) : Int × Int := (s.lastScore, s.lastLines)

def Sess.inPlay (s : Sess) : Nat := if s.state.phase = .playing then 1 else 0

/-- The admin thread puts the session into play. -/
def Wakeup.starts : Wakeup → Bool
  | .admin (.seed _) => true
  | .admin (.session state _) => state.phase = .playing
  | _ => false

section Requests

variable (s : Sess) (req : HtttpRequest)

/-- A round runs, and the request names the session's own room and player. -/
def OwnPlayer : Prop :=
  s.state.phase = .playing ∧
    pathIds req.path.val .roomPlayer = some (s.state.roomId, s.state.playerId) ∧
    ∃ id, htttpHeaderGet req.headers (bytes "Player-Id") = some id ∧
      (s.state.roomId ≠ roomNone → atoi id.val = s.state.playerId)

/-- What a route has checked when it runs: the phase, the `Player-Id` header
and the path. -/
structure Route.Admits (r : Route) (room playerInPath : Int) : Prop where
  phase : r.when = .playing → s.state.phase = .playing
  header : ∃ id, htttpHeaderGet req.headers (bytes "Player-Id") = some id ∧
    (s.state.roomId ≠ roomNone → atoi id.val = s.state.playerId)
  path : pathIds req.path.val r.shape = some (room, playerInPath)
  own : r.ownsRoom = true →
    room = s.state.roomId ∧ (r.shape = .roomPlayer → playerInPath = s.state.playerId)

theorem Route.dispatch_spec (r : Route) :
    (∃ status, r.dispatch s req = ⟨status, s, []⟩) ∨
      ∃ room playerInPath, r.dispatch s req = r.fn.run s req room ∧
        r.Admits s req room playerInPath := by
  unfold Route.dispatch
  split
  · exact .inl ⟨_, rfl⟩
  rename_i hwhen
  cases hheader : htttpHeaderGet req.headers (bytes "Player-Id") with
  | none => exact .inl ⟨_, rfl⟩
  | some playerId =>
    dsimp only
    split
    · exact .inl ⟨_, rfl⟩
    rename_i hplayer
    cases hpath : pathIds req.path.val r.shape with
    | none => exact .inl ⟨_, rfl⟩
    | some ids =>
      dsimp only
      split
      · exact .inl ⟨_, rfl⟩
      rename_i hown
      refine .inr ⟨ids.1, ids.2, rfl, ?_, ⟨playerId, hheader, ?_⟩, hpath, ?_⟩
      · exact fun hw => not_not.mp fun hphase => hwhen ⟨hw, hphase⟩
      · exact fun hroom => not_not.mp fun hid => hplayer ⟨hroom, hid⟩
      · intro howns
        have hboth := not_or.mp fun h => hown ⟨howns, h⟩
        exact ⟨not_not.mp hboth.1, fun hshape => not_not.mp fun hid => hboth.2 ⟨hshape, hid⟩⟩

variable {s req} in
theorem Route.Admits.ownPlayer {r : Route} {room playerInPath : Int}
    (h : r.Admits s req room playerInPath) (hwhen : r.when = .playing)
    (hshape : r.shape = .roomPlayer) (howns : r.ownsRoom = true) : OwnPlayer s req := by
  obtain ⟨hroom, hplayer⟩ := h.own howns
  have hpath := h.path
  rw [hshape, hroom, hplayer hshape] at hpath
  exact ⟨h.phase hwhen, hpath, h.header⟩

/-- The rows of the table are about the session's own player, or about a
room. -/
theorem routes_kind : ∀ r ∈ routes,
    (r.when = .playing ∧ r.shape = .roomPlayer ∧ r.ownsRoom = true) ∨
      r.fn ∈ [.join, .leave, .start] := by
  decide

/-- A request is refused, and then nothing is written and nothing changes, or
its route runs. All routes but those of JOIN, LEAVE and START are about the
session's own player. -/
theorem sessionDispatch_spec :
    (∃ status, sessionDispatch s req = ⟨status, s, []⟩) ∨
      ∃ fn room, sessionDispatch s req = RouteFn.run s req room fn ∧
        (OwnPlayer s req ∨ fn ∈ [.join, .leave, .start]) := by
  unfold sessionDispatch
  split
  · exact .inl ⟨_, rfl⟩
  split
  · exact .inl ⟨_, rfl⟩
  cases hfind : routes.find? fun r => req.method.val = r.method with
  | none => exact .inl ⟨_, rfl⟩
  | some r =>
    rcases r.dispatch_spec s req with hrefused | ⟨room, player, hrun, hadmits⟩
    · exact .inl hrefused
    · refine .inr ⟨r.fn, room, hrun, ?_⟩
      exact (routes_kind r (mem_of_find?_eq_some hfind)).imp_left
        fun ⟨hwhen, hshape, howns⟩ => hadmits.ownPlayer hwhen hshape howns

/-- The state and the report are left alone, and neither figures nor an end
are written. -/
structure Quiet (s' : Sess) (out : List AdminMsg) : Prop where
  state : s'.state = s.state
  reported : s'.reported = s.reported
  ends : out.filterMap endScore = []
  figures : out.filterMap figures = []

theorem quiet_flushGarbage :
    Quiet s (sessionFlushGarbage s).1 (sessionFlushGarbage s).2 := by
  unfold sessionFlushGarbage
  split <;> exact ⟨rfl, rfl, rfl, rfl⟩

theorem routeWord_cases (first second : Bytes) (m m' : Move) :
    routeWord s req first second m m' = none ∨
      ∃ move, routeWord s req first second m m' = some (s.input move) := by
  unfold routeWord
  split
  · exact .inr ⟨m, rfl⟩
  · split
    · exact .inr ⟨m', rfl⟩
    · exact .inl rfl

theorem RouteFn.run_quiet (room : Int) (fn : RouteFn) :
    Quiet s (fn.run s req room).sess (fn.run s req room).out := by
  cases fn with
  | hold | join | leave | start => exact ⟨rfl, rfl, rfl, rfl⟩
  | move =>
    rw [RouteFn.run, routeMove]
    rcases routeWord_cases s req (bytes "LEFT") (bytes "RIGHT") .left .right with h | ⟨m, h⟩
    all_goals rw [h]; exact ⟨rfl, rfl, rfl, rfl⟩
  | rotate =>
    rw [RouteFn.run, routeRotate]
    rcases routeWord_cases s req (bytes "CW") (bytes "CCW") .rotRight .rotLeft with h | ⟨m, h⟩
    all_goals rw [h]; exact ⟨rfl, rfl, rfl, rfl⟩
  | drop =>
    rw [RouteFn.run, routeDrop]
    rcases routeWord_cases s req (bytes "SOFT") (bytes "HARD") .softDrop .hardDrop with h | ⟨m, h⟩
    · rw [h]
      exact ⟨rfl, rfl, rfl, rfl⟩
    · rw [h]
      have hflush := quiet_flushGarbage (s.input m)
      exact ⟨hflush.state, hflush.reported, hflush.ends, hflush.figures⟩

theorem dispatch_quiet : Quiet s (sessionDispatch s req).sess (sessionDispatch s req).out := by
  rcases sessionDispatch_spec s req with ⟨_, h⟩ | ⟨fn, room, h, _⟩
  · rw [h]
    exact ⟨rfl, rfl, rfl, rfl⟩
  · rw [h]
    exact RouteFn.run_quiet s req room fn

/-- Only a request of `OwnPlayer` changes the session: a round runs, and the
request names the session's own room and player. JOIN, LEAVE and START leave
it as it is. -/
theorem request_authorised :
    (sessionDispatch s req).sess = s ∨ OwnPlayer s req := by
  rcases sessionDispatch_spec s req with ⟨_, h⟩ | ⟨fn, room, h, hown | hfn⟩
  · exact .inl (by rw [h])
  · exact .inr hown
  · simp only [mem_cons, not_mem_nil, or_false] at hfn
    rcases hfn with rfl | rfl | rfl
    all_goals exact .inl (by rw [h]; rfl)

end Requests

/-! ## Ends and figures -/

/-- What a wakeup may write and record; `starts` is 1 if it puts the session
into play. -/
structure Ticked.Accounts (s : Sess) (starts : Nat) (t : Ticked) : Prop where
  ends : t.out.filterMap endScore = t.row.toList.map HistoryRow.score
  plays : t.row.toList.length + t.sess.inPlay ≤ s.inPlay + starts
  reported : t.sess.reported = (t.out.filterMap figures).getLastD s.reported

theorem Sess.inPlay_le_one (s : Sess) : s.inPlay ≤ 1 := by
  unfold inPlay
  split
  · exact le_rfl
  · exact Nat.zero_le 1

/-- A message of the admin thread writes nothing, and puts the session into
play only as `Wakeup.starts` says. -/
theorem sessionHandleAdmin_accounts (s : Sess) (m : AdminMsg) :
    Ticked.Accounts s (if (Wakeup.admin m).starts then 1 else 0)
      ⟨sessionHandleAdmin s m, [], none⟩ := by
  have hsame : ∀ (s' : Sess) (n : Nat), s'.reported = s.reported → s'.inPlay ≤ s.inPlay + n →
      Ticked.Accounts s n ⟨s', [], none⟩ :=
    fun s' n hreported hplays => ⟨rfl, by simpa using hplays, hreported⟩
  cases m with
  | seed seed => exact hsame _ _ rfl ((Sess.inPlay_le_one _).trans (Nat.le_add_left 1 _))
  | session state fd =>
    refine hsame _ _ rfl ?_
    by_cases hphase : state.phase = .playing
    · exact (Sess.inPlay_le_one _).trans (by simp [Wakeup.starts, hphase])
    · simp [sessionHandleAdmin, Sess.inPlay, hphase]
  | recvGarbage lines =>
    have hkept : (sessionHandleAdmin s (.recvGarbage lines)).state = s.state ∧
        (sessionHandleAdmin s (.recvGarbage lines)).reported = s.reported := by
      unfold sessionHandleAdmin
      dsimp only
      split <;> exact ⟨rfl, rfl⟩
    refine hsame _ _ hkept.2 ?_
    rw [Sess.inPlay, hkept.1]
    exact Nat.le_add_right _ _
  | result winner => exact hsame _ _ rfl (Nat.zero_le _)
  | _ => exact hsame _ _ rfl (Nat.le_add_right _ _)

theorem reportScore_spec (s : Sess) :
    (reportScore s).1.state = s.state ∧ (reportScore s).2.filterMap endScore = [] ∧
      (reportScore s).1.reported = ((reportScore s).2.filterMap figures).getLastD s.reported := by
  unfold reportScore
  split <;> exact ⟨rfl, rfl, rfl⟩

theorem sessionTick_accounts (s : Sess) : Ticked.Accounts s 0 (sessionTick s) := by
  unfold sessionTick
  split
  · exact ⟨rfl, by simp, rfl⟩
  rename_i hphase
  have hplay : s.inPlay = 1 := if_pos (not_not.mp hphase)
  have hflush := quiet_flushGarbage { s with game := tetrisbrainTick s.game }
  dsimp only
  generalize sessionFlushGarbage { s with game := tetrisbrainTick s.game } = flushed at hflush ⊢
  obtain ⟨hstate, hends, hreported⟩ := reportScore_spec flushed.1
  generalize reportScore flushed.1 = report at hstate hends hreported ⊢
  have hsame : report.1.reported = (report.2.filterMap figures).getLastD s.reported := by
    rw [hreported, hflush.reported]
    rfl
  have hinPlay : report.1.inPlay = 1 := by
    rw [Sess.inPlay, hstate, hflush.state]
    exact hplay
  split
  · refine ⟨?_, ?_, ?_⟩
    · simp [filterMap_append, hflush.ends, hends, endScore]
    · rw [hplay]
      exact le_rfl
    · rw [filterMap_append, filterMap_append, hflush.figures, nil_append]
      exact hsame.trans (by rw [filterMap_cons_none rfl, filterMap_nil, append_nil])
  · refine ⟨?_, ?_, ?_⟩
    · simp [filterMap_append, hflush.ends, hends]
    · simp [hinPlay, hplay]
    · rw [filterMap_append, hflush.figures, nil_append]
      exact hsame

theorem Sess.step_accounts (s : Sess) (w : Wakeup) :
    Ticked.Accounts s (if w.starts then 1 else 0) (s.step w) := by
  cases w with
  | request req =>
    have hquiet := dispatch_quiet s req
    refine ⟨hquiet.ends, ?_, ?_⟩
    · simp [step, inPlay, hquiet.state]
    · simp [step, hquiet.figures, hquiet.reported]
  | admin m => exact sessionHandleAdmin_accounts s m
  | tick => exact sessionTick_accounts s

/-- A session writes a GAMEOVER for every row of the history, and at most one
for each time that it is put into play. What it takes for reported are the
figures that it wrote last. -/
theorem gameovers_recorded (s : Sess) (ws : List Wakeup) :
    let r := sessionRun s ws
    r.2.1.filterMap endScore = r.2.2.map HistoryRow.score ∧
      r.2.2.length + r.1.inPlay ≤ s.inPlay + ws.countP Wakeup.starts ∧
      r.1.reported = (r.2.1.filterMap figures).getLastD s.reported := by
  induction ws generalizing s with
  | nil => simp [sessionRun]
  | cons w ws ih =>
    obtain ⟨hout, hlen, hlast⟩ := s.step_accounts w
    obtain ⟨hout', hlen', hlast'⟩ := ih (s.step w).sess
    refine ⟨by simp [sessionRun, hout, hout'], ?_, by simp [sessionRun, hlast', hlast]⟩
    simp only [sessionRun, length_append, countP_cons]
    omega

end Corestack.Tetrisd
