import Corestack.Tetrisu.Client
import Corestack.Tetrisd.Session

/-!
# Leaving a room

`client_leave` forgets the room at once, so that boards still on the way are
dropped. What is on the way may also hold an UPD_SESSION, though, which
brings the room back or says that a round runs. The client stays out of the
game exactly as long as no frame does that.
-/

namespace Corestack.Tetrisu

open Lib Corestack.Core Core.Tetrissh Tetrisd

/-! ## One frame -/

/-- The client after the frames that a number of calls of `session_recv`
gave it. -/
def serve (c : Client) (rs : List (Code × Bytes)) : Client :=
  rs.foldl (fun c r => (clientService c r.1 r.2).2) c

/-- The frame that a call of `session_recv` hands over. -/
def received (r : Code × Bytes) : Frame := if r.1 = .ok then readFrame r.2 else .other

/-- In no game. -/
structure Out (c : Client) : Prop where
  notPlaying : c.phase ≠ .playing
  notOver : c.phase ≠ .gameOver
  noGame : c.haveGame = false

/-- The room that a client in `room` is in after a frame. -/
def roomAfter (room : Int) : Frame → Int
  | .session body => SessionImage.roomId body
  | _ => room

/-- An UPD_SESSION that tells of no round, or a board that comes while the
client is in no room, or any other frame. -/
def Harmless (room : Int) : Frame → Prop
  | .session body => SessionImage.phase body ≠ phaseCode .playing ∧
      SessionImage.phase body ≠ phaseCode .gameOver
  | .state _ => room = roomNone
  | _ => True

instance (room : Int) : (frame : Frame) → Decidable (Harmless room frame)
  | .session _ => inferInstanceAs (Decidable (_ ∧ _))
  | .state _ => inferInstanceAs (Decidable (_ = _))
  | .response _ | .result _ | .history _ | .other => isTrue trivial

section Step

variable {c c' : Client} {r : Code × Bytes}

/-- Two clients that agree on the fields at stake. -/
structure SameGame (c c' : Client) : Prop where
  phase : c'.phase = c.phase
  haveGame : c'.haveGame = c.haveGame
  session : c'.session = c.session

theorem SameGame.out_iff (h : SameGame c c') : Out c' ↔ Out c := by
  constructor
  all_goals
    rintro ⟨h₁, h₂, h₃⟩
    exact ⟨h.phase ▸ h₁, h.phase ▸ h₂, h.haveGame ▸ h₃⟩

theorem sameGame_foldAuthReply (c : Client) : SameGame c (foldAuthReply c).2 := by
  unfold foldAuthReply
  dsimp only
  split
  all_goals exact ⟨rfl, rfl, rfl⟩

theorem sameGame_clientService (c : Client) (code : Code) (buf : Bytes) :
    SameGame (netService { c with authRefusedLast := false } code buf).2
      (clientService c code buf).2 := by
  unfold clientService
  rcases netService { c with authRefusedLast := false } code buf with ⟨ev, c'⟩
  by_cases hev : ev = .authReply
  · obtain ⟨hphase, hgame, hsession⟩ := sameGame_foldAuthReply c'
    simp only [hev, if_true]
    split
    all_goals exact ⟨hphase, hgame, hsession⟩
  · simp only [hev, if_false]
    split
    all_goals exact ⟨rfl, rfl, rfl⟩

theorem out_takeResponse (hc : Out c) (status : Nat) : Out (takeResponse c status).2 := by
  unfold takeResponse
  dsimp only
  split
  · exact hc
  · split
    all_goals exact ⟨hc.notPlaying, hc.notOver, hc.noGame⟩

theorem haveGame_takeState {body : GameImage} (hroom : SessionImage.roomId c.session ≠ roomNone) :
    (takeState c body).2.haveGame = true := by
  simp only [takeState, hroom, if_false]
  split
  · split <;> rfl
  · split <;> rfl

theorem out_takeState (hc : Out c) (body : GameImage) :
    Out (takeState c body).2 ↔ SessionImage.roomId c.session = roomNone := by
  constructor
  · intro hout
    by_contra hroom
    have hgame := hout.noGame
    rw [haveGame_takeState hroom] at hgame
    cases hgame
  · intro hroom
    rw [takeState, if_pos hroom]
    exact hc

theorem out_takeSession (hc : Out c) (body : SessionImage) :
    Out (takeSession c body).2 ↔ SessionImage.phase body ≠ phaseCode .playing ∧
      SessionImage.phase body ≠ phaseCode .gameOver := by
  have hphase : (takeSession c body).2.phase =
      sessionPhase c.phase (SessionImage.phase body) := by
    rw [takeSession, Client.withSession_phase]
  have hgame : (takeSession c body).2.haveGame = c.haveGame := by
    rw [takeSession, Client.withSession_haveGame]
  constructor
  · rintro ⟨hplay, hover, -⟩
    rw [hphase] at hplay hover
    refine ⟨fun h => hplay ?_, fun h => hover ?_⟩
    · rw [h]
      rfl
    · rw [h]
      rfl
  · rintro ⟨hplay, hover⟩
    refine ⟨?_, ?_, hgame.trans hc.noGame⟩ <;>
    · rw [hphase, sessionPhase, if_neg hplay, if_neg hover]
      split
      · decide
      · split
        · decide
        · first
          | exact hc.notPlaying
          | exact hc.notOver

/-- One call keeps the client out of the game exactly if its frame is
harmless in the room the client believes to be in. -/
theorem out_netService (hc : Out c) (r : Code × Bytes) :
    Out (netService c r.1 r.2).2 ↔ Harmless (SessionImage.roomId c.session) (received r) := by
  unfold netService Harmless received
  by_cases hok : r.1 = .ok
  · simp only [hok, if_true, reduceCtorEq, or_self, if_false, ne_eq, not_true]
    cases readFrame r.2 with
    | response status => exact iff_of_true (out_takeResponse hc status) trivial
    | state body => exact out_takeState hc body
    | session body => exact out_takeSession hc body
    | result winner | history body =>
      exact iff_of_true ⟨hc.notPlaying, hc.notOver, hc.noGame⟩ trivial
    | other => exact iff_of_true hc trivial
  · simp only [hok, if_false, ne_eq, not_false_eq_true, if_true, iff_true]
    split
    · exact ⟨by simp, by simp, hc.noGame⟩
    · exact hc

theorem room_netService (c : Client) (r : Code × Bytes) :
    SessionImage.roomId (netService c r.1 r.2).2.session =
      roomAfter (SessionImage.roomId c.session) (received r) := by
  unfold netService roomAfter received
  by_cases hok : r.1 = .ok
  · simp only [hok, if_true, reduceCtorEq, or_self, if_false, ne_eq, not_true]
    cases readFrame r.2 with
    | response status =>
      simp only [takeResponse]
      split
      · rfl
      · split <;> rfl
    | state body =>
      simp only [takeState]
      split
      · rfl
      · split
        · split <;> rfl
        · split <;> rfl
    | session body => rfl
    | result winner => rfl
    | history body => rfl
    | other => rfl
  · split <;> rfl

theorem out_clientService (hc : Out c) (r : Code × Bytes) :
    Out (clientService c r.1 r.2).2 ↔ Harmless (SessionImage.roomId c.session) (received r) :=
  (sameGame_clientService c r.1 r.2).out_iff.trans
    (@out_netService { c with authRefusedLast := false } ⟨hc.notPlaying, hc.notOver, hc.noGame⟩ r)

theorem room_clientService (c : Client) (r : Code × Bytes) :
    SessionImage.roomId (clientService c r.1 r.2).2.session =
      roomAfter (SessionImage.roomId c.session) (received r) := by
  rw [(sameGame_clientService c r.1 r.2).session]
  exact room_netService { c with authRefusedLast := false } r

end Step

/-! ## All that is on the way -/

/-- Each frame is harmless in the room that the UPD_SESSION before it
names. -/
def HarmlessAll (room : Int) : List (Code × Bytes) → Prop
  | [] => True
  | r :: rs => Harmless room (received r) ∧ HarmlessAll (roomAfter room (received r)) rs

instance (room : Int) : (rs : List (Code × Bytes)) → Decidable (HarmlessAll room rs)
  | [] => isTrue trivial
  | r :: rs =>
    have := instDecidableHarmlessAll (roomAfter room (received r)) rs
    inferInstanceAs (Decidable (_ ∧ _))

theorem out_serve_iff (rs : List (Code × Bytes)) :
    ∀ {c : Client}, Out c → ((∀ pre, pre <+: rs → Out (serve c pre)) ↔
      HarmlessAll (SessionImage.roomId c.session) rs) := by
  induction rs with
  | nil =>
    intro c hc
    refine iff_of_true (fun pre hpre => ?_) trivial
    rw [List.prefix_nil.mp hpre]
    exact hc
  | cons r rs ih =>
    intro c hc
    constructor
    · intro hall
      have hstep : Out (clientService c r.1 r.2).2 := hall [r] (by simp)
      refine ⟨(out_clientService hc r).mp hstep, ?_⟩
      rw [← room_clientService]
      exact (ih hstep).mp fun pre hpre => hall (r :: pre) (List.cons_prefix_cons.mpr ⟨rfl, hpre⟩)
    · rintro ⟨hr, hrs⟩ pre hpre
      have hstep := (out_clientService hc r).mpr hr
      rw [← room_clientService] at hrs
      cases pre with
      | nil => exact hc
      | cons r' pre =>
        obtain ⟨rfl, hrest⟩ := List.cons_prefix_cons.mp hpre
        exact (ih hstep).mpr hrs pre hrest

theorem out_clientLeave (sends : Bytes → Bool) (c : Client) : Out (clientLeave sends c).2 :=
  ⟨by simp [clientLeave], by simp [clientLeave], rfl⟩

/-- From any client and whatever is on the way when it leaves: it stays out
of the game exactly if no UPD_SESSION on the way tells of a round, and no
board comes after an UPD_SESSION that names a room. -/
theorem leaving_final_iff (sends : Bytes → Bool) (c : Client) (rs : List (Code × Bytes)) :
    (∀ pre, pre <+: rs → Out (serve (clientLeave sends c).2 pre)) ↔ HarmlessAll roomNone rs := by
  rw [out_serve_iff rs (out_clientLeave sends c)]
  have hroom : SessionImage.roomId (clientLeave sends c).2.session = roomNone :=
    SessionImage.roomId_setRoomId c.session (by decide)
  rw [hroom]

/-! ## What a session pushes -/

def ctState : Bytes := bytes "application/tetris-state"

def pushRequest (method path body : Bytes) : Except HtttpErr Bytes :=
  htttpSerializeRequest
    { method := CStr.copy _ method
      path := CStr.copy _ path
      headers := setHeader [] (bytes "Content-Type") ctState
      body := body
      headers_le := (length_setHeader_le [] _ _).trans (by decide) } sessionMaxFrame

def boolBytes (b : Bool) : Bytes := [if b then 1 else 0, 0, 0, 0]

def memberBytes (m : RoomMember) : Bytes :=
  intBytes m.playerId ++ (Image.filled Core.maxUserName m.name.val).bytes ++ boolBytes m.isOwner

def sessionImage (s : SessionState) : SessionImage :=
  Image.filled _ (intBytes (phaseCode s.phase) ++ intBytes s.roomId ++ intBytes s.playerId ++
    boolBytes s.isOwner ++ s.roster.flatMap memberBytes ++ intBytes s.rosterCount)

def pushSession (s : Sess) : Except HtttpErr Bytes :=
  pushRequest (bytes "UPD_SESSION") (bytes "/session/state") (sessionImage s.state).bytes

/-- `session_push_game`, with the board in memory. -/
def pushGame (s : Sess) (game : GameImage) : Except HtttpErr Bytes :=
  pushRequest (bytes "STATE") (bytes "/room/" ++ fmtInt s.state.roomId) game.bytes

def waitingSess : Sess :=
  let s := sessionReset (CStr.copy _ (bytes "ann"))
  { s with state := { s.state with phase := .waiting, roomId := 1, isOwner := true } }

def waitingClient : Client where
  fd := 3
  phase := .waiting
  roomReq := 0
  assumeOwner := true
  session := sessionImage waitingSess.state
  haveSession := true
  game := Image.filled _ []
  haveGame := false
  lastReject := 0
  lastWinner := -1
  history := Image.filled _ []
  haveHistory := false
  framesSeen := 0
  authFailures := 0
  authRefusedLast := false
  authPending := .none
  authReply := .guest
  reconnectOk := false

def pushed (frame : Except HtttpErr Bytes) : Bytes := frame.toOption.getD []

theorem eq_ok_pushed {frame : Except HtttpErr Bytes} (h : frame.isOk = true) :
    frame = .ok (pushed frame) := by
  cases frame with
  | error e => cases h
  | ok out => rfl

/-- A board of the round that was left, and the answer to LEAVE. -/
theorem left_client_stays_out :
    Out (serve (clientLeave (fun _ => true) waitingClient).2
      [(.ok, pushed (pushGame waitingSess (Image.filled _ []))),
        (.ok, pushed (pushSession (sessionReset (CStr.copy _ (bytes "ann")))))]) :=
  (leaving_final_iff (fun _ => true) waitingClient _).mpr (by decide +kernel) _ List.prefix_rfl

/-- START and LEAVE cross. The session takes the seed, so it pushes its state
and a board; the client has left before it reads them and is in the game
again. -/
theorem left_client_plays :
    ∃ state board,
      pushSession (sessionHandleAdmin waitingSess (.seed 7)) = .ok state ∧
      pushGame (sessionHandleAdmin waitingSess (.seed 7)) (Image.filled _ []) = .ok board ∧
      (serve (clientLeave (fun _ => true) waitingClient).2 [(.ok, state)]).phase = .playing ∧
      (serve (clientLeave (fun _ => true) waitingClient).2 [(.ok, state), (.ok, board)]).haveGame =
        true := by
  refine ⟨_, _, eq_ok_pushed ?_, eq_ok_pushed ?_, ?_, ?_⟩
  all_goals decide +kernel

end Corestack.Tetrisu
