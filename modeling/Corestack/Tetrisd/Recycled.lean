import Corestack.Tetrisd.Tables

/-!
# Recycled slots

A closed connection leaves its record in the slot; the next session that
gets the slot has the descriptor, the phase, the room and the score
overwritten, but not the name, the line count and the roster. A room that is
given up leaves its record too, with the last standings that were sent in
it. Nobody sees those, because a free room is not looked at and a new room
starts without standings. So two histories that differ only in what the
former session did are told apart by the new one, or by an operator, exactly
if they differ in what is left in the slot.

The rooms that the two continuations start from need not be equal, so the
argument is a simulation: `Alike` relates two states in which the same can
be seen, and every call keeps it.
-/

namespace Corestack.Tetrisd

open Function List Lib
open Corestack.Core (UserName)

/-- A row of `player_snapshot`. -/
structure PlayerInfo where
  room : Int
  player : Int
  pid : Int
  isOwner : Bool
  score : Int
  lines : Int
  name : UserName
deriving DecidableEq

def Client.info (c : Client) : PlayerInfo where
  room := c.state.roomId
  player := c.state.playerId
  pid := c.pid
  isOwner := c.state.isOwner
  score := c.score
  lines := c.lines
  name := CStr.copy _ c.name.val

namespace State

/-- `player_snapshot`: a row for each session, up to `max`. -/
def playerSnapshot (s : State) (max : Nat) : List PlayerInfo :=
  (((List.finRange maxSessions).filter fun i => 0 ≤ (s.ensureInit.clients i).fd).map
    fun i => (s.ensureInit.clients i).info).take max

/-- The messages written to a descriptor, in order. -/
def writtenTo (s : State) (fd : Int) : List AdminMsg :=
  (s.sent.filter fun x => x.1 = fd).map Prod.snd

/-- The tables at some moment, with nothing written and no seed drawn since. -/
def resume (s : State) : State := { s with sent := [], seeds := 0 }

end State

/-! ## States that nothing tells apart -/

/-- Rooms that are the same but for standings that do not count. -/
structure Room.Same (r q : Room) : Prop where
  id : r.id = q.id
  phase : r.phase = q.phase
  seed : r.seed = q.seed
  nextPlayerId : r.nextPlayerId = q.nextPlayerId
  members : r.members = q.members
  standingsDirty : r.standingsDirty = q.standingsDirty
  haveStandings : r.haveStandings = q.haveStandings
  lastStandings : q.haveStandings = true → r.lastStandings = q.lastStandings

theorem Room.Same.refl (r : Room) : r.Same r := ⟨rfl, rfl, rfl, rfl, rfl, rfl, rfl, fun _ => rfl⟩

/-- Free rooms are not compared, and the list of wedged sessions is only
looked at by the admin thread. -/
structure Alike (s t : State) : Prop where
  clients : s.clients = t.clients
  rooms : ∀ j, (s.rooms j).id = 0 ∧ (t.rooms j).id = 0 ∨ (s.rooms j).Same (t.rooms j)
  inited : s.inited = t.inited
  seeds : s.seeds = t.seeds
  sent : s.sent = t.sent

/-- The same, with a room that is compared even if it is free. -/
structure AlikeAt (j : Fin maxRooms) (s t : State) : Prop extends Alike s t where
  room : (s.rooms j).Same (t.rooms j)

variable (env : Env) {s t : State} {j : Fin maxRooms}

namespace Alike

variable (h : Alike s t)

include h

theorem inUse (hj : (t.rooms j).id ≠ 0) : AlikeAt j s t :=
  ⟨h, (h.rooms j).resolve_left fun hfree => hj hfree.2⟩

theorem room_id (j : Fin maxRooms) : (s.rooms j).id = (t.rooms j).id := by
  rcases h.rooms j with ⟨hs, ht⟩ | hsame
  · rw [hs, ht]
  · exact hsame.id

theorem clientFind (fd : Int) : s.clientFind fd = t.clientFind fd := by
  rw [State.clientFind, h.clients, State.clientFind]

theorem roomFind (id : Int) : s.roomFind id = t.roomFind id := by
  simp only [State.roomFind, firstSlot, h.room_id]

theorem setClient (i : Fin maxSessions) (c : Client) : Alike (s.setClient i c) (t.setClient i c) :=
  ⟨by simp only [State.setClient, h.clients], h.rooms, h.inited, h.seeds, h.sent⟩

theorem setRoom {r q : Room} (hrooms : r.id = 0 ∧ q.id = 0 ∨ r.Same q) :
    Alike (s.setRoom j r) (t.setRoom j q) := by
  refine ⟨h.clients, fun k => ?_, h.inited, h.seeds, h.sent⟩
  by_cases hk : k = j
  · subst hk
    simpa only [State.setRoom, update_self] using hrooms
  · simpa only [State.setRoom, update_of_ne hk] using h.rooms k

theorem sendMsg (fd : Int) (m : AdminMsg) : Alike (s.sendMsg env fd m) (t.sendMsg env fd m) := by
  obtain ⟨_, hs⟩ := State.sendMsg_eq env s fd m
  obtain ⟨_, ht⟩ := State.sendMsg_eq env t fd m
  rw [hs, ht]
  exact ⟨h.clients, h.rooms, h.inited, h.seeds, congrArg (· ++ [(fd, m)]) h.sent⟩

theorem ensureInit : Alike s.ensureInit t.ensureInit := by
  unfold State.ensureInit
  rw [h.inited]
  split
  · exact h
  · exact ⟨by simp only [h.clients], fun _ => .inl ⟨rfl, rfl⟩, rfl, h.seeds, h.sent⟩

theorem playerSnapshot (max : Nat) : s.playerSnapshot max = t.playerSnapshot max := by
  simp only [State.playerSnapshot, h.ensureInit.clients]

theorem writtenTo (fd : Int) : s.writtenTo fd = t.writtenTo fd := by
  rw [State.writtenTo, h.sent, State.writtenTo]

end Alike

namespace AlikeAt

theorem foldl {α : Type} {f g : State → α → State}
    (hfg : ∀ s t x, AlikeAt j s t → AlikeAt j (f s x) (g t x)) (xs : List α) :
    ∀ {s t : State}, AlikeAt j s t → AlikeAt j (xs.foldl f s) (xs.foldl g t) := by
  induction xs with
  | nil => exact fun h => h
  | cons x xs ih => exact fun h => ih (hfg _ _ x h)

variable (h : AlikeAt j s t)

include h

theorem setClient (i : Fin maxSessions) (c : Client) :
    AlikeAt j (s.setClient i c) (t.setClient i c) :=
  ⟨h.toAlike.setClient i c, h.room⟩

theorem setRoom {f : Room → Room} (hf : (f (s.rooms j)).Same (f (t.rooms j))) :
    AlikeAt j (s.setRoom j (f (s.rooms j))) (t.setRoom j (f (t.rooms j))) :=
  ⟨h.toAlike.setRoom (.inr hf), by simpa only [State.setRoom, update_self] using hf⟩

theorem sendMsg (fd : Int) (m : AdminMsg) :
    AlikeAt j (s.sendMsg env fd m) (t.sendMsg env fd m) := by
  refine ⟨h.toAlike.sendMsg env fd m, ?_⟩
  obtain ⟨_, hs⟩ := State.sendMsg_eq env s fd m
  obtain ⟨_, ht⟩ := State.sendMsg_eq env t fd m
  rw [hs, ht]
  exact h.room

theorem sendSessionEx (i : Fin maxSessions) (created : Bool) :
    AlikeAt j (s.sendSessionEx env i created) (t.sendSessionEx env i created) := by
  unfold State.sendSessionEx
  rw [h.clients]
  exact h.sendMsg env _ _

theorem sendReject (i : Fin maxSessions) (reason : Int) :
    AlikeAt j (s.sendReject env i reason) (t.sendReject env i reason) := by
  unfold State.sendReject
  rw [h.clients]
  exact h.sendMsg env _ _

theorem roomBroadcast (m : AdminMsg) :
    AlikeAt j (s.roomBroadcast env j m) (t.roomBroadcast env j m) := by
  unfold State.roomBroadcast
  rw [h.room.members]
  exact foldl (fun _ _ fd h => h.sendMsg env fd m) _ h

theorem eachMember {f : State → Fin maxSessions → State}
    (hf : ∀ s t i, AlikeAt j s t → AlikeAt j (f s i) (f t i)) :
    AlikeAt j (s.eachMember j f) (t.eachMember j f) := by
  unfold State.eachMember
  rw [h.room.members]
  refine foldl (fun s t fd h => ?_) _ h
  rw [h.toAlike.clientFind]
  cases t.clientFind fd with
  | none => exact h
  | some i => exact hf s t i h

theorem memberClients : s.memberClients j = t.memberClients j := by
  simp only [State.memberClients, h.room.members, h.toAlike.clientFind, h.clients]

theorem roomPushSessionsEx (creator : Option Int) :
    AlikeAt j (s.roomPushSessionsEx env j creator) (t.roomPushSessionsEx env j creator) := by
  unfold State.roomPushSessionsEx
  rw [h.room.id, h.room.members]
  split
  · exact h
  · have hrows : s.roster j = t.roster j := by rw [State.roster, h.memberClients, State.roster]
    dsimp only
    rw [hrows]
    refine h.eachMember fun s t i h => ?_
    rw [h.clients]
    exact (h.setClient i _).sendSessionEx env i _

theorem roomPushStandings :
    AlikeAt j (s.roomPushStandings env j) (t.roomPushStandings env j) := by
  unfold State.roomPushStandings
  rw [h.room.id, h.room.members]
  split
  · exact h
  · have hrows : s.standings j = t.standings j := by
      rw [State.standings, h.memberClients, State.standings]
    have hshown : ((s.rooms j).haveStandings = true ∧ (s.rooms j).lastStandings = t.standings j) ↔
        ((t.rooms j).haveStandings = true ∧ (t.rooms j).lastStandings = t.standings j) := by
      rw [h.room.haveStandings]
      exact and_congr_right fun hhave => by rw [h.room.lastStandings hhave]
    dsimp only
    rw [hrows]
    split
    · rename_i hsame
      rw [if_pos (hshown.mp hsame)]
      exact h
    · rename_i hsame
      rw [if_neg fun hsame' => hsame (hshown.mpr hsame')]
      exact (h.setRoom (f := fun r =>
        { r with lastStandings := t.standings j, haveStandings := true })
        { h.room with haveStandings := rfl, lastStandings := fun _ => rfl }).roomBroadcast env _

theorem roomMarkStandingsDirty :
    AlikeAt j (s.roomMarkStandingsDirty j) (t.roomMarkStandingsDirty j) :=
  h.setRoom (f := fun r => { r with standingsDirty := true }) { h.room with standingsDirty := rfl }

theorem dropStandings : AlikeAt j (s.setRoom j { s.rooms j with haveStandings := false })
    (t.setRoom j { t.rooms j with haveStandings := false }) :=
  h.setRoom (f := fun r => { r with haveStandings := false })
    { h.room with haveStandings := rfl, lastStandings := fun h => nomatch h }

theorem roomCheckRoundEnd :
    (s.roomCheckRoundEnd env j).1 = (t.roomCheckRoundEnd env j).1 ∧
      AlikeAt j (s.roomCheckRoundEnd env j).2 (t.roomCheckRoundEnd env j).2 := by
  unfold State.roomCheckRoundEnd
  rw [h.room.phase, h.room.members, h.memberClients]
  split
  · exact ⟨rfl, h⟩
  split
  · exact ⟨rfl, h⟩
  split
  · exact ⟨rfl, h⟩
  · have hdirty := h.setRoom (f := fun r => { r with standingsDirty := false })
      { h.room with standingsDirty := rfl }
    have hsent := (hdirty.roomPushStandings env).roomBroadcast env
      (.result (State.winner (t.memberClients j)))
    refine ⟨rfl, (hsent.setRoom (f := fun r => { r with phase := .waiting })
      { hsent.room with phase := rfl }).eachMember fun s t i h => ?_⟩
    rw [h.clients]
    exact h.setClient i _

theorem joinRoom (i : Fin maxSessions) (name : UserName) (created : Bool) :
    AlikeAt j (s.joinRoom env i j name created) (t.joinRoom env i j name created) := by
  unfold State.joinRoom
  dsimp only
  rw [h.room.members, h.room.nextPlayerId, h.room.id, h.clients]
  split
  · exact h.sendReject env i _
  · have hroom := h.setRoom (f := fun r => { r with
        id := (t.rooms j).id
        members := (t.rooms j).members ++ [(t.clients i).fd]
        nextPlayerId := toInt32 ((t.rooms j).nextPlayerId + 1) })
      { h.room with id := rfl, members := rfl, nextPlayerId := rfl }
    exact ((hroom.setClient i _).roomPushSessionsEx env
      _).dropStandings.roomMarkStandingsDirty

theorem roomLeft (wasOwner : Bool) :
    AlikeAt j (s.roomLeft env j wasOwner) (t.roomLeft env j wasOwner) := by
  unfold State.roomLeft
  rw [h.room.members]
  split
  · exact h.setRoom (f := fun r => { r with id := 0 }) { h.room with id := rfl }
  · rename_i first rest hmembers
    have hend : ∀ {s t : State}, AlikeAt j s t →
        AlikeAt j (if (s.roomCheckRoundEnd env j).1 then
            (s.roomCheckRoundEnd env j).2.roomPushSessions env j
          else ((s.roomCheckRoundEnd env j).2.roomPushSessions env j).roomMarkStandingsDirty j)
          (if (t.roomCheckRoundEnd env j).1 then
            (t.roomCheckRoundEnd env j).2.roomPushSessions env j
          else
            ((t.roomCheckRoundEnd env j).2.roomPushSessions env j).roomMarkStandingsDirty j) := by
      intro s t h
      obtain ⟨hended, hat⟩ := h.roomCheckRoundEnd env
      rw [hended]
      split
      · exact hat.roomPushSessionsEx env none
      · exact (hat.roomPushSessionsEx env none).roomMarkStandingsDirty
    refine hend ?_
    split
    · rw [h.toAlike.clientFind]
      split
      · exact h
      · rw [h.clients]
        exact h.setClient _ _
    · exact h

theorem roomDelMember (fd : Int) : AlikeAt j (s.roomDelMember j fd) (t.roomDelMember j fd) := by
  unfold State.roomDelMember
  rw [h.room.members]
  exact h.setRoom (f := fun r => { r with members := swapRemove (t.rooms j).members fd })
    { h.room with members := rfl }

end AlikeAt

theorem flushRoom_free (hj : (s.rooms j).id = 0) :
    ∃ r : Room, r.id = 0 ∧ s.flushRoom env j = s.setRoom j r := by
  have hself : s.setRoom j (s.rooms j) = s := by
    simp only [State.setRoom, update_eq_self]
  unfold State.flushRoom
  split
  · refine ⟨{ s.rooms j with standingsDirty := false }, hj, if_neg ?_⟩
    simpa [State.setRoom] using hj
  · exact ⟨s.rooms j, hj, hself.symm⟩

namespace Alike

variable (h : Alike s t)

include h

theorem found {id : Int} (hj : t.roomFind id = some j) : AlikeAt j s t := by
  obtain ⟨hpos, hid⟩ := State.roomFind_some hj
  exact h.inUse (by omega)

theorem sendReject (i : Fin maxSessions) (reason : Int) :
    Alike (s.sendReject env i reason) (t.sendReject env i reason) := by
  unfold State.sendReject
  rw [h.clients]
  exact h.sendMsg env _ _

theorem sendSession (i : Fin maxSessions) :
    Alike (s.sendSession env i) (t.sendSession env i) := by
  unfold State.sendSession State.sendSessionEx
  rw [h.clients]
  exact h.sendMsg env _ _

theorem roomCreate (want : Int) :
    (s.roomCreate want = none ∧ t.roomCreate want = none) ∨
      ∃ j s' t', s.roomCreate want = some (j, s') ∧ t.roomCreate want = some (j, t') ∧
        AlikeAt j s' t' := by
  have hslot : firstSlot s.rooms (fun r => r.id = 0) = firstSlot t.rooms fun r => r.id = 0 := by
    simp only [firstSlot, h.room_id]
  unfold State.roomCreate
  simp only [hslot, h.roomFind]
  cases firstSlot t.rooms fun r => r.id = 0 with
  | none => exact .inl ⟨rfl, rfl⟩
  | some j =>
    refine .inr ⟨j, _, _, rfl, rfl, ?_⟩
    have hsame : ∀ (r q : Room) (id : Int), Room.Same
        { r with id := id, phase := .waiting, seed := 0, nextPlayerId := 0, members := [],
                 standingsDirty := false, haveStandings := false }
        { q with id := id, phase := .waiting, seed := 0, nextPlayerId := 0, members := [],
                 standingsDirty := false, haveStandings := false } :=
      fun r q id => ⟨rfl, rfl, rfl, rfl, rfl, rfl, rfl, fun h => by cases h⟩
    exact ⟨h.setRoom (.inr (hsame _ _ _)), by simpa [State.setRoom] using hsame _ _ _⟩

theorem handleJoin (i : Fin maxSessions) (want : Int) (name : UserName) :
    Alike (s.handleJoin env i want name) (t.handleJoin env i want name) := by
  unfold State.handleJoin
  rw [h.clients, h.roomFind]
  split
  · exact h.sendReject env i _
  split
  · rename_i j hfind
    have hat : AlikeAt j s t := by
      split at hfind
      · cases hfind
      · exact h.found hfind
    rw [hat.room.phase]
    split
    · exact h.sendReject env i _
    · exact (hat.joinRoom env i name false).toAlike
  · rcases h.roomCreate want with ⟨hs, ht⟩ | ⟨j, s', t', hs, ht, hat⟩
    · rw [hs, ht]
      exact h.sendReject env i _
    · rw [hs, ht]
      exact (hat.joinRoom env i name true).toAlike

theorem handleLeave (i : Fin maxSessions) : Alike (s.handleLeave env i) (t.handleLeave env i) := by
  unfold State.handleLeave
  dsimp only
  rw [h.clients, h.roomFind]
  split
  · exact h.sendSession env i
  cases hfind : t.roomFind (t.clients i).state.roomId with
  | none => exact (h.setClient i _).sendSession env i
  | some j =>
    exact (((((h.found hfind).roomDelMember _).setClient i _).sendSessionEx env i false).roomLeft
      env _).toAlike

theorem handleStart (i : Fin maxSessions) : Alike (s.handleStart env i) (t.handleStart env i) := by
  unfold State.handleStart
  dsimp only
  rw [congrFun h.clients i, h.roomFind, h.seeds]
  split
  · exact h.sendReject env i _
  split
  · exact h.sendReject env i _
  split
  · exact h.sendReject env i _
  · rename_i j hfind
    have hat := h.found hfind
    rw [hat.room.phase]
    split
    · exact h.sendReject env i _
    · have hdrawn : AlikeAt j { s with seeds := t.seeds + 1 } { t with seeds := t.seeds + 1 } :=
        ⟨⟨h.clients, h.rooms, h.inited, rfl, h.sent⟩, hat.room⟩
      have hplaying := (hdrawn.setRoom (f := fun r =>
        { r with seed := env.genSeed t.seeds, phase := .playing })
        { hat.room with seed := rfl, phase := rfl }).eachMember (f := fun s i =>
          s.setClient i { s.clients i with
            state := { (s.clients i).state with phase := .playing } }) fun s t i h => by
              rw [h.clients]
              exact h.setClient i _
      exact (hplaying.roomBroadcast env _).roomMarkStandingsDirty.toAlike

theorem handleGarbage (i : Fin maxSessions) (lines : Int) :
    Alike (s.handleGarbage env i lines) (t.handleGarbage env i lines) := by
  unfold State.handleGarbage
  dsimp only
  rw [h.clients, h.roomFind]
  split
  · exact h
  split
  · exact h
  split
  · exact h
  · rename_i j hfind
    have htarget : s.garbageTarget (t.clients i).fd (s.rooms j).members =
        t.garbageTarget (t.clients i).fd (t.rooms j).members := by
      simp only [State.garbageTarget, (h.found hfind).room.members, h.clientFind, h.clients]
    rw [htarget]
    split
    · exact h
    · exact h.sendMsg env _ _

theorem handleScore (i : Fin maxSessions) (score lines : Int) :
    Alike (s.handleScore i score lines) (t.handleScore i score lines) := by
  unfold State.handleScore
  dsimp only
  rw [h.clients]
  split
  · exact h
  split
  · exact h
  · rw [(h.setClient i _).roomFind]
    split
    · exact h.setClient i _
    · rename_i j hfind
      exact ((h.setClient i _).found hfind).roomMarkStandingsDirty.toAlike

theorem handleGameover (i : Fin maxSessions) (score : Int) :
    Alike (s.handleGameover env i score) (t.handleGameover env i score) := by
  unfold State.handleGameover
  dsimp only
  rw [h.clients]
  split
  · exact h
  · rw [(h.setClient i _).roomFind]
    split
    · exact h.setClient i _
    · rename_i j hfind
      exact (((h.setClient i _).found hfind).roomMarkStandingsDirty.roomCheckRoundEnd env).2.toAlike

theorem clientAdd (fd pid : Int) : Alike (s.clientAdd env fd pid) (t.clientAdd env fd pid) := by
  unfold State.clientAdd State.clientAlloc
  dsimp only
  rw [h.ensureInit.clients]
  cases firstSlot t.ensureInit.clients fun c => c.fd < 0 with
  | none => exact h.ensureInit.sendMsg env fd _
  | some i => exact h.ensureInit.setClient i _

theorem clientClose (fd : Int) : Alike (s.clientClose env fd) (t.clientClose env fd) := by
  unfold State.clientClose
  rw [h.clientFind]
  split
  · exact h
  · rename_i i hi
    have hfreed : ∀ {s t : State}, Alike s t → Alike (s.setClient i { s.clients i with fd := -1 })
        (t.setClient i { t.clients i with fd := -1 }) := by
      intro s t h
      rw [h.clients]
      exact h.setClient i _
    dsimp only
    rw [h.clients, h.roomFind]
    split
    · exact hfreed h
    split
    · exact hfreed h
    · rename_i j hfind
      exact hfreed (((h.found hfind).roomDelMember fd).roomLeft env _).toAlike

theorem roomFlushUpdates : Alike (s.roomFlushUpdates env) (t.roomFlushUpdates env) := by
  have hstep : ∀ {s t : State}, Alike s t → ∀ j : Fin maxRooms,
      Alike (s.flushRoom env j) (t.flushRoom env j) := by
    intro s t h j
    by_cases hj : (t.rooms j).id = 0
    · obtain ⟨r, hr, hs⟩ := flushRoom_free env ((h.room_id j).trans hj)
      obtain ⟨q, hq, ht⟩ := flushRoom_free env hj
      rw [hs, ht]
      exact h.setRoom (.inl ⟨hr, hq⟩)
    · have hat := h.inUse hj
      unfold State.flushRoom
      rw [hat.room.standingsDirty]
      split
      · have hclear := hat.setRoom (f := fun r => { r with standingsDirty := false })
          { hat.room with standingsDirty := rfl }
        dsimp only
        rw [hclear.room.id]
        split
        · exact (hclear.roomPushStandings env).toAlike
        · exact hclear.toAlike
      · exact h
  have hloop : ∀ (js : List (Fin maxRooms)) {s t : State}, Alike s t →
      Alike (js.foldl (State.flushRoom env) s) (js.foldl (State.flushRoom env) t) := by
    intro js
    induction js with
    | nil => exact fun h => h
    | cons j js ih => exact fun h => ih (hstep h j)
  exact hloop _ h.ensureInit

theorem run (c : Call) : Alike (c.run env s) (c.run env t) := by
  cases c with
  | add fd pid => exact h.clientAdd env fd pid
  | close fd => exact h.clientClose env fd
  | flush => exact h.roomFlushUpdates env
  | handle fd msg =>
    unfold Call.run State.clientHandle
    dsimp only
    rw [h.clientFind]
    split
    · exact h
    · cases msg with
      | join roomId name => exact h.handleJoin env _ roomId name
      | leave => exact h.handleLeave env _
      | start => exact h.handleStart env _
      | garbage lines => exact h.handleGarbage env _ lines
      | gameover score => exact h.handleGameover env _ score
      | score score lines => exact h.handleScore _ score lines
      | _ => exact h

end Alike

/-- What cannot be told apart stays so, whatever is done next: no call looks
at a free room or at a stale list of standings. -/
theorem Alike.runCalls (calls : List Call) :
    ∀ {s t : State}, Alike s t → Alike (runCalls env s calls) (runCalls env t calls) := by
  induction calls with
  | nil => exact fun h => h
  | cons c calls ih => exact fun h => ih (h.run env c)

/-! ## What is left in a slot -/

/-- Two states that differ in one slot at most, and in rooms that are free in
both. -/
structure AgreeBut (i : Fin maxSessions) (s₁ s₂ : State) : Prop where
  clients : ∀ k, k ≠ i → s₁.clients k = s₂.clients k
  rooms : ∀ j, s₁.rooms j = s₂.rooms j ∨ (s₁.rooms j).id = 0 ∧ (s₂.rooms j).id = 0
  inited : s₁.inited = s₂.inited

/-- What `client_alloc` leaves in a slot. -/
structure SameLeft (c₁ c₂ : Client) : Prop where
  name : c₁.name = c₂.name
  lines : c₁.lines = c₂.lines
  roster : c₁.state.roster = c₂.state.roster
  rosterCount : c₁.state.rosterCount = c₂.state.rosterCount

/-- The record of a new session in a slot that held `c`. -/
def Client.taken (c : Client) (fd pid : Int) : Client :=
  { c with
    fd := fd
    pid := pid
    state := { c.state with phase := .idle, roomId := roomNone, playerId := 0, isOwner := false }
    score := 0 }

theorem SameLeft.taken {c₁ c₂ : Client} (h : SameLeft c₁ c₂) (fd pid : Int) :
    c₁.taken fd pid = c₂.taken fd pid := by
  simp only [Client.taken, h.name, h.lines, h.roster, h.rosterCount]

namespace State

variable {s s₁ s₂ : State} {i : Fin maxSessions} {fd pid : Int}

theorem clientAdd_eq (hslot : firstSlot s.ensureInit.clients (fun c => c.fd < 0) = some i) :
    s.resume.clientAdd env fd pid =
      s.ensureInit.resume.setClient i ((s.ensureInit.clients i).taken fd pid) := by
  have hinit : s.resume.ensureInit = s.ensureInit.resume := by
    unfold State.ensureInit resume
    split <;> rfl
  unfold clientAdd clientAlloc
  rw [hinit]
  simp only [show s.ensureInit.resume.clients = s.ensureInit.clients from rfl, hslot,
    Option.bind_eq_bind, Option.bind_some]
  rfl

theorem ensureInit_agree (h : AgreeBut i s₁ s₂) : AgreeBut i s₁.ensureInit s₂.ensureInit := by
  unfold State.ensureInit
  rw [h.inited]
  split
  · exact h
  · exact ⟨fun k hk => by simp only [h.clients k hk], fun j => .inr ⟨rfl, rfl⟩, rfl⟩

theorem ensureInit_sameLeft :
    SameLeft (s₁.ensureInit.clients i) (s₂.ensureInit.clients i) ↔
      SameLeft (s₁.clients i) (s₂.clients i) := by
  have hsame : ∀ s : State, ∃ fd, s.ensureInit.clients i = { s.clients i with fd := fd } := by
    intro s
    unfold State.ensureInit
    split
    · exact ⟨_, rfl⟩
    · exact ⟨-1, rfl⟩
  obtain ⟨fd₁, h₁⟩ := hsame s₁
  obtain ⟨fd₂, h₂⟩ := hsame s₂
  rw [h₁, h₂]
  exact ⟨fun h => ⟨h.name, h.lines, h.roster, h.rosterCount⟩,
    fun h => ⟨h.name, h.lines, h.roster, h.rosterCount⟩⟩

theorem ensureInit_negative (h : (s.clients i).fd < 0) : (s.ensureInit.clients i).fd < 0 := by
  unfold State.ensureInit
  split
  · exact h
  · show (-1 : Int) < 0
    decide

theorem clientClose_negative (h : s.clientFind fd = some i) :
    ((s.clientClose env fd).clients i).fd < 0 := by
  unfold clientClose
  rw [h]
  simp only [setClient, update_self]
  decide

/-- With the same left in the slot, nothing tells the two states apart: a new
session overwrites all of its record but these. -/
theorem taken_alike (h : AgreeBut i s₁ s₂) (hleft : SameLeft (s₁.clients i) (s₂.clients i)) :
    Alike (s₁.resume.setClient i ((s₁.clients i).taken fd pid))
      (s₂.resume.setClient i ((s₂.clients i).taken fd pid)) := by
  refine ⟨?_, fun j => ?_, h.inited, rfl, rfl⟩
  · funext k
    by_cases hk : k = i
    · subst hk
      simp only [setClient, update_self, hleft.taken]
    · simp only [setClient, update_of_ne hk]
      exact h.clients k hk
  · rcases h.rooms j with heq | hfree
    · exact .inr (heq ▸ Room.Same.refl _)
    · exact .inl hfree

section Taken

variable (hfresh : ∀ k, k ≠ i → (s.clients k).fd ≠ fd)
include hfresh

theorem clientFind_taken :
    (s.resume.setClient i ((s.clients i).taken fd pid)).clientFind fd = some i := by
  refine firstSlot_unique ?_ fun k hk => ?_
  · simp [setClient, Client.taken]
  · by_contra hki
    refine hfresh k hki ?_
    simpa [setClient, resume, hki] using hk

theorem writtenTo_leave :
    (runCalls env (s.resume.setClient i ((s.clients i).taken fd pid))
      [.handle fd .leave]).writtenTo fd =
      [.session ((s.clients i).taken fd pid).state false] := by
  have hself : (s.resume.setClient i ((s.clients i).taken fd pid)).clients i =
      (s.clients i).taken fd pid := by simp [setClient]
  have hsent : (s.resume.setClient i ((s.clients i).taken fd pid)).sent = [] := rfl
  simp only [runCalls, foldl_cons, foldl_nil, Call.run, clientHandle,
    clientFind_taken hfresh, handleLeave, hself]
  rw [if_pos (show ((s.clients i).taken fd pid).state.roomId = roomNone from rfl), sendSession,
    sendSessionEx, hself]
  obtain ⟨wedged, hsend⟩ := sendMsg_eq env
    (s.resume.setClient i ((s.clients i).taken fd pid)) ((s.clients i).taken fd pid).fd
    (.session ((s.clients i).taken fd pid).state false)
  rw [hsend, writtenTo, hsent]
  simp [Client.taken]

end Taken

theorem info_of_snapshot (hs : s₁.inited = true) (ht : s₂.inited = true)
    (hfd : ∀ k, (s₁.clients k).fd = (s₂.clients k).fd)
    (h : s₁.playerSnapshot maxSessions = s₂.playerSnapshot maxSessions)
    (hi : 0 ≤ (s₁.clients i).fd) : (s₁.clients i).info = (s₂.clients i).info := by
  have hinit : ∀ u : State, u.inited = true → u.ensureInit = u := fun u hu => if_pos hu
  have hall : ∀ {α : Type} (f : Fin maxSessions → α) (p : Fin maxSessions → Bool),
      (((List.finRange maxSessions).filter p).map f).take maxSessions =
        ((List.finRange maxSessions).filter p).map f := by
    intro α f p
    refine take_of_length_le ?_
    rw [length_map]
    exact (length_filter_le _ _).trans (le_of_eq length_finRange)
  rw [playerSnapshot, playerSnapshot, hinit _ hs, hinit _ ht, hall, hall] at h
  simp only [← hfd] at h
  exact map_inj_left.mp h i (by simpa using hi)

theorem alike_iff (hagree : AgreeBut i s₁ s₂)
    (hslot : firstSlot s₁.ensureInit.clients (fun c => c.fd < 0) = some i)
    (hfree : (s₂.clients i).fd < 0) (hnew : (Call.add fd pid).ByAdmin s₁) :
    (∀ env cont,
      let t₁ := runCalls env s₁.resume (.add fd pid :: cont)
      let t₂ := runCalls env s₂.resume (.add fd pid :: cont)
      t₁.writtenTo fd = t₂.writtenTo fd ∧
        ∀ max, t₁.playerSnapshot max = t₂.playerSnapshot max) ↔
    SameLeft (s₁.clients i) (s₂.clients i) := by
  have hagree' := ensureInit_agree hagree
  have hslot' : firstSlot s₂.ensureInit.clients (fun c => c.fd < 0) = some i := by
    rw [← hslot]
    have : ∀ k, decide ((s₂.ensureInit.clients k).fd < 0) =
        decide ((s₁.ensureInit.clients k).fd < 0) := by
      intro k
      by_cases hk : k = i
      · subst hk
        rw [decide_eq_true (ensureInit_negative hfree)]
        exact (firstSlot_some hslot).symm
      · rw [hagree'.clients k hk]
    simp only [firstSlot, this]
  have hfresh : ∀ k, (s₁.ensureInit.clients k).fd ≠ fd := by
    intro k hk
    obtain ⟨h0, hreg⟩ := hnew
    unfold State.ensureInit at hk
    split at hk
    · exact hreg k ⟨‹_›, hk ▸ h0⟩ hk
    · have : (-1 : Int) = fd := hk
      omega
  have hfresh' : ∀ k, k ≠ i → (s₂.ensureInit.clients k).fd ≠ fd := fun k hk => by
    rw [← hagree'.clients k hk]
    exact hfresh k
  have hrun : ∀ {s : State} (_ : firstSlot s.ensureInit.clients (fun c => c.fd < 0) = some i) env
      cont, runCalls env s.resume (.add fd pid :: cont) =
        runCalls env (s.ensureInit.resume.setClient i ((s.ensureInit.clients i).taken fd pid))
          cont := by
    intro s hs env cont
    rw [← clientAdd_eq env hs]
    rfl
  rw [← ensureInit_sameLeft]
  constructor
  · intro hsame
    have hrow := (hsame calmEnv []).2 maxSessions
    have hmsg := (hsame calmEnv [.handle fd .leave]).1
    rw [hrun hslot, hrun hslot'] at hrow hmsg
    rw [writtenTo_leave _ fun k _ => hfresh k, writtenTo_leave _ hfresh'] at hmsg
    have hinit : ∀ u : State, u.ensureInit.inited = true := by
      intro u
      unfold State.ensureInit
      split
      · assumption
      · rfl
    have hinfo := @info_of_snapshot
      (s₁.ensureInit.resume.setClient i ((s₁.ensureInit.clients i).taken fd pid))
      (s₂.ensureInit.resume.setClient i ((s₂.ensureInit.clients i).taken fd pid)) i
      (hinit s₁) (hinit s₂) (fun k => ?_) hrow ?_
    · simp only [setClient, update_self, Client.info, Client.taken,
        PlayerInfo.mk.injEq] at hinfo
      simp only [Client.taken, List.cons.injEq, AdminMsg.session.injEq,
        SessionState.mk.injEq] at hmsg
      refine ⟨?_, hinfo.2.2.2.2.2.1, hmsg.1.1.2.2.2.2.1, hmsg.1.1.2.2.2.2.2⟩
      have hname := hinfo.2.2.2.2.2.2
      rwa [CStr.copy_self, CStr.copy_self] at hname
    · by_cases hk : k = i
      · subst hk
        simp [setClient, Client.taken]
      · simp only [setClient, update_of_ne hk]
        exact congrArg Client.fd (hagree'.clients k hk)
    · simpa [setClient, Client.taken] using hnew.1
  · intro hleft env cont
    rw [hrun hslot, hrun hslot']
    have hcont := Alike.runCalls env cont (@taken_alike _ _ i fd pid hagree' hleft)
    exact ⟨hcont.writtenTo fd, hcont.playerSnapshot⟩

end State

/-- The new session in a freed slot gets the same messages and is shown the
same to an operator, whatever is done next, exactly if the two former
sessions left the same name, line count and roster behind. The rooms need
only agree as far as they are in use: what a former session left in a room
that is free again is never seen. -/
theorem recycled_slot_alike_iff (env₁ env₂ : Env) (h₁ h₂ : List Call) (fd fd' pid : Int)
    (i : Fin maxSessions)
    (hclose : (runCalls env₁ .zero h₁).clientFind fd = some i ∧
      (runCalls env₂ .zero h₂).clientFind fd = some i)
    (hagree : AgreeBut i (runCalls env₁ .zero (h₁ ++ [.close fd]))
      (runCalls env₂ .zero (h₂ ++ [.close fd])))
    (hslot : firstSlot (runCalls env₁ .zero (h₁ ++ [.close fd])).ensureInit.clients
      (fun c => c.fd < 0) = some i)
    (hnew : (Call.add fd' pid).ByAdmin (runCalls env₁ .zero (h₁ ++ [.close fd]))) :
    (∀ env cont,
      let t₁ := runCalls env (runCalls env₁ .zero (h₁ ++ [.close fd])).resume
        (.add fd' pid :: cont)
      let t₂ := runCalls env (runCalls env₂ .zero (h₂ ++ [.close fd])).resume
        (.add fd' pid :: cont)
      t₁.writtenTo fd' = t₂.writtenTo fd' ∧
        ∀ max, t₁.playerSnapshot max = t₂.playerSnapshot max) ↔
    SameLeft ((runCalls env₁ .zero (h₁ ++ [.close fd])).clients i)
      ((runCalls env₂ .zero (h₂ ++ [.close fd])).clients i) := by
  refine State.alike_iff hagree hslot ?_ hnew
  rw [runCalls_append_singleton]
  exact State.clientClose_negative env₂ hclose.2

section Inputs

def ann : UserName := CStr.copy _ (bytes "ann")

def bob : UserName := CStr.copy _ (bytes "bob")

/-- A session makes a room under some name. -/
def hosted (name : UserName) : List Call := [.add 5 100, .handle 5 (.join 0 name)]

/-- It plays a round there, and the standings of the round are sent. -/
def played (name : UserName) : List Call :=
  hosted name ++ [.handle 5 .start, .handle 5 (.gameover 300)]

/-- The round of a former session is not left behind in its slot, only in the
room that is free again, and makes no difference to the next one. -/
theorem recycled_slot_alike_played :
    let t₁ := runCalls calmEnv (runCalls calmEnv .zero (hosted ann ++ [.close 5])).resume
      [.add 6 101, .handle 6 .leave]
    let t₂ := runCalls calmEnv (runCalls calmEnv .zero (played ann ++ [.close 5])).resume
      [.add 6 101, .handle 6 .leave]
    t₁.writtenTo 6 = t₂.writtenTo 6 ∧ ∀ max, t₁.playerSnapshot max = t₂.playerSnapshot max := by
  refine (recycled_slot_alike_iff calmEnv calmEnv _ _ 5 6 101 ⟨0, by decide +kernel⟩ ?_ ?_ ?_
    ?_).mpr ?_ calmEnv [.handle 6 .leave]
  · decide +kernel
  · constructor <;> decide +kernel
  · decide +kernel
  · refine ⟨by decide, ?_⟩
    unfold State.Registered
    decide +kernel
  · constructor <;> decide +kernel

/-- The next session shows the name of the one before, and a LEAVE from it
is answered with a roster that lists that name. -/
theorem recycled_slot_shows_name :
    AgreeBut ⟨0, by decide +kernel⟩ (runCalls calmEnv .zero (played ann ++ [.close 5]))
      (runCalls calmEnv .zero (played bob ++ [.close 5])) ∧
    let t₁ := runCalls calmEnv (runCalls calmEnv .zero (played ann ++ [.close 5])).resume
      [.add 6 101, .handle 6 .leave]
    let t₂ := runCalls calmEnv (runCalls calmEnv .zero (played bob ++ [.close 5])).resume
      [.add 6 101, .handle 6 .leave]
    (t₁.playerSnapshot 1).map PlayerInfo.name = [ann] ∧
      (t₂.playerSnapshot 1).map PlayerInfo.name = [bob] ∧ t₁.writtenTo 6 ≠ t₂.writtenTo 6 := by
  refine ⟨?_, ?_⟩
  · constructor <;> decide +kernel
  · decide +kernel

end Inputs

end Corestack.Tetrisd
