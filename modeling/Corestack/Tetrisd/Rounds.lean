import Corestack.Tetrisd.Fair
import Corestack.Tetrisd.Tables

/-!
# Rounds of the room module

The tables of `room.c` seen as a hall: every message handler does to them what
the handler of the hall of the same name does, and announces results to the
same sessions. So a round of a room never gets stuck, its end is announced
once to each member, and it starts once before it ends again.
-/

namespace Corestack.Tetrisd

open List Lib
open Corestack.Core (UserName)

/-! ## The tables of the room module as a hall -/

def Client.player (c : Client) : Player := ⟨c.fd, c.state.roomId, c.state.isOwner, c.state.phase⟩

def Room.table (r : Room) : Table := ⟨r.id, r.members, r.phase⟩

/-- Whom a written message announces a result to. -/
def resultTo : Int × AdminMsg → Option Int
  | (fd, .result _) => some fd
  | _ => none

namespace State

def hall (s : State) : Hall where
  player := fun i => (s.clients i).player
  table := fun j => (s.rooms j).table
  inited := s.inited
  results := s.sent.filterMap resultTo

variable {env : Env}

@[simp] theorem hall_player (s : State) (i : Fin maxSessions) :
    s.hall.player i = (s.clients i).player := rfl

@[simp] theorem hall_table (s : State) (j : Fin maxRooms) : s.hall.table j = (s.rooms j).table :=
  rfl

theorem hall_setClient (s : State) (i : Fin maxSessions) (c : Client) :
    (s.setClient i c).hall = s.hall.setPlayer i c.player := by
  simp only [hall, setClient, Hall.setPlayer, Hall.mk.injEq, and_true]
  funext k
  by_cases hk : k = i
  · subst hk; simp
  · simp [hk]

theorem hall_setRoom (s : State) (j : Fin maxRooms) (r : Room) :
    (s.setRoom j r).hall = s.hall.setTable j r.table := by
  simp only [hall, setRoom, Hall.setTable, Hall.mk.injEq, true_and, and_true]
  funext l
  by_cases hl : l = j
  · subst hl; simp
  · simp [hl]

theorem hall_setClient_self (s : State) {i : Fin maxSessions} {c : Client}
    (h : c.player = (s.clients i).player) : (s.setClient i c).hall = s.hall := by
  rw [hall_setClient, h]
  exact s.hall.setPlayer_self i

theorem hall_setRoom_self (s : State) {j : Fin maxRooms} {r : Room}
    (h : r.table = (s.rooms j).table) : (s.setRoom j r).hall = s.hall := by
  rw [hall_setRoom, h]
  exact s.hall.setTable_self j

theorem hall_sendMsg (s : State) {fd : Int} {m : AdminMsg} (h : resultTo (fd, m) = none) :
    (s.sendMsg env fd m).hall = s.hall := by
  obtain ⟨wedged, hsend⟩ := sendMsg_eq env s fd m
  rw [hsend]
  simp [hall, h]

theorem hall_sendMsg_result (s : State) (fd won : Int) :
    (s.sendMsg env fd (.result won)).hall = { s.hall with results := s.hall.results ++ [fd] } := by
  obtain ⟨wedged, hsend⟩ := sendMsg_eq env s fd (.result won)
  rw [hsend]
  simp [hall, resultTo]

theorem hall_broadcast (s : State) (j : Fin maxRooms) {m : AdminMsg}
    (h : ∀ fd, resultTo (fd, m) = none) : (s.roomBroadcast env j m).hall = s.hall := by
  unfold roomBroadcast
  induction (s.rooms j).members generalizing s with
  | nil => rfl
  | cons fd fds ih => rw [foldl_cons, ih, hall_sendMsg s (h fd)]

theorem hall_broadcast_result (s : State) (j : Fin maxRooms) (won : Int) :
    (s.roomBroadcast env j (.result won)).hall =
      { s.hall with results := s.hall.results ++ (s.rooms j).members } := by
  unfold roomBroadcast
  induction (s.rooms j).members generalizing s with
  | nil => simp [hall]
  | cons fd fds ih =>
    rw [foldl_cons, ih, hall_sendMsg_result]
    simp

theorem clientFind_hall (s : State) (fd : Int) : s.clientFind fd = s.hall.find fd := by
  rfl

theorem roomFind_hall (s : State) (id : Int) : s.roomFind id = s.hall.roomFind id := by
  rfl

/-! ## Every call is a step of the hall -/

/-- A test of the source reads what the hall keeps, so the hall tests the
same. -/
theorem hall_ite {p : Prop} [Decidable p] {a b : State} {x y : Hall} (ha : p → a.hall = x)
    (hb : ¬ p → b.hall = y) : (if p then a else b).hall = if p then x else y := by
  split
  · exact ha ‹_›
  · exact hb ‹_›

theorem hall_ensureInit (s : State) : s.ensureInit.hall = s.hall.ensureInit := by
  unfold ensureInit Hall.ensureInit
  have : s.hall.inited = s.inited := rfl
  rw [this]
  split <;> rfl

theorem hall_eachMember (s : State) (j : Fin maxRooms) {f : State → Fin maxSessions → State}
    {g : Hall → Fin maxSessions → Hall} (hfg : ∀ s i, (f s i).hall = g s.hall i) :
    (s.eachMember j f).hall = (s.rooms j).members.foldl
      (fun t fd =>
        match t.find fd with
        | none => t
        | some i => g t i)
      s.hall := by
  unfold eachMember
  induction (s.rooms j).members generalizing s with
  | nil => rfl
  | cons fd fds ih =>
    rw [foldl_cons, foldl_cons, ih, clientFind_hall]
    cases s.hall.find fd with
    | none => rfl
    | some i => simp only [hfg]

theorem hall_eachMember_self (s : State) (j : Fin maxRooms) {f : State → Fin maxSessions → State}
    (hf : ∀ s i, (f s i).hall = s.hall) : (s.eachMember j f).hall = s.hall := by
  rw [hall_eachMember s j (g := fun t _ => t) hf]
  induction (s.rooms j).members with
  | nil => rfl
  | cons fd fds ih =>
    rw [foldl_cons]
    cases s.hall.find fd <;> exact ih

theorem hall_setPhase (phase : SessionPhase) (s : State) (i : Fin maxSessions) (c : Client)
    (h : c.player = { (s.clients i).player with phase := phase }) :
    (s.setClient i c).hall = s.hall.setPlayer i { s.hall.player i with phase := phase } := by
  rw [hall_setClient, h]
  rfl

theorem hall_pushSessions (s : State) (j : Fin maxRooms) (creator : Option Int) :
    (s.roomPushSessionsEx env j creator).hall = s.hall := by
  unfold roomPushSessionsEx
  split
  · rfl
  · refine hall_eachMember_self s j fun s i => ?_
    exact (hall_sendMsg _ rfl).trans (hall_setClient_self _ rfl)

theorem hall_pushStandings (s : State) (j : Fin maxRooms) :
    (s.roomPushStandings env j).hall = s.hall := by
  unfold roomPushStandings
  split
  · rfl
  · dsimp only
    split
    · rfl
    · exact (hall_broadcast _ _ fun _ => rfl).trans (hall_setRoom_self _ rfl)

theorem hall_markDirty (s : State) (j : Fin maxRooms) :
    (s.roomMarkStandingsDirty j).hall = s.hall := hall_setRoom_self _ rfl

theorem hall_announced (s : State) (j : Fin maxRooms) :
    ((s.setRoom j { s.rooms j with haveStandings := false }).roomMarkStandingsDirty j).hall =
      s.hall := (hall_markDirty _ _).trans (hall_setRoom_self _ rfl)

theorem memberClients_hall (s : State) (j : Fin maxRooms) :
    (s.memberClients j).map Client.player = s.hall.players (s.rooms j).members := by
  unfold memberClients Hall.players
  rw [map_filterMap]
  refine filterMap_congr fun fd _ => ?_
  rw [clientFind_hall, Option.map_map]
  rfl

theorem hall_reset (s : State) (j : Fin maxRooms) (won : Int) :
    (let s := s.roomBroadcast env j (.result won)
     let s := s.setRoom j { s.rooms j with phase := .waiting }
     s.eachMember j fun s i =>
      let m := s.clients i
      s.setClient i
        { m with state := { m.state with phase := .waiting }, score := 0, lines := 0 }).hall =
    (({ s.hall with results := s.hall.results ++ (s.hall.table j).members }).setTable j
      { s.hall.table j with phase := .waiting }).setPhases .waiting (s.hall.table j).members := by
  have hsent := @hall_broadcast_result env s j won
  generalize s.roomBroadcast env j (.result won) = s' at hsent
  have htable : (s'.rooms j).table = s.hall.table j :=
    congrArg (fun t => Hall.table t j) hsent
  have hmembers : (s'.rooms j).members = (s.hall.table j).members := congrArg Table.members htable
  have hroom : Room.table { s'.rooms j with phase := .waiting } =
      { s.hall.table j with phase := .waiting } := by
    rw [← htable]
    rfl
  rw [hall_eachMember _ j (g := fun t i => t.setPlayer i { t.player i with phase := .waiting })
    fun s i => hall_setPhase .waiting s i _ rfl, hall_setRoom, hroom, hsent]
  simp only [setRoom, Function.update_self, hmembers]
  rfl

theorem hall_checkRoundEnd (s : State) (j : Fin maxRooms) :
    (s.roomCheckRoundEnd env j).2.hall = s.hall.checkRoundEnd j := by
  have hany : (s.memberClients j).any (fun m => m.state.phase ≠ .gameOver) =
      (s.hall.players (s.hall.table j).members).any fun p => p.phase ≠ .gameOver := by
    rw [show (s.hall.table j).members = (s.rooms j).members from rfl, ← memberClients_hall,
      any_map]
    rfl
  have hpushed : ((s.setRoom j { s.rooms j with standingsDirty := false }).roomPushStandings
      env j).hall = s.hall := (hall_pushStandings _ j).trans (hall_setRoom_self _ rfl)
  unfold roomCheckRoundEnd Hall.checkRoundEnd
  rw [hany, apply_ite Prod.snd, apply_ite Prod.snd, apply_ite Prod.snd]
  refine hall_ite (fun _ => rfl) fun _ => hall_ite (fun _ => rfl) fun _ =>
    hall_ite (fun _ => rfl) fun _ => ?_
  have hreset := @hall_reset env
    ((s.setRoom j { s.rooms j with standingsDirty := false }).roomPushStandings env j) j
    (winner (s.memberClients j))
  rw [hpushed] at hreset
  exact hreset

theorem hall_sit (s : State) (i : Fin maxSessions) (j : Fin maxRooms) (name : UserName)
    (created : Bool) : (s.joinRoom env i j name created).hall = s.hall.sit i j := by
  unfold joinRoom Hall.sit
  refine hall_ite (fun _ => hall_sendMsg _ rfl) fun _ => ?_
  rw [hall_announced, hall_pushSessions, hall_setClient, hall_setRoom]
  rfl

theorem hall_create (s : State) (want : Int) :
    (s.roomCreate want).map (fun x => (x.1, x.2.hall)) = s.hall.create want := by
  have hslot : firstSlot s.hall.table (fun r => r.id = 0) = firstSlot s.rooms fun r => r.id = 0 :=
    rfl
  have hused : (fun cand => (s.hall.roomFind cand).isSome) =
      fun cand => (s.roomFind cand).isSome := by
    funext cand
    rw [roomFind_hall]
  unfold roomCreate Hall.create
  rw [hslot, hused]
  cases firstSlot s.rooms fun r => r.id = 0 with
  | none => rfl
  | some j =>
    simp only [Option.bind_eq_bind, Option.bind_some, Option.map_some, hall_setRoom]
    rfl

theorem hall_join (s : State) (i : Fin maxSessions) (want : Int) (name : UserName) :
    (s.handleJoin env i want name).hall = s.hall.join i want := by
  unfold handleJoin Hall.join
  rw [← roomFind_hall, ← hall_create]
  refine hall_ite (fun _ => hall_sendMsg _ rfl) fun _ => ?_
  cases if want = 0 then none else s.roomFind want with
  | some j => exact hall_ite (fun _ => hall_sendMsg _ rfl) fun _ => hall_sit _ _ _ _ _
  | none =>
    cases s.roomCreate want with
    | none => exact hall_sendMsg _ rfl
    | some x => exact hall_sit _ _ _ _ _

theorem hall_promote (s : State) (fd : Int) :
    (match s.clientFind fd with
      | none => s
      | some o =>
        let c := s.clients o
        s.setClient o { c with state := { c.state with isOwner := true } }).hall =
      s.hall.promote fd := by
  unfold Hall.promote
  rw [clientFind_hall]
  cases s.hall.find fd with
  | none => rfl
  | some o => exact hall_setClient _ _ _

theorem hall_left (s : State) (j : Fin maxRooms) (w : Bool) :
    (s.roomLeft env j w).hall = s.hall.left j w := by
  unfold roomLeft Hall.left
  have hmembers : (s.hall.table j).members = (s.rooms j).members := rfl
  rw [hmembers]
  cases (s.rooms j).members with
  | nil => exact hall_setRoom _ _ _
  | cons first rest =>
    have hrest : ∀ s' : State, (let r := s'.roomCheckRoundEnd env j
        let s := r.2.roomPushSessions env j
        if r.1 then s else s.roomMarkStandingsDirty j).hall = s'.hall.checkRoundEnd j := by
      intro s'
      dsimp only
      rw [← @hall_checkRoundEnd env]
      split
      · exact hall_pushSessions _ _ _
      · exact (hall_markDirty _ _).trans (hall_pushSessions _ _ _)
    refine (hrest _).trans ?_
    cases w with
    | false => rfl
    | true => exact congrArg (fun t => Hall.checkRoundEnd t j) (hall_promote s first)

theorem hall_strike (s : State) (j : Fin maxRooms) (fd : Int) :
    (s.roomDelMember j fd).hall = s.hall.strike j fd := hall_setRoom _ _ _

theorem hall_leave (s : State) (i : Fin maxSessions) :
    (s.handleLeave env i).hall = s.hall.leave i := by
  unfold handleLeave Hall.leave
  dsimp only
  rw [← roomFind_hall]
  refine hall_ite (fun _ => hall_sendMsg _ rfl) fun _ => ?_
  rw [show (s.hall.player i).roomId = (s.clients i).state.roomId from rfl]
  cases s.roomFind (s.clients i).state.roomId with
  | none => exact (hall_sendMsg _ rfl).trans (hall_setClient _ _ _)
  | some j =>
    refine (hall_left _ _ _).trans ?_
    refine congrArg (fun t => Hall.left t j (s.clients i).state.isOwner) ?_
    refine (hall_sendMsg _ rfl).trans ?_
    rw [hall_setClient, hall_strike]
    rfl

theorem hall_start (s : State) (i : Fin maxSessions) :
    (s.handleStart env i).hall = s.hall.start i := by
  unfold handleStart Hall.start
  dsimp only
  rw [← roomFind_hall]
  refine hall_ite (fun _ => hall_sendMsg _ rfl) fun _ => ?_
  refine hall_ite (fun _ => hall_sendMsg _ rfl) fun _ => ?_
  rw [show (s.hall.player i).roomId = (s.clients i).state.roomId from rfl]
  cases s.roomFind (s.clients i).state.roomId with
  | none => exact hall_sendMsg _ rfl
  | some j =>
    refine hall_ite (fun _ => hall_sendMsg _ rfl) fun _ => ?_
    rw [hall_markDirty, hall_broadcast _ _ fun _ => rfl,
      hall_eachMember _ j (g := fun t i => t.setPlayer i { t.player i with phase := .playing })
        fun s i => hall_setPhase .playing s i _ rfl, hall_setRoom]
    simp only [setRoom, Function.update_self]
    rfl

theorem hall_reported (s : State) (id : Int) :
    (match s.roomFind id with
      | none => s
      | some j => ((s.roomMarkStandingsDirty j).roomCheckRoundEnd env j).2).hall =
    match s.hall.roomFind id with
    | none => s.hall
    | some j => s.hall.checkRoundEnd j := by
  rw [roomFind_hall]
  cases s.hall.roomFind id with
  | none => rfl
  | some j =>
    rw [hall_checkRoundEnd, hall_markDirty]

theorem hall_gameover (s : State) (i : Fin maxSessions) (score : Int) :
    (s.handleGameover env i score).hall = s.hall.gameover i := by
  unfold handleGameover Hall.gameover
  refine hall_ite (fun _ => rfl) fun _ => (hall_reported _ _).trans ?_
  rw [hall_setClient]
  rfl

theorem hall_garbage (s : State) (i : Fin maxSessions) (lines : Int) :
    (s.handleGarbage env i lines).hall = s.hall := by
  unfold handleGarbage
  dsimp only
  split
  · rfl
  split
  · rfl
  split
  · rfl
  split
  · rfl
  · exact hall_sendMsg _ rfl

theorem hall_score (s : State) (i : Fin maxSessions) (score lines : Int) :
    (s.handleScore i score lines).hall = s.hall := by
  unfold handleScore
  dsimp only
  split
  · rfl
  split
  · rfl
  split
  · exact hall_setClient_self _ rfl
  · exact (hall_markDirty _ _).trans (hall_setClient_self _ rfl)

theorem hall_add (s : State) (fd pid : Int) : (s.clientAdd env fd pid).hall = s.hall.add fd := by
  unfold clientAdd clientAlloc Hall.add
  dsimp only
  rw [← hall_ensureInit,
    show firstSlot s.ensureInit.hall.player (fun p => p.fd < 0) =
      firstSlot s.ensureInit.clients fun c => c.fd < 0 from rfl]
  cases firstSlot s.ensureInit.clients fun c => c.fd < 0 with
  | none => exact hall_sendMsg _ rfl
  | some i => exact hall_setClient _ _ _

theorem hall_close (s : State) (fd : Int) : (s.clientClose env fd).hall = s.hall.close fd := by
  unfold clientClose Hall.close
  rw [clientFind_hall]
  cases s.hall.find fd with
  | none => rfl
  | some i =>
    dsimp only
    rw [hall_setClient, ← roomFind_hall]
    have hgone : ∀ {s' : State} {t : Hall}, s'.hall = t →
        s'.hall.setPlayer i (Client.player { s'.clients i with fd := -1 }) =
          t.setPlayer i { t.player i with fd := -1 } := by
      rintro s' t rfl
      rfl
    refine hgone (hall_ite (fun _ => rfl) fun _ => ?_)
    rw [show (s.hall.player i).roomId = (s.clients i).state.roomId from rfl]
    cases s.roomFind (s.clients i).state.roomId with
    | none => rfl
    | some j =>
      exact (hall_left _ _ _).trans (congrArg (fun t => Hall.left t j _) (hall_strike _ _ _))

theorem hall_flush (s : State) : (s.roomFlushUpdates env).hall = s.hall.ensureInit := by
  unfold roomFlushUpdates
  rw [← hall_ensureInit]
  generalize s.ensureInit = s
  induction List.finRange maxRooms generalizing s with
  | nil => rfl
  | cons j js ih =>
    rw [foldl_cons, ih]
    unfold flushRoom
    split
    · dsimp only
      split
      · exact (hall_pushStandings _ _).trans (hall_setRoom_self _ rfl)
      · exact hall_setRoom_self _ rfl
    · rfl

theorem hall_handle (s : State) (fd : Int) (msg : AdminMsg) :
    (s.clientHandle env fd msg).hall = s.hall.handle fd msg := by
  unfold clientHandle Hall.handle
  rw [clientFind_hall]
  cases s.hall.find fd with
  | none => rfl
  | some i =>
    cases msg with
    | join want name => exact hall_join s i want name
    | leave => exact hall_leave s i
    | start => exact hall_start s i
    | gameover score => exact hall_gameover s i score
    | garbage lines => exact hall_garbage s i lines
    | score score lines => exact hall_score s i score lines
    | _ => rfl

/-- The room module goes through the states of the hall, call by call, so
what is proved of the hall holds of the tables of the room module. -/
theorem hall_run (s : State) (c : Call) : (c.run env s).hall = s.hall.step c := by
  cases c with
  | add fd pid => exact hall_add s fd pid
  | handle fd msg => exact hall_handle s fd msg
  | close fd => exact hall_close s fd
  | flush => exact hall_flush s

/-! ## What is promised -/

/-- The record under which a member of the room is found. -/
def Member (s : State) (j : Fin maxRooms) (i : Fin maxSessions) : Prop :=
  ∃ fd ∈ (s.rooms j).members, s.clientFind fd = some i

def NeverStuck (s : State) : Prop :=
  ∀ j, s.RoomInUse j → (s.rooms j).phase = .playing →
    ∃ i, s.Member j i ∧ (s.clients i).state.phase ≠ .gameOver

/-- The descriptors a result was written to, in order. -/
def results (s : State) : List Int := s.sent.filterMap resultTo

end State

/-- A call that ends the round of a room. -/
structure RoundEnds (s s' : State) (j : Fin maxRooms) : Prop where
  before : s.RoomInUse j
  after : s'.RoomInUse j
  playing : (s.rooms j).phase = .playing
  waiting : (s'.rooms j).phase = .waiting

/-- A START from the owner of the room, one of its members, while no round
is on. -/
def ownerStarts (s : State) (j : Fin maxRooms) : Call → Bool
  | .handle fd .start =>
    match s.clientFind fd with
    | none => false
    | some i => (s.clients i).state.isOwner && fd ∈ (s.rooms j).members &&
        decide ((s.rooms j).phase ≠ .playing)
  | _ => false

/-- How often the owner started the room along a run. -/
def startsOf (env : Env) (j : Fin maxRooms) : State → List Call → Nat
  | _, [] => 0
  | s, c :: calls => (if ownerStarts s j c then 1 else 0) + startsOf env j (c.run env s) calls

/-- A call that a server makes in this state. -/
def Call.Served (s : State) (c : Call) : Prop := c.ProperFor s.inited fun i => (s.clients i).fd

namespace State

variable {env : Env} {s : State} {j : Fin maxRooms} {c : Call}

theorem fair_zero : State.zero.hall.Fair Hall.nobody := by
  exact ⟨⟨fun hj => (hj rfl).elim, fun hj => (hj rfl).elim, fun _ hown =>
    absurd hown Bool.false_ne_true⟩, fun hj => (hj rfl).elim⟩

variable (env) in
theorem advances (h : s.hall.Fair Hall.nobody) (hcall : c.Served s) :
    Hall.Advances s.hall c (c.run env s).hall := by
  rw [hall_run]
  exact h.step hcall

theorem neverStuck_of_fair (h : s.hall.Fair Hall.nobody) : s.NeverStuck := by
  intro j hj hplay
  obtain ⟨i, ⟨fd, hfd, hfind⟩, hphase⟩ := (h.going hj).live hplay
  exact ⟨i, ⟨fd, hfd, (s.clientFind_hall fd).trans hfind⟩, hphase⟩

theorem roundEnds_announced (h : s.hall.Fair Hall.nobody) (hcall : c.Served s)
    (hend : RoundEnds s (c.run env s) j) :
    (c.run env s).results = s.results ++ ((c.run env s).rooms j).members ∧
    ((c.run env s).rooms j).members.Nodup ∧
    ∀ fd ∈ ((c.run env s).rooms j).members, ∃ i, (c.run env s).clientFind fd = some i ∧
      ((c.run env s).clients i).state.phase = .waiting := by
  obtain ⟨hfair, hturn⟩ := advances env h hcall
  have hnodup := (hfair.seated (j := j) hend.after).nodup
  cases hturn j hend.before hend.after with
  | rests hrests =>
    cases hrests with
    | same heq =>
      have : ((c.run env s).rooms j).phase = (s.rooms j).phase := heq
      rw [hend.waiting, hend.playing] at this
      cases this
    | ended _ _ hmembers hresults =>
      refine ⟨hresults, hnodup, fun fd hfd => ?_⟩
      obtain ⟨i, hi, hphase⟩ := hmembers fd hfd
      exact ⟨i, (clientFind_hall _ fd).trans hi, hphase⟩
  | started _ _ _ _ _ _ _ hplay =>
    have : ((c.run env s).rooms j).phase = .playing := hplay
    rw [hend.waiting] at this
    cases this

variable (env) in
/-- A round starts only when its owner asks for it, and then it does: a START
from anybody else, or while a round is on, starts none. -/
theorem starts_iff (h : s.hall.Fair Hall.nobody) (hcall : c.Served s) (hj : s.RoomInUse j)
    (hj' : (c.run env s).RoomInUse j) :
    ownerStarts s j c = true ↔
      (s.rooms j).phase ≠ .playing ∧ ((c.run env s).rooms j).phase = .playing := by
  constructor
  · intro hstart
    unfold ownerStarts at hstart
    split at hstart
    · rename_i fd
      cases hfind : s.clientFind fd with
      | none =>
        rw [hfind] at hstart
        cases hstart
      | some i =>
        rw [hfind] at hstart
        simp only [Bool.and_eq_true, decide_eq_true_eq] at hstart
        obtain ⟨⟨hown, hmem⟩, hwait⟩ := hstart
        refine ⟨hwait, ?_⟩
        rw [clientFind_hall] at hfind
        have hnamed := h.listed_named hfind hj hmem
        have hpos := (h.seated (j := j) hj).positive
        have hroom : s.hall.roomFind (s.hall.player i).roomId = some j := by
          rw [hnamed, Hall.roomFind, if_neg (by omega)]
          exact firstSlot_unique (by simp) fun l hl => h.ids hj (of_decide_eq_true hl)
        have hrun : (Call.run env s (.handle fd .start)).hall = s.hall.start i := by
          rw [hall_run]
          simp only [Hall.step, Hall.handle, hfind]
        have hout : ¬ (s.hall.player i).roomId = roomNone := by
          rw [hnamed, roomNone]
          omega
        show ((Call.run env s (.handle fd .start)).hall.table j).phase = .playing
        rw [hrun, Hall.start]
        simp only [if_neg hout, show (s.hall.player i).isOwner = true from hown, not_true, if_false,
          hroom, if_neg (show ¬ (s.hall.table j).phase = .playing from hwait),
          Hall.setPhases_table, Hall.setTable_table]
    · cases hstart
  · rintro ⟨hwait, hplay⟩
    obtain ⟨-, hturn⟩ := advances env h hcall
    cases hturn j hj hj' with
    | rests hrests =>
      cases hrests with
      | same heq => exact absurd (heq.symm.trans hplay) hwait
      | ended hplay' => exact absurd hplay' hwait
    | started fd i hc hfind hown hmem _ _ =>
      subst hc
      have hfind' : s.clientFind fd = some i := (s.clientFind_hall fd).trans hfind
      simp only [ownerStarts, hfind', Bool.and_eq_true, decide_eq_true_eq]
      exact ⟨⟨hown, hmem⟩, hwait⟩

end State

/-! ## Whole runs -/

section Runs

variable {env : Env} {j : Fin maxRooms}

theorem fair_run {calls : List Call} (hcalls : EachCall env (fun s c => c.Served s) calls) :
    (runCalls env .zero calls).hall.Fair Hall.nobody := by
  induction calls using List.reverseRecOn with
  | nil => exact State.fair_zero
  | append_singleton calls c ih =>
    rw [eachCall_append_singleton] at hcalls
    rw [runCalls_append_singleton]
    exact (State.advances env (ih hcalls.1) hcalls.2).fair

/-- As long as a room is in use and its round is not ended, one start makes
the difference between a room that waits and a room that plays. -/
theorem startsOf_eq : ∀ {calls : List Call} {s : State}, s.hall.Fair Hall.nobody →
    (∀ q c, q ++ [c] <+: calls → c.Served (runCalls env s q)) →
    (∀ q, q <+: calls → (runCalls env s q).RoomInUse j) →
    (∀ q c, q ++ [c] <+: calls → ¬ RoundEnds (runCalls env s q) (c.run env (runCalls env s q)) j) →
    startsOf env j s calls + (if (s.rooms j).phase = .playing then 1 else 0) =
      if ((runCalls env s calls).rooms j).phase = .playing then 1 else 0
  | [], s, _, _, _, _ => by
    rw [startsOf, Nat.zero_add]
    rfl
  | c :: calls, s, h, hserved, huse, hends => by
    have hc := hserved [] c (by simp)
    have hj := huse [] nil_prefix
    have hj' : (c.run env s).RoomInUse j := huse [c] (by simp)
    have hstep : ∀ q, runCalls env s (c :: q) = runCalls env (c.run env s) q := fun _ => rfl
    have hcons : ∀ {q d}, q ++ [d] <+: calls → c :: q ++ [d] <+: c :: calls := fun hq =>
      cons_prefix_cons.mpr ⟨rfl, hq⟩
    have ih := startsOf_eq (State.advances env h hc).fair
      (fun q d hq => hserved (c :: q) d (hcons hq))
      (fun q hq => huse (c :: q) (cons_prefix_cons.mpr ⟨rfl, hq⟩))
      (fun q d hq => hends (c :: q) d (hcons hq))
    rw [hstep, ← ih, startsOf]
    have hstart := State.starts_iff env h hc hj hj'
    have hnoend := hends [] c (by simp)
    by_cases hplay : (s.rooms j).phase = .playing
    · have hno : ownerStarts s j c = false := by
        rw [Bool.eq_false_iff]
        exact fun hyes => (hstart.mp hyes).1 hplay
      have hstill : ((c.run env s).rooms j).phase = .playing := by
        by_contra hstop
        have hfair := (State.advances env h hc).fair
        have hwait := (hfair.going (j := j) hj').phase.resolve_right hstop
        exact hnoend ⟨hj, hj', hplay, hwait⟩
      rw [hno, if_pos hplay, if_pos hstill]
      simp
    · rw [if_neg hplay]
      by_cases hnew : ((c.run env s).rooms j).phase = .playing
      · rw [hstart.mpr ⟨hplay, hnew⟩, if_pos hnew]
        simp [Nat.add_comm]
      · have hno : ownerStarts s j c = false := by
          rw [Bool.eq_false_iff]
          exact fun hyes => hnew (hstart.mp hyes).2
        rw [hno, if_neg hnew]
        simp

end Runs

/-- No round gets stuck; the end of a round is announced once to each member
there at that moment, who all wait again; a round starts exactly when the
owner asks for one; and between two ends of the round of a room it was
started once. -/
theorem rounds_end (env : Env) (calls : List Call)
    (hcalls : EachCall env (fun s c => c.Served s) calls) :
    (∀ pre, pre <+: calls → (runCalls env .zero pre).NeverStuck) ∧
    (∀ pre c, pre ++ [c] <+: calls → ∀ j,
      let s := runCalls env .zero pre
      let s' := c.run env s
      (RoundEnds s s' j →
        s'.results = s.results ++ (s'.rooms j).members ∧ (s'.rooms j).members.Nodup ∧
        ∀ fd ∈ (s'.rooms j).members, ∃ i, s'.clientFind fd = some i ∧
          (s'.clients i).state.phase = .waiting) ∧
      (s.RoomInUse j → s'.RoomInUse j →
        (ownerStarts s j c = true ↔
          (s.rooms j).phase ≠ .playing ∧ (s'.rooms j).phase = .playing))) ∧
    ∀ pre a mid b, pre ++ a :: mid ++ [b] <+: calls → ∀ j,
      let s := runCalls env .zero pre
      let s₁ := a.run env s
      let s₂ := runCalls env s₁ mid
      RoundEnds s s₁ j → RoundEnds s₂ (b.run env s₂) j →
      (∀ q, q <+: mid → (runCalls env s₁ q).RoomInUse j) →
      (∀ q c, q ++ [c] <+: mid →
        ¬ RoundEnds (runCalls env s₁ q) (c.run env (runCalls env s₁ q)) j) →
      startsOf env j s₁ mid = 1 := by
  have hserved : ∀ {pre c}, pre ++ [c] <+: calls → c.Served (runCalls env .zero pre) :=
    fun h => hcalls _ _ h
  have hfair : ∀ {pre}, pre <+: calls → (runCalls env .zero pre).hall.Fair Hall.nobody :=
    fun h => fair_run fun q c hq => hcalls q c (hq.trans h)
  refine ⟨fun pre hpre => State.neverStuck_of_fair (hfair hpre),
    fun pre c hpre j => ⟨fun hend => ?_,
    fun hj hj' => ?_⟩, fun pre a mid b hpre j => ?_⟩
  · exact State.roundEnds_announced (hfair ((prefix_append _ _).trans hpre)) (hserved hpre) hend
  · exact State.starts_iff env (hfair ((prefix_append _ _).trans hpre)) (hserved hpre) hj hj'
  · intro s s₁ s₂ hfirst hlast huse hnone
    have hs₁ : s₁ = runCalls env .zero (pre ++ [a]) := by
      rw [runCalls_append_singleton]
    have hrun : ∀ q, runCalls env s₁ q = runCalls env .zero (pre ++ a :: q) := by
      rw [hs₁]
      simp [runCalls]
    have hpre' : ∀ {q}, q <+: mid → pre ++ a :: q <+: calls := fun hq =>
      ((prefix_append_right_inj pre).mpr (cons_prefix_cons.mpr ⟨rfl, hq⟩)).trans
        ((prefix_append _ _).trans hpre)
    have hcount := @startsOf_eq env j mid s₁ (by
        rw [hs₁]
        exact hfair (hpre' nil_prefix))
      (fun q c hq => by
        rw [hrun]
        exact hserved (by
          have := hpre' hq
          simpa using this))
      huse hnone
    rw [if_neg (by rw [hfirst.waiting]; exact SessionPhase.noConfusion),
      if_pos hlast.playing] at hcount
    exact hcount

section Inputs

def soloRound : List Call :=
  [.add 5 100, .handle 5 (.join 0 guest), .handle 5 .start, .handle 5 (.gameover 3)]

theorem served_soloRound : EachCall calmEnv (fun s c => c.Served s) soloRound := by
  rw [show soloRound = ((([] ++ [Call.add 5 100]) ++ [.handle 5 (.join 0 guest)]) ++
    [.handle 5 .start]) ++ [.handle 5 (.gameover 3)] from rfl]
  simp only [eachCall_append_singleton]
  refine ⟨⟨⟨⟨eachCall_nil, fun hin => absurd hin Bool.false_ne_true⟩, ?_⟩, ?_⟩, ?_⟩
  · exact ⟨by decide, by decide⟩
  all_goals exact (by decide : (0 : Int) ≤ 5)

/-- The result is announced to the one member, and nobody is stuck. -/
theorem rounds_end_solo :
    (runCalls calmEnv .zero soloRound).NeverStuck ∧
    (runCalls calmEnv .zero soloRound).results = [5] := by
  obtain ⟨hstuck, hends, -⟩ := rounds_end calmEnv soloRound served_soloRound
  refine ⟨hstuck soloRound (prefix_refl _), ?_⟩
  have hend := (hends (soloRound.take 3) (.handle 5 (.gameover 3)) (prefix_refl _)
    ⟨0, by decide +kernel⟩).1
    ⟨by unfold State.RoomInUse; decide +kernel, by unfold State.RoomInUse; decide +kernel,
      by decide +kernel, by decide +kernel⟩
  exact hend.1.trans (by decide +kernel)

/-- Descriptor 5 is registered a second time, into a slot before its first
one, while room 1 plays: room 1 now looks at the new record. -/
def twiceRegistered : List Call :=
  [.add 3 100, .add 5 101, .add 6 102, .handle 5 (.join 1 guest), .handle 6 (.join 1 guest),
    .handle 5 .start, .handle 5 (.gameover 0), .close 3, .add 5 103, .handle 6 (.gameover 0),
    .handle 5 (.join 0 guest), .handle 5 (.gameover 0)]

/-- Descriptor -1 stands for whatever slot is free: the one that joined as
-1 becomes the session of descriptor 7, and room 1 looks at the next. -/
def negativeDescriptor : List Call :=
  [.add 3 100, .handle (-1) .leave, .handle (-1) (.join 1 guest), .handle (-1) .start, .add 7 101,
    .handle (-1) (.gameover 0)]

theorem stuck_of_over {s : State} {j : Fin maxRooms} (hj : s.RoomInUse j)
    (hplay : (s.rooms j).phase = .playing)
    (hover : ∀ fd ∈ (s.rooms j).members,
      (s.clientFind fd).map (fun i => (s.clients i).state.phase) = some .gameOver) :
    ¬ s.NeverStuck := by
  intro hstuck
  obtain ⟨i, ⟨fd, hfd, hfind⟩, hphase⟩ := hstuck j hj hplay
  have := hover fd hfd
  rw [hfind] at this
  exact hphase (Option.some.inj this)

/-- A room plays on with nobody left who could end the round, once a
descriptor is registered twice and once the descriptor is negative. -/
theorem misused_descriptor_stuck :
    (∀ fd want name, Call.handle fd (.join want name) ∈ twiceRegistered ++ negativeDescriptor →
      0 ≤ want) ∧
    ¬ (runCalls calmEnv .zero twiceRegistered).NeverStuck ∧
    ¬ (runCalls calmEnv .zero negativeDescriptor).NeverStuck := by
  refine ⟨?_, ?_, ?_⟩
  · intro fd want name hmem
    simp only [twiceRegistered, negativeDescriptor, cons_append, nil_append, mem_cons,
      Call.handle.injEq, AdminMsg.join.injEq, reduceCtorEq, not_mem_nil, and_false, false_or,
      or_false] at hmem
    omega
  all_goals
    exact stuck_of_over (j := ⟨0, by decide +kernel⟩) (by unfold State.RoomInUse; decide +kernel)
      (by decide +kernel) (by decide +kernel)

end Inputs

end Corestack.Tetrisd
