import Mathlib.Logic.Relation
import Corestack.Tetrisd.Room
import Corestack.Tetrisd.Seats

/-!
# What a call is made of

Every call into the room module is a sequence of five moves: a record of a
session or of a room is replaced, the tables are set up, a seed is drawn, or
a message is sent (`Call.moves`). What the moves keep, every call keeps. Only
a START draws a seed or sends one, so what the other moves keep is kept by
every other call (`Closed.run`). And most of what the module does (rounds,
scores, standings) leaves alone who sits where, so what the moves that do so
keep is kept by that part of it (`Calm`).
-/

namespace Corestack.Tetrisd

open Lib
open Corestack.Core (UserName)

def isSeed : AdminMsg → Bool
  | .seed _ => true
  | _ => false

def Client.seat (c : Client) : Seat := ⟨c.fd, c.state.roomId, c.state.playerId, c.state.isOwner⟩

def Room.bench (r : Room) : Bench := ⟨r.id, r.members, r.nextPlayerId⟩

namespace State

variable (env : Env)

inductive Move : State → State → Prop
  | client (s : State) (i : Fin maxSessions) (c : Client) : Move s (s.setClient i c)
  | room (s : State) (j : Fin maxRooms) (r : Room) : Move s (s.setRoom j r)
  | init (s : State) : Move s s.ensureInit
  | seed (s : State) : Move s { s with seeds := s.seeds + 1 }
  | send (s : State) (fd : Int) (m : AdminMsg) : Move s (s.sendMsg env fd m)

def Moves : State → State → Prop := Relation.ReflTransGen (Move env)

theorem Moves.keeps {env : Env} {s t : State} (h : Moves env s t) {β : Type} {f : State → β}
    (hf : ∀ {s t}, Move env s t → f t = f s) : f t = f s := by
  induction h with
  | refl => rfl
  | tail _ hmove ih => exact (hf hmove).trans ih

/-- The property survives every move that leaves the seats alone and has
nothing to do with a seed. -/
structure Calm (K : State → Prop) : Prop where
  setClient : ∀ {s : State} {i : Fin maxSessions} {c : Client}, c.seat = (s.clients i).seat →
    K s → K (s.setClient i c)
  setRoom : ∀ {s : State} {j : Fin maxRooms} {r : Room}, r.bench = (s.rooms j).bench →
    K s → K (s.setRoom j r)
  sendMsg : ∀ {s} (fd : Int) {m : AdminMsg}, isSeed m = false → K s → K (s.sendMsg env fd m)

/-- The property survives every move that has nothing to do with a seed. -/
structure Closed (K : State → Prop) : Prop where
  setClient : ∀ {s} (i : Fin maxSessions) (c : Client), K s → K (s.setClient i c)
  setRoom : ∀ {s} (j : Fin maxRooms) (r : Room), K s → K (s.setRoom j r)
  ensureInit : ∀ {s}, K s → K s.ensureInit
  sendMsg : ∀ {s} (fd : Int) {m : AdminMsg}, isSeed m = false → K s → K (s.sendMsg env fd m)

variable {env} {K : State → Prop} {s : State}

namespace Calm

theorem foldl {α : Type} {f : State → α → State} (hf : ∀ s x, K s → K (f s x)) (h : K s)
    (xs : List α) : K (xs.foldl f s) := by
  induction xs generalizing s with
  | nil => exact h
  | cons x xs ih => exact ih (hf s x h)

theorem eachMember {f : State → Fin maxSessions → State} (hf : ∀ s i, K s → K (f s i)) (h : K s)
    (j : Fin maxRooms) : K (s.eachMember j f) := by
  refine foldl (fun t fd ht => ?_) h _
  split
  · exact ht
  · exact hf _ _ ht

variable (hK : Calm env K)
include hK

theorem roomBroadcast {m : AdminMsg} (hm : isSeed m = false) (h : K s) (j : Fin maxRooms) :
    K (s.roomBroadcast env j m) :=
  foldl (fun _ fd ht => hK.sendMsg fd hm ht) h _

theorem roomPushSessionsEx (h : K s) (j : Fin maxRooms) (creator : Option Int) :
    K (s.roomPushSessionsEx env j creator) := by
  unfold State.roomPushSessionsEx
  split
  · exact h
  · exact eachMember (fun _ i ht => hK.sendMsg _ rfl (hK.setClient (by rfl) ht)) h j

theorem roomPushStandings (h : K s) (j : Fin maxRooms) : K (s.roomPushStandings env j) := by
  unfold State.roomPushStandings
  split
  · exact h
  · dsimp only
    split
    · exact h
    · exact hK.roomBroadcast rfl (hK.setRoom (by rfl) h) j

theorem roomFlushUpdates (h : K s.ensureInit) : K (s.roomFlushUpdates env) := by
  refine foldl (fun t j ht => ?_) h _
  unfold State.flushRoom
  split
  · dsimp only
    split
    · exact hK.roomPushStandings (hK.setRoom (by rfl) ht) j
    · exact hK.setRoom rfl ht
  · exact ht

theorem roomCheckRoundEnd (h : K s) (j : Fin maxRooms) : K (s.roomCheckRoundEnd env j).2 := by
  unfold State.roomCheckRoundEnd
  split
  · exact h
  split
  · exact h
  split
  · exact h
  · refine eachMember (fun _ i ht => hK.setClient (by rfl) ht) (hK.setRoom (by rfl) ?_) j
    exact hK.roomBroadcast rfl (hK.roomPushStandings (hK.setRoom (by rfl) h) j) j

/-- What `roomLeft` does to a room that still has members. -/
theorem roundChecked (h : K s) (j : Fin maxRooms) :
    K (let r := s.roomCheckRoundEnd env j
      let s := r.2.roomPushSessions env j
      if r.1 then s else s.roomMarkStandingsDirty j) := by
  have hpushed := hK.roomPushSessionsEx (hK.roomCheckRoundEnd h j) j none
  dsimp only
  split
  · exact hpushed
  · exact hK.setRoom rfl hpushed

theorem handleGarbage (h : K s) (i : Fin maxSessions) (lines : Int) :
    K (s.handleGarbage env i lines) := by
  unfold State.handleGarbage
  dsimp only
  split
  · exact h
  split
  · exact h
  split
  · exact h
  split
  · exact h
  · exact hK.sendMsg _ rfl h

theorem handleScore (h : K s) (i : Fin maxSessions) (score lines : Int) :
    K (s.handleScore i score lines) := by
  unfold State.handleScore
  dsimp only
  split
  · exact h
  split
  · exact h
  split
  · exact hK.setClient rfl h
  · exact hK.setRoom (by rfl) (hK.setClient (by rfl) h)

theorem handleGameover (h : K s) (i : Fin maxSessions) (score : Int) :
    K (s.handleGameover env i score) := by
  unfold State.handleGameover
  dsimp only
  split
  · exact h
  split
  · exact hK.setClient rfl h
  · exact hK.roomCheckRoundEnd (hK.setRoom (by rfl) (hK.setClient (by rfl) h)) _

/-- A START is refused with a message, or draws a seed and sends it to every
member. -/
theorem handleStart (hseed : ∀ {s}, K s → K { s with seeds := s.seeds + 1 })
    (hsend : ∀ {s} (fd : Int) (v : Nat), K s → K (s.sendMsg env fd (.seed v))) (h : K s)
    (i : Fin maxSessions) : K (s.handleStart env i) := by
  unfold State.handleStart
  dsimp only
  split
  · exact hK.sendMsg _ rfl h
  split
  · exact hK.sendMsg _ rfl h
  split
  · exact hK.sendMsg _ rfl h
  split
  · exact hK.sendMsg _ rfl h
  · refine hK.setRoom (by rfl) (foldl (fun _ fd ht => hsend fd _ ht) ?_ _)
    exact eachMember (fun _ i ht => hK.setClient (by rfl) ht) (hK.setRoom (by rfl) (hseed h)) _

end Calm

namespace Closed

variable (hK : Closed env K)
include hK

theorem calm : Calm env K :=
  ⟨fun _ => hK.setClient _ _, fun _ => hK.setRoom _ _, hK.sendMsg⟩

theorem joinRoom (h : K s) (i : Fin maxSessions) (j : Fin maxRooms) (name : UserName)
    (created : Bool) : K (s.joinRoom env i j name created) := by
  unfold State.joinRoom
  dsimp only
  split
  · exact hK.sendMsg _ rfl h
  · refine hK.setRoom j _ (hK.setRoom j _ ?_)
    exact hK.calm.roomPushSessionsEx (hK.setClient i _ (hK.setRoom j _ h)) j _

theorem handleJoin (h : K s) (i : Fin maxSessions) (want : Int) (name : UserName) :
    K (s.handleJoin env i want name) := by
  unfold State.handleJoin
  split
  · exact hK.sendMsg _ rfl h
  split
  · split
    · exact hK.sendMsg _ rfl h
    · exact hK.joinRoom h ..
  · split
    · exact hK.sendMsg _ rfl h
    next j t' hcreate =>
      obtain ⟨j', -, heq⟩ := Option.bind_eq_some_iff.mp hcreate
      obtain ⟨rfl, rfl⟩ := Prod.mk.inj (Option.some.inj heq)
      exact hK.joinRoom (hK.setRoom _ _ h) ..

theorem roomLeft (h : K s) (j : Fin maxRooms) (wasOwner : Bool) :
    K (s.roomLeft env j wasOwner) := by
  unfold State.roomLeft
  split
  · exact hK.setRoom j _ h
  · refine hK.calm.roundChecked ?_ j
    split
    · split
      · exact h
      · exact hK.setClient _ _ h
    · exact h

theorem handleLeave (h : K s) (i : Fin maxSessions) : K (s.handleLeave env i) := by
  unfold State.handleLeave
  dsimp only
  split
  · exact hK.sendMsg _ rfl h
  cases s.roomFind (s.clients i).state.roomId with
  | none => exact hK.sendMsg _ rfl (hK.setClient i _ h)
  | some j => exact hK.roomLeft (hK.sendMsg _ rfl (hK.setClient i _ (hK.setRoom j _ h))) j _

theorem clientAdd (h : K s) (fd pid : Int) : K (s.clientAdd env fd pid) := by
  unfold State.clientAdd
  dsimp only
  split
  next t halloc =>
    obtain ⟨i, -, heq⟩ := Option.bind_eq_some_iff.mp halloc
    obtain rfl := Option.some.inj heq
    exact hK.setClient i _ (hK.ensureInit h)
  · exact hK.sendMsg _ rfl (hK.ensureInit h)

theorem clientClose (h : K s) (fd : Int) : K (s.clientClose env fd) := by
  unfold State.clientClose
  dsimp only
  split
  · exact h
  split
  · exact hK.setClient _ _ h
  split
  · exact hK.setClient _ _ h
  · exact hK.setClient _ _ (hK.roomLeft (hK.setRoom _ _ h) _ _)

/-- What the moves but those for a seed keep, every call but START keeps. -/
theorem run (h : K s) {c : Call} (hc : ∀ fd, c ≠ .handle fd .start) : K (c.run env s) := by
  cases c with
  | add fd pid => exact hK.clientAdd h fd pid
  | close fd => exact hK.clientClose h fd
  | flush => exact hK.calm.roomFlushUpdates (hK.ensureInit h)
  | handle fd msg =>
    unfold Call.run State.clientHandle
    dsimp only
    split
    · exact h
    split
    · exact hK.handleJoin h ..
    · exact hK.handleLeave h _
    · exact absurd rfl (hc fd)
    · exact hK.calm.handleGarbage h ..
    · exact hK.calm.handleGameover h ..
    · exact hK.calm.handleScore h ..
    · exact h

end Closed

variable (env) in
theorem closed_moves (s : State) : Closed env (Moves env s) where
  setClient i c h := h.tail (.client _ i c)
  setRoom j r h := h.tail (.room _ j r)
  ensureInit h := h.tail (.init _)
  sendMsg fd _ _ h := h.tail (.send _ fd _)

end State

/-- Every call is a sequence of moves: a record, a room, a seed, a message or
the first initialisation. What every move keeps, every call keeps. -/
theorem Call.moves (env : Env) (s : State) (c : Call) : s.Moves env (c.run env s) := by
  have hclosed := State.closed_moves env s
  by_cases hc : ∃ fd, c = .handle fd .start
  · obtain ⟨fd, rfl⟩ := hc
    unfold Call.run State.clientHandle
    dsimp only
    split
    · exact .refl
    · exact hclosed.calm.handleStart (fun h => h.tail (.seed _))
        (fun fd v h => h.tail (.send _ fd _))
        .refl _
  · exact hclosed.run .refl fun fd hfd => hc ⟨fd, hfd⟩

end Corestack.Tetrisd
