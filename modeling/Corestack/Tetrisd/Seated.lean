import Corestack.Tetrisd.Moves

/-!
# The room tables and who sits where

The tables of `room.c` seen as seats and benches. Most of what the module
does (rounds, scores, standings, every message it writes) leaves them
alone; a JOIN that is let in is one session sitting down, a LEAVE or a
closed connection is one getting up. So the tables agree with each other
for as long as no JOIN breaks the two things `sit` asks for.
-/

namespace Corestack.Tetrisd

open Lib
open Corestack.Core (UserName)

namespace State

def seating (s : State) : Seating (Fin maxSessions) (Fin maxRooms) where
  seat := fun i => (s.clients i).seat
  bench := fun j => (s.rooms j).bench

/-! ## What leaves the seats alone -/

/-- The tables are initialised or not, and show this seating. -/
structure Shows (s : State) (b : Bool) (t : Seating (Fin maxSessions) (Fin maxRooms)) : Prop where
  inited : s.inited = b
  seating : s.seating = t

theorem shows_self (s : State) : s.Shows s.inited s.seating := ⟨rfl, rfl⟩

variable {s : State} {env : Env} {i : Fin maxSessions} {j : Fin maxRooms} {b : Bool}
  {t : Seating (Fin maxSessions) (Fin maxRooms)}

theorem seating_setClient (s : State) (i : Fin maxSessions) (c : Client) :
    (s.setClient i c).seating = s.seating.reseat i c.seat := by
  simp only [seating, setClient, Seating.reseat, Seating.mk.injEq, and_true]
  funext k
  by_cases hk : k = i
  · subst hk; simp
  · simp [hk]

theorem seating_setRoom (s : State) (j : Fin maxRooms) (r : Room) :
    (s.setRoom j r).seating =
      { s.seating with bench := Function.update s.seating.bench j r.bench } := by
  simp only [seating, setRoom, Seating.mk.injEq, true_and]
  funext l
  by_cases hl : l = j
  · subst hl; simp
  · simp [hl]

theorem Shows.sendMsg (h : s.Shows b t) (fd : Int) (m : AdminMsg) :
    (s.sendMsg env fd m).Shows b t := by
  obtain ⟨wedged, hsend⟩ := sendMsg_eq env s fd m
  rw [hsend]
  exact ⟨h.inited, h.seating⟩

theorem shows_calm (env : Env) (b : Bool) (t : Seating (Fin maxSessions) (Fin maxRooms)) :
    Calm env fun s => s.Shows b t where
  setClient {s i c} hc h := by
    refine ⟨h.inited, ?_⟩
    rw [seating_setClient, hc, ← h.seating]
    exact congrArg (Seating.mk · _) (Function.update_eq_self i s.seating.seat)
  setRoom {s j r} hr h := by
    refine ⟨h.inited, ?_⟩
    rw [seating_setRoom, hr, ← h.seating]
    exact congrArg (Seating.mk _) (Function.update_eq_self j s.seating.bench)
  sendMsg fd _ _ h := h.sendMsg fd _

theorem Shows.handleStart (h : s.Shows b t) (i : Fin maxSessions) :
    (s.handleStart env i).Shows b t :=
  (shows_calm env b t).handleStart (fun h => ⟨h.inited, h.seating⟩) (fun fd _ h => h.sendMsg fd _)
    h i

/-! ## A JOIN that is let in -/

variable {name : UserName}

theorem joinRoom_shows {created : Bool} (hroom : (s.rooms j).members.length < maxRoomMembers) :
    (s.joinRoom env i j name created).Shows s.inited (s.seating.sit i j) := by
  unfold joinRoom
  rw [if_neg (by omega)]
  have hcalm := shows_calm env s.inited (s.seating.sit i j)
  refine hcalm.setRoom (by rfl) (hcalm.setRoom (by rfl) (hcalm.roomPushSessionsEx ?_ _ _))
  refine ⟨rfl, ?_⟩
  have hfirst : decide (((s.rooms j).members ++ [(s.clients i).fd]).length = 1) =
      decide ((s.rooms j).members = []) := decide_eq_decide.mpr (by simp)
  rw [seating_setClient, seating_setRoom]
  simp only [hfirst]
  rfl

/-- Why a JOIN is refused: the session is in a room, the room it asks for is
playing or full, or there is no room left to make. -/
def RefusesJoin (s : State) (i : Fin maxSessions) (want : Int) : Prop :=
  (s.clients i).state.roomId ≠ roomNone ∨
  (∃ j, s.roomFind want = some j ∧
    ((s.rooms j).phase = .playing ∨ maxRoomMembers ≤ (s.rooms j).members.length)) ∨
  (want = 0 ∨ s.roomFind want = none) ∧ ∀ j, (s.rooms j).id ≠ 0

/-- What a JOIN does to the seats: nothing when it is refused, and else one
session sits down, on a bench that was there or on a new one. -/
inductive Joins (s : State) (i : Fin maxSessions) (want : Int) : State → Prop
  | refused {s' : State} (hwhy : s.RefusesJoin i want) (h : s'.Shows s.inited s.seating) :
      Joins s i want s'
  | joined {s' : State} (j : Fin maxRooms) (hfree : (s.clients i).state.roomId = roomNone)
      (hfind : s.roomFind want = some j) (hphase : (s.rooms j).phase ≠ .playing)
      (hcount : (s.rooms j).members.length < maxRoomMembers)
      (h : s'.Shows s.inited (s.seating.sit i j)) : Joins s i want s'
  | created {s' : State} (j : Fin maxRooms) (hfree : (s.clients i).state.roomId = roomNone)
      (hfind : want = 0 ∨ s.roomFind want = none) (hslot : (s.rooms j).id = 0)
      (h : s'.Shows s.inited ((s.seating.create j
        (if want = 0 then firstUnused (fun cand => (s.roomFind cand).isSome) maxRooms 1
          else want)).sit i j)) : Joins s i want s'

theorem joinRoom_refused {created : Bool} (hroom : maxRoomMembers ≤ (s.rooms j).members.length) :
    (s.joinRoom env i j name created).Shows s.inited s.seating := by
  unfold joinRoom
  rw [if_pos hroom]
  exact s.shows_self.sendMsg _ _

variable {want : Int}

theorem roomCreate_some {s' : State} (h : s.roomCreate want = some (j, s')) :
    (s.rooms j).id = 0 ∧ (s'.rooms j).members = [] ∧
      s'.Shows s.inited (s.seating.create j
        (if want = 0 then firstUnused (fun cand => (s.roomFind cand).isSome) maxRooms 1
          else want)) := by
  unfold roomCreate at h
  cases hslot : firstSlot s.rooms (fun r => r.id = 0) with
  | none => simp [hslot] at h
  | some l =>
    simp only [hslot, Option.bind_eq_bind, Option.bind_some, Option.some.injEq,
      Prod.mk.injEq] at h
    obtain ⟨rfl, rfl⟩ := h
    refine ⟨by simpa using firstSlot_some hslot, by simp [setRoom], rfl, ?_⟩
    rw [seating_setRoom]
    rfl

theorem roomCreate_none (h : s.roomCreate want = none) (j : Fin maxRooms) : (s.rooms j).id ≠ 0 := by
  unfold roomCreate at h
  cases hslot : firstSlot s.rooms (fun r => r.id = 0) with
  | none => simpa using firstSlot_none.mp hslot j
  | some l => simp [hslot] at h

theorem handleJoin_joins (s : State) (i : Fin maxSessions) (want : Int) (name : UserName) :
    Joins s i want (s.handleJoin env i want name) := by
  unfold handleJoin
  split
  · exact .refused (Or.inl ‹_›) (s.shows_self.sendMsg _ _)
  rename_i hfree
  rw [not_not] at hfree
  split
  · rename_i j hfind
    have hfind' : s.roomFind want = some j := by
      split at hfind
      · cases hfind
      · exact hfind
    split
    · rename_i hphase
      exact .refused (Or.inr (Or.inl ⟨j, hfind', Or.inl hphase⟩)) (s.shows_self.sendMsg _ _)
    · rename_i hphase
      by_cases hcount : (s.rooms j).members.length < maxRoomMembers
      · exact .joined j hfree hfind' hphase hcount (joinRoom_shows hcount)
      · have hfull := Nat.le_of_not_lt hcount
        exact .refused (Or.inr (Or.inl ⟨j, hfind', Or.inr hfull⟩)) (joinRoom_refused hfull)
  · rename_i hfind
    have hfind' : want = 0 ∨ s.roomFind want = none := by
      split at hfind
      · exact Or.inl ‹_›
      · exact Or.inr hfind
    split
    · rename_i hcreate
      exact .refused (Or.inr (Or.inr ⟨hfind', roomCreate_none hcreate⟩)) (s.shows_self.sendMsg _ _)
    · rename_i j s' hcreate
      obtain ⟨hslot, hnil, hin, hseat⟩ := roomCreate_some hcreate
      refine .created j hfree hfind' hslot ?_
      rw [← hin, ← hseat]
      exact joinRoom_shows (by rw [hnil, maxRoomMembers]; decide)

/-! ## Lookups in tables that agree -/

theorem clientFind_fd {fd : Int} (h : s.clientFind fd = some i) : (s.clients i).fd = fd := by
  simpa using firstSlot_some h

theorem clientFind_eq (h : s.seating.Listed) (hi : s.seating.Taken i) :
    s.clientFind (s.clients i).fd = some i :=
  firstSlot_unique (by simp) fun _ hk => h.slot hi (of_decide_eq_true hk)

variable {id : Int}

theorem roomFind_some (h : s.roomFind id = some j) : 0 < id ∧ (s.rooms j).id = id := by
  unfold roomFind at h
  split at h
  · cases h
  · exact ⟨by omega, by simpa using firstSlot_some h⟩

theorem roomFind_none (hid : 0 < id) : s.roomFind id = none ↔ ∀ j, (s.rooms j).id ≠ id := by
  unfold roomFind
  rw [if_neg (by omega), firstSlot_none]
  simp

theorem roomFind_eq (h : s.seating.Listed) (hj : s.seating.InUse j) :
    s.roomFind (s.rooms j).id = some j := by
  have hpos : 0 < (s.rooms j).id := h.positive hj
  unfold roomFind
  rw [if_neg (by omega)]
  exact firstSlot_unique (by simp) fun _ hl => h.ids hj (of_decide_eq_true hl)

/-! ## Getting up -/

theorem Shows.roomDelMember (h : s.Shows b t) (j : Fin maxRooms) (fd : Int) :
    (s.roomDelMember j fd).Shows b (t.strike j fd) := by
  obtain ⟨rfl, rfl⟩ := h
  refine ⟨rfl, ?_⟩
  unfold State.roomDelMember
  rw [seating_setRoom]
  rfl

theorem Shows.reseat (h : s.Shows b t) (i : Fin maxSessions) (c : Client) :
    (s.setClient i c).Shows b (t.reseat i c.seat) := by
  obtain ⟨rfl, rfl⟩ := h
  exact ⟨rfl, seating_setClient s i c⟩

theorem Shows.roomLeft (h : s.Shows b t) {w : Bool}
    (hhead : ∀ fd, (t.bench j).members.head? = some fd →
      ∃ o, ∀ k, (t.seat k).fd = fd ↔ k = o) : (s.roomLeft env j w).Shows b (t.promote j w) := by
  obtain ⟨rfl, rfl⟩ := h
  unfold State.roomLeft
  cases hm : (s.rooms j).members with
  | nil =>
    refine ⟨rfl, ?_⟩
    rw [seating_setRoom, Seating.promote_nil hm]
    rfl
  | cons first rest =>
    -- the rest of the room's business does not touch the seats
    refine (shows_calm env _ _).roundChecked ?_ j
    have hm' : (s.seating.bench j).members = first :: rest := hm
    cases w with
    | false =>
      rw [Seating.promote_false (by simp [hm'])]
      exact s.shows_self
    | true =>
      obtain ⟨o, ho⟩ := hhead first (by simp [hm'])
      have hfind : s.clientFind first = some o :=
        firstSlot_unique (decide_eq_true ((ho o).mpr rfl))
          fun k hk => (ho k).mp (of_decide_eq_true hk)
      rw [if_pos rfl, hfind, Seating.promote_true hm' ho]
      exact s.shows_self.reseat o _

section Leaving

variable (h : s.seating.Consistent) (hi : s.seating.Taken i)
  (hfind : s.roomFind (s.clients i).state.roomId = some j)
include h hi hfind

omit h hi in
theorem named_room : s.seating.InUse j ∧ (s.seating.seat i).roomId = (s.seating.bench j).id := by
  obtain ⟨hpos, hid⟩ := roomFind_some hfind
  refine ⟨?_, hid.symm⟩
  simp only [Seating.InUse, seating, Room.bench]
  omega

omit hi in
theorem head_unique {fd : Int}
    (hfd : (swapRemove (s.seating.bench j).members (s.seating.seat i).fd).head? = some fd) :
    ∃ o, ∀ k, (s.seating.seat k).fd = fd ↔ k = o := by
  have hj := (named_room hfind).1
  have hmem := List.mem_of_head? hfd
  rw [mem_swapRemove (h.nodup hj)] at hmem
  obtain ⟨o, ho, hofd⟩ := h.member hj fd hmem.2
  refine ⟨o, fun k => ⟨fun hk => h.slot ho (hk.trans hofd.symm), ?_⟩⟩
  rintro rfl
  exact hofd

theorem handleLeave_shows (hin : (s.clients i).state.roomId ≠ roomNone) :
    (s.handleLeave env i).Shows s.inited (s.seating.rise i j) := by
  obtain ⟨hj, hroom⟩ := named_room hfind
  unfold handleLeave
  rw [if_neg hin, hfind, ← h.rise_eq hi hj hroom]
  refine Shows.roomLeft ?_ fun fd hfd => ?_
  · refine Shows.sendMsg ?_ _ _
    exact (s.shows_self.roomDelMember j _).reseat i _
  · obtain ⟨o, ho⟩ := head_unique h hfind (by
      simpa [Seating.reseat, Seating.strike] using hfd)
    refine ⟨o, fun k => ?_⟩
    rw [← ho k]
    by_cases hk : k = i
    · subst hk; simp [Seating.reseat, Seating.strike, seating, Client.seat]
    · simp [Seating.reseat, Seating.strike, hk]

theorem clientClose_shows (hin : (s.clients i).state.roomId ≠ roomNone) :
    (s.clientClose env (s.clients i).fd).Shows s.inited
      ((s.seating.rise i j).reseat i { s.seating.seat i with fd := -1 }) := by
  obtain ⟨hj, hroom⟩ := named_room hfind
  unfold clientClose
  rw [clientFind_eq h.toListed hi]
  dsimp only
  rw [if_neg hin, hfind]
  have hleft : ((s.roomDelMember j (s.clients i).fd).roomLeft env j
      (s.clients i).state.isOwner).Shows s.inited
      ((s.seating.strike j (s.seating.seat i).fd).promote j (s.seating.seat i).isOwner) := by
    refine (s.shows_self.roomDelMember j (s.seating.seat i).fd).roomLeft fun fd hfd => ?_
    exact head_unique h hfind (by simpa [Seating.strike] using hfd)
  have hseat : ((s.roomDelMember j (s.clients i).fd).roomLeft env j
      (s.clients i).state.isOwner).seating.seat i = s.seating.seat i := by
    rw [hleft.seating]
    exact h.promote_seat_self hi hj hroom
  rw [← Seating.rise_reseat_eq, show ({ s.seating.seat i with fd := -1 } : Seat) =
    Client.seat { ((s.roomDelMember j (s.clients i).fd).roomLeft env j
      (s.clients i).state.isOwner).clients i with fd := -1 } from by rw [← hseat]; rfl]
  exact hleft.reseat i _

end Leaving

end State

end Corestack.Tetrisd
