import Corestack.Tetrisd.Room

/-!
# Rounds, without the messages

What decides when a round starts and ends: of a session its descriptor, the
room it names, whether it owns it and its phase; of a room its number, its
members and its phase. Everything else that `room.c` keeps (names, scores,
rosters, standings) is passed on and never asked for. The calls are the same
as those of the room module, and its tables go through the states of this
machine (`State.hall_run`); `results` lists whom a result was announced to.

`Fair` is what every call keeps. It speaks of the record that a descriptor is
found under, so it does not need descriptors to be distinct: before the
first `client_add` all slots hold descriptor 0.
-/

namespace Corestack.Tetrisd

open Lib

structure Player where
  fd : Int
  roomId : Int
  isOwner : Bool
  phase : SessionPhase

structure Table where
  id : Int
  members : List Int
  phase : SessionPhase

structure Hall where
  player : Fin maxSessions → Player
  table : Fin maxRooms → Table
  inited : Bool
  results : List Int

namespace Hall

/-! ## The machine -/

def setPlayer (t : Hall) (i : Fin maxSessions) (p : Player) : Hall :=
  { t with player := Function.update t.player i p }

def setTable (t : Hall) (j : Fin maxRooms) (r : Table) : Hall :=
  { t with table := Function.update t.table j r }

@[simp] theorem setPlayer_self (t : Hall) (i : Fin maxSessions) :
    t.setPlayer i (t.player i) = t := by simp [setPlayer]

@[simp] theorem setTable_self (t : Hall) (j : Fin maxRooms) :
    t.setTable j (t.table j) = t := by simp [setTable]

def find (t : Hall) (fd : Int) : Option (Fin maxSessions) :=
  firstSlot t.player fun p => p.fd = fd

def roomFind (t : Hall) (id : Int) : Option (Fin maxRooms) :=
  if id ≤ 0 then none else firstSlot t.table fun r => r.id = id

def ensureInit (t : Hall) : Hall :=
  if t.inited then t
  else
    { t with
      player := fun i => { t.player i with fd := -1 }
      table := fun j => { t.table j with id := 0, members := [] }
      inited := true }

def create (t : Hall) (want : Int) : Option (Fin maxRooms × Hall) := do
  let id := if want = 0 then firstUnused (fun cand => (t.roomFind cand).isSome) maxRooms 1 else want
  let j ← firstSlot t.table fun r => r.id = 0
  some (j, t.setTable j ⟨id, [], .waiting⟩)

def sit (t : Hall) (i : Fin maxSessions) (j : Fin maxRooms) : Hall :=
  if maxRoomMembers ≤ (t.table j).members.length then t
  else
    let r := { t.table j with members := (t.table j).members ++ [(t.player i).fd] }
    (t.setTable j r).setPlayer i
      { t.player i with roomId := r.id, isOwner := r.members.length = 1, phase := .waiting }

def join (t : Hall) (i : Fin maxSessions) (want : Int) : Hall :=
  if (t.player i).roomId ≠ roomNone then t
  else
    match if want = 0 then none else t.roomFind want with
    | some j => if (t.table j).phase = .playing then t else t.sit i j
    | none =>
      match t.create want with
      | none => t
      | some (j, t) => t.sit i j

/-- The phase of every record found under one of the descriptors. -/
def setPhases (t : Hall) (phase : SessionPhase) (fds : List Int) : Hall :=
  fds.foldl
    (fun t fd =>
      match t.find fd with
      | none => t
      | some i => t.setPlayer i { t.player i with phase := phase })
    t

def players (t : Hall) (fds : List Int) : List Player :=
  fds.filterMap fun fd => (t.find fd).map t.player

def checkRoundEnd (t : Hall) (j : Fin maxRooms) : Hall :=
  if (t.table j).phase ≠ .playing then t
  else if (t.table j).members = [] then t
  else if (t.players (t.table j).members).any (fun p => p.phase ≠ .gameOver) then t
  else
    (({ t with results := t.results ++ (t.table j).members }).setTable j
      { t.table j with phase := .waiting }).setPhases .waiting (t.table j).members

def promote (t : Hall) (fd : Int) : Hall :=
  match t.find fd with
  | none => t
  | some o => t.setPlayer o { t.player o with isOwner := true }

def left (t : Hall) (j : Fin maxRooms) (wasOwner : Bool) : Hall :=
  match (t.table j).members with
  | [] => t.setTable j { t.table j with id := 0 }
  | first :: _ => (if wasOwner then t.promote first else t).checkRoundEnd j

def strike (t : Hall) (j : Fin maxRooms) (fd : Int) : Hall :=
  t.setTable j { t.table j with members := swapRemove (t.table j).members fd }

def leave (t : Hall) (i : Fin maxSessions) : Hall :=
  let p := t.player i
  if p.roomId = roomNone then t
  else
    match t.roomFind p.roomId with
    | none => t.setPlayer i ⟨p.fd, roomNone, false, .idle⟩
    | some j => ((t.strike j p.fd).setPlayer i ⟨p.fd, roomNone, false, .idle⟩).left j p.isOwner

def start (t : Hall) (i : Fin maxSessions) : Hall :=
  let p := t.player i
  if p.roomId = roomNone then t
  else if ¬ p.isOwner then t
  else
    match t.roomFind p.roomId with
    | none => t
    | some j =>
      if (t.table j).phase = .playing then t
      else
        (t.setTable j { t.table j with phase := .playing }).setPhases .playing (t.table j).members

def gameover (t : Hall) (i : Fin maxSessions) : Hall :=
  let p := t.player i
  if p.roomId = roomNone then t
  else
    let t := t.setPlayer i { p with phase := .gameOver }
    match t.roomFind p.roomId with
    | none => t
    | some j => t.checkRoundEnd j

def add (t : Hall) (fd : Int) : Hall :=
  let t := t.ensureInit
  match firstSlot t.player fun p => p.fd < 0 with
  | none => t
  | some i => t.setPlayer i ⟨fd, roomNone, false, .idle⟩

/-- The record of a closed connection keeps everything but its descriptor. -/
def close (t : Hall) (fd : Int) : Hall :=
  match t.find fd with
  | none => t
  | some i =>
    let p := t.player i
    let t :=
      if p.roomId = roomNone then t
      else
        match t.roomFind p.roomId with
        | none => t
        | some j => (t.strike j fd).left j p.isOwner
    t.setPlayer i { t.player i with fd := -1 }

def handle (t : Hall) (fd : Int) (msg : AdminMsg) : Hall :=
  match t.find fd with
  | none => t
  | some i =>
    match msg with
    | .join want _ => t.join i want
    | .leave => t.leave i
    | .start => t.start i
    | .gameover _ => t.gameover i
    | _ => t

def step (t : Hall) : Call → Hall
  | .add fd _ => t.add fd
  | .handle fd msg => t.handle fd msg
  | .close fd => t.close fd
  | .flush => t.ensureInit

/-! ## Lookups -/

variable {t t' : Hall} {i k : Fin maxSessions} {j l : Fin maxRooms} {fd : Int}

@[simp] theorem setPlayer_player (p : Player) : (t.setPlayer i p).player i = p := by
  simp [setPlayer]

theorem setPlayer_player_of_ne (p : Player) (h : k ≠ i) :
    (t.setPlayer i p).player k = t.player k := by simp [setPlayer, h]

@[simp] theorem setTable_table (r : Table) : (t.setTable j r).table j = r := by simp [setTable]

theorem setTable_table_of_ne (r : Table) (h : l ≠ j) : (t.setTable j r).table l = t.table l := by
  simp [setTable, h]

theorem setPlayer_proj {α : Type*} (f : Player → α) {p : Player} (h : f p = f (t.player i))
    (k : Fin maxSessions) : f ((t.setPlayer i p).player k) = f (t.player k) := by
  by_cases hk : k = i
  · subst hk; rw [setPlayer_player, h]
  · rw [setPlayer_player_of_ne p hk]

theorem setTable_proj {α : Type*} (f : Table → α) {r : Table} (h : f r = f (t.table j))
    (l : Fin maxRooms) : f ((t.setTable j r).table l) = f (t.table l) := by
  by_cases hl : l = j
  · subst hl; rw [setTable_table, h]
  · rw [setTable_table_of_ne r hl]

theorem find_fd (h : t.find fd = some i) : (t.player i).fd = fd := by
  simpa using firstSlot_some h

theorem find_congr (h : ∀ k, (t'.player k).fd = fd ↔ (t.player k).fd = fd) :
    t'.find fd = t.find fd := by
  have : ∀ k, decide ((t'.player k).fd = fd) = decide ((t.player k).fd = fd) := fun k =>
    decide_eq_decide.mpr (h k)
  simp only [find, firstSlot, this]

theorem find_setPlayer {p : Player} (h : p.fd = (t.player i).fd) (fd : Int) :
    (t.setPlayer i p).find fd = t.find fd :=
  find_congr fun k => by rw [setPlayer_proj Player.fd h]

/-- A slot that changes hands does not change who is found under another
descriptor. -/
theorem find_setPlayer_of_ne {p : Player} (hp : p.fd ≠ fd) (hold : (t.player i).fd ≠ fd) :
    (t.setPlayer i p).find fd = t.find fd := by
  refine find_congr fun k => ?_
  by_cases hk : k = i
  · subst hk
    rw [setPlayer_player]
    exact ⟨fun h => absurd h hp, fun h => absurd h hold⟩
  · rw [setPlayer_player_of_ne p hk]

theorem roomFind_some {id : Int} (h : t.roomFind id = some j) : 0 < id ∧ (t.table j).id = id := by
  unfold roomFind at h
  split at h
  · cases h
  · exact ⟨by omega, by simpa using firstSlot_some h⟩

theorem roomFind_none {id : Int} (hid : 0 < id) (h : t.roomFind id = none) (j : Fin maxRooms) :
    (t.table j).id ≠ id := by
  unfold roomFind at h
  rw [if_neg (by omega), firstSlot_none] at h
  simpa using h j

/-! ## Phases of a whole room -/

/-- The records found under one of the descriptors. -/
def Among (t : Hall) (fds : List Int) (k : Fin maxSessions) : Prop := ∃ fd ∈ fds, t.find fd = some k

theorem setPhases_spec (phase : SessionPhase) :
    ∀ (fds : List Int) (t : Hall),
      (t.setPhases phase fds).table = t.table ∧ (t.setPhases phase fds).results = t.results ∧
      (t.setPhases phase fds).inited = t.inited ∧
      ∀ k, (t.Among fds k → (t.setPhases phase fds).player k = { t.player k with phase := phase }) ∧
        (¬ t.Among fds k → (t.setPhases phase fds).player k = t.player k)
  | [], t => ⟨rfl, rfl, rfl, fun k => ⟨by simp [Among], fun _ => rfl⟩⟩
  | fd :: fds, t => by
    unfold setPhases
    rw [List.foldl_cons]
    cases hfind : t.find fd with
    | none =>
      obtain ⟨htable, hresults, hin, hplayer⟩ := setPhases_spec phase fds t
      have hamong : ∀ k, t.Among (fd :: fds) k ↔ t.Among fds k := by
        simp [Among, hfind]
      refine ⟨htable, hresults, hin, fun k => ?_⟩
      rw [hamong]
      exact hplayer k
    | some o =>
      have hsame : ∀ fd, (t.setPlayer o { t.player o with phase := phase }).find fd =
          t.find fd := find_setPlayer rfl
      obtain ⟨htable, hresults, hin, hplayer⟩ :=
        setPhases_spec phase fds (t.setPlayer o { t.player o with phase := phase })
      have hamong : ∀ k, t.Among (fd :: fds) k ↔ o = k ∨ t.Among fds k := by
        simp [Among, hfind]
      have hamong' : ∀ k, (t.setPlayer o { t.player o with phase := phase }).Among fds k ↔
          t.Among fds k := by
        simp [Among, hsame]
      refine ⟨htable, hresults, hin, fun k => ?_⟩
      obtain ⟨hyes, hno⟩ := hplayer k
      rw [hamong'] at hyes hno
      rw [hamong]
      refine ⟨fun hk => ?_, fun hk => ?_⟩
      · by_cases hrest : t.Among fds k
        · exact (hyes hrest).trans (setPlayer_proj ({ · with phase := phase }) (by rfl) k)
        · obtain rfl : o = k := hk.resolve_right hrest
          exact (hno hrest).trans (setPlayer_player _)
      · rw [not_or] at hk
        exact (hno hk.2).trans (setPlayer_player_of_ne _ (Ne.symm hk.1))

section SetPhases

variable (phase : SessionPhase) (fds : List Int)

@[simp] theorem setPhases_table : (t.setPhases phase fds).table = t.table :=
  (setPhases_spec phase fds t).1

@[simp] theorem setPhases_results : (t.setPhases phase fds).results = t.results :=
  (setPhases_spec phase fds t).2.1

theorem setPhases_among (h : t.Among fds k) :
    (t.setPhases phase fds).player k = { t.player k with phase := phase } :=
  ((setPhases_spec phase fds t).2.2.2 k).1 h

theorem setPhases_other (h : ¬ t.Among fds k) :
    (t.setPhases phase fds).player k = t.player k :=
  ((setPhases_spec phase fds t).2.2.2 k).2 h

end SetPhases

/-! ## Who sits where -/

def InUse (t : Hall) (j : Fin maxRooms) : Prop := (t.table j).id ≠ 0

theorem vacated_inUse :
    (t.setTable j { t.table j with id := 0 }).InUse l ↔ l ≠ j ∧ t.InUse l := by
  by_cases hl : l = j
  · subst hl
    simp [InUse]
  · rw [InUse, setTable_table_of_ne _ hl, InUse]
    exact (and_iff_right hl).symm

theorem roomFind_inUse {id : Int} (h : t.roomFind id = some j) : t.InUse j := by
  obtain ⟨hpos, hid⟩ := roomFind_some h
  rw [InUse]
  omega

/-- What holds of a table put in and of the other tables in use holds of the
tables in use then. -/
theorem forall_setTable {P : Table → Prop} {r : Table} (hr : r.id ≠ 0 → P r)
    (hP : ∀ {l}, l ≠ j → t.InUse l → P (t.table l)) (hl : (t.setTable j r).InUse l) :
    P ((t.setTable j r).table l) := by
  by_cases hlj : l = j
  · subst hlj
    rw [InUse, setTable_table] at hl
    rw [setTable_table]
    exact hr hl
  · rw [InUse, setTable_table_of_ne _ hlj] at hl
    rw [setTable_table_of_ne _ hlj]
    exact hP hlj hl

def nobody : Fin maxSessions → Prop := fun _ => False

/-- A member is found, and names the room that lists it. -/
structure Seated (t : Hall) (r : Table) : Prop where
  positive : 0 < r.id
  nodup : r.members.Nodup
  member : ∀ fd ∈ r.members, 0 ≤ fd ∧ ∃ i, t.find fd = some i ∧ (t.player i).roomId = r.id

theorem Seated.frame {r : Table} (h : t.Seated r)
    (hfound : ∀ fd ∈ r.members, 0 ≤ fd → ∀ k, t.find fd = some k →
      t'.find fd = some k ∧ (t'.player k).roomId = (t.player k).roomId) : t'.Seated r :=
  { h with
    member := fun fd hfd => by
      obtain ⟨h0, k, hk, hroom⟩ := h.member fd hfd
      obtain ⟨hk', heq⟩ := hfound fd hfd h0 k hk
      exact ⟨h0, k, hk', heq.trans hroom⟩ }

/-- Whoever owns a room is a member of the room it names; `exempt` is for the
one who is leaving. -/
structure Orderly (t : Hall) (exempt : Fin maxSessions → Prop) : Prop where
  ids : ∀ {j l}, t.InUse j → (t.table l).id = (t.table j).id → l = j
  seated : ∀ {j}, t.InUse j → t.Seated (t.table j)
  owner : ∀ {i}, 0 ≤ (t.player i).fd → (t.player i).isOwner = true → ¬ exempt i →
    t.find (t.player i).fd = some i ∧
    ∃ j, t.InUse j ∧ (t.table j).id = (t.player i).roomId ∧ (t.player i).fd ∈ (t.table j).members

/-- The seats alone, whatever the phases are. -/
def seats (t : Hall) : Hall :=
  { t with
    player := fun k => { t.player k with phase := .idle }
    table := fun l => { t.table l with phase := .idle }
    results := [] }

section Seats

variable (h : t'.seats = t.seats)
include h

theorem find_of_seats (fd : Int) : t'.find fd = t.find fd :=
  show t'.seats.find fd = t.seats.find fd by rw [h]

theorem inUse_of_seats (l : Fin maxRooms) : t'.InUse l ↔ t.InUse l :=
  show t'.seats.InUse l ↔ t.seats.InUse l by rw [h]

theorem Orderly.congr {exempt : Fin maxSessions → Prop} (horderly : t.Orderly exempt) :
    t'.Orderly exempt := by
  have hseats : t.seats.Orderly exempt :=
    ⟨horderly.ids, fun hj => { horderly.seated hj with }, horderly.owner⟩
  rw [← h] at hseats
  exact ⟨hseats.ids, fun hj => { hseats.seated hj with }, hseats.owner⟩

end Seats

theorem seats_setPhase (i : Fin maxSessions) (phase : SessionPhase) :
    (t.setPlayer i { t.player i with phase := phase }).seats = t.seats :=
  congrArg (fun f => { t.seats with player := f })
    (funext (setPlayer_proj ({ · with phase := .idle }) (by rfl)))

theorem seats_setTable (j : Fin maxRooms) (phase : SessionPhase) :
    (t.setTable j { t.table j with phase := phase }).seats = t.seats :=
  congrArg (fun f => { t.seats with table := f })
    (funext (setTable_proj ({ · with phase := .idle }) (by rfl)))

theorem seats_setPhases (phase : SessionPhase) (fds : List Int) :
    (t.setPhases phase fds).seats = t.seats := by
  induction fds generalizing t with
  | nil => rfl
  | cons fd fds ih =>
    refine ih.trans ?_
    dsimp only
    split
    · rfl
    · exact seats_setPhase _ _

theorem seats_checkRoundEnd (t : Hall) (j : Fin maxRooms) :
    (t.checkRoundEnd j).seats = t.seats := by
  unfold checkRoundEnd
  split
  · rfl
  split
  · rfl
  split
  · rfl
  · exact (seats_setPhases _ _).trans (seats_setTable j _)

theorem not_among_of_notMem {fds : List Int} (hi : t.find fd = some i) (hnot : fd ∉ fds) :
    ¬ t.Among fds i := by
  rintro ⟨fd', hfd', hk⟩
  exact hnot ((find_fd hk).symm.trans (find_fd hi) ▸ hfd')

namespace Orderly

variable {exempt exempt' : Fin maxSessions → Prop}

theorem listed_named (h : t.Orderly exempt) (hi : t.find fd = some i) (hl : t.InUse l)
    (hmem : fd ∈ (t.table l).members) : (t.player i).roomId = (t.table l).id := by
  obtain ⟨-, k, hk, hroom⟩ := (h.seated hl).member fd hmem
  obtain rfl : k = i := Option.some.inj (hk.symm.trans hi)
  exact hroom

/-- Members of two rooms are different records. -/
theorem not_among (h : t.Orderly exempt) (hj : t.InUse j) (hl : t.InUse l) (hlj : l ≠ j)
    (hk : t.Among (t.table l).members k) : ¬ t.Among (t.table j).members k := by
  rintro ⟨fd, hfd, hfind⟩
  obtain ⟨fd', hfd', hfind'⟩ := hk
  have hroom := h.listed_named hfind hj hfd
  have hroom' := h.listed_named hfind' hl hfd'
  exact hlj (h.ids hj (hroom'.symm.trans hroom))

theorem unlisted (h : t.Orderly exempt) (hi : t.find fd = some i)
    (hroom : (t.player i).roomId = roomNone ∨ t.roomFind (t.player i).roomId = none)
    (hl : t.InUse l) : fd ∉ (t.table l).members := by
  intro hmem
  have hnamed := h.listed_named hi hl hmem
  have hpos := (h.seated hl).positive
  rcases hroom with hroom | hroom
  · rw [roomNone] at hroom
    omega
  · exact roomFind_none (by omega) hroom l hnamed.symm

theorem setTable {r : Table} (h : t.Orderly exempt)
    (hr : r.id ≠ 0 → t.Seated r ∧ ∀ l ≠ j, (t.table l).id ≠ r.id)
    (howner : ∀ {i}, 0 ≤ (t.player i).fd → (t.player i).isOwner = true → ¬ exempt' i →
      t.find (t.player i).fd = some i ∧
        (r.id ≠ 0 ∧ r.id = (t.player i).roomId ∧ (t.player i).fd ∈ r.members ∨
          ∃ l ≠ j, t.InUse l ∧ (t.table l).id = (t.player i).roomId ∧
            (t.player i).fd ∈ (t.table l).members)) : (t.setTable j r).Orderly exempt' where
  ids {k l} hk hid := by
    by_cases hkj : k = j <;> by_cases hlj : l = j
    · exact hlj.trans hkj.symm
    · subst hkj
      rw [InUse, setTable_table] at hk
      rw [setTable_table, setTable_table_of_ne _ hlj] at hid
      exact absurd hid ((hr hk).2 l hlj)
    · subst hlj
      rw [InUse, setTable_table_of_ne _ hkj] at hk
      rw [setTable_table, setTable_table_of_ne _ hkj] at hid
      exact absurd hid.symm ((hr (hid ▸ hk)).2 k hkj)
    · rw [InUse, setTable_table_of_ne _ hkj] at hk
      rw [setTable_table_of_ne _ hkj, setTable_table_of_ne _ hlj] at hid
      exact h.ids hk hid
  seated hl :=
    forall_setTable (fun hid => { (hr hid).1 with }) (fun _ hl => { h.seated hl with }) hl
  owner h0 hown hex := by
    obtain ⟨hfind, hr | ⟨l, hlj, hl⟩⟩ := howner h0 hown hex
    · refine ⟨hfind, j, ?_⟩
      rwa [InUse, setTable_table]
    · refine ⟨hfind, l, ?_⟩
      rwa [InUse, setTable_table_of_ne _ hlj]

/-- A session leaves the list of the room it names. Until its record is
cleared, it may still pass for the owner. -/
theorem strike (h : t.Orderly nobody) (hi : t.find fd = some i)
    (hroom : t.roomFind (t.player i).roomId = some j) : (t.strike j fd).Orderly (· = i) := by
  have hj := roomFind_inUse hroom
  obtain ⟨hpos, hnd, hmember⟩ := h.seated hj
  refine h.setTable (fun _ => ⟨⟨hpos, nodup_swapRemove hnd _, fun fd' hfd' => ?_⟩,
    fun l hlj hid => hlj (h.ids hj hid)⟩) fun {k} hk hown hki => ?_
  · exact hmember fd' ((mem_swapRemove hnd).mp hfd').2
  · obtain ⟨hkf, l, hl, hlid, hlmem⟩ := h.owner hk hown not_false
    refine ⟨hkf, ?_⟩
    by_cases hlj : l = j
    · subst hlj
      refine .inl ⟨hl, hlid, (mem_swapRemove hnd).mpr ⟨fun hfd => hki ?_, hlmem⟩⟩
      exact Option.some.inj (hkf.symm.trans (hfd.symm ▸ hi))
    · exact .inr ⟨l, hlj, hl, hlid, hlmem⟩

theorem vacate (h : t.Orderly exempt) (hnil : (t.table j).members = []) :
    (t.setTable j { t.table j with id := 0 }).Orderly exempt := by
  refine h.setTable (fun hid => absurd rfl hid) fun hk hown hex => ?_
  obtain ⟨hkf, l, hl, hlid, hlmem⟩ := h.owner hk hown hex
  refine ⟨hkf, .inr ⟨l, ?_, hl, hlid, hlmem⟩⟩
  rintro rfl
  rw [hnil] at hlmem
  cases hlmem

theorem create (h : t.Orderly exempt) (hj : ¬ t.InUse j) {id : Int} (hid : 0 < id)
    (hfresh : ∀ l, (t.table l).id ≠ id) :
    (t.setTable j ⟨id, [], .waiting⟩).Orderly exempt := by
  refine h.setTable (fun _ => ⟨⟨hid, List.nodup_nil, by simp⟩, fun l _ => hfresh l⟩)
    fun hk hown hex => ?_
  obtain ⟨hkf, l, hl, hmem⟩ := h.owner hk hown hex
  exact ⟨hkf, .inr ⟨l, fun hlj => hj (hlj ▸ hl), hl, hmem⟩⟩

/-- The record of a session that no room lists is overwritten. It may pass
for an owner only if it is exempt, and may not hide another session. -/
theorem overwrite {p : Player} (h : t.Orderly exempt)
    (hnot : ∀ {l}, t.InUse l → ¬ t.Among (t.table l).members i)
    (hfind : ∀ {fd k}, 0 ≤ fd → k ≠ i → t.find fd = some k → (t.setPlayer i p).find fd = some k)
    (hown : 0 ≤ p.fd → p.isOwner = true → exempt' i)
    (hex : ∀ {k}, k ≠ i → ¬ exempt' k → ¬ exempt k) : (t.setPlayer i p).Orderly exempt' := by
  refine ⟨h.ids, fun hl => (h.seated hl).frame fun fd hfd h0 k hk => ?_,
    fun {k} hk hkown hkex => ?_⟩
  · have hki : k ≠ i := fun hki => hnot hl ⟨fd, hfd, hki ▸ hk⟩
    exact ⟨hfind h0 hki hk, by rw [setPlayer_player_of_ne _ hki]⟩
  · by_cases hki : k = i
    · subst hki
      rw [setPlayer_player] at hk hkown
      exact absurd (hown hk hkown) hkex
    · rw [setPlayer_player_of_ne _ hki] at hk hkown ⊢
      obtain ⟨hkf, hrest⟩ := h.owner hk hkown (hex hki hkex)
      exact ⟨hfind hk hki hkf, hrest⟩

theorem sit (h : t.Orderly nobody) (hi : t.find (t.player i).fd = some i)
    (h0 : 0 ≤ (t.player i).fd) (hout : (t.player i).roomId = roomNone) (hj : t.InUse j) :
    (t.sit i j).Orderly nobody := by
  unfold Hall.sit
  split
  · exact h
  suffices hsits : ∀ p : Player, p.fd = (t.player i).fd → p.roomId = (t.table j).id →
      ((t.setPlayer i p).setTable j
        { t.table j with members := (t.table j).members ++ [(t.player i).fd] }).Orderly nobody from
    hsits _ rfl rfl
  intro p hfd hroom
  have hfind : ∀ fd, (t.setPlayer i p).find fd = t.find fd := find_setPlayer hfd
  have hnot : ∀ {l}, t.InUse l → (t.player i).fd ∉ (t.table l).members := fun hl =>
    h.unlisted hi (Or.inl hout) hl
  -- first the session names the room, and only then the room lists it
  have hnames : (t.setPlayer i p).Orderly (· = i) :=
    h.overwrite (fun hl => not_among_of_notMem hi (hnot hl))
      (fun _ _ hk => (hfind _).trans hk) (fun _ _ => rfl) fun _ _ => not_false
  obtain ⟨hpos, hnd, hmember⟩ := hnames.seated hj
  refine hnames.setTable (fun _ => ⟨⟨hpos, ?_, fun fd hfd => ?_⟩, fun l hlj hid =>
    hlj (h.ids hj hid)⟩) fun {k} hk hown _ => ?_
  · exact hnd.append (List.nodup_singleton _) (List.disjoint_singleton.mpr (hnot hj))
  · rcases List.mem_append.mp hfd with hold | hnew
    · exact hmember fd hold
    · obtain rfl := List.mem_singleton.mp hnew
      exact ⟨h0, i, (hfind _).trans hi, by rwa [setPlayer_player]⟩
  · by_cases hki : k = i
    · subst hki
      rw [setPlayer_player, hfd, hfind]
      exact ⟨hi, .inl ⟨hj, hroom.symm, by simp⟩⟩
    · obtain ⟨hkf, l, hl, hlid, hlmem⟩ := hnames.owner hk hown hki
      refine ⟨hkf, ?_⟩
      by_cases hlj : l = j
      · subst hlj
        exact .inl ⟨hl, hlid, List.mem_append_left _ hlmem⟩
      · exact .inr ⟨l, hlj, hl, hlid, hlmem⟩

theorem clear (h : t.Orderly (· = i)) (hi : t.find fd = some i)
    (hnot : ∀ {l}, t.InUse l → fd ∉ (t.table l).members) (phase : SessionPhase) :
    (t.setPlayer i ⟨(t.player i).fd, roomNone, false, phase⟩).Orderly nobody :=
  h.overwrite (fun hl => not_among_of_notMem hi (hnot hl))
    (fun _ _ hk => (find_setPlayer (by rfl) _).trans hk) (fun _ hown => by cases hown)
    fun hki _ => hki

theorem promote (h : t.Orderly exempt) (hj : t.InUse j) (hfd : fd ∈ (t.table j).members) :
    (t.promote fd).Orderly exempt := by
  obtain ⟨-, o, ho, hroom⟩ := (h.seated hj).member fd hfd
  simp only [Hall.promote, ho]
  have hfind : ∀ fd, (t.setPlayer o { t.player o with isOwner := true }).find fd = t.find fd :=
    find_setPlayer rfl
  refine ⟨h.ids, fun hl => (h.seated hl).frame fun fd' _ _ k hk => ⟨(hfind fd').trans hk, ?_⟩,
    fun {k} hk hown hex => ?_⟩
  · exact setPlayer_proj Player.roomId (by rfl) k
  · rw [hfind]
    by_cases hko : k = o
    · subst hko
      rw [setPlayer_player, find_fd ho]
      exact ⟨ho, j, hj, hroom.symm, hfd⟩
    · rw [setPlayer_player_of_ne _ hko] at hk hown ⊢
      exact h.owner hk hown hex

end Orderly

end Hall

end Corestack.Tetrisd
