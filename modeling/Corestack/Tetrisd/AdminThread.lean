import Corestack.Lib.Pipe
import Corestack.Tetrisd.Tables

/-!
# The admin thread and its socketpairs (`admin_thread`, `adminmsg.h`)

The room module takes and sends whole messages. Here they travel as the
bytes of fixed-size records through one stream socketpair per session, whose
admin end is non-blocking: a `read` or `write` moves some bytes, reports
`EAGAIN`, or finds the other end closed. Between any two such calls the
sessions may write, read and exit.

The thread is a list of tasks still to do before it polls again. A call into
the room module becomes the writes it makes; what those return is of no
consequence to the module except for the list of wedged sessions, so the
call is run first and a write that would block adds to the list when it
happens. A descriptor outside the poll set is closed.
-/

namespace Corestack.Tetrisd

open List Lib

/-- How an `AdminMsg` lies in memory. -/
structure Layout where
  size : Nat
  pos : 0 < size
  record : AdminMsg → Bytes
  length_record : ∀ m, (record m).length = size
  view : Bytes → AdminMsg

/-- A session and its socketpair. The last four are history: a write to it
has returned `ADMINMSG_WOULDBLOCK`; it has read something since; bytes were
written to it since; the thread found a message of it incomplete and gave it
up while it was alive. -/
structure Conn where
  up : Pipe UInt8
  down : Pipe UInt8
  alive : Bool
  blocked : Bool
  drained : Bool
  extra : Bool
  cutOff : Bool

def Conn.fresh : Conn := ⟨.empty, .empty, true, false, false, false, false⟩

def Conn.none : Conn := { Conn.fresh with alive := false }

inductive Task where
  | call (c : Call)
  | write (fd : Int) (m : AdminMsg)
  | kick (fd : Int)
  | read (fd : Int)
  | close (fd : Int)
  | take (dropped : Bool)

/-- `adminmsg_write` or `adminmsg_read` at work. `marks` says whether the
write is one of `send_msg`, which notes that it would block. -/
inductive Job where
  | writing (fd : Int) (marks : Bool)
  | reading (fd : Int)
deriving DecidableEq

structure Admin where
  room : State
  fds : List Int
  conns : Int → Conn
  job : Option Job
  todo : List Task

namespace Admin

def boot : Admin := ⟨.zero, [], fun _ => .none, none, []⟩

def setConn (s : Admin) (fd : Int) (c : Conn) : Admin :=
  { s with conns := Function.update s.conns fd c }

def okEnv (seeds : Nat → Nat) : Env := ⟨fun _ => .ok, seeds⟩

/-- The room module, with the seeds it will draw. -/
def roomModule (seeds : Nat → Nat) (s : State) (c : Call) : State := c.run (okEnv seeds) s

variable (L : Layout) (run : State → Call → State)

def drop (fd : Int) : List Task := [.call (.close fd), .close fd]

/-- The next task of the thread, taken off the list. -/
def runTask (s : Admin) : Task → Admin
  | .call c =>
    let room := run s.room c
    let sends := room.sent.drop s.room.sent.length
    { s with room := room, todo := sends.map (fun x => .write x.1 x.2) ++ s.todo }
  | .write fd m =>
    if fd ∈ s.fds then
      let c := s.conns fd
      { s.setConn fd { c with down := c.down.start (L.record m) } with
        job := some (.writing fd true) }
    else s
  | .kick fd =>
    if fd ∈ s.fds then
      let c := s.conns fd
      { s.setConn fd { c with down := c.down.start (L.record (.reject rejectNotOwner)) } with
        job := some (.writing fd false)
        todo := drop fd ++ s.todo }
    else s
  | .read fd => if fd ∈ s.fds then { s with job := some (.reading fd) } else s
  | .close fd => { s with fds := s.fds.erase fd }
  | .take dropped =>
    match s.room.clientTakeWedged with
    | (none, room) =>
      { s with
        room := room
        todo := if dropped then .call .flush :: .take false :: s.todo else s.todo }
    | (some fd, room) =>
      { s with
        room := room
        todo := (if fd ∈ s.fds then drop fd else []) ++ .take true :: s.todo }

/-- The sessions that sent something or exited. -/
def ready (s : Admin) : List Int :=
  s.fds.filter fun fd => (s.conns fd).up.stream ≠ [] ∨ ¬ (s.conns fd).alive

/-- `poll` returns, with sessions the listener has forked and sessions the
control plane wants kicked. Those that are new have to wait for the next
round to be read from. -/
def wake (s : Admin) (news : List (Int × Int)) (kicks : List Int) : Admin :=
  let admitted := news.take (maxSessions - s.fds.length)
  { s with
    fds := s.fds ++ admitted.map Prod.fst
    conns := fun fd => if fd ∈ admitted.map Prod.fst then .fresh else s.conns fd
    todo := (admitted.map (fun x => .call (.add x.1 x.2)) ++ kicks.map .kick) ++
      (s.ready.map .read ++ [.call .flush, .take false]) }

end Admin

/-- What can happen next: a session begins to write a record, has some bytes
of it accepted, reads some bytes, exits; `poll` returns; the thread goes on;
its `read` or `write` moves some bytes, reports `EAGAIN`, or finds the
session gone. -/
inductive Event where
  | begins (fd : Int) (record : Bytes)
  | pushes (fd : Int) (n : Nat)
  | pulls (fd : Int) (n : Nat)
  | exits (fd : Int)
  | polled (news : List (Int × Int)) (kicks : List Int)
  | goesOn
  | moved (n : Nat)
  | again
  | gone

namespace Admin

variable (L : Layout) (run : State → Call → State)

/-- The state after an event, if the event is possible. -/
def step (s : Admin) : Event → Option Admin
  | .begins fd r =>
    let c := s.conns fd
    if c.alive ∧ c.up.left = [] ∧ r.length = L.size then
      some (s.setConn fd { c with up := c.up.start r })
    else none
  | .pushes fd n =>
    let c := s.conns fd
    if c.alive ∧ fd ∈ s.fds ∧ 0 < n ∧ n ≤ c.up.left.length then
      some (s.setConn fd { c with up := c.up.push n })
    else none
  | .pulls fd n =>
    let c := s.conns fd
    if c.alive ∧ 0 < n ∧ n ≤ c.down.stream.length ∧ n ≤ L.size - c.down.got.length then
      some (s.setConn fd
        { c with down := c.down.pull L.size n, drained := c.drained || c.blocked })
    else none
  | .exits fd => some (s.setConn fd { s.conns fd with alive := false })
  | .polled news kicks =>
    if s.job = none ∧ s.todo = [] ∧ (s.fds ++ news.map Prod.fst).Nodup then
      some (s.wake news kicks)
    else none
  | .goesOn =>
    match s.job, s.todo with
    | none, t :: todo => some (runTask L run { s with todo := todo } t)
    | some (.writing fd _), _ =>
      if (s.conns fd).down.left = [] then some { s with job := none } else none
    | _, _ => none
  | .moved n =>
    match s.job with
    | none => none
    | some (.writing fd _) =>
      let c := s.conns fd
      if c.alive ∧ 0 < n ∧ n ≤ c.down.left.length then
        some (s.setConn fd { c with down := c.down.push n, extra := c.extra || c.blocked })
      else none
    | some (.reading fd) =>
      let c := s.conns fd
      if 0 < n ∧ n ≤ c.up.stream.length ∧ n ≤ L.size - c.up.got.length then
        let s := s.setConn fd { c with up := c.up.pull L.size n }
        let record := c.up.got ++ c.up.stream.take n
        if record.length = L.size then
          some { s with job := none, todo := .call (.handle fd (L.view record)) :: s.todo }
        else some s
      else none
  | .again =>
    match s.job with
    | none => none
    | some (.writing fd marks) =>
      let c := s.conns fd
      if c.down.left ≠ [] then
        some { s.setConn fd
            { c with down := c.down.abandon, blocked := true, drained := false } with
          room := if marks then s.room.markWedged fd else s.room
          job := none }
      else none
    | some (.reading fd) =>
      let c := s.conns fd
      if c.alive ∧ c.up.stream = [] then
        some { s.setConn fd { c with cutOff := true } with
          job := none
          todo := drop fd ++ s.todo }
      else none
  | .gone =>
    match s.job with
    | none => none
    | some (.writing fd _) =>
      let c := s.conns fd
      if ¬ c.alive then
        some { s.setConn fd { c with down := c.down.abandon } with job := none }
      else none
    | some (.reading fd) =>
      if ¬ (s.conns fd).alive ∧ (s.conns fd).up.stream = [] then
        some { s with job := none, todo := drop fd ++ s.todo }
      else none

/-- The states reached by events that all meet a condition. -/
inductive Reached (seeds : Nat → Nat) (P : Admin → Event → Prop) : Admin → Prop
  | boot : Reached seeds P boot
  | step {s s' : Admin} {e : Event} (hs : Reached seeds P s) (he : P s e)
      (h : s.step L (roomModule seeds) e = some s') : Reached seeds P s'

/-- What framing is for. -/
structure Intact (s : Admin) : Prop where
  up : ∀ fd, (s.conns fd).up.handed <+: (s.conns fd).up.written
  down : ∀ fd, (s.conns fd).down.handed <+: (s.conns fd).down.written
  patient : ∀ fd, (s.conns fd).cutOff = false
  silent : ∀ fd, (s.conns fd).extra = false
  dropped : s.job = none → s.todo = [] → ∀ fd ∈ s.fds, (s.conns fd).blocked = false

end Admin

/-- The session that is being written to, and whether `send_msg` does it. -/
def Admin.target (s : Admin) : Option (Int × Bool) :=
  match s.job with
  | some (.writing fd marks) => some (fd, marks)
  | _ => none

/-- Nothing happens that the thread is not made for. When `poll` returns,
what a live session has sent is a whole record at least. A session that has
blocked does not read until it is dropped, and its socket takes no byte
before it does. There is room in the list of wedged sessions for one that
blocks. -/
def Event.Smooth (L : Layout) (s : Admin) : Event → Prop
  | .polled _ _ => ∀ fd ∈ s.fds, (s.conns fd).alive = true →
      (s.conns fd).up.stream = [] ∨ L.size ≤ (s.conns fd).up.stream.length
  | .pulls fd _ => fd ∈ s.fds → (s.conns fd).blocked = false
  | .moved _ => ∀ x ∈ s.target, (s.conns x.1).blocked = true → (s.conns x.1).drained = true
  | .again => ∀ x ∈ s.target, x.2 = true →
      x.1 ∈ s.room.wedged ∨ s.room.wedged.length < State.wedgedMax
  | _ => True

instance (L : Layout) (s : Admin) : (e : Event) → Decidable (e.Smooth L s)
  | .polled _ _ => inferInstanceAs (Decidable (∀ fd ∈ s.fds, (s.conns fd).alive = true →
      (s.conns fd).up.stream = [] ∨ L.size ≤ (s.conns fd).up.stream.length))
  | .pulls fd _ => inferInstanceAs (Decidable (fd ∈ s.fds → (s.conns fd).blocked = false))
  | .moved _ => inferInstanceAs (Decidable (∀ x ∈ s.target,
      (s.conns x.1).blocked = true → (s.conns x.1).drained = true))
  | .again => inferInstanceAs (Decidable (∀ x ∈ s.target, x.2 = true →
      x.1 ∈ s.room.wedged ∨ s.room.wedged.length < State.wedgedMax))
  | .begins _ _ | .pushes _ _ | .exits _ | .goesOn | .gone => inferInstanceAs (Decidable True)

/-! ## Runs on given events

A flush passes over all rooms, one after the other. To follow a run it is
better to pass over those that have something to publish. -/

namespace State

variable (env : Env)

/-- A flush that looks for the rooms first. -/
def flushDirty (s : State) : State :=
  ((List.finRange maxRooms).filter fun j => (s.ensureInit.rooms j).standingsDirty).foldl
    (flushRoom env) s.ensureInit

variable {env}

theorem roomBroadcast_rooms (s : State) (j : Fin maxRooms) (m : AdminMsg) :
    (s.roomBroadcast env j m).rooms = s.rooms := by
  unfold roomBroadcast
  generalize (s.rooms j).members = fds
  induction fds generalizing s with
  | nil => rfl
  | cons fd fds ih =>
    have hsend : (s.sendMsg env fd m).rooms = s.rooms := by
      obtain ⟨wedged, heq⟩ := sendMsg_eq env s fd m
      rw [heq]
    exact (ih _).trans hsend

theorem flushRoom_rooms_of_ne (s : State) {j k : Fin maxRooms} (hk : k ≠ j) :
    (s.flushRoom env j).rooms k = s.rooms k := by
  have hset : ∀ (s : State) (r : Room), (s.setRoom j r).rooms k = s.rooms k := by
    simp [setRoom, hk]
  unfold flushRoom roomPushStandings
  dsimp only
  split
  · split
    · split
      · exact hset ..
      · split
        · exact hset ..
        · rw [roomBroadcast_rooms, hset, hset]
    · exact hset ..
  · rfl

theorem roomFlushUpdates_eq (s : State) : s.roomFlushUpdates env = s.flushDirty env := by
  have hfold : ∀ (js : List (Fin maxRooms)) (s : State), js.Nodup →
      js.foldl (flushRoom env) s =
        (js.filter fun j => (s.rooms j).standingsDirty).foldl (flushRoom env) s := by
    intro js
    induction js with
    | nil => exact fun _ _ => rfl
    | cons j js ih =>
      intro s hnd
      obtain ⟨hj, hnd⟩ := nodup_cons.mp hnd
      have hsame : (js.filter fun k => ((s.flushRoom env j).rooms k).standingsDirty) =
          js.filter fun k => (s.rooms k).standingsDirty := by
        refine filter_congr fun k hk => ?_
        have hne : k ≠ j := fun heq => hj (heq ▸ hk)
        rw [flushRoom_rooms_of_ne s hne]
      rw [foldl_cons, ih _ hnd, hsame, filter_cons]
      split
      · rfl
      next hclean => rw [flushRoom, if_neg hclean]
  exact hfold _ _ (nodup_finRange _)

end State
namespace Admin

/-- The room module, with a flush that is easy to follow. -/
def givenModule (seeds : Nat → Nat) (s : State) : Call → State
  | .flush => s.flushDirty (okEnv seeds)
  | c => roomModule seeds s c

theorem givenModule_eq (seeds : Nat → Nat) : givenModule seeds = roomModule seeds := by
  funext s c
  cases c with
  | add | handle | close => rfl
  | flush => exact (State.roomFlushUpdates_eq s).symm

variable {L : Layout} {seeds : Nat → Nat} {P : Admin → Event → Prop} [∀ s e, Decidable (P s e)]

/-- A run of given events, as long as each is possible and meets `P`. -/
def runEvents (L : Layout) (seeds : Nat → Nat) (P : Admin → Event → Prop)
    [∀ s e, Decidable (P s e)] (events : List Event) (s : Admin) : Option Admin :=
  events.foldlM (fun s e => if P s e then s.step L (givenModule seeds) e else none) s

theorem reached_of_run {events : List Event} {s t : Admin} (hs : Reached L seeds P s)
    (h : runEvents L seeds P events s = some t) : Reached L seeds P t := by
  induction events generalizing s with
  | nil => exact Option.some.inj h ▸ hs
  | cons e events ih =>
    rw [runEvents, foldlM_cons] at h
    obtain ⟨u, hu, h⟩ := Option.bind_eq_some_iff.mp h
    rw [givenModule_eq] at hu
    split at hu
    next he => exact ih (hs.step he hu) h
    next => cases hu

theorem exists_reached (events : List Event) {Q : Admin → Prop} [DecidablePred Q]
    (h : (runEvents L seeds P events boot).any (fun s => Q s) = true) :
    ∃ s, Reached L seeds P s ∧ Q s := by
  cases hrun : runEvents L seeds P events boot with
  | none =>
    rw [hrun] at h
    cases h
  | some s =>
    rw [hrun] at h
    exact ⟨s, reached_of_run .boot hrun, of_decide_eq_true h⟩

end Admin

end Corestack.Tetrisd
