import Corestack.Tetrisd.Seated

/-!
# The room tables agree

What the admin thread relies on between two calls: a session is listed by
the room its record names and by no other, every room in use has members,
one owner and distinct player numbers, and can be found under its number.

A JOIN can break this in two ways. The number of a JOIN is whatever `%d`
reads, and `room_create` takes any number that is not 0, but `room_find`
refuses those below 1: a JOIN for room -1 makes a room that no later call
finds. And player numbers are handed out from an `int` that wraps
around. Without such a JOIN the tables agree in every state of every run,
and such a JOIN breaks them.
-/

namespace Corestack.Tetrisd

open List Lib
open Corestack.Core (UserName)

namespace State

/-! ## What is promised -/

def Registered (s : State) (i : Fin maxSessions) : Prop := s.inited = true ∧ 0 ≤ (s.clients i).fd

def RoomInUse (s : State) (j : Fin maxRooms) : Prop := (s.rooms j).id ≠ 0

structure Sound (s : State) : Prop where
  seated : ∀ i, s.Registered i → (s.clients i).state.roomId ≠ roomNone →
    ∃ j, s.RoomInUse j ∧ (s.rooms j).id = (s.clients i).state.roomId ∧
      (s.rooms j).members.count (s.clients i).fd = 1 ∧
      ∀ l, s.RoomInUse l → l ≠ j → (s.clients i).fd ∉ (s.rooms l).members
  unseated : ∀ i, s.Registered i → (s.clients i).state.roomId = roomNone →
    ∀ j, s.RoomInUse j → (s.clients i).fd ∉ (s.rooms j).members
  filled : ∀ j, s.RoomInUse j → (s.rooms j).members ≠ []
  registered : ∀ j, s.RoomInUse j → ∀ fd ∈ (s.rooms j).members,
    ∃ i, s.Registered i ∧ (s.clients i).fd = fd
  oneOwner : ∀ j, s.RoomInUse j → ∃! i, s.Registered i ∧
    (s.clients i).fd ∈ (s.rooms j).members ∧ (s.clients i).state.isOwner = true
  numbers : ∀ j, s.RoomInUse j → ∀ i k, s.Registered i → s.Registered k →
    (s.clients i).fd ∈ (s.rooms j).members → (s.clients k).fd ∈ (s.rooms j).members →
    (s.clients i).state.playerId = (s.clients k).state.playerId → i = k
  ids : ∀ j l, s.RoomInUse j → s.RoomInUse l → (s.rooms j).id = (s.rooms l).id → j = l
  found : ∀ j, s.RoomInUse j → s.roomFind (s.rooms j).id = some j
  outside : ∀ i, s.Registered i → (s.clients i).state.roomId = roomNone →
    (s.clients i).state.isOwner = false

theorem sound_of_consistent {s : State} (h : s.seating.Consistent) (hin : s.inited = true) :
    s.Sound where
  seated i hi hroom := by
    obtain ⟨j, hj, hid⟩ := h.placed hi.2 hroom
    have hmem := (h.listed hi.2 hj).mpr hid.symm
    refine ⟨j, hj, hid, count_eq_one_of_mem (h.nodup hj) hmem, fun l hl hlj hfd => ?_⟩
    have hid' := (h.listed hi.2 hl).mp hfd
    exact hlj (h.ids hj (hid'.symm.trans hid.symm))
  unseated i hi hroom j hj hfd :=
    h.inUse_ne_nowhere hj (((h.listed hi.2 hj).mp hfd).symm.trans hroom)
  filled j hj := (h.led hj).filled
  registered j hj fd hfd := by
    obtain ⟨i, hi, hfd⟩ := h.member hj fd hfd
    exact ⟨i, ⟨hin, hi⟩, hfd⟩
  oneOwner j hj := by
    obtain ⟨i, hi, hroom, hown⟩ := (h.led hj).owner
    refine ⟨i, ⟨⟨hin, hi⟩, (h.listed hi hj).mpr hroom, hown⟩, ?_⟩
    rintro k ⟨hk, hkmem, hkown⟩
    have hkroom := (h.listed hk.2 hj).mp hkmem
    exact h.oneOwner hk.2 hi (hkroom.trans hroom.symm) hkown hown
  numbers j hj i k hi hk hmem hmem' hnum := by
    have hroom := (h.listed hi.2 hj).mp hmem
    have hroom' := (h.listed hk.2 hj).mp hmem'
    exact h.players hi.2 hk.2 (hroom ▸ h.inUse_ne_nowhere hj) (hroom.trans hroom'.symm) hnum
  ids j l hj _ hid := h.ids (j := l) (by rwa [RoomInUse, hid] at hj) hid
  found j hj := roomFind_eq h.toListed hj
  outside i hi hroom := h.outside hi.2 hroom

theorem sound_zero : State.zero.Sound where
  seated _ hi := absurd hi.1 Bool.false_ne_true
  unseated _ hi := absurd hi.1 Bool.false_ne_true
  filled _ hj := absurd rfl hj
  registered _ hj := absurd rfl hj
  oneOwner _ hj := absurd rfl hj
  numbers _ hj := absurd rfl hj
  ids _ _ hj := absurd rfl hj
  found _ hj := absurd rfl hj
  outside _ hi := absurd hi.1 Bool.false_ne_true

end State

/-! ## Calls -/

/-- The calls the admin thread makes: it registers descriptors it does not
have yet and passes on messages of sessions, which come from descriptors
and so not before the first of them was registered. -/
def Call.ByAdmin (s : State) : Call → Prop
  | .add fd _ => 0 ≤ fd ∧ ∀ i, s.Registered i → (s.clients i).fd ≠ fd
  | .handle fd msg => s.inited = true ∧ 0 ≤ fd ∧ msg.FromSession
  | .close fd => s.inited = true ∧ 0 ≤ fd
  | .flush => True

/-- A JOIN that will be let in names no negative number, and the number it
will be given is not that of a member of the room. -/
def Call.Fits (s : State) : Call → Prop
  | .handle fd (.join want _) => ∀ i, s.clientFind fd = some i →
      (s.clients i).state.roomId = roomNone →
      (want < 0 → ∀ j, (s.rooms j).id ≠ 0) ∧
      ∀ j, s.roomFind want = some j → (s.rooms j).phase ≠ .playing →
        (s.rooms j).members.length < maxRoomMembers →
        ∀ k, s.Registered k → (s.clients k).fd ∈ (s.rooms j).members →
          (s.clients k).state.playerId ≠ (s.rooms j).nextPlayerId
  | _ => True

namespace State

variable {s : State} {env : Env}

/-- Nothing has happened yet, or the tables agree. -/
inductive Settled (s : State) : Prop
  | unused (h : s = .zero)
  | agree (hin : s.inited = true) (h : s.seating.Consistent)

theorem Settled.of_shows {t : Seating (Fin maxSessions) (Fin maxRooms)} (h : s.Shows true t)
    (ht : t.Consistent) : s.Settled :=
  .agree h.inited (h.seating ▸ ht)

theorem Settled.sound (h : s.Settled) : s.Sound := by
  cases h with
  | unused h => rw [h]; exact sound_zero
  | agree hin h => exact sound_of_consistent h hin

theorem Settled.ensureInit (h : s.Settled) :
    s.ensureInit.inited = true ∧ s.ensureInit.seating.Consistent := by
  cases h with
  | agree hin h =>
    have : s.ensureInit = s := by simp [State.ensureInit, hin]
    rw [this]
    exact ⟨hin, h⟩
  | unused h =>
    subst h
    refine ⟨rfl, Seating.consistent_empty (fun i hi => ?_) fun j hj => hj rfl⟩
    have : (0 : Int) ≤ -1 := hi
    omega

theorem Settled.consistent (h : s.Settled) (hin : s.inited = true) : s.seating.Consistent := by
  cases h with
  | unused h => rw [h] at hin; exact absurd hin Bool.false_ne_true
  | agree _ h => exact h

/-! ## Each call keeps the tables in agreement -/

theorem settled_add (h : s.Settled) {fd pid : Int} (hcall : (Call.add fd pid).ByAdmin s) :
    (s.clientAdd env fd pid).Settled := by
  obtain ⟨hin, hc⟩ := h.ensureInit
  have hfresh : ∀ k, (s.ensureInit.clients k).fd ≠ fd := by
    intro k hk
    cases h with
    | unused h =>
      subst h
      have : (-1 : Int) = fd := hk
      have := hcall.1
      omega
    | agree hin h =>
      have heq : s.ensureInit = s := by simp [State.ensureInit, hin]
      rw [heq] at hk
      exact hcall.2 k ⟨hin, hk ▸ hcall.1⟩ hk
  unfold clientAdd clientAlloc
  dsimp only
  cases hslot : firstSlot s.ensureInit.clients (fun c => c.fd < 0) with
  | none =>
    have hs := s.ensureInit.shows_self
    rw [hin] at hs
    exact .of_shows (hs.sendMsg _ _) hc
  | some i =>
    have hneg : (s.ensureInit.clients i).fd < 0 := by simpa using firstSlot_some hslot
    refine .agree hin ?_
    dsimp only [Option.bind_eq_bind, Option.bind_some]
    rw [seating_setClient]
    refine hc.reseat (fun hi => ?_) fun _ => ⟨rfl, rfl, fun k _ => hfresh k⟩
    have : 0 ≤ (s.ensureInit.clients i).fd := hi
    omega

section Handle

variable {i : Fin maxSessions} (hin : s.inited = true) (h : s.seating.Consistent)
  (hi : s.seating.Taken i)
include hin h hi

omit hi in
theorem settled_of_same {s' : State} (hs : s'.Shows s.inited s.seating) : s'.Settled :=
  .of_shows (hin ▸ hs) h

theorem settled_join {want : Int} {name : UserName} {s' : State} (hj : Joins s i want s')
    (hfits : (Call.handle (s.clients i).fd (.join want name)).Fits s) : s'.Settled := by
  cases hj with
  | refused _ hs => exact settled_of_same hin h hs
  | joined j hfree hfind hphase hcount hs =>
    have hj : s.seating.InUse j := by
      obtain ⟨hpos, hid⟩ := roomFind_some hfind
      simp only [Seating.InUse, seating, Room.bench]
      omega
    refine .of_shows (hin ▸ hs) (h.sit hi hfree hj fun k hk hroom => ?_)
    exact (hfits i (clientFind_eq h.toListed hi) hfree).2 j hfind hphase hcount k ⟨hin, hk⟩
      ((h.listed hk hj).mpr hroom)
  | created j hfree hfind hslot hs =>
    have hwant : 0 ≤ want := by
      by_contra hneg
      exact (hfits i (clientFind_eq h.toListed hi) hfree).1 (by omega) j hslot
    obtain ⟨hpos, hfresh⟩ := @newNumber_unused _ s.roomFind (fun l => (s.rooms l).id)
      (fun h => (roomFind_some h).2) (fun hc => (roomFind_none hc).mp) want hwant hfind
    exact .of_shows (hin ▸ hs) (h.create_sit (fun hj => hj hslot) hpos hfresh hi hfree)

omit hin in
/-- The room that a session names can be found, as long as the tables agree:
it is in use, and its number is given once. -/
theorem roomFind_named (hroom : (s.clients i).state.roomId ≠ roomNone) :
    ∃ j, s.roomFind (s.clients i).state.roomId = some j := by
  obtain ⟨j, hj, hid⟩ := h.placed hi hroom
  have hfind := roomFind_eq h.toListed hj
  rw [show (s.rooms j).id = (s.clients i).state.roomId from hid] at hfind
  exact ⟨j, hfind⟩

theorem settled_leave : (s.handleLeave env i).Settled := by
  by_cases hroom : (s.clients i).state.roomId = roomNone
  · have : s.handleLeave env i = s.sendSession env i := by simp [handleLeave, hroom]
    rw [this]
    exact settled_of_same hin h (s.shows_self.sendMsg _ _)
  · obtain ⟨j, hfind⟩ := roomFind_named h hi hroom
    obtain ⟨hj, hid⟩ := named_room hfind
    exact .of_shows (hin ▸ handleLeave_shows h hi hfind hroom) (h.rise hi hj hid)

theorem settled_close : (s.clientClose env (s.clients i).fd).Settled := by
  by_cases hroom : (s.clients i).state.roomId = roomNone
  · have : s.clientClose env (s.clients i).fd = s.setClient i { s.clients i with fd := -1 } := by
      simp [clientClose, clientFind_eq h.toListed hi, hroom]
    rw [this]
    refine .agree hin ?_
    rw [seating_setClient]
    refine h.reseat (fun _ => hroom) fun hneg => ?_
    have : (0 : Int) ≤ -1 := hneg
    omega
  · obtain ⟨j, hfind⟩ := roomFind_named h hi hroom
    obtain ⟨hj, hid⟩ := named_room hfind
    refine .of_shows (hin ▸ clientClose_shows h hi hfind hroom) ?_
    refine (h.rise hi hj hid).reseat (fun _ => ?_) fun hneg => ?_
    · rw [Seating.rise_seat_self]
    · have : (0 : Int) ≤ -1 := hneg
      omega

end Handle

theorem settled_handle (h : s.Settled) {fd : Int} {msg : AdminMsg}
    (hcall : (Call.handle fd msg).ByAdmin s) (hfits : (Call.handle fd msg).Fits s) :
    (s.clientHandle env fd msg).Settled := by
  obtain ⟨hin, hfd, -⟩ := hcall
  have hc := h.consistent hin
  unfold clientHandle
  cases hfind : s.clientFind fd with
  | none => exact h
  | some i =>
    obtain rfl := clientFind_fd hfind
    have same : ∀ {s' : State}, s'.Shows s.inited s.seating → s'.Settled :=
      settled_of_same hin hc
    cases msg with
    | join want name => exact settled_join hin hc hfd (handleJoin_joins s i want name) hfits
    | leave => exact settled_leave hin hc hfd
    | start => exact same (s.shows_self.handleStart i)
    | garbage lines => exact same ((shows_calm env _ _).handleGarbage s.shows_self i lines)
    | gameover score => exact same ((shows_calm env _ _).handleGameover s.shows_self i score)
    | score score lines => exact same ((shows_calm env _ _).handleScore s.shows_self i score lines)
    | session _ _ => exact h
    | seed _ => exact h
    | recvGarbage _ => exact h
    | result _ => exact h
    | reject _ => exact h
    | standings _ => exact h

theorem settled_call (h : s.Settled) {c : Call} (hcall : c.ByAdmin s) (hfits : c.Fits s) :
    (c.run env s).Settled := by
  cases c with
  | add fd pid => exact settled_add h hcall
  | handle fd msg => exact settled_handle h hcall hfits
  | flush =>
    obtain ⟨hin, hc⟩ := h.ensureInit
    have hs := s.ensureInit.shows_self
    exact .of_shows (hin ▸ (shows_calm env _ _).roomFlushUpdates hs) hc
  | close fd =>
    obtain ⟨hin, hfd⟩ := hcall
    have hc := h.consistent hin
    cases hfind : s.clientFind fd with
    | none =>
      have : (Call.close fd).run env s = s := by simp [Call.run, clientClose, hfind]
      rw [this]
      exact h
    | some i =>
      obtain rfl := clientFind_fd hfind
      exact settled_close hin hc hfd

/-! ## A JOIN that does not fit -/

theorem not_found_of_negative {i : Fin maxSessions} {j : Fin maxRooms} {want : Int} {s' : State}
    (hneg : want < 0) (hshow : s'.Shows s.inited ((s.seating.create j want).sit i j)) :
    ¬ s'.Sound := by
  intro hs
  have hid : (s'.seating.bench j).id = want := by
    rw [hshow.seating, Seating.sit_id, Seating.create_bench_self]
  have hid' : (s'.rooms j).id = want := hid
  have hfound := hs.found j (by rw [RoomInUse, hid']; omega)
  have := (roomFind_some hfound).1
  omega

theorem not_numbers_of_held {i k : Fin maxSessions} {j : Fin maxRooms} {s' : State}
    (hin : s.inited = true) (h : s.seating.Consistent) (hi : s.seating.Taken i)
    (hout : (s.clients i).state.roomId = roomNone) (hj : s.seating.InUse j)
    (hk : s.seating.Taken k) (hmem : (s.clients k).fd ∈ (s.rooms j).members)
    (hheld : (s.clients k).state.playerId = (s.rooms j).nextPlayerId)
    (hshow : s'.Shows s.inited (s.seating.sit i j)) : ¬ s'.Sound := by
  intro hs
  have hki : k ≠ i := by
    rintro rfl
    exact h.inUse_ne_nowhere hj (((h.listed hk hj).mp hmem).symm.trans hout)
  have hseat : ∀ l, s'.seating.seat l = (s.seating.sit i j).seat l := fun l => by
    rw [hshow.seating]
  have hfd : ∀ l, (s'.clients l).fd = (s.clients l).fd := fun l =>
    (congrArg Seat.fd (hseat l)).trans (Seating.sit_fd l)
  have hmembers : (s'.rooms j).members = (s.rooms j).members ++ [(s.clients i).fd] := by
    have hbench := congrArg (fun t => (Seating.bench t j).members) hshow.seating
    exact hbench.trans Seating.sit_members_self
  have huse : s'.RoomInUse j := by
    have hbench := congrArg (fun t => (Seating.bench t j).id) hshow.seating
    exact fun hid => hj ((Seating.sit_id j).symm.trans (hbench.symm.trans hid))
  have hnum : (s'.clients i).state.playerId = (s'.clients k).state.playerId := by
    have hi' := congrArg Seat.playerId (hseat i)
    have hk' := congrArg Seat.playerId (hseat k)
    rw [Seating.sit_seat_self] at hi'
    rw [Seating.sit_seat_of_ne hki] at hk'
    exact hi'.trans (hheld.symm.trans hk'.symm)
  have hreg : ∀ {l}, s.seating.Taken l → s'.Registered l := fun {l} hl =>
    ⟨hshow.inited.trans hin, by rw [hfd]; exact hl⟩
  refine hki (hs.numbers j huse i k (hreg hi) (hreg hk) ?_ ?_ hnum).symm
  · rw [hfd, hmembers]
    simp
  · rw [hfd, hmembers]
    exact mem_append_left _ hmem

/-- A JOIN that is let in under a negative number makes a room that cannot
be found, and one that is given the number of a member makes two members
of one number. -/
theorem fits_of_sound (h : s.Settled) {c : Call} (hcall : c.ByAdmin s)
    (hs : (c.run env s).Sound) : c.Fits s := by
  cases c with
  | add => trivial
  | close => trivial
  | flush => trivial
  | handle fd msg =>
    cases msg with
    | join want name =>
      intro i hfind hfree
      obtain ⟨hin, hfd, -⟩ := hcall
      have hc := h.consistent hin
      obtain rfl := clientFind_fd hfind
      have hrun : (Call.handle (s.clients i).fd (.join want name)).run env s =
          s.handleJoin env i want name := by simp [Call.run, clientHandle, hfind]
      rw [hrun] at hs
      cases @handleJoin_joins env s i want name with
      | refused hwhy _ =>
        rcases hwhy with hroom | ⟨j, hj, hwhy⟩ | ⟨hnone, hfull⟩
        · exact absurd hfree hroom
        · refine ⟨fun hneg => ?_, fun l hl hphase hcount => ?_⟩
          · have := (roomFind_some hj).1
            omega
          · obtain rfl : j = l := Option.some.inj (hj.symm.trans hl)
            rcases hwhy with hplay | hmany
            · exact absurd hplay hphase
            · omega
        · refine ⟨fun _ => hfull, fun l hl => ?_⟩
          have := (roomFind_some hl).1
          rcases hnone with hzero | hnone
          · omega
          · rw [hnone] at hl
            cases hl
      | joined j _ hfind' _ _ hshow =>
        have hpos := roomFind_some hfind'
        refine ⟨fun hneg => by omega, fun l hl _ _ k hk hmem hheld => ?_⟩
        obtain rfl : j = l := Option.some.inj (hfind'.symm.trans hl)
        refine not_numbers_of_held hin hc hfd hfree ?_ hk.2 hmem hheld hshow hs
        simp only [Seating.InUse, seating, Room.bench]
        omega
      | created j _ hnone hslot hshow =>
        refine ⟨fun hneg => ?_, fun l hl => ?_⟩
        · rw [if_neg (by omega)] at hshow
          exact absurd hs (not_found_of_negative hneg hshow)
        · have := (roomFind_some hl).1
          rcases hnone with hzero | hnone
          · omega
          · rw [hnone] at hl
            cases hl
    | _ => trivial

end State

/-! ## Whole runs -/

/-- `P` holds of every call of a run and the state it is made in. -/
def EachCall (env : Env) (P : State → Call → Prop) (calls : List Call) : Prop :=
  ∀ pre c, pre ++ [c] <+: calls → P (runCalls env .zero pre) c

section Runs

variable {env : Env} {P : State → Call → Prop} {calls : List Call} {c : Call}

theorem runCalls_append_singleton (s : State) :
    runCalls env s (calls ++ [c]) = c.run env (runCalls env s calls) := by
  simp [runCalls]

theorem eachCall_nil : EachCall env P [] := by
  intro pre c h
  simp at h

theorem eachCall_append_singleton :
    EachCall env P (calls ++ [c]) ↔ EachCall env P calls ∧ P (runCalls env .zero calls) c := by
  refine ⟨fun h => ⟨fun pre d hd => h pre d (hd.trans (prefix_append _ _)), ?_⟩, ?_⟩
  · exact h calls c (prefix_refl _)
  · rintro ⟨h, hc⟩ pre d hd
    rcases prefix_concat_iff.mp (by simpa using hd) with heq | hd
    · obtain ⟨rfl, hcd⟩ := append_inj' heq rfl
      obtain rfl : d = c := by simpa using hcd
      exact hc
    · exact h pre d hd

theorem settled_run (hcall : EachCall env (fun s c => c.ByAdmin s) calls)
    (hfits : EachCall env (fun s c => c.Fits s) calls) : (runCalls env .zero calls).Settled := by
  induction calls using List.reverseRecOn with
  | nil => exact .unused rfl
  | append_singleton calls c ih =>
    rw [eachCall_append_singleton] at hcall hfits
    rw [runCalls_append_singleton]
    exact State.settled_call (ih hcall.1 hfits.1) hcall.2 hfits.2

end Runs

/-- The tables agree after every call of a run exactly when every JOIN of
the run fits. -/
theorem room_tables_agree_iff (env : Env) (calls : List Call)
    (hcall : EachCall env (fun s c => c.ByAdmin s) calls) :
    (∀ pre, pre <+: calls → (runCalls env .zero pre).Sound) ↔
      EachCall env (fun s c => c.Fits s) calls := by
  constructor
  · intro hsound
    induction calls using List.reverseRecOn with
    | nil => exact eachCall_nil
    | append_singleton calls c ih =>
      rw [eachCall_append_singleton] at hcall
      have hfits := ih hcall.1 fun pre hpre => hsound pre (hpre.trans (prefix_append _ _))
      refine eachCall_append_singleton.mpr ⟨hfits, ?_⟩
      have hlast := hsound (calls ++ [c]) (prefix_refl _)
      rw [runCalls_append_singleton] at hlast
      exact State.fits_of_sound (settled_run hcall.1 hfits) hcall.2 hlast
  · intro hfits pre hpre
    have hshort : ∀ {P : State → Call → Prop}, EachCall env P calls → EachCall env P pre :=
      fun h q c hq => h q c (hq.trans hpre)
    exact (settled_run (hshort hcall) (hshort hfits)).sound

section Inputs

def calmEnv : Env := ⟨fun _ => .ok, fun _ => 0⟩

def guest : UserName := CStr.copy _ []

theorem byAdmin_one_join {path : Bytes} {want : Int}
    (hpath : pathIds path .room = some (want, -1)) :
    EachCall calmEnv (fun s c => c.ByAdmin s) [.add 5 100, .handle 5 (.join want guest)] := by
  refine eachCall_append_singleton.mpr ⟨eachCall_append_singleton.mpr ⟨eachCall_nil, ?_⟩, ?_⟩
  · exact ⟨by decide, fun i hi => absurd hi.1 Bool.false_ne_true⟩
  · exact ⟨by decide +kernel, by decide, .join guest hpath⟩

/-- A guest asks for a new room. -/
theorem room_tables_agree_new_room :
    (runCalls calmEnv .zero [Call.add 5 100, .handle 5 (.join 0 guest)]).Sound := by
  refine (room_tables_agree_iff calmEnv _
    (@byAdmin_one_join (bytes "/room/0") 0 (by decide +kernel))).mpr ?_ _ (prefix_refl _)
  refine eachCall_append_singleton.mpr ⟨eachCall_append_singleton.mpr ⟨eachCall_nil, trivial⟩, ?_⟩
  refine fun i _ _ => ⟨fun hneg => absurd hneg (by decide), fun j hj => ?_⟩
  exact absurd (State.roomFind_some hj).1 (by decide)

/-- The first guest asks for room -1: the room it is listed in cannot be
found. -/
theorem room_minus_one_breaks_tables :
    pathIds (bytes "/room/-1") .room = some (-1, -1) ∧
    EachCall calmEnv (fun s c => c.ByAdmin s) [.add 5 100, .handle 5 (.join (-1) guest)] ∧
    ¬ (runCalls calmEnv .zero [.add 5 100, .handle 5 (.join (-1) guest)]).Sound := by
  refine ⟨by decide +kernel, @byAdmin_one_join (bytes "/room/-1") (-1) (by decide +kernel), ?_⟩
  intro hs
  have hfound := hs.found ⟨0, by decide +kernel⟩ (by unfold State.RoomInUse; decide +kernel)
  revert hfound
  decide +kernel

end Inputs

end Corestack.Tetrisd
