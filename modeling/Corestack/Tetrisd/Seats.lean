import Corestack.Lib.Slots
import Corestack.Lib.Text
import Mathlib.Logic.Function.Basic

/-!
# Who sits where

The part of the room tables that membership is about, over any slots: a
seat per session (its descriptor, the room it names, its number there and
whether it owns the room) and a bench per room (its number, the
descriptors it lists and the next number to hand out). Three things happen
to them: a session sits down on a bench, one gets up, and one comes in.
`Consistent` says that the two sides tell the same story, and each of the
three keeps it.
-/

namespace Corestack.Tetrisd

open Function List Lib

structure Seat where
  fd : Int
  roomId : Int
  playerId : Int
  isOwner : Bool

structure Bench where
  id : Int
  members : List Int
  nextPlayerId : Int

structure Seating (ι κ : Type) where
  seat : ι → Seat
  bench : κ → Bench

namespace Seating

variable {ι κ : Type} {t : Seating ι κ}

/-! ## The two sides agree -/

/-- A negative descriptor marks a free seat. -/
def Taken (t : Seating ι κ) (i : ι) : Prop := 0 ≤ (t.seat i).fd

/-- Number 0 marks a free bench. -/
def InUse (t : Seating ι κ) (j : κ) : Prop := (t.bench j).id ≠ 0

/-- The number a session names when it sits nowhere. -/
abbrev nowhere : Int := -1

/-- What holds of a bench while sessions sit down and get up: everything
but that it has a member and an owner. -/
structure Listed (t : Seating ι κ) : Prop where
  slot : ∀ {i k}, t.Taken i → (t.seat k).fd = (t.seat i).fd → k = i
  ids : ∀ {j l}, t.InUse j → (t.bench l).id = (t.bench j).id → l = j
  positive : ∀ {j}, t.InUse j → 0 < (t.bench j).id
  listed : ∀ {i j}, t.Taken i → t.InUse j →
    ((t.seat i).fd ∈ (t.bench j).members ↔ (t.seat i).roomId = (t.bench j).id)
  nodup : ∀ {j}, t.InUse j → (t.bench j).members.Nodup
  member : ∀ {j}, t.InUse j → ∀ fd ∈ (t.bench j).members, ∃ i, t.Taken i ∧ (t.seat i).fd = fd
  placed : ∀ {i}, t.Taken i → (t.seat i).roomId ≠ nowhere →
    ∃ j, t.InUse j ∧ (t.bench j).id = (t.seat i).roomId
  oneOwner : ∀ {i k}, t.Taken i → t.Taken k → (t.seat i).roomId = (t.seat k).roomId →
    (t.seat i).isOwner = true → (t.seat k).isOwner = true → i = k
  outside : ∀ {i}, t.Taken i → (t.seat i).roomId = nowhere → (t.seat i).isOwner = false
  players : ∀ {i k}, t.Taken i → t.Taken k → (t.seat i).roomId ≠ nowhere →
    (t.seat i).roomId = (t.seat k).roomId → (t.seat i).playerId = (t.seat k).playerId → i = k

/-- Somebody sits on the bench and somebody owns it. -/
structure Led (t : Seating ι κ) (j : κ) : Prop where
  filled : (t.bench j).members ≠ []
  owner : ∃ i, t.Taken i ∧ (t.seat i).roomId = (t.bench j).id ∧ (t.seat i).isOwner = true

structure Consistent (t : Seating ι κ) : Prop extends Listed t where
  led : ∀ {j}, t.InUse j → t.Led j

variable {j : κ}

theorem Listed.inUse_ne_nowhere (h : t.Listed) (hj : t.InUse j) : (t.bench j).id ≠ nowhere := by
  have := h.positive hj
  simp only [nowhere]
  omega

theorem consistent_empty (hseat : ∀ i, ¬ t.Taken i) (hbench : ∀ j, ¬ t.InUse j) :
    t.Consistent where
  slot hi := absurd hi (hseat _)
  ids hj := absurd hj (hbench _)
  positive hj := absurd hj (hbench _)
  listed hi := absurd hi (hseat _)
  nodup hj := absurd hj (hbench _)
  member hj := absurd hj (hbench _)
  placed hi := absurd hi (hseat _)
  oneOwner hi := absurd hi (hseat _)
  outside hi := absurd hi (hseat _)
  players hi := absurd hi (hseat _)
  led hj := absurd hj (hbench _)

theorem Consistent.not_named (h : t.Consistent) {id : Int} (hid : 0 < id)
    (hfresh : ∀ l, (t.bench l).id ≠ id) {k : ι} (hk : t.Taken k) : (t.seat k).roomId ≠ id := by
  rintro rfl
  obtain ⟨l, -, hl⟩ := h.placed hk (by simp only [nowhere]; omega)
  exact hfresh l hl

/-! ## Sitting down -/

variable [DecidableEq ι] [DecidableEq κ]

/-- A bench is taken into use under a number. -/
def create (t : Seating ι κ) (j : κ) (id : Int) : Seating ι κ :=
  { t with bench := update t.bench j ⟨id, [], 0⟩ }

/-- The session of seat `i` sits down on bench `j` and owns it if it is the
first there. -/
def sit (t : Seating ι κ) (i : ι) (j : κ) : Seating ι κ where
  seat := update t.seat i
    { t.seat i with
      roomId := (t.bench j).id
      playerId := (t.bench j).nextPlayerId
      isOwner := (t.bench j).members = [] }
  bench := update t.bench j
    { t.bench j with
      members := (t.bench j).members ++ [(t.seat i).fd]
      nextPlayerId := toInt32 ((t.bench j).nextPlayerId + 1) }

section Sit

variable {i : ι} {j : κ}

@[simp] theorem sit_fd (k : ι) : ((t.sit i j).seat k).fd = (t.seat k).fd := by
  by_cases hk : k = i
  · subst hk; simp [sit]
  · simp [sit, hk]

@[simp] theorem sit_id (l : κ) : ((t.sit i j).bench l).id = (t.bench l).id := by
  by_cases hl : l = j
  · subst hl; simp [sit]
  · simp [sit, hl]

@[simp] theorem sit_taken (k : ι) : (t.sit i j).Taken k ↔ t.Taken k := by simp [Taken]

@[simp] theorem sit_inUse (l : κ) : (t.sit i j).InUse l ↔ t.InUse l := by simp [InUse]

theorem sit_seat_self : (t.sit i j).seat i =
    { t.seat i with
      roomId := (t.bench j).id
      playerId := (t.bench j).nextPlayerId
      isOwner := (t.bench j).members = [] } := by
  simp [sit]

theorem sit_seat_of_ne {k : ι} (hk : k ≠ i) : (t.sit i j).seat k = t.seat k := by
  simp [sit, hk]

theorem sit_members_self :
    ((t.sit i j).bench j).members = (t.bench j).members ++ [(t.seat i).fd] := by
  simp [sit]

theorem sit_bench_of_ne {l : κ} (hl : l ≠ j) : (t.sit i j).bench l = t.bench l := by
  simp [sit, hl]

section Keeps

variable (h : t.Listed) (hi : t.Taken i) (hout : (t.seat i).roomId = nowhere) (hj : t.InUse j)
include h hi hout hj

variable {k : ι} {l : κ}

theorem sit_listed (hk : t.Taken k) (hl : t.InUse l) :
    (t.seat k).fd ∈ ((t.sit i j).bench l).members ↔
      ((t.sit i j).seat k).roomId = (t.bench l).id := by
  by_cases hki : k = i
  · subst hki
    rw [sit_seat_self]
    by_cases hlj : l = j
    · subst hlj
      simp [sit_members_self]
    · rw [sit_bench_of_ne hlj, h.listed hk hl, hout]
      exact ⟨fun hroom => absurd hroom.symm (h.inUse_ne_nowhere hl),
        fun hroom => absurd (h.ids hl hroom).symm hlj⟩
  · rw [sit_seat_of_ne hki]
    by_cases hlj : l = j
    · subst hlj
      rw [sit_members_self, mem_append, mem_singleton, h.listed hk hl]
      exact or_iff_left fun hfd => hki (h.slot hi hfd)
    · rw [sit_bench_of_ne hlj, h.listed hk hl]

theorem sit_nodup (hl : t.InUse l) : ((t.sit i j).bench l).members.Nodup := by
  by_cases hlj : l = j
  · subst hlj
    rw [sit_members_self]
    have hnot : (t.seat i).fd ∉ (t.bench l).members := fun hfd =>
      h.inUse_ne_nowhere hl ((h.listed hi hl).mp hfd ▸ hout)
    exact nodup_append.mpr ⟨h.nodup hl, nodup_singleton _, by
      rintro fd hfd _ hfd' rfl
      exact hnot (mem_singleton.mp hfd' ▸ hfd)⟩
  · rw [sit_bench_of_ne hlj]
    exact h.nodup hl

omit hout hj in
theorem sit_member (hl : t.InUse l) {fd : Int} (hfd : fd ∈ ((t.sit i j).bench l).members) :
    ∃ k, t.Taken k ∧ (t.seat k).fd = fd := by
  by_cases hlj : l = j
  · subst hlj
    rw [sit_members_self, mem_append, mem_singleton] at hfd
    rcases hfd with hfd | rfl
    · exact h.member hl fd hfd
    · exact ⟨i, hi, rfl⟩
  · rw [sit_bench_of_ne hlj] at hfd
    exact h.member hl fd hfd

omit hi hout in
theorem sit_not_owner (hk : t.Taken k) (hroom : (t.seat k).roomId = (t.bench j).id) :
    ((t.sit i j).seat i).isOwner = false := by
  have hmem := (h.listed hk hj).mpr hroom
  rw [sit_seat_self]
  exact decide_eq_false (ne_nil_of_mem hmem)

/-- A session that sits nowhere may sit down on a bench in use, if no
member has the number it is given. -/
theorem Listed.sit (hnum : ∀ k, t.Taken k → (t.seat k).roomId = (t.bench j).id →
    (t.seat k).playerId ≠ (t.bench j).nextPlayerId) : (t.sit i j).Listed where
  slot hk hfd := h.slot (by simpa using hk) (by simpa using hfd)
  ids hl hid := h.ids (by simpa using hl) (by simpa using hid)
  positive hl := by simpa using h.positive (by simpa using hl)
  listed hk hl := by
    rw [sit_fd, sit_id]
    exact sit_listed h hi hout hj (by simpa using hk) (by simpa using hl)
  nodup hl := sit_nodup h hi hout hj (by simpa using hl)
  member hl fd hfd := by
    simpa using sit_member h hi (by simpa using hl) hfd
  placed {k} hk hroom := by
    by_cases hki : k = i
    · subst hki
      exact ⟨j, by simpa using hj, by simp [sit_seat_self]⟩
    · rw [sit_seat_of_ne hki] at hroom ⊢
      simpa using h.placed (by simpa using hk) hroom
  oneOwner {k k'} hk hk' hroom hown hown' := by
    rw [sit_taken] at hk hk'
    by_cases hki : k = i <;> by_cases hki' : k' = i
    · exact hki.trans hki'.symm
    · subst hki
      rw [sit_seat_of_ne hki'] at hroom
      rw [sit_seat_self] at hroom
      rw [sit_not_owner h hj hk' hroom.symm] at hown
      exact absurd hown Bool.false_ne_true
    · subst hki'
      rw [sit_seat_of_ne hki] at hroom
      rw [sit_seat_self] at hroom
      rw [sit_not_owner h hj hk hroom] at hown'
      exact absurd hown' Bool.false_ne_true
    · rw [sit_seat_of_ne hki] at hroom hown
      rw [sit_seat_of_ne hki'] at hroom hown'
      exact h.oneOwner hk hk' hroom hown hown'
  outside {k} hk hroom := by
    by_cases hki : k = i
    · subst hki
      rw [sit_seat_self] at hroom
      exact absurd hroom (h.inUse_ne_nowhere hj)
    · rw [sit_seat_of_ne hki] at hroom ⊢
      exact h.outside (by simpa using hk) hroom
  players {k k'} hk hk' hin hroom hplayer := by
    rw [sit_taken] at hk hk'
    by_cases hki : k = i <;> by_cases hki' : k' = i
    · exact hki.trans hki'.symm
    · subst hki
      rw [sit_seat_of_ne hki', sit_seat_self] at hroom hplayer
      exact absurd hplayer.symm (hnum k' hk' hroom.symm)
    · subst hki'
      rw [sit_seat_of_ne hki, sit_seat_self] at hroom hplayer
      exact absurd hplayer (hnum k hk hroom)
    · rw [sit_seat_of_ne hki] at hin hroom hplayer
      rw [sit_seat_of_ne hki'] at hroom hplayer
      exact h.players hk hk' hin hroom hplayer

theorem sit_led (hl : t.InUse l) (hled : l ≠ j → t.Led l)
    (hself : (t.bench j).members = [] ∨ t.Led j) : (t.sit i j).Led l := by
  -- an owner of a bench is not the newcomer, so it keeps its seat
  have hkeep : t.Led l → ∃ k, (t.sit i j).Taken k ∧
      ((t.sit i j).seat k).roomId = ((t.sit i j).bench l).id ∧
      ((t.sit i j).seat k).isOwner = true := by
    rintro ⟨-, k, hk, hroom, hown⟩
    have hki : k ≠ i := by
      rintro rfl
      exact h.inUse_ne_nowhere hl (hroom ▸ hout)
    exact ⟨k, by simpa using hk, by rw [sit_seat_of_ne hki, sit_id]; exact hroom,
      by rw [sit_seat_of_ne hki]; exact hown⟩
  by_cases hlj : l = j
  · subst hlj
    refine ⟨by simp [sit_members_self], ?_⟩
    rcases hself with hnil | hself
    · exact ⟨i, by simpa using hi, by simp [sit_seat_self], by simp [sit_seat_self, hnil]⟩
    · exact hkeep hself
  · have hl' := hled hlj
    exact ⟨by rw [sit_bench_of_ne hlj]; exact hl'.filled, hkeep hl'⟩

end Keeps

theorem Consistent.sit (h : t.Consistent) (hi : t.Taken i) (hout : (t.seat i).roomId = nowhere)
    (hj : t.InUse j) (hnum : ∀ k, t.Taken k → (t.seat k).roomId = (t.bench j).id →
      (t.seat k).playerId ≠ (t.bench j).nextPlayerId) : (t.sit i j).Consistent where
  toListed := h.toListed.sit hi hout hj hnum
  led hl := by
    rw [sit_inUse] at hl
    exact sit_led h.toListed hi hout hj hl (fun _ => h.led hl) (Or.inr (h.led hj))

end Sit

section Create

variable {i : ι} {j : κ} {id : Int}

omit [DecidableEq ι] in
theorem create_bench_self : (t.create j id).bench j = ⟨id, [], 0⟩ := by simp [create]

variable {l : κ}

omit [DecidableEq ι] in
theorem create_bench_of_ne (hl : l ≠ j) : (t.create j id).bench l = t.bench l := by
  simp [create, hl]

omit [DecidableEq ι] in
theorem create_inUse_of_ne (hl : l ≠ j) : (t.create j id).InUse l ↔ t.InUse l := by
  simp [InUse, create_bench_of_ne hl]

omit [DecidableEq ι] in
theorem Consistent.create (h : t.Consistent) (hfree : ¬ t.InUse j) (hid : 0 < id)
    (hfresh : ∀ l, (t.bench l).id ≠ id) : (t.create j id).Listed where
  slot := h.slot
  ids {l l'} hl hll := by
    by_cases hlj : l = j <;> by_cases hlj' : l' = j
    · exact hlj'.trans hlj.symm
    · subst hlj
      rw [create_bench_self, create_bench_of_ne hlj'] at hll
      exact absurd hll (hfresh l')
    · subst hlj'
      rw [create_bench_self, create_bench_of_ne hlj] at hll
      exact absurd hll.symm (hfresh l)
    · rw [create_bench_of_ne hlj, create_bench_of_ne hlj'] at hll
      exact h.ids ((create_inUse_of_ne hlj).mp hl) hll
  positive {l} hl := by
    by_cases hlj : l = j
    · subst hlj
      rwa [create_bench_self]
    · rw [create_bench_of_ne hlj]
      exact h.positive ((create_inUse_of_ne hlj).mp hl)
  listed {k l} hk hl := by
    by_cases hlj : l = j
    · subst hlj
      rw [create_bench_self]
      exact iff_of_false (not_mem_nil) (h.not_named hid hfresh hk)
    · rw [create_bench_of_ne hlj]
      exact h.listed hk ((create_inUse_of_ne hlj).mp hl)
  nodup {l} hl := by
    by_cases hlj : l = j
    · subst hlj
      rw [create_bench_self]
      exact nodup_nil
    · rw [create_bench_of_ne hlj]
      exact h.nodup ((create_inUse_of_ne hlj).mp hl)
  member {l} hl fd hfd := by
    by_cases hlj : l = j
    · subst hlj
      rw [create_bench_self] at hfd
      exact absurd hfd not_mem_nil
    · rw [create_bench_of_ne hlj] at hfd
      exact h.member ((create_inUse_of_ne hlj).mp hl) fd hfd
  placed {k} hk hroom := by
    obtain ⟨l, hl, hlid⟩ := h.placed hk hroom
    have hlj : l ≠ j := fun hlj => hfree (hlj ▸ hl)
    exact ⟨l, (create_inUse_of_ne hlj).mpr hl, by rw [create_bench_of_ne hlj]; exact hlid⟩
  oneOwner := h.oneOwner
  outside := h.outside
  players := h.players

theorem Consistent.create_sit (h : t.Consistent) (hfree : ¬ t.InUse j) (hid : 0 < id)
    (hfresh : ∀ l, (t.bench l).id ≠ id) (hi : t.Taken i)
    (hout : (t.seat i).roomId = nowhere) : ((t.create j id).sit i j).Consistent := by
  have hc := h.create hfree hid hfresh
  have hj : (t.create j id).InUse j := by
    simp only [InUse, create_bench_self]
    omega
  have hnil : ((t.create j id).bench j).members = [] := by rw [create_bench_self]
  refine ⟨hc.sit hi hout hj fun k hk hroom => ?_, fun {l} hl => ?_⟩
  · rw [create_bench_self] at hroom
    exact absurd hroom (h.not_named hid hfresh hk)
  · rw [sit_inUse] at hl
    refine sit_led hc hi hout hj hl (fun hlj => ?_) (Or.inl hnil)
    obtain ⟨hfill, hown⟩ := h.led ((create_inUse_of_ne hlj).mp hl)
    exact ⟨by rwa [create_bench_of_ne hlj], by rwa [create_bench_of_ne hlj]⟩

end Create

/-! ## Getting up -/

/-- The record of a session is overwritten. -/
def reseat (t : Seating ι κ) (i : ι) (st : Seat) : Seating ι κ :=
  { t with seat := update t.seat i st }

/-- A descriptor is taken off the list of a bench. -/
def strike (t : Seating ι κ) (j : κ) (fd : Int) : Seating ι κ :=
  { t with
    bench := update t.bench j
      { t.bench j with members := swapRemove (t.bench j).members fd } }

/-- A bench that lists nobody is given back. If its owner has left, the
first on the list becomes the owner. -/
def promote (t : Seating ι κ) (j : κ) (ownerLeft : Bool) : Seating ι κ where
  seat := fun k =>
    if ownerLeft ∧ (t.bench j).members.head? = some (t.seat k).fd
    then { t.seat k with isOwner := true } else t.seat k
  bench := update t.bench j
    { t.bench j with id := if (t.bench j).members = [] then 0 else (t.bench j).id }

omit [DecidableEq ι] in
theorem promote_nil (hm : (t.bench j).members = []) (w : Bool) :
    t.promote j w =
      { t with bench := update t.bench j { t.bench j with id := 0 } } := by
  simp [promote, hm]

omit [DecidableEq ι] in
theorem promote_bench (hm : (t.bench j).members ≠ []) (w : Bool) :
    (t.promote j w).bench = t.bench := by
  simp only [promote, if_neg hm]
  exact update_eq_self j _

omit [DecidableEq ι] in
theorem promote_false (hm : (t.bench j).members ≠ []) : t.promote j false = t := by
  have hbench := promote_bench hm false
  cases t
  simp_all [promote]

theorem promote_true {first : Int} {rest : List Int} (hm : (t.bench j).members = first :: rest)
    {o : ι} (ho : ∀ k, (t.seat k).fd = first ↔ k = o) :
    t.promote j true = t.reseat o { t.seat o with isOwner := true } := by
  have hbench := promote_bench (t := t) (j := j) (by simp [hm]) true
  have hseat : (t.promote j true).seat = (t.reseat o { t.seat o with isOwner := true }).seat := by
    funext k
    simp only [promote, reseat, hm, List.head?_cons, true_and, Option.some.injEq,
      @eq_comm _ first, ho]
    by_cases hk : k = o
    · subst hk; simp
    · simp [hk]
  exact congrArg₂ Seating.mk hseat hbench

/-- The session of seat `i` gets up from bench `j`. The bench is given back
when nobody is left. Otherwise, if the session owned it, the first on its
list owns it now. -/
def rise (t : Seating ι κ) (i : ι) (j : κ) : Seating ι κ :=
  let rest := swapRemove (t.bench j).members (t.seat i).fd
  { seat := fun k =>
      if k = i then ⟨(t.seat i).fd, nowhere, 0, false⟩
      else if (t.seat i).isOwner ∧ rest.head? = some (t.seat k).fd
      then { t.seat k with isOwner := true }
      else t.seat k
    bench := update t.bench j
      { t.bench j with id := if rest = [] then 0 else (t.bench j).id, members := rest } }

section Rise

variable {i : ι} {j : κ}

theorem rise_seat_self : (t.rise i j).seat i = ⟨(t.seat i).fd, nowhere, 0, false⟩ := by
  simp [rise]

variable {k : ι}

@[simp] theorem rise_fd (k : ι) : ((t.rise i j).seat k).fd = (t.seat k).fd := by
  by_cases hk : k = i
  · subst hk; simp [rise]
  · simp only [rise, hk, if_false]
    split <;> rfl

@[simp] theorem rise_taken (k : ι) : (t.rise i j).Taken k ↔ t.Taken k := by simp [Taken]

theorem rise_roomId (hk : k ≠ i) : ((t.rise i j).seat k).roomId = (t.seat k).roomId := by
  simp only [rise, hk, if_false]
  split <;> rfl

theorem rise_playerId (hk : k ≠ i) : ((t.rise i j).seat k).playerId = (t.seat k).playerId := by
  simp only [rise, hk, if_false]
  split <;> rfl

theorem rise_isOwner (hk : k ≠ i) :
    ((t.rise i j).seat k).isOwner = true ↔ (t.seat k).isOwner = true ∨
      ((t.seat i).isOwner = true ∧
        (swapRemove (t.bench j).members (t.seat i).fd).head? = some (t.seat k).fd) := by
  simp only [rise, hk, if_false]
  split
  · rename_i hp
    simp [hp]
  · rename_i hp
    simp [hp]

theorem rise_members_self :
    ((t.rise i j).bench j).members = swapRemove (t.bench j).members (t.seat i).fd := by
  simp [rise]

variable {l : κ}

theorem rise_bench_of_ne (hl : l ≠ j) : (t.rise i j).bench l = t.bench l := by
  simp [rise, hl]

theorem rise_inUse (hl : (t.rise i j).InUse l) :
    t.InUse l ∧ ((t.rise i j).bench l).id = (t.bench l).id ∧
      (l = j → swapRemove (t.bench j).members (t.seat i).fd ≠ []) := by
  by_cases hlj : l = j
  · subst hlj
    simp only [InUse, rise, update_self] at hl ⊢
    split at hl
    · exact absurd rfl hl
    · rename_i hrest
      exact ⟨hl, by simp [hrest], fun _ => hrest⟩
  · rw [InUse, rise_bench_of_ne hlj] at hl
    exact ⟨hl, by rw [rise_bench_of_ne hlj], fun hj => absurd hj hlj⟩

variable (h : t.Consistent) (hi : t.Taken i) (hj : t.InUse j)
  (hin : (t.seat i).roomId = (t.bench j).id)
include h hi hj hin

omit hj hin in
theorem rise_mem (hki : k ≠ i) (hl : t.InUse l) :
    (t.seat k).fd ∈ ((t.rise i j).bench l).members ↔ (t.seat k).fd ∈ (t.bench l).members := by
  by_cases hlj : l = j
  · subst hlj
    rw [rise_members_self, mem_swapRemove (h.nodup hl)]
    exact and_iff_right fun hfd => hki (h.slot hi hfd)
  · rw [rise_bench_of_ne hlj]

theorem rise_self_notMem (hl : t.InUse l) : (t.seat i).fd ∉ ((t.rise i j).bench l).members := by
  by_cases hlj : l = j
  · subst hlj
    rw [rise_members_self, mem_swapRemove (h.nodup hl)]
    exact fun hfd => hfd.1 rfl
  · rw [rise_bench_of_ne hlj, h.listed hi hl, hin]
    exact fun hid => hlj (h.ids hl hid).symm

omit [DecidableEq ι] [DecidableEq κ] hi hin in
theorem rise_heir
    (hhead : (swapRemove (t.bench j).members (t.seat i).fd).head? = some (t.seat k).fd)
    (hk : t.Taken k) : (t.seat k).roomId = (t.bench j).id := by
  have hmem := mem_of_head? hhead
  rw [mem_swapRemove (h.nodup hj)] at hmem
  exact (h.listed hk hj).mp hmem.2

theorem rise_oneOwner {k' : ι} (hk : t.Taken k) (hk' : t.Taken k') (hki : k ≠ i) (hki' : k' ≠ i)
    (hroom : (t.seat k).roomId = (t.seat k').roomId) (hown : ((t.rise i j).seat k).isOwner = true)
    (hown' : ((t.rise i j).seat k').isOwner = true) : k = k' := by
  rw [rise_isOwner hki] at hown
  rw [rise_isOwner hki'] at hown'
  -- an heir and an old owner of one bench would make two owners before
  rcases hown with hown | ⟨hiown, hhead⟩ <;> rcases hown' with hown' | ⟨hiown', hhead'⟩
  · exact h.oneOwner hk hk' hroom hown hown'
  · have := rise_heir h hj hhead' hk'
    exact absurd (h.oneOwner hk hi (by rw [hroom, this, hin]) hown hiown') hki
  · have := rise_heir h hj hhead hk
    exact absurd (h.oneOwner hk' hi (by rw [← hroom, this, hin]) hown' hiown) hki'
  · rw [hhead, Option.some.injEq] at hhead'
    exact h.slot hk' hhead'

theorem rise_led (hl : (t.rise i j).InUse l) : (t.rise i j).Led l := by
  obtain ⟨hl0, hid, hrest⟩ := rise_inUse hl
  obtain ⟨hfill, k, hk, hroom, hown⟩ := h.led hl0
  refine ⟨?_, ?_⟩
  · by_cases hlj : l = j
    · subst hlj
      rw [rise_members_self]
      exact hrest rfl
    · rwa [rise_bench_of_ne hlj]
  rw [hid]
  by_cases hki : k = i
  · -- the owner is the one who left: its heir is the head of what is left
    subst hki
    obtain rfl : l = j := (h.ids hj (hroom.symm.trans hin))
    obtain ⟨fd, rest, hcons⟩ := exists_cons_of_ne_nil (hrest rfl)
    have hmem : fd ∈ swapRemove (t.bench l).members (t.seat k).fd := by simp [hcons]
    rw [mem_swapRemove (h.nodup hj)] at hmem
    obtain ⟨o, ho, hofd⟩ := h.member hl0 fd hmem.2
    have hok : o ≠ k := fun hok => hmem.1 (by rw [← hofd, hok])
    refine ⟨o, by simpa using ho, ?_, ?_⟩
    · rw [rise_roomId hok]
      exact (h.listed ho hl0).mp (hofd ▸ hmem.2)
    · rw [rise_isOwner hok]
      exact Or.inr ⟨hown, by simp [hcons, hofd]⟩
  · exact ⟨k, by simpa using hk, by rw [rise_roomId hki]; exact hroom,
      (rise_isOwner hki).mpr (Or.inl hown)⟩

theorem Consistent.rise : (t.rise i j).Consistent where
  slot hk hfd := h.slot (by simpa using hk) (by simpa using hfd)
  ids {l l'} hl hid := by
    obtain ⟨hl0, hid0, -⟩ := rise_inUse hl
    have hl' : (t.rise i j).InUse l' := by
      rw [InUse, hid]
      exact hl
    exact h.ids hl0 (by rw [← hid0, ← hid, (rise_inUse hl').2.1])
  positive hl := by
    obtain ⟨hl0, hid, -⟩ := rise_inUse hl
    rw [hid]
    exact h.positive hl0
  listed {k l} hk hl := by
    obtain ⟨hl0, hid, -⟩ := rise_inUse hl
    rw [rise_fd, hid]
    by_cases hki : k = i
    · subst hki
      rw [rise_seat_self]
      exact iff_of_false (rise_self_notMem h hi hj hin hl0)
        fun hroom => h.inUse_ne_nowhere hl0 hroom.symm
    · rw [rise_mem h hi hki hl0, rise_roomId hki]
      exact h.listed (by simpa using hk) hl0
  nodup {l} hl := by
    have hl0 := (rise_inUse hl).1
    by_cases hlj : l = j
    · subst hlj
      rw [rise_members_self]
      exact nodup_swapRemove (h.nodup hl0) _
    · rw [rise_bench_of_ne hlj]
      exact h.nodup hl0
  member {l} hl fd hfd := by
    have hl0 := (rise_inUse hl).1
    simp only [rise_taken, rise_fd]
    refine h.member hl0 fd ?_
    by_cases hlj : l = j
    · subst hlj
      rw [rise_members_self, mem_swapRemove (h.nodup hl0)] at hfd
      exact hfd.2
    · rwa [rise_bench_of_ne hlj] at hfd
  placed {k} hk hroom := by
    rw [rise_taken] at hk
    have hki : k ≠ i := by
      rintro rfl
      rw [rise_seat_self] at hroom
      exact hroom rfl
    rw [rise_roomId hki] at hroom ⊢
    obtain ⟨l, hl, hid⟩ := h.placed hk hroom
    have hkl : (t.seat k).fd ∈ ((t.rise i j).bench l).members :=
      (rise_mem h hi hki hl).mpr ((h.listed hk hl).mpr hid.symm)
    by_cases hlj : l = j
    · subst hlj
      rw [rise_members_self] at hkl
      have hrest := ne_nil_of_mem hkl
      refine ⟨l, ?_, ?_⟩
      · simpa [InUse, Seating.rise, hrest] using hl
      · simpa [Seating.rise, hrest] using hid
    · exact ⟨l, by rw [InUse, rise_bench_of_ne hlj]; exact hl,
        by rw [rise_bench_of_ne hlj]; exact hid⟩
  oneOwner {k k'} hk hk' hroom hown hown' := by
    have hne : ∀ {m}, ((t.rise i j).seat m).isOwner = true → m ≠ i := by
      rintro m hm rfl
      rw [rise_seat_self] at hm
      exact Bool.false_ne_true hm
    have hki := hne hown
    have hki' := hne hown'
    rw [rise_taken] at hk hk'
    rw [rise_roomId hki, rise_roomId hki'] at hroom
    exact rise_oneOwner h hi hj hin hk hk' hki hki' hroom hown hown'
  outside {k} hk hroom := by
    rw [rise_taken] at hk
    by_cases hki : k = i
    · subst hki
      rw [rise_seat_self]
    · rw [rise_roomId hki] at hroom
      refine Bool.eq_false_iff.mpr fun hown => ?_
      rw [rise_isOwner hki, h.outside hk hroom] at hown
      rcases hown with hown | ⟨-, hhead⟩
      · exact Bool.false_ne_true hown
      · exact h.inUse_ne_nowhere hj ((rise_heir h hj hhead hk) ▸ hroom)
  players {k k'} hk hk' hout hroom hplayer := by
    rw [rise_taken] at hk hk'
    have hne : ∀ {m}, ((t.rise i j).seat m).roomId ≠ nowhere → m ≠ i := by
      rintro m hm rfl
      rw [rise_seat_self] at hm
      exact hm rfl
    have hki := hne hout
    have hki' := hne (hroom ▸ hout)
    rw [rise_roomId hki] at hout hroom
    rw [rise_roomId hki'] at hroom
    rw [rise_playerId hki, rise_playerId hki'] at hplayer
    exact h.players hk hk' hout hroom hplayer
  led hl := rise_led h hi hj hin hl

/-- Getting up is done in three steps. -/
theorem Consistent.rise_eq :
    ((t.strike j (t.seat i).fd).reseat i ⟨(t.seat i).fd, nowhere, 0, false⟩).promote j
      (t.seat i).isOwner = t.rise i j := by
  have hself := rise_self_notMem h hi hj hin hj
  rw [rise_members_self] at hself
  have hhead : (swapRemove (t.bench j).members (t.seat i).fd).head? ≠ some (t.seat i).fd :=
    fun hh => hself (mem_of_head? hh)
  simp only [promote, strike, Seating.reseat, Seating.rise, update_self, Seating.mk.injEq]
  refine ⟨?_, ?_⟩
  · funext k
    by_cases hk : k = i
    · subst hk
      simp [hhead]
    · simp [hk]
  · simp

omit h hi hj hin in
theorem rise_reseat_eq (st : Seat) :
    ((t.strike j (t.seat i).fd).promote j (t.seat i).isOwner).reseat i st =
      (t.rise i j).reseat i st := by
  simp only [promote, strike, Seating.reseat, Seating.rise, update_self, Seating.mk.injEq]
  refine ⟨?_, ?_⟩
  · funext k
    by_cases hk : k = i
    · subst hk
      simp
    · simp [hk]
  · simp

theorem Consistent.promote_seat_self :
    ((t.strike j (t.seat i).fd).promote j (t.seat i).isOwner).seat i = t.seat i := by
  have hself := rise_self_notMem h hi hj hin hj
  rw [rise_members_self] at hself
  have hhead : (swapRemove (t.bench j).members (t.seat i).fd).head? ≠ some (t.seat i).fd :=
    fun hh => hself (mem_of_head? hh)
  simp [promote, strike, hhead]

end Rise

/-! ## Coming in and going out -/

section Reseat

variable {i : ι} {st : Seat}

omit [DecidableEq κ] in
theorem reseat_seat_self : (t.reseat i st).seat i = st := by simp [reseat]

variable {k : ι}

omit [DecidableEq κ] in
theorem reseat_seat_of_ne (hk : k ≠ i) : (t.reseat i st).seat k = t.seat k := by
  simp [reseat, hk]

omit [DecidableEq κ] in
theorem reseat_taken_of_ne (hk : k ≠ i) : (t.reseat i st).Taken k ↔ t.Taken k := by
  simp [Taken, reseat_seat_of_ne hk]

omit [DecidableEq ι] [DecidableEq κ] in
theorem Consistent.member_named (h : t.Consistent) {j : κ} (hj : t.InUse j) {fd : Int}
    (hfd : fd ∈ (t.bench j).members) :
    ∃ k, t.Taken k ∧ (t.seat k).fd = fd ∧ (t.seat k).roomId = (t.bench j).id := by
  obtain ⟨k, hk, rfl⟩ := h.member hj fd hfd
  exact ⟨k, hk, rfl, (h.listed hk hj).mp hfd⟩

omit [DecidableEq κ] in
/-- A free seat, or that of a session that sits nowhere, can be given to a
new session or set free. -/
theorem Consistent.reseat (h : t.Consistent) (hfrom : t.Taken i → (t.seat i).roomId = nowhere)
    (hto : 0 ≤ st.fd → st.roomId = nowhere ∧ st.isOwner = false ∧
      ∀ k, k ≠ i → (t.seat k).fd ≠ st.fd) : (t.reseat i st).Consistent := by
  -- nobody who sits on a bench is seat `i`
  have hmem : ∀ {j k}, t.InUse j → t.Taken k → (t.seat k).roomId = (t.bench j).id → k ≠ i := by
    rintro j k hj hk hroom rfl
    exact h.inUse_ne_nowhere hj (hroom ▸ hfrom hk)
  refine ⟨⟨?slot, h.ids, h.positive, ?listed, h.nodup, ?member, ?placed, ?oneOwner, ?outside,
    ?players⟩, ?led⟩
  case slot =>
    intro k k' hk hfd
    by_cases hki : k = i <;> by_cases hki' : k' = i
    · exact hki'.trans hki.symm
    · subst hki
      rw [Taken, reseat_seat_self] at hk
      rw [reseat_seat_of_ne hki', reseat_seat_self] at hfd
      exact absurd hfd ((hto hk).2.2 k' hki')
    · subst hki'
      rw [Taken, reseat_seat_of_ne hki] at hk
      rw [reseat_seat_of_ne hki, reseat_seat_self] at hfd
      exact absurd hfd.symm ((hto (hfd ▸ hk)).2.2 k hki)
    · rw [reseat_seat_of_ne hki, reseat_seat_of_ne hki'] at hfd
      exact h.slot ((reseat_taken_of_ne hki).mp hk) hfd
  case listed =>
    intro k j hk hj
    by_cases hki : k = i
    · subst hki
      rw [Taken, reseat_seat_self] at hk
      rw [reseat_seat_self]
      obtain ⟨hroom, -, hfresh⟩ := hto hk
      refine iff_of_false (fun hfd => ?_) fun hid => h.inUse_ne_nowhere hj (hid ▸ hroom)
      obtain ⟨m, hm, hmfd, hmroom⟩ := h.member_named hj hfd
      exact hfresh m (hmem hj hm hmroom) hmfd
    · rw [reseat_seat_of_ne hki]
      exact h.listed ((reseat_taken_of_ne hki).mp hk) hj
  case member =>
    intro j hj fd hfd
    obtain ⟨m, hm, hmfd, hmroom⟩ := h.member_named hj hfd
    have hmi := hmem hj hm hmroom
    exact ⟨m, (reseat_taken_of_ne hmi).mpr hm, by rw [reseat_seat_of_ne hmi]; exact hmfd⟩
  case placed =>
    intro k hk hroom
    have hki : k ≠ i := by
      rintro rfl
      rw [Taken, reseat_seat_self] at hk
      rw [reseat_seat_self] at hroom
      exact hroom (hto hk).1
    rw [reseat_seat_of_ne hki] at hroom ⊢
    exact h.placed ((reseat_taken_of_ne hki).mp hk) hroom
  case oneOwner =>
    intro k k' hk hk' hroom hown hown'
    have hne : ∀ {m}, (t.reseat i st).Taken m → ((t.reseat i st).seat m).isOwner = true →
        m ≠ i := by
      rintro m hm hmown rfl
      rw [Taken, reseat_seat_self] at hm
      rw [reseat_seat_self, (hto hm).2.1] at hmown
      exact Bool.false_ne_true hmown
    have hki := hne hk hown
    have hki' := hne hk' hown'
    rw [reseat_seat_of_ne hki] at hroom hown
    rw [reseat_seat_of_ne hki'] at hroom hown'
    exact h.oneOwner ((reseat_taken_of_ne hki).mp hk) ((reseat_taken_of_ne hki').mp hk') hroom
      hown hown'
  case outside =>
    intro k hk hroom
    by_cases hki : k = i
    · subst hki
      rw [Taken, reseat_seat_self] at hk
      rw [reseat_seat_self]
      exact (hto hk).2.1
    · rw [reseat_seat_of_ne hki] at hroom ⊢
      exact h.outside ((reseat_taken_of_ne hki).mp hk) hroom
  case players =>
    intro k k' hk hk' hin hroom hplayer
    have hne : ∀ {m}, (t.reseat i st).Taken m →
        ((t.reseat i st).seat m).roomId ≠ nowhere → m ≠ i := by
      rintro m hm hmroom rfl
      rw [Taken, reseat_seat_self] at hm
      rw [reseat_seat_self] at hmroom
      exact hmroom (hto hm).1
    have hki := hne hk hin
    have hki' := hne hk' (hroom ▸ hin)
    rw [reseat_seat_of_ne hki] at hin hroom hplayer
    rw [reseat_seat_of_ne hki'] at hroom hplayer
    exact h.players ((reseat_taken_of_ne hki).mp hk) ((reseat_taken_of_ne hki').mp hk') hin hroom
      hplayer
  case led =>
    intro j hj
    obtain ⟨hfill, k, hk, hroom, hown⟩ := h.led hj
    have hki := hmem hj hk hroom
    exact ⟨hfill, k, (reseat_taken_of_ne hki).mpr hk, by rw [reseat_seat_of_ne hki]; exact hroom,
      by rw [reseat_seat_of_ne hki]; exact hown⟩

end Reseat

end Seating

end Corestack.Tetrisd
