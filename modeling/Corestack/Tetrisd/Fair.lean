import Corestack.Tetrisd.Hall

/-!
# Rounds go on and end

A room in which a round is on has a member that can still end it. Whatever
takes that away (a game over, a leave, a lost connection) goes through
`room_check_round_end`, which ends the round then and there; so `Fair` is kept
by every call, and `Turn` says what a call does to a room: nothing, the end
of its round with a result for each member, or a start that its owner asked
for.
-/

namespace Corestack.Tetrisd

open List Function Lib
open Corestack.Core (UserName)

namespace Hall

variable {t t' : Hall} {i k : Fin maxSessions} {j l : Fin maxRooms} {fd : Int} {r : Table}

/-! ## Rounds go on -/

/-- The room has members, and somebody in it can still end a round. -/
structure Going (t : Hall) (r : Table) : Prop where
  filled : r.members ≠ []
  phase : r.phase = .waiting ∨ r.phase = .playing
  live : r.phase = .playing → ∃ i, t.Among r.members i ∧ (t.player i).phase ≠ .gameOver

structure Fair (t : Hall) (exempt : Fin maxSessions → Prop) : Prop extends Orderly t exempt where
  going : ∀ {j}, t.InUse j → t.Going (t.table j)

theorem going_of_waiting (hfill : r.members ≠ []) (hwait : r.phase = .waiting) : t.Going r :=
  ⟨hfill, .inl hwait, fun hplay => by cases hwait.symm.trans hplay⟩

theorem Going.frame (h : t.Going r)
    (hfound : ∀ fd ∈ r.members, ∀ k, t.find fd = some k →
      t'.find fd = some k ∧ (t'.player k).phase = (t.player k).phase) : t'.Going r :=
  { h with
    live := fun hplay => by
      obtain ⟨k, ⟨fd, hfd, hk⟩, hphase⟩ := h.live hplay
      obtain ⟨hk', heq⟩ := hfound fd hfd k hk
      exact ⟨k, ⟨fd, hfd, hk'⟩, heq ▸ hphase⟩ }

theorem Going.setPlayer {p : Player} (h : t.Going r) (hfd : p.fd = (t.player i).fd)
    (hnot : ¬ t.Among r.members i) : (t.setPlayer i p).Going r :=
  h.frame fun fd hmem k hk => ⟨(find_setPlayer hfd fd).trans hk, by
    rw [setPlayer_player_of_ne _ fun hki : k = i => hnot ⟨fd, hmem, hki ▸ hk⟩]⟩

theorem Fair.overwrite {p : Player} {exempt exempt' : Fin maxSessions → Prop} (h : t.Fair exempt)
    (hnot : ∀ {l}, t.InUse l → ¬ t.Among (t.table l).members i)
    (hfind : ∀ {fd k}, 0 ≤ fd → k ≠ i → t.find fd = some k → (t.setPlayer i p).find fd = some k)
    (hown : 0 ≤ p.fd → p.isOwner = true → exempt' i)
    (hex : ∀ {k}, k ≠ i → ¬ exempt' k → ¬ exempt k) : (t.setPlayer i p).Fair exempt' := by
  refine ⟨h.toOrderly.overwrite hnot hfind hown hex,
    fun hl => (h.going hl).frame fun fd hfd k hk => ?_⟩
  have hki : k ≠ i := fun hki => hnot hl ⟨fd, hfd, hki ▸ hk⟩
  exact ⟨hfind ((h.seated hl).member fd hfd).1 hki hk, by rw [setPlayer_player_of_ne _ hki]⟩

/-- `room_check_round_end` either finds the round going on or ends it. -/
inductive Checked (t : Hall) (j : Fin maxRooms) : Hall → Prop
  | goesOn (hlive : (t.table j).phase = .playing → (t.table j).members ≠ [] →
      ∃ k, t.Among (t.table j).members k ∧ (t.player k).phase ≠ .gameOver) : Checked t j t
  | ends {t' : Hall} (hphase : (t.table j).phase = .playing)
      (hover : ∀ k, t.Among (t.table j).members k → (t.player k).phase = .gameOver)
      (htable : t'.table = Function.update t.table j { t.table j with phase := .waiting })
      (hmembers : ∀ k, t.Among (t.table j).members k →
        t'.player k = { t.player k with phase := .waiting })
      (hothers : ∀ k, ¬ t.Among (t.table j).members k → t'.player k = t.player k)
      (hresults : t'.results = t.results ++ (t.table j).members) : Checked t j t'

theorem mem_players {fds : List Int} {p : Player} :
    p ∈ t.players fds ↔ ∃ k, t.Among fds k ∧ t.player k = p := by
  simp only [players, mem_filterMap, Option.map_eq_some_iff, Among]
  constructor
  · rintro ⟨fd, hfd, k, hk, hp⟩
    exact ⟨k, ⟨fd, hfd, hk⟩, hp⟩
  · rintro ⟨k, ⟨fd, hfd, hk⟩, hp⟩
    exact ⟨fd, hfd, k, hk, hp⟩

theorem checkRoundEnd_checked (t : Hall) (j : Fin maxRooms) : Checked t j (t.checkRoundEnd j) := by
  unfold checkRoundEnd
  split
  · rename_i hphase
    exact .goesOn fun hplay => absurd hplay hphase
  rename_i hphase
  rw [not_not] at hphase
  split
  · rename_i hnil
    exact .goesOn fun _ hne => absurd hnil hne
  split
  · rename_i hany
    obtain ⟨p, hp, hpp⟩ := any_eq_true.mp hany
    obtain ⟨k, hk, rfl⟩ := mem_players.mp hp
    exact .goesOn fun _ _ => ⟨k, hk, by simpa using hpp⟩
  · rename_i hnone
    refine .ends hphase (fun k hk => ?_) ?_ (fun k hk => ?_) (fun k hk => ?_) ?_
    · by_contra hover
      exact hnone (any_eq_true.mpr
        ⟨t.player k, mem_players.mpr ⟨k, hk, rfl⟩, by simpa using hover⟩)
    · rw [setPhases_table]
      rfl
    · exact setPhases_among _ _ hk
    · exact setPhases_other _ _ hk
    · rw [setPhases_results]
      rfl

/-- What becomes of a room when no round starts in it. -/
inductive Rests (t : Hall) (l : Fin maxRooms) (t' : Hall) : Prop
  | same (h : (t'.table l).phase = (t.table l).phase)
  | ended (hplay : (t.table l).phase = .playing) (hwait : (t'.table l).phase = .waiting)
      (hmembers : ∀ fd ∈ (t'.table l).members,
        ∃ i, t'.find fd = some i ∧ (t'.player i).phase = .waiting)
      (hresults : t'.results = t.results ++ (t'.table l).members)

theorem Rests.of_eq {t₀ : Hall} (h : Rests t l t') (hphase : (t.table l).phase = (t₀.table l).phase)
    (hresults : t.results = t₀.results) : Rests t₀ l t' := by
  cases h with
  | same h => exact .same (h.trans hphase)
  | ended hplay hwait hmembers hres =>
    exact .ended (hphase ▸ hplay) hwait hmembers (hresults ▸ hres)

section Check

variable {exempt : Fin maxSessions → Prop} (h : t.Orderly exempt) (hj : t.InUse j)
  (hphase : (t.table j).phase = .waiting ∨ (t.table j).phase = .playing)
  (hgoing : ∀ {l}, l ≠ j → t.InUse l → t.Going (t.table l))
include h hj hphase hgoing

/-- After the check the room goes on: either somebody in it can still end the
round, or the round is over. No other room is touched, because no member of
another room is found among its members. -/
theorem fair_checkRoundEnd (hfill : (t.table j).members ≠ []) :
    (t.checkRoundEnd j).Fair exempt := by
  have hseats := seats_checkRoundEnd t j
  have hchecked := checkRoundEnd_checked t j
  refine ⟨h.congr hseats, fun {l} hl => ?_⟩
  have hl' := (inUse_of_seats hseats l).mp hl
  generalize t.checkRoundEnd j = t' at hseats hchecked
  cases hchecked with
  | goesOn hlive =>
    by_cases hlj : l = j
    · subst hlj
      exact ⟨hfill, hphase, fun hplay => hlive hplay hfill⟩
    · exact hgoing hlj hl'
  | ends _ _ htable _ hothers =>
    rw [htable]
    by_cases hlj : l = j
    · subst hlj
      rw [update_self]
      exact going_of_waiting hfill rfl
    · rw [update_of_ne hlj]
      refine (hgoing hlj hl').frame fun fd hfd k hk => ⟨(find_of_seats hseats fd).trans hk, ?_⟩
      rw [hothers k (h.not_among hj hl' hlj ⟨fd, hfd, hk⟩)]

omit hphase hgoing in
theorem rests_checkRoundEnd (l : Fin maxRooms) : Rests t l (t.checkRoundEnd j) := by
  have hseats := seats_checkRoundEnd t j
  have hchecked := checkRoundEnd_checked t j
  generalize t.checkRoundEnd j = t' at hseats hchecked
  cases hchecked with
  | goesOn => exact .same rfl
  | ends hplay _ htable hmembers _ hresults =>
    by_cases hlj : l = j
    · subst hlj
      have htl : t'.table l = { t.table l with phase := .waiting } := by
        rw [htable, update_self]
      refine .ended hplay (by rw [htl]) (fun fd hfd => ?_) (by rw [hresults, htl])
      rw [htl] at hfd
      obtain ⟨-, i, hi, -⟩ := (h.seated hj).member fd hfd
      exact ⟨i, (find_of_seats hseats fd).trans hi, by rw [hmembers i ⟨fd, hfd, hi⟩]⟩
    · exact .same (by rw [htable, update_of_ne hlj])

end Check

/-- The heir of an owner who leaves is told apart by that alone. -/
theorem promote_frame (w : Bool) (fd : Int) :
    (if w then t.promote fd else t).table = t.table ∧
      (if w then t.promote fd else t).results = t.results ∧
      (∀ fd', (if w then t.promote fd else t).find fd' = t.find fd') ∧
      ∀ k, ((if w then t.promote fd else t).player k).phase = (t.player k).phase := by
  unfold promote
  split
  · split
    · exact ⟨rfl, rfl, fun _ => rfl, fun _ => rfl⟩
    · exact ⟨rfl, rfl, find_setPlayer (by rfl), setPlayer_proj Player.phase (by rfl)⟩
  · exact ⟨rfl, rfl, fun _ => rfl, fun _ => rfl⟩

theorem left_seats (w : Bool) :
    (∀ fd, (t.left j w).find fd = t.find fd) ∧
    ∀ {l}, (t.left j w).InUse l →
      t.InUse l ∧ ((t.left j w).table l).members = (t.table l).members := by
  unfold left
  split
  · refine ⟨fun _ => rfl, fun {l} hl => ?_⟩
    obtain ⟨hlj, hl⟩ := vacated_inUse.mp hl
    rw [setTable_table_of_ne _ hlj]
    exact ⟨hl, rfl⟩
  · rename_i first rest _
    obtain ⟨htable, -, hfind, -⟩ := @promote_frame t w first
    have hseats := seats_checkRoundEnd (if w then t.promote first else t) j
    refine ⟨fun fd => (find_of_seats hseats fd).trans (hfind fd), fun {l} hl => ?_⟩
    rw [inUse_of_seats hseats, InUse, htable] at hl
    exact ⟨hl, htable ▸ congrArg (fun t => (t.table l).members) hseats⟩

section Left

variable {exempt : Fin maxSessions → Prop} (h : t.Orderly exempt) (hj : t.InUse j)
include h hj

theorem orderly_heir {first : Int} (hfirst : first ∈ (t.table j).members) (w : Bool) :
    (if w then t.promote first else t).Orderly exempt := by
  split
  · exact h.promote hj hfirst
  · exact h

theorem fair_left (hphase : (t.table j).phase = .waiting ∨ (t.table j).phase = .playing)
    (hgoing : ∀ {l}, l ≠ j → t.InUse l → t.Going (t.table l)) (w : Bool) :
    (t.left j w).Fair exempt := by
  unfold left
  split
  · rename_i hnil
    exact ⟨h.vacate hnil, forall_setTable (fun hid => absurd rfl hid)
      fun hlj hl => { hgoing hlj hl with }⟩
  · rename_i first rest hcons
    have horderly := orderly_heir h hj (show first ∈ _ by simp [hcons]) w
    obtain ⟨htable, -, hfind, hphases⟩ := @promote_frame t w first
    generalize (if w then t.promote first else t) = t' at *
    refine fair_checkRoundEnd horderly (by rwa [InUse, htable]) (by rwa [htable])
      (fun hlj hl => ?_) (by simp [htable, hcons])
    rw [InUse, htable] at hl
    rw [htable]
    exact (hgoing hlj hl).frame fun fd _ k hk => ⟨(hfind fd).trans hk, hphases k⟩

theorem rests_left (w : Bool) {l : Fin maxRooms} (hl : (t.left j w).InUse l) :
    Rests t l (t.left j w) := by
  unfold left at hl ⊢
  split at hl
  · exact .same (by rw [setTable_table_of_ne _ (vacated_inUse.mp hl).1])
  · rename_i first rest hcons
    obtain ⟨htable, hresults, -⟩ := @promote_frame t w first
    have horderly := orderly_heir h hj (show first ∈ _ by simp [hcons]) w
    exact (rests_checkRoundEnd horderly (by rwa [InUse, htable]) l).of_eq (by rw [htable]) hresults

end Left

/-! ## Each call -/

/-- What becomes of a room at a call: a round starts only because its owner,
who is a member, asked for it. -/
inductive Turn (t : Hall) (c : Call) (l : Fin maxRooms) (t' : Hall) : Prop
  | rests (h : Rests t l t')
  | started (fd : Int) (i : Fin maxSessions) (hcall : c = .handle fd .start)
      (hfind : t.find fd = some i) (hown : (t.player i).isOwner = true)
      (hmem : fd ∈ (t.table l).members) (hwait : (t.table l).phase ≠ .playing)
      (hplay : (t'.table l).phase = .playing)

structure Advances (t : Hall) (c : Call) (t' : Hall) : Prop where
  fair : t'.Fair nobody
  turn : ∀ l, t.InUse l → t'.InUse l → Turn t c l t'

theorem Fair.stays (h : t.Fair nobody) (c : Call) : Advances t c t :=
  ⟨h, fun _ _ _ => .rests (.same rfl)⟩

def Proper (t : Hall) (c : Call) : Prop := c.ProperFor t.inited fun i => (t.player i).fd

theorem Fair.ensureInit (h : t.Fair nobody) : t.ensureInit.Fair nobody := by
  unfold Hall.ensureInit
  split
  · exact h
  · exact ⟨⟨fun hj => (hj rfl).elim, fun hj => (hj rfl).elim, fun h0 =>
      absurd (show (0 : Int) ≤ -1 from h0) (by omega)⟩, fun hj => (hj rfl).elim⟩

theorem ensureInit_phase (l : Fin maxRooms) :
    (t.ensureInit.table l).phase = (t.table l).phase := by
  unfold Hall.ensureInit
  split <;> rfl

theorem Fair.add (h : t.Fair nobody) {fd pid : Int} (hcall : t.Proper (.add fd pid)) :
    Advances t (.add fd pid) (t.add fd) := by
  have h' := h.ensureInit
  have hfresh : ∀ k, 0 ≤ (t.ensureInit.player k).fd → (t.ensureInit.player k).fd ≠ fd := by
    intro k h0
    unfold Hall.ensureInit at h0 ⊢
    split at h0
    · rename_i hin
      rw [if_pos hin]
      exact hcall hin k h0
    · have : (0 : Int) ≤ -1 := h0
      omega
  unfold Hall.add
  dsimp only
  split
  · exact ⟨h', fun l _ _ => .rests (.same (ensureInit_phase l))⟩
  · rename_i i hslot
    have hneg : (t.ensureInit.player i).fd < 0 := by simpa using firstSlot_some hslot
    refine ⟨h'.overwrite (fun hl => ?_) (fun {fd' k} h0 _ hk => ?_) (fun _ hown => by cases hown)
      fun _ hex => hex, fun l _ _ => .rests (.same (ensureInit_phase l))⟩
    · rintro ⟨fd', hfd', hk⟩
      have h0 := ((h'.seated hl).member fd' hfd').1
      rw [← find_fd hk] at h0
      omega
    · rw [← hk]
      have hkfd := find_fd hk
      exact find_setPlayer_of_ne (fun heq => hfresh k (by omega) (hkfd.trans heq.symm)) (by omega)

theorem sit_phase (l : Fin maxRooms) : ((t.sit i j).table l).phase = (t.table l).phase := by
  unfold Hall.sit
  split
  · rfl
  · exact setTable_proj Table.phase (by rfl) l

theorem strike_phase (l : Fin maxRooms) : ((t.strike j fd).table l).phase = (t.table l).phase :=
  setTable_proj Table.phase (by rfl) l

theorem strike_inUse (l : Fin maxRooms) : (t.strike j fd).InUse l ↔ t.InUse l := by
  rw [InUse, strike, setTable_proj Table.id (by rfl), InUse]

theorem Fair.strike (h : t.Fair nobody) (hlj : l ≠ j) (hl : (t.strike j fd).InUse l) :
    (t.strike j fd).Going ((t.strike j fd).table l) := by
  rw [show (t.strike j fd).table l = t.table l from setTable_table_of_ne _ hlj]
  exact { h.going ((strike_inUse l).mp hl) with }

section Handled

variable (hi : t.find fd = some i)
include hi

/-- A session that is in no room sits down where no round is on. The room has
a member then, and waits. -/
theorem fair_sit (h0 : 0 ≤ fd) (h : t.Orderly nobody) (hout : (t.player i).roomId = roomNone)
    (hj : t.InUse j) (hwait : (t.table j).phase = .waiting)
    (hgoing : ∀ {l}, l ≠ j → t.InUse l → t.Going (t.table l)) : (t.sit i j).Fair nobody := by
  have hifd := find_fd hi
  have horderly := h.sit (by rw [hifd]; exact hi) (by omega) hout hj
  unfold Hall.sit at horderly ⊢
  split
  · have hpos : 0 < maxRoomMembers := by unfold maxRoomMembers; decide
    refine ⟨h, fun {l} hl => ?_⟩
    by_cases hlj : l = j
    · subst hlj
      exact going_of_waiting (ne_nil_of_length_pos (by omega)) hwait
    · exact hgoing hlj hl
  · rename_i hfull
    rw [if_neg hfull] at horderly
    refine ⟨horderly, forall_setTable (fun _ => going_of_waiting (by simp) hwait) fun hlj hl => ?_⟩
    have hnot := not_among_of_notMem hi (h.unlisted hi (.inl hout) hl)
    exact { (hgoing hlj hl).setPlayer (by rfl) hnot with }

theorem Fair.join (h0 : 0 ≤ fd) (h : t.Fair nobody) {want : Int} (hwant : 0 ≤ want)
    (name : UserName) :
    Advances t (.handle fd (.join want name)) (t.join i want) := by
  unfold Hall.join
  split
  · exact h.stays _
  rename_i hout
  rw [not_not] at hout
  split
  · rename_i j hroom
    have hroom' : t.roomFind want = some j := by
      split at hroom
      · cases hroom
      · exact hroom
    have hj := roomFind_inUse hroom'
    split
    · exact h.stays _
    · rename_i hphase
      have hwait := (h.going hj).phase.resolve_right hphase
      exact ⟨fair_sit hi h0 h.toOrderly hout hj hwait fun _ => h.going,
        fun l _ _ => .rests (.same (sit_phase l))⟩
  · rename_i hroom
    have hfind : want = 0 ∨ t.roomFind want = none := by
      split at hroom
      · exact Or.inl ‹_›
      · exact Or.inr hroom
    unfold Hall.create
    cases hslot : firstSlot t.table fun r => r.id = 0 with
    | none => exact h.stays _
    | some j =>
      simp only [Option.bind_eq_bind, Option.bind_some]
      have hfree : (t.table j).id = 0 := by simpa using firstSlot_some hslot
      obtain ⟨hpos, hfresh⟩ := @newNumber_unused _ t.roomFind (fun l => (t.table l).id)
        (fun h => (roomFind_some h).2) roomFind_none want hwant hfind
      generalize (if want = 0 then firstUnused (fun cand => (t.roomFind cand).isSome) maxRooms 1
        else want) = id at hpos hfresh
      have hcreated := h.toOrderly.create (fun hj => hj hfree) hpos hfresh
      refine ⟨fair_sit (t := t.setTable j ⟨id, [], .waiting⟩) hi h0 hcreated hout ?_ ?_
        (fun {l} hlj hl => ?_), fun l hl _ => .rests (.same ?_)⟩
      · rw [InUse, setTable_table]
        exact hpos.ne'
      · rw [setTable_table]
      · rw [InUse, setTable_table_of_ne _ hlj] at hl
        rw [setTable_table_of_ne _ hlj]
        exact { h.going hl with }
      · rw [sit_phase, setTable_table_of_ne]
        rintro rfl
        exact hl hfree

theorem struck_notMem (h : t.Orderly nobody) (hroom : t.roomFind (t.player i).roomId = some j)
    (hl : (t.strike j fd).InUse l) : fd ∉ ((t.strike j fd).table l).members := by
  have hj := roomFind_inUse hroom
  refine forall_setTable (P := fun r => fd ∉ r.members) (fun _ hmem => ?_)
    (fun hlj hl hmem => hlj ?_) hl
  · exact ((mem_swapRemove (h.seated hj).nodup).mp hmem).1 rfl
  · exact h.ids hj ((h.listed_named hi hl hmem).symm.trans (roomFind_some hroom).2.symm)

theorem Fair.leave (h : t.Fair nobody) : Advances t (.handle fd .leave) (t.leave i) := by
  have hifd := find_fd hi
  unfold Hall.leave
  dsimp only
  split
  · exact h.stays _
  cases hroom : t.roomFind (t.player i).roomId with
  | none =>
    exact ⟨h.overwrite (fun hl => not_among_of_notMem hi (h.unlisted hi (.inr hroom) hl))
      (fun _ _ hk => (find_setPlayer (by rfl) _).trans hk) (fun _ hown => by cases hown)
      fun _ hex => hex, fun l _ _ => .rests (.same rfl)⟩
  | some j =>
    have hj := roomFind_inUse hroom
    rw [hifd]
    have hstruck : (t.strike j fd).find fd = some i := hi
    have hnot : ∀ {l}, (t.strike j fd).InUse l → fd ∉ ((t.strike j fd).table l).members :=
      struck_notMem hi h.toOrderly hroom
    have hcleared := (h.toOrderly.strike hi hroom).clear hstruck hnot .idle
    rw [show ((t.strike j fd).player i).fd = fd from hifd] at hcleared
    have hj' : ((t.strike j fd).setPlayer i ⟨fd, roomNone, false, .idle⟩).InUse j :=
      (strike_inUse j).mpr hj
    refine ⟨fair_left hcleared hj' ?_ (fun hlj hl => ?_) _, fun l _ hl => .rests ?_⟩
    · show ((t.strike j fd).table j).phase = _ ∨ ((t.strike j fd).table j).phase = _
      rw [strike_phase]
      exact (h.going hj).phase
    · exact (h.strike hlj hl).setPlayer hifd.symm (not_among_of_notMem hstruck (hnot hl))
    · exact (rests_left hcleared hj' _ hl).of_eq (strike_phase l) rfl

theorem Fair.start (h0 : 0 ≤ fd) (h : t.Fair nobody) :
    Advances t (.handle fd .start) (t.start i) := by
  have hifd := find_fd hi
  unfold Hall.start
  dsimp only
  split
  · exact h.stays _
  split
  · exact h.stays _
  rename_i hown
  rw [not_not] at hown
  split
  · exact h.stays _
  rename_i j hroom
  split
  · exact h.stays _
  rename_i hwait
  have hj := roomFind_inUse hroom
  have hmem : fd ∈ (t.table j).members := by
    obtain ⟨-, l, hl, hlid, hlmem⟩ := h.owner (by omega) hown not_false
    obtain rfl : l = j := h.ids hj (hlid.trans (roomFind_some hroom).2.symm)
    rw [← hifd]
    exact hlmem
  set t₁ := t.setTable j { t.table j with phase := .playing } with ht₁
  have hseats : (t₁.setPhases .playing (t.table j).members).seats = t.seats :=
    (seats_setPhases _ _).trans (seats_setTable j _)
  refine ⟨⟨h.toOrderly.congr hseats, fun {l} hl => ?_⟩, fun l hl _ => ?_⟩
  · rw [InUse, setPhases_table] at hl
    rw [setPhases_table]
    refine forall_setTable (fun _ => ⟨(h.going hj).filled, .inr rfl, fun _ =>
      ⟨i, ⟨fd, hmem, (find_of_seats hseats fd).trans hi⟩, ?_⟩⟩) (fun {l} hlj hl => ?_) hl
    · rw [setPhases_among _ _ (show t₁.Among (t.table j).members i from ⟨fd, hmem, hi⟩)]
      exact SessionPhase.noConfusion
    · refine (h.going hl).frame fun fd' hfd' k hk => ⟨(find_of_seats hseats fd').trans hk, ?_⟩
      have hnot := h.not_among hj hl hlj ⟨fd', hfd', hk⟩
      rw [setPhases_other _ _ (show ¬ t₁.Among (t.table j).members k from hnot)]
      rfl
  · by_cases hlj : l = j
    · subst hlj
      exact .started fd i rfl hi hown hmem hwait (by rw [setPhases_table, ht₁, setTable_table])
    · exact .rests (.same (by rw [setPhases_table, ht₁, setTable_table_of_ne _ hlj]))

theorem Fair.gameover (h : t.Fair nobody) (score : Int) :
    Advances t (.handle fd (.gameover score)) (t.gameover i) := by
  have hifd := find_fd hi
  unfold Hall.gameover
  dsimp only
  split
  · exact h.stays _
  rename_i hin
  have hseats := @seats_setPhase t i .gameOver
  set t₁ := t.setPlayer i { t.player i with phase := .gameOver } with ht₁
  have horderly := h.toOrderly.congr hseats
  have hroomeq : t₁.roomFind (t.player i).roomId = t.roomFind (t.player i).roomId := rfl
  -- rooms that do not list this session are not concerned
  have hframe : ∀ {l}, t.InUse l → fd ∉ (t.table l).members → t₁.Going (t.table l) :=
    fun hl hnot => (h.going hl).setPlayer rfl (not_among_of_notMem hi hnot)
  rw [hroomeq]
  cases hroom : t.roomFind (t.player i).roomId with
  | none =>
    exact ⟨⟨horderly, fun hl => hframe hl (h.unlisted hi (Or.inr hroom) hl)⟩,
      fun l _ _ => .rests (.same rfl)⟩
  | some j =>
    have hj := roomFind_inUse hroom
    refine ⟨fair_checkRoundEnd horderly hj (h.going hj).phase (fun {l} hlj hl => ?_)
      (h.going hj).filled, fun l _ _ => .rests ((rests_checkRoundEnd horderly hj l).of_eq rfl rfl)⟩
    refine hframe hl fun hmem => hlj ?_
    exact h.ids hj ((h.listed_named hi hl hmem).symm.trans (roomFind_some hroom).2.symm)

end Handled

theorem Fair.handle (h : t.Fair nobody) {msg : AdminMsg} (hcall : t.Proper (.handle fd msg)) :
    Advances t (.handle fd msg) (t.handle fd msg) := by
  unfold Hall.handle
  cases hi : t.find fd with
  | none => exact h.stays _
  | some i =>
    cases msg with
    | join want name => exact Fair.join hi hcall.1 h hcall.2 name
    | leave => exact Fair.leave hi h
    | start => exact Fair.start hi hcall h
    | gameover score => exact Fair.gameover hi h score
    | _ => exact h.stays _

theorem find_dropped {fd' : Int} (hi : t.find fd = some i) (h0 : 0 ≤ fd') (hki : k ≠ i)
    (hk : t.find fd' = some k) :
    (t.setPlayer i { t.player i with fd := -1 }).find fd' = some k := by
  rw [← hk]
  refine find_setPlayer_of_ne (show (-1 : Int) ≠ fd' by omega) fun heq => hki ?_
  rw [← heq, find_fd hi] at hk
  exact Option.some.inj (hk.symm.trans hi)

theorem Fair.close (h : t.Fair nobody) : Advances t (.close fd) (t.close fd) := by
  unfold Hall.close
  cases hi : t.find fd with
  | none => exact h.stays _
  | some i =>
    dsimp only
    -- what is left to do once no room lists the session
    have hdrop : ∀ {t' : Hall}, t'.Fair (· = i) → t'.find fd = some i →
        (∀ {l}, t'.InUse l → fd ∉ (t'.table l).members) →
        (t'.setPlayer i { t'.player i with fd := -1 }).Fair nobody := fun h' hi' hnot =>
      h'.overwrite (fun hl => not_among_of_notMem hi' (hnot hl)) (find_dropped hi')
        (fun h0 => absurd (show (0 : Int) ≤ -1 from h0) (by omega)) fun hki _ => hki
    have hexempt : t.Fair (· = i) :=
      { h with owner := fun h0 hown _ => h.owner h0 hown not_false }
    by_cases hnone : (t.player i).roomId = roomNone
    · rw [if_pos hnone]
      exact ⟨hdrop hexempt hi fun hl => h.unlisted hi (Or.inl hnone) hl,
        fun l _ _ => .rests (.same rfl)⟩
    rw [if_neg hnone]
    cases hroom : t.roomFind (t.player i).roomId with
    | none =>
      exact ⟨hdrop hexempt hi fun hl => h.unlisted hi (Or.inr hroom) hl,
        fun l _ _ => .rests (.same rfl)⟩
    | some j =>
      have hj := roomFind_inUse hroom
      have hstruck := h.toOrderly.strike hi hroom
      have hj' : (t.strike j fd).InUse j := (strike_inUse j).mpr hj
      obtain ⟨hfind, hseats⟩ := @left_seats (t.strike j fd) j (t.player i).isOwner
      have hnot : ∀ {l}, ((t.strike j fd).left j (t.player i).isOwner).InUse l →
          fd ∉ (((t.strike j fd).left j (t.player i).isOwner).table l).members := fun {l} hl => by
        rw [(hseats hl).2]
        exact struck_notMem hi h.toOrderly hroom (hseats hl).1
      refine ⟨hdrop (fair_left hstruck hj' ?_ h.strike _) ((hfind fd).trans hi) hnot,
        fun l _ hl => .rests ?_⟩
      · rw [strike_phase]
        exact (h.going hj).phase
      · have hrests := rests_left hstruck hj' (t.player i).isOwner hl
        refine Rests.of_eq (t := t.strike j fd) ?_ (strike_phase l) rfl
        cases hrests with
        | same heq => exact .same heq
        | ended hplay hwait hmembers hresults =>
          refine .ended hplay hwait (fun fd' hfd' => ?_) hresults
          obtain ⟨k, hk, hphase⟩ := hmembers fd' hfd'
          have hki : k ≠ i := by
            rintro rfl
            exact not_among_of_notMem ((hfind fd).trans hi) (hnot hl) ⟨fd', hfd', hk⟩
          have h0' := (hstruck.seated (hseats hl).1).member fd' ((hseats hl).2 ▸ hfd')
          refine ⟨k, find_dropped ((hfind fd).trans hi) h0'.1 hki hk, ?_⟩
          rwa [setPlayer_player_of_ne _ hki]

/-- Every call a server makes keeps the hall fair and says what became of
each room. -/
theorem Fair.step (h : t.Fair nobody) {c : Call} (hcall : t.Proper c) :
    Advances t c (t.step c) := by
  cases c with
  | add fd pid => exact h.add hcall
  | handle fd msg => exact h.handle hcall
  | close fd => exact h.close
  | flush => exact ⟨h.ensureInit, fun l _ _ => .rests (.same (ensureInit_phase l))⟩

end Hall

end Corestack.Tetrisd
