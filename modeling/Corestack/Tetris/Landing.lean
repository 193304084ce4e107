import Corestack.Tetris.Rules
import Mathlib.Order.Bounds.Basic

/-!
# Where the falling piece comes to rest

Rising garbage walks the falling piece up until it is clear, and a hard drop
walks it down until it is stopped. Both loops look for the first row that
changes the answer of `board_collides`, and both end: above the board and
below it a piece with a filled cell collides.
-/

namespace Corestack.Tetris

open Lib

/-- The piece `n` rows further down. -/
def Piece.down (p : Piece) (n : Int) : Piece := { p with y := p.y + n }

/-- The piece is inside the board and on empty cells. -/
def Fits (b : Board) (p : Piece) : Prop :=
  ∀ r c, pieceFilled p r c = true →
    (0 ≤ p.x + c ∧ p.x + c < boardWidth) ∧ (0 ≤ p.y + r ∧ p.y + r < boardHeight) ∧
      b (p.y + r).toNat (p.x + c).toNat = .none

variable {b : Board} {p : Piece}

theorem fits_iff : Fits b p ↔ boardCollides b p = false := by
  rw [collides_eq_false]
  refine forall_congr' fun r => forall_congr' fun c => imp_congr_right fun _ => ?_
  simp only [outside, Bool.or_eq_false_iff, decide_eq_false_iff_not]
  constructor
  · rintro ⟨hx, hy, hcell⟩
    exact ⟨by omega, hcell⟩
  · rintro ⟨hout, hcell⟩
    exact ⟨by omega, by omega, hcell⟩

theorem not_fits_iff : ¬ Fits b p ↔ boardCollides b p = true := by
  rw [fits_iff, Bool.not_eq_false]

theorem Piece.down_zero (p : Piece) : p.down 0 = p := by
  rw [down, Int.add_zero]

theorem Piece.down_down (p : Piece) (m n : Int) : (p.down m).down n = p.down (m + n) := by
  rw [down, down, down, Int.add_assoc]

theorem actionMove_down (p : Piece) (n : Int) : actionMove p 0 n = p.down n := by
  rw [actionMove, Piece.down, Int.add_zero]

/-! ## Rising -/

theorem kind_of_collides (h : boardCollides b p = true) : p.kind ≠ .none := by
  intro hnone
  rw [boardCollides, pieceSize, hnone] at h
  cases h

theorem walkUp_of_collides (h : boardCollides b p = true) (n : Nat) :
    walkUp b (n + 1) p = walkUp b n (p.down (-1)) := by
  rw [walkUp, if_pos (by simp [h, kind_of_collides h])]
  rfl

variable {k : Nat}

/-- The walk ends on the first clear row it meets, if that is not further up
than it goes. -/
theorem walkUp_first :
    ∀ {n : Nat} {p : Piece}, k ≤ n → Fits b (p.down (-k)) →
      (∀ j < k, ¬ Fits b (p.down (-j))) → walkUp b n p = (p.down (-k), true) := by
  induction k with
  | zero =>
    intro n p _ hfits _
    rw [Nat.cast_zero, Int.neg_zero, Piece.down_zero] at hfits ⊢
    unfold walkUp
    rw [if_neg (by simp [fits_iff.mp hfits])]
  | succ k ih =>
    intro n p hle hfits hbelow
    obtain ⟨n, rfl⟩ : ∃ m, n = m + 1 := ⟨n - 1, by omega⟩
    have hdown : ∀ j : Nat, (p.down (-1)).down (-j) = p.down (-(j + 1 : Nat)) := by
      intro j
      rw [Piece.down_down, Nat.cast_add, Int.neg_add, Int.add_comm]
      rfl
    have hfirst : boardCollides b p = true := by
      have := hbelow 0 (Nat.succ_pos k)
      rwa [Nat.cast_zero, Int.neg_zero, Piece.down_zero, not_fits_iff] at this
    rw [walkUp_of_collides hfirst, ih (by omega) (hdown k ▸ hfits), hdown]
    intro j hj
    rw [hdown]
    exact hbelow (j + 1) (by omega)

theorem walkUp_stuck :
    ∀ {n : Nat} {p : Piece}, (∀ j : Nat, ¬ Fits b (p.down (-j))) → (walkUp b n p).2 = false := by
  intro n
  induction n with
  | zero =>
    intro p h
    have hfirst := not_fits_iff.mp (h 0)
    rw [Nat.cast_zero, Int.neg_zero, Piece.down_zero] at hfirst
    rw [walkUp, if_pos (by simp [hfirst, kind_of_collides hfirst])]
  | succ n ih =>
    intro p h
    have hfirst := not_fits_iff.mp (h 0)
    rw [Nat.cast_zero, Int.neg_zero, Piece.down_zero] at hfirst
    rw [walkUp_of_collides hfirst]
    refine ih fun j => ?_
    rw [Piece.down_down, show (-1 : Int) + -j = -(j + 1 : Nat) by omega]
    exact h (j + 1)

/-- A row that is clear is no further up than the walk may go, or the piece
has no cells. -/
theorem least_le (hfits : Fits b (p.down (-k))) (hbelow : ∀ j < k, ¬ Fits b (p.down (-j))) :
    k ≤ (p.y + pieceSize p).toNat := by
  by_contra hgt
  refine hbelow 0 (by omega) fun r c hf => ?_
  have hrow := (hfits r c hf).2.1.1
  have hsize : r < pieceSize p := by
    simp only [pieceFilled, Bool.and_eq_true, decide_eq_true_eq] at hf
    exact hf.1.1
  simp only [Piece.down] at hrow
  omega

theorem toppedOut_eq_false {n : Nat} :
    toppedOut b n = false ↔ ∀ r < n, ∀ c < boardWidth, b r c = .none := by
  simp [toppedOut]

/-- Garbage lifts the stack by `m` rows over as many rows with one hole, and
walks the falling piece up to the first row that is clear. It reports
whether nothing was pushed over the top and there is such a row. -/
theorem addGarbage_lifts (g : GameState) (n : Int) (hn : 1 ≤ n) :
    let m := min n.toNat boardHeight
    let g' := (boardAddGarbage g n).2
    (∀ r < boardHeight, layGarbage m (shiftUp m g.board) r = g'.board r ∧
      ∀ c < boardWidth, g'.board r c =
        if r < boardHeight - m then g.board (r + m) c
        else if c = garbageHoleCol then .none else .garbage) ∧
    (∀ k : Nat, IsLeast {k : Nat | Fits g'.board (g.active.down (-k))} k →
      g'.active = g.active.down (-k)) ∧
    ((boardAddGarbage g n).1 = true ↔
      (∀ r < m, ∀ c < boardWidth, g.board r c = .none) ∧
        ∃ k : Nat, Fits g'.board (g.active.down (-k))) := by
  intro m g'
  have hpos : ¬ n ≤ 0 := by omega
  have hm : 1 ≤ m := Nat.le_min.mpr ⟨by omega, by decide⟩
  have hboard : g'.board = layGarbage m (shiftUp m g.board) := by
    simp only [g', boardAddGarbage, if_neg hpos]
    rfl
  have hactive : g'.active =
      (walkUp g'.board (g.active.y + pieceSize g.active).toNat g.active).1 := by
    rw [hboard]
    simp only [g', boardAddGarbage, if_neg hpos]
    rfl
  have hflag : (boardAddGarbage g n).1 =
      ((walkUp g'.board (g.active.y + pieceSize g.active).toNat g.active).2 &&
        !toppedOut g.board m) := by
    rw [hboard]
    simp only [boardAddGarbage, if_neg hpos]
    rfl
  have hwalk : ∀ k : Nat, IsLeast {k : Nat | Fits g'.board (g.active.down (-k))} k →
      walkUp g'.board (g.active.y + pieceSize g.active).toNat g.active =
        (g.active.down (-k), true) := by
    intro k hk
    have hbelow : ∀ j < k, ¬ Fits g'.board (g.active.down (-j)) :=
      fun j hj hfits => absurd (hk.2 hfits) (by omega)
    exact walkUp_first (least_le hk.1 hbelow) hk.1 hbelow
  refine ⟨fun r hr => ⟨?_, fun c _ => ?_⟩, fun k hk => ?_, ?_⟩
  · rw [hboard]
  · rw [hboard, layGarbage_shiftUp g.board hm (Nat.min_le_right _ _) hr]
    rfl
  · rw [hactive, hwalk k hk]
  · rw [hflag, Bool.and_eq_true, Bool.not_eq_true', toppedOut_eq_false, and_comm]
    refine and_congr_right fun _ => ?_
    constructor
    · intro htrue
      by_contra hnone
      rw [walkUp_stuck (not_exists.mp hnone)] at htrue
      cases htrue
    · rintro ⟨k, hk⟩
      classical
      have hleast : IsLeast {k : Nat | Fits g'.board (g.active.down (-k))}
          (Nat.find (p := fun k : Nat => Fits g'.board (g.active.down (-k))) ⟨k, hk⟩) :=
        ⟨Nat.find_spec (p := fun k : Nat => Fits g'.board (g.active.down (-k))) ⟨k, hk⟩,
          fun j hj => Nat.find_min' _ hj⟩
      rw [hwalk _ hleast]

def resting : GameState :=
  playAll (tetrisbrainInit clearedGame 7) (List.replicate 21 (.input .softDrop))

/-- Two rows rise under a piece on the floor, and lift it by two rows. -/
theorem addGarbage_lifts_resting :
    (boardAddGarbage resting 2).1 = true ∧
      (boardAddGarbage resting 2).2.active = resting.active.down (-2) := by
  obtain ⟨-, hlift, hflag⟩ := addGarbage_lifts resting 2 (by decide)
  have hfits : Fits (boardAddGarbage resting 2).2.board (resting.active.down (-(2 : Nat))) :=
    fits_iff.mpr (by decide +kernel)
  have hburied : ∀ j < 2,
      boardCollides (boardAddGarbage resting 2).2.board (resting.active.down (-(j : Nat))) =
        true := by
    decide +kernel
  refine ⟨hflag.mpr ⟨by decide +kernel, 2, hfits⟩, hlift 2 ⟨hfits, fun j hj => ?_⟩⟩
  by_contra hlt
  exact not_fits_iff.mpr (hburied j (by omega)) hj

/-! ## Falling -/

/-- The loop of `action_ghost`. -/
def ghostLoop (b : Board) : Nat → Piece → Piece
  | 0, p => p
  | fuel + 1, p =>
    if boardCollides b (actionMove p 0 1) then p else ghostLoop b fuel (actionMove p 0 1)

/-- A piece on the board has at most the height of the board to fall. -/
def actionGhost (g : GameState) : Piece :=
  if g.active.kind = .none then g.active else ghostLoop g.board (boardHeight + 4) g.active

/-- The piece can go down `k` rows, one at a time, and no further. -/
structure Lands (b : Board) (p : Piece) (k : Nat) : Prop where
  free : ∀ j ≤ k, Fits b (p.down j)
  stopped : ¬ Fits b (p.down (k + 1 : Nat))

theorem down_succ (p : Piece) (k : Nat) : (p.down 1).down k = p.down (k + 1 : Nat) := by
  rw [Piece.down_down, Nat.cast_add, Int.add_comm]
  rfl

theorem Lands.next (h : Lands b p (k + 1)) : Lands b (p.down 1) k := by
  constructor
  · intro j hj
    rw [down_succ]
    exact h.free (j + 1) (by omega)
  · rw [down_succ]
    exact h.stopped

theorem Lands.blocked (h : Lands b p 0) :
    boardCollides b (p.down 1) = true := not_fits_iff.mp h.stopped

theorem Lands.moves (h : Lands b p (k + 1)) :
    boardCollides b (p.down 1) = false := fits_iff.mp (h.free 1 (by omega))

theorem Lands.ghostLoop :
    ∀ {fuel : Nat} {p : Piece}, Lands b p k → k < fuel → ghostLoop b fuel p = p.down k := by
  induction k with
  | zero =>
    intro fuel p h hfuel
    obtain ⟨fuel, rfl⟩ : ∃ m, fuel = m + 1 := ⟨fuel - 1, by omega⟩
    rw [Tetris.ghostLoop, actionMove_down, if_pos h.blocked, Nat.cast_zero, Piece.down_zero]
  | succ k ih =>
    intro fuel p h hfuel
    obtain ⟨fuel, rfl⟩ : ∃ m, fuel = m + 1 := ⟨fuel - 1, by omega⟩
    rw [Tetris.ghostLoop, actionMove_down, if_neg (by simp [h.moves]), ih h.next (by omega),
      down_succ]

variable {g : GameState}

theorem softdrop_blocked (h : Lands g.board g.active 0) :
    actionSoftdrop g = (false, { postLock (lockActive g) with tickCount := 0 }) := by
  rw [actionSoftdrop, actionTryMove]
  simp only [actionMove_down, h.blocked, if_true, Bool.false_eq_true, if_false]

theorem softdrop_moves (h : Lands g.board g.active (k + 1)) :
    actionSoftdrop g = (true, { g with active := g.active.down 1, tickCount := 0 }) := by
  rw [actionSoftdrop, actionTryMove]
  simp only [actionMove_down, h.moves, Bool.false_eq_true, if_false, if_true]

/-- The state in which a drop by `k` rows locks: every row but the first
resets the clock. -/
theorem Lands.dropLoop :
    ∀ {fuel : Nat} {g : GameState} (dropped : Nat), Lands g.board g.active k → k < fuel →
      ∃ t, dropLoop fuel g dropped = (dropped + k,
        { postLock (lockActive { g with active := g.active.down k, tickCount := t }) with
          tickCount := 0 }) := by
  induction k with
  | zero =>
    intro fuel g dropped h hfuel
    obtain ⟨fuel, rfl⟩ : ∃ m, fuel = m + 1 := ⟨fuel - 1, by omega⟩
    refine ⟨g.tickCount, ?_⟩
    rw [Tetris.dropLoop, softdrop_blocked h, Nat.cast_zero, Piece.down_zero, Nat.add_zero]
    rfl
  | succ k ih =>
    intro fuel g dropped h hfuel
    obtain ⟨fuel, rfl⟩ : ∃ m, fuel = m + 1 := ⟨fuel - 1, by omega⟩
    obtain ⟨t, ht⟩ := ih (g := { g with active := g.active.down 1, tickCount := 0 })
      (dropped + 1) h.next (show k < fuel by omega)
    refine ⟨t, ?_⟩
    rw [Tetris.dropLoop, softdrop_moves h]
    dsimp only
    rw [if_pos rfl, ht, down_succ, Nat.add_assoc, Nat.add_comm 1 k]

theorem Falling.lands (h : Falling b p) : ∃ k, Lands b p k ∧ k < boardHeight + 4 := by
  classical
  obtain ⟨⟨r, c⟩, hrc⟩ := Finset.card_pos.mp (card_filled h.real h.rot ▸ (by decide : 0 < 4))
  have hf : pieceFilled p r c = true := (Finset.mem_filter.mp hrc).2
  have hbottom : ∀ k : Nat, Fits b (p.down k) → p.y + r + k < 26 := by
    intro k hfits
    have hrow : p.y + k + r < (boardHeight : Int) := (hfits r c hf).2.1.2
    rw [boardHeight] at hrow
    omega
  have htop : 0 ≤ p.y + r ∧ p.y + r < 26 :=
    (outside_eq_false (collides_eq_false.mp h.fits r c hf).1).2.2
  have hex : ∃ k : Nat, ¬ Fits b (p.down (k + 1 : Nat)) := by
    refine ⟨26, fun hfits => ?_⟩
    have := hbottom _ hfits
    omega
  have hfree : ∀ j ≤ Nat.find hex, Fits b (p.down j) := by
    intro j hj
    cases j with
    | zero =>
      rw [Nat.cast_zero, Piece.down_zero]
      exact fits_iff.mpr h.fits
    | succ j => exact not_not.mp (Nat.find_min hex (by omega))
  refine ⟨Nat.find hex, ⟨hfree, Nat.find_spec hex⟩, ?_⟩
  have := hbottom _ (hfree _ le_rfl)
  rw [boardHeight]
  omega

theorem spawnNext_board (g : GameState) : (spawnNext g).2.board = g.board := by
  rw [spawnNext_eq]
  rcases boardSpawnPiece_cases (takeNext g) (g.next.headD .none) with heq | ⟨p, -, -, -, heq⟩ <;>
    rw [heq] <;> rfl

theorem spawnNext_trace (g : GameState) :
    (spawnNext g).2.trace = g.trace ++ [.taken (g.next.headD .none)] := by
  rw [spawnNext_eq]
  rcases boardSpawnPiece_cases (takeNext g) (g.next.headD .none) with heq | ⟨p, -, -, -, heq⟩ <;>
    rw [heq] <;> rfl

/-- After a lock the full rows are removed and a piece is taken. -/
theorem postLock_spec (g : GameState) :
    (postLock g).board = (boardClearLines g.board).1 ∧
      ∃ k, (postLock g).trace = g.trace ++ [.cleared (boardClearLines g.board).2, .taken k] := by
  obtain ⟨hboard, -, -, -, -, -, -, htrace⟩ := score_fields
    (GameState.note { g with board := (boardClearLines g.board).1 }
      (.cleared (boardClearLines g.board).2)) (boardClearLines g.board).2
  have hb : (clearAndScore g).board = (boardClearLines g.board).1 := hboard
  have ht : (clearAndScore g).trace = g.trace ++ [.cleared (boardClearLines g.board).2] := htrace
  rw [postLock_eq]
  split
  · refine ⟨by rw [spawnNext_board, hb], (clearAndScore g).next.headD .none, ?_⟩
    rw [spawnNext_trace, ht, List.append_assoc]
    rfl
  · refine ⟨(spawnNext_board _).trans hb, (clearAndScore g).next.headD .none, ?_⟩
    refine (spawnNext_trace _).trans ?_
    rw [ht, List.append_assoc]
    rfl

/-- In every game that is not over: the ghost is the falling piece as many
rows further down as a hard drop reports, which is as far as it can go one
row at a time. The hard drop locks the piece into the cells under the ghost,
removes the full rows, and locks nothing else. Both loops end by themselves. -/
theorem ghost_is_harddrop (g₀ : GameState) (seed : UInt32) (ops : List Op)
    (hover : (playAll (tetrisbrainInit g₀ seed) ops).gameOver = false) :
    let g := playAll (tetrisbrainInit g₀ seed) ops
    let p := actionGhost g
    let k := (actionHarddrop g).1
    p = { g.active with y := g.active.y + k } ∧
    (∀ j : Nat, j ≤ k → Fits g.board { g.active with y := g.active.y + j }) ∧
    ¬ Fits g.board { g.active with y := g.active.y + (k + 1 : Nat) } ∧
    (∀ i j, boardLock g.board p i j = if (i, j) ∈ covered p then g.active.kind else g.board i j) ∧
    (actionHarddrop g).2.board = (boardClearLines (boardLock g.board p)).1 ∧
    (∃ next, (actionHarddrop g).2.trace =
      g.trace ++ [.locked p, .cleared (boardClearLines (boardLock g.board p)).2, .taken next]) ∧
    ∀ extra, dropLoop (boardHeight + 4 + extra) g 0 = actionHarddrop g ∧
      ghostLoop g.board (boardHeight + 4 + extra) g.active = p := by
  intro g p k
  have h : Playing seed g := (playing_init g₀ seed).playAll ops
  have hfall := h.falling hover
  obtain ⟨n, hlands, hlt⟩ := hfall.lands
  obtain ⟨t, hdrop⟩ := hlands.dropLoop (g := g) 0 hlt
  have hk : k = n := by
    rw [show k = (actionHarddrop g).1 from rfl, actionHarddrop, hdrop, Nat.zero_add]
  have hp : p = g.active.down n := by
    rw [show p = actionGhost g from rfl, actionGhost,
      if_neg (PieceKind.ne_none_of_real hfall.real), hlands.ghostLoop hlt]
  have hpost := postLock_spec (lockActive { g with active := g.active.down n, tickCount := t })
  have hafter : (actionHarddrop g).2 =
      { postLock (lockActive { g with active := g.active.down n, tickCount := t }) with
        tickCount := 0 } := by
    rw [actionHarddrop, hdrop]
  rw [hk, hp]
  refine ⟨rfl, hlands.free, hlands.stopped, fun i j => ?_, ?_, ?_, fun extra => ⟨?_, ?_⟩⟩
  · exact boardLock_apply (fits_iff.mp (hlands.free n le_rfl)) i j
  · rw [hafter]
    exact hpost.1
  · obtain ⟨next, htrace⟩ := hpost.2
    refine ⟨next, ?_⟩
    rw [hafter]
    refine htrace.trans ?_
    rw [lockActive_trace, List.append_assoc]
    rfl
  · exact harddrop_ends h hover extra
  · exact hlands.ghostLoop (by omega)

/-- One piece is locked and two rows have risen when the second one has been
turned. -/
def secondPiece : List Op :=
  [.input .left, .input .hardDrop, .garbage 2, .input .rotRight, .tick]

theorem ghost_is_harddrop_second :
    let g := playAll (tetrisbrainInit clearedGame 7) secondPiece
    (actionHarddrop g).1 = 16 ∧ actionGhost g = { g.active with y := g.active.y + (16 : Nat) } ∧
      ¬ Fits g.board { g.active with y := g.active.y + (17 : Nat) } := by
  have hdrop : (actionHarddrop (playAll (tetrisbrainInit clearedGame 7) secondPiece)).1 = 16 := by
    decide +kernel
  have h := ghost_is_harddrop clearedGame 7 secondPiece (by decide +kernel)
  dsimp only at h
  rw [hdrop] at h
  exact ⟨hdrop, h.1, h.2.2.1⟩

end Corestack.Tetris
