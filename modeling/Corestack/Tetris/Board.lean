import Corestack.Lib.Compact
import Mathlib.Algebra.BigOperators.Intervals
import Mathlib.Data.Finset.Prod
import Mathlib.Tactic.IntervalCases

/-!
# Pieces on a board (`piece.c`, `board.c`)

The board is an array of 26 rows of 10 cells, row 0 at the top. Only the
cells in these ranges are read or written.

The counting at the end is what the rules of the game rest on: locking a
piece that fits fills four cells, clearing lines empties ten cells a line,
and garbage that does not push the stack over the top fills nine cells a
row.
-/

namespace Corestack.Tetris

open Function List Lib

def boardWidth : Nat := 10
def boardBufferHeight : Nat := 6
def boardHeight : Nat := 26
def pieceRots : Int := 4
def garbageHoleCol : Nat := 5

inductive PieceKind where
  | none
  | I
  | O
  | T
  | S
  | Z
  | J
  | L
  | garbage
deriving DecidableEq, Repr

/-- One of the seven tetrominoes. -/
def PieceKind.real : PieceKind → Bool
  | .none | .garbage => false
  | _ => true

/-- `x` and `y` are the column and row of the top left corner of the box. -/
structure Piece where
  kind : PieceKind
  rot : Int
  x : Int
  y : Int
deriving DecidableEq, Repr

abbrev Board : Type := Nat → Nat → PieceKind

/-! ## Shapes -/

/-- The master table: the side of the box, and the box in each rotation. -/
def PieceKind.shapes : PieceKind → Nat × List (List Nat)
  | .none | .garbage => (0, [])
  | .I => (4, [
      [0, 0, 0, 0, 1, 1, 1, 1, 0, 0, 0, 0, 0, 0, 0, 0],
      [0, 0, 1, 0, 0, 0, 1, 0, 0, 0, 1, 0, 0, 0, 1, 0],
      [0, 0, 0, 0, 0, 0, 0, 0, 1, 1, 1, 1, 0, 0, 0, 0],
      [0, 1, 0, 0, 0, 1, 0, 0, 0, 1, 0, 0, 0, 1, 0, 0]])
  | .O => (2, [[1, 1, 1, 1], [1, 1, 1, 1], [1, 1, 1, 1], [1, 1, 1, 1]])
  | .T => (3, [
      [0, 1, 0, 1, 1, 1, 0, 0, 0], [0, 1, 0, 0, 1, 1, 0, 1, 0],
      [0, 0, 0, 1, 1, 1, 0, 1, 0], [0, 1, 0, 1, 1, 0, 0, 1, 0]])
  | .S => (3, [
      [0, 1, 1, 1, 1, 0, 0, 0, 0], [0, 1, 0, 0, 1, 1, 0, 0, 1],
      [0, 0, 0, 0, 1, 1, 1, 1, 0], [1, 0, 0, 1, 1, 0, 0, 1, 0]])
  | .Z => (3, [
      [1, 1, 0, 0, 1, 1, 0, 0, 0], [0, 0, 1, 0, 1, 1, 0, 1, 0],
      [0, 0, 0, 1, 1, 0, 0, 1, 1], [0, 1, 0, 1, 1, 0, 1, 0, 0]])
  | .J => (3, [
      [1, 0, 0, 1, 1, 1, 0, 0, 0], [0, 1, 1, 0, 1, 0, 0, 1, 0],
      [0, 0, 0, 1, 1, 1, 0, 0, 1], [0, 1, 0, 0, 1, 0, 1, 1, 0]])
  | .L => (3, [
      [0, 0, 1, 1, 1, 1, 0, 0, 0], [0, 1, 0, 0, 1, 0, 0, 1, 1],
      [0, 0, 0, 1, 1, 1, 1, 0, 0], [1, 1, 0, 0, 1, 0, 0, 1, 0]])

def pieceSize (p : Piece) : Nat := p.kind.shapes.1

/-- The rotation is assumed to be 0 to 3. -/
def pieceGrid (p : Piece) : List Nat := p.kind.shapes.2.getD p.rot.toNat []

def pieceFilled (p : Piece) (r c : Nat) : Bool :=
  r < pieceSize p && c < pieceSize p && (pieceGrid p).getD (r * pieceSize p + c) 0 = 1

/-! ## The board -/

/-- Outside the playfield. -/
def outside (x y : Int) : Bool :=
  x < 0 || x ≥ boardWidth || y < 0 || y ≥ boardHeight

def boardCollides (b : Board) (p : Piece) : Bool :=
  (List.range (pieceSize p)).any fun r =>
    (List.range (pieceSize p)).any fun c =>
      pieceFilled p r c &&
        (outside (p.x + c) (p.y + r) || b (p.y + r).toNat (p.x + c).toNat != .none)

def setCell (b : Board) (r c : Nat) (k : PieceKind) : Board :=
  update b r (update (b r) c k)

/-- `board_lock`, without the flag of the hold. -/
def boardLock (b : Board) (p : Piece) : Board :=
  (List.range (pieceSize p)).foldl
    (fun b r =>
      (List.range (pieceSize p)).foldl
        (fun b c =>
          if !pieceFilled p r c || outside (p.x + c) (p.y + r) then b
          else setCell b (p.y + r).toNat (p.x + c).toNat p.kind)
        b)
    b

def rowFull (row : Nat → PieceKind) : Bool :=
  (List.range boardWidth).all fun c => row c != .none

/-- The rows that are left move down, and the top is emptied. -/
def boardClearLines (b : Board) : Board × Nat :=
  compact rowFull (fun _ => .none) boardHeight b

/-- A cell of the top `rows` rows is filled. -/
def toppedOut (b : Board) (rows : Nat) : Bool :=
  (List.range rows).any fun r => (List.range boardWidth).any fun c => b r c != .none

/-- The loop that lifts the stack. The rows are written from the top, so
each is read before it is overwritten. -/
def shiftUp (rows : Nat) (b : Board) : Board :=
  (List.range (boardHeight - rows)).foldl
    (fun b dst => update b dst (b (dst + rows))) b

def garbageRow : Nat → PieceKind := fun c => if c = garbageHoleCol then .none else .garbage

/-- The loop that lays the new rows in underneath. -/
def layGarbage (rows : Nat) (b : Board) : Board :=
  (List.range' (boardHeight - rows) rows).foldl (fun b r => update b r garbageRow) b

/-- What the two loops are for: the stack lifted by `rows` rows, and rows of
garbage under it. -/
def liftStack (b : Board) (rows : Nat) : Board := fun r c =>
  if r < boardHeight - rows then b (r + rows) c
  else if c = garbageHoleCol then .none else .garbage

/-- The falling piece walked up until it is clear, or until it is off the
top, which is none. The loop ends there, so `n` is at most the way it has
left. -/
def walkUp (b : Board) : Nat → Piece → Piece × Bool
  | n, p =>
    if p.kind != .none && boardCollides b p then
      match n with
      | 0 => (p, false)
      | n + 1 => walkUp b n { p with y := p.y - 1 }
    else (p, true)

/-! ## Counting cells -/

def rowFilled (row : Nat → PieceKind) : Nat :=
  (List.range boardWidth).countP fun c => row c != .none

def filled (b : Board) : Nat := ((List.range boardHeight).map fun r => rowFilled (b r)).sum

def NoFullRow (b : Board) : Prop := ∀ r < boardHeight, rowFull (b r) = false

def cellsOf (b : Board) : Finset (Nat × Nat) :=
  (Finset.range boardHeight ×ˢ Finset.range boardWidth).filter fun rc => b rc.1 rc.2 ≠ .none

theorem filled_eq_card (b : Board) : filled b = (cellsOf b).card := by
  have hrow : ∀ r, rowFilled (b r) =
      ∑ c ∈ Finset.range boardWidth, if b r c ≠ .none then 1 else 0 := by
    intro r
    rw [← Finset.card_filter, rowFilled, countP_eq_length_filter]
    have : (Finset.range boardWidth).filter (fun c => b r c ≠ .none) =
        ((List.range boardWidth).filter fun c => b r c != .none).toFinset := by
      ext c
      simp
    rw [this, toFinset_card_of_nodup (nodup_range.filter _)]
  rw [cellsOf, Finset.card_filter, Finset.sum_product, filled]
  simp only [← hrow]
  rfl

/-! ### The cells of a piece -/

def covered (p : Piece) : Finset (Nat × Nat) :=
  ((Finset.range (pieceSize p) ×ˢ Finset.range (pieceSize p)).filter
    fun rc => pieceFilled p rc.1 rc.2).image
    fun rc => ((p.y + rc.1).toNat, (p.x + rc.2).toNat)

variable {b : Board} {p : Piece}

theorem collides_eq_false : boardCollides b p = false ↔
    ∀ r c, pieceFilled p r c = true →
      outside (p.x + c) (p.y + r) = false ∧ b (p.y + r).toNat (p.x + c).toNat = .none := by
  have hin : ∀ {r c}, pieceFilled p r c = true → r < pieceSize p ∧ c < pieceSize p := by
    intro r c h
    simp only [pieceFilled, Bool.and_eq_true, decide_eq_true_eq] at h
    exact h.1
  simp only [boardCollides, any_eq_false, mem_range, Bool.not_eq_true]
  refine ⟨fun h r c hf => ?_, fun h r _ c _ => ?_⟩
  · obtain ⟨hr, hc⟩ := hin hf
    simpa [hf] using h r hr c hc
  · cases hf : pieceFilled p r c with
    | false => rfl
    | true => simpa using h r c hf

variable {i j : Nat}

theorem mem_covered : (i, j) ∈ covered p ↔
    ∃ r c, pieceFilled p r c = true ∧ (p.y + r).toNat = i ∧ (p.x + c).toNat = j := by
  simp only [covered, Finset.mem_image, Finset.mem_filter, Finset.mem_product, Finset.mem_range,
    Prod.exists, Prod.mk.injEq]
  refine ⟨fun ⟨r, c, h, hi, hj⟩ => ⟨r, c, h.2, hi, hj⟩, fun ⟨r, c, h, hi, hj⟩ => ?_⟩
  refine ⟨r, c, ⟨?_, h⟩, hi, hj⟩
  simp only [pieceFilled, Bool.and_eq_true, decide_eq_true_eq] at h
  exact h.1

/-- Every tetromino in each of its rotations has four cells. -/
theorem card_filled (hreal : p.kind.real = true) (hrot : 0 ≤ p.rot ∧ p.rot < 4) :
    ((Finset.range (pieceSize p) ×ˢ Finset.range (pieceSize p)).filter
      fun rc => pieceFilled p rc.1 rc.2).card = 4 := by
  obtain ⟨kind, rot, x, y⟩ := p
  obtain ⟨h0, h4⟩ := hrot
  interval_cases rot <;> cases kind <;> first | rfl | exact absurd hreal Bool.false_ne_true

theorem outside_eq_false {x y : Int} (h : outside x y = false) :
    0 ≤ x ∧ x < 10 ∧ 0 ≤ y ∧ y < 26 := by
  simp [outside, boardWidth, boardHeight] at h
  omega

theorem card_covered (hreal : p.kind.real = true) (hrot : 0 ≤ p.rot ∧ p.rot < 4)
    (hfit : boardCollides b p = false) : (covered p).card = 4 := by
  rw [covered, Finset.card_image_of_injOn, card_filled hreal hrot]
  rintro ⟨r, c⟩ h ⟨r', c'⟩ h' heq
  rw [Finset.mem_coe, Finset.mem_filter] at h h'
  have hout := outside_eq_false (collides_eq_false.mp hfit r c h.2).1
  have hout' := outside_eq_false (collides_eq_false.mp hfit r' c' h'.2).1
  simp only [Prod.mk.injEq] at heq ⊢
  omega

theorem covered_fits (hfit : boardCollides b p = false) (h : (i, j) ∈ covered p) :
    i < boardHeight ∧ j < boardWidth ∧ b i j = .none := by
  obtain ⟨r, c, hf, rfl, rfl⟩ := mem_covered.mp h
  obtain ⟨hout, hcell⟩ := collides_eq_false.mp hfit r c hf
  have := outside_eq_false hout
  refine ⟨?_, ?_, hcell⟩
  · rw [boardHeight]; omega
  · rw [boardWidth]; omega

/-! ### Locking -/

theorem foldl_setCell {ι : Type} (l : List ι) (skip : ι → Bool) (row col : ι → Nat)
    (k : PieceKind) (b : Board) (i j : Nat) :
    l.foldl (fun b x => if skip x then b else setCell b (row x) (col x) k) b i j =
      if ∃ x ∈ l, skip x = false ∧ row x = i ∧ col x = j then k else b i j := by
  induction l generalizing b with
  | nil => simp
  | cons x l ih =>
    rw [foldl_cons, ih]
    by_cases hl : ∃ y ∈ l, skip y = false ∧ row y = i ∧ col y = j
    · obtain ⟨y, hy, hyp⟩ := hl
      rw [if_pos ⟨y, hy, hyp⟩, if_pos ⟨y, mem_cons_of_mem _ hy, hyp⟩]
    · rw [if_neg hl]
      cases hs : skip x with
      | true =>
        rw [if_pos rfl, if_neg]
        rintro ⟨y, hy, hyp⟩
        rcases mem_cons.mp hy with rfl | hy
        · simp [hs] at hyp
        · exact hl ⟨y, hy, hyp⟩
      | false =>
        rw [if_neg Bool.false_ne_true]
        by_cases hx : row x = i ∧ col x = j
        · rw [if_pos ⟨x, mem_cons_self, hs, hx⟩, ← hx.1, ← hx.2]
          simp [setCell]
        · rw [if_neg]
          · unfold setCell
            by_cases hi : i = row x
            · subst hi
              rw [update_self, update_of_ne]
              rintro rfl
              exact hx ⟨rfl, rfl⟩
            · rw [update_of_ne hi]
          · rintro ⟨y, hy, hyp⟩
            rcases mem_cons.mp hy with rfl | hy
            · exact hx hyp.2
            · exact hl ⟨y, hy, hyp⟩

/-- Locking a piece that fits sets the cells under it to its kind and leaves
the others as they were. -/
theorem boardLock_apply (hfit : boardCollides b p = false) (i j : Nat) :
    boardLock b p i j = if (i, j) ∈ covered p then p.kind else b i j := by
  have hfold : boardLock b p =
      ((List.range (pieceSize p)).flatMap fun r =>
        (List.range (pieceSize p)).map fun c => (r, c)).foldl
        (fun b rc =>
          if !pieceFilled p rc.1 rc.2 || outside (p.x + rc.2) (p.y + rc.1) then b
          else setCell b (p.y + rc.1).toNat (p.x + rc.2).toNat p.kind) b := by
    simp only [boardLock, foldl_flatMap, foldl_map]
  rw [hfold, foldl_setCell]
  refine if_congr ?_ rfl rfl
  rw [mem_covered]
  constructor
  · rintro ⟨⟨r, c⟩, -, hskip, hi, hj⟩
    simp only [Bool.or_eq_false_iff, Bool.not_eq_false'] at hskip
    exact ⟨r, c, hskip.1, hi, hj⟩
  · rintro ⟨r, c, hf, hi, hj⟩
    refine ⟨(r, c), ?_, ?_, hi, hj⟩
    · simp only [pieceFilled, Bool.and_eq_true, decide_eq_true_eq] at hf
      simp [hf.1]
    · simp [hf, (collides_eq_false.mp hfit r c hf).1]

theorem PieceKind.ne_none_of_real {k : PieceKind} (h : k.real = true) : k ≠ .none := by
  rintro rfl
  cases h

theorem cellsOf_lock (hreal : p.kind.real = true) (hfit : boardCollides b p = false) :
    cellsOf (boardLock b p) = cellsOf b ∪ covered p := by
  ext ⟨i, j⟩
  simp only [cellsOf, Finset.mem_filter, Finset.mem_product, Finset.mem_range, Finset.mem_union,
    boardLock_apply hfit]
  by_cases h : (i, j) ∈ covered p
  · obtain ⟨hi, hj, -⟩ := covered_fits hfit h
    simp [h, hi, hj, PieceKind.ne_none_of_real hreal]
  · simp [h]

/-- A piece that fits fills four more cells. -/
theorem filled_lock (hreal : p.kind.real = true) (hrot : 0 ≤ p.rot ∧ p.rot < 4)
    (hfit : boardCollides b p = false) : filled (boardLock b p) = filled b + 4 := by
  rw [filled_eq_card, filled_eq_card, cellsOf_lock hreal hfit, Finset.card_union_of_disjoint,
    card_covered hreal hrot hfit]
  rw [Finset.disjoint_left]
  rintro ⟨i, j⟩ hcell hcov
  simp only [cellsOf, Finset.mem_filter] at hcell
  exact hcell.2 (covered_fits hfit hcov).2.2

/-! ### Clearing lines -/

theorem rowFilled_of_full {row : Nat → PieceKind} (h : rowFull row = true) :
    rowFilled row = boardWidth := by
  rw [rowFilled, countP_eq_length.mpr fun c hc => all_eq_true.mp h c hc,
    length_range]

theorem filled_clearLines (b : Board) :
    filled (boardClearLines b).1 + boardWidth * (boardClearLines b).2 = filled b := by
  have hspec := compact_spec rowFull (fun _ => PieceKind.none) boardHeight b
  have hsplit : ∀ rows : List (Nat → PieceKind),
      ((rows.filter fun x => !rowFull x).map rowFilled).sum + boardWidth * rows.countP rowFull =
        (rows.map rowFilled).sum := by
    intro rows
    induction rows with
    | nil => rfl
    | cons row rows ih =>
      cases hfull : rowFull row with
      | true =>
        rw [filter_cons_of_neg (by simp [hfull]), countP_cons_of_pos hfull,
          map_cons, sum_cons, rowFilled_of_full hfull, ← ih, Nat.mul_succ]
        omega
      | false =>
        rw [filter_cons_of_pos (by simp [hfull]), countP_cons_of_neg (by simp [hfull]),
          map_cons, map_cons, sum_cons, sum_cons, ← ih]
        omega
  have hfilled : ∀ b : Board, filled b = (((List.range boardHeight).map b).map rowFilled).sum := by
    simp [filled, map_map, comp_def]
  have hblank : rowFilled (fun _ => PieceKind.none) = 0 := by decide
  rw [hfilled, hfilled b, ← hsplit ((List.range boardHeight).map b), boardClearLines, hspec.1,
    map_append, sum_append, hspec.2]
  simp [hblank]

/-- Clearing takes the full rows out, wherever they are, and puts as many
empty ones on top; the other rows keep their order. It returns how many
there were. -/
theorem clear_lines_compacts (b : Board) :
    let rows (b : Board) := (List.range boardHeight).map b
    (boardClearLines b).2 = (rows b).countP rowFull ∧ rows (boardClearLines b).1 =
      List.replicate (boardClearLines b).2 (fun _ => .none) ++ (rows b).filter (!rowFull ·) :=
  (compact_spec rowFull _ boardHeight b).symm

theorem noFullRow_clearLines (b : Board) : NoFullRow (boardClearLines b).1 := by
  intro r hr
  have hmem : (boardClearLines b).1 r ∈ (List.range boardHeight).map (boardClearLines b).1 :=
    mem_map_of_mem (mem_range.mpr hr)
  unfold boardClearLines at hmem ⊢
  rw [(compact_spec rowFull _ boardHeight b).1, mem_append] at hmem
  rcases hmem with hmem | hmem
  · rw [eq_of_mem_replicate hmem]
    decide
  · simpa using (mem_filter.mp hmem).2

theorem cleared_lock (hreal : p.kind.real = true) (hrot : 0 ≤ p.rot ∧ p.rot < 4)
    (hfit : boardCollides b p = false) (hfull : NoFullRow b) :
    (boardClearLines (boardLock b p)).2 ≤ 4 := by
  have hcount : (boardClearLines (boardLock b p)).2 =
      ((Finset.range boardHeight).filter fun r => rowFull (boardLock b p r)).card := by
    rw [boardClearLines, (compact_spec rowFull _ boardHeight _).2, countP_map,
      countP_eq_length_filter,
      ← toFinset_card_of_nodup (nodup_range.filter _)]
    congr 1
    ext r
    simp
  have hrows : ((Finset.range boardHeight).filter fun r => rowFull (boardLock b p r)) ⊆
      (covered p).image Prod.fst := by
    intro r hr
    rw [Finset.mem_filter, Finset.mem_range] at hr
    obtain ⟨hlt, hr⟩ := hr
    -- the row had an empty cell, which the piece fills
    obtain ⟨c, hc, hempty⟩ : ∃ c < boardWidth, b r c = .none := by
      have := hfull r hlt
      simpa [rowFull] using this
    have hnow : boardLock b p r c ≠ .none := by
      simpa using all_eq_true.mp hr c (mem_range.mpr hc)
    rw [boardLock_apply hfit] at hnow
    split at hnow
    · exact Finset.mem_image.mpr ⟨(r, c), ‹_›, rfl⟩
    · exact absurd hempty hnow
  calc (boardClearLines (boardLock b p)).2
      ≤ ((covered p).image Prod.fst).card := hcount ▸ Finset.card_le_card hrows
    _ ≤ (covered p).card := Finset.card_image_le
    _ = 4 := card_covered hreal hrot hfit

/-! ### Garbage -/

theorem filled_eq_sum (b : Board) :
    filled b = ∑ r ∈ Finset.range boardHeight, rowFilled (b r) := rfl

variable {n : Nat}

theorem shiftUp_loop (rows n : Nat) (b : Board) (r : Nat) (hrows : 1 ≤ rows) :
    (List.range n).foldl (fun b dst => update b dst (b (dst + rows))) b r =
      if r < n then b (r + rows) else b r := by
  induction n generalizing r with
  | zero => rfl
  | succ n ih =>
    rw [List.range_succ, List.foldl_append, List.foldl_cons, List.foldl_nil]
    by_cases hr : r = n
    · subst hr
      -- the row that is read is below those written so far
      rw [update_self, ih, if_neg (by omega), if_pos (by omega)]
    · rw [update_of_ne hr, ih]
      refine if_congr ?_ rfl rfl
      omega

theorem layGarbage_loop (start n : Nat) (b : Board) (r : Nat) :
    (List.range' start n).foldl (fun b r => update b r garbageRow) b r =
      if start ≤ r ∧ r < start + n then garbageRow else b r := by
  induction n generalizing start b with
  | zero => rw [if_neg (by omega)]; rfl
  | succ n ih =>
    rw [List.range'_succ, List.foldl_cons, ih]
    by_cases hr : r = start
    · subst hr
      rw [if_neg (by omega), if_pos (by omega), update_self]
    · rw [update_of_ne hr]
      refine if_congr ?_ rfl rfl
      omega

/-- The two loops leave the lifted stack: the first moves every row up, and
the second overwrites what it left at the bottom. -/
theorem layGarbage_shiftUp {rows : Nat} (b : Board) {r : Nat} (hrows : 1 ≤ rows)
    (hle : rows ≤ boardHeight) (hr : r < boardHeight) :
    layGarbage rows (shiftUp rows b) r = liftStack b rows r := by
  rw [layGarbage, layGarbage_loop, shiftUp, shiftUp_loop rows _ b r hrows]
  funext c
  by_cases hlt : r < boardHeight - rows
  · rw [if_neg (by omega), if_pos hlt, liftStack, if_pos hlt]
  · rw [if_pos (by omega), liftStack, if_neg hlt, garbageRow]

theorem filled_liftStack (hn : n ≤ boardHeight) (htop : toppedOut b n = false) :
    filled (liftStack b n) = filled b + 9 * n := by
  have hempty : ∑ r ∈ Finset.range n, rowFilled (b r) = 0 := by
    refine Finset.sum_eq_zero fun r hr => ?_
    have hrow := any_eq_false.mp htop r (mem_range.mpr (Finset.mem_range.mp hr))
    rw [rowFilled, countP_eq_zero]
    exact any_eq_false.mp (Bool.eq_false_iff.mpr hrow)
  have hlifted : ∀ r ∈ Finset.range (boardHeight - n),
      rowFilled (liftStack b n r) = rowFilled (b (n + r)) := by
    intro r hr
    rw [Finset.mem_range] at hr
    simp [rowFilled, liftStack, hr, Nat.add_comm]
  have hgarbage : ∀ r ∈ Finset.range n,
      rowFilled (liftStack b n (boardHeight - n + r)) = 9 := by
    intro r _
    have hrow : liftStack b n (boardHeight - n + r) =
        fun c => if c = garbageHoleCol then .none else .garbage := by
      funext c
      rw [liftStack, if_neg (by omega)]
    rw [hrow]
    decide
  rw [filled_eq_sum, filled_eq_sum, show boardHeight = (boardHeight - n) + n by omega,
    Finset.sum_range_add, ← show boardHeight = (boardHeight - n) + n by omega,
    Finset.sum_congr rfl hlifted, Finset.sum_congr rfl hgarbage,
    show boardHeight = n + (boardHeight - n) by omega, Finset.sum_range_add, hempty,
    ← show boardHeight = n + (boardHeight - n) by omega]
  simp [Nat.mul_comm]

theorem noFullRow_liftStack (h : NoFullRow b) (hn : n ≤ boardHeight) :
    NoFullRow (liftStack b n) := by
  intro r hr
  by_cases hlt : r < boardHeight - n
  · have hrow : liftStack b n r = b (r + n) := by
      funext c
      rw [liftStack, if_pos hlt]
    rw [hrow]
    exact h (r + n) (by omega)
  · have hrow : liftStack b n r = fun c => if c = garbageHoleCol then .none else .garbage := by
      funext c
      rw [liftStack, if_neg hlt]
    rw [hrow]
    decide

/-- Garbage fills nine cells a row, unless it pushes the stack over the top. -/
theorem filled_garbage (hpos : 1 ≤ n) (hn : n ≤ boardHeight) (htop : toppedOut b n = false) :
    filled (layGarbage n (shiftUp n b)) = filled b + 9 * n := by
  rw [← filled_liftStack hn htop, filled_eq_sum, filled_eq_sum]
  refine Finset.sum_congr rfl fun r hr => ?_
  rw [layGarbage_shiftUp b hpos hn (Finset.mem_range.mp hr)]

theorem noFullRow_garbage (h : NoFullRow b) (hpos : 1 ≤ n) (hn : n ≤ boardHeight) :
    NoFullRow (layGarbage n (shiftUp n b)) := by
  intro r hr
  rw [layGarbage_shiftUp b hpos hn hr]
  exact noFullRow_liftStack h hn r hr

end Corestack.Tetris
