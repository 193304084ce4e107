import Corestack.Tetris.Game
import Mathlib.Data.List.Perm.Basic
import Mathlib.Data.Multiset.Basic

/-!
# What every play keeps

The invariant of the engine has two parts. What is said of the stream, of
the queue and of holds is always so. What is said of the board and of the
falling piece is so while the game is not over: a spawn that fails leaves
the locked piece where it was, and garbage can push filled cells over the
top.

Between a lock and the next spawn there is no falling piece. `Ready` is the
invariant of such a state, and `spawnNext` leads from it back to play.
-/

namespace Corestack.Tetris

open List Lib

/-! ## Reading the trace -/

def takenOf (trace : List Note) : List PieceKind :=
  trace.filterMap fun | .taken k => some k | _ => none

def lockedOf (trace : List Note) : List PieceKind :=
  trace.filterMap fun | .locked p => some p.kind | _ => none

def clearedOf (trace : List Note) : List Nat :=
  trace.filterMap fun | .cleared n => some n | _ => none

def garbageOf (trace : List Note) : List Nat :=
  trace.filterMap fun | .garbage n => some n | _ => none

theorem takenOf_append (tr tr' : List Note) : takenOf (tr ++ tr') = takenOf tr ++ takenOf tr' :=
  filterMap_append

theorem lockedOf_append (tr tr' : List Note) :
    lockedOf (tr ++ tr') = lockedOf tr ++ lockedOf tr' := filterMap_append

theorem clearedOf_append (tr tr' : List Note) :
    clearedOf (tr ++ tr') = clearedOf tr ++ clearedOf tr' := filterMap_append

theorem garbageOf_append (tr tr' : List Note) :
    garbageOf (tr ++ tr') = garbageOf tr ++ garbageOf tr' := filterMap_append

def Note.isHeld : Note → Bool
  | .held => true
  | _ => false

def Note.isLock : Note → Bool
  | .locked _ => true
  | _ => false

/-- A stretch of the trace in which no piece is locked. -/
def Lockless (notes : List Note) : Prop := ∀ n ∈ notes, n.isLock = false

def heldPiece : PieceKind → List PieceKind
  | .none => []
  | k => [k]

def stream (seed : UInt32) (k : Nat) : PieceKind := rngPiece seed (UInt32.ofNat k)

theorem pieceFromHash_real (h : UInt32) : (pieceFromHash h).real = true := by
  unfold pieceFromHash
  split <;> rfl

theorem stream_real (seed : UInt32) (k : Nat) : (stream seed k).real = true := by
  exact pieceFromHash_real _

theorem heldPiece_real {k : PieceKind} (h : k.real = true) : heldPiece k = [k] := by
  cases k <;> first | rfl | cases h

/-! ## The invariant -/

/-- What holds of the stream, of holds and of clears in every state. -/
structure Kept (seed : UInt32) (g : GameState) : Prop where
  sameSeed : g.seed = seed
  taken : takenOf g.trace = (List.range (takenOf g.trace).length).map (stream seed)
  next : g.next = (List.range 5).map fun i => stream seed ((takenOf g.trace).length + i)
  counter : g.pieceGeneratedCounter = UInt32.ofNat ((takenOf g.trace).length + 5)
  cleared : ∀ n ∈ clearedOf g.trace, n ≤ 4
  -- no hold since the last lock, if the hold can be used
  unheld : g.holdUsed = false →
    ∀ pre mid, g.trace = pre ++ mid → Lockless mid → mid.countP Note.isHeld = 0
  once : ∀ pre mid post, g.trace = pre ++ mid ++ post → Lockless mid →
    mid.countP Note.isHeld ≤ 1

/-- What holds of the board. -/
structure Stacked (g : GameState) : Prop where
  noFull : NoFullRow g.board
  cells : filled g.board + 10 * (clearedOf g.trace).sum =
    4 * (lockedOf g.trace).length + 9 * (garbageOf g.trace).sum
  lines : g.lines = toInt32 (clearedOf g.trace).sum
  hold : g.hold = .none ∨ g.hold.real = true

/-- The falling piece is where a piece can be. -/
structure Falling (b : Board) (p : Piece) : Prop where
  real : p.kind.real = true
  rot : 0 ≤ p.rot ∧ p.rot < 4
  fits : boardCollides b p = false

/-- Every piece taken is locked or among the spare ones. -/
def Accounted (spare : List PieceKind) (g : GameState) : Prop :=
  (takenOf g.trace).Perm (lockedOf g.trace ++ spare)

/-- The invariant between a lock and a spawn. -/
structure Ready (seed : UInt32) (g : GameState) : Prop where
  kept : Kept seed g
  stacked : Stacked g
  pieces : Accounted (heldPiece g.hold) g

/-- The invariant of play. -/
structure Playing (seed : UInt32) (g : GameState) : Prop where
  kept : Kept seed g
  stacked : g.gameOver = false → Stacked g
  falling : g.gameOver = false → Falling g.board g.active
  pieces : g.gameOver = false → Accounted (g.active.kind :: heldPiece g.hold) g

/-! ## Notes that leave the invariant alone -/

variable {n : Note}

theorem lockless_snoc {notes : List Note} :
    Lockless (notes ++ [n]) ↔ Lockless notes ∧ n.isLock = false := by
  simp [Lockless, or_imp, forall_and]

variable {pre mid : List Note}

theorem snoc_eq_append {trace : List Note} (h : trace ++ [n] = pre ++ mid) :
    mid = [] ∨ ∃ mid', mid = mid' ++ [n] ∧ trace = pre ++ mid' := by
  rcases eq_nil_or_concat mid with hmid | ⟨mid', m, hmid⟩
  · exact Or.inl hmid
  · right
    rw [hmid, concat_eq_append, ← append_assoc] at h
    obtain ⟨h₁, h₂⟩ := append_inj' h rfl
    cases h₂
    exact ⟨mid', by rw [hmid, concat_eq_append], h₁⟩

theorem once_snoc {trace : List Note}
    (h : ∀ pre mid post, trace = pre ++ mid ++ post → Lockless mid →
      mid.countP Note.isHeld ≤ 1)
    (hlast : n.isLock = false → ∀ pre mid, trace = pre ++ mid → Lockless mid →
      mid.countP Note.isHeld + [n].countP Note.isHeld ≤ 1) (pre mid post : List Note)
    (heq : trace ++ [n] = pre ++ mid ++ post) (hmid : Lockless mid) :
    mid.countP Note.isHeld ≤ 1 := by
  rcases snoc_eq_append heq with hpost | ⟨post', -, htrace⟩
  · rw [hpost, append_nil] at heq
    rcases snoc_eq_append heq with rfl | ⟨mid', rfl, htrace⟩
    · simp
    · obtain ⟨hmid', hn⟩ := lockless_snoc.mp hmid
      rw [countP_append]
      exact hlast hn pre mid' htrace hmid'
  · exact h pre mid post' htrace hmid

theorem unheld_snoc {trace : List Note}
    (h : ∀ pre mid, trace = pre ++ mid → Lockless mid → mid.countP Note.isHeld = 0)
    (hn : n.isHeld = false) (pre mid : List Note) (heq : trace ++ [n] = pre ++ mid)
    (hmid : Lockless mid) : mid.countP Note.isHeld = 0 := by
  rcases snoc_eq_append heq with rfl | ⟨mid', rfl, htrace⟩
  · rfl
  · rw [countP_append, h pre mid' htrace (lockless_snoc.mp hmid).1]
    simp [hn]

variable {seed : UInt32} {g : GameState}

theorem Kept.suffix_le (h : Kept seed g) (heq : g.trace = pre ++ mid) (hmid : Lockless mid) :
    mid.countP Note.isHeld ≤ 1 :=
  h.once pre mid [] (by rw [append_nil]; exact heq) hmid

variable {g' : GameState}

/-- The invariant does not look at the board, the falling piece, the score
or the clock. -/
theorem Kept.congr (h : Kept seed g) (hseed : g'.seed = g.seed) (hnext : g'.next = g.next)
    (hcounter : g'.pieceGeneratedCounter = g.pieceGeneratedCounter)
    (hused : g'.holdUsed = g.holdUsed) (htrace : g'.trace = g.trace) : Kept seed g' := by
  obtain ⟨h₁, h₂, h₃, h₄, h₅, h₆, h₇⟩ := h
  rw [← hseed] at h₁
  rw [← htrace] at h₂ h₃ h₄ h₅ h₆ h₇
  rw [← hnext] at h₃
  rw [← hcounter] at h₄
  rw [← hused] at h₆
  exact ⟨h₁, h₂, h₃, h₄, h₅, h₆, h₇⟩

theorem Stacked.congr (h : Stacked g) (hboard : g'.board = g.board) (hlines : g'.lines = g.lines)
    (hhold : g'.hold = .none ∨ g'.hold.real = true) (htrace : g'.trace = g.trace) :
    Stacked g' := by
  obtain ⟨h₁, h₂, h₃, -⟩ := h
  rw [← hboard] at h₁ h₂
  rw [← htrace] at h₂ h₃
  rw [← hlines] at h₃
  exact ⟨h₁, h₂, h₃, hhold⟩

theorem Kept.note (h : Kept seed g) (htrace : g'.trace = g.trace ++ [n]) (hseed : g'.seed = g.seed)
    (hnext : g'.next = g.next) (hcounter : g'.pieceGeneratedCounter = g.pieceGeneratedCounter)
    (hused : g'.holdUsed = g.holdUsed ∨ n.isLock = true) (htaken : takenOf [n] = [])
    (hheld : n.isHeld = false) (hcleared : ∀ k ∈ clearedOf [n], k ≤ 4) : Kept seed g' := by
  have htakenOf : takenOf g'.trace = takenOf g.trace := by
    rw [htrace, takenOf_append, htaken, append_nil]
  refine ⟨hseed.trans h.sameSeed, ?_, ?_, ?_, ?_, fun hnot => ?_, ?_⟩
  · rw [htakenOf]
    exact h.taken
  · rw [hnext, htakenOf]
    exact h.next
  · rw [hcounter, htakenOf]
    exact h.counter
  · rw [htrace, clearedOf_append]
    intro k hk
    rcases mem_append.mp hk with hk | hk
    · exact h.cleared k hk
    · exact hcleared k hk
  · rw [htrace]
    intro pre mid heq hmid
    rcases hused with hused | hlock
    · exact unheld_snoc (h.unheld (hused ▸ hnot)) hheld pre mid heq hmid
    · rcases snoc_eq_append heq with rfl | ⟨mid', rfl, -⟩
      · rfl
      · rw [(lockless_snoc.mp hmid).2] at hlock
        cases hlock
  · rw [htrace]
    refine once_snoc h.once fun _ pre mid heq hmid => ?_
    rw [countP_singleton, if_neg (by simp [hheld]), Nat.add_zero]
    exact h.suffix_le heq hmid

/-! ## Spawning -/

theorem boardSpawnPiece_cases (g : GameState) (k : PieceKind) :
    (boardSpawnPiece g k = (false, g)) ∨
    ∃ p : Piece, p.kind = k ∧ p.rot = 0 ∧ boardCollides g.board p = false ∧
      boardSpawnPiece g k = (true, { g with active := p, tickCount := 0 }) := by
  unfold boardSpawnPiece
  dsimp only
  split
  · exact Or.inl rfl
  · rename_i hfit
    exact Or.inr ⟨_, rfl, rfl, by simpa using hfit, rfl⟩

/-- The state with the first piece of the queue taken. -/
def takeNext (g : GameState) : GameState :=
  GameState.note
    { g with
      next := g.next.tail ++ [rngPiece g.seed g.pieceGeneratedCounter]
      pieceGeneratedCounter := g.pieceGeneratedCounter + 1 }
    (.taken (g.next.headD .none))

theorem spawnNext_eq (g : GameState) :
    spawnNext g = boardSpawnPiece (takeNext g) (g.next.headD .none) := rfl

theorem range_five : List.range 5 = [0, 1, 2, 3, 4] := rfl

theorem Kept.head (h : Kept seed g) :
    g.next.headD .none = stream seed (takenOf g.trace).length := by
  rw [h.next, range_five, map_cons, headD_cons, Nat.add_zero]

theorem Kept.takenOf_takeNext (h : Kept seed g) :
    takenOf (takeNext g).trace = takenOf g.trace ++ [stream seed (takenOf g.trace).length] := by
  rw [← h.head]
  exact takenOf_append _ _

theorem Kept.takeNext (h : Kept seed g) : Kept seed (takeNext g) := by
  have hlen : (takenOf (Tetris.takeNext g).trace).length = (takenOf g.trace).length + 1 := by
    rw [h.takenOf_takeNext, length_append, length_singleton]
  refine ⟨h.sameSeed, ?_, ?_, ?_, ?_, fun hnot => ?_, ?_⟩
  · rw [hlen, h.takenOf_takeNext, range_succ, map_append, ← h.taken, map_singleton]
  · have hnext : (Tetris.takeNext g).next =
        g.next.tail ++ [rngPiece g.seed g.pieceGeneratedCounter] := rfl
    rw [hlen, hnext, h.next, h.sameSeed, h.counter, range_five]
    simp only [map_cons, map_nil, tail_cons, cons_append, nil_append,
      Nat.add_assoc, stream, Nat.reduceAdd]
  · have hcounter : (Tetris.takeNext g).pieceGeneratedCounter = g.pieceGeneratedCounter + 1 := rfl
    rw [hlen, hcounter, h.counter, Nat.add_right_comm]
    exact (UInt32.ofNat_add ((takenOf g.trace).length + 5) 1).symm
  · intro k hk
    refine h.cleared k ?_
    rw [show (Tetris.takeNext g).trace = g.trace ++ [.taken (g.next.headD .none)] from rfl,
      clearedOf_append] at hk
    exact (mem_append.mp hk).resolve_right not_mem_nil
  · exact unheld_snoc (h.unheld hnot) rfl
  · refine once_snoc h.once fun _ pre mid heq hmid => ?_
    exact h.suffix_le heq hmid

theorem Stacked.note (h : Stacked g) (htrace : g'.trace = g.trace ++ [n])
    (hboard : g'.board = g.board) (hlines : g'.lines = g.lines)
    (hhold : g'.hold = .none ∨ g'.hold.real = true) (hcleared : clearedOf [n] = [])
    (hlocked : lockedOf [n] = []) (hgarbage : garbageOf [n] = []) : Stacked g' := by
  have hc : clearedOf g'.trace = clearedOf g.trace := by
    rw [htrace, clearedOf_append, hcleared, append_nil]
  refine ⟨hboard ▸ h.noFull, ?_, ?_, hhold⟩
  · rw [hc, htrace, lockedOf_append, garbageOf_append, hlocked, hgarbage, append_nil,
      append_nil, hboard]
    exact h.cells
  · rw [hlines, hc]
    exact h.lines

theorem Ready.spawned (h : Ready seed g) (hspawn : (spawnNext g).1 = true) :
    Playing seed (spawnNext g).2 := by
  rw [spawnNext_eq, h.kept.head] at hspawn ⊢
  have hkept := h.kept.takeNext
  have hstacked : Stacked (Tetris.takeNext g) :=
    h.stacked.note rfl rfl rfl h.stacked.hold rfl rfl rfl
  rcases boardSpawnPiece_cases (Tetris.takeNext g) (stream seed (takenOf g.trace).length) with
    heq | ⟨p, hkind, hrot, hfits, heq⟩
  · rw [heq] at hspawn
    cases hspawn
  · rw [heq]
    have hreal : p.kind.real = true := hkind ▸ stream_real seed _
    refine ⟨hkept.congr rfl rfl rfl rfl rfl,
      fun _ => hstacked.congr rfl rfl hstacked.hold rfl,
      fun _ => ⟨hreal, by rw [hrot]; decide, hfits⟩, fun _ => ?_⟩
    -- the piece taken is the one that falls now
    have hlocked : lockedOf (Tetris.takeNext g).trace = lockedOf g.trace := by
      rw [show (Tetris.takeNext g).trace = g.trace ++ [.taken (g.next.headD .none)] from rfl,
        lockedOf_append]
      exact append_nil _
    show (takenOf (Tetris.takeNext g).trace).Perm
      (lockedOf (Tetris.takeNext g).trace ++ p.kind :: heldPiece g.hold)
    rw [h.kept.takenOf_takeNext, hlocked, hkind]
    refine (h.pieces.append_right _).trans ?_
    rw [append_assoc]
    exact perm_append_comm.append_left _

theorem Kept.over (h : Kept seed g) (hover : g.gameOver = true) : Playing seed g := by
  refine ⟨h, fun hnot => ?_, fun hnot => ?_, fun hnot => ?_⟩ <;> rw [hover] at hnot <;> cases hnot

theorem Ready.spawnNext (h : Ready seed g) :
    Playing seed
      (if (spawnNext g).1 then (spawnNext g).2 else { (spawnNext g).2 with gameOver := true }) := by
  split
  · rename_i hspawn
    exact h.spawned hspawn
  · rename_i hspawn
    have hkept : Kept seed (Tetris.spawnNext g).2 := by
      rw [spawnNext_eq] at hspawn ⊢
      rcases boardSpawnPiece_cases (Tetris.takeNext g) (g.next.headD .none) with
        heq | ⟨p, -, -, -, heq⟩
      · rw [heq]
        exact h.kept.takeNext
      · rw [heq] at hspawn
        exact absurd rfl hspawn
    exact Kept.over (hkept.congr rfl rfl rfl rfl rfl) rfl

/-! ## Moving -/

variable {p : Piece}

theorem Playing.setActive (h : Playing seed g) (hover : g.gameOver = false)
    (hkind : p.kind = g.active.kind) (hrot : 0 ≤ p.rot ∧ p.rot < 4)
    (hfits : boardCollides g.board p = false) : Playing seed { g with active := p } where
  kept := h.kept.congr rfl rfl rfl rfl rfl
  stacked _ := (h.stacked hover).congr rfl rfl (h.stacked hover).hold rfl
  falling _ := ⟨hkind ▸ (h.falling hover).real, hrot, hfits⟩
  pieces _ := by
    have := h.pieces hover
    rw [← hkind] at this
    exact this

theorem Playing.tickCount (h : Playing seed g) (n : Int) :
    Playing seed { g with tickCount := n } where
  kept := h.kept.congr rfl rfl rfl rfl rfl
  stacked hover := (h.stacked hover).congr rfl rfl (h.stacked hover).hold rfl
  falling := h.falling
  pieces := h.pieces

theorem Playing.tryMove (h : Playing seed g) (hover : g.gameOver = false) (dx dy : Int) :
    Playing seed (actionTryMove g dx dy).2 := by
  unfold actionTryMove
  dsimp only
  split
  · exact h
  · rename_i hfits
    exact h.setActive hover rfl (h.falling hover).rot (by simpa using hfits)

theorem rotate_rot (p : Piece) (dir : Int) :
    0 ≤ (actionRotate p dir).rot ∧ (actionRotate p dir).rot < 4 := by
  have h₁ := Int.lt_tmod_of_pos (p.rot + dir) (show (0 : Int) < 4 by decide)
  show 0 ≤ ((p.rot + dir).tmod 4 + 4).tmod 4 ∧ ((p.rot + dir).tmod 4 + 4).tmod 4 < 4
  exact ⟨Int.tmod_nonneg 4 (by omega), Int.tmod_lt_of_pos _ (by decide)⟩

theorem mem_rotations {cand : Piece} {dir : Int} (h : cand ∈ rotations p dir) :
    cand.kind = p.kind ∧ 0 ≤ cand.rot ∧ cand.rot < 4 := by
  simp only [rotations, mem_cons, mem_flatMap, not_mem_nil, or_false] at h
  rcases h with rfl | ⟨i, -, rfl | rfl⟩
  all_goals exact ⟨rfl, rotate_rot p dir⟩

theorem Playing.tryRotate (h : Playing seed g) (hover : g.gameOver = false) (dir : Int) :
    Playing seed (actionTryRotate g dir).2 := by
  unfold actionTryRotate
  split
  · rename_i cand hfind
    obtain ⟨hkind, hrot⟩ := mem_rotations (mem_of_find?_eq_some hfind)
    exact h.setActive hover hkind hrot (by simpa using List.find?_some hfind)
  · exact h

/-! ## Dropping and locking -/

theorem lockActive_trace (g : GameState) : (lockActive g).trace = g.trace ++ [.locked g.active] :=
  rfl

theorem Playing.lockActive (h : Playing seed g) : Kept seed (lockActive g) :=
  h.kept.note rfl rfl rfl rfl (Or.inr rfl) rfl rfl (fun _ hk => absurd hk not_mem_nil)

section Scoring

variable (g : GameState) (n : Nat)

theorem score_fields :
    (garbageEarn (scoringAdd g n) n).board = g.board ∧
    (garbageEarn (scoringAdd g n) n).active = g.active ∧
    (garbageEarn (scoringAdd g n) n).seed = g.seed ∧
    (garbageEarn (scoringAdd g n) n).next = g.next ∧
    (garbageEarn (scoringAdd g n) n).pieceGeneratedCounter = g.pieceGeneratedCounter ∧
    (garbageEarn (scoringAdd g n) n).hold = g.hold ∧
    (garbageEarn (scoringAdd g n) n).gameOver = g.gameOver ∧
    (garbageEarn (scoringAdd g n) n).trace = g.trace := by
  unfold garbageEarn scoringAdd
  split <;> split <;> exact ⟨rfl, rfl, rfl, rfl, rfl, rfl, rfl, rfl⟩

/-- Lines are counted in full as long as a lock clears at most four. -/
theorem score_lines (hn : n ≤ 4) {k : Nat} (hlines : g.lines = toInt32 k) :
    (garbageEarn (scoringAdd g n) n).lines = toInt32 ((k + n : Nat) : Int) := by
  have hearn : (garbageEarn (scoringAdd g n) n).lines = (scoringAdd g n).lines := by
    unfold garbageEarn
    split <;> rfl
  rw [hearn, scoringAdd]
  split
  · rename_i hzero
    rw [hlines, hzero, Nat.add_zero]
  · rw [Nat.min_eq_left hn]
    show toInt32 (g.lines + n) = _
    rw [hlines, toInt32, toInt32, toInt32, Int.bmod_add_bmod, Nat.cast_add]

end Scoring

theorem Playing.ready (h : Playing seed g) (hover : g.gameOver = false) :
    Ready seed (clearAndScore (Tetris.lockActive g)) := by
  have hfall := h.falling hover
  have hstack := h.stacked hover
  have hpieces := h.pieces hover
  have hlock : (Tetris.lockActive g).board = boardLock g.board g.active := rfl
  have hfour : (boardClearLines (Tetris.lockActive g).board).2 ≤ 4 :=
    cleared_lock hfall.real hfall.rot hfall.fits hstack.noFull
  generalize hn : (boardClearLines (Tetris.lockActive g).board).2 = n at hfour
  obtain ⟨hboard, -, hseed, hnext, hcounter, hhold, -, htrace⟩ :=
    score_fields (GameState.note
      { Tetris.lockActive g with board := (boardClearLines (Tetris.lockActive g).board).1 }
      (.cleared n)) n
  have hlines := score_lines (GameState.note
    { Tetris.lockActive g with board := (boardClearLines (Tetris.lockActive g).board).1 }
    (.cleared n)) n hfour hstack.lines
  have hg : clearAndScore (Tetris.lockActive g) =
      { garbageEarn (scoringAdd (GameState.note
        { Tetris.lockActive g with board := (boardClearLines (Tetris.lockActive g).board).1 }
        (.cleared n)) n) n with holdUsed := false } := by
    rw [← hn]
    rfl
  have htrace' : (clearAndScore (Tetris.lockActive g)).trace =
      (Tetris.lockActive g).trace ++ [.cleared n] := by
    rw [hg]
    exact htrace
  have hfull : (clearAndScore (Tetris.lockActive g)).trace =
      g.trace ++ [.locked g.active, .cleared n] := by
    rw [htrace', lockActive_trace, append_assoc]
    rfl
  refine ⟨?_, ⟨?_, ?_, ?_, ?_⟩, ?_⟩
  · refine h.lockActive.note htrace' ?_ ?_ ?_ (Or.inl ?_) rfl rfl ?_
    · rw [hg]; exact hseed
    · rw [hg]; exact hnext
    · rw [hg]; exact hcounter
    · rw [hg]; rfl
    · intro k hk
      obtain rfl := mem_singleton.mp hk
      exact hfour
  · rw [hg]
    rw [hboard]
    exact noFullRow_clearLines _
  · have hcells := hstack.cells
    have hclear := filled_clearLines (Tetris.lockActive g).board
    rw [hn, hlock, filled_lock hfall.real hfall.rot hfall.fits, boardWidth] at hclear
    have hb : (clearAndScore (Tetris.lockActive g)).board =
        (boardClearLines (boardLock g.board g.active)).1 := by
      rw [hg]
      exact hboard
    rw [hfull, hb, clearedOf_append, lockedOf_append, garbageOf_append, sum_append,
      sum_append, length_append]
    show _ + 10 * ((clearedOf g.trace).sum + (n + 0)) =
      4 * ((lockedOf g.trace).length + 1) + 9 * ((garbageOf g.trace).sum + 0)
    omega
  · rw [hfull, clearedOf_append, sum_append, hg]
    exact hlines
  · rw [hg]
    rw [hhold]
    exact hstack.hold
  · have hh : (clearAndScore (Tetris.lockActive g)).hold = g.hold := by
      rw [hg]
      exact hhold
    show (takenOf _).Perm _
    rw [hfull, hh, takenOf_append, lockedOf_append]
    show (takenOf g.trace ++ []).Perm ((lockedOf g.trace ++ [g.active.kind]) ++ heldPiece g.hold)
    rw [append_nil, append_assoc]
    exact hpieces

theorem postLock_eq (g : GameState) :
    postLock g = if (spawnNext (clearAndScore g)).1 then (spawnNext (clearAndScore g)).2
      else { (spawnNext (clearAndScore g)).2 with gameOver := true } := by
  unfold postLock
  generalize spawnNext (clearAndScore g) = r
  rfl

theorem Playing.postLock (h : Playing seed g) (hover : g.gameOver = false) :
    Playing seed (postLock (Tetris.lockActive g)) := by
  rw [postLock_eq]
  exact (h.ready hover).spawnNext

/-- A move down that is refused changes nothing; one that is not leaves the
game running. -/
theorem tryMove_cases (g : GameState) (dx dy : Int) :
    (actionTryMove g dx dy = (false, g)) ∨
    (boardCollides g.board (actionMove g.active dx dy) = false ∧
      actionTryMove g dx dy = (true, { g with active := actionMove g.active dx dy })) := by
  unfold actionTryMove
  dsimp only
  split
  · exact Or.inl rfl
  · rename_i hfits
    exact Or.inr ⟨by simpa using hfits, rfl⟩

theorem Playing.softdrop (h : Playing seed g) (hover : g.gameOver = false) :
    Playing seed (actionSoftdrop g).2 := by
  unfold actionSoftdrop
  rcases tryMove_cases g 0 1 with heq | ⟨hfits, heq⟩
  · rw [heq]
    simp only [Bool.false_eq_true, if_false]
    exact (h.postLock hover).tickCount 0
  · rw [heq]
    exact (h.setActive (p := actionMove g.active 0 1) hover rfl (h.falling hover).rot
      hfits).tickCount 0

theorem softdrop_true (h : (actionSoftdrop g).1 = true) :
    boardCollides g.board (actionMove g.active 0 1) = false ∧
    (actionSoftdrop g).2 = { g with active := actionMove g.active 0 1, tickCount := 0 } := by
  unfold actionSoftdrop at h ⊢
  rcases tryMove_cases g 0 1 with heq | ⟨hfits, heq⟩
  · rw [heq] at h
    cases h
  · rw [heq]
    exact ⟨hfits, rfl⟩

theorem Playing.dropLoop :
    ∀ (fuel : Nat) {g : GameState} (dropped : Nat), Playing seed g → g.gameOver = false →
      Playing seed (dropLoop fuel g dropped).2
  | 0, _, _, h, _ => h
  | fuel + 1, g, dropped, h, hover => by
    rw [Tetris.dropLoop]
    dsimp only
    split
    · rename_i hresult
      refine Playing.dropLoop fuel _ (h.softdrop hover) ?_
      rw [(softdrop_true hresult).2]
      exact hover
    · exact h.softdrop hover

theorem Falling.y_bounds {b : Board} (h : Falling b p) : -3 ≤ p.y ∧ p.y < 26 := by
  have hcard := card_filled h.real h.rot
  obtain ⟨⟨r, c⟩, hrc⟩ := Finset.card_pos.mp (hcard ▸ (by decide : 0 < 4))
  rw [Finset.mem_filter, Finset.mem_product, Finset.mem_range, Finset.mem_range] at hrc
  have hin := outside_eq_false (collides_eq_false.mp h.fits r c hrc.2).1
  have hsize : pieceSize p ≤ 4 := by
    unfold pieceSize
    cases p.kind <;> decide
  omega

/-- The loop of a hard drop ends by itself: more fuel than the way to the
bottom makes no difference. -/
theorem dropLoop_enough :
    ∀ (fuel extra : Nat) {g : GameState} (dropped : Nat), Playing seed g → g.gameOver = false →
      26 - g.active.y < fuel → dropLoop (fuel + extra) g dropped = dropLoop fuel g dropped
  | 0, _, g, _, h, hover, hfuel => by
    have := (h.falling hover).y_bounds
    omega
  | fuel + 1, extra, g, dropped, h, hover, hfuel => by
    rw [show fuel + 1 + extra = (fuel + extra) + 1 by omega, Tetris.dropLoop, Tetris.dropLoop]
    dsimp only
    split
    · rename_i hresult
      have hnext := (softdrop_true hresult).2
      refine dropLoop_enough fuel extra _ (h.softdrop hover) ?_ ?_
      · rw [hnext]
        exact hover
      · rw [hnext]
        show 26 - (g.active.y + 1) < (fuel : Int)
        omega
    · rfl

/-- The fuel of `actionHarddrop` is enough: with any more of it the piece
lands on the same row, since it falls no further than the board is high. -/
theorem harddrop_ends (h : Playing seed g) (hover : g.gameOver = false) (extra : Nat) :
    dropLoop (boardHeight + 4 + extra) g 0 = actionHarddrop g := by
  refine dropLoop_enough (boardHeight + 4) extra 0 h hover ?_
  have := (h.falling hover).y_bounds
  show 26 - g.active.y < ((30 : Nat) : Int)
  omega

/-! ## Holding -/

theorem Kept.held (h : Kept seed g) (hunused : g.holdUsed = false)
    (htrace : g'.trace = g.trace ++ [.held]) (hseed : g'.seed = g.seed) (hnext : g'.next = g.next)
    (hcounter : g'.pieceGeneratedCounter = g.pieceGeneratedCounter) (hused : g'.holdUsed = true) :
    Kept seed g' := by
  have htaken : takenOf g'.trace = takenOf g.trace := by
    rw [htrace, takenOf_append]
    exact append_nil _
  refine ⟨hseed.trans h.sameSeed, ?_, ?_, ?_, ?_, fun hnot => ?_, ?_⟩
  · rw [htaken]
    exact h.taken
  · rw [hnext, htaken]
    exact h.next
  · rw [hcounter, htaken]
    exact h.counter
  · rw [htrace, clearedOf_append]
    exact fun k hk => h.cleared k ((mem_append.mp hk).resolve_right not_mem_nil)
  · rw [hused] at hnot
    cases hnot
  · rw [htrace]
    refine once_snoc h.once fun _ pre mid heq hmid => ?_
    rw [h.unheld hunused pre mid heq hmid]
    decide

theorem Playing.hold (h : Playing seed g) (hover : g.gameOver = false) :
    Playing seed (actionHold g).2 := by
  unfold actionHold
  dsimp only
  split
  · exact h
  rename_i hused
  have hused : g.holdUsed = false := by simpa using hused
  have hstack := h.stacked hover
  have hfall := h.falling hover
  have hpieces := h.pieces hover
  have htaken : takenOf (g.trace ++ [.held]) = takenOf g.trace := by
    rw [takenOf_append]
    exact append_nil _
  have hlocked : lockedOf (g.trace ++ [.held]) = lockedOf g.trace := by
    rw [lockedOf_append]
    exact append_nil _
  split
  · -- nothing held yet: the falling piece is put aside and the next one taken
    rename_i hnone
    have hnone : g.hold = .none := hnone
    refine Ready.spawnNext ⟨h.kept.held hused rfl rfl rfl rfl rfl,
      hstack.note (n := .held) rfl rfl rfl (Or.inr hfall.real) rfl rfl rfl, ?_⟩
    show (takenOf (g.trace ++ [.held])).Perm
      (lockedOf (g.trace ++ [.held]) ++ heldPiece g.active.kind)
    rw [htaken, hlocked, heldPiece_real hfall.real]
    rw [Accounted, hnone] at hpieces
    exact hpieces
  · -- the held piece is spawned, and the falling one takes its place
    rename_i hsome
    have hreal : g.hold.real = true := hstack.hold.resolve_left hsome
    let g' : GameState := { g.note .held with holdUsed := true }
    have hkept : Kept seed g' := h.kept.held hused rfl rfl rfl rfl rfl
    have hstack' : Stacked g' := hstack.note (n := .held) rfl rfl rfl hstack.hold rfl rfl rfl
    show Playing seed (if (boardSpawnPiece g' g.hold).1 = true then
      { (boardSpawnPiece g' g.hold).2 with hold := g.active.kind }
      else { (boardSpawnPiece g' g.hold).2 with gameOver := true })
    rcases boardSpawnPiece_cases g' g.hold with heq | ⟨p, hkind, hrot, hfits, heq⟩
    · rw [heq, if_neg Bool.false_ne_true]
      refine Kept.over ?_ rfl
      exact hkept.congr rfl rfl rfl rfl rfl
    · rw [heq, if_pos rfl]
      refine ⟨hkept.congr rfl rfl rfl rfl rfl,
        fun _ => hstack'.congr rfl rfl (Or.inr hfall.real) rfl,
        fun _ => ⟨hkind ▸ hreal, by rw [hrot]; decide, hfits⟩, fun _ => ?_⟩
      show (takenOf (g.trace ++ [.held])).Perm
        (lockedOf (g.trace ++ [.held]) ++ p.kind :: heldPiece g.active.kind)
      rw [htaken, hlocked, hkind, heldPiece_real hfall.real]
      rw [Accounted, heldPiece_real hreal] at hpieces
      exact hpieces.trans ((List.Perm.swap _ _ _).append_left _)

/-! ## Garbage -/

theorem walkUp_spec (b : Board) :
    ∀ (n : Nat) (p : Piece), p.kind ≠ .none → (walkUp b n p).2 = true →
      (walkUp b n p).1.kind = p.kind ∧ (walkUp b n p).1.rot = p.rot ∧
        boardCollides b (walkUp b n p).1 = false
  | n, p, hkind, htrue => by
    unfold walkUp at htrue ⊢
    by_cases hc : boardCollides b p
    · have hcond : (p.kind != .none && boardCollides b p) = true := by simp [hkind, hc]
      rw [if_pos hcond] at htrue ⊢
      cases n with
      | zero => cases htrue
      | succ n => exact walkUp_spec b n { p with y := p.y - 1 } hkind htrue
    · have hcond : ¬ (p.kind != .none && boardCollides b p) = true := by simp [hc]
      rw [if_neg hcond]
      exact ⟨rfl, rfl, by simpa using hc⟩

theorem Playing.lifted (h : Playing seed g) (hover : g.gameOver = false) {n : Nat} (hpos : 1 ≤ n)
    (hle : n ≤ boardHeight) (htop : toppedOut g.board n = false) (hkind : p.kind = g.active.kind)
    (hrot : p.rot = g.active.rot)
    (hfits : boardCollides (layGarbage n (shiftUp n g.board)) p = false) :
    Playing seed { g.note (.garbage n) with
      board := layGarbage n (shiftUp n g.board), active := p } := by
  have hstack := h.stacked hover
  have hfall := h.falling hover
  have hcleared : clearedOf (g.trace ++ [.garbage n]) = clearedOf g.trace := by
    rw [clearedOf_append]
    exact append_nil _
  have hlocked : lockedOf (g.trace ++ [.garbage n]) = lockedOf g.trace := by
    rw [lockedOf_append]
    exact append_nil _
  have htaken : takenOf (g.trace ++ [.garbage n]) = takenOf g.trace := by
    rw [takenOf_append]
    exact append_nil _
  refine ⟨h.kept.note rfl rfl rfl rfl (Or.inl rfl) rfl rfl (fun _ hk => absurd hk not_mem_nil),
    fun _ => ⟨noFullRow_garbage hstack.noFull hpos hle, ?_, ?_, hstack.hold⟩,
    fun _ => ⟨hkind ▸ hfall.real, hrot ▸ hfall.rot, hfits⟩, fun _ => ?_⟩
  · show filled (layGarbage n (shiftUp n g.board)) +
        10 * (clearedOf (g.trace ++ [.garbage n])).sum =
      4 * (lockedOf (g.trace ++ [.garbage n])).length +
        9 * (garbageOf (g.trace ++ [.garbage n])).sum
    rw [filled_garbage hpos hle htop, hcleared, hlocked, garbageOf_append, sum_append]
    show _ = _ + 9 * ((garbageOf g.trace).sum + (n + 0))
    have := hstack.cells
    omega
  · have hsum : clearedOf (g.note (.garbage n)).trace = clearedOf g.trace := hcleared
    rw [hsum]
    exact hstack.lines
  · show (takenOf (g.trace ++ [.garbage n])).Perm
      (lockedOf (g.trace ++ [.garbage n]) ++ p.kind :: heldPiece g.hold)
    rw [htaken, hlocked, hkind]
    exact h.pieces hover

theorem Playing.garbage (h : Playing seed g) (hover : g.gameOver = false) (rows : Int) :
    Playing seed (if (boardAddGarbage g rows).1 then (boardAddGarbage g rows).2
      else { (boardAddGarbage g rows).2 with gameOver := true }) := by
  unfold boardAddGarbage
  split
  · exact h
  rename_i hrows
  split
  · rename_i htrue
    obtain ⟨hwalk, htop⟩ := Bool.and_eq_true_iff.mp htrue
    obtain ⟨hkind, hrot, hfits⟩ := walkUp_spec _ _ g.active
      (PieceKind.ne_none_of_real (h.falling hover).real) hwalk
    have hpos : 1 ≤ min rows.toNat boardHeight := Nat.le_min.mpr ⟨by omega, by decide⟩
    exact h.lifted hover hpos (Nat.min_le_right _ _) (by simpa using htop) hkind hrot hfits
  · refine Kept.over ?_ rfl
    exact h.kept.note rfl rfl rfl rfl (Or.inl rfl) rfl rfl (fun _ hk => absurd hk not_mem_nil)

/-! ## Every play -/

theorem Playing.input (h : Playing seed g) (m : Move) : Playing seed (tetrisbrainInput g m) := by
  unfold tetrisbrainInput
  split
  · exact h
  rename_i hover
  have hover : g.gameOver = false := by simpa using hover
  cases m with
  | none => exact h
  | left => exact h.tryMove hover (-1) 0
  | right => exact h.tryMove hover 1 0
  | rotLeft => exact h.tryRotate hover (-1)
  | rotRight => exact h.tryRotate hover 1
  | softDrop => exact h.softdrop hover
  | hardDrop => exact h.dropLoop _ 0 hover
  | hold => exact h.hold hover

theorem Playing.tick (h : Playing seed g) : Playing seed (tetrisbrainTick g) := by
  unfold tetrisbrainTick
  split
  · exact h
  rename_i hover
  dsimp only
  split
  · exact (h.tickCount _).softdrop (by simpa using hover)
  · exact h.tickCount _

theorem Playing.play (h : Playing seed g) (op : Op) : Playing seed (play g op) := by
  cases op with
  | input m => exact h.input m
  | tick => exact h.tick
  | garbage rows =>
    rw [Tetris.play]
    split
    · exact h
    · rename_i hover
      exact h.garbage (by simpa using hover) rows

theorem Playing.playAll (h : Playing seed g) (ops : List Op) : Playing seed (playAll g ops) := by
  induction ops generalizing g with
  | nil => exact h
  | cons op ops ih => exact ih (h.play op)

theorem spawn_fits (k : PieceKind) : boardCollides (fun _ _ => .none)
    { kind := k, rot := 0, x := 3, y := boardBufferHeight - k.shapes.1 } = false := by
  cases k <;> rfl

theorem ready_init (hboard : g.board = fun _ _ => .none) (hhold : g.hold = .none)
    (hlines : g.lines = 0) (hseed : g.seed = seed)
    (hnext : g.next = (List.range 5).map (stream seed)) (hcounter : g.pieceGeneratedCounter = 5)
    (htrace : g.trace = []) : Ready seed g := by
  refine ⟨⟨hseed, ?_, ?_, ?_, ?_, fun _ pre mid heq _ => ?_, fun pre mid post heq _ => ?_⟩,
    ⟨?_, ?_, ?_, Or.inl hhold⟩, ?_⟩
  · rw [htrace]
    rfl
  · rw [htrace, hnext]
    simp [takenOf]
  · rw [htrace, hcounter]
    rfl
  · rw [htrace]
    exact fun n hn => absurd hn not_mem_nil
  · rw [htrace] at heq
    rw [(append_eq_nil_iff.mp heq.symm).2]
    rfl
  · rw [htrace, append_assoc] at heq
    rw [(append_eq_nil_iff.mp (append_eq_nil_iff.mp heq.symm).2).1]
    exact Nat.zero_le 1
  · rw [hboard]
    exact fun _ _ => rfl
  · rw [hboard, htrace]
    decide
  · rw [hlines, htrace]
    decide
  · rw [Accounted, htrace, hhold]
    exact List.Perm.nil

theorem ready_emptyGame (g : GameState) (seed : UInt32) : Ready seed (emptyGame g seed) :=
  ready_init rfl rfl rfl rfl rfl rfl rfl

theorem boardSpawnPiece_empty (hboard : g.board = fun _ _ => .none) (k : PieceKind) :
    (boardSpawnPiece g k).1 = true := by
  have hfits := spawn_fits k
  rw [← hboard] at hfits
  unfold boardSpawnPiece
  simp only [hfits]
  rfl

theorem spawnNext_emptyGame (g : GameState) (seed : UInt32) :
    (spawnNext (emptyGame g seed)).1 = true :=
  boardSpawnPiece_empty rfl _

theorem Ready.spawnFirst (h : Ready seed g) (hspawn : (Tetris.spawnNext g).1 = true) :
    Playing seed (spawnFirst g) := h.spawned hspawn

theorem playing_init (g : GameState) (seed : UInt32) : Playing seed (tetrisbrainInit g seed) :=
  (ready_emptyGame g seed).spawnFirst (spawnNext_emptyGame g seed)

/-! ## Results -/

/-- While a game is not over: the falling piece is a tetromino in one of its
rotations and lies on empty cells of the board, no row is full, no lock has
removed more than four rows, lines are the rows removed (as an `int`), and
the filled cells are those of the pieces locked and of the garbage, less
those of the rows removed. -/
theorem engine_invariant (g₀ : GameState) (seed : UInt32) (ops : List Op)
    (hover : (playAll (tetrisbrainInit g₀ seed) ops).gameOver = false) :
    let g := playAll (tetrisbrainInit g₀ seed) ops
    g.active.kind.real = true ∧ 0 ≤ g.active.rot ∧ g.active.rot ≤ 3 ∧
    (∀ r c, pieceFilled g.active r c = true →
      (0 ≤ g.active.x + c ∧ g.active.x + c < boardWidth) ∧
      (0 ≤ g.active.y + r ∧ g.active.y + r < boardHeight) ∧
      g.board (g.active.y + r).toNat (g.active.x + c).toNat = .none) ∧
    NoFullRow g.board ∧
    (∀ n ∈ clearedOf g.trace, n ≤ 4) ∧
    g.lines = toInt32 (clearedOf g.trace).sum ∧
    (filled g.board : Int) = 4 * (lockedOf g.trace).length + 9 * (garbageOf g.trace).sum -
      10 * (clearedOf g.trace).sum := by
  intro g
  have h : Playing seed g := (playing_init g₀ seed).playAll ops
  have hfall := h.falling hover
  have hstack := h.stacked hover
  refine ⟨hfall.real, hfall.rot.1, ?_, fun r c hf => ?_, hstack.noFull, h.kept.cleared,
    hstack.lines, ?_⟩
  · have := hfall.rot.2
    omega
  · obtain ⟨hout, hempty⟩ := collides_eq_false.mp hfall.fits r c hf
    obtain ⟨hx₀, hx, hy₀, hy⟩ := outside_eq_false hout
    exact ⟨⟨hx₀, hx⟩, ⟨hy₀, hy⟩, hempty⟩
  · have := hstack.cells
    omega

/-- One piece dropped to the floor of a fresh board, then two rows of garbage. -/
theorem engine_invariant_dropped :
    filled (playAll (tetrisbrainInit clearedGame 7)
      [.input .left, .input .hardDrop, .tick, .garbage 2]).board = 22 := by
  have h := engine_invariant clearedGame 7 [.input .left, .input .hardDrop, .tick, .garbage 2]
    (by decide +kernel)
  have hcount : let tr := (playAll (tetrisbrainInit clearedGame 7)
      [.input .left, .input .hardDrop, .tick, .garbage 2]).trace
      (lockedOf tr).length = 1 ∧ (garbageOf tr).sum = 2 ∧ (clearedOf tr).sum = 0 := by
    decide +kernel
  omega

/-- For every play, next to any other play with the same seed: the `k`-th
piece taken is the `k`-th of the stream on both boards, the queue holds the
five that come next, and there is at most one hold between two locks. While
the game is not over, the pieces taken are those locked, the falling one and
the held one. -/
theorem fair_stream (g₀ g₀' : GameState) (seed : UInt32) (ops ops' : List Op) :
    let g := playAll (tetrisbrainInit g₀ seed) ops
    let g' := playAll (tetrisbrainInit g₀' seed) ops'
    (∀ (k : Nat) (kind : PieceKind), (takenOf g.trace)[k]? = some kind →
      kind = rngPiece seed (UInt32.ofNat k)) ∧
    (∀ (k : Nat) (kind kind' : PieceKind), (takenOf g.trace)[k]? = some kind →
      (takenOf g'.trace)[k]? = some kind' → kind = kind') ∧
    g.next = (List.range 5).map
      (fun i => rngPiece seed (UInt32.ofNat ((takenOf g.trace).length + i))) ∧
    (g.gameOver = false →
      (takenOf g.trace : Multiset PieceKind) =
        (lockedOf g.trace : Multiset PieceKind) + {g.active.kind} +
          (if g.hold = .none then 0 else {g.hold})) ∧
    (∀ pre mid post, g.trace = pre ++ mid ++ post → Lockless mid →
      mid.countP Note.isHeld ≤ 1) := by
  intro g g'
  have h : Playing seed g := (playing_init g₀ seed).playAll ops
  have h' : Playing seed g' := (playing_init g₀' seed).playAll ops'
  have hnth : ∀ {g : GameState}, Kept seed g → ∀ (k : Nat) (kind : PieceKind),
      (takenOf g.trace)[k]? = some kind →
      kind = rngPiece seed (UInt32.ofNat k) := by
    intro g hkept k kind hk
    rw [hkept.taken, List.getElem?_map] at hk
    obtain ⟨i, hi, rfl⟩ := Option.map_eq_some_iff.mp hk
    obtain ⟨hlt, rfl⟩ := List.getElem?_eq_some_iff.mp hi
    rw [getElem_range]
    rfl
  refine ⟨hnth h.kept, fun k kind kind' hk hk' => ?_, h.kept.next, fun hover => ?_, h.kept.once⟩
  · rw [hnth h.kept k kind hk, hnth h'.kept k kind' hk']
  · have hpieces := Multiset.coe_eq_coe.mpr (h.pieces hover)
    rw [hpieces, ← Multiset.coe_add, add_assoc]
    rcases (h.stacked hover).hold with hnone | hreal
    · rw [hnone, if_pos rfl]
      rfl
    · rw [heldPiece_real hreal, if_neg (PieceKind.ne_none_of_real hreal)]
      rfl

end Corestack.Tetris
