import Corestack.Lib.Text
import Corestack.Tetris.Board

/-!
# The rules of the game (`rng.c`, `scoring.c`, `action.c`, `tetrisbrain.c`)

The pieces come from a stream that is a function of the seed and a counter,
so boards with one seed get the same pieces. A piece that cannot fall any
further is locked, full lines are cleared and the next piece is spawned; if
it does not fit, the game is over.

`trace` is not in the source. It lists, in order, the calls that the
results are about.
-/

namespace Corestack.Tetris

open Lib

def gravityTicks : Int := 20

inductive Note where
  | taken (kind : PieceKind)
  | held
  | locked (piece : Piece)
  | cleared (lines : Nat)
  | garbage (rows : Nat)
deriving DecidableEq, Repr

inductive Move where
  | none
  | left
  | right
  | rotLeft
  | rotRight
  | softDrop
  | hardDrop
  | hold
deriving DecidableEq, Repr

/-- `GameState`, without the scoreboard, which the engine leaves alone. -/
structure GameState where
  board : Board
  active : Piece
  next : List PieceKind
  hold : PieceKind
  holdUsed : Bool
  score : Int
  lines : Int
  level : Int
  tickCount : Int
  tickTrigger : Int
  seed : UInt32
  pieceGeneratedCounter : UInt32
  gameOver : Bool
  garbageOut : Int
  trace : List Note

def GameState.note (g : GameState) (n : Note) : GameState := { g with trace := g.trace ++ [n] }

/-! ## The stream -/

def pieceFromHash (h : UInt32) : PieceKind :=
  match ((h >>> 16) % 7).toNat with
  | 0 => .I
  | 1 => .O
  | 2 => .T
  | 3 => .S
  | 4 => .Z
  | 5 => .J
  | _ => .L

def rngPiece (seed counter : UInt32) : PieceKind :=
  pieceFromHash ((seed ^^^ (counter * 2654435761)) * 1664525 + 1013904223)

/-! ## Scoring -/

def scoringAdd (g : GameState) (cleared : Nat) : GameState :=
  if cleared = 0 then g
  else
    let cleared := min cleared 4
    { g with
      lines := toInt32 (g.lines + cleared)
      score := toInt32 (g.score + [0, 100, 300, 500, 800].getD cleared 0) }

def garbageEarn (g : GameState) (n : Nat) : GameState :=
  if n ≥ 2 then { g with garbageOut := toInt32 (g.garbageOut + (n - 1 : Nat)) } else g

/-! ## Spawning -/

def boardSpawnPiece (g : GameState) (kind : PieceKind) : Bool × GameState :=
  let p : Piece := { kind, rot := 0, x := 3, y := boardBufferHeight - kind.shapes.1 }
  if boardCollides g.board p then (false, g) else (true, { g with active := p, tickCount := 0 })

/-- The first piece of the queue is taken and the queue refilled from the
stream. -/
def spawnNext (g : GameState) : Bool × GameState :=
  let k := g.next.headD .none
  let g := { g with
    next := g.next.tail ++ [rngPiece g.seed g.pieceGeneratedCounter]
    pieceGeneratedCounter := g.pieceGeneratedCounter + 1 }
  boardSpawnPiece (g.note (.taken k)) k

/-! ## Actions -/

def actionRotate (p : Piece) (step : Int) : Piece :=
  { p with rot := ((p.rot + step).tmod pieceRots + pieceRots).tmod pieceRots }

def actionMove (p : Piece) (dx dy : Int) : Piece := { p with x := p.x + dx, y := p.y + dy }

def actionTryMove (g : GameState) (dx dy : Int) : Bool × GameState :=
  let cand := actionMove g.active dx dy
  if boardCollides g.board cand then (false, g) else (true, { g with active := cand })

/-- The rotated piece, then shifted right and left by 1 up to the size of its
box. -/
def rotations (p : Piece) (dir : Int) : List Piece :=
  let cand := actionRotate p dir
  cand :: (List.range (pieceSize cand)).flatMap fun i =>
    [actionMove cand (i + 1) 0, actionMove cand (-(i + 1)) 0]

def actionTryRotate (g : GameState) (dir : Int) : Bool × GameState :=
  match (rotations g.active dir).find? fun cand => !boardCollides g.board cand with
  | some cand => (true, { g with active := cand })
  | none => (false, g)

def actionLmove (g : GameState) : Bool × GameState := actionTryMove g (-1) 0
def actionRmove (g : GameState) : Bool × GameState := actionTryMove g 1 0
def actionRrot (g : GameState) : Bool × GameState := actionTryRotate g 1
def actionLrot (g : GameState) : Bool × GameState := actionTryRotate g (-1)

def lockActive (g : GameState) : GameState :=
  { g.note (.locked g.active) with board := boardLock g.board g.active, holdUsed := false }

/-- The full rows cleared and counted. -/
def clearAndScore (g : GameState) : GameState :=
  let (board, n) := boardClearLines g.board
  let g := garbageEarn (scoringAdd (GameState.note { g with board } (.cleared n)) n) n
  { g with holdUsed := false }

def postLock (g : GameState) : GameState :=
  let (spawned, g) := spawnNext (clearAndScore g)
  if spawned then g else { g with gameOver := true }

def actionSoftdrop (g : GameState) : Bool × GameState :=
  let (result, g) := actionTryMove g 0 1
  let g := if result then g else postLock (lockActive g)
  (result, { g with tickCount := 0 })

/-- The loop of `action_harddrop`, with what was dropped so far. -/
def dropLoop : Nat → GameState → Nat → Nat × GameState
  | 0, g, dropped => (dropped, g)
  | fuel + 1, g, dropped =>
    let (result, g) := actionSoftdrop g
    if result then dropLoop fuel g (dropped + 1) else (dropped, g)

/-- A piece on the board has at most the height of the board to fall. -/
def actionHarddrop (g : GameState) : Nat × GameState := dropLoop (boardHeight + 4) g 0

def actionHold (g : GameState) : Bool × GameState :=
  if g.holdUsed then (false, g)
  else
    let cur := g.active.kind
    let g := { g.note .held with holdUsed := true }
    if g.hold = .none then
      let (spawned, g) := spawnNext { g with hold := cur }
      (true, if spawned then g else { g with gameOver := true })
    else
      let (spawned, g') := boardSpawnPiece g g.hold
      (true, if spawned then { g' with hold := cur } else { g' with gameOver := true })

/-! ## The engine -/

/-- The state that `tetrisbrain_init` sets up before the first piece. -/
def emptyGame (g : GameState) (seed : UInt32) : GameState :=
  { g with
    board := fun _ _ => .none
    hold := .none
    holdUsed := false
    score := 0
    lines := 0
    level := 0
    tickCount := 0
    tickTrigger := gravityTicks
    seed
    gameOver := false
    garbageOut := 0
    next := (List.range 5).map fun k => rngPiece seed (UInt32.ofNat k)
    pieceGeneratedCounter := 5
    trace := [] }

def clearedGame : GameState :=
  ⟨fun _ _ => .none, ⟨.none, 0, 0, 0⟩, [], .none, false, 0, 0, 0, 0, 0, 0, 0, false, 0, []⟩

/-- `spawn_next`, where the result is not looked at. -/
def spawnFirst (g : GameState) : GameState := (spawnNext g).2

def tetrisbrainInit (g : GameState) (seed : UInt32) : GameState := spawnFirst (emptyGame g seed)

def tetrisbrainTick (g : GameState) : GameState :=
  if g.gameOver then g
  else
    let g := { g with tickCount := g.tickCount + 1 }
    if g.tickCount ≥ g.tickTrigger then (actionSoftdrop g).2 else g

def tetrisbrainInput (g : GameState) (m : Move) : GameState :=
  if g.gameOver then g
  else
    match m with
    | .left => (actionLmove g).2
    | .right => (actionRmove g).2
    | .rotRight => (actionRrot g).2
    | .rotLeft => (actionLrot g).2
    | .softDrop => (actionSoftdrop g).2
    | .hardDrop => (actionHarddrop g).2
    | .hold => (actionHold g).2
    | .none => g

def boardAddGarbage (g : GameState) (rows : Int) : Bool × GameState :=
  if rows ≤ 0 then (true, g)
  else
    let n := min rows.toNat boardHeight
    let board := layGarbage n (shiftUp n g.board)
    let (active, fits) := walkUp board (g.active.y + pieceSize g.active).toNat g.active
    (fits && !toppedOut g.board n, { g.note (.garbage n) with board, active })

/-! ## Play -/

/-- What a session does to its board. -/
inductive Op where
  | input (m : Move)
  | tick
  | garbage (rows : Int)

/-- A board that garbage has topped out is marked by the session, and gets
no more garbage. -/
def play (g : GameState) : Op → GameState
  | .input m => tetrisbrainInput g m
  | .tick => tetrisbrainTick g
  | .garbage rows =>
    if g.gameOver then g
    else
      let (fits, g) := boardAddGarbage g rows
      if fits then g else { g with gameOver := true }

def playAll (g : GameState) (ops : List Op) : GameState := ops.foldl play g

end Corestack.Tetris
