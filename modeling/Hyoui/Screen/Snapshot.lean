import Mathlib.Algebra.Group.Nat.Defs
import Mathlib.Data.List.DropRight
import Mathlib.Data.List.Basic
/-!
# Snapshots of the screen

The cells of the terminal as the daemon reads them (`RowCellSnap`), the sparse snapshot it sends
(`ScreenSnapshot`), the text of `screen dump`, and what `hyoui wait` makes of a snapshot
(`SnapshotCells.toText`). The terminal emulator itself is outside: a `ScreenState` answers what stands
in each cell.
-/

namespace Hyoui.Screen

/-! ## Rows of text -/

/-- One cell of a row that becomes text. -/
inductive TextCell where
  | cell (text : String)
  | wideContinuation
deriving DecidableEq

/-- What a cell puts in the line. -/
def TextCell.text : TextCell → String
  | .cell s => if s = "" then " " else s
  | .wideContinuation => ""

/-- `trim_end_matches(' ')` -/
def trimEndSpaces (line : String) : String := .ofList (line.toList.rdropWhile (· = ' '))

def rowText (cells : List TextCell) (trimTrailing : Bool) : String :=
  let line := cells.foldl (fun line cell => line ++ cell.text) ""
  if trimTrailing then trimEndSpaces line else line

/-! ## The terminal -/

/-- `vt100::Color` -/
inductive Color where
  | default
  | idx (i : UInt8)
  | rgb (r g b : UInt8)
deriving DecidableEq

/-- `vt100::Cell` -/
structure VtCell where
  contents : String
  isWide : Bool
  isWideContinuation : Bool
  bold : Bool
  italic : Bool
  underline : Bool
  inverse : Bool
  dim : Bool
  fg : Color
  bg : Color
deriving DecidableEq

structure RowCellSnap where
  contents : String
  isWide : Bool
  isWideContinuation : Bool
  attrs : UInt8
  dim : Bool
  fg : Color
  bg : Color
deriving DecidableEq

namespace RowCellSnap

/-- `RowCellSnap::default` -/
def blank : RowCellSnap :=
  { contents := "", isWide := false, isWideContinuation := false, attrs := 0, dim := false, fg := .default, bg := .default }

/-- `1 << i` if set. -/
def bit (set : Bool) (i : UInt8) : UInt8 := if set then 1 <<< i else 0

def fromCell (cell : VtCell) : RowCellSnap :=
  { contents := cell.contents
    isWide := cell.isWide
    isWideContinuation := cell.isWideContinuation
    attrs := bit cell.bold 0 ||| bit cell.italic 1 ||| bit cell.underline 2 ||| bit cell.inverse 3
    dim := cell.dim
    fg := cell.fg
    bg := cell.bg }

/-- `text_cell` -/
def textCell (cell : RowCellSnap) : TextCell :=
  if cell.isWideContinuation then .wideContinuation else .cell cell.contents

/-- `is_default_cell` -/
def isDefault (cell : RowCellSnap) : Bool :=
  (cell.contents = "" || cell.contents = " ") && cell.attrs = 0 && !cell.isWide && !cell.isWideContinuation

end RowCellSnap

structure CursorSnapshot where
  row : Nat
  col : Nat
  visible : Bool
deriving DecidableEq

structure ModeSnapshot where
  alternateScreen : Bool
  applicationKeypad : Bool
  applicationCursor : Bool
  bracketedPaste : Bool
  hideCursor : Bool
deriving DecidableEq

def sizeMin : Nat := 1
def sizeMax : Nat := 4096

/-- What the daemon asks of the terminal. The size is kept within its limits by `new` and `resize`; `cell offset r c`
is the cell that the terminal shows at this place when its scrollback offset is set so. -/
structure ScreenState where
  rows : Nat
  cols : Nat
  rows_range : sizeMin ≤ rows ∧ rows ≤ sizeMax
  cols_range : sizeMin ≤ cols ∧ cols ≤ sizeMax
  /-- `scrollback()` -/
  offset : Nat
  scrollbackLen : Nat
  /-- The rows that the scrollback ring holds now. -/
  ring : Nat
  cell : Nat → Nat → Nat → Option VtCell
  cursor : CursorSnapshot
  mode : ModeSnapshot
  currentSeqno : Nat

namespace ScreenState

variable (s : ScreenState)

/-- The row `r` of the viewport at a scrollback offset. -/
def readRow (offset r : Nat) : List RowCellSnap :=
  (List.range s.cols).map fun c => ((s.cell offset r c).map RowCellSnap.fromCell).getD .blank

def snapshotVisibleRows : List (List RowCellSnap) := (List.range s.rows).map (s.readRow s.offset)

/-- `snapshot_scrollback_rows`: the oldest row comes first. `set_scrollback` clamps to the ring. -/
def snapshotScrollbackRows : List (List RowCellSnap) :=
  if s.scrollbackLen = 0 then []
  else (List.range' 1 s.ring).reverse.map fun offset => s.readRow (min offset s.ring) 0

end ScreenState

/-! ## The snapshot -/

structure CellSnapshot where
  text : String
  attrs : UInt8
  wide : Bool
deriving DecidableEq

structure CellPos where
  r : Nat
  c : Nat
  cell : CellSnapshot
deriving DecidableEq

inductive BufferKind where
  | primary
  | alternate
deriving DecidableEq

structure ScreenSnapshot where
  rows : Nat
  cols : Nat
  cursor : CursorSnapshot
  mode : ModeSnapshot
  cells : List CellPos
  buffer : BufferKind
  currentSeqno : Nat
deriving DecidableEq

/-- `as u16` -/
def asU16 (n : Nat) : Nat := n % 2 ^ 16

def u16Max : Nat := 2 ^ 16 - 1

/-- A cell as it is sent. -/
def sentCell (r c : Nat) (cell : RowCellSnap) : CellPos :=
  { r := asU16 r, c := asU16 c, cell := { text := cell.contents, attrs := cell.attrs, wide := cell.isWide } }

/-- The cells of one row that are sent; the columns start at `c`. -/
def sparseRow (r : Nat) : Nat → List RowCellSnap → List CellPos
  | _, [] => []
  | c, cell :: row =>
    if cell.isDefault then sparseRow r (c + 1) row
    else sentCell r c cell :: sparseRow r (c + 1) row

/-- The cells that are sent, the first row being the row `r`. -/
def sparseCells : Nat → List (List RowCellSnap) → List CellPos
  | _, [] => []
  | r, row :: rows => sparseRow r 0 row ++ sparseCells (r + 1) rows

/-- The fields that do not depend on the layer. -/
def snapshotOf (s : ScreenState) (rows : Nat) (cells : List CellPos) : ScreenSnapshot :=
  { rows, cols := s.cols, cursor := s.cursor, mode := s.mode, cells
    buffer := if s.mode.alternateScreen then .alternate else .primary
    currentSeqno := s.currentSeqno }

def buildScreenSnapshot (s : ScreenState) : ScreenSnapshot :=
  snapshotOf s s.rows (sparseCells 0 s.snapshotVisibleRows)

inductive ScreenDumpLayer where
  | visible
  | scrollback
  | both
deriving DecidableEq

def layerRows (s : ScreenState) : ScreenDumpLayer → List (List RowCellSnap)
  | .visible => s.snapshotVisibleRows
  | .scrollback => s.snapshotScrollbackRows
  | .both => s.snapshotScrollbackRows ++ s.snapshotVisibleRows

/-- The declared number of rows: `u16::try_from(..).unwrap_or(u16::MAX)` but for the viewport. -/
def layerHeight (s : ScreenState) : ScreenDumpLayer → Nat
  | .visible => s.rows
  | layer => min (layerRows s layer).length u16Max

def buildLayeredSnapshot (s : ScreenState) (layer : ScreenDumpLayer) : ScreenSnapshot :=
  snapshotOf s (layerHeight s layer) (sparseCells 0 (layerRows s layer))

/-- `build_plain_text_from_rows`: the payload of the text formats of `screen dump`. -/
def buildPlainTextFromRows (rows : List (List RowCellSnap)) (trimTrailing : Bool) : String :=
  rows.foldl (fun out row => out ++ rowText (row.map RowCellSnap.textCell) trimTrailing ++ "\n") ""

/-! ## What `wait` makes of it -/

/-- A cell in the CBOR map: fields at their defaults are skipped. -/
structure CellMap where
  t : Option String
  a : Option UInt8
  w : Option Bool
deriving DecidableEq

def CellSnapshot.encode (cell : CellSnapshot) : CellMap :=
  { t := if cell.text = "" then none else some cell.text
    a := if cell.attrs = 0 then none else some cell.attrs
    w := if cell.wide then some true else none }

def CellMap.decode (m : CellMap) : CellSnapshot := { text := m.t.getD "", attrs := m.a.getD 0, wide := m.w.getD false }

@[simp] theorem CellSnapshot.decode_encode (cell : CellSnapshot) : cell.encode.decode = cell := by
  obtain ⟨text, attrs, wide⟩ := cell
  simp only [encode, CellMap.decode, CellSnapshot.mk.injEq]
  refine ⟨?_, ?_, ?_⟩
  · by_cases h : text = "" <;> simp [h]
  · by_cases h : attrs = 0 <;> simp [h]
  · cases wide <;> rfl

structure SnapshotCells where
  rows : Nat
  cols : Nat
  cells : List CellPos
deriving DecidableEq

/-- The snapshot as the client decodes it. -/
def SnapshotCells.receive (snap : ScreenSnapshot) : SnapshotCells :=
  { rows := snap.rows, cols := snap.cols, cells := snap.cells.map fun p => { p with cell := p.cell.encode.decode } }

/-- A cell is put in its row; a wide one marks the empty cell on its right as its continuation. -/
def placeInRow (c : Nat) (cell : CellSnapshot) (row : List TextCell) : List TextCell :=
  let row := if cell.text = "" ∧ row[c]? = some .wideContinuation then row else row.set c (.cell cell.text)
  if cell.wide ∧ row[c + 1]? = some (.cell "") then row.set (c + 1) .wideContinuation else row

/-- One cell of the loop of `to_text`; a cell outside is ignored. -/
def place (rows cols : Nat) (grid : List (List TextCell)) (p : CellPos) : List (List TextCell) :=
  if p.r ≥ rows ∨ p.c ≥ cols then grid else grid.modify p.r (placeInRow p.c p.cell)

def SnapshotCells.toText (s : SnapshotCells) : String :=
  if s.rows = 0 ∨ s.cols = 0 then ""
  else
    let grid := s.cells.foldl (place s.rows s.cols) (List.replicate s.rows (List.replicate s.cols (.cell "")))
    "\n".intercalate (grid.map (rowText · true))

end Hyoui.Screen
