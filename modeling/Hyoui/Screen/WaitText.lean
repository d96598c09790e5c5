import Mathlib.Data.List.Nodup
import Hyoui.Screen.Snapshot
/-!
# The text that `wait` matches

`SnapshotCells.toText` of the snapshot is the text of `screen dump`, and the cells of every layered
snapshot have distinct places within its declared size, under exact conditions on the rows.
-/

namespace Hyoui.Screen

/-! ## Lines -/

/-- The characters that cells put in a line. -/
def lineOf (cells : List TextCell) : List Char := cells.flatMap fun cell => cell.text.toList

theorem foldl_text (cells : List TextCell) (line : String) :
    (cells.foldl (fun line cell => line ++ cell.text) line).toList = line.toList ++ lineOf cells := by
  induction cells generalizing line with
  | nil => simp [lineOf]
  | cons cell cells ih => simp [ih, lineOf]

/-- The line without the spaces at its end. -/
def trimmed (line : List Char) : List Char := line.rdropWhile (· = ' ')

theorem rowText_toList (cells : List TextCell) : (rowText cells true).toList = trimmed (lineOf cells) := by
  simp [rowText, trimEndSpaces, foldl_text, trimmed]

theorem trimmed_append (x y : List Char) : trimmed (x ++ y) = if trimmed y = [] then trimmed x else x ++ trimmed y := by
  unfold trimmed List.rdropWhile
  rw [List.reverse_append, List.dropWhile_append]
  by_cases h : (y.reverse.dropWhile (· = ' ')) = []
  · simp [h]
  · simp [h]

theorem trimmed_eq_nil {line : List Char} : trimmed line = [] ↔ ∀ c ∈ line, c = ' ' := by
  rw [trimmed, List.rdropWhile_eq_nil_iff]
  simp

theorem length_trimmed_le (line : List Char) : (trimmed line).length ≤ line.length :=
  (List.rdropWhile_prefix (· = ' ') line).length_le

/-- The same characters before two lines do not change which is longer. -/
theorem trimmed_append_le {d t : List Char} (h : (trimmed d).length ≤ (trimmed t).length) (x : List Char) :
    (trimmed (x ++ d)).length ≤ (trimmed (x ++ t)).length ∧
      ((trimmed (x ++ d)).length = (trimmed (x ++ t)).length → (trimmed d).length = (trimmed t).length) := by
  have hx := length_trimmed_le x
  rw [trimmed_append, trimmed_append]
  by_cases ht : trimmed t = []
  · have hd : trimmed d = [] := List.length_eq_zero_iff.1 (Nat.le_zero.1 (by rwa [ht] at h))
    rw [if_pos ht, if_pos hd, hd, ht]
    exact ⟨Nat.le_refl _, fun _ => rfl⟩
  · have hpos := List.length_pos_iff.2 ht
    rw [if_neg ht, List.length_append]
    by_cases hd : trimmed d = []
    · rw [if_pos hd]
      exact ⟨by omega, fun he => by omega⟩
    · rw [if_neg hd, List.length_append]
      exact ⟨by omega, fun he => by omega⟩

/-! ## Rows -/

/-- A wide cell is followed by its continuation, and a continuation cell has no text. -/
def Followed : List RowCellSnap → Prop
  | [] => True
  | cell :: row =>
    (cell.isWide = true → row.head?.any (·.isWideContinuation) = true) ∧
      (cell.isWideContinuation = true → cell.contents = "") ∧ Followed row

/-- The cell puts nothing but spaces in the line. -/
def Blank (cell : RowCellSnap) : Prop := ∀ c ∈ cell.textCell.text.toList, c = ' '

/-- A continuation cell that follows no wide cell has only blank cells after it. `wide` says of the cell before
the row that it is wide. -/
def OrphansBlank : Bool → List RowCellSnap → Prop
  | _, [] => True
  | wide, cell :: row =>
    (cell.isWideContinuation = true → wide = false → ∀ next ∈ row, Blank next) ∧ OrphansBlank cell.isWide row

/-- The row as `to_text` rebuilds it. -/
def shownRow : Bool → List RowCellSnap → List TextCell
  | _, [] => []
  | wide, cell :: row =>
    (if wide then .wideContinuation else if cell.isDefault then .cell "" else .cell cell.contents) ::
      shownRow cell.isWide row

/-- What one cell puts in the two lines: the same, but for a continuation cell after no wide cell. -/
theorem shown_text {wide : Bool} {cell : RowCellSnap} (hwide : wide = true → cell.isWideContinuation = true)
    (horphan : ¬ (cell.isWideContinuation = true ∧ wide = false)) :
    (if wide then TextCell.wideContinuation else if cell.isDefault then .cell "" else .cell cell.contents).text =
      cell.textCell.text := by
  cases wide with
  | true => simp [RowCellSnap.textCell, hwide rfl, TextCell.text]
  | false =>
    have hcont : cell.isWideContinuation = false := Bool.eq_false_iff.2 fun h => horphan ⟨h, rfl⟩
    by_cases hd : cell.isDefault = true
    · have hc : cell.contents = "" ∨ cell.contents = " " := by
        simp only [RowCellSnap.isDefault, Bool.and_eq_true, Bool.or_eq_true, decide_eq_true_eq] at hd
        exact hd.1.1.1
      rcases hc with hc | hc <;> simp [RowCellSnap.textCell, hcont, hd, TextCell.text, hc]
    · simp [RowCellSnap.textCell, hcont, hd, TextCell.text]

/-- The line of the rebuilt row against that of the row: it is never shorter, and equal, even in length, just when the
cells after an orphaned continuation are blank. -/
theorem shownRow_trimmed {row : List RowCellSnap} (hf : Followed row) {wide : Bool}
    (hwide : wide = true → row.head?.any (·.isWideContinuation) = true) :
    (trimmed (lineOf (row.map RowCellSnap.textCell))).length ≤ (trimmed (lineOf (shownRow wide row))).length ∧
    ((trimmed (lineOf (row.map RowCellSnap.textCell))).length = (trimmed (lineOf (shownRow wide row))).length →
      OrphansBlank wide row) ∧
    (OrphansBlank wide row → trimmed (lineOf (row.map RowCellSnap.textCell)) = trimmed (lineOf (shownRow wide row))) := by
  induction row generalizing wide with
  | nil => exact ⟨Nat.le_refl _, fun _ => trivial, fun _ => rfl⟩
  | cons cell row ih =>
    obtain ⟨hnext, hempty, hrest⟩ := hf
    obtain ⟨hle, hlen, heq⟩ := ih hrest hnext
    have hD : lineOf ((cell :: row).map RowCellSnap.textCell) =
        cell.textCell.text.toList ++ lineOf (row.map RowCellSnap.textCell) := rfl
    have hS : lineOf (shownRow wide (cell :: row)) =
        (if wide then TextCell.wideContinuation else if cell.isDefault then .cell "" else .cell cell.contents).text.toList ++
          lineOf (shownRow cell.isWide row) := rfl
    have hcont : wide = true → cell.isWideContinuation = true := by simpa using hwide
    rw [hD, hS]
    by_cases horphan : cell.isWideContinuation = true ∧ wide = false
    · obtain ⟨hc, rfl⟩ := horphan
      -- the rebuilt row has a space here, the row has nothing
      have hd : cell.textCell.text.toList = [] := by simp [RowCellSnap.textCell, hc, TextCell.text]
      have hs : (if false = true then TextCell.wideContinuation
          else if cell.isDefault then .cell "" else .cell cell.contents).text.toList = [' '] := by
        have hnd : cell.isDefault = false := by simp [RowCellSnap.isDefault, hc]
        simp [hnd, hempty hc, TextCell.text]
      rw [hd, hs, List.nil_append, trimmed_append]
      by_cases ht : trimmed (lineOf (shownRow cell.isWide row)) = []
      · have hnil : trimmed (lineOf (row.map RowCellSnap.textCell)) = [] :=
          List.length_eq_zero_iff.1 (Nat.le_zero.1 (by rwa [ht] at hle))
        rw [if_pos ht, hnil]
        refine ⟨Nat.zero_le _, fun _ => ⟨fun _ _ next hn => ?_, hlen (by rw [ht, hnil])⟩, fun _ => rfl⟩
        intro c hcn
        refine trimmed_eq_nil.1 hnil c (List.mem_flatMap.2 ⟨next.textCell, List.mem_map.2 ⟨next, hn, rfl⟩, hcn⟩)
      · rw [if_neg ht, List.length_append]
        have hone : ([' '] : List Char).length = 1 := rfl
        refine ⟨by omega, fun he => by omega, fun hob => absurd ?_ ht⟩
        rw [← heq hob.2, trimmed_eq_nil]
        intro c hcl
        obtain ⟨b, hb, hcb⟩ := List.mem_flatMap.1 hcl
        obtain ⟨next, hn, rfl⟩ := List.mem_map.1 hb
        exact hob.1 hc rfl next hn c hcb
    · rw [shown_text hcont horphan]
      obtain ⟨hle', hlen'⟩ := trimmed_append_le hle cell.textCell.text.toList
      refine ⟨hle', fun he => ⟨fun hc hw => absurd ⟨hc, hw⟩ horphan, hlen (hlen' he)⟩, fun hob => ?_⟩
      rw [trimmed_append, trimmed_append, heq hob.2]

/-! ## Rebuilding the grid -/

theorem asU16_of_lt {n : Nat} (h : n < 2 ^ 16) : asU16 n = n := Nat.mod_eq_of_lt h

/-- The end of a row that is not placed yet: its first cell may be marked already. -/
def unplaced (wide : Bool) : Nat → List TextCell
  | 0 => []
  | n + 1 => (if wide then .wideContinuation else .cell "") :: List.replicate n (.cell "")

theorem unplaced_false (n : Nat) : unplaced false n = List.replicate n (.cell "") := by
  cases n <;> rfl

/-- One cell that is sent, in a row whose cells before it are placed: the mark that the cell before it left stays
where the cell has no text, and a wide cell marks the next one. -/
theorem placeInRow_next {done : List TextCell} {wide : Bool} {cell : RowCellSnap} {n : Nat}
    (hw : wide = true → cell.contents = "") (hnext : cell.isWide = true → 0 < n) :
    placeInRow done.length { text := cell.contents, attrs := cell.attrs, wide := cell.isWide }
      (done ++ unplaced wide (n + 1)) =
    done ++ (if wide then .wideContinuation else .cell cell.contents) :: unplaced cell.isWide n := by
  have hat : ∀ (x : TextCell) (l : List TextCell), (done ++ x :: l)[done.length]? = some x := by
    intro x l
    rw [List.getElem?_append_right (Nat.le_refl _), Nat.sub_self, List.getElem?_cons_zero]
  have hput : ∀ (x y : TextCell) (l : List TextCell), (done ++ x :: l).set done.length y = done ++ y :: l := by
    intro x y l
    rw [List.set_append_right _ _ (Nat.le_refl _), Nat.sub_self, List.set_cons_zero]
  have hafter : ∀ (x z : TextCell) (l : List TextCell), (done ++ x :: z :: l)[done.length + 1]? = some z := by
    intro x z l
    rw [List.getElem?_append_right (Nat.le_succ _), Nat.succ_sub (Nat.le_refl _), Nat.sub_self]
    rfl
  have hputAfter : ∀ (x y z : TextCell) (l : List TextCell),
      (done ++ x :: z :: l).set (done.length + 1) y = done ++ x :: y :: l := by
    intro x y z l
    rw [List.set_append_right _ _ (Nat.le_succ _), Nat.succ_sub (Nat.le_refl _), Nat.sub_self]
    rfl
  -- the text is put, or a continuation stays
  have htext : (if cell.contents = "" ∧ (done ++ unplaced wide (n + 1))[done.length]? = some .wideContinuation then
        done ++ unplaced wide (n + 1)
      else (done ++ unplaced wide (n + 1)).set done.length (.cell cell.contents)) =
      done ++ (if wide then .wideContinuation else .cell cell.contents) :: List.replicate n (.cell "") := by
    cases wide with
    | true => rw [if_pos ⟨hw rfl, hat _ _⟩]; rfl
    | false =>
      have hne : ¬ (cell.contents = "" ∧ (done ++ unplaced false (n + 1))[done.length]? = some .wideContinuation) := by
        rw [unplaced, hat]
        simp
      rw [if_neg hne]
      exact hput _ _ _
  unfold placeInRow
  simp only [htext]
  cases hwide : cell.isWide with
  | false => rw [if_neg (by simp), unplaced_false]
  | true =>
    obtain ⟨k, rfl⟩ : ∃ k, n = k + 1 := ⟨n - 1, by have := hnext hwide; omega⟩
    rw [List.replicate_succ, if_pos ⟨rfl, hafter _ _ _⟩, hputAfter]
    rfl

/-- The cells of a row, placed one after another, give the rebuilt row. -/
theorem placeRow {r : Nat} {row : List RowCellSnap} (hf : Followed row) {wide : Bool}
    (hwide : wide = true → row.head?.any (·.isWideContinuation) = true) (done : List TextCell)
    (hlen : done.length + row.length ≤ 2 ^ 16) :
    (sparseRow r done.length row).foldl (fun acc p => placeInRow p.c p.cell acc) (done ++ unplaced wide row.length) =
      done ++ shownRow wide row := by
  induction row generalizing wide done with
  | nil => rfl
  | cons cell row ih =>
    obtain ⟨hnext, hempty, hrest⟩ := hf
    rw [List.length_cons] at hlen ⊢
    have hcont : wide = true → cell.isWideContinuation = true := by simpa using hwide
    have hmore : cell.isWide = true → 0 < row.length := by
      intro hw
      cases row with
      | nil => exact absurd (hnext hw) (by simp)
      | cons _ _ => exact Nat.succ_pos _
    have hstep : ∀ x : TextCell, (sparseRow r (done ++ [x]).length row).foldl (fun acc p => placeInRow p.c p.cell acc)
        (done ++ x :: unplaced cell.isWide row.length) = done ++ x :: shownRow cell.isWide row := by
      intro x
      have hi := ih hrest hnext (done ++ [x]) (by rw [List.length_append, List.length_singleton]; omega)
      simpa only [List.append_assoc, List.singleton_append] using hi
    simp only [List.length_append, List.length_singleton] at hstep
    unfold sparseRow
    by_cases hd : cell.isDefault = true
    · -- a default cell is neither wide nor a continuation
      have hplain : cell.isWide = false ∧ cell.isWideContinuation = false := by
        simp only [RowCellSnap.isDefault, Bool.and_eq_true, Bool.not_eq_true'] at hd
        exact ⟨hd.1.2, hd.2⟩
      have hw : wide = false := Bool.eq_false_iff.2 fun h => by simp [hcont h] at hplain
      subst hw
      rw [if_pos hd, shownRow, if_neg (by simp), if_pos hd, ← hstep, hplain.1, unplaced_false row.length]
      rfl
    · have hshown : (if wide then TextCell.wideContinuation else if cell.isDefault then .cell "" else .cell cell.contents) =
          if wide then .wideContinuation else .cell cell.contents := by rw [if_neg hd]
      have hc : (sentCell r done.length cell).c = done.length := asU16_of_lt (by omega)
      have hcell : (sentCell r done.length cell).cell =
          { text := cell.contents, attrs := cell.attrs, wide := cell.isWide } := rfl
      rw [if_neg hd, List.foldl_cons, hc, hcell, placeInRow_next (fun hw => hempty (hcont hw)) hmore, hstep, shownRow, hshown]

theorem modify_middle {α : Type} (done l : List α) (x : α) (f : α → α) :
    (done ++ x :: l).modify done.length f = done ++ f x :: l := by
  induction done with
  | nil => rfl
  | cons y done ih => rw [List.cons_append, List.length_cons, List.modify_succ_cons, ih, List.cons_append]

/-- The cells of the row `r` change only that row of the grid. -/
theorem place_sparseRow {rows cols r c : Nat} (hr : r < rows) (hrows : rows ≤ 2 ^ 16) {row : List RowCellSnap}
    (hc : c + row.length ≤ cols) (hcols : cols ≤ 2 ^ 16) (grid : List (List TextCell)) :
    (sparseRow r c row).foldl (place rows cols) grid =
      grid.modify r fun acc => (sparseRow r c row).foldl (fun acc p => placeInRow p.c p.cell acc) acc := by
  induction row generalizing c grid with
  | nil => exact (List.modify_id r grid).symm
  | cons cell row ih =>
    rw [List.length_cons] at hc
    unfold sparseRow
    split
    · exact ih (by omega) grid
    · rw [List.foldl_cons, ih (by omega)]
      have hplace : place rows cols grid (sentCell r c cell) =
          grid.modify r (placeInRow (sentCell r c cell).c (sentCell r c cell).cell) := by
        have hr' : (sentCell r c cell).r = r := asU16_of_lt (by omega)
        have hc' : (sentCell r c cell).c = c := asU16_of_lt (by omega)
        rw [place, if_neg (by rw [hr', hc']; omega), hr']
      rw [hplace, List.modify_modify_eq]
      rfl

/-- `to_text` rebuilds the grid row by row. -/
theorem place_sparseCells {cols : Nat} {rows : List (List RowCellSnap)} (hf : ∀ row ∈ rows, Followed row)
    (hlen : ∀ row ∈ rows, row.length = cols) (hcols : cols ≤ 2 ^ 16) (done : List (List TextCell))
    (hrows : done.length + rows.length ≤ 2 ^ 16) :
    (sparseCells done.length rows).foldl (place (done.length + rows.length) cols)
        (done ++ List.replicate rows.length (List.replicate cols (.cell ""))) =
      done ++ rows.map (shownRow false) := by
  induction rows generalizing done with
  | nil => simp [sparseCells]
  | cons row rows ih =>
    rw [List.length_cons] at hrows ⊢
    have hrow := hlen row List.mem_cons_self
    have hplaced : (done ++ List.replicate cols (TextCell.cell "") ::
        List.replicate rows.length (List.replicate cols (TextCell.cell ""))).modify
        done.length (fun acc => (sparseRow done.length 0 row).foldl (fun acc (p : CellPos) => placeInRow p.c p.cell acc) acc) =
        (done ++ [shownRow false row]) ++ List.replicate rows.length (List.replicate cols (TextCell.cell "")) := by
      have hpr := @placeRow done.length row (hf row List.mem_cons_self) false (by simp) [] (by simp; omega)
      simp only [List.length_nil, List.nil_append, unplaced_false, hrow] at hpr
      rw [modify_middle, hpr, List.append_assoc, List.singleton_append]
    have hi := ih (fun row h => hf row (List.mem_cons_of_mem _ h)) (fun row h => hlen row (List.mem_cons_of_mem _ h))
      (done ++ [shownRow false row]) (by simp; omega)
    rw [List.length_append, List.length_singleton] at hi
    have hsum : done.length + 1 + rows.length = done.length + (rows.length + 1) := by omega
    rw [hsum] at hi
    rw [sparseCells, List.foldl_append, place_sparseRow (by omega) hrows (by omega) hcols, List.replicate_succ, hplaced, hi,
      List.map_cons, List.append_assoc, List.singleton_append]

/-! ## The two texts -/

theorem length_readRow (s : ScreenState) (offset r : Nat) : (s.readRow offset r).length = s.cols := by
  simp [ScreenState.readRow]

theorem length_visible (s : ScreenState) : s.snapshotVisibleRows.length = s.rows := by
  simp [ScreenState.snapshotVisibleRows]

theorem length_of_mem_layerRows {s : ScreenState} {layer : ScreenDumpLayer} {row : List RowCellSnap}
    (h : row ∈ layerRows s layer) : row.length = s.cols := by
  have hvis : row ∈ s.snapshotVisibleRows → row.length = s.cols := by
    intro h
    obtain ⟨r, -, rfl⟩ := List.mem_map.1 h
    exact length_readRow s _ _
  have hsb : row ∈ s.snapshotScrollbackRows → row.length = s.cols := by
    intro h
    unfold ScreenState.snapshotScrollbackRows at h
    split at h
    · cases h
    · obtain ⟨offset, -, rfl⟩ := List.mem_map.1 h
      exact length_readRow s _ _
  cases layer with
  | visible => exact hvis h
  | scrollback => exact hsb h
  | both => exact (List.mem_append.1 h).elim hsb hvis

/-- Lines, each ended by a newline. -/
def ended (lines : List (List Char)) : List Char := lines.flatMap (· ++ ['\n'])

theorem intercalate_ended {lines : List (List Char)} (h : lines ≠ []) :
    ['\n'].intercalate lines ++ ['\n'] = ended lines := by
  induction lines with
  | nil => exact absurd rfl h
  | cons line lines ih =>
    cases lines with
    | nil => simp [ended]
    | cons next lines =>
      have hi := ih (by simp)
      rw [List.intercalate_cons_cons, List.append_assoc, List.append_assoc, hi]
      simp [ended]

theorem foldl_ended (rows : List (List RowCellSnap)) (out : String) :
    (rows.foldl (fun out row => out ++ rowText (row.map RowCellSnap.textCell) true ++ "\n") out).toList =
      out.toList ++ ended (rows.map fun row => trimmed (lineOf (row.map RowCellSnap.textCell))) := by
  induction rows generalizing out with
  | nil => simp [ended]
  | cons row rows ih => simp [ih, rowText_toList, ended]

/-- `to_text` of the snapshot joins the rebuilt rows. -/
theorem toText_receive {s : ScreenState} (hf : ∀ row ∈ s.snapshotVisibleRows, Followed row) :
    ((SnapshotCells.receive (buildScreenSnapshot s)).toText ++ "\n").toList =
      ended (s.snapshotVisibleRows.map fun row => trimmed (lineOf (shownRow false row))) := by
  obtain ⟨hr1, hr2⟩ := s.rows_range
  obtain ⟨hc1, hc2⟩ := s.cols_range
  unfold sizeMin at hr1 hc1
  unfold sizeMax at hr2 hc2
  have hcells : (SnapshotCells.receive (buildScreenSnapshot s)).cells = sparseCells 0 s.snapshotVisibleRows := by
    simp [SnapshotCells.receive, buildScreenSnapshot, snapshotOf]
  have hplace := place_sparseCells hf (fun row h => @length_of_mem_layerRows s .visible row h) (by omega) []
    (by rw [length_visible]; simp; omega)
  simp only [List.length_nil, Nat.zero_add, List.nil_append, length_visible] at hplace
  have hgrid : (SnapshotCells.receive (buildScreenSnapshot s)).toText =
      "\n".intercalate ((s.snapshotVisibleRows.map (shownRow false)).map (rowText · true)) := by
    unfold SnapshotCells.toText
    rw [if_neg, hcells]
    · exact congrArg (fun grid => "\n".intercalate (grid.map (rowText · true))) hplace
    · have hrows : (SnapshotCells.receive (buildScreenSnapshot s)).rows = s.rows := rfl
      have hcols : (SnapshotCells.receive (buildScreenSnapshot s)).cols = s.cols := rfl
      rw [hrows, hcols]
      omega
  have hne : s.snapshotVisibleRows.map (fun row => trimmed (lineOf (shownRow false row))) ≠ [] := by
    intro h
    have hlen := congrArg List.length h
    rw [List.length_map, length_visible, List.length_nil] at hlen
    omega
  rw [hgrid, String.toList_append, String.toList_intercalate, ← intercalate_ended hne, List.map_map, List.map_map]
  have hmap : (fun row => (rowText (shownRow false row) true).toList) =
      fun row => trimmed (lineOf (shownRow false row)) := funext fun row => rowText_toList _
  exact congrArg (fun lines => ['\n'].intercalate lines ++ ['\n']) (congrArg (List.map · _) hmap)

/-- `wait` matches the text that `screen dump` prints (which ends each row, also the last, with a newline). -/
def Agrees (s : ScreenState) : Prop :=
  buildPlainTextFromRows s.snapshotVisibleRows true = (SnapshotCells.receive (buildScreenSnapshot s)).toText ++ "\n"

theorem ended_length_le {α : Type} {f g : α → List Char} {l : List α} (h : ∀ a ∈ l, (f a).length ≤ (g a).length) :
    (ended (l.map f)).length ≤ (ended (l.map g)).length ∧
      ((ended (l.map f)).length = (ended (l.map g)).length → ∀ a ∈ l, (f a).length = (g a).length) := by
  induction l with
  | nil => exact ⟨Nat.le_refl _, fun _ _ ha => absurd ha (by simp)⟩
  | cons a l ih =>
    obtain ⟨hle, heq⟩ := ih fun b hb => h b (List.mem_cons_of_mem _ hb)
    have ha := h a List.mem_cons_self
    have hcons : ∀ k : α → List Char, (ended ((a :: l).map k)).length = (k a).length + 1 + (ended (l.map k)).length := by
      intro k
      simp only [ended, List.map_cons, List.flatMap_cons, List.length_append, List.length_singleton]
    rw [hcons, hcons]
    refine ⟨by omega, fun he b hb => ?_⟩
    rcases List.mem_cons.1 hb with rfl | hb
    · omega
    · exact heq (by omega) b hb

theorem agrees_iff {s : ScreenState} (hf : ∀ row ∈ s.snapshotVisibleRows, Followed row) :
    Agrees s ↔ ∀ row ∈ s.snapshotVisibleRows, OrphansBlank false row := by
  have hrow : ∀ row ∈ s.snapshotVisibleRows, _ := fun row h => @shownRow_trimmed row (hf row h) false (by simp)
  rw [Agrees, ← String.toList_inj, toText_receive hf, buildPlainTextFromRows, foldl_ended]
  simp only [String.toList_empty, List.nil_append]
  constructor
  · intro he row hmem
    have hlen := (ended_length_le fun row h => (hrow row h).1).2 (congrArg List.length he) row hmem
    exact (hrow row hmem).2.1 hlen
  · intro hob
    exact congrArg ended (List.map_congr_left fun row h => (hrow row h).2.2 (hob row h))

/-! ## Places -/

/-- The places of the cells of one row that are sent. -/
def drawnRow (r : Nat) : Nat → List RowCellSnap → List (Nat × Nat)
  | _, [] => []
  | c, cell :: row => if cell.isDefault then drawnRow r (c + 1) row else (r, c) :: drawnRow r (c + 1) row

def drawnCells : Nat → List (List RowCellSnap) → List (Nat × Nat)
  | _, [] => []
  | r, row :: rows => drawnRow r 0 row ++ drawnCells (r + 1) rows

/-- The cell at this place is sent. -/
def Drawn (rows : List (List RowCellSnap)) (i c : Nat) : Prop :=
  ∃ row cell, rows[i]? = some row ∧ row[c]? = some cell ∧ cell.isDefault = false

theorem mem_drawnRow {r c i k : Nat} {row : List RowCellSnap} :
    (i, k) ∈ drawnRow r c row ↔ i = r ∧ ∃ j cell, k = c + j ∧ row[j]? = some cell ∧ cell.isDefault = false := by
  induction row generalizing c with
  | nil => simp [drawnRow]
  | cons cell row ih =>
    have htail : (∃ j x, k = c + 1 + j ∧ row[j]? = some x ∧ x.isDefault = false) ↔
        ∃ j x, k = c + (j + 1) ∧ (cell :: row)[j + 1]? = some x ∧ x.isDefault = false := by
      simp only [List.getElem?_cons_succ, Nat.add_assoc, Nat.add_comm 1]
    have hsplit : (∃ j x, k = c + j ∧ (cell :: row)[j]? = some x ∧ x.isDefault = false) ↔
        (k = c ∧ cell.isDefault = false) ∨ ∃ j x, k = c + (j + 1) ∧ (cell :: row)[j + 1]? = some x ∧ x.isDefault = false := by
      constructor
      · rintro ⟨j, x, hk, hx, hd⟩
        cases j with
        | zero =>
          rw [List.getElem?_cons_zero, Option.some.injEq] at hx
          exact .inl ⟨hk, hx ▸ hd⟩
        | succ j => exact .inr ⟨j, x, hk, hx, hd⟩
      · rintro (⟨rfl, hd⟩ | ⟨j, x, h⟩)
        · exact ⟨0, cell, rfl, rfl, hd⟩
        · exact ⟨j + 1, x, h⟩
    rw [drawnRow, hsplit, ← htail]
    split
    · rename_i hd
      rw [ih]
      simp [hd]
    · rename_i hd
      rw [List.mem_cons, ih, Prod.mk.injEq]
      simp only [Bool.not_eq_true] at hd
      simp only [hd, and_true]
      exact and_or_left.symm

theorem nodup_drawnRow (r c : Nat) (row : List RowCellSnap) : (drawnRow r c row).Nodup := by
  induction row generalizing c with
  | nil => exact List.nodup_nil
  | cons cell row ih =>
    rw [drawnRow]
    split
    · exact ih _
    · refine List.nodup_cons.2 ⟨fun h => ?_, ih _⟩
      obtain ⟨-, j, -, hj, -⟩ := mem_drawnRow.1 h
      omega

theorem mem_drawnCells {r i c : Nat} {rows : List (List RowCellSnap)} :
    (i, c) ∈ drawnCells r rows ↔ ∃ j, i = r + j ∧ Drawn rows j c := by
  induction rows generalizing r with
  | nil => simp [drawnCells, Drawn]
  | cons row rows ih =>
    rw [drawnCells, List.mem_append, mem_drawnRow, ih]
    constructor
    · rintro (⟨rfl, j, cell, hj, hcell, hd⟩ | ⟨j, rfl, row', cell, hrow, hcell, hd⟩)
      · exact ⟨0, rfl, row, cell, rfl, by rw [hj, Nat.zero_add]; exact hcell, hd⟩
      · exact ⟨j + 1, by omega, row', cell, hrow, hcell, hd⟩
    · rintro ⟨j, rfl, row', cell, hrow, hcell, hd⟩
      cases j with
      | zero =>
        rw [List.getElem?_cons_zero, Option.some.injEq] at hrow
        exact .inl ⟨rfl, c, cell, (Nat.zero_add c).symm, hrow ▸ hcell, hd⟩
      | succ j => exact .inr ⟨j, by omega, row', cell, hrow, hcell, hd⟩

theorem nodup_drawnCells (r : Nat) (rows : List (List RowCellSnap)) : (drawnCells r rows).Nodup := by
  induction rows generalizing r with
  | nil => exact List.nodup_nil
  | cons row rows ih =>
    refine List.nodup_append.2 ⟨nodup_drawnRow r 0 row, ih _, ?_⟩
    rintro ⟨i, c⟩ hi ⟨i', c'⟩ hi' heq
    rw [Prod.mk.injEq] at heq
    obtain ⟨j, hj, -⟩ := mem_drawnCells.1 hi'
    have hir := (mem_drawnRow.1 hi).1
    omega

/-- Where a cell is said to stand. -/
def CellPos.place (p : CellPos) : Nat × Nat := (p.r, p.c)

theorem places_sparseRow (r c : Nat) (row : List RowCellSnap) :
    (sparseRow r c row).map CellPos.place = (drawnRow r c row).map fun q => (asU16 q.1, asU16 q.2) := by
  induction row generalizing c with
  | nil => rfl
  | cons cell row ih =>
    rw [sparseRow, drawnRow]
    split
    · exact ih _
    · rw [List.map_cons, List.map_cons, ih]
      rfl

theorem places_sparseCells (r : Nat) (rows : List (List RowCellSnap)) :
    (sparseCells r rows).map CellPos.place = (drawnCells r rows).map fun q => (asU16 q.1, asU16 q.2) := by
  induction rows generalizing r with
  | nil => rfl
  | cons row rows ih => rw [sparseCells, drawnCells, List.map_append, List.map_append, places_sparseRow, ih]

/-- The cells have distinct places within the declared size. -/
def ScreenSnapshot.WellPlaced (snap : ScreenSnapshot) : Prop :=
  (∀ p ∈ snap.cells, p.r < snap.rows ∧ p.c < snap.cols) ∧ (snap.cells.map CellPos.place).Nodup

/-- 16 bits are enough for the numbers of the rows: no row whose number is 65535 modulo 65536 has a cell that is sent,
and no two rows whose numbers are equal modulo 65536 have such cells in one column. -/
def RowNumbersFit (rows : List (List RowCellSnap)) : Prop :=
  (∀ i c, Drawn rows i c → i % 2 ^ 16 ≠ u16Max) ∧
    ∀ i j c, Drawn rows i c → Drawn rows j c → i % 2 ^ 16 = j % 2 ^ 16 → i = j

theorem Drawn.lt {rows : List (List RowCellSnap)} {i c cols : Nat} (h : Drawn rows i c)
    (hlen : ∀ row ∈ rows, row.length = cols) : i < rows.length ∧ c < cols := by
  obtain ⟨row, cell, hrow, hcell, -⟩ := h
  obtain ⟨hi, -⟩ := List.getElem?_eq_some_iff.1 hrow
  obtain ⟨hc, -⟩ := List.getElem?_eq_some_iff.1 hcell
  rw [hlen row (List.mem_of_getElem? hrow)] at hc
  exact ⟨hi, hc⟩

theorem wellPlaced_iff (s : ScreenState) (layer : ScreenDumpLayer) :
    (buildLayeredSnapshot s layer).WellPlaced ↔ RowNumbersFit (layerRows s layer) := by
  obtain ⟨hc1, hc2⟩ := s.cols_range
  obtain ⟨hr1, hr2⟩ := s.rows_range
  unfold sizeMax at hc2 hr2
  have hlen : ∀ row ∈ layerRows s layer, row.length = s.cols := fun row h => length_of_mem_layerRows h
  have hplaces := places_sparseCells 0 (layerRows s layer)
  have hmem : ∀ i c, (i, c) ∈ drawnCells 0 (layerRows s layer) ↔ Drawn (layerRows s layer) i c := by
    intro i c
    rw [mem_drawnCells]
    constructor
    · rintro ⟨j, hj, h⟩
      rw [Nat.zero_add] at hj
      exact hj ▸ h
    · exact fun h => ⟨i, (Nat.zero_add i).symm, h⟩
  have hheight : ∀ i c, Drawn (layerRows s layer) i c → (i % 2 ^ 16 < layerHeight s layer ↔ i % 2 ^ 16 ≠ u16Max) := by
    intro i c h
    have hi := (h.lt hlen).1
    have hother : layerHeight s layer = min (layerRows s layer).length (2 ^ 16 - 1) ∨
        layerHeight s layer = (layerRows s layer).length ∧ (layerRows s layer).length ≤ 4096 := by
      cases layer with
      | visible => exact .inr ⟨(length_visible s).symm, by rw [layerRows, length_visible]; exact hr2⟩
      | scrollback => exact .inl rfl
      | both => exact .inl rfl
    unfold u16Max
    omega
  constructor
  · rintro ⟨hin, hnodup⟩
    refine ⟨fun i c h => ?_, fun i j c hi hj hij => ?_⟩
    · have hplace : (asU16 i, asU16 c) ∈ (sparseCells 0 (layerRows s layer)).map CellPos.place := by
        rw [hplaces]
        exact List.mem_map.2 ⟨(i, c), (hmem i c).2 h, rfl⟩
      obtain ⟨p, hp, hpp⟩ := List.mem_map.1 hplace
      have hpr : p.r = asU16 i := congrArg Prod.fst hpp
      exact (hheight i c h).1 (lt_of_eq_of_lt hpr.symm (hin p hp).1)
    · have hnodup' : ((sparseCells 0 (layerRows s layer)).map CellPos.place).Nodup := hnodup
      rw [hplaces] at hnodup'
      have heq := List.inj_on_of_nodup_map hnodup' ((hmem i c).2 hi) ((hmem j c).2 hj) (Prod.ext hij rfl)
      exact congrArg Prod.fst heq
  · rintro ⟨hlast, hinj⟩
    have hcol : ∀ i c, Drawn (layerRows s layer) i c → asU16 c = c ∧ c < s.cols := fun i c h =>
      ⟨asU16_of_lt (by have := (h.lt hlen).2; omega), (h.lt hlen).2⟩
    refine ⟨fun p hp => ?_, ?_⟩
    · have hplace : p.place ∈ (drawnCells 0 (layerRows s layer)).map fun q => (asU16 q.1, asU16 q.2) := by
        rw [← hplaces]
        exact List.mem_map.2 ⟨p, hp, rfl⟩
      obtain ⟨⟨i, c⟩, hq, hpp⟩ := List.mem_map.1 hplace
      have hd := (hmem i c).1 hq
      have hpr : asU16 i = p.r := congrArg Prod.fst hpp
      have hpc : asU16 c = p.c := congrArg Prod.snd hpp
      refine ⟨?_, ?_⟩
      · rw [← hpr]
        exact (hheight i c hd).2 (hlast i c hd)
      · rw [← hpc, (hcol i c hd).1]
        exact (hcol i c hd).2
    · have hnodup : ((drawnCells 0 (layerRows s layer)).map fun q => (asU16 q.1, asU16 q.2)).Nodup := by
        refine List.Nodup.map_on ?_ (nodup_drawnCells 0 (layerRows s layer))
        rintro ⟨i, c⟩ hi ⟨j, d⟩ hj heq
        rw [Prod.mk.injEq] at heq
        have hdi := (hmem i c).1 hi
        have hdj := (hmem j d).1 hj
        have hcd : c = d := by rw [← (hcol i c hdi).1, ← (hcol j d hdj).1]; exact heq.2
        subst hcd
        rw [hinj i j c hdi hdj heq.1]
      rw [← hplaces] at hnodup
      exact hnodup

/-- On rows whose wide cells are followed by their continuation: `wait` matches the text of `screen dump`, and the
cells of every layered snapshot are well placed, just when no orphaned continuation cell has text after it and 16 bits
are enough for the row numbers of every layer. -/
theorem wait_agrees_with_dump (s : ScreenState) (hf : ∀ row ∈ s.snapshotVisibleRows, Followed row) :
    (Agrees s ∧ ∀ layer, (buildLayeredSnapshot s layer).WellPlaced) ↔
      (∀ row ∈ s.snapshotVisibleRows, OrphansBlank false row) ∧ ∀ layer, RowNumbersFit (layerRows s layer) := by
  rw [agrees_iff hf]
  simp only [wellPlaced_iff]

def letterX : VtCell :=
  { contents := "x", isWide := false, isWideContinuation := false, bold := false, italic := false, underline := false
    inverse := false, dim := false, fg := .default, bg := .default }

/-- A terminal of one row and one column with an `x` in every row, and so many rows of scrollback. -/
def tall (ring : Nat) : ScreenState :=
  { rows := 1, cols := 1, rows_range := by decide, cols_range := by decide, offset := 0, scrollbackLen := 100000, ring
    cell := fun _ _ _ => some letterX
    cursor := { row := 0, col := 0, visible := true }
    mode := { alternateScreen := false, applicationKeypad := false, applicationCursor := false, bracketedPaste := false
              hideCursor := false }
    currentSeqno := 0 }

theorem tall_visible (ring : Nat) : (tall ring).snapshotVisibleRows = [[.fromCell letterX]] := rfl

theorem tall_scrollback (ring : Nat) :
    (tall ring).snapshotScrollbackRows = List.replicate ring [.fromCell letterX] := by
  have hrow : ∀ offset, (tall ring).readRow offset 0 = [.fromCell letterX] := fun _ => rfl
  have hlen : (tall ring).scrollbackLen ≠ 0 := Nat.succ_ne_zero 99999
  simp only [ScreenState.snapshotScrollbackRows, if_neg hlen, hrow]
  rw [List.map_const', List.length_reverse, List.length_range']
  rfl

theorem tall_followed (ring : Nat) : ∀ row ∈ (tall ring).snapshotVisibleRows, Followed row := by
  rw [tall_visible]
  simp [Followed, RowCellSnap.fromCell, letterX]

/-- A screen whose text `wait` and `dump` agree on, with every layer well placed. -/
theorem wait_agrees_with_dump_small : Agrees (tall 0) ∧ ∀ layer, (buildLayeredSnapshot (tall 0) layer).WellPlaced := by
  refine (wait_agrees_with_dump (tall 0) (tall_followed 0)).2 ⟨?_, fun layer => ?_⟩
  · rw [tall_visible]
    simp [OrphansBlank]
  · have hshort : (layerRows (tall 0) layer).length ≤ 1 := by
      cases layer <;> simp [layerRows, tall_visible, tall_scrollback]
    refine ⟨fun i c h => ?_, fun i j c hi hj _ => ?_⟩
    · have hi := (h.lt fun row hr => length_of_mem_layerRows hr).1
      unfold u16Max
      omega
    · have hi := (hi.lt fun row hr => length_of_mem_layerRows hr).1
      have hj := (hj.lt fun row hr => length_of_mem_layerRows hr).1
      omega

/-- With 65536 rows of scrollback the last one has the number 65535, and 65535 rows are declared. -/
theorem row_numbers_overflow : ¬ ∀ s : ScreenState, (∀ layer, ∀ row ∈ layerRows s layer, Followed row) →
    Agrees s ∧ ∀ layer, (buildLayeredSnapshot s layer).WellPlaced := by
  intro hall
  have hplain : ∀ row, row = [RowCellSnap.fromCell letterX] → Followed row := by
    rintro row rfl
    simp [Followed, RowCellSnap.fromCell, letterX]
  have hwell := (hall (tall 65536) ?_).2 .scrollback
  · have hfit := (wellPlaced_iff (tall 65536) .scrollback).1 hwell
    refine hfit.1 65535 0 ⟨[.fromCell letterX], .fromCell letterX, ?_, rfl, rfl⟩ rfl
    rw [layerRows, tall_scrollback, List.getElem?_replicate]
    rfl
  · intro layer row hrow
    refine hplain row ?_
    have hvis : row ∈ (tall 65536).snapshotVisibleRows → row = [.fromCell letterX] := by
      rw [tall_visible]
      exact List.mem_singleton.1
    have hsb : row ∈ (tall 65536).snapshotScrollbackRows → row = [.fromCell letterX] := by
      rw [tall_scrollback]
      exact fun h => (List.mem_replicate.1 h).2
    cases layer with
    | visible => exact hvis hrow
    | scrollback => exact hsb hrow
    | both => exact (List.mem_append.1 hrow).elim hsb hvis

end Hyoui.Screen
