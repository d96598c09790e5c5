import Hyoui.Lib.Sgr
import Hyoui.Screen.Snapshot
/-!
# The screen as ANSI text

`rows_to_ansi` writes the rows of a dump with the selections that colour them, and writes a selection only
where the style changes. `rows_to_ansi_read` says that nothing is lost: a terminal that reads the bytes
shows, line by line, the text of every cell in the style of that cell.
-/

namespace Hyoui.Screen

open Hyoui.Lib Hyoui.Lib.Sgr

/-! ## The encoder -/

/-- The bytes of a text. -/
def utf8 (text : String) : List UInt8 := text.toByteArray.data.toList

def sameStyle (a b : RowCellSnap) : Bool := a.attrs = b.attrs && a.dim = b.dim && a.fg = b.fg && a.bg = b.bg

/-- `base` and `brightBase` begin the parameters of the colours 0-7 and 8-15, `ext` says that a colour follows. -/
def writeColorSgr (out : List UInt8) (color : Color) (base brightBase ext : UInt8) : List UInt8 :=
  match color with
  | .default => out
  | .idx i =>
    if i < 8 then out ++ utf8 ("\x1b[" ++ toString (base + i) ++ "m")
    else if i < 16 then out ++ utf8 ("\x1b[" ++ toString (brightBase + (i - 8)) ++ "m")
    else out ++ utf8 ("\x1b[" ++ toString ext ++ ";5;" ++ toString i ++ "m")
  | .rgb r g b =>
    out ++ utf8 ("\x1b[" ++ toString ext ++ ";2;" ++ toString r ++ ";" ++ toString g ++ ";" ++ toString b ++ "m")

/-- `cell.attrs & (1 << i) != 0` -/
def RowCellSnap.hasAttr (cell : RowCellSnap) (i : UInt8) : Bool := cell.attrs &&& (1 <<< i) != 0

/-- Reset, then the style of `cell`. -/
def writeSgr (out : List UInt8) (cell : RowCellSnap) : List UInt8 :=
  let out := out ++ utf8 "\x1b[0m"
  let out := if cell.hasAttr 0 then out ++ utf8 "\x1b[1m" else out
  let out := if cell.dim then out ++ utf8 "\x1b[2m" else out
  let out := if cell.hasAttr 1 then out ++ utf8 "\x1b[3m" else out
  let out := if cell.hasAttr 2 then out ++ utf8 "\x1b[4m" else out
  let out := if cell.hasAttr 3 then out ++ utf8 "\x1b[7m" else out
  let out := writeColorSgr out cell.fg 30 90 38
  writeColorSgr out cell.bg 40 100 48

/-- One turn of the inner loop: the bytes written so far and the cell whose style is selected. -/
def writeCell (state : List UInt8 × RowCellSnap) (cell : RowCellSnap) : List UInt8 × RowCellSnap :=
  if cell.isWideContinuation then state
  else
    let (out, prev) := if !sameStyle cell state.2 then (writeSgr state.1 cell, cell) else state
    (if cell.contents = "" then out ++ utf8 " " else out ++ utf8 cell.contents, prev)

def writeRow (state : List UInt8 × RowCellSnap) (row : List RowCellSnap) : List UInt8 × RowCellSnap :=
  let (out, prev) := row.foldl writeCell state
  (out ++ utf8 "\r\n", prev)

def rowsToAnsi (rows : List (List RowCellSnap)) : List UInt8 :=
  let (out, prev) := rows.foldl writeRow (utf8 "\x1b[H", .blank)
  if !sameStyle prev .blank then out ++ utf8 "\x1b[0m" else out

/-! ## What a terminal is to show -/

def Color.colour : Color → Colour
  | .default => .default
  | .idx i => .indexed i.toNat
  | .rgb r g b => .rgb r.toNat g.toNat b.toNat

namespace RowCellSnap

/-- The bits of `attrs` as `RowCellSnap` numbers them, and the rest of the style. -/
def style (cell : RowCellSnap) : Style where
  bold := cell.hasAttr 0
  dim := cell.dim
  italic := cell.hasAttr 1
  underline := cell.hasAttr 2
  inverse := cell.hasAttr 3
  fg := cell.fg.colour
  bg := cell.bg.colour

/-- The characters of a cell, an empty one as a space, in its style. -/
def shown (cell : RowCellSnap) : List (Char × Style) :=
  if cell.isWideContinuation then []
  else (if cell.contents = "" then " " else cell.contents).toList.map (·, cell.style)

theorem hasAttr_fromCell (cell : VtCell) :
    (fromCell cell).hasAttr 0 = cell.bold ∧ (fromCell cell).hasAttr 1 = cell.italic ∧
      (fromCell cell).hasAttr 2 = cell.underline ∧ (fromCell cell).hasAttr 3 = cell.inverse := by
  simp only [hasAttr, fromCell]
  generalize cell.bold = bold, cell.italic = italic, cell.underline = underline, cell.inverse = inverse
  revert bold italic underline inverse
  decide +kernel

/-- The style is that of the terminal's cell. -/
theorem style_fromCell (cell : VtCell) : (fromCell cell).style =
    { bold := cell.bold, dim := cell.dim, italic := cell.italic, underline := cell.underline,
      inverse := cell.inverse, fg := cell.fg.colour, bg := cell.bg.colour } := by
  obtain ⟨hbold, hitalic, hunderline, hinverse⟩ := hasAttr_fromCell cell
  rw [style, hbold, hitalic, hunderline, hinverse]
  rfl

end RowCellSnap

/-- The lines a terminal shows for some bytes, if they are text. -/
def readAnsi (out : List UInt8) : Option (List (List (Char × Style))) :=
  (String.fromUTF8? ⟨out.toArray⟩).map fun text => (Reader.feedAll {} text.toList).read

/-! ## Bytes and what is read of them -/

theorem utf8_append (text more : String) : utf8 (text ++ more) = utf8 text ++ utf8 more := by
  simp [utf8, String.toByteArray_append, ByteArray.data_append]

theorem readAnsi_utf8 (text : String) : readAnsi (utf8 text) = some (Reader.feedAll {} text.toList).read := by
  have hbytes : (⟨(utf8 text).toArray⟩ : ByteArray) = text.toByteArray := by simp [utf8]
  rw [readAnsi, hbytes, String.fromUTF8?, dif_pos text.isValidUTF8]
  rfl

/-- The bytes are text, and a terminal that has read it is at `r`. -/
def Painted (out : List UInt8) (r : Reader) : Prop :=
  ∃ text : String, out = utf8 text ∧ Reader.feedAll {} text.toList = r

section Drawing
variable {out : List UInt8} {r : Reader}

theorem Painted.write (h : Painted out r) (text : String) : Painted (out ++ utf8 text) (r.feedAll text.toList) := by
  obtain ⟨before, rfl, rfl⟩ := h
  exact ⟨before ++ text, (utf8_append before text).symm, by rw [String.toList_append, Reader.feedAll_append]⟩

theorem Painted.read (h : Painted out r) : readAnsi out = some r.read := by
  obtain ⟨text, rfl, rfl⟩ := h
  exact readAnsi_utf8 text

/-- A selection is written. -/
theorem Painted.select (h : Painted out r) (hmode : r.mode = .text) {text : String} {p : Nat} {ps : List Nat}
    (htext : text.toList = Sgr.sequence (p :: ps)) :
    Painted (out ++ utf8 text) { r with style := Sgr.select r.style (p :: ps) } := by
  have hdrawn := h.write text
  rwa [htext, feed_sequence hmode] at hdrawn

/-- A selection that is written only where it applies. -/
theorem Painted.selectIf (h : Painted out r) (hmode : r.mode = .text) (p : Bool) (text : String) (n : Nat)
    (htext : text.toList = Sgr.sequence [n]) :
    Painted (if p then out ++ utf8 text else out) { r with style := if p then selectOne r.style n else r.style } := by
  cases p with
  | true =>
    have hone : Sgr.select r.style [n] = selectOne r.style n := by simp [Sgr.select]
    have hdrawn := h.select hmode htext
    rwa [hone] at hdrawn
  | false => exact h

theorem toString_toList (n : UInt8) : (toString n).toList = Nat.toDigits 10 n.toNat := Nat.toList_repr

/-- `\x1b[{n}m` -/
theorem sequence_one (n : UInt8) : ("\x1b[" ++ toString n ++ "m").toList = Sgr.sequence [n.toNat] := by
  simp [String.toList_append, toString_toList, Sgr.sequence, esc]

theorem sequence_indexed (ext i : UInt8) :
    ("\x1b[" ++ toString ext ++ ";5;" ++ toString i ++ "m").toList = Sgr.sequence [ext.toNat, 5, i.toNat] := by
  have hfive : Nat.toDigits 10 5 = ['5'] := Nat.toDigits_of_lt_base (by decide)
  simp [String.toList_append, toString_toList, Sgr.sequence, esc, List.intercalate_cons_cons, hfive]

theorem sequence_rgb (ext r g b : UInt8) :
    ("\x1b[" ++ toString ext ++ ";2;" ++ toString r ++ ";" ++ toString g ++ ";" ++ toString b ++ "m").toList =
      Sgr.sequence [ext.toNat, 2, r.toNat, g.toNat, b.toNat] := by
  have htwo : Nat.toDigits 10 2 = ['2'] := Nat.toDigits_of_lt_base (by decide)
  simp [String.toList_append, toString_toList, Sgr.sequence, esc, List.intercalate_cons_cons, htwo]

theorem toNat_add_low {base i : UInt8} (hbase : base.toNat ≤ 100) (hi : i < 8) :
    (base + i).toNat = base.toNat + i.toNat := by
  have hlt : i.toNat < 8 := hi
  rw [UInt8.toNat_add]
  omega

/-- The bright colours are counted from 8. -/
theorem toNat_sub_eight {i : UInt8} (hlow : 8 ≤ i) (hhigh : i < 16) : i - 8 < 8 ∧ (i - 8).toNat + 8 = i.toNat := by
  have hge : 8 ≤ i.toNat := hlow
  have hlt : i.toNat < 16 := hhigh
  have hsub : (i - 8).toNat = i.toNat - 8 := UInt8.toNat_sub_of_le _ _ hlow
  refine ⟨?_, by omega⟩
  rw [UInt8.lt_iff_toNat_lt, hsub]
  exact (by omega : i.toNat - 8 < 8)

/-- A colour is written where it is not the default; `put` is the style with a colour in place. -/
theorem Painted.color (h : Painted out r) (hmode : r.mode = .text) (color : Color) {base brightBase ext : UInt8}
    (put : Colour → Style) (hdefault : put .default = r.style) (hrange : base.toNat ≤ 100 ∧ brightBase.toNat ≤ 100)
    (hbase : ∀ i < 8, Sgr.select r.style [base.toNat + i] = put (.indexed i))
    (hbright : ∀ i < 8, Sgr.select r.style [brightBase.toNat + i] = put (.indexed (i + 8)))
    (hindexed : ∀ i, Sgr.select r.style [ext.toNat, 5, i] = put (.indexed i))
    (hrgb : ∀ r' g b, Sgr.select r.style [ext.toNat, 2, r', g, b] = put (.rgb r' g b)) :
    Painted (writeColorSgr out color base brightBase ext) { r with style := put color.colour } := by
  unfold writeColorSgr
  split
  · rw [Color.colour, hdefault]
    exact h
  · rename_i i
    rw [Color.colour]
    split
    · rename_i hlow
      rw [← hbase i.toNat hlow, ← toNat_add_low hrange.1 hlow]
      exact h.select hmode (sequence_one _)
    · rename_i hlow
      split
      · rename_i hhigh
        obtain ⟨hlt, hsum⟩ := toNat_sub_eight (UInt8.not_lt.1 hlow) hhigh
        rw [← hsum, ← hbright (i - 8).toNat hlt, ← toNat_add_low hrange.2 hlt]
        exact h.select hmode (sequence_one _)
      · rw [← hindexed]
        exact h.select hmode (sequence_indexed ext i)
  · rename_i r' g b
    rw [Color.colour, ← hrgb]
    exact h.select hmode (sequence_rgb ext r' g b)

theorem Painted.foreground (h : Painted out r) (hmode : r.mode = .text) (hfg : r.style.fg = .default) (color : Color) :
    Painted (writeColorSgr out color 30 90 38) { r with style := { r.style with fg := color.colour } } :=
  h.color hmode color (fun c => { r.style with fg := c }) (by rw [← hfg]) (by decide)
    (fun _ hi => select_fg r.style hi) (fun _ hi => select_fg_bright r.style hi) (fun _ => rfl) fun _ _ _ => rfl

theorem Painted.background (h : Painted out r) (hmode : r.mode = .text) (hbg : r.style.bg = .default) (color : Color) :
    Painted (writeColorSgr out color 40 100 48) { r with style := { r.style with bg := color.colour } } :=
  h.color hmode color (fun c => { r.style with bg := c }) (by rw [← hbg]) (by decide)
    (fun _ hi => select_bg r.style hi) (fun _ hi => select_bg_bright r.style hi) (fun _ => rfl) fun _ _ _ => rfl

theorem Painted.reset (h : Painted out r) (hmode : r.mode = .text) :
    Painted (out ++ utf8 "\x1b[0m") { r with style := {} } := by
  have htext : "\x1b[0m".toList = Sgr.sequence [0] := by decide
  exact h.select hmode htext

/-- The attributes that are selected one after the other. -/
def flags (bold dim italic underline inverse : Bool) : Style :=
  let s : Style := if bold then selectOne {} 1 else {}
  let s := if dim then selectOne s 2 else s
  let s := if italic then selectOne s 3 else s
  let s := if underline then selectOne s 4 else s
  if inverse then selectOne s 7 else s

theorem flags_eq : ∀ bold dim italic underline inverse : Bool,
    flags bold dim italic underline inverse = { bold, dim, italic, underline, inverse } := by decide

/-- Whatever was selected before, the style of the cell is selected after. -/
theorem Painted.writeSgr (h : Painted out r) (hmode : r.mode = .text) (cell : RowCellSnap) :
    Painted (writeSgr out cell) { r with style := cell.style } := by
  have hbold := (h.reset hmode).selectIf hmode (cell.hasAttr 0) "\x1b[1m" 1 (by decide)
  have hdim := hbold.selectIf hmode cell.dim "\x1b[2m" 2 (by decide)
  have hitalic := hdim.selectIf hmode (cell.hasAttr 1) "\x1b[3m" 3 (by decide)
  have hunderline := hitalic.selectIf hmode (cell.hasAttr 2) "\x1b[4m" 4 (by decide)
  have hinverse := hunderline.selectIf hmode (cell.hasAttr 3) "\x1b[7m" 7 (by decide)
  have hflags := flags_eq (cell.hasAttr 0) cell.dim (cell.hasAttr 1) (cell.hasAttr 2) (cell.hasAttr 3)
  simp only [flags] at hflags
  rw [hflags] at hinverse
  exact (hinverse.foreground hmode rfl cell.fg).background hmode rfl cell.bg

/-! ## The rows -/

theorem style_eq {a b : RowCellSnap} (h : sameStyle a b = true) : a.style = b.style := by
  simp only [sameStyle, Bool.and_eq_true, decide_eq_true_eq] at h
  obtain ⟨⟨⟨hattrs, hdim⟩, hfg⟩, hbg⟩ := h
  simp only [RowCellSnap.style, RowCellSnap.hasAttr, hattrs, hdim, hfg, hbg]

/-- The terminal keeps no control characters in its cells: what they hold is shown. -/
def Shows (cell : RowCellSnap) : Prop := ∀ c ∈ cell.contents.toList, Plain c

instance : DecidablePred Shows := fun cell => List.decidableBAll Plain cell.contents.toList

/-- After some cells of a row: what is written shows them, and the style of `prev` is selected. -/
structure Showing (state : List UInt8 × RowCellSnap) (r : Reader) : Prop where
  painted : Painted state.1 r
  mode : r.mode = .text
  style : r.style = state.2.style

theorem Painted.text (h : Painted out r) (hmode : r.mode = .text) {text : String} (hplain : ∀ c ∈ text.toList, Plain c) :
    Painted (out ++ utf8 text) { r with line := r.line ++ text.toList.map (·, r.style) } := by
  have hpainted := h.write text
  rwa [feed_plain hmode hplain] at hpainted

/-- Before the text of a cell its style is selected, by a sequence or by a cell before it. -/
theorem Showing.selects {state : List UInt8 × RowCellSnap} (h : Showing state r) (cell : RowCellSnap) :
    Showing (if !sameStyle cell state.2 then (writeSgr state.1 cell, cell) else state) { r with style := cell.style } := by
  cases hsame : sameStyle cell state.2 with
  | true =>
    have hstyle : r.style = cell.style := h.style.trans (style_eq hsame).symm
    refine ⟨?_, h.mode, style_eq hsame⟩
    rw [← hstyle]
    exact h.painted
  | false => exact ⟨h.painted.writeSgr h.mode cell, h.mode, rfl⟩

theorem Showing.writeCell {state : List UInt8 × RowCellSnap} (h : Showing state r) {cell : RowCellSnap}
    (hcell : Shows cell) : ∃ style, Showing (writeCell state cell) { r with line := r.line ++ cell.shown, style } := by
  unfold Screen.writeCell RowCellSnap.shown
  split
  · refine ⟨r.style, ?_⟩
    rw [List.append_nil]
    exact h
  · have hselects := h.selects cell
    generalize (if !sameStyle cell state.2 then (writeSgr state.1 cell, cell) else state) = selected at hselects ⊢
    refine ⟨cell.style, ?_, h.mode, hselects.style⟩
    dsimp only
    split
    · refine hselects.painted.text h.mode fun c hc => ?_
      have hspace : " ".toList = [' '] := by decide
      rw [hspace, List.mem_singleton] at hc
      rw [hc]
      decide
    · exact hselects.painted.text h.mode hcell

theorem Showing.writeCells {state : List UInt8 × RowCellSnap} (h : Showing state r) {row : List RowCellSnap}
    (hrow : ∀ cell ∈ row, Shows cell) :
    ∃ style, Showing (row.foldl Screen.writeCell state)
      { r with line := r.line ++ row.flatMap RowCellSnap.shown, style } := by
  induction row generalizing state r with
  | nil =>
    refine ⟨r.style, ?_⟩
    rw [List.flatMap_nil, List.append_nil]
    exact h
  | cons cell row ih =>
    obtain ⟨hcell, hrow⟩ := List.forall_mem_cons.1 hrow
    obtain ⟨style, hwritten⟩ := h.writeCell hcell
    obtain ⟨style', hrest⟩ := ih hwritten hrow
    refine ⟨style', ?_⟩
    rw [List.flatMap_cons, ← List.append_assoc]
    exact hrest

/-- A row of the dump is a line on the terminal; the style goes on into the next. -/
theorem Showing.writeRow {state : List UInt8 × RowCellSnap} (h : Showing state r) (hline : r.line = [])
    {row : List RowCellSnap} (hrow : ∀ cell ∈ row, Shows cell) :
    ∃ style, Showing (writeRow state row)
      { r with line := [], lines := r.lines ++ [row.flatMap RowCellSnap.shown], style } := by
  obtain ⟨style, hcells⟩ := h.writeCells hrow
  refine ⟨style, ?_, h.mode, hcells.style⟩
  have hnewline := hcells.painted.write "\r\n"
  have htext : "\r\n".toList = [carriageReturn, lineFeed] := by decide
  rw [htext, feed_newline (by exact h.mode), hline, List.nil_append] at hnewline
  exact hnewline

theorem Showing.writeRows {state : List UInt8 × RowCellSnap} (h : Showing state r) (hline : r.line = [])
    {rows : List (List RowCellSnap)} (hrows : ∀ row ∈ rows, ∀ cell ∈ row, Shows cell) :
    ∃ style, Showing (rows.foldl Screen.writeRow state)
      { r with lines := r.lines ++ rows.map (·.flatMap RowCellSnap.shown), style } := by
  induction rows generalizing state r with
  | nil =>
    refine ⟨r.style, ?_⟩
    rw [List.map_nil, List.append_nil]
    exact h
  | cons row rows ih =>
    obtain ⟨hrow, hrows⟩ := List.forall_mem_cons.1 hrows
    obtain ⟨style, hwritten⟩ := h.writeRow hline hrow
    obtain ⟨style', hrest⟩ := ih hwritten rfl hrows
    refine ⟨style', ?_⟩
    simp only [List.append_assoc, ← hline] at hrest
    exact hrest

end Drawing

/-- A terminal that reads the dump shows, line by line, the text of each cell (an empty one as a space) in the
style of that cell, whatever stands beside or above it. -/
theorem rows_to_ansi_read (rows : List (List RowCellSnap)) (h : ∀ row ∈ rows, ∀ cell ∈ row, Shows cell) :
    readAnsi (rowsToAnsi rows) = some (rows.map (·.flatMap RowCellSnap.shown)) := by
  have hhome : Showing (utf8 "\x1b[H", .blank) {} := ⟨⟨"\x1b[H", rfl, by decide⟩, rfl, rfl⟩
  obtain ⟨style, hshowing⟩ := hhome.writeRows rfl h
  unfold rowsToAnsi
  dsimp only
  split
  · rw [(hshowing.painted.reset rfl).read]
    rfl
  · rw [hshowing.painted.read]
    rfl

/-- A bold and dim wide character in red beside an empty cell, and a row that begins inverse on a colour of its own. -/
def twoRows : List (List RowCellSnap) := [
  [{ RowCellSnap.blank with contents := "語", isWide := true, attrs := 1, dim := true, fg := .idx 9 },
    { RowCellSnap.blank with isWideContinuation := true }, .blank],
  [{ RowCellSnap.blank with contents := "x", attrs := 8, bg := .rgb 1 20 255 }, { RowCellSnap.blank with contents := "y" }]]

theorem rows_to_ansi_read_two : readAnsi (rowsToAnsi twoRows) = some [
    [('語', { bold := true, dim := true, fg := .indexed 9 }), (' ', {})],
    [('x', { inverse := true, bg := .rgb 1 20 255 }), ('y', {})]] :=
  rows_to_ansi_read twoRows (by decide)

end Hyoui.Screen
