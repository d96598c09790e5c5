import Mathlib.Data.List.Basic
import Mathlib.Tactic.IntervalCases
/-!
# Reading styled text

A terminal takes text in which `ESC [ … m` selects how the characters after it look, and keeps the
selection until the next one. `Reader` is such a terminal, without a size: it splits the text into lines
and gives every character the style that was selected when it came. `feed_sgr` is what a selection does to
it, `feed_plain` what text does.
-/

namespace Hyoui.Lib.Sgr

/-! ## Styles -/

inductive Colour where
  | default
  | indexed (i : Nat)
  | rgb (r g b : Nat)
deriving DecidableEq

structure Style where
  bold : Bool := false
  dim : Bool := false
  italic : Bool := false
  underline : Bool := false
  inverse : Bool := false
  fg : Colour := .default
  bg : Colour := .default
deriving DecidableEq

/-- One parameter that stands for itself. -/
def selectOne (s : Style) (p : Nat) : Style :=
  if p = 0 then {}
  else if p = 1 then { s with bold := true }
  else if p = 2 then { s with dim := true }
  else if p = 3 then { s with italic := true }
  else if p = 4 then { s with underline := true }
  else if p = 7 then { s with inverse := true }
  else if p = 22 then { s with bold := false, dim := false }
  else if p = 23 then { s with italic := false }
  else if p = 24 then { s with underline := false }
  else if p = 27 then { s with inverse := false }
  else if 30 ≤ p ∧ p ≤ 37 then { s with fg := .indexed (p - 30) }
  else if p = 39 then { s with fg := .default }
  else if 40 ≤ p ∧ p ≤ 47 then { s with bg := .indexed (p - 40) }
  else if p = 49 then { s with bg := .default }
  else if 90 ≤ p ∧ p ≤ 97 then { s with fg := .indexed (p - 90 + 8) }
  else if 100 ≤ p ∧ p ≤ 107 then { s with bg := .indexed (p - 100 + 8) }
  else s

/-- Select graphic rendition: the parameters of one sequence, from the left. -/
def select (s : Style) : List Nat → Style
  | [] => s
  | 38 :: 5 :: i :: ps => select { s with fg := .indexed i } ps
  | 38 :: 2 :: r :: g :: b :: ps => select { s with fg := .rgb r g b } ps
  | 48 :: 5 :: i :: ps => select { s with bg := .indexed i } ps
  | 48 :: 2 :: r :: g :: b :: ps => select { s with bg := .rgb r g b } ps
  | p :: ps => select (selectOne s p) ps

/-! The sixteen colours that have parameters of their own. -/

section Sixteen
variable (s : Style) {i : Nat}

theorem select_fg (h : i < 8) : select s [30 + i] = { s with fg := .indexed i } := by
  interval_cases i <;> rfl

theorem select_fg_bright (h : i < 8) : select s [90 + i] = { s with fg := .indexed (i + 8) } := by
  interval_cases i <;> rfl

theorem select_bg (h : i < 8) : select s [40 + i] = { s with bg := .indexed i } := by
  interval_cases i <;> rfl

theorem select_bg_bright (h : i < 8) : select s [100 + i] = { s with bg := .indexed (i + 8) } := by
  interval_cases i <;> rfl

end Sixteen

/-! ## The reader -/

def esc : Char := Char.ofNat 0x1b
def carriageReturn : Char := Char.ofNat 0x0d
def lineFeed : Char := Char.ofNat 0x0a

/-- A character that is shown. -/
def Plain (c : Char) : Prop := c ≠ esc ∧ c ≠ carriageReturn ∧ c ≠ lineFeed

instance : DecidablePred Plain := fun _ => inferInstanceAs (Decidable (_ ∧ _))

/-- Where the reader is in a sequence: after `ESC`, or in the parameters. -/
inductive Mode where
  | text
  | escape
  | csi (params : List Nat) (current : Nat)
deriving DecidableEq

structure Reader where
  style : Style := {}
  line : List (Char × Style) := []
  lines : List (List (Char × Style)) := []
  mode : Mode := .text
deriving DecidableEq

namespace Reader

/-- Every sequence but the selections is skipped. -/
def feed (r : Reader) (c : Char) : Reader :=
  match r.mode with
  | .text =>
    if c = esc then { r with mode := .escape }
    else if c = carriageReturn then r
    else if c = lineFeed then { r with line := [], lines := r.lines ++ [r.line] }
    else { r with line := r.line ++ [(c, r.style)] }
  | .escape => if c = '[' then { r with mode := .csi [] 0 } else { r with mode := .text }
  | .csi params current =>
    if c.isDigit then { r with mode := .csi params (10 * current + (c.toNat - '0'.toNat)) }
    else if c = ';' then { r with mode := .csi (params ++ [current]) 0 }
    else if c = 'm' then { r with mode := .text, style := select r.style (params ++ [current]) }
    else { r with mode := .text }

def feedAll (r : Reader) (text : List Char) : Reader := text.foldl feed r

@[simp] theorem feedAll_nil (r : Reader) : r.feedAll [] = r := rfl

@[simp] theorem feedAll_cons (r : Reader) (c : Char) (text : List Char) :
    r.feedAll (c :: text) = (r.feed c).feedAll text := rfl

theorem feedAll_append (r : Reader) (text more : List Char) :
    r.feedAll (text ++ more) = (r.feedAll text).feedAll more := List.foldl_append

/-- The lines read so far, the last one if anything stands in it. -/
def read (r : Reader) : List (List (Char × Style)) := if r.line = [] then r.lines else r.lines ++ [r.line]

end Reader

/-! ## What it makes of sequences and text -/

variable {r : Reader}

theorem feed_plain (h : r.mode = .text) {text : List Char} (hplain : ∀ c ∈ text, Plain c) :
    r.feedAll text = { r with line := r.line ++ text.map (·, r.style) } := by
  induction text generalizing r with
  | nil => simp
  | cons c text ih =>
    obtain ⟨⟨hesc, hcr, hlf⟩, htext⟩ := List.forall_mem_cons.1 hplain
    have hfeed : r.feed c = { r with line := r.line ++ [(c, r.style)] } := by
      simp only [Reader.feed, h, if_neg hesc, if_neg hcr, if_neg hlf]
    rw [Reader.feedAll_cons, hfeed, ih (by exact h) htext]
    simp

/-- The end of a line. -/
theorem feed_newline (h : r.mode = .text) :
    r.feedAll [carriageReturn, lineFeed] = { r with line := [], lines := r.lines ++ [r.line] } := by
  have hcr : r.feed carriageReturn = r := by simp [Reader.feed, h, esc, carriageReturn]
  rw [Reader.feedAll_cons, hcr]
  simp [Reader.feed, h, esc, carriageReturn, lineFeed]

/-- Digits add up to the number they write. -/
theorem feed_digits {params : List Nat} {current : Nat} (h : r.mode = .csi params current) {digits : List Char}
    (hdigits : ∀ c ∈ digits, c.isDigit = true) :
    r.feedAll digits = { r with mode := .csi params (Nat.ofDigitChars 10 digits current) } := by
  induction digits generalizing r current with
  | nil =>
    rw [Reader.feedAll_nil, Nat.ofDigitChars_nil, ← h]
  | cons c digits ih =>
    obtain ⟨hc, hdigits⟩ := List.forall_mem_cons.1 hdigits
    have hfeed : r.feed c = { r with mode := .csi params (10 * current + (c.toNat - '0'.toNat)) } := by
      simp only [Reader.feed, h, hc, if_true]
    rw [Reader.feedAll_cons, hfeed, Nat.ofDigitChars_cons]
    exact ih rfl hdigits

/-- A selection as it is written: the parameters in decimal. -/
def sequence (params : List Nat) : List Char :=
  esc :: '[' :: ([';'].intercalate (params.map (Nat.toDigits 10)) ++ ['m'])

theorem feed_number {params : List Nat} (h : r.mode = .csi params 0) (n : Nat) :
    r.feedAll (Nat.toDigits 10 n) = { r with mode := .csi params n } := by
  rw [feed_digits h fun c hc => Nat.isDigit_of_mem_toDigits (by decide) (by decide) hc, Nat.ofDigitChars_ten_toDigits]

theorem feed_params {params : List Nat} (h : r.mode = .csi params 0) (p : Nat) (ps : List Nat) :
    r.feedAll ([';'].intercalate ((p :: ps).map (Nat.toDigits 10)) ++ ['m']) =
      { r with mode := .text, style := select r.style (params ++ p :: ps) } := by
  induction ps generalizing r params p with
  | nil =>
    rw [List.map_cons, List.map_nil, List.intercalate_singleton, Reader.feedAll_append, feed_number h]
    simp [Reader.feed]
  | cons q ps ih =>
    have hsemi : Reader.feed { r with mode := .csi params p } ';' = { r with mode := .csi (params ++ [p]) 0 } := by
      simp [Reader.feed]
    rw [List.map_cons, List.map_cons, List.intercalate_cons_cons, List.append_assoc, List.append_assoc,
      Reader.feedAll_append, feed_number h, List.cons_append, Reader.feedAll_cons, hsemi, List.nil_append,
      ← List.map_cons, ih rfl]
    simp

theorem feed_sequence (h : r.mode = .text) (p : Nat) (ps : List Nat) :
    r.feedAll (sequence (p :: ps)) = { r with style := select r.style (p :: ps) } := by
  have hesc : r.feed esc = { r with mode := .escape } := by simp only [Reader.feed, h, if_true]
  have hopen : Reader.feed { r with mode := .escape } '[' = { r with mode := .csi [] 0 } := rfl
  rw [sequence, Reader.feedAll_cons, hesc, Reader.feedAll_cons, hopen, feed_params rfl]
  rw [List.nil_append, ← h]

end Hyoui.Lib.Sgr
