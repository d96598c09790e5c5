import Hyoui.Screen.InputLog
/-!
# The screen state

`ScreenState.process` feeds one read of the child's output to the emulator and, where the primary
screen is active afterwards, to the input log. The emulator is outside: it takes one byte after
another and says which screen is active.

A byte belongs to one screen or the other. The log holds the bytes of the primary screen exactly
when no read mixes bytes of the two.
-/

namespace Hyoui.Screen.State

open Hyoui.Lib
open Hyoui.Protocol

/-- `vt100::Parser`, as far as the state around it asks. -/
structure Vt (V : Type) where
  step : V → UInt8 → V
  alternateScreen : V → Bool

namespace Vt

variable {V : Type} (P : Vt V)

def process (v : V) (bytes : Bytes) : V := bytes.foldl P.step v

/-- Whether a byte belongs to the alternate screen. A byte that switches is the last of the screen it
leaves, or (`leaving = false`) the first of the one it enters. -/
def onAlternate (leaving : Bool) (v : V) (b : UInt8) : Bool :=
  P.alternateScreen (if leaving then v else P.step v b)

def screens (leaving : Bool) : V → Bytes → List Bool
  | _, [] => []
  | v, b :: rest => P.onAlternate leaving v b :: screens leaving (P.step v b) rest

/-- The bytes of the primary screen. -/
def primaryBytes (leaving : Bool) : V → Bytes → Bytes
  | _, [] => []
  | v, b :: rest =>
    if P.onAlternate leaving v b then primaryBytes leaving (P.step v b) rest
    else b :: primaryBytes leaving (P.step v b) rest

/-- Every read holds only bytes of the screen that is active at its end. -/
def OneScreen (leaving : Bool) : V → List Bytes → Prop
  | _, [] => True
  | v, c :: cs => (∀ alt ∈ P.screens leaving v c, alt = P.alternateScreen (P.process v c)) ∧
      OneScreen leaving (P.process v c) cs

section Screens

variable {P} {leaving : Bool} {v : V}

theorem primaryBytes_append (xs ys : Bytes) :
    P.primaryBytes leaving v (xs ++ ys) = P.primaryBytes leaving v xs ++ P.primaryBytes leaving (P.process v xs) ys := by
  induction xs generalizing v with
  | nil => rfl
  | cons b xs ih =>
    rw [List.cons_append, primaryBytes, primaryBytes]
    split
    · exact ih
    · rw [ih]
      rfl

theorem primaryBytes_length_le (c : Bytes) : (P.primaryBytes leaving v c).length ≤ c.length := by
  induction c generalizing v with
  | nil => exact le_refl 0
  | cons b c ih =>
    rw [primaryBytes]
    split
    · exact Nat.le_succ_of_le ih
    · exact Nat.succ_le_succ ih

theorem primaryBytes_eq_nil (c : Bytes) :
    P.primaryBytes leaving v c = [] ↔ ∀ alt ∈ P.screens leaving v c, alt = true := by
  induction c generalizing v with
  | nil => exact ⟨fun _ _ h => absurd h List.not_mem_nil, fun _ => rfl⟩
  | cons b c ih =>
    rw [primaryBytes, screens, List.forall_mem_cons]
    split <;> rename_i halt
    · exact ⟨fun h => ⟨halt, ih.1 h⟩, fun h => ih.2 h.2⟩
    · constructor
      · intro h
        cases h
      · intro h
        exact absurd h.1 halt

theorem primaryBytes_eq_self (c : Bytes) :
    P.primaryBytes leaving v c = c ↔ ∀ alt ∈ P.screens leaving v c, alt = false := by
  induction c generalizing v with
  | nil => exact ⟨fun _ _ h => absurd h List.not_mem_nil, fun _ => rfl⟩
  | cons b c ih =>
    rw [primaryBytes, screens, List.forall_mem_cons]
    split <;> rename_i halt
    · constructor
      · intro h
        -- a byte is missing
        have hle : (P.primaryBytes leaving (P.step v b) c).length ≤ c.length := primaryBytes_length_le c
        rw [h, List.length_cons] at hle
        omega
      · intro h
        rw [halt] at h
        cases h.1
    · rw [List.cons_inj_right, ih]
      exact ⟨fun h => ⟨Bool.eq_false_iff.2 halt, h⟩, fun h => h.2⟩

/-- A read on one screen is logged as it should be. -/
theorem oneScreen_read (c : Bytes) :
    (if P.alternateScreen (P.process v c) then [] else c) = P.primaryBytes leaving v c ↔
      ∀ alt ∈ P.screens leaving v c, alt = P.alternateScreen (P.process v c) := by
  cases P.alternateScreen (P.process v c) with
  | true => exact eq_comm.trans (primaryBytes_eq_nil c)
  | false => exact eq_comm.trans (primaryBytes_eq_self c)

end Screens

end Vt

/-! ## Synchronized updates -/

/-- The loop of `find_last_subseq`, from byte `i` on. -/
def findLastFrom (needle : Bytes) (i : Nat) (haystack : Bytes) (last : Option Nat) : Option Nat :=
  if _h : needle ≠ [] ∧ needle.length ≤ haystack.length then
    if haystack.take needle.length = needle then
      findLastFrom needle (i + needle.length) (haystack.drop needle.length) (some i)
    else findLastFrom needle (i + 1) (haystack.drop 1) last
  else last
termination_by haystack.length
decreasing_by
  all_goals
    have hpos := List.length_pos_iff.2 _h.1
    simp only [List.length_drop]
    omega

def findLastSubseq (haystack needle : Bytes) : Option Nat := findLastFrom needle 0 haystack none

def syncScanCarryLen : Nat := 7

/-- `ESC [ ? 2026 h` -/
def syncOn : Bytes := [0x1b, 0x5b, 0x3f, 0x32, 0x30, 0x32, 0x36, 0x68]

/-- `ESC [ ? 2026 l` -/
def syncOff : Bytes := [0x1b, 0x5b, 0x3f, 0x32, 0x30, 0x32, 0x36, 0x6c]

def updateSyncFlagWithCarry (flag : Bool) (carry bytes : Bytes) : Bool × Bytes :=
  if bytes.isEmpty then (flag, carry)
  else
    let combined := carry ++ bytes
    let flag := match findLastSubseq combined syncOn, findLastSubseq combined syncOff with
      | none, none => flag
      | some _, none => true
      | none, some _ => false
      | some a, some b => decide (a > b)
    (flag, combined.drop (combined.length - min combined.length syncScanCarryLen))

/-! ## The state -/

structure ScreenState (V : Type) where
  parser : V
  syncInProgress : Bool := false
  syncScanCarry : Bytes := []
  inputLog : InputLog
  currentSeqno : Nat := 0

namespace ScreenState

variable {V : Type} (P : Vt V)

def withInputLogCapacity (parser : V) (capacity : Nat) : ScreenState V := { parser, inputLog := .new capacity }

def process (s : ScreenState V) (bytes : Bytes) : ScreenState V :=
  if bytes.isEmpty then s
  else
    let parser := P.process s.parser bytes
    let (syncInProgress, syncScanCarry) := updateSyncFlagWithCarry s.syncInProgress s.syncScanCarry bytes
    let alt := P.alternateScreen parser
    { parser, syncInProgress, syncScanCarry
      inputLog := (s.inputLog.setAltMode alt).push bytes
      currentSeqno := (s.currentSeqno + 1) % 2 ^ 64 }

/-- One read after another. -/
def feed (s : ScreenState V) (chunks : List Bytes) : ScreenState V := chunks.foldl (process P) s

/-- The reads the log takes: those that end on the primary screen. -/
def loggedBytes : V → List Bytes → Bytes
  | _, [] => []
  | v, c :: cs => (if P.alternateScreen (P.process v c) then [] else c) ++ loggedBytes (P.process v c) cs

variable {P}

theorem parser_process (s : ScreenState V) (bytes : Bytes) : (s.process P bytes).parser = P.process s.parser bytes := by
  unfold process
  split
  · rename_i hempty
    rw [List.isEmpty_iff] at hempty
    rw [hempty]
    rfl
  · rfl

theorem process_log {s : ScreenState V} (hfits : s.inputLog.Fits) (bytes : Bytes) :
    (s.process P bytes).inputLog.ring =
      (s.inputLog.ring ++ if P.alternateScreen (P.process s.parser bytes) then [] else bytes).rtake s.inputLog.capacity := by
  have hsame : s.inputLog.ring = s.inputLog.ring.rtake s.inputLog.capacity := (rtake_of_length_le hfits).symm
  unfold process
  split
  · rename_i hempty
    rw [List.isEmpty_iff] at hempty
    rw [hempty, ite_self, List.append_nil]
    exact hsame
  · cases halt : P.alternateScreen (P.process s.parser bytes) with
    | true =>
      rw [if_pos rfl, List.append_nil]
      have hskip : (s.inputLog.setAltMode true).inAltScreen = true := rfl
      refine Eq.trans ?_ hsame
      simp only [halt, InputLog.push_alternate hskip]
      rfl
    | false =>
      rw [if_neg Bool.false_ne_true]
      simp only [halt]
      exact InputLog.push_primary (InputLog.setAltMode_fits hfits) rfl bytes

theorem process_capacity (s : ScreenState V) (bytes : Bytes) :
    (s.process P bytes).inputLog.capacity = s.inputLog.capacity := by
  unfold process
  split
  · rfl
  · exact InputLog.push_capacity _ _

theorem process_fits {s : ScreenState V} (hfits : s.inputLog.Fits) (bytes : Bytes) :
    (s.process P bytes).inputLog.Fits := by
  unfold process
  split
  · exact hfits
  · exact InputLog.push_fits (InputLog.setAltMode_fits hfits) bytes

/-- Over any reads the log holds the last bytes of the reads it took. -/
theorem feed_log {s : ScreenState V} (hfits : s.inputLog.Fits) (chunks : List Bytes) :
    (s.feed P chunks).inputLog.ring = (s.inputLog.ring ++ loggedBytes P s.parser chunks).rtake s.inputLog.capacity := by
  induction chunks generalizing s with
  | nil =>
    rw [loggedBytes, List.append_nil]
    exact (rtake_of_length_le hfits).symm
  | cons c cs ih =>
    have hstep : s.feed P (c :: cs) = (s.process P c).feed P cs := rfl
    rw [hstep, ih (process_fits hfits c), process_capacity, parser_process, process_log hfits,
      rtake_append_rtake, List.append_assoc, loggedBytes]

theorem loggedBytes_iff {leaving : Bool} {v : V} (chunks : List Bytes) :
    (∀ pre, pre <+: chunks → loggedBytes P v pre = P.primaryBytes leaving v pre.flatten) ↔
      P.OneScreen leaving v chunks := by
  induction chunks generalizing v with
  | nil =>
    constructor
    · exact fun _ => trivial
    · intro _ pre hpre
      rw [List.prefix_nil.1 hpre]
      rfl
  | cons c cs ih =>
    rw [Vt.OneScreen, ← Vt.oneScreen_read, ← ih]
    constructor
    · intro h
      have hread : (if P.alternateScreen (P.process v c) then [] else c) = P.primaryBytes leaving v c := by
        have hone := h [c] ⟨cs, rfl⟩
        rwa [loggedBytes, loggedBytes, List.append_nil, List.flatten_singleton] at hone
      refine ⟨hread, fun pre hpre => ?_⟩
      have hmore := h (c :: pre) (List.cons_prefix_cons.2 ⟨rfl, hpre⟩)
      rw [loggedBytes, List.flatten_cons, Vt.primaryBytes_append, hread] at hmore
      exact List.append_cancel_left hmore
    · rintro ⟨hread, hrest⟩ pre hpre
      cases pre with
      | nil => rfl
      | cons d pre =>
        obtain ⟨rfl, hrestPre⟩ := List.cons_prefix_cons.1 hpre
        rw [loggedBytes, List.flatten_cons, Vt.primaryBytes_append, hread, hrest pre hrestPre]

/-- At every point of a run and for every capacity the log holds the last bytes of the primary
screen, exactly when every read holds only bytes of the screen that is active at its end. -/
theorem feed_logs_primary_iff (P : Vt V) (leaving : Bool) (v : V) (chunks : List Bytes) :
    (∀ capacity pre, pre <+: chunks →
        ((withInputLogCapacity v capacity).feed P pre).inputLog.ring =
          (P.primaryBytes leaving v pre.flatten).rtake capacity) ↔
      P.OneScreen leaving v chunks := by
  have hlog : ∀ capacity pre, ((withInputLogCapacity v capacity).feed P pre).inputLog.ring =
      (loggedBytes P v pre).rtake capacity := fun capacity pre => feed_log (InputLog.new_fits capacity) pre
  rw [← loggedBytes_iff]
  constructor
  · intro h pre hpre
    have hlarge := h (max (loggedBytes P v pre).length (P.primaryBytes leaving v pre.flatten).length) pre hpre
    rwa [hlog, rtake_of_length_le (le_max_left _ _), rtake_of_length_le (le_max_right _ _)] at hlarge
  · intro h capacity pre hpre
    rw [hlog, h pre hpre]

/-! ## A read that mixes the screens -/

/-- An emulator that knows `ESC [ ? 1049 h` and `ESC [ ? 1049 l`: the screen, and what it has seen
of an escape. -/
def vt1049 : Vt (Bool × Bytes) where
  step v b :=
    let seen := if b = 0x1b then [b] else v.2 ++ [b]
    if seen = [0x1b, 0x5b, 0x3f, 0x31, 0x30, 0x34, 0x39, 0x68] then (true, [])
    else if seen = [0x1b, 0x5b, 0x3f, 0x31, 0x30, 0x34, 0x39, 0x6c] then (false, [])
    else (v.1, seen)
  alternateScreen v := v.1

/-- `A ESC [ ? 1049 h B`, in one read. -/
def mixedRead : Bytes := [0x41, 0x1b, 0x5b, 0x3f, 0x31, 0x30, 0x34, 0x39, 0x68, 0x42]

/-- Nothing of it is logged, not even the `A`, whichever screen the switching byte belongs to. -/
theorem feed_mixedRead :
    ((withInputLogCapacity (false, []) 16).feed vt1049 [mixedRead]).inputLog.ring ≠
        (vt1049.primaryBytes true (false, []) mixedRead).rtake 16 ∧
      ((withInputLogCapacity (false, []) 16).feed vt1049 [mixedRead]).inputLog.ring ≠
        (vt1049.primaryBytes false (false, []) mixedRead).rtake 16 := by
  decide

end ScreenState

end Hyoui.Screen.State
