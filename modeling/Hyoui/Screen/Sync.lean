import Hyoui.Screen.State
import Hyoui.Daemon.World
import Hyoui.Lib.Search
/-!
# Synchronized updates

A program opens and closes a synchronized update by two markers in its output. The screen keeps the last
bytes it was fed, so that it finds a marker however the output is cut. A resize makes a new emulator and
feeds it the input log, but the markers in the log are not looked at: the update is taken for closed.
-/

namespace Hyoui.Screen.State

open Hyoui.Protocol Hyoui.Lib Hyoui.Daemon

/-! ## The last occurrence -/

section Last

variable {needle xs : Bytes} {i p : Nat} {last : Option Nat}

/-- The last occurrence of `needle` begins after `p` bytes. -/
def LastAt (needle xs : Bytes) (p : Nat) : Prop := needle <+: xs.drop p ∧ ∀ q, p < q → ¬ needle <+: xs.drop q

/-- A marker begins with a byte that is nowhere else in it. -/
def Marker (needle : Bytes) : Prop := ∃ b rest, needle = b :: rest ∧ b ∉ rest

/-- Occurrences of a marker do not overlap. -/
theorem Marker.apart (hm : Marker needle) (h : needle <+: xs) {q : Nat} (hpos : 0 < q) (hlt : q < needle.length) :
    ¬ needle <+: xs.drop q := by
  obtain ⟨b, rest, rfl, hb⟩ := hm
  obtain ⟨more, rfl⟩ := h
  obtain ⟨q, rfl⟩ := Nat.exists_eq_succ_of_ne_zero (Nat.pos_iff_ne_zero.1 hpos)
  rw [List.cons_append, List.drop_succ_cons]
  intro hpre
  have hq : q < rest.length := by simpa using hlt
  rw [List.drop_append_of_le_length (le_of_lt hq), List.drop_eq_getElem_cons hq] at hpre
  exact hb ((List.cons_prefix_cons.1 hpre).1 ▸ List.getElem_mem hq)

theorem LastAt.of_drop {n : Nat} (h : LastAt needle (xs.drop n) p) : LastAt needle xs (n + p) := by
  refine ⟨by rw [← List.drop_drop]; exact h.1, fun q hq => ?_⟩
  obtain ⟨d, rfl⟩ := Nat.exists_eq_add_of_le (show n ≤ q by omega)
  rw [← List.drop_drop]
  exact h.2 d (by omega)

/-- The search finds the last occurrence. -/
theorem findLastFrom_spec (hm : Marker needle) (i : Nat) (xs : Bytes) (last : Option Nat) :
    (∃ p, LastAt needle xs p ∧ findLastFrom needle i xs last = some (i + p)) ∨
      ((∀ p, ¬ needle <+: xs.drop p) ∧ findLastFrom needle i xs last = last) := by
  induction i, xs, last using findLastFrom.induct needle with
  | case1 i xs last hfit hhere ih =>
    rw [findLastFrom, dif_pos hfit, if_pos hhere]
    rcases ih with ⟨p, hp, hres⟩ | ⟨hnone, hres⟩
    · exact .inl ⟨needle.length + p, hp.of_drop, by rw [hres, Nat.add_assoc]⟩
    · have hfirst : needle <+: xs := List.prefix_iff_eq_take.2 hhere.symm
      refine .inl ⟨0, ⟨hfirst, fun q hq => ?_⟩, hres⟩
      rcases Nat.lt_or_ge q needle.length with hlt | hge
      · exact hm.apart hfirst hq hlt
      · obtain ⟨d, rfl⟩ := Nat.exists_eq_add_of_le hge
        rw [← List.drop_drop]
        exact hnone d
  | case2 i xs last hfit hhere ih =>
    rw [findLastFrom, dif_pos hfit, if_neg hhere]
    rcases ih with ⟨p, hp, hres⟩ | ⟨hnone, hres⟩
    · exact .inl ⟨1 + p, hp.of_drop, by rw [hres, Nat.add_assoc]⟩
    · refine .inr ⟨fun p => ?_, hres⟩
      cases p with
      | zero => exact fun hfirst => hhere (List.prefix_iff_eq_take.1 hfirst).symm
      | succ p =>
        rw [Nat.add_comm, ← List.drop_drop]
        exact hnone p
  | case3 i xs last hfit =>
    rw [findLastFrom, dif_neg hfit]
    refine .inr ⟨fun p hpre => hfit ⟨?_, ?_⟩, rfl⟩
    · obtain ⟨b, rest, rfl, -⟩ := hm
      exact List.cons_ne_nil b rest
    · have hle := hpre.length_le
      rw [List.length_drop] at hle
      omega

theorem findLastSubseq_some (hm : Marker needle) {p : Nat} (h : findLastSubseq xs needle = some p) : LastAt needle xs p := by
  rcases findLastFrom_spec hm 0 xs none with ⟨q, hq, hres⟩ | ⟨-, hres⟩
  · rw [findLastSubseq, hres, Nat.zero_add] at h
    rwa [← Option.some.inj h]
  · rw [findLastSubseq, hres] at h
    cases h

theorem findLastSubseq_none (hm : Marker needle) (h : findLastSubseq xs needle = none) (p : Nat) :
    ¬ needle <+: xs.drop p := by
  rcases findLastFrom_spec hm 0 xs none with ⟨q, -, hres⟩ | ⟨hnone, -⟩
  · rw [findLastSubseq, hres] at h
    cases h
  · exact hnone p

theorem syncOn_marker : Marker syncOn := ⟨0x1b, _, rfl, by decide⟩

theorem syncOff_marker : Marker syncOff := ⟨0x1b, _, rfl, by decide⟩

end Last

/-! ## An update is open -/

/-- The last complete marker is a begin: one begins an update, and none ends it afterwards. -/
def Updating (xs : Bytes) : Prop :=
  ∃ p < xs.length, syncOn <+: xs.drop p ∧ ∀ q < xs.length, p < q → ¬ syncOff <+: xs.drop q

instance (xs : Bytes) : Decidable (Updating xs) :=
  inferInstanceAs (Decidable (∃ p < xs.length, _ ∧ ∀ q < xs.length, _ → ¬ _))

section Updating

variable {xs ys : Bytes} {p : Nat}

theorem lt_of_marker {needle : Bytes} (hm : Marker needle) (h : needle <+: xs.drop p) : p < xs.length := by
  obtain ⟨b, rest, rfl, -⟩ := hm
  have hle := h.length_le
  rw [List.length_drop, List.length_cons] at hle
  omega

theorem updating_iff : Updating xs ↔ ∃ p, syncOn <+: xs.drop p ∧ ∀ q, p < q → ¬ syncOff <+: xs.drop q := by
  constructor
  · rintro ⟨p, -, hon, hoff⟩
    exact ⟨p, hon, fun q hq h => hoff q (lt_of_marker syncOff_marker h) hq h⟩
  · rintro ⟨p, hon, hoff⟩
    exact ⟨p, lt_of_marker syncOn_marker hon, hon, fun q _ hq => hoff q hq⟩

/-- An update opened in the last part of the output is open. -/
theorem Updating.append (h : Updating ys) (xs : Bytes) : Updating (xs ++ ys) := by
  obtain ⟨p, hon, hoff⟩ := updating_iff.1 h
  refine updating_iff.2 ⟨xs.length + p, ?_, fun q hq => ?_⟩
  · rwa [← List.drop_drop, List.drop_left]
  · obtain ⟨d, rfl⟩ := Nat.exists_eq_add_of_le (show xs.length ≤ q by omega)
    rw [← List.drop_drop, List.drop_left]
    exact hoff d (by omega)

end Updating

/-! ## The flag over the reads -/

section Reads

variable {needle seen bytes : Bytes} {p : Nat} {flag : Bool}

/-- A marker that begins before the carried bytes is all in what was seen. -/
theorem marker_front (hlen : needle.length = syncScanCarryLen + 1) (hp : p < seen.length - syncScanCarryLen) :
    needle <+: (seen ++ bytes).drop p ↔ needle <+: seen.drop p := by
  rw [List.drop_append_of_le_length (by omega)]
  constructor
  · intro h
    exact List.prefix_of_prefix_length_le h (List.prefix_append _ _) (by rw [hlen, List.length_drop]; omega)
  · intro h
    exact h.trans (List.prefix_append _ _)

/-- A marker that was seen whole begins before the carried bytes. -/
theorem marker_seen (hlen : needle.length = syncScanCarryLen + 1) (h : needle <+: seen.drop p) :
    p < seen.length - syncScanCarryLen := by
  have hle := h.length_le
  rw [hlen, List.length_drop] at hle
  omega

/-- Any other begins in the window that is searched. -/
theorem window_eq (seen bytes : Bytes) :
    seen.rtake syncScanCarryLen ++ bytes = (seen ++ bytes).drop (seen.length - syncScanCarryLen) := by
  rw [List.drop_append_of_le_length (Nat.sub_le _ _), List.rtake]

theorem syncOn_ne_off (h : syncOn <+: seen) : ¬ syncOff <+: seen := by
  intro hoff
  have heq := (List.prefix_iff_eq_take.1 h).trans (List.prefix_iff_eq_take.1 hoff).symm
  cases heq

/-- Without a new marker an update is open as before. -/
theorem updating_unmarked (hon : ∀ p, ¬ syncOn <+: (seen ++ bytes).drop (seen.length - syncScanCarryLen + p))
    (hoff : ∀ p, ¬ syncOff <+: (seen ++ bytes).drop (seen.length - syncScanCarryLen + p)) :
    Updating (seen ++ bytes) ↔ Updating seen := by
  have hold : ∀ {needle : Bytes}, (∀ p, ¬ needle <+: (seen ++ bytes).drop (seen.length - syncScanCarryLen + p)) →
      ∀ {p}, needle <+: (seen ++ bytes).drop p → p < seen.length - syncScanCarryLen := by
    intro needle hnone p hp
    by_contra hlate
    obtain ⟨q, rfl⟩ := Nat.exists_eq_add_of_le (Nat.not_lt.1 hlate)
    exact hnone q hp
  rw [updating_iff, updating_iff]
  constructor
  · rintro ⟨p, hp, hnone⟩
    refine ⟨p, (marker_front rfl (hold hon hp)).1 hp, fun q hq hend => hnone q hq ?_⟩
    exact (marker_front rfl (marker_seen rfl hend)).2 hend
  · rintro ⟨p, hp, hnone⟩
    refine ⟨p, (marker_front rfl (marker_seen rfl hp)).2 hp, fun q hq hend => hnone q hq ?_⟩
    exact (marker_front rfl (hold hoff hend)).1 hend

/-- One read: the flag is as the markers so far say. -/
theorem updateSyncFlag_iff (h : flag = true ↔ Updating seen) (hne : ¬ bytes.isEmpty = true) :
    (updateSyncFlagWithCarry flag (seen.rtake syncScanCarryLen) bytes).1 = true ↔ Updating (seen ++ bytes) := by
  simp only [updateSyncFlagWithCarry, if_neg hne, window_eq]
  set d := seen.length - syncScanCarryLen
  cases hon : findLastSubseq ((seen ++ bytes).drop d) syncOn with
  | none =>
    have hnoOn := findLastSubseq_none syncOn_marker hon
    cases hoff : findLastSubseq ((seen ++ bytes).drop d) syncOff with
    | none =>
      have hnoOff := findLastSubseq_none syncOff_marker hoff
      rw [updating_unmarked (by simpa only [List.drop_drop] using hnoOn) (by simpa only [List.drop_drop] using hnoOff)]
      exact h
    | some b =>
      obtain ⟨hend, -⟩ := (findLastSubseq_some syncOff_marker hoff).of_drop
      refine ⟨fun hcontra => absurd hcontra Bool.false_ne_true, fun hopen => ?_⟩
      obtain ⟨p, hp, hnone⟩ := updating_iff.1 hopen
      refine absurd hend (hnone (d + b) ?_)
      by_contra hlate
      obtain ⟨q, rfl⟩ := Nat.exists_eq_add_of_le (show d ≤ p by omega)
      rw [← List.drop_drop] at hp
      exact hnoOn q hp
  | some a =>
    obtain ⟨hbegin, hlast⟩ := (findLastSubseq_some syncOn_marker hon).of_drop
    cases hoff : findLastSubseq ((seen ++ bytes).drop d) syncOff with
    | none =>
      have hnoOff := findLastSubseq_none syncOff_marker hoff
      refine ⟨fun _ => updating_iff.2 ⟨d + a, hbegin, fun q hq hend => ?_⟩, fun _ => rfl⟩
      obtain ⟨r, rfl⟩ := Nat.exists_eq_add_of_le (show d ≤ q by omega)
      rw [← List.drop_drop] at hend
      exact hnoOff r hend
    | some b =>
      obtain ⟨hend, hlastEnd⟩ := (findLastSubseq_some syncOff_marker hoff).of_drop
      rw [decide_eq_true_eq, updating_iff]
      constructor
      · intro hgt
        exact ⟨d + a, hbegin, fun q hq => hlastEnd q (by omega)⟩
      · rintro ⟨p, hp, hnone⟩
        have hple : p ≤ d + a := Nat.not_lt.1 fun hlt => hlast p hlt hp
        have hble : d + b ≤ p := Nat.not_lt.1 fun hlt => hnone _ hlt hend
        rcases Nat.lt_or_eq_of_le (show b ≤ a by omega) with hlt | rfl
        · exact hlt
        · exact absurd hend (syncOn_ne_off hbegin)

/-- One read: its last bytes are carried. -/
theorem updateSyncFlag_carry (flag : Bool) (seen bytes : Bytes) (hne : ¬ bytes.isEmpty = true) :
    (updateSyncFlagWithCarry flag (seen.rtake syncScanCarryLen) bytes).2 = (seen ++ bytes).rtake syncScanCarryLen := by
  have hlast : ∀ window : Bytes, window.drop (window.length - min window.length syncScanCarryLen) =
      window.rtake syncScanCarryLen := by
    intro window
    rw [List.rtake]
    congr 1
    omega
  simp only [updateSyncFlagWithCarry, if_neg hne]
  rw [hlast, rtake_append_rtake]

end Reads

/-! ## Resizes -/

namespace ScreenState

variable {V : Type} (P : Vt V) (fresh : Nat → Nat → V)

/-- `ESC [ ? 1049 h` -/
def enterAlternate : Bytes := [0x1b, 0x5b, 0x3f, 0x31, 0x30, 0x34, 0x39, 0x68]

/-- `fresh rows cols` is a new emulator of this size. -/
def resize (s : ScreenState V) (rows cols : Nat) : ScreenState V :=
  let (cols, rows) := normalizeSize cols rows
  let wasAlt := P.alternateScreen s.parser
  let (parser, inputLog) :=
    if wasAlt then (P.process (fresh rows cols) enterAlternate, s.inputLog.setAltMode true)
    else if !s.inputLog.ring.isEmpty then (P.process (fresh rows cols) s.inputLog.ring, s.inputLog.setAltMode false)
    else (fresh rows cols, s.inputLog)
  { s with parser, inputLog, syncInProgress := false, syncScanCarry := [] }

def apply (s : ScreenState V) : ScreenOp → ScreenState V
  | .process bytes => s.process P bytes
  | .resize rows cols => s.resize P fresh rows cols

/-- Reads and resizes, in any order. -/
def run (s : ScreenState V) (ops : List ScreenOp) : ScreenState V := ops.foldl (apply P fresh) s

/-- The bytes of the reads. -/
def written (ops : List ScreenOp) : Bytes := ops.flatMap fun
  | .process bytes => bytes
  | .resize .. => []

def isRead : ScreenOp → Bool
  | .process _ => true
  | .resize .. => false

/-- The bytes read since the last resize. -/
def writtenSince (ops : List ScreenOp) : Bytes := written (ops.rtakeWhile isRead)

variable {P fresh}

theorem written_read (ops : List ScreenOp) (bytes : Bytes) : written (ops ++ [.process bytes]) = written ops ++ bytes := by
  rw [written, List.flatMap_append, List.flatMap_singleton]
  rfl

theorem written_suffix {ops ops' : List ScreenOp} (h : ops <:+ ops') : written ops <:+ written ops' := by
  obtain ⟨front, rfl⟩ := h
  exact ⟨written front, List.flatMap_append.symm⟩

/-- The flag and the carried bytes after these bytes. -/
structure Scanned (s : ScreenState V) (seen : Bytes) : Prop where
  flag : s.syncInProgress = true ↔ Updating seen
  carry : s.syncScanCarry = seen.rtake syncScanCarryLen

theorem scanned_nil {s : ScreenState V} (hflag : s.syncInProgress = false) (hcarry : s.syncScanCarry = []) :
    Scanned s [] := by
  refine ⟨?_, by rw [hcarry, List.rtake_nil]⟩
  rw [hflag]
  exact iff_of_false Bool.false_ne_true (by decide)

theorem Scanned.process {s : ScreenState V} {seen : Bytes} (h : Scanned s seen) (bytes : Bytes) :
    Scanned (s.process P bytes) (seen ++ bytes) := by
  by_cases hempty : bytes.isEmpty = true
  · have hnil := List.isEmpty_iff.1 hempty
    rw [ScreenState.process, if_pos hempty, hnil, List.append_nil]
    exact h
  · rw [ScreenState.process, if_neg hempty]
    refine ⟨?_, ?_⟩
    · rw [← updateSyncFlag_iff h.flag hempty, ← h.carry]
    · rw [← updateSyncFlag_carry s.syncInProgress seen bytes hempty, ← h.carry]

/-- Over reads and resizes the flag is as the markers since the last resize say. -/
theorem run_scanned {s : ScreenState V} (hflag : s.syncInProgress = false) (hcarry : s.syncScanCarry = [])
    (ops : List ScreenOp) : Scanned (s.run P fresh ops) (writtenSince ops) := by
  induction ops using List.reverseRecOn with
  | nil => exact scanned_nil hflag hcarry
  | append_singleton ops op ih =>
    have hlast : s.run P fresh (ops ++ [op]) = apply P fresh (s.run P fresh ops) op := by
      rw [run, List.foldl_append]
      rfl
    rw [hlast, writtenSince]
    cases op with
    | process bytes =>
      rw [List.rtakeWhile_concat_pos isRead ops (.process bytes) rfl, written_read]
      exact ih.process bytes
    | resize rows cols =>
      rw [List.rtakeWhile_concat_neg isRead ops (.resize rows cols) Bool.false_ne_true]
      exact scanned_nil rfl rfl

/-- Over every order of reads and resizes the flag is as the last complete marker says, exactly when that marker
does not begin an update before the last resize. -/
theorem sync_flag_iff (P : Vt V) (fresh : Nat → Nat → V) (parser : V) (capacity : Nat) (ops : List ScreenOp) :
    (((withInputLogCapacity parser capacity).run P fresh ops).syncInProgress = true ↔ Updating (written ops)) ↔
      (Updating (written ops) → Updating (writtenSince ops)) := by
  have hscan := (@run_scanned _ P fresh (withInputLogCapacity parser capacity) rfl rfl ops).flag
  have hback : Updating (writtenSince ops) → Updating (written ops) := by
    obtain ⟨front, hfront⟩ := written_suffix (List.rtakeWhile_suffix isRead (l := ops))
    intro h
    rw [← hfront]
    exact h.append front
  rw [hscan]
  exact ⟨fun h => h.2, fun h => ⟨hback, h⟩⟩

/-- An update begins, and the terminal is resized: the flag says that it has ended. -/
theorem resize_closes_update :
    ((withInputLogCapacity (false, []) 16).run vt1049 (fun _ _ => (false, []))
        [.process syncOn, .resize 24 80]).syncInProgress = false ∧
      Updating (written [.process syncOn, .resize 24 80]) := by
  decide

end ScreenState

end Hyoui.Screen.State
