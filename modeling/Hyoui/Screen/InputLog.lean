import Hyoui.Lib.Search
import Hyoui.Protocol.Frame
/-!
# The input log

The bytes a child wrote to the primary screen, kept to rebuild that screen after a resize: a ring
of `capacity` bytes that loses its oldest bytes first.
-/

namespace Hyoui.Screen

open Hyoui.Lib
open Hyoui.Protocol

/-- `u64::saturating_add` -/
def saturatingAdd (a b : Nat) : Nat := min (a + b) (2 ^ 64 - 1)

structure InputLog where
  ring : Bytes := []
  capacity : Nat
  inAltScreen : Bool := false
  evictedTotal : Nat := 0
deriving DecidableEq

namespace InputLog

def new (capacity : Nat) : InputLog := { capacity }

def setAltMode (log : InputLog) (inAlt : Bool) : InputLog := { log with inAltScreen := inAlt }

/-- Of a chunk larger than the ring only the end is kept. -/
def push (log : InputLog) (bytes : Bytes) : InputLog :=
  if log.inAltScreen || log.capacity == 0 || bytes.isEmpty then log
  else
    let (toAppend, evictedTotal) :=
      if bytes.length > log.capacity then
        let drop := bytes.length - log.capacity
        (bytes.drop drop, saturatingAdd log.evictedTotal drop)
      else (bytes, log.evictedTotal)
    if log.ring.length + toAppend.length > log.capacity then
      let overflow := log.ring.length + toAppend.length - log.capacity
      { log with ring := log.ring.drop overflow ++ toAppend, evictedTotal := saturatingAdd evictedTotal overflow }
    else { log with ring := log.ring ++ toAppend, evictedTotal }

/-- The ring holds what it may. -/
def Fits (log : InputLog) : Prop := log.ring.length ≤ log.capacity

theorem new_fits (capacity : Nat) : (new capacity).Fits := Nat.zero_le _

theorem setAltMode_fits {log : InputLog} {inAlt : Bool} (h : log.Fits) : (log.setAltMode inAlt).Fits := h

theorem push_alternate {log : InputLog} (h : log.inAltScreen = true) (bytes : Bytes) : log.push bytes = log := by
  rw [push, h]
  rfl

/-- On the primary screen a push keeps the last `capacity` bytes. -/
theorem push_primary {log : InputLog} (hfits : log.Fits) (h : log.inAltScreen = false) (bytes : Bytes) :
    (log.push bytes).ring = (log.ring ++ bytes).rtake log.capacity := by
  unfold push
  split
  · rename_i hskip
    rw [h, Bool.false_or, Bool.or_eq_true, beq_iff_eq, List.isEmpty_iff] at hskip
    rcases hskip with hzero | hempty
    · have hring : log.ring.length ≤ 0 := hzero ▸ hfits
      rw [hzero, List.eq_nil_of_length_eq_zero (Nat.le_zero.1 hring), List.rtake_zero]
    · rw [hempty, List.append_nil, rtake_of_length_le hfits]
  · have hring : log.ring.length ≤ log.capacity := hfits
    by_cases hlarge : bytes.length > log.capacity
    · simp only [if_pos hlarge]
      have hlast : (log.ring ++ bytes).rtake log.capacity = bytes.drop (bytes.length - log.capacity) := by
        have hgone : log.ring.length ≤ log.ring.length + bytes.length - log.capacity := by omega
        have hrest : log.ring.length + bytes.length - log.capacity - log.ring.length = bytes.length - log.capacity := by
          omega
        rw [List.rtake, List.length_append, List.drop_append, List.drop_eq_nil_of_le hgone, hrest, List.nil_append]
      rw [hlast]
      split
      · have hall : log.ring.length ≤
            log.ring.length + (bytes.drop (bytes.length - log.capacity)).length - log.capacity := by
          rw [List.length_drop]
          omega
        simp only [List.drop_eq_nil_of_le hall, List.nil_append]
      · -- the ring is empty and the end of the chunk fills it
        rename_i hno
        rw [List.length_drop] at hno
        have hnil : log.ring = [] := List.eq_nil_of_length_eq_zero (by omega)
        rw [hnil, List.nil_append]
    · simp only [if_neg hlarge]
      split
      · have hkept : log.ring.length + bytes.length - log.capacity - log.ring.length = 0 := by omega
        rw [List.rtake, List.length_append, List.drop_append, hkept, List.drop_zero]
      · have hboth : (log.ring ++ bytes).length ≤ log.capacity := by
          rw [List.length_append]
          omega
        rw [rtake_of_length_le hboth]

theorem push_capacity (log : InputLog) (bytes : Bytes) : (log.push bytes).capacity = log.capacity := by
  unfold push
  split
  · rfl
  · dsimp only
    split
    · split <;> rfl
    · split <;> rfl

theorem push_fits {log : InputLog} (hfits : log.Fits) (bytes : Bytes) : (log.push bytes).Fits := by
  rw [Fits, push_capacity]
  cases h : log.inAltScreen with
  | true => rwa [push_alternate h]
  | false =>
    rw [push_primary hfits h]
    rw [length_rtake]
    exact Nat.min_le_left ..

end InputLog

end Hyoui.Screen
