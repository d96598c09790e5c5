import Mathlib.Data.List.DropRight
import Mathlib.Data.List.Pairwise
import Mathlib.Data.List.Perm.Basic
import Mathlib.Tactic.Linarith
import Hyoui.Lib.Transition
import Hyoui.Time
/-!
# The log of a daemon

`emit` puts a line into a bounded queue without waiting, or counts it as dropped; a thread takes the lines
out, writes them to the log file and notes how many were dropped in between. The file has a cap: where a
line does not fit below it together with a mark, the mark is written and nothing more.

The daemon and the thread take turns in any order. `log_accounted` is for the runs where the writes of
lines and notices succeed.
-/

namespace Hyoui.Log

open Hyoui.Lib
open Hyoui.Time (formatUnixMsIso8601)

/-! ## Lines -/

structure Line where
  unixMs : Nat
  text : String
deriving DecidableEq

/-- A line as it was offered: the first is number 0. -/
structure Offer where
  number : Nat
  line : Line
deriving DecidableEq

/-- What a call of `write_all` is for; a notice stands for the lines it counts. -/
inductive Entry where
  | line (offer : Offer)
  | notice (counted : List Offer)
  | mark
deriving DecidableEq

/-- How `write_all` ends: a failure may leave the first bytes in the file. -/
inductive WriteAll where
  | ok
  | failed (written : Nat)
deriving DecidableEq

structure Wrote where
  entry : Entry
  text : String
  result : WriteAll
deriving DecidableEq

/-- How many bytes it added to the file. -/
def Wrote.bytes (x : Wrote) : Nat :=
  match x.result with
  | .ok => x.text.utf8ByteSize
  | .failed written => min written x.text.utf8ByteSize

/-! ## The writer -/

def fileCapBytes : Nat := 1024 * 1024

/-- The file is the calls of `write_all` so far, after what stood in it before. -/
structure LogWriter where
  out : List Wrote := []
  written : Nat
  cap : Nat
  capped : Bool
deriving DecidableEq

/-- `trim_end_matches('\n')` -/
def trimEndNewlines (text : String) : String := .ofList (text.toList.rdropWhile (· = '\n'))

def lineText (unixMs : Nat) (text : String) : String :=
  formatUnixMsIso8601 unixMs ++ " " ++ trimEndNewlines text ++ "\n"

def markText (cap unixMs : Nat) : String :=
  formatUnixMsIso8601 unixMs ++ " hyoui: log: reached the size cap (" ++ toString cap ++
    " bytes); further lines are dropped\n"

def noticeText (count : Nat) : String :=
  "hyoui: log: dropped " ++ toString count ++ " line(s) because the log queue was full"

namespace LogWriter

def new (written cap : Nat) : LogWriter := { written, cap, capped := decide (written ≥ cap) }

def put (w : LogWriter) (entry : Entry) (s : String) (result : WriteAll) : LogWriter :=
  { w with
    out := w.out ++ [{ entry, text := s, result }]
    written := if result = .ok then w.written + s.utf8ByteSize else w.written }

/-- `entry` is what the line is for. -/
def writeLine (w : LogWriter) (entry : Entry) (unixMs : Nat) (text : String) (result : WriteAll) : LogWriter :=
  if w.capped then w
  else
    let line := lineText unixMs text
    let mark := markText w.cap unixMs
    if w.written + line.utf8ByteSize + mark.utf8ByteSize > w.cap then
      let w := { w with capped := true }
      if w.written + mark.utf8ByteSize ≤ w.cap then w.put .mark mark result else w
    else w.put entry line result

def noteDropped (w : LogWriter) (unixMs : Nat) (counted : List Offer) (result : WriteAll) : LogWriter :=
  if counted.length > 0 then w.writeLine (.notice counted) unixMs (noticeText counted.length) result else w

end LogWriter

/-! ## The daemon and the thread -/

def channelCapacity : Nat := 1024

/-- Where the thread is: it has received a line and not yet noted the drops, or noted them. -/
inductive Turn where
  | waiting
  | received (offer : Offer)
  | noted (offer : Offer)
  | finished
deriving DecidableEq

structure Logger where
  offered : Nat := 0
  queue : List Offer := []
  /-- The counter, as the lines it counts. -/
  dropped : List Offer := []
  /-- A line that found the queue full and is not counted yet; the lock on the sink is still held. -/
  full : Option Offer := none
  closed : Bool := false
  /-- `none` until the thread has asked for the size of the file. -/
  writer : Option LogWriter := none
  turn : Turn := .waiting
deriving DecidableEq

namespace Logger

inductive Label where
  /-- The thread starts; whether the size of the file is known. -/
  | run (stat : Bool)
  | emit (line : Line)
  | count
  | shutdown
  | recv
  | note (result : WriteAll)
  | write (result : WriteAll)
  | finish (unixMs : Nat) (result : WriteAll)

/-- `size` is that of the file at the start. -/
def step (size : Nat) (s : Logger) : Label → Option Logger
  | .run stat =>
    match s.writer with
    | none => some { s with writer := some (.new (if stat then size else 0) fileCapBytes) }
    | some _ => none
  | .emit line =>
    if s.closed ∨ s.full.isSome then none
    else
      let offer := { number := s.offered, line }
      let s := { s with offered := s.offered + 1 }
      if s.queue.length < channelCapacity then some { s with queue := s.queue ++ [offer] }
      else some { s with full := some offer }
  | .count =>
    match s.full with
    | some offer => some { s with dropped := s.dropped ++ [offer], full := none }
    | none => none
  | .shutdown => if s.closed ∨ s.full.isSome then none else some { s with closed := true }
  | .recv =>
    match s.writer, s.turn, s.queue with
    | some _, .waiting, offer :: queue => some { s with queue, turn := .received offer }
    | _, _, _ => none
  | .note result =>
    match s.writer, s.turn with
    | some w, .received offer =>
      some { s with
        writer := some (w.noteDropped offer.line.unixMs s.dropped result)
        dropped := []
        turn := .noted offer }
    | _, _ => none
  | .write result =>
    match s.writer, s.turn with
    | some w, .noted offer =>
      some { s with
        writer := some (w.writeLine (.line offer) offer.line.unixMs offer.line.text result)
        turn := .waiting }
    | _, _ => none
  | .finish unixMs result =>
    match s.writer, s.turn, s.queue with
    | some w, .waiting, [] =>
      if s.closed then
        some { s with
          writer := some (w.noteDropped unixMs s.dropped result)
          dropped := []
          turn := .finished }
      else none
    | _, _, _ => none

end Logger

def logger (size : Nat) : System Logger Logger.Label where
  init s := s = {}
  step s l := s.step size l

/-! ## Every line accounted for -/

def Entry.offer : Entry → Option Offer
  | .line offer => some offer
  | _ => none

def Entry.counts : Entry → List Offer
  | .notice counted => counted
  | _ => []

namespace LogWriter

/-- What was written as it should be. -/
def whole (w : LogWriter) : List Entry := (w.out.filter (·.result = .ok)).map (·.entry)

/-- The lines in the file. -/
def lines (w : LogWriter) : List Offer := w.whole.filterMap Entry.offer

/-- The lines counted by the notices in the file. -/
def counted (w : LogWriter) : List Offer := w.whole.flatMap Entry.counts

/-- By how much the file has grown. -/
def added (w : LogWriter) : Nat := (w.out.map Wrote.bytes).sum

/-- Whether there is room for the line and the mark. -/
def room (w : LogWriter) (unixMs : Nat) (text : String) : Bool :=
  !w.capped && decide (w.written + (lineText unixMs text).utf8ByteSize + (markText w.cap unixMs).utf8ByteSize ≤ w.cap)

end LogWriter

namespace Logger

/-- The line the thread has received. -/
def held (s : Logger) : List Offer :=
  match s.turn with
  | .received offer | .noted offer => [offer]
  | _ => []

/-- Of the lines offered so far `kept` are in order, and each is in one of `kept` and `missed`, once. -/
structure Accounted (offered : Nat) (kept missed : List Offer) : Prop where
  inOrder : (kept.map Offer.number).Pairwise (· < ·)
  each : ((kept ++ missed).map Offer.number).Perm (List.range offered)

/-- Until the cap every line offered is in the file or on its way there, in order, or is counted in one notice or
about to be; when the thread has ended it is in the file or in a notice. -/
structure Holds (size : Nat) (s : Logger) (w : LogWriter) : Prop where
  below : size + w.added ≤ max size fileCapBytes
  mark : ∀ before x after, w.out = before ++ x :: after → x.entry = .mark → after = []
  inOrder : (w.lines.map Offer.number).Pairwise (· < ·)
  once : ((w.lines ++ w.counted).map Offer.number).Nodup
  accounted : w.capped = false →
    Accounted s.offered (w.lines ++ s.held ++ s.queue) (w.counted ++ s.dropped ++ s.full.toList)
  ended : w.capped = false → s.turn = .finished → Accounted s.offered w.lines w.counted

/-- Whether the step hands a line or a notice to `write_all`. -/
def puts (s : Logger) : Label → Bool
  | .note _ =>
    match s.writer, s.turn with
    | some w, .received offer =>
      decide (s.dropped.length > 0) && w.room offer.line.unixMs (noticeText s.dropped.length)
    | _, _ => false
  | .write _ =>
    match s.writer, s.turn with
    | some w, .noted offer => w.room offer.line.unixMs offer.line.text
    | _, _ => false
  | .finish unixMs _ =>
    match s.writer with
    | some w => decide (s.dropped.length > 0) && w.room unixMs (noticeText s.dropped.length)
    | none => false
  | _ => false

/-- The write of a line or a notice succeeds, and the size of a file that is not empty is known. -/
def Whole (size : Nat) (s : Logger) : Label → Prop
  | .run stat => stat = true ∨ size = 0
  | .note result => s.puts (.note result) = true → result = .ok
  | .write result => s.puts (.write result) = true → result = .ok
  | .finish unixMs result => s.puts (.finish unixMs result) = true → result = .ok
  | _ => True

instance (size : Nat) (s : Logger) : DecidablePred (s.Whole size) := fun l => by
  unfold Whole
  split <;> infer_instance

end Logger

/-! ## What a write does -/

namespace LogWriter

variable {w w' : LogWriter} {entry : Entry}

/-- A line of the log is written, or the writer stops at its cap. -/
inductive Writes (entry : Entry) (w w' : LogWriter) : Prop
  | stopped (capped : w.capped = true) (same : w' = w)
  | put (text : String) (fits : w.written + text.utf8ByteSize ≤ w.cap)
      (same : w' = w.put entry text .ok) (capped : w.capped = false)
  | caps (capped : w.capped = false) (same : w' = { w with capped := true })
  | marks (text : String) (result : WriteAll) (fits : w.written + text.utf8ByteSize ≤ w.cap) (capped : w.capped = false)
      (same : w' = { w with capped := true }.put .mark text result)

theorem writeLine_writes {unixMs : Nat} {text : String} {result : WriteAll}
    (h : w.room unixMs text = true → result = .ok) : Writes entry w (w.writeLine entry unixMs text result) := by
  unfold writeLine
  cases hcapped : w.capped with
  | true => exact .stopped hcapped rfl
  | false =>
    simp only [Bool.false_eq_true, if_false]
    split
    · split
      · rename_i hmark
        exact .marks _ _ hmark hcapped rfl
      · exact .caps hcapped rfl
    · rename_i hfits
      obtain rfl : result = .ok := h (by simp only [room, hcapped]; simpa using hfits)
      exact .put _ (by omega) rfl hcapped

theorem put_whole (entry : Entry) (text : String) : (w.put entry text .ok).whole = w.whole ++ [entry] := by
  simp [whole, put]

theorem put_added (entry : Entry) (text : String) (result : WriteAll) :
    (w.put entry text result).added = w.added + ({ entry, text, result } : Wrote).bytes := by
  simp [added, put]

theorem bytes_le (x : Wrote) : x.bytes ≤ x.text.utf8ByteSize := by
  unfold Wrote.bytes
  split
  · exact Nat.le_refl _
  · exact Nat.min_le_right ..

/-- The writer keeps below its cap, and a mark is the end of the file. -/
structure Sound (size : Nat) (w : LogWriter) : Prop where
  cap : w.cap = fileCapBytes
  below : size + w.added ≤ max size fileCapBytes
  written : w.capped = false → w.written = size + w.added
  unmarked : w.capped = false → ∀ x ∈ w.out, x.entry ≠ .mark
  mark : ∀ before x after, w.out = before ++ x :: after → x.entry = .mark → after = []

theorem Sound.new {size : Nat} {stat : Bool} (h : stat = true ∨ size = 0) :
    Sound size (.new (if stat then size else 0) fileCapBytes) := by
  have hsize : (if stat then size else 0) = size := by
    rcases h with rfl | rfl
    · rfl
    · split <;> rfl
  rw [hsize]
  exact ⟨rfl, by simp [LogWriter.new, added], fun _ => rfl, nofun, by simp [LogWriter.new]⟩

/-- Where no mark stands, one more call may be the mark. -/
theorem mark_last {out : List Wrote} (h : ∀ x ∈ out, x.entry ≠ .mark) (y : Wrote) :
    ∀ before x after, out ++ [y] = before ++ x :: after → x.entry = .mark → after = [] := by
  intro before x after hout hx
  rcases List.eq_nil_or_concat after with rfl | ⟨after', z, rfl⟩
  · rfl
  · rw [List.concat_eq_append, ← List.cons_append, ← List.append_assoc] at hout
    obtain ⟨rfl, -⟩ := List.append_inj' hout rfl
    exact absurd hx (h x (by simp))

theorem Sound.writes {size : Nat} (h : Sound size w) (hw : Writes entry w w') (hentry : entry ≠ .mark) : Sound size w' := by
  cases hw with
  | stopped capped same => exact same ▸ h
  | put text fits same capped =>
    have hwritten := h.written capped
    have hadded := put_added (w := w) entry text .ok
    have hcap := h.cap
    subst same
    refine ⟨h.cap, ?_, fun _ => ?_, fun _ => ?_, mark_last (h.unmarked capped) _⟩
    · rw [hadded]
      simp only [Wrote.bytes]
      omega
    · rw [hadded]
      simp only [put, Wrote.bytes, if_true]
      omega
    · intro x hx
      rcases List.mem_append.1 hx with hx | hx
      · exact h.unmarked capped x hx
      · rw [List.mem_singleton.1 hx]
        exact hentry
  | caps capped same =>
    subst same
    exact ⟨h.cap, h.below, nofun, nofun, h.mark⟩
  | marks text result fits capped same =>
    have hwritten := h.written capped
    have hadded := put_added (w := { w with capped := true }) .mark text result
    have hbytes := bytes_le { entry := .mark, text, result }
    have hcap := h.cap
    have hsame : ({ w with capped := true } : LogWriter).added = w.added := rfl
    subst same
    refine ⟨h.cap, ?_, nofun, nofun, mark_last (h.unmarked capped) _⟩
    rw [hadded, hsame]
    dsimp only at hbytes
    omega

/-- What a call does to the lines and the counts: nothing once the cap is reached, and otherwise its entry is added. -/
structure Adds (w w' : LogWriter) (lines counted : List Offer) : Prop where
  cases : (w'.capped = true ∧ w'.lines = w.lines ∧ w'.counted = w.counted) ∨
    (w.capped = false ∧ w'.capped = false ∧ w'.lines = w.lines ++ lines ∧ w'.counted = w.counted ++ counted)

theorem Writes.adds (hw : Writes entry w w') : Adds w w' entry.offer.toList entry.counts := by
  cases hw with
  | stopped capped same =>
    subst same
    exact ⟨.inl ⟨capped, rfl, rfl⟩⟩
  | put text fits same capped =>
    have hwhole := put_whole (w := w) entry text
    subst same
    refine ⟨.inr ⟨capped, capped, ?_, ?_⟩⟩
    · rw [lines, hwhole, List.filterMap_append, lines]
      cases entry <;> rfl
    · rw [counted, hwhole, List.flatMap_append, counted]
      simp
  | caps capped same =>
    subst same
    exact ⟨.inl ⟨rfl, rfl, rfl⟩⟩
  | marks text result fits capped same =>
    subst same
    refine ⟨.inl ⟨rfl, ?_, ?_⟩⟩
    · cases result <;> simp [lines, whole, LogWriter.put, Entry.offer]
    · cases result <;> simp [counted, whole, LogWriter.put, Entry.counts]

/-- The notice of the drops, if there are any. -/
theorem noteDropped_spec {size unixMs : Nat} {dropped : List Offer} {result : WriteAll} (h : Sound size w)
    (hok : (decide (dropped.length > 0) && w.room unixMs (noticeText dropped.length)) = true → result = .ok) :
    Sound size (w.noteDropped unixMs dropped result) ∧ Adds w (w.noteDropped unixMs dropped result) [] dropped := by
  unfold noteDropped
  split
  · rename_i hpos
    have hwrites : Writes (.notice dropped) w (w.writeLine (.notice dropped) unixMs (noticeText dropped.length) result) :=
      writeLine_writes fun hroom => hok (by rw [hroom, decide_eq_true hpos]; rfl)
    exact ⟨h.writes hwrites nofun, hwrites.adds⟩
  · rename_i hpos
    obtain rfl : dropped = [] := List.length_eq_zero_iff.1 (by omega)
    refine ⟨h, ⟨?_⟩⟩
    cases hcapped : w.capped with
    | true => exact .inl ⟨rfl, rfl, rfl⟩
    | false => exact .inr ⟨rfl, rfl, by simp, by simp⟩

theorem writeLine_spec {size : Nat} {offer : Offer} {result : WriteAll} (h : Sound size w)
    (hok : w.room offer.line.unixMs offer.line.text = true → result = .ok) :
    Sound size (w.writeLine (.line offer) offer.line.unixMs offer.line.text result) ∧
      Adds w (w.writeLine (.line offer) offer.line.unixMs offer.line.text result) [offer] [] := by
  have hwrites : Writes (.line offer) w (w.writeLine (.line offer) offer.line.unixMs offer.line.text result) :=
    writeLine_writes hok
  exact ⟨h.writes hwrites nofun, hwrites.adds⟩

end LogWriter

namespace Logger

/-! ## Every step -/

section Ledger
variable {offered : Nat} {kept missed : List Offer}

theorem Accounted.number_lt (h : Accounted offered kept missed) {o : Offer} (ho : o ∈ kept ++ missed) :
    o.number < offered :=
  List.mem_range.1 (h.each.subset (List.mem_map_of_mem ho))

theorem Accounted.keep (h : Accounted offered kept missed) (line : Line) :
    Accounted (offered + 1) (kept ++ [{ number := offered, line }]) missed := by
  refine ⟨?_, ?_⟩
  · rw [List.map_append, List.pairwise_append]
    refine ⟨h.inOrder, List.pairwise_singleton .., ?_⟩
    intro a ha b hb
    obtain ⟨o, ho, rfl⟩ := List.mem_map.1 ha
    rw [List.map_singleton, List.mem_singleton] at hb
    rw [hb]
    exact h.number_lt (List.mem_append_left _ ho)
  · rw [List.range_succ, List.append_assoc, List.map_append, List.map_append, List.map_singleton]
    have heach := h.each
    rw [List.map_append] at heach
    have hlast := heach.append_right [offered]
    refine List.Perm.trans ?_ hlast
    rw [List.append_assoc]
    exact List.Perm.append_left _ List.perm_append_comm

theorem Accounted.miss (h : Accounted offered kept missed) (line : Line) :
    Accounted (offered + 1) kept (missed ++ [{ number := offered, line }]) := by
  refine ⟨h.inOrder, ?_⟩
  rw [List.range_succ, ← List.append_assoc, List.map_append, List.map_singleton]
  exact h.each.append_right _

/-- What is in the file is part of what is accounted for. -/
theorem Accounted.inFile {lines counted rest rest' : List Offer} (h : Accounted offered (lines ++ rest) (counted ++ rest')) :
    (lines.map Offer.number).Pairwise (· < ·) ∧ ((lines ++ counted).map Offer.number).Nodup := by
  have hnodup : ((lines ++ rest ++ (counted ++ rest')).map Offer.number).Nodup :=
    (List.Perm.nodup_iff h.each).2 List.nodup_range
  have hsub : (lines ++ counted).Sublist (lines ++ rest ++ (counted ++ rest')) :=
    (List.sublist_append_left lines rest).append (List.sublist_append_left counted rest')
  exact ⟨h.inOrder.sublist ((List.sublist_append_left lines rest).map _), hnodup.sublist (hsub.map _)⟩

end Ledger

/-- The lines in the file and those counted in it. -/
def inFile (s : Logger) : List Offer := (s.writer.map LogWriter.lines).getD []

def noticed (s : Logger) : List Offer := (s.writer.map LogWriter.counted).getD []

structure Inv (size : Nat) (s : Logger) : Prop where
  sound : ∀ w, s.writer = some w → w.Sound size
  file : ∀ w, s.writer = some w →
    (w.lines.map Offer.number).Pairwise (· < ·) ∧ ((w.lines ++ w.counted).map Offer.number).Nodup
  accounted : (∀ w, s.writer = some w → w.capped = false) →
    Accounted s.offered (s.inFile ++ (s.held ++ s.queue)) (s.noticed ++ (s.dropped ++ s.full.toList))
  closed : s.closed = true → s.full = none
  ended : s.turn = .finished → s.closed = true ∧ s.queue = [] ∧ s.dropped = []

theorem Inv.init {size : Nat} : Inv size {} where
  sound := nofun
  file := nofun
  accounted _ := ⟨.nil, .refl _⟩
  closed := nofun
  ended := nofun

section Steps
variable {size : Nat} {s s' : Logger}

/-- A step of the thread that calls the writer; what it takes from the thread and the counter it gives to the file. -/
theorem Inv.turn {w w' : LogWriter} {lines counted : List Offer} {dropped : List Offer} {turn : Turn} (h : s.Inv size)
    (hw : s.writer = some w) (hspec : w'.Sound size ∧ w.Adds w' lines counted)
    (hheld : s.held = lines ++ ({ s with turn } : Logger).held) (hdropped : s.dropped = counted ++ dropped)
    (hended : turn = .finished → s.closed = true ∧ s.queue = [] ∧ dropped = []) :
    Inv size { s with writer := some w', dropped, turn } := by
  obtain ⟨hsound, hcases⟩ := hspec
  have haccounted : w'.capped = false → Accounted s.offered (w'.lines ++ (({ s with turn } : Logger).held ++ s.queue))
      (w'.counted ++ (dropped ++ s.full.toList)) := by
    intro hcapped
    rcases hcases with ⟨hcapped', -, -⟩ | ⟨hopen, -, hlines, hcounted⟩
    · rw [hcapped] at hcapped'
      cases hcapped'
    have hbefore := h.accounted fun w₁ hw₁ => by
      rw [hw] at hw₁
      cases hw₁
      exact hopen
    simp only [inFile, noticed, hw, Option.map_some, Option.getD_some, hheld, hdropped] at hbefore
    simp only [hlines, hcounted, List.append_assoc] at hbefore ⊢
    exact hbefore
  refine ⟨?_, ?_, fun hopen => haccounted (hopen w' rfl), h.closed, hended⟩
  · rintro _ ⟨⟩
    exact hsound
  · rintro _ ⟨⟩
    rcases hcases with ⟨-, hlines, hcounted⟩ | ⟨-, hcapped, -, -⟩
    · rw [hlines, hcounted]
      exact h.file w hw
    · exact (haccounted hcapped).inFile

theorem Inv.step {l : Label} (h : s.Inv size) (hwhole : s.Whole size l) (hs : s.step size l = some s') : s'.Inv size := by
  cases l with
  | run stat =>
    simp only [Logger.step] at hs
    split at hs
    · rename_i hnone
      cases hs
      have hbefore := h.accounted (by rw [hnone]; nofun)
      simp only [inFile, noticed, hnone, Option.map_none, Option.getD_none] at hbefore
      refine ⟨?_, ?_, fun _ => hbefore, h.closed, h.ended⟩
      · rintro _ ⟨⟩
        exact .new hwhole
      · rintro _ ⟨⟩
        exact ⟨.nil, .nil⟩
    · cases hs
  | emit line =>
    simp only [Logger.step] at hs
    split at hs
    · cases hs
    rename_i hfree
    rw [not_or] at hfree
    obtain ⟨hclosed, hfull⟩ := hfree
    rw [Bool.not_eq_true] at hclosed
    have hfull : s.full = none := by simpa using hfull
    have hturn : s.turn ≠ .finished := fun hfin => by
      rw [(h.ended hfin).1] at hclosed
      cases hclosed
    split at hs
    · cases hs
      refine ⟨h.sound, h.file, fun hopen => ?_, h.closed, fun hfin => absurd hfin hturn⟩
      have hkeep := (h.accounted hopen).keep line
      rw [List.append_assoc, List.append_assoc] at hkeep
      exact hkeep
    · cases hs
      refine ⟨h.sound, h.file, fun hopen => ?_, fun hcl => ?_, fun hfin => absurd hfin hturn⟩
      · have hmiss := (h.accounted hopen).miss line
        rw [hfull, Option.toList_none, List.append_nil, List.append_assoc] at hmiss
        exact hmiss
      · rw [hclosed] at hcl
        cases hcl
  | count =>
    simp only [Logger.step] at hs
    split at hs
    · rename_i offer hfull
      cases hs
      refine ⟨h.sound, h.file, fun hopen => ?_, fun _ => rfl, fun hfin => ?_⟩
      · have hbefore := h.accounted hopen
        rw [hfull, Option.toList_some, ← List.append_nil (s.dropped ++ [offer])] at hbefore
        exact hbefore
      · have := h.closed (h.ended hfin).1
        rw [hfull] at this
        cases this
    · cases hs
  | shutdown =>
    simp only [Logger.step] at hs
    split at hs
    · cases hs
    rename_i hfree
    rw [not_or] at hfree
    cases hs
    exact ⟨h.sound, h.file, h.accounted, fun _ => by simpa using hfree.2, fun hfin => ⟨rfl, (h.ended hfin).2⟩⟩
  | recv =>
    simp only [Logger.step] at hs
    split at hs
    · rename_i w offer queue hw hturn hqueue
      cases hs
      refine ⟨h.sound, h.file, fun hopen => ?_, h.closed, nofun⟩
      have hbefore := h.accounted hopen
      rw [held, hturn, hqueue, List.nil_append] at hbefore
      exact hbefore
    · cases hs
  | note result =>
    simp only [Logger.step] at hs
    split at hs
    · rename_i w offer hw hturn
      cases hs
      refine h.turn hw (LogWriter.noteDropped_spec (h.sound w hw) fun hputs => hwhole ?_) ?_ (List.append_nil _).symm nofun
      · simpa only [puts, hw, hturn] using hputs
      · simp only [held, hturn, List.nil_append]
    · cases hs
  | write result =>
    simp only [Logger.step] at hs
    split at hs
    · rename_i w offer hw hturn
      cases hs
      refine h.turn hw (LogWriter.writeLine_spec (h.sound w hw) fun hputs => hwhole ?_) ?_ (List.nil_append _).symm nofun
      · simpa only [puts, hw, hturn] using hputs
      · simp only [held, hturn, List.append_nil]
    · cases hs
  | finish unixMs result =>
    simp only [Logger.step] at hs
    split at hs
    · rename_i w hw hturn hqueue
      split at hs
      · rename_i hclosed
        cases hs
        refine h.turn hw (LogWriter.noteDropped_spec (h.sound w hw) fun hputs => hwhole ?_) ?_ (List.append_nil _).symm
          fun _ => ⟨hclosed, hqueue, rfl⟩
        · simpa only [puts, hw] using hputs
        · simp only [held, hturn, List.nil_append]
      · cases hs
    · cases hs

end Steps

end Logger

/-- Whatever lines are offered, however many find the queue full and whatever stood in the file: when the writes of
lines and notices succeed, the file stays below its cap, a mark is its end, and until then every line is
accounted for. -/
theorem log_accounted {size : Nat} {s : Logger} {w : LogWriter} (h : (logger size).Reach (Logger.Whole size) s)
    (hw : s.writer = some w) : s.Holds size w := by
  have hinv : s.Inv size := by
    refine h.inv (Logger.Inv size) ?_ ?_
    · rintro _ rfl
      exact .init
    · intro s l s' _ hinv hwhole hstep
      exact hinv.step hwhole hstep
  have hsound := hinv.sound w hw
  have haccounted : w.capped = false → Logger.Accounted s.offered (w.lines ++ s.held ++ s.queue)
      (w.counted ++ s.dropped ++ s.full.toList) := by
    intro hcapped
    have hopen := hinv.accounted fun w₁ hw₁ => by
      rw [hw] at hw₁
      cases hw₁
      exact hcapped
    simpa only [Logger.inFile, Logger.noticed, hw, Option.map_some, Option.getD_some, List.append_assoc] using hopen
  refine ⟨hsound.below, hsound.mark, (hinv.file w hw).1, (hinv.file w hw).2, haccounted, fun hcapped hfin => ?_⟩
  obtain ⟨hclosed, hqueue, hdropped⟩ := hinv.ended hfin
  have hall := haccounted hcapped
  simpa only [Logger.held, hfin, hqueue, hdropped, hinv.closed hclosed, Option.toList_none, List.append_nil] using hall

def digits : Line := { unixMs := 0, text := "0123456789" }

/-- The thread takes a line that is waiting. -/
def taken (result : WriteAll) : List Logger.Label := [.recv, .note .ok, .write result]

/-- The line with this number. -/
def digitsAt (number : Nat) : Offer := { number, line := digits }

/-- A daemon that has offered this many lines before the thread runs. -/
theorem filled {size n : Nat} (h : n ≤ channelCapacity) :
    (logger size).Reach (Logger.Whole size) { offered := n, queue := (List.range n).map digitsAt } := by
  induction n with
  | zero => exact .init rfl
  | succ n ih =>
    refine .step (i := Logger.Label.emit digits) (ih (by omega)) trivial ?_
    have hroom : ((List.range n).map digitsAt).length < channelCapacity := by
      rw [List.length_map, List.length_range]
      omega
    simp only [logger, Logger.step, Option.isSome_none, Bool.false_eq_true, or_self, if_false]
    rw [if_pos hroom, List.range_succ, List.map_append]
    rfl

/-- A file that has room for a notice, a line and the mark. -/
def roomForOne : Nat := fileCapBytes - 211

/-- The queue is full, so that one line more is dropped; the thread notes it, writes the first line and marks the file
where the second does not fit. -/
theorem log_accounted_line : ∃ s w, (logger roomForOne).Reach (Logger.Whole roomForOne) s ∧ s.writer = some w ∧
    s.offered = 1025 ∧ w.whole = [.notice [digitsAt 1024], .line (digitsAt 0), .mark] ∧ s.queue.length = 1022 ∧
    s.Holds roomForOne w := by
  have hfull : (logger roomForOne).Reach (Logger.Whole roomForOne) _ := filled (Nat.le_refl channelCapacity)
  obtain ⟨s, hs, w, hw, hoffered, hwhole, hqueue⟩ := hfull.exists_run
    ([.emit digits, .count, .run true] ++ taken .ok ++ taken .ok)
    (p := fun s => ∃ w ∈ s.writer, s.offered = 1025 ∧
      w.whole = [.notice [digitsAt 1024], .line (digitsAt 0), .mark] ∧ s.queue.length = 1022)
    (by decide +kernel)
  exact ⟨s, w, hs, hw, hoffered, hwhole, hqueue, log_accounted hs hw⟩

/-- A file that is almost full, on a disk that is full but for some bytes at a time. -/
def nearlyFull : Nat := fileCapBytes - 150

def cutShort : List Logger.Label := .emit digits :: taken (.failed 31)

/-- Each failed write leaves most of its line in the file, and the writer counts none of it: the file grows beyond
its cap. The lines are in no notice. -/
theorem failed_writes_pass_cap : ∃ s w, (logger nearlyFull).Reachable s ∧ s.writer = some w ∧
    fileCapBytes < nearlyFull + w.added ∧ w.lines = [] ∧ w.counted = [] ∧ ¬ s.Holds nearlyFull w := by
  have hinit : (logger nearlyFull).Reachable {} := .init rfl
  obtain ⟨s, hs, w, hw, hgrown, hlines, hcounted⟩ := hinit.exists_run
    (.run true :: (cutShort ++ cutShort ++ cutShort ++ cutShort ++ cutShort))
    (p := fun s => ∃ w ∈ s.writer, fileCapBytes < nearlyFull + w.added ∧ w.lines = [] ∧ w.counted = [])
    (by decide +kernel)
  refine ⟨s, w, hs, hw, hgrown, hlines, hcounted, fun hholds => ?_⟩
  have hbelow := hholds.below
  have hstart : max nearlyFull fileCapBytes = fileCapBytes := by decide
  omega

end Hyoui.Log
