import Hyoui.Lib.Scanner
import Hyoui.Protocol.Frame
/-!
# Stripping escape sequences

`stripAnsi` strips one buffer. `StripAnsiCarry` strips a stream read by read: an escape that the
end of a read cuts off is carried to the next one.

The carrying scanner is a `Scanner`, so it does not matter where the reads are cut. What is left
to compare is two scans of one buffer, and they differ in one place: an ESC inside an OSC or DCS
string that no backslash follows.
-/

namespace Hyoui.Strip

open Hyoui.Protocol Hyoui.Lib

def esc : UInt8 := 0x1b
def bel : UInt8 := 0x07
def backslash : UInt8 := 0x5c

/-! ## One buffer -/

/-- What follows the parameter and the intermediate bytes of a CSI. -/
def csiParams (body : Bytes) : Bytes :=
  (body.dropWhile fun b => 0x30 ≤ b && b ≤ 0x3f).dropWhile fun b => 0x20 ≤ b && b ≤ 0x2f

def isFinal (b : UInt8) : Bool := 0x40 ≤ b && b ≤ 0x7e

def skipCsi (body : Bytes) : Bytes :=
  match csiParams body with
  | [] => []
  | f :: rest => if isFinal f then rest else f :: rest

/-- The string loops of `strip_ansi`: up to ST, or up to BEL where that ends the string too. -/
def skipString (byBel : Bool) : Bytes → Bytes
  | [] => []
  | b :: rest =>
    if byBel && b == bel then rest
    else if b == esc && rest.head? == some backslash then rest.tail
    else skipString byBel rest

def skipOsc : Bytes → Bytes := skipString true

/-- DCS, SOS, PM and APC. -/
def skipDcs : Bytes → Bytes := skipString false

/-- What is left after the escape `ESC kind body`. -/
def skipEscape (kind : UInt8) (body : Bytes) : Bytes :=
  if kind = 0x5b then skipCsi body
  else if kind = 0x5d then skipOsc body
  else if kind ∈ [0x50, 0x58, 0x5e, 0x5f] then skipDcs body
  else body

theorem csiParams_suffix (body : Bytes) : csiParams body <:+ body :=
  (List.dropWhile_suffix _).trans (List.dropWhile_suffix _)

theorem skipCsi_suffix (body : Bytes) : skipCsi body <:+ body := by
  have h := csiParams_suffix body
  unfold skipCsi
  split
  · exact List.nil_suffix
  · rename_i f rest heq
    rw [heq] at h
    split
    · exact (List.suffix_cons f rest).trans h
    · exact h

theorem skipString_suffix (byBel : Bool) (body : Bytes) : skipString byBel body <:+ body := by
  induction body with
  | nil => exact List.suffix_refl _
  | cons b rest ih =>
    unfold skipString
    split
    · exact List.suffix_cons b rest
    · split
      · exact (List.tail_suffix rest).trans (List.suffix_cons b rest)
      · exact ih.trans (List.suffix_cons b rest)

theorem skipEscape_suffix (kind : UInt8) (body : Bytes) : skipEscape kind body <:+ body := by
  unfold skipEscape
  split
  · exact skipCsi_suffix body
  · split
    · exact skipString_suffix true body
    · split
      · exact skipString_suffix false body
      · exact List.suffix_refl _

def stripAnsi : Bytes → Bytes
  | [] => []
  | b :: rest =>
    if b ≠ esc then b :: stripAnsi rest
    else match rest with
      | [] => []
      | kind :: body => stripAnsi (skipEscape kind body)
termination_by input => input.length
decreasing_by
  · simp
  · have h := (skipEscape_suffix kind body).length_le
    simp only [List.length_cons]
    omega

/-! ## A stream, read by read -/

/-- The CSI branch of `push`: `none` where the buffer ends inside the sequence. -/
def carryCsi (body : Bytes) : Option Bytes :=
  match csiParams body with
  | [] => none
  | f :: rest => if isFinal f then some rest else some (f :: rest)

/-- The string loops of `push`. An ESC that does not start an ST is taken for one that the end of
the buffer cut off. -/
def carryString (byBel : Bool) : Bytes → Option Bytes
  | [] => none
  | b :: rest =>
    if byBel && b == bel then some rest
    else if b == esc then
      if rest.head? == some backslash then some rest.tail else none
    else carryString byBel rest

def carryOsc : Bytes → Option Bytes := carryString true

def carryDcs : Bytes → Option Bytes := carryString false

def carryEscape (kind : UInt8) (body : Bytes) : Option Bytes :=
  if kind = 0x5b then carryCsi body
  else if kind = 0x5d then carryOsc body
  else if kind ∈ [0x50, 0x58, 0x5e, 0x5f] then carryDcs body
  else some body

/-- What `carryEscape` returns is left over from the buffer, and more input only adds to it. -/
theorem carryCsi_append {body after : Bytes} (h : carryCsi body = some after) (more : Bytes) :
    after <:+ body ∧ carryCsi (body ++ more) = some (after ++ more) := by
  have hsuffix := csiParams_suffix body
  unfold carryCsi at h
  split at h
  · cases h
  · rename_i f rest heq
    rw [heq] at hsuffix
    have hmore : csiParams (body ++ more) = f :: (rest ++ more) := by
      unfold csiParams at heq ⊢
      rw [List.dropWhile_append, if_neg, List.dropWhile_append, if_neg, heq, List.cons_append]
      · rw [heq]
        exact Bool.false_ne_true
      · intro hempty
        rw [List.isEmpty_iff] at hempty
        rw [hempty] at heq
        cases heq
    unfold carryCsi
    rw [hmore]
    split at h <;> rename_i hf <;> obtain rfl := Option.some.inj h
    · exact ⟨(List.suffix_cons f rest).trans hsuffix, if_pos hf⟩
    · exact ⟨hsuffix, if_neg hf⟩

theorem carryString_append {byBel : Bool} {body after : Bytes} (h : carryString byBel body = some after) (more : Bytes) :
    after <:+ body ∧ carryString byBel (body ++ more) = some (after ++ more) := by
  induction body with
  | nil => cases h
  | cons b rest ih =>
    unfold carryString at h
    rw [List.cons_append]
    unfold carryString
    split at h <;> rename_i hb
    · obtain rfl := Option.some.inj h
      exact ⟨List.suffix_cons b rest, if_pos hb⟩
    · rw [if_neg hb]
      split at h <;> rename_i hesc
      · rw [if_pos hesc]
        split at h <;> rename_i hst
        · obtain rfl := Option.some.inj h
          cases rest with
          | nil => cases hst
          | cons c rest =>
            refine ⟨(List.suffix_cons c rest).trans (List.suffix_cons b _), ?_⟩
            exact if_pos hst
        · cases h
      · rw [if_neg hesc]
        obtain ⟨hsuffix, happend⟩ := ih h
        exact ⟨hsuffix.trans (List.suffix_cons b rest), happend⟩

theorem carryEscape_append {kind : UInt8} {body after : Bytes} (h : carryEscape kind body = some after) (more : Bytes) :
    after <:+ body ∧ carryEscape kind (body ++ more) = some (after ++ more) := by
  unfold carryEscape at h ⊢
  split at h <;> rename_i hcsi
  · rw [if_pos hcsi]
    exact carryCsi_append h more
  · rw [if_neg hcsi]
    split at h <;> rename_i hosc
    · rw [if_pos hosc]
      exact carryString_append h more
    · rw [if_neg hosc]
      split at h <;> rename_i hdcs
      · rw [if_pos hdcs]
        exact carryString_append h more
      · rw [if_neg hdcs]
        obtain rfl := Option.some.inj h
        exact ⟨List.suffix_refl _, rfl⟩

/-- The loop of `push`: the stripped bytes, and what is stashed (`buf[start..]`, or nothing). -/
def scan : Bytes → Bytes × Bytes
  | [] => ([], [])
  | b :: rest =>
    if b ≠ esc then
      let (out, stash) := scan rest
      (b :: out, stash)
    else match rest with
      | [] => ([], [b])
      | kind :: body =>
        match _h : carryEscape kind body with
        | none => ([], b :: kind :: body)
        | some after => scan after
termination_by buf => buf.length
decreasing_by
  · simp
  · have h := (carryEscape_append _h []).1.length_le
    simp only [List.length_cons]
    omega

structure StripAnsiCarry where
  carry : Bytes := []
deriving DecidableEq

namespace StripAnsiCarry

def maxCarry : Nat := 4096

def stashCarry (tail : Bytes) : Bytes := if tail.length > maxCarry then [] else tail

def push (c : StripAnsiCarry) (input : Bytes) : Bytes × StripAnsiCarry :=
  let (out, tail) := scan (c.carry ++ input)
  (out, { carry := stashCarry tail })

/-- The outputs of one push after another, concatenated. -/
def pushAll (c : StripAnsiCarry) : List Bytes → Bytes
  | [] => []
  | input :: inputs => (c.push input).1 ++ (c.push input).2.pushAll inputs

/-- No fragment that a push carries is over the limit. -/
def Carries (c : StripAnsiCarry) : List Bytes → Prop
  | [] => True
  | input :: inputs => (scan (c.carry ++ input)).2.length ≤ maxCarry ∧ (c.push input).2.Carries inputs

end StripAnsiCarry

/-! ## Where an escape ends -/

/-- What follows the terminator of a string: `none` where there is none. -/
def endString (byBel : Bool) : Bytes → Option Bytes
  | [] => none
  | b :: rest =>
    if byBel && b == bel then some rest
    else if b == esc && rest.head? == some backslash then some rest.tail
    else endString byBel rest

/-- What follows the escape `ESC kind body`: `none` where the input ends inside it. -/
def endEscape (kind : UInt8) (body : Bytes) : Option Bytes :=
  if kind = 0x5b then carryCsi body
  else if kind = 0x5d then endString true body
  else if kind ∈ [0x50, 0x58, 0x5e, 0x5f] then endString false body
  else some body

theorem skipCsi_eq (body : Bytes) : skipCsi body = (carryCsi body).getD [] := by
  unfold skipCsi carryCsi
  split
  · rfl
  · split <;> rfl

theorem skipString_eq (byBel : Bool) (body : Bytes) : skipString byBel body = (endString byBel body).getD [] := by
  induction body with
  | nil => rfl
  | cons b rest ih =>
    unfold skipString endString
    split
    · rfl
    · split
      · rfl
      · exact ih

theorem skipEscape_eq (kind : UInt8) (body : Bytes) : skipEscape kind body = (endEscape kind body).getD [] := by
  unfold skipEscape endEscape
  split
  · exact skipCsi_eq body
  · split
    · exact skipString_eq true body
    · split
      · exact skipString_eq false body
      · rfl

theorem endEscape_suffix {kind : UInt8} {body after : Bytes} (h : endEscape kind body = some after) : after <:+ body := by
  have hskip := skipEscape_suffix kind body
  rwa [skipEscape_eq, h] at hskip

/-- The escape that the end of the input cuts off, or nothing. -/
def unfinished : Bytes → Bytes
  | [] => []
  | b :: rest =>
    if b ≠ esc then unfinished rest
    else match rest with
      | [] => [b]
      | kind :: body =>
        match _h : endEscape kind body with
        | none => b :: kind :: body
        | some after => unfinished after
termination_by input => input.length
decreasing_by
  · simp
  · have h := (endEscape_suffix _h).length_le
    simp only [List.length_cons]
    omega

/-- The input without the escape its end cuts off. -/
def complete (input : Bytes) : Bytes := input.take (input.length - (unfinished input).length)

theorem dropWhile_split {p : UInt8 → Bool} {l rest : Bytes} {f : UInt8} (h : l.dropWhile p = f :: rest) :
    ∃ front, l = front ++ f :: rest ∧ front.dropWhile p = [] ∧ ∀ more, (front ++ f :: more).dropWhile p = f :: more := by
  induction l with
  | nil => cases h
  | cons b l ih =>
    rw [List.dropWhile_cons] at h
    split at h <;> rename_i hb
    · obtain ⟨front, rfl, hnil, hmore⟩ := ih h
      refine ⟨b :: front, rfl, ?_, fun more => ?_⟩
      · rw [List.dropWhile_cons, if_pos hb, hnil]
      · rw [List.cons_append, List.dropWhile_cons, if_pos hb, hmore]
    · obtain ⟨rfl, rfl⟩ := List.cons.inj h
      exact ⟨[], rfl, rfl, fun more => by rw [List.nil_append, List.dropWhile_cons, if_neg hb]⟩

theorem csiParams_split {body rest : Bytes} {f : UInt8} (h : csiParams body = f :: rest) :
    ∃ front, body = front ++ f :: rest ∧ csiParams front = [] ∧ ∀ more, csiParams (front ++ f :: more) = f :: more := by
  obtain ⟨inter, hinter, hnil, hmore⟩ := dropWhile_split h
  cases inter with
  | nil =>
    obtain ⟨params, hparams, hnil', hmore'⟩ := dropWhile_split hinter
    refine ⟨params, hparams, ?_, fun more => ?_⟩
    · rw [csiParams, hnil']
      rfl
    · rw [csiParams, hmore']
      exact hmore more
  | cons b inter =>
    obtain ⟨params, hparams, -, hmore'⟩ := dropWhile_split hinter
    refine ⟨params ++ b :: inter, ?_, ?_, fun more => ?_⟩
    · rw [hparams, List.append_assoc]
      rfl
    · rw [csiParams, hmore']
      exact hnil
    · rw [csiParams, List.append_assoc, List.cons_append, hmore']
      exact hmore more

/-- A CSI ends where it ends, also where less or other input follows. -/
theorem carryCsi_front {body after : Bytes} (h : carryCsi body = some after) :
    ∃ front, body = front ++ after ∧ ∀ done, done <+: after → skipCsi (front ++ done) = done := by
  unfold carryCsi at h
  split at h
  · cases h
  · rename_i f rest heq
    obtain ⟨front, rfl, hnil, hmore⟩ := csiParams_split heq
    split at h <;> rename_i hf <;> obtain rfl := Option.some.inj h
    · refine ⟨front ++ [f], by rw [List.append_assoc]; rfl, fun done _ => ?_⟩
      have hcsi : csiParams (front ++ [f] ++ done) = f :: done := by
        rw [List.append_assoc]
        exact hmore done
      rw [skipCsi, hcsi]
      exact if_pos hf
    · refine ⟨front, rfl, fun done hdone => ?_⟩
      cases done with
      | nil => rw [List.append_nil, skipCsi, hnil]
      | cons d done =>
        obtain ⟨rfl, -⟩ := List.cons_prefix_cons.1 hdone
        rw [skipCsi, hmore]
        exact if_neg hf

theorem endString_front {byBel : Bool} {body after : Bytes} (h : endString byBel body = some after) :
    ∃ front, front ≠ [] ∧ body = front ++ after ∧ ∀ done, skipString byBel (front ++ done) = done := by
  induction body with
  | nil => cases h
  | cons b rest ih =>
    unfold endString at h
    split at h <;> rename_i hb
    · obtain rfl := Option.some.inj h
      refine ⟨[b], List.cons_ne_nil b [], rfl, fun done => ?_⟩
      rw [List.singleton_append, skipString, if_pos hb]
    · split at h <;> rename_i hst
      · obtain rfl := Option.some.inj h
        cases rest with
        | nil => simp at hst
        | cons c rest =>
          refine ⟨[b, c], List.cons_ne_nil b [c], rfl, fun done => ?_⟩
          rw [List.cons_append, skipString, if_neg hb]
          exact if_pos hst
      · obtain ⟨front, hne, rfl, hdone⟩ := ih h
        obtain ⟨c, front, rfl⟩ := List.exists_cons_of_ne_nil hne
        refine ⟨b :: c :: front, List.cons_ne_nil b _, rfl, fun done => ?_⟩
        rw [List.cons_append, skipString, if_neg hb]
        exact (if_neg hst).trans (hdone done)

theorem endEscape_front {kind : UInt8} {body after : Bytes} (h : endEscape kind body = some after) :
    ∃ front, body = front ++ after ∧ ∀ done, done <+: after → skipEscape kind (front ++ done) = done := by
  unfold endEscape at h
  unfold skipEscape
  split at h <;> rename_i hcsi
  · simp only [if_pos hcsi]
    exact carryCsi_front h
  · simp only [if_neg hcsi]
    split at h <;> rename_i hosc
    · simp only [if_pos hosc]
      obtain ⟨front, -, hsplit, hdone⟩ := endString_front h
      exact ⟨front, hsplit, fun done _ => hdone done⟩
    · simp only [if_neg hosc]
      split at h <;> rename_i hdcs
      · simp only [if_pos hdcs]
        obtain ⟨front, -, hsplit, hdone⟩ := endString_front h
        exact ⟨front, hsplit, fun done _ => hdone done⟩
      · simp only [if_neg hdcs]
        obtain rfl := Option.some.inj h
        exact ⟨[], rfl, fun done _ => rfl⟩

theorem stripAnsi_text {b : UInt8} (h : b ≠ esc) (rest : Bytes) : stripAnsi (b :: rest) = b :: stripAnsi rest := by
  rw [stripAnsi.eq_def]
  exact if_pos h

theorem stripAnsi_escape (kind : UInt8) (body : Bytes) :
    stripAnsi (esc :: kind :: body) = stripAnsi (skipEscape kind body) := by
  rw [stripAnsi.eq_def]
  exact if_neg fun h => h rfl

theorem unfinished_text {b : UInt8} (h : b ≠ esc) (rest : Bytes) : unfinished (b :: rest) = unfinished rest := by
  rw [unfinished.eq_def]
  exact if_pos h

theorem unfinished_cut {kind : UInt8} {body : Bytes} (h : endEscape kind body = none) :
    unfinished (esc :: kind :: body) = esc :: kind :: body := by
  rw [unfinished.eq_def]
  simp only [ne_eq, not_true_eq_false, if_false]
  split <;> simp_all

theorem unfinished_escape {kind : UInt8} {body after : Bytes} (h : endEscape kind body = some after) :
    unfinished (esc :: kind :: body) = unfinished after := by
  rw [unfinished.eq_def]
  simp only [ne_eq, not_true_eq_false, if_false]
  split <;> simp_all

theorem stripAnsi_nil : stripAnsi [] = [] := by rw [stripAnsi.eq_def]

theorem unfinished_split (input : Bytes) :
    ∃ done, input = done ++ unfinished input ∧ stripAnsi done = stripAnsi input := by
  induction input using unfinished.induct with
  | case1 => exact ⟨[], by rw [unfinished.eq_def]; rfl, rfl⟩
  | case2 b rest hb ih =>
    obtain ⟨done, hsplit, hstrip⟩ := ih
    refine ⟨b :: done, ?_, ?_⟩
    · rw [unfinished_text hb, List.cons_append, ← hsplit]
    · rw [stripAnsi_text hb, stripAnsi_text hb, hstrip]
  | case3 b hb =>
    obtain rfl : b = esc := not_not.1 hb
    refine ⟨[], ?_, ?_⟩
    · rw [unfinished.eq_def]
      rfl
    · rw [stripAnsi_nil, stripAnsi.eq_def]
      rfl
  | case4 b hb kind body hend =>
    obtain rfl : b = esc := not_not.1 hb
    refine ⟨[], by rw [unfinished_cut hend, List.nil_append], ?_⟩
    rw [stripAnsi_escape, skipEscape_eq, hend]
    rfl
  | case5 b hb kind body after hend ih =>
    obtain rfl : b = esc := not_not.1 hb
    obtain ⟨done, hsplit, hstrip⟩ := ih
    obtain ⟨front, hbody, hfront⟩ := endEscape_front hend
    refine ⟨esc :: kind :: (front ++ done), ?_, ?_⟩
    · rw [unfinished_escape hend, hbody, List.cons_append, List.cons_append, List.append_assoc, ← hsplit]
    · rw [stripAnsi_escape, stripAnsi_escape, hfront done ⟨unfinished after, hsplit.symm⟩, skipEscape_eq, hend, hstrip]
      rfl

/-- Nothing of an escape that the end cuts off comes through. -/
theorem stripAnsi_complete (input : Bytes) : stripAnsi (complete input) = stripAnsi input := by
  obtain ⟨done, hsplit, hstrip⟩ := unfinished_split input
  have hcomplete : complete input = done := by
    have hlen := congrArg List.length hsplit
    rw [List.length_append] at hlen
    have htake : input.length - (unfinished input).length = done.length := by omega
    rw [complete, htake]
    exact List.prefix_iff_eq_take.1 ⟨unfinished input, hsplit.symm⟩ |>.symm
  rw [hcomplete, hstrip]

/-! ## The two scans of one buffer -/

/-- Whether a string holds an ESC that another byte than a backslash follows. -/
def strayString (byBel : Bool) : Bytes → Bool
  | [] => false
  | b :: rest =>
    if byBel && b == bel then false
    else if b == esc then
      match rest with
      | [] => false
      | c :: _ => c != backslash
    else strayString byBel rest

def strayEscape (kind : UInt8) (body : Bytes) : Bool :=
  if kind = 0x5b then false
  else if kind = 0x5d then strayString true body
  else if kind ∈ [0x50, 0x58, 0x5e, 0x5f] then strayString false body
  else false

/-- What follows the first OSC, DCS, SOS, PM or APC string that holds a stray ESC. -/
def afterStray : Bytes → Option Bytes
  | [] => none
  | b :: rest =>
    if b ≠ esc then afterStray rest
    else match rest with
      | [] => none
      | kind :: body =>
        if strayEscape kind body then some (skipEscape kind body) else afterStray (skipEscape kind body)
termination_by input => input.length
decreasing_by
  · simp
  · have h := (skipEscape_suffix kind body).length_le
    simp only [List.length_cons]
    omega

/-- Whether the input is one escape after another, the last one maybe cut off. -/
def onlyEscapes : Bytes → Bool
  | [] => true
  | b :: rest =>
    if b ≠ esc then false
    else match rest with
      | [] => true
      | kind :: body => onlyEscapes (skipEscape kind body)
termination_by input => input.length
decreasing_by
  have h := (skipEscape_suffix kind body).length_le
  simp only [List.length_cons]
  omega

theorem stripAnsi_eq_nil (input : Bytes) : stripAnsi input = [] ↔ onlyEscapes input = true := by
  induction input using stripAnsi.induct with
  | case1 =>
    rw [stripAnsi_nil, onlyEscapes.eq_def]
    exact ⟨fun _ => rfl, fun _ => rfl⟩
  | case2 b rest hb ih =>
    rw [stripAnsi_text hb, onlyEscapes.eq_def]
    simp only [if_pos hb, List.cons_ne_nil, Bool.false_eq_true]
  | case3 b hb =>
    obtain rfl : b = esc := not_not.1 hb
    rw [stripAnsi.eq_def, onlyEscapes.eq_def]
    exact ⟨fun _ => rfl, fun _ => rfl⟩
  | case4 b hb kind body ih =>
    obtain rfl : b = esc := not_not.1 hb
    rw [stripAnsi_escape, ih, onlyEscapes.eq_def (esc :: kind :: body)]
    simp only [ne_eq, not_true_eq_false, if_false]

theorem carryString_eq (byBel : Bool) (body : Bytes) :
    carryString byBel body = if strayString byBel body then none else endString byBel body := by
  induction body with
  | nil => rfl
  | cons b rest ih =>
    unfold carryString strayString endString
    by_cases hb : (byBel && b == bel) = true
    · simp only [if_pos hb]
      rfl
    · simp only [if_neg hb]
      by_cases hesc : (b == esc) = true
      · simp only [hesc, if_true, Bool.true_and]
        cases rest with
        | nil => rfl
        | cons c rest =>
          by_cases hc : c = backslash
          · simp [hc]
          · simp [hc]
      · simp only [hesc, Bool.false_and, Bool.false_eq_true, if_false]
        exact ih

theorem carryEscape_eq (kind : UInt8) (body : Bytes) :
    carryEscape kind body = if strayEscape kind body then none else endEscape kind body := by
  unfold carryEscape strayEscape endEscape
  split
  · rfl
  · split
    · exact carryString_eq true body
    · split
      · exact carryString_eq false body
      · rfl

theorem scan_text {b : UInt8} (h : b ≠ esc) (rest : Bytes) : scan (b :: rest) = (b :: (scan rest).1, (scan rest).2) := by
  rw [scan.eq_def]
  exact if_pos h

theorem scan_cut {kind : UInt8} {body : Bytes} (h : carryEscape kind body = none) :
    scan (esc :: kind :: body) = ([], esc :: kind :: body) := by
  rw [scan.eq_def]
  simp only [ne_eq, not_true_eq_false, if_false]
  split <;> simp_all

theorem scan_escape {kind : UInt8} {body after : Bytes} (h : carryEscape kind body = some after) :
    scan (esc :: kind :: body) = scan after := by
  rw [scan.eq_def]
  simp only [ne_eq, not_true_eq_false, if_false]
  split <;> simp_all

/-- The carrying scanner stops where it meets a stray ESC, and the plain one goes on. -/
theorem stripAnsi_eq_scan (input : Bytes) :
    stripAnsi input = (scan input).1 ++ ((afterStray input).map stripAnsi).getD [] := by
  induction input using scan.induct with
  | case1 =>
    rw [stripAnsi_nil, scan.eq_def, afterStray.eq_def]
    rfl
  | case2 b rest hb out stash _ ih =>
    rw [stripAnsi_text hb, scan_text hb, ih, afterStray.eq_def (b :: rest)]
    simp only [if_pos hb, List.cons_append]
  | case3 b hb =>
    obtain rfl : b = esc := not_not.1 hb
    rw [stripAnsi.eq_def, scan.eq_def, afterStray.eq_def]
    rfl
  | case4 b hb kind body hend =>
    obtain rfl : b = esc := not_not.1 hb
    rw [stripAnsi_escape, scan_cut hend, afterStray.eq_def]
    simp only [ne_eq, not_true_eq_false, if_false, List.nil_append]
    rw [carryEscape_eq] at hend
    split at hend <;> rename_i hstray
    · rw [if_pos hstray]
      rfl
    · -- the buffer ends inside the escape
      rw [if_neg hstray, skipEscape_eq, hend, Option.getD_none, stripAnsi_nil, afterStray.eq_def]
      rfl
  | case5 b hb kind body after hend ih =>
    obtain rfl : b = esc := not_not.1 hb
    rw [stripAnsi_escape, scan_escape hend, afterStray.eq_def]
    simp only [ne_eq, not_true_eq_false, if_false]
    rw [carryEscape_eq] at hend
    split at hend <;> rename_i hstray
    · cases hend
    · rw [if_neg hstray, skipEscape_eq, hend, Option.getD_some]
      exact ih

/-! ## However the reads are cut -/

/-- `push` takes a byte of text or a whole escape at a time. -/
def takes : Bytes → Look Empty (Option UInt8)
  | [] => .more
  | b :: rest =>
    if b ≠ esc then .item (some b) 1
    else match rest with
      | [] => .more
      | kind :: body =>
        match carryEscape kind body with
        | none => .more
        | some after => .item none (body.length + 2 - after.length)

theorem takes_text {b : UInt8} (h : b ≠ esc) (rest : Bytes) : takes (b :: rest) = .item (some b) 1 := if_pos h

theorem takes_escape (kind : UInt8) (body : Bytes) : takes (esc :: kind :: body) =
    match carryEscape kind body with
    | none => .more
    | some after => .item none (body.length + 2 - after.length) := by
  have hesc : ¬ esc ≠ esc := not_not.2 rfl
  exact (if_neg hesc : (if esc ≠ esc then Look.item (some esc) 1 else _) = _)

/-- What is taken is a byte of text, or an escape that is whole. -/
theorem takes_item {xs : Bytes} {b : Option UInt8} {n : Nat} (h : takes xs = .item b n) :
    (∃ x rest, x ≠ esc ∧ xs = x :: rest ∧ b = some x ∧ n = 1) ∨
      ∃ kind body after, xs = esc :: kind :: body ∧ carryEscape kind body = some after ∧ b = none ∧
        n = body.length + 2 - after.length := by
  cases xs with
  | nil => cases h
  | cons x rest =>
    by_cases hx : x = esc
    · subst hx
      cases rest with
      | nil => cases h
      | cons kind body =>
        rw [takes_escape] at h
        split at h
        · cases h
        · rename_i after hend
          cases h
          exact .inr ⟨kind, body, after, rfl, hend, rfl, rfl⟩
    · rw [takes_text hx] at h
      cases h
      exact .inl ⟨x, rest, hx, rfl, rfl, rfl⟩

theorem takes_pos {xs : Bytes} {b : Option UInt8} {n : Nat} (h : takes xs = .item b n) : 0 < n := by
  obtain ⟨x, rest, -, -, -, rfl⟩ | ⟨kind, body, after, -, hend, -, rfl⟩ := takes_item h
  · exact Nat.one_pos
  · have hlen := (carryEscape_append hend []).1.length_le
    omega

theorem takes_le {xs : Bytes} {b : Option UInt8} {n : Nat} (h : takes xs = .item b n) : n ≤ xs.length := by
  obtain ⟨x, rest, -, rfl, -, rfl⟩ | ⟨kind, body, after, rfl, -, -, rfl⟩ := takes_item h
  · exact Nat.succ_le_succ (Nat.zero_le _)
  · simp only [List.length_cons]
    omega

theorem takes_append {xs : Bytes} {b : Option UInt8} {n : Nat} (ys : Bytes) (h : takes xs = .item b n) :
    takes (xs ++ ys) = .item b n := by
  obtain ⟨x, rest, hx, rfl, rfl, rfl⟩ | ⟨kind, body, after, rfl, hend, rfl, rfl⟩ := takes_item h
  · exact takes_text hx _
  · rw [List.cons_append, List.cons_append, takes_escape, (carryEscape_append hend ys).2]
    simp only [List.length_append]
    congr 1
    omega

def reader : Scanner UInt8 Empty (Option UInt8) where
  look := takes
  item_pos := takes_pos
  item_le := takes_le
  item_append := takes_append
  bad_append := fun {_ e} _ _ => e.elim

theorem reader_look (xs : Bytes) : reader.look xs = takes xs := rfl

/-- The loop of `push` drains its buffer. -/
theorem scan_eq_drain (buf : Bytes) :
    ∃ items, reader.drain buf = (items, .ok (scan buf).2) ∧ (scan buf).1 = items.filterMap id := by
  induction buf using scan.induct with
  | case1 => exact ⟨[], by rw [reader.drain_more rfl, scan.eq_def], by rw [scan.eq_def]; rfl⟩
  | case2 b rest hb out stash _ ih =>
    obtain ⟨items, hdrain, hout⟩ := ih
    refine ⟨some b :: items, ?_, ?_⟩
    · rw [reader.drain_item ((reader_look _).trans (takes_text hb rest)), scan_text hb, List.drop_succ_cons, List.drop_zero, hdrain]
    · rw [scan_text hb, hout]
      rfl
  | case3 b hb =>
    obtain rfl : b = esc := not_not.1 hb
    refine ⟨[], ?_, by rw [scan.eq_def]; rfl⟩
    rw [reader.drain_more rfl, scan.eq_def]
    rfl
  | case4 b hb kind body hend =>
    obtain rfl : b = esc := not_not.1 hb
    refine ⟨[], ?_, by rw [scan_cut hend]; rfl⟩
    rw [reader.drain_more (by rw [reader_look, takes_escape, hend]), scan_cut hend]
  | case5 b hb kind body after hend ih =>
    obtain rfl : b = esc := not_not.1 hb
    obtain ⟨items, hdrain, hout⟩ := ih
    obtain ⟨front, hfront⟩ := (carryEscape_append hend []).1
    have hlook : reader.look (esc :: kind :: body) = .item none (body.length + 2 - after.length) := by
      rw [reader_look, takes_escape, hend]
    have hdrop : (esc :: kind :: body).drop (body.length + 2 - after.length) = after := by
      rw [← hfront, ← List.cons_append, ← List.cons_append, List.length_append]
      apply List.drop_left'
      simp only [List.length_cons]
      omega
    refine ⟨none :: items, ?_, ?_⟩
    · rw [reader.drain_item hlook, hdrop, hdrain, scan_escape hend]
    · rw [scan_escape hend, hout]
      rfl

theorem scan_append (xs ys : Bytes) :
    (scan (xs ++ ys)).1 = (scan xs).1 ++ (scan ((scan xs).2 ++ ys)).1 := by
  obtain ⟨items, hitems, hout⟩ := scan_eq_drain xs
  obtain ⟨more, hmore, hmoreOut⟩ := scan_eq_drain ((scan xs).2 ++ ys)
  obtain ⟨all, hall, hallOut⟩ := scan_eq_drain (xs ++ ys)
  have happend := reader.drain_append xs ys
  rw [hall, hitems] at happend
  simp only [Scanner.resume, hmore, Prod.mk.injEq] at happend
  rw [hallOut, happend.1, List.filterMap_append, hout, hmoreOut]

/-- What a scan stashes waits for more input. -/
theorem scan_stash (buf : Bytes) : scan (scan buf).2 = ([], (scan buf).2) := by
  obtain ⟨items, hitems, -⟩ := scan_eq_drain buf
  obtain ⟨more, hmore, hout⟩ := scan_eq_drain (scan buf).2
  have hlook := reader.look_rest (congrArg Prod.snd hitems)
  rw [reader.drain_more hlook, Prod.mk.injEq] at hmore
  obtain ⟨rfl, hstash⟩ := hmore
  exact Prod.ext hout (Except.ok.inj hstash).symm

namespace StripAnsiCarry

/-- Reads cut anywhere strip like one read of it all. -/
theorem pushAll_eq_scan (c : StripAnsiCarry) (inputs : List Bytes) (hc : scan c.carry = ([], c.carry))
    (h : c.Carries inputs) : c.pushAll inputs = (scan (c.carry ++ inputs.flatten)).1 := by
  induction inputs generalizing c with
  | nil => rw [List.flatten_nil, List.append_nil, hc, pushAll]
  | cons input inputs ih =>
    obtain ⟨hfits, hrest⟩ := h
    have hcarry : (c.push input).2.carry = (scan (c.carry ++ input)).2 := if_neg (Nat.not_lt.2 hfits)
    have hidle : scan (c.push input).2.carry = ([], (c.push input).2.carry) := by
      rw [hcarry]
      exact scan_stash _
    rw [pushAll, ih _ hidle hrest, hcarry, List.flatten_cons, ← List.append_assoc, scan_append (c.carry ++ input)]
    rfl

/-- Cut into reads or not, the text strips to the same, unless there is text after an OSC, DCS,
SOS, PM or APC string with a stray ESC: the reads swallow that text. -/
theorem pushAll_iff_after_stray (inputs : List Bytes) (h : ({} : StripAnsiCarry).Carries inputs) :
    ({} : StripAnsiCarry).pushAll inputs = stripAnsi (complete inputs.flatten) ↔
      ∀ rest, afterStray inputs.flatten = some rest → onlyEscapes rest = true := by
  have hinit : scan ({} : StripAnsiCarry).carry = ([], ({} : StripAnsiCarry).carry) := by
    rw [scan.eq_def]
  rw [pushAll_eq_scan _ inputs hinit h, stripAnsi_complete, stripAnsi_eq_scan]
  change (scan inputs.flatten).1 = _ ↔ _
  rw [List.self_eq_append_right]
  cases afterStray inputs.flatten with
  | none => simp
  | some rest =>
    constructor
    · rintro hnil _ hrest
      obtain rfl := Option.some.inj hrest
      exact (stripAnsi_eq_nil rest).1 hnil
    · intro h
      exact (stripAnsi_eq_nil rest).2 (h rest rfl)

/-- A title cut in the middle, and text after it. -/
def cutTitle : List Bytes := [[0x1b, 0x5d, 0x30], [0x41, 0x07, 0x42]]

theorem cutTitle_carries : ({} : StripAnsiCarry).Carries cutTitle := by
  have hfirst : scan [0x1b, 0x5d, 0x30] = ([], [0x1b, 0x5d, 0x30]) := scan_cut (by decide)
  have hsecond : scan [0x1b, 0x5d, 0x30, 0x41, 0x07, 0x42] = ([0x42], []) := by
    have hend : carryEscape 0x5d [0x30, 0x41, 0x07, 0x42] = some [0x42] := by decide
    refine (scan_escape hend).trans ?_
    rw [scan_text (by decide), scan.eq_def]
  refine ⟨?_, ?_, trivial⟩
  · change (scan [0x1b, 0x5d, 0x30]).2.length ≤ maxCarry
    rw [hfirst]
    decide
  · change (scan ((stashCarry (scan [0x1b, 0x5d, 0x30]).2) ++ [0x41, 0x07, 0x42])).2.length ≤ maxCarry
    rw [hfirst]
    change (scan [0x1b, 0x5d, 0x30, 0x41, 0x07, 0x42]).2.length ≤ maxCarry
    rw [hsecond]
    decide

theorem pushAll_cutTitle : ({} : StripAnsiCarry).pushAll cutTitle = stripAnsi (complete cutTitle.flatten) := by
  refine (pushAll_iff_after_stray cutTitle cutTitle_carries).2 ?_
  have hnone : afterStray cutTitle.flatten = none := by
    change afterStray (esc :: 0x5d :: [0x30, 0x41, 0x07, 0x42]) = none
    rw [afterStray.eq_def]
    change afterStray [0x42] = none
    rw [afterStray.eq_def]
    change afterStray [] = none
    rw [afterStray.eq_def]
  intro rest h
  rw [hnone] at h
  cases h

/-- `ESC ] ESC x BEL A` -/
def strayTitle : Bytes := [0x1b, 0x5d, 0x1b, 0x78, 0x07, 0x41]

/-- The text after the title never comes. -/
theorem pushAll_stray_title : ({} : StripAnsiCarry).Carries [strayTitle] ∧
    ({} : StripAnsiCarry).pushAll [strayTitle] ≠ stripAnsi (complete [strayTitle].flatten) := by
  have hscan : scan strayTitle = ([], strayTitle) := scan_cut (by decide)
  have hpush : ({} : StripAnsiCarry).pushAll [strayTitle] = (scan strayTitle).1 ++ [] := rfl
  have hstrip : stripAnsi strayTitle = [0x41] := by
    refine (stripAnsi_escape 0x5d [0x1b, 0x78, 0x07, 0x41]).trans ?_
    change stripAnsi [0x41] = [0x41]
    rw [stripAnsi_text (by decide), stripAnsi_nil]
  constructor
  · refine ⟨?_, trivial⟩
    change (scan strayTitle).2.length ≤ maxCarry
    rw [hscan]
    decide
  · rw [hpush, hscan, stripAnsi_complete, List.flatten_singleton, hstrip]
    decide

end StripAnsiCarry

end Hyoui.Strip
