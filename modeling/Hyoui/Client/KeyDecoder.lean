import Hyoui.Lib.Scanner
import Hyoui.Lib.Search
import Hyoui.Scrollback
/-!
# Keys in the typed bytes

The attaching client looks for one key, Ctrl+Z, in what is typed; all else goes through as it is. A
terminal sends Ctrl+Z in one of several encodings, and a read may end in the middle of one: such bytes
are held back until the rest of the key or their deadline comes.
-/

namespace Hyoui.Client

open Hyoui.Protocol Hyoui.Lib

def ctrlZByte : UInt8 := 0x1a

/-- The byte sequences that count as a press of Ctrl+Z. -/
def ctrlzEncodings : List Bytes := [
  [ctrlZByte],
  [0x1b, 0x5b, 0x31, 0x32, 0x32, 0x3b, 0x35, 0x75],
  [0x1b, 0x5b, 0x31, 0x32, 0x32, 0x3b, 0x35, 0x3a, 0x31, 0x75],
  [0x1b, 0x5b, 0x31, 0x32, 0x32, 0x3b, 0x35, 0x3a, 0x32, 0x75],
  [0x1b, 0x5b, 0x31, 0x32, 0x32, 0x3a, 0x31, 0x32, 0x32, 0x3b, 0x35, 0x75],
  [0x1b, 0x5b, 0x31, 0x32, 0x32, 0x3a, 0x31, 0x32, 0x32, 0x3b, 0x35, 0x3a, 0x31, 0x75],
  [0x1b, 0x5b, 0x31, 0x32, 0x32, 0x3a, 0x31, 0x32, 0x32, 0x3b, 0x35, 0x3a, 0x32, 0x75],
  [0x1b, 0x5b, 0x32, 0x37, 0x3b, 0x35, 0x3b, 0x31, 0x32, 0x32, 0x7e]]

def hold : Nat := millis 20

inductive KeyToken where
  | ctrlZ (bytes : Bytes)
  | passthrough (bytes : Bytes)
deriving DecidableEq

structure KeyDecoder where
  partialBytes : Bytes := []
  holdDeadline : Option Instant := none
deriving DecidableEq

inductive Scan where
  | ctrlZ (len : Nat)
  | other
  | incomplete
deriving DecidableEq

/-- The loop of `scan` over the encodings. -/
def scanFrom (buf : Bytes) (incomplete : Bool) : List Bytes → Scan
  | [] => if incomplete then .incomplete else .other
  | seq :: seqs =>
    if seq.length ≤ buf.length then
      if buf.take seq.length = seq then .ctrlZ seq.length else scanFrom buf incomplete seqs
    else scanFrom buf (incomplete || buf.isPrefixOf seq) seqs

def scan (buf : Bytes) : Scan := scanFrom buf false ctrlzEncodings

/-! ## What the scan says -/

section Scanning

variable {buf : Bytes} {incomplete : Bool} {seqs : List Bytes}

theorem scanFrom_ctrlZ {len : Nat} (h : scanFrom buf incomplete seqs = .ctrlZ len) :
    ∃ seq ∈ seqs, seq <+: buf ∧ seq.length = len := by
  induction seqs generalizing incomplete with
  | nil =>
    unfold scanFrom at h
    split at h <;> cases h
  | cons seq seqs ih =>
    unfold scanFrom at h
    split at h
    · split at h
      · rename_i hfront
        cases h
        exact ⟨seq, List.mem_cons_self, List.prefix_iff_eq_take.2 hfront.symm, rfl⟩
      · obtain ⟨s, hs, hfound⟩ := ih h
        exact ⟨s, List.mem_cons_of_mem _ hs, hfound⟩
    · obtain ⟨s, hs, hfound⟩ := ih h
      exact ⟨s, List.mem_cons_of_mem _ hs, hfound⟩

/-- An encoding in front is found, this one or an earlier one. -/
theorem scanFrom_found {seq : Bytes} (hseq : seq ∈ seqs) (hfront : seq <+: buf) :
    ∃ len, scanFrom buf incomplete seqs = .ctrlZ len := by
  induction seqs generalizing incomplete with
  | nil => cases hseq
  | cons s seqs ih =>
    unfold scanFrom
    obtain rfl | hrest := List.mem_cons.1 hseq
    · rw [if_pos hfront.length_le, if_pos (List.prefix_iff_eq_take.1 hfront).symm]
      exact ⟨_, rfl⟩
    · split
      · split
        · exact ⟨_, rfl⟩
        · exact ih hrest
      · exact ih hrest

/-- Without a complete encoding in front, the scan says whether one has begun. -/
theorem scanFrom_none (hnone : ∀ seq ∈ seqs, ¬ seq <+: buf) :
    scanFrom buf incomplete seqs =
      if incomplete = true ∨ ∃ seq ∈ seqs, buf <+: seq then .incomplete else .other := by
  induction seqs generalizing incomplete with
  | nil => simp [scanFrom]
  | cons seq seqs ih =>
    have hrest := fun s hs => hnone s (List.mem_cons_of_mem _ hs)
    have hfront : ¬ buf.take seq.length = seq := fun h =>
      hnone seq List.mem_cons_self (List.prefix_iff_eq_take.2 h.symm)
    unfold scanFrom
    split
    · rename_i hle
      have hno : ¬ buf <+: seq := by
        intro h
        have heq := h.eq_of_length (le_antisymm h.length_le hle)
        exact hnone seq List.mem_cons_self (heq ▸ List.prefix_refl _)
      rw [ih hrest]
      simp [hno]
    · rw [ih hrest]
      simp [List.isPrefixOf_iff_prefix, or_assoc]

theorem encodings_pos : ∀ seq ∈ ctrlzEncodings, 0 < seq.length := by decide

/-- No encoding is the front of another. -/
theorem encodings_prefixFree : ∀ seq ∈ ctrlzEncodings, ∀ seq' ∈ ctrlzEncodings, seq <+: seq' → seq = seq' := by
  decide

theorem scan_none (hnone : ∀ seq ∈ ctrlzEncodings, ¬ seq <+: buf) :
    scan buf = if ∃ seq ∈ ctrlzEncodings, buf <+: seq then .incomplete else .other := by
  simp [scan, scanFrom_none hnone]

theorem scan_ctrlZ {len : Nat} : scan buf = .ctrlZ len ↔ ∃ seq ∈ ctrlzEncodings, seq <+: buf ∧ seq.length = len := by
  refine ⟨scanFrom_ctrlZ, ?_⟩
  rintro ⟨seq, hseq, hfront, rfl⟩
  obtain ⟨len, hlen⟩ : ∃ len, scan buf = .ctrlZ len := scanFrom_found hseq hfront
  obtain ⟨seq', hseq', hfront', rfl⟩ := scanFrom_ctrlZ hlen
  obtain h | h := List.prefix_or_prefix_of_prefix hfront hfront'
  · rwa [encodings_prefixFree _ hseq _ hseq' h]
  · rwa [← encodings_prefixFree _ hseq' _ hseq h]

theorem scan_ctrlZ_pos {len : Nat} (h : scan buf = .ctrlZ len) : 0 < len ∧ len ≤ buf.length := by
  obtain ⟨seq, hseq, hfront, rfl⟩ := scan_ctrlZ.1 h
  exact ⟨encodings_pos seq hseq, hfront.length_le⟩

theorem scan_incomplete (h : scan buf = .incomplete) :
    (∃ seq ∈ ctrlzEncodings, buf <+: seq) ∧ ∀ seq ∈ ctrlzEncodings, ¬ seq <+: buf := by
  have hnone : ∀ seq ∈ ctrlzEncodings, ¬ seq <+: buf := by
    intro seq hseq hfront
    rw [scan_ctrlZ.2 ⟨seq, hseq, hfront, rfl⟩] at h
    cases h
  rw [scan_none hnone] at h
  split at h
  · exact ⟨‹_›, hnone⟩
  · cases h

theorem scan_other (h : scan buf = .other) :
    (¬ ∃ seq ∈ ctrlzEncodings, buf <+: seq) ∧ ∀ seq ∈ ctrlzEncodings, ¬ seq <+: buf := by
  have hnone : ∀ seq ∈ ctrlzEncodings, ¬ seq <+: buf := by
    intro seq hseq hfront
    rw [scan_ctrlZ.2 ⟨seq, hseq, hfront, rfl⟩] at h
    cases h
  rw [scan_none hnone] at h
  split at h
  · cases h
  · exact ⟨‹_›, hnone⟩

/-- More input does not change what was settled. -/
theorem scan_append_other (more : Bytes) (h : scan buf = .other) : scan (buf ++ more) = .other := by
  obtain ⟨hbegun, hnone⟩ := scan_other h
  rw [scan_none, if_neg]
  · rintro ⟨seq, hseq, hfront⟩
    exact hbegun ⟨seq, hseq, (List.prefix_append _ _).trans hfront⟩
  · intro seq hseq hfront
    obtain hle | hle := List.prefix_or_prefix_of_prefix hfront (List.prefix_append buf more)
    · exact hnone seq hseq hle
    · exact hbegun ⟨seq, hseq, hle⟩

theorem scan_append_ctrlZ {len : Nat} (more : Bytes) (h : scan buf = .ctrlZ len) : scan (buf ++ more) = .ctrlZ len := by
  obtain ⟨seq, hseq, hfront, hlen⟩ := scan_ctrlZ.1 h
  exact scan_ctrlZ.2 ⟨seq, hseq, hfront.trans (List.prefix_append _ _), hlen⟩

end Scanning

/-! ## Feeding -/

/-- The collected bytes that are no key become a token, unless there are none. -/
def flush (pass : Bytes) : List KeyToken := if pass = [] then [] else [.passthrough pass]

/-- The loop of `feed`: the tokens, and what is left because its rest may come. -/
def walk (buf pass : Bytes) : List KeyToken × Bytes :=
  match buf with
  | [] => (flush pass, [])
  | b :: rest =>
    match _hscan : scan (b :: rest) with
    | .incomplete => (flush pass, b :: rest)
    | .ctrlZ len =>
      let (out, left) := walk ((b :: rest).drop len) []
      (flush pass ++ .ctrlZ ((b :: rest).take len) :: out, left)
    | .other => walk rest (pass ++ [b])
termination_by buf.length
decreasing_by
  · have := scan_ctrlZ_pos _hscan
    simp only [List.length_drop]; omega
  · simp

namespace KeyDecoder

/-- The held bytes have waited long enough for their rest. -/
def expired (d : KeyDecoder) (now : Instant) : Bool :=
  d.partialBytes ≠ [] && d.holdDeadline.any (· ≤ now)

/-- Bytes held too long are no key, and are not joined to what comes now. Only a byte that comes
extends the deadline. -/
def feed (d : KeyDecoder) (chunk : Bytes) (now : Instant) : List KeyToken × KeyDecoder :=
  let pass := if d.expired now then d.partialBytes else []
  let held := if d.expired now then [] else d.partialBytes
  let (out, left) := walk (held ++ chunk) pass
  let deadline := if chunk = [] then d.holdDeadline.getD (now + hold) else now + hold
  (out, { partialBytes := left, holdDeadline := if left = [] then none else some deadline })

def takePartial (d : KeyDecoder) : Bytes × KeyDecoder := (d.partialBytes, {})

/-- Feed after feed: all the tokens, and the decoder after them. -/
def feeds (d : KeyDecoder) : List (Bytes × Instant) → List KeyToken × KeyDecoder
  | [] => ([], d)
  | (chunk, now) :: rest =>
    let (out, d') := d.feed chunk now
    let (more, last) := d'.feeds rest
    (out ++ more, last)

/-- No feed comes when the hold of what an earlier one left is over. -/
def Unexpired (d : KeyDecoder) : List (Bytes × Instant) → Prop
  | [] => True
  | (chunk, now) :: rest => d.expired now = false ∧ (d.feed chunk now).2.Unexpired rest

end KeyDecoder

/-! ## Keys, however the tokens group the bytes between them -/

inductive Key where
  | ctrlZ (bytes : Bytes)
  | byte (b : UInt8)
deriving DecidableEq

namespace KeyToken

def bytes : KeyToken → Bytes
  | .ctrlZ bytes => bytes
  | .passthrough bytes => bytes

def keys : KeyToken → List Key
  | .ctrlZ bytes => [.ctrlZ bytes]
  | .passthrough bytes => bytes.map .byte

end KeyToken

def Key.bytes : Key → Bytes
  | .ctrlZ bytes => bytes
  | .byte b => [b]

/-- The key in front of the bytes. -/
def lookKey (buf : Bytes) : Look Empty Key :=
  match buf with
  | [] => .more
  | b :: rest =>
    match scan (b :: rest) with
    | .incomplete => .more
    | .ctrlZ len => .item (.ctrlZ ((b :: rest).take len)) len
    | .other => .item (.byte b) 1

theorem lookKey_ctrlZ {buf : Bytes} {len : Nat} (h : scan buf = .ctrlZ len) :
    lookKey buf = .item (.ctrlZ (buf.take len)) len := by
  cases buf with
  | nil =>
    have := scan_ctrlZ_pos h
    simp only [List.length_nil] at this
    omega
  | cons b rest => simp only [lookKey, h]

theorem lookKey_other {b : UInt8} {rest : Bytes} (h : scan (b :: rest) = .other) :
    lookKey (b :: rest) = .item (.byte b) 1 := by
  simp only [lookKey, h]

theorem lookKey_item {buf : Bytes} {key : Key} {n : Nat} (h : lookKey buf = .item key n) :
    (scan buf = .ctrlZ n ∧ key = .ctrlZ (buf.take n)) ∨
      (scan buf = .other ∧ n = 1 ∧ ∃ b rest, buf = b :: rest ∧ key = .byte b) := by
  unfold lookKey at h
  split at h
  · cases h
  · split at h
    · cases h
    · rename_i hscan
      cases h
      exact .inl ⟨hscan, rfl⟩
    · rename_i hscan
      cases h
      exact .inr ⟨hscan, rfl, _, _, rfl, rfl⟩

theorem lookKey_pos {buf : Bytes} {key : Key} {n : Nat} (h : lookKey buf = .item key n) : 0 < n ∧ n ≤ buf.length := by
  obtain ⟨hscan, -⟩ | ⟨-, rfl, b, rest, rfl, -⟩ := lookKey_item h
  · exact scan_ctrlZ_pos hscan
  · simp

theorem lookKey_append {buf : Bytes} {key : Key} {n : Nat} (more : Bytes) (h : lookKey buf = .item key n) :
    lookKey (buf ++ more) = .item key n := by
  obtain ⟨hscan, rfl⟩ | ⟨hscan, rfl, b, rest, rfl, rfl⟩ := lookKey_item h
  · rw [lookKey_ctrlZ (scan_append_ctrlZ more hscan), List.take_append_of_le_length (scan_ctrlZ_pos hscan).2]
  · exact lookKey_other (scan_append_other more hscan)

/-- The keys of the bytes, one at a time. -/
def keyScanner : Scanner UInt8 Empty Key where
  look := lookKey
  item_pos h := (lookKey_pos h).1
  item_le h := (lookKey_pos h).2
  item_append more h := lookKey_append more h
  bad_append {_ e} := e.elim

theorem drain_nil : keyScanner.drain [] = ([], .ok []) := keyScanner.drain_more rfl

theorem drain_incomplete {buf : Bytes} (h : scan buf = .incomplete) : keyScanner.drain buf = ([], .ok buf) := by
  refine keyScanner.drain_more ?_
  cases buf with
  | nil => rfl
  | cons b rest => simp only [keyScanner, lookKey, h]

theorem drain_ctrlZ {buf : Bytes} {len : Nat} (h : scan buf = .ctrlZ len) :
    keyScanner.drain buf =
      (.ctrlZ (buf.take len) :: (keyScanner.drain (buf.drop len)).1, (keyScanner.drain (buf.drop len)).2) :=
  keyScanner.drain_item (lookKey_ctrlZ h)

theorem drain_other {b : UInt8} {rest : Bytes} (h : scan (b :: rest) = .other) :
    keyScanner.drain (b :: rest) = (.byte b :: (keyScanner.drain rest).1, (keyScanner.drain rest).2) :=
  @Scanner.drain_item _ _ _ keyScanner (b :: rest) _ _ (lookKey_other h)

/-! ## The walk takes the keys off -/

theorem walk_nil (pass : Bytes) : walk [] pass = (flush pass, []) := by rw [walk]

theorem walk_incomplete {buf : Bytes} (pass : Bytes) (h : scan buf = .incomplete) : walk buf pass = (flush pass, buf) := by
  cases buf with
  | nil => exact walk_nil pass
  | cons b rest => rw [walk]; split <;> simp_all

theorem walk_ctrlZ {buf : Bytes} {len : Nat} (pass : Bytes) (h : scan buf = .ctrlZ len) :
    walk buf pass =
      (flush pass ++ .ctrlZ (buf.take len) :: (walk (buf.drop len) []).1, (walk (buf.drop len) []).2) := by
  cases buf with
  | nil => have := scan_ctrlZ_pos h; simp only [List.length_nil] at this; omega
  | cons b rest => rw [walk]; split <;> simp_all

theorem walk_other {b : UInt8} {rest : Bytes} (pass : Bytes) (h : scan (b :: rest) = .other) :
    walk (b :: rest) pass = walk rest (pass ++ [b]) := by
  rw [walk]; split <;> simp_all

theorem flush_keys (pass : Bytes) : (flush pass).flatMap KeyToken.keys = pass.map .byte := by
  unfold flush
  split <;> simp_all [KeyToken.keys]

/-- The tokens of a walk say the bytes passed by before it and then the keys of the buffer. -/
theorem walk_keys (buf pass : Bytes) :
    (walk buf pass).1.flatMap KeyToken.keys = pass.map .byte ++ (keyScanner.drain buf).1 ∧
      (keyScanner.drain buf).2 = .ok (walk buf pass).2 := by
  induction buf, pass using walk.induct with
  | case1 pass => simp [walk_nil, drain_nil, flush_keys]
  | case2 pass b rest hscan => simp [walk_incomplete pass hscan, drain_incomplete hscan, flush_keys]
  | case3 pass b rest len hscan out left hwalk ih =>
    rw [walk_ctrlZ pass hscan, drain_ctrlZ hscan]
    refine ⟨?_, ih.2⟩
    simpa [flush_keys, KeyToken.keys] using ih.1
  | case4 pass b rest hscan ih =>
    rw [walk_other pass hscan, drain_other hscan]
    refine ⟨?_, ih.2⟩
    simpa using ih.1

theorem flush_bytes (pass : Bytes) : (flush pass).flatMap KeyToken.bytes = pass := by
  unfold flush
  split <;> simp_all [KeyToken.bytes]

/-- No byte is lost or moved. -/
theorem walk_bytes (buf pass : Bytes) : (walk buf pass).1.flatMap KeyToken.bytes ++ (walk buf pass).2 = pass ++ buf := by
  induction buf, pass using walk.induct with
  | case1 pass => simp [walk_nil, flush_bytes]
  | case2 pass b rest hscan => simp [walk_incomplete pass hscan, flush_bytes]
  | case3 pass b rest len hscan out left hwalk ih =>
    rw [walk_ctrlZ pass hscan]
    simp only [List.flatMap_append, List.flatMap_cons, flush_bytes, KeyToken.bytes, List.append_assoc, ih]
    simp
  | case4 pass b rest hscan ih =>
    rw [walk_other pass hscan, ih]
    simp

/-- What is left has begun an encoding and not ended it. -/
theorem walk_left (buf pass : Bytes) : scan (walk buf pass).2 = .incomplete := by
  induction buf, pass using walk.induct with
  | case1 pass => simp only [walk_nil]; decide
  | case2 pass b rest hscan => rwa [walk_incomplete pass hscan]
  | case3 pass b rest len hscan out left hwalk ih => rwa [walk_ctrlZ pass hscan]
  | case4 pass b rest hscan ih => rwa [walk_other pass hscan]

theorem flush_ne {pass : Bytes} : KeyToken.passthrough [] ∉ flush pass := by
  unfold flush
  split <;> simp_all [eq_comm]

/-- A token stands for at least one byte. -/
theorem walk_ne (buf pass : Bytes) : KeyToken.passthrough [] ∉ (walk buf pass).1 := by
  induction buf, pass using walk.induct with
  | case1 pass => rw [walk_nil]; exact flush_ne
  | case2 pass b rest hscan => rw [walk_incomplete pass hscan]; exact flush_ne
  | case3 pass b rest len hscan out left hwalk ih =>
    rw [walk_ctrlZ pass hscan]
    simp [flush_ne, ih]
  | case4 pass b rest hscan ih => rwa [walk_other pass hscan]

/-! ## Presses of Ctrl+Z -/

/-- Where in the bytes the presses stand, and in which encoding. -/
def pressesFrom (pos : Nat) : List Key → List (Nat × Bytes)
  | [] => []
  | .ctrlZ bytes :: keys => (pos, bytes) :: pressesFrom (pos + bytes.length) keys
  | .byte _ :: keys => pressesFrom (pos + 1) keys

/-- The bytes an encoding begins with stand nowhere else in one. -/
theorem encodings_begin : ∀ seq ∈ ctrlzEncodings,
    (seq.head? = some 0x1a ∨ seq.head? = some 0x1b) ∧ 0x1a ∉ seq.tail ∧ 0x1b ∉ seq.tail := by
  decide

theorem encoding_begins {seq buf : Bytes} {j : Nat} (hseq : seq ∈ ctrlzEncodings) (hfront : seq <+: buf.drop j) :
    buf[j]? = some 0x1a ∨ buf[j]? = some 0x1b := by
  obtain ⟨rest, hrest⟩ := hfront
  have hhead := (encodings_begin seq hseq).1
  have hpos := encodings_pos seq hseq
  have hget : buf[j]? = seq.head? := by
    rw [← List.head?_drop, ← hrest, List.head?_append_of_ne_nil]
    exact List.ne_nil_of_length_pos hpos
  rwa [hget]

/-- No encoding begins inside another, however much of it there is. -/
theorem not_begin_inside {seq buf : Bytes} {j : Nat} (hseq : seq ∈ ctrlzEncodings) (hj : 0 < j)
    (hbuf : ∀ b, buf[j]? = some b → seq[j]? = some b) : ∀ enc ∈ ctrlzEncodings, ¬ enc <+: buf.drop j := by
  intro enc henc hfront
  obtain ⟨-, ha, hb⟩ := encodings_begin seq hseq
  have htail : ∀ b, seq[j]? = some b → b ∈ seq.tail := by
    intro b hget
    obtain ⟨j, rfl⟩ := Nat.exists_eq_succ_of_ne_zero (Nat.pos_iff_ne_zero.1 hj)
    rw [← List.getElem?_tail] at hget
    exact List.mem_of_getElem? hget
  obtain h | h := encoding_begins henc hfront
  · exact ha (htail _ (hbuf _ h))
  · exact hb (htail _ (hbuf _ h))

/-- The presses found in some bytes are all the encodings that stand in them. -/
theorem mem_presses {buf : Bytes} {pos i : Nat} {enc : Bytes} :
    (i, enc) ∈ pressesFrom pos (keyScanner.drain buf).1 ↔
      enc ∈ ctrlzEncodings ∧ ∃ j, i = pos + j ∧ enc <+: buf.drop j := by
  induction hlen : buf.length using Nat.strong_induction_on generalizing buf pos with
  | _ n ih =>
  cases hscan : scan buf with
  | incomplete =>
    obtain ⟨⟨seq, hseq, hbuf⟩, hnone⟩ := scan_incomplete hscan
    rw [drain_incomplete hscan]
    simp only [pressesFrom, List.not_mem_nil, false_iff, not_and, not_exists]
    rintro henc j - hfront
    cases j with
    | zero => exact hnone enc henc hfront
    | succ j =>
      refine not_begin_inside hseq (Nat.succ_pos j) (fun b hb => ?_) enc henc hfront
      obtain ⟨more, rfl⟩ := hbuf
      rw [List.getElem?_append_left (List.getElem?_eq_some_iff.1 hb).1, hb]
  | ctrlZ len =>
    obtain ⟨seq, hseq, hfront, rfl⟩ := scan_ctrlZ.1 hscan
    have hpos := encodings_pos seq hseq
    have hrest := @ih (buf.drop seq.length).length
      (by simp only [List.length_drop]; have := hfront.length_le; omega) (buf.drop seq.length) (pos + seq.length) rfl
    rw [drain_ctrlZ hscan, ← List.prefix_iff_eq_take.1 hfront]
    simp only [pressesFrom, List.mem_cons, Prod.mk.injEq, hrest, List.drop_drop]
    constructor
    · rintro (⟨rfl, rfl⟩ | ⟨henc, j, rfl, hj⟩)
      · exact ⟨hseq, 0, rfl, hfront⟩
      · exact ⟨henc, seq.length + j, by omega, hj⟩
    · rintro ⟨henc, j, rfl, hj⟩
      obtain rfl | hlt | hle : j = 0 ∨ (0 < j ∧ j < seq.length) ∨ seq.length ≤ j := by omega
      · left
        refine ⟨rfl, ?_⟩
        obtain h | h := List.prefix_or_prefix_of_prefix hfront hj
        · exact (encodings_prefixFree _ hseq _ henc h).symm
        · exact encodings_prefixFree _ henc _ hseq h
      · -- Inside the press that was found there is no other one.
        refine absurd hj (not_begin_inside hseq hlt.1 (fun b hb => ?_) enc henc)
        obtain ⟨more, rfl⟩ := hfront
        rwa [List.getElem?_append_left hlt.2] at hb
      · obtain ⟨k, rfl⟩ := Nat.exists_eq_add_of_le hle
        exact .inr ⟨henc, k, by omega, hj⟩
  | other =>
    obtain ⟨-, hnone⟩ := scan_other hscan
    cases buf with
    | nil => cases hscan
    | cons b rest =>
      have hrest := @ih rest.length (by simp only [List.length_cons] at hlen; omega) rest (pos + 1) rfl
      rw [drain_other hscan]
      simp only [pressesFrom, hrest]
      refine and_congr_right fun henc => ⟨?_, ?_⟩
      · rintro ⟨j, rfl, hj⟩
        exact ⟨j + 1, by omega, hj⟩
      · rintro ⟨j, rfl, hj⟩
        cases j with
        | zero => exact absurd hj (hnone enc henc)
        | succ j => exact ⟨j, by omega, hj⟩

theorem le_of_mem_presses {keys : List Key} {pos : Nat} {p : Nat × Bytes} (h : p ∈ pressesFrom pos keys) : pos ≤ p.1 := by
  induction keys generalizing pos with
  | nil => cases h
  | cons key keys ih =>
    cases key with
    | byte b => exact (Nat.le_succ pos).trans (ih h)
    | ctrlZ bytes =>
      obtain rfl | h := List.mem_cons.1 h
      · exact le_rfl
      · exact (Nat.le_add_right _ _).trans (ih h)

/-- Each press stands after the one before it. -/
theorem presses_increasing (buf : Bytes) (pos : Nat) :
    (pressesFrom pos (keyScanner.drain buf).1).Pairwise (·.1 < ·.1) := by
  induction hlen : buf.length using Nat.strong_induction_on generalizing buf pos with
  | _ n ih =>
  cases hscan : scan buf with
  | incomplete =>
    rw [drain_incomplete hscan]
    exact .nil
  | ctrlZ len =>
    have hpos := scan_ctrlZ_pos hscan
    rw [drain_ctrlZ hscan]
    refine .cons (fun p hp => ?_) (ih _ ?_ _ _ rfl)
    · have := le_of_mem_presses hp
      simp only [List.length_take] at this
      omega
    · simp only [List.length_drop]
      omega
  | other =>
    cases buf with
    | nil => cases hscan
    | cons b rest =>
      rw [drain_other hscan]
      exact ih _ (by simp only [List.length_cons] at hlen; omega) _ _ rfl

/-! ## Decoding -/

namespace KeyDecoder

variable {d : KeyDecoder} {chunk : Bytes} {now : Instant}

theorem feed_bytes (d : KeyDecoder) (chunk : Bytes) (now : Instant) :
    (d.feed chunk now).1.flatMap KeyToken.bytes ++ (d.feed chunk now).2.partialBytes = d.partialBytes ++ chunk := by
  simp only [feed, walk_bytes]
  split <;> simp

theorem feed_left (d : KeyDecoder) (chunk : Bytes) (now : Instant) :
    scan (d.feed chunk now).2.partialBytes = .incomplete := walk_left _ _

theorem feed_ne (d : KeyDecoder) (chunk : Bytes) (now : Instant) : KeyToken.passthrough [] ∉ (d.feed chunk now).1 :=
  walk_ne _ _

theorem deadline_none (h : (d.feed chunk now).2.partialBytes = []) : (d.feed chunk now).2.holdDeadline = none := by
  simp only [feed] at h ⊢
  rw [if_pos h]

theorem deadline_extended (h : (d.feed chunk now).2.partialBytes ≠ []) (hchunk : chunk ≠ []) :
    (d.feed chunk now).2.holdDeadline = some (now + hold) := by
  simp only [feed] at h ⊢
  rw [if_neg h, if_neg hchunk]

theorem deadline_kept (h : (d.feed [] now).2.partialBytes ≠ []) :
    (d.feed [] now).2.holdDeadline = some (d.holdDeadline.getD (now + hold)) := by
  simp only [feed] at h ⊢
  rw [if_neg h, if_pos trivial]

theorem feed_keys (chunk : Bytes) (h : d.expired now = false) :
    (d.feed chunk now).1.flatMap KeyToken.keys = (keyScanner.drain (d.partialBytes ++ chunk)).1 ∧
      (keyScanner.drain (d.partialBytes ++ chunk)).2 = .ok (d.feed chunk now).2.partialBytes := by
  simpa [feed, h] using walk_keys (d.partialBytes ++ chunk) []

theorem feed_keys_expired (chunk : Bytes) (h : d.expired now = true) :
    (d.feed chunk now).1.flatMap KeyToken.keys = d.partialBytes.map .byte ++ (keyScanner.drain chunk).1 ∧
      (keyScanner.drain chunk).2 = .ok (d.feed chunk now).2.partialBytes := by
  simpa [feed, h] using walk_keys chunk d.partialBytes

theorem feeds_bytes (d : KeyDecoder) (fs : List (Bytes × Instant)) :
    (d.feeds fs).1.flatMap KeyToken.bytes ++ (d.feeds fs).2.partialBytes =
      d.partialBytes ++ (fs.map Prod.fst).flatten := by
  induction fs generalizing d with
  | nil => simp [feeds]
  | cons f fs ih =>
    have hfeed := feed_bytes d f.1 f.2
    simp only [feeds, List.flatMap_append, List.append_assoc, ih, List.map_cons, List.flatten_cons]
    rw [← List.append_assoc, hfeed, List.append_assoc]

/-- The state a decoder is in between feeds. -/
structure Held (d : KeyDecoder) : Prop where
  begun : scan d.partialBytes = .incomplete
  timed : d.holdDeadline.isSome ↔ d.partialBytes ≠ []

theorem held_feed (d : KeyDecoder) (chunk : Bytes) (now : Instant) : (d.feed chunk now).2.Held := by
  refine ⟨feed_left d chunk now, ?_⟩
  simp only [feed]
  split <;> simp_all

theorem held_feeds (h : d.Held) (fs : List (Bytes × Instant)) : (d.feeds fs).2.Held := by
  induction fs generalizing d with
  | nil => exact h
  | cons f fs ih => exact ih (held_feed d f.1 f.2)

theorem held_fresh : Held {} := ⟨by decide, by simp⟩

/-- Without an expired hold the cuts between the feeds do not show. -/
theorem feeds_keys (h : d.Held) {fs : List (Bytes × Instant)} (hfs : d.Unexpired fs) :
    keyScanner.drain (d.partialBytes ++ (fs.map Prod.fst).flatten) =
      ((d.feeds fs).1.flatMap KeyToken.keys, .ok (d.feeds fs).2.partialBytes) := by
  induction fs generalizing d with
  | nil => simp [feeds, drain_incomplete h.begun]
  | cons f fs ih =>
    obtain ⟨hnow, hrest⟩ := hfs
    obtain ⟨hkeys, hleft⟩ := feed_keys f.1 hnow
    have := ih (held_feed d f.1 f.2) hrest
    have hresume := keyScanner.drain_append (d.partialBytes ++ f.1) (fs.map Prod.fst).flatten
    simp only [Scanner.resume, hleft, this] at hresume
    simp only [List.map_cons, List.flatten_cons, feeds, List.flatMap_append, hkeys]
    rw [← List.append_assoc, hresume]

theorem feed_nil_expired {t : Instant} (h : d.Held) (hd : d.holdDeadline = some t) (hnow : t ≤ now) :
    d.feed [] now = ([.passthrough d.partialBytes], {}) := by
  have hne : d.partialBytes ≠ [] := h.timed.1 (by simp [hd])
  have hexp : d.expired now = true := by simp [expired, hne, hd, hnow]
  simp [feed, hexp, walk_nil, flush, hne]

theorem feed_nil_waiting {t : Instant} (h : d.Held) (hd : d.holdDeadline = some t) (hnow : now < t) :
    d.feed [] now = ([], d) := by
  have hne : d.partialBytes ≠ [] := h.timed.1 (by simp [hd])
  have hexp : d.expired now = false := by simp [expired, hd, hnow]
  obtain ⟨held, deadline⟩ := d
  cases hd
  simp [feed, hexp, walk_incomplete [] h.begun, flush, hne]

/-- What the decoder makes of bytes fed to it in any pieces and at any times. -/
structure Decodes (fs : List (Bytes × Instant)) : Prop where
  lossless : (feeds {} fs).1.flatMap KeyToken.bytes ++ (feeds {} fs).2.partialBytes = (fs.map Prod.fst).flatten
  held : ∃ seq ∈ ctrlzEncodings, (feeds {} fs).2.partialBytes <+: seq ∧ (feeds {} fs).2.partialBytes ≠ seq
  timed : (feeds {} fs).2.holdDeadline.isSome ↔ (feeds {} fs).2.partialBytes ≠ []
  /-- A feed of nothing leaves the deadline where it is or, from the deadline on, gives the bytes up. -/
  idle : ∀ t, (feeds {} fs).2.holdDeadline = some t → ∀ now, (feeds {} fs).2.feed [] now =
    if t ≤ now then ([.passthrough (feeds {} fs).2.partialBytes], {}) else ([], (feeds {} fs).2)
  /-- When no hold runs out, neither the keys nor what is held depend on the cuts. -/
  uncut : Unexpired {} fs → ∀ fs', Unexpired {} fs' → (fs'.map Prod.fst).flatten = (fs.map Prod.fst).flatten →
    (feeds {} fs').1.flatMap KeyToken.keys = (feeds {} fs).1.flatMap KeyToken.keys ∧
      (feeds {} fs').2.partialBytes = (feeds {} fs).2.partialBytes
  /-- Then the presses are the encodings that stand in the bytes, -/
  recognised : Unexpired {} fs → ∀ i seq,
    (i, seq) ∈ pressesFrom 0 ((feeds {} fs).1.flatMap KeyToken.keys) ↔
      seq ∈ ctrlzEncodings ∧ seq <+: (fs.map Prod.fst).flatten.drop i
  /-- each of them once. -/
  once : Unexpired {} fs → (pressesFrom 0 ((feeds {} fs).1.flatMap KeyToken.keys)).Pairwise (·.1 < ·.1)

theorem decodes (fs : List (Bytes × Instant)) : Decodes fs := by
  have hheld := held_feeds held_fresh fs
  have hdrain : ∀ {fs}, Unexpired {} fs → keyScanner.drain (fs.map Prod.fst).flatten =
      ((feeds {} fs).1.flatMap KeyToken.keys, .ok (feeds {} fs).2.partialBytes) := fun h => feeds_keys held_fresh h
  refine ⟨feeds_bytes {} fs, ?_, hheld.timed, ?_, ?_, ?_, ?_⟩
  · obtain ⟨⟨seq, hseq, hbuf⟩, hnone⟩ := scan_incomplete hheld.begun
    refine ⟨seq, hseq, hbuf, fun heq => hnone seq hseq ?_⟩
    rw [heq]
  · intro t ht now
    split
    · exact feed_nil_expired hheld ht ‹_›
    · exact feed_nil_waiting hheld ht (Nat.lt_of_not_le ‹_›)
  · intro h fs' h' heq
    have hsame := hdrain h'
    rw [heq, hdrain h] at hsame
    simp only [Prod.mk.injEq, Except.ok.injEq] at hsame
    exact ⟨hsame.1.symm, hsame.2.symm⟩
  · intro h i seq
    have hmem := @mem_presses (fs.map Prod.fst).flatten 0 i seq
    rw [hdrain h] at hmem
    simpa using hmem
  · intro h
    have hinc := presses_increasing (fs.map Prod.fst).flatten 0
    rwa [hdrain h] at hinc

/-- The tokens themselves show the cuts: bytes that are no key go out with the feed they came in. -/
theorem cuts_group_passthrough :
    ¬ ∀ fs fs', Unexpired {} fs → Unexpired {} fs' → (fs.map Prod.fst).flatten = (fs'.map Prod.fst).flatten →
      (feeds {} fs).1 = (feeds {} fs').1 := by
  intro h
  have hsame := h [([0x61, 0x62], 0)] [([0x61], 0), ([0x62], 1)] ⟨by decide, trivial⟩
    ⟨by decide, by decide +kernel, trivial⟩ rfl
  revert hsame
  decide +kernel

end KeyDecoder

end Hyoui.Client
