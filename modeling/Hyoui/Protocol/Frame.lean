import Hyoui.Lib.Scanner
import Mathlib.Tactic
/-!
# The frame layer

Wire format: `[u32 LE size][u8 type][body]`, `size = 1 + body.len()`. There are two decoders
of it: `Frame::decode_from` reads from a blocking stream, `FrameDecoder` is pushed the bytes
as they arrive and never waits. Both are instances of one scanner, `frameScanner`, so they
agree on every input however it is cut (`decodeChunks_eq_decodeStream`).

An in-memory stream stands for the reader: its only failure is end of input. The capacity of
the decoder's buffer decides when it is compacted; the allocator's choice of a capacity is the
parameter `alloc`, about which nothing is assumed.
-/

namespace Hyoui.Protocol

open Hyoui.Lib

abbrev Bytes := List UInt8

def maxFrameSize : Nat := 16 * 1024 * 1024
def typeRawData : UInt8 := 0x00
def typeCborControl : UInt8 := 0x01
def typeRawAck : UInt8 := 0x02

inductive ProtocolError where
  | frameTooLarge (size : Nat)
  | frameTooSmall (size : Nat)
  | unknownType (ty : UInt8)
  | unexpectedEof (what : String)
deriving DecidableEq

structure Frame where
  ty : UInt8
  body : Bytes
deriving DecidableEq

/-! ## Encoding -/

namespace Frame

def rawData (body : Bytes) : Frame := { ty := typeRawData, body }
def cborControl (body : Bytes) : Frame := { ty := typeCborControl, body }
def rawAck (body : Bytes) : Frame := { ty := typeRawAck, body }

end Frame

/-- `u32::to_le_bytes`. -/
def toLeBytes (n : Nat) : Bytes :=
  [UInt8.ofNat n, UInt8.ofNat (n / 2 ^ 8), UInt8.ofNat (n / 2 ^ 16), UInt8.ofNat (n / 2 ^ 24)]

/-- `u32::from_le_bytes`. -/
def fromLeBytes (b0 b1 b2 b3 : UInt8) : Nat :=
  b0.toNat + 2 ^ 8 * b1.toNat + 2 ^ 16 * b2.toNat + 2 ^ 24 * b3.toNat

def Frame.encodeTo (f : Frame) : Except ProtocolError Bytes :=
  -- `checked_add(1)` on a `usize`
  if 2 ^ 64 ≤ f.body.length + 1 then .error (.frameTooLarge (2 ^ 32 - 1))
  else
    let size := f.body.length + 1
    if size > maxFrameSize then .error (.frameTooLarge (size % 2 ^ 32))
    else .ok (toLeBytes (size % 2 ^ 32) ++ f.ty :: f.body)

def checkSize (size : Nat) : Except ProtocolError Unit :=
  if size > maxFrameSize then .error (.frameTooLarge size)
  else if size < 1 then .error (.frameTooSmall size)
  else .ok ()

def checkType (ty : UInt8) : Except ProtocolError Unit :=
  if ty ≠ typeRawData ∧ ty ≠ typeCborControl ∧ ty ≠ typeRawAck then .error (.unknownType ty)
  else .ok ()

theorem fromLeBytes_toLeBytes (n : Nat) (h : n < 2 ^ 32) :
    fromLeBytes (UInt8.ofNat n) (UInt8.ofNat (n / 2 ^ 8)) (UInt8.ofNat (n / 2 ^ 16))
      (UInt8.ofNat (n / 2 ^ 24)) = n := by
  simp only [fromLeBytes, UInt8.toNat_ofNat']
  omega

/-! ## The stream decoder -/

def readExactEof (r : Bytes) (n : Nat) (what : String) : Except ProtocolError (Bytes × Bytes) :=
  if n ≤ r.length then .ok (r.take n, r.drop n) else .error (.unexpectedEof what)

/-- `Frame::decode_from`: the frame and what is left of the stream. -/
def Frame.decodeFrom (r : Bytes) : Except ProtocolError (Frame × Bytes) := do
  let (sizeBuf, r) ← readExactEof r 4 "size header"
  let size := fromLeBytes (sizeBuf.getD 0 0) (sizeBuf.getD 1 0) (sizeBuf.getD 2 0) (sizeBuf.getD 3 0)
  checkSize size
  let (tyBuf, r) ← readExactEof r 1 "type byte"
  let ty := tyBuf.getD 0 0
  checkType ty
  let bodyLen := size - 1
  if bodyLen > 0 then
    let (body, r) ← readExactEof r bodyLen "body"
    return ({ ty, body }, r)
  else
    return ({ ty, body := [] }, r)

/-! ## The incremental decoder -/

def sizeHeaderLen : Nat := 4
def retainedCapacity : Nat := 64 * 1024

/-- `FrameDecoder::complete_frame_len` on `avail = buf[pos..]`. -/
def completeFrameLen (avail : Bytes) : Except ProtocolError (Option Nat) :=
  match avail with
  | b0 :: b1 :: b2 :: b3 :: rest =>
    let size := fromLeBytes b0 b1 b2 b3
    match checkSize size, rest with
    | .error e, _ => .error e
    | .ok _, [] => .ok none
    | .ok _, ty :: _ =>
      match checkType ty with
      | .error e => .error e
      | .ok _ =>
        let total := sizeHeaderLen + size
        .ok (if avail.length ≥ total then some total else none)
  | _ => .ok none

/-- `capacity` is the buffer's, as the allocator last left it. -/
structure FrameDecoder where
  buf : Bytes := []
  pos : Nat := 0
  capacity : Nat := 0
deriving DecidableEq

namespace FrameDecoder

/-- The bytes received and not yet consumed. -/
def pending (d : FrameDecoder) : Bytes := d.buf.drop d.pos

/-- `alloc cap need` is the capacity of a buffer that had `cap` and must hold `need` bytes. -/
def push (alloc : Nat → Nat → Nat) (d : FrameDecoder) (bytes : Bytes) : FrameDecoder :=
  let d := if d.pos > 0 then { d with buf := d.buf.drop d.pos, pos := 0 } else d
  let buf := d.buf ++ bytes
  { d with buf, capacity := if buf.length ≤ d.capacity then d.capacity else alloc d.capacity buf.length }

def nextFrame (alloc : Nat → Nat → Nat) (d : FrameDecoder) : Except ProtocolError (Option Frame × FrameDecoder) := do
  match ← completeFrameLen d.pending with
  | none => return (none, d)
  | some total =>
    let start := d.pos
    let ty := d.buf.getD (start + sizeHeaderLen) 0
    let body := (d.buf.take (start + total)).drop (start + sizeHeaderLen + 1)
    let pos := d.pos + total
    let remaining := d.buf.length - pos
    let d' : FrameDecoder :=
      if d.capacity > retainedCapacity ∧ d.capacity / 2 ≥ remaining then
        { buf := d.buf.drop pos, pos := 0, capacity := alloc 0 remaining }
      else if remaining = 0 then { d with buf := [], pos := 0 }
      else { d with pos }
    return (some { ty, body }, d')

def isReady (d : FrameDecoder) : Bool :=
  match completeFrameLen d.pending with
  | .ok none => false
  | _ => true

end FrameDecoder

/-! ## One scanner for both -/

def frameLook (xs : Bytes) : Look ProtocolError Frame :=
  match completeFrameLen xs with
  | .error e => .bad e
  | .ok none => .more
  | .ok (some total) => .item { ty := xs.getD 4 0, body := (xs.take total).drop 5 } total

theorem checkSize_pos {size : Nat} (h : checkSize size = .ok ()) : 1 ≤ size ∧ size ≤ maxFrameSize := by
  unfold checkSize at h
  split at h
  · cases h
  · split at h
    · cases h
    · omega

/-- Once the header and the type byte are in and valid, only the body can be missing. -/
theorem completeFrameLen_header {b0 b1 b2 b3 ty : UInt8} {rest : Bytes}
    (hs : checkSize (fromLeBytes b0 b1 b2 b3) = .ok ()) (ht : checkType ty = .ok ()) :
    completeFrameLen (b0 :: b1 :: b2 :: b3 :: ty :: rest) =
      .ok (if fromLeBytes b0 b1 b2 b3 ≤ rest.length + 1 then some (4 + fromLeBytes b0 b1 b2 b3) else none) := by
  simp only [completeFrameLen, hs, ht]
  congr 1
  by_cases h : fromLeBytes b0 b1 b2 b3 ≤ rest.length + 1
  · rw [if_pos h, if_pos (by simp only [sizeHeaderLen, List.length_cons]; omega)]; rfl
  · rw [if_neg h, if_neg (by simp only [sizeHeaderLen, List.length_cons]; omega)]

theorem completeFrameLen_some {xs : Bytes} {total : Nat} (h : completeFrameLen xs = .ok (some total)) :
    5 ≤ total ∧ total ≤ xs.length := by
  unfold completeFrameLen at h
  split at h
  · rename_i b0 b1 b2 b3 rest
    dsimp only at h
    split at h <;> try cases h
    rename_i hs
    have hsize := checkSize_pos hs
    split at h
    · cases h
    simp only [Except.ok.injEq, Option.ite_none_right_eq_some, Option.some.injEq] at h
    simp only [sizeHeaderLen] at h
    omega
  · cases h

theorem completeFrameLen_append_some {xs : Bytes} {total : Nat} (ys : Bytes)
    (h : completeFrameLen xs = .ok (some total)) : completeFrameLen (xs ++ ys) = .ok (some total) := by
  unfold completeFrameLen at h
  split at h
  · rename_i b0 b1 b2 b3 rest
    dsimp only at h
    split at h <;> try cases h
    rename_i hs
    split at h
    · cases h
    rename_i ht
    simp only [Except.ok.injEq, Option.ite_none_right_eq_some, Option.some.injEq] at h
    obtain ⟨hfit, rfl⟩ := h
    simp only [completeFrameLen, List.cons_append, hs, ht]
    rw [if_pos (by simp only [List.length_cons, List.length_append] at hfit ⊢; omega)]
  · cases h

theorem completeFrameLen_append_error {xs : Bytes} {e : ProtocolError} (ys : Bytes)
    (h : completeFrameLen xs = .error e) : completeFrameLen (xs ++ ys) = .error e := by
  unfold completeFrameLen at h
  split at h
  · dsimp only at h
    split at h
    · rename_i hs
      simpa only [completeFrameLen, List.cons_append, hs] using h
    · cases h
    · rename_i hs
      split at h
      · rename_i ht
        simpa only [completeFrameLen, List.cons_append, hs, ht] using h
      · cases h
  · cases h

/-- The scanner both decoders implement. -/
def frameScanner : Scanner UInt8 ProtocolError Frame where
  look := frameLook
  item_pos := by
    intro xs b n h
    unfold frameLook at h
    split at h <;> cases h
    have := completeFrameLen_some ‹_›
    omega
  item_le := by
    intro xs b n h
    unfold frameLook at h
    split at h <;> cases h
    exact (completeFrameLen_some ‹_›).2
  item_append := by
    intro xs b n ys h
    unfold frameLook at h ⊢
    split at h <;> cases h
    rename_i total hc
    have hlen := completeFrameLen_some hc
    rw [completeFrameLen_append_some ys hc]
    simp only [List.take_append_of_le_length hlen.2, List.getD_eq_getElem?_getD,
      List.getElem?_append_left (show 4 < xs.length by omega)]
  bad_append := by
    intro xs e ys h
    unfold frameLook at h ⊢
    split at h <;> cases h
    rw [completeFrameLen_append_error ys ‹_›]

/-! ## What each decoder does with the front of its input -/

theorem checkSize_not_eof {size : Nat} {e : ProtocolError} (h : checkSize size = .error e) (what : String) :
    e ≠ .unexpectedEof what := by
  unfold checkSize at h
  split at h
  · cases h; simp
  · split at h <;> cases h; simp

theorem checkType_not_eof {ty : UInt8} {e : ProtocolError} (h : checkType ty = .error e) (what : String) :
    e ≠ .unexpectedEof what := by
  unfold checkType at h
  split at h <;> cases h; simp

theorem frameLook_bad_not_eof {xs : Bytes} {e : ProtocolError} (h : frameLook xs = .bad e) (what : String) :
    e ≠ .unexpectedEof what := by
  unfold frameLook at h
  split at h <;> cases h
  rename_i hc
  unfold completeFrameLen at hc
  split at hc
  · dsimp only at hc
    split at hc
    · rename_i hs; cases hc; exact checkSize_not_eof hs what
    · cases hc
    · split at hc
      · rename_i ht; cases hc; exact checkType_not_eof ht what
      · cases hc
  · cases hc

theorem readExactEof_ok {r : Bytes} {n : Nat} {what : String} (h : n ≤ r.length) :
    readExactEof r n what = .ok (r.take n, r.drop n) := if_pos h

theorem readExactEof_short {r : Bytes} {n : Nat} {what : String} (h : r.length < n) :
    readExactEof r n what = .error (.unexpectedEof what) := if_neg (by omega)

/-- The stream decoder reads exactly what the scanner sees; where the scanner wants more
input, the stream has ended. -/
theorem decodeFrom_spec (r : Bytes) :
    match frameLook r with
    | .item f n => Frame.decodeFrom r = .ok (f, r.drop n)
    | .bad e => Frame.decodeFrom r = .error e
    | .more => ∃ what, Frame.decodeFrom r = .error (.unexpectedEof what) := by
  match r with
  | [] | [_] | [_, _] | [_, _, _] => exact ⟨"size header", rfl⟩
  | b0 :: b1 :: b2 :: b3 :: rest =>
    have hhead : readExactEof (b0 :: b1 :: b2 :: b3 :: rest) 4 "size header" = .ok ([b0, b1, b2, b3], rest) :=
      readExactEof_ok (by simp)
    simp only [Frame.decodeFrom, hhead, bind, Except.bind, List.getD_cons_zero, List.getD_cons_succ]
    cases hs : checkSize (fromLeBytes b0 b1 b2 b3) with
    | error e => simp [frameLook, completeFrameLen, hs]
    | ok u =>
      have hsize := checkSize_pos hs
      cases rest with
      | nil =>
        simp only [frameLook, completeFrameLen, hs]
        exact ⟨"type byte", rfl⟩
      | cons ty rest =>
        have hty : readExactEof (ty :: rest) 1 "type byte" = .ok ([ty], rest) := readExactEof_ok (by simp)
        simp only [hty, List.getD_cons_zero]
        cases ht : checkType ty with
        | error e => simp [frameLook, completeFrameLen, hs, ht]
        | ok u =>
          simp only [frameLook, completeFrameLen_header hs ht]
          generalize fromLeBytes b0 b1 b2 b3 = size at hsize
          obtain ⟨k, rfl⟩ : ∃ k, size = k + 1 := ⟨size - 1, by omega⟩
          by_cases hfit : k ≤ rest.length
          · rw [if_pos (show k + 1 ≤ rest.length + 1 by omega)]
            cases k with
            | zero => simp [pure, Except.pure]
            | succ k =>
              rw [if_pos (show k + 1 + 1 - 1 > 0 by omega), readExactEof_ok (show k + 1 + 1 - 1 ≤ _ from hfit)]
              simp [pure, Except.pure, show 4 + (k + 1 + 1) = k + 1 + 1 + 1 + 1 + 1 + 1 by omega]
          · rw [if_neg (show ¬ k + 1 ≤ rest.length + 1 by omega), if_pos (show k + 1 - 1 > 0 by omega),
              readExactEof_short (show rest.length < k + 1 - 1 by omega)]
            exact ⟨"body", rfl⟩

theorem FrameDecoder.pending_push (alloc : Nat → Nat → Nat) (d : FrameDecoder) (bytes : Bytes)
    (h : d.pos ≤ d.buf.length) : (d.push alloc bytes).pending = d.pending ++ bytes := by
  unfold push pending
  split <;> simp [List.drop_append_of_le_length h]

theorem FrameDecoder.pos_push (alloc : Nat → Nat → Nat) (d : FrameDecoder) (bytes : Bytes) :
    (d.push alloc bytes).pos = 0 := by
  unfold push
  split <;> simp_all

/-- `next_frame` acts on the unconsumed bytes as the scanner does, whatever the capacity is. -/
theorem FrameDecoder.nextFrame_spec (alloc : Nat → Nat → Nat) (d : FrameDecoder) :
    match frameLook d.pending with
    | .more => d.nextFrame alloc = .ok (none, d)
    | .bad e => d.nextFrame alloc = .error e
    | .item f n => ∃ d', d.nextFrame alloc = .ok (some f, d') ∧ d'.pending = d.pending.drop n ∧ d'.pos ≤ d'.buf.length := by
  unfold frameLook nextFrame
  cases hc : completeFrameLen d.pending with
  | error e => rfl
  | ok o =>
    cases o with
    | none => rfl
    | some total =>
      have hlen := completeFrameLen_some hc
      have hty : d.buf.getD (d.pos + sizeHeaderLen) 0 = d.pending.getD 4 0 := by
        simp [pending, sizeHeaderLen, List.getD_eq_getElem?_getD]
      have hbody : (d.buf.take (d.pos + total)).drop (d.pos + sizeHeaderLen + 1) = (d.pending.take total).drop 5 := by
        simp only [pending, sizeHeaderLen, List.take_drop, List.drop_drop]
      simp only [pending, List.length_drop] at hlen
      simp only [bind, Except.bind, pure, Except.pure, hty, hbody]
      refine ⟨_, rfl, ?_⟩
      simp only [pending, List.drop_drop]
      split
      · exact ⟨rfl, Nat.zero_le _⟩
      · split
        · exact ⟨(List.drop_eq_nil_of_le (show d.buf.length ≤ d.pos + total by omega)).symm, Nat.zero_le _⟩
        · exact ⟨rfl, by show d.pos + total ≤ d.buf.length; omega⟩

/-- The caller's loop after a push: `next_frame` until it has none. -/
def drainFrames (alloc : Nat → Nat → Nat) (d : FrameDecoder) : List Frame × Except ProtocolError FrameDecoder :=
  match _h : d.nextFrame alloc with
  | .error e => ([], .error e)
  | .ok (none, d') => ([], .ok d')
  | .ok (some f, d') =>
    let r := drainFrames alloc d'
    (f :: r.1, r.2)
termination_by d.pending.length
decreasing_by
  have hspec := d.nextFrame_spec alloc
  split at hspec
  · simp_all
  · simp_all
  · rename_i hlook
    obtain ⟨d'', hn, hp, _⟩ := hspec
    have hle := frameScanner.item_le hlook
    have hpos := frameScanner.item_pos hlook
    rw [hn] at _h; cases _h
    rw [hp, List.length_drop]; omega

/-- Pushing the chunks one after another and draining after each, until an error. -/
def pushAll (alloc : Nat → Nat → Nat) (r : List Frame × Except ProtocolError FrameDecoder) :
    List Bytes → List Frame × Except ProtocolError FrameDecoder
  | [] => r
  | c :: cs =>
    match r.2 with
    | .error _ => r
    | .ok d =>
      let s := drainFrames alloc (d.push alloc c)
      pushAll alloc (r.1 ++ s.1, s.2) cs

/-- How the decoding of an input ends: on a protocol violation, inside a frame, or between frames. -/
inductive StreamEnd where
  | failed (e : ProtocolError)
  | midFrame
  | finished
deriving DecidableEq

/-- The frames a `FrameDecoder` yields for an input that arrives in chunks. A trailing
incomplete frame is what is left in the buffer. -/
def decodeChunks (alloc : Nat → Nat → Nat) (chunks : List Bytes) : List Frame × StreamEnd :=
  let r := pushAll alloc ([], .ok {}) chunks
  (r.1, match r.2 with
    | .error e => .failed e
    | .ok d => if d.pending = [] then .finished else .midFrame)

theorem decodeFrom_shorter {r r' : Bytes} {f : Frame} (h : Frame.decodeFrom r = .ok (f, r')) :
    r'.length < r.length := by
  have hspec := decodeFrom_spec r
  split at hspec
  · rename_i hlook
    have hle := frameScanner.item_le hlook
    have hpos := frameScanner.item_pos hlook
    rw [hspec] at h; cases h
    rw [List.length_drop]; omega
  · rw [hspec] at h; cases h
  · obtain ⟨_, hspec⟩ := hspec
    rw [hspec] at h; cases h

/-- Repeated `Frame::decode_from` on one stream, until it fails. -/
def decodeStream (bytes : Bytes) : List Frame × StreamEnd :=
  match _h : Frame.decodeFrom bytes with
  | .ok (f, rest) =>
    let r := decodeStream rest
    (f :: r.1, r.2)
  | .error (.unexpectedEof _) => ([], if bytes = [] then .finished else .midFrame)
  | .error e => ([], .failed e)
termination_by bytes.length
decreasing_by exact decodeFrom_shorter _h

/-! ## The two decoders agree -/

/-- The draining loop is a drain of the unconsumed bytes. -/
theorem drainFrames_spec (alloc : Nat → Nat → Nat) (d : FrameDecoder) (hd : d.pos ≤ d.buf.length) :
    (drainFrames alloc d).1 = (frameScanner.drain d.pending).1 ∧
      match (drainFrames alloc d).2 with
      | .error e => (frameScanner.drain d.pending).2 = .error e
      | .ok d' => (frameScanner.drain d.pending).2 = .ok d'.pending ∧ d'.pos ≤ d'.buf.length := by
  induction d using drainFrames.induct alloc with
  | case1 d e h =>
    have hspec := d.nextFrame_spec alloc
    split at hspec
    · rw [h] at hspec; cases hspec
    · rename_i hlook
      rw [h] at hspec; cases hspec
      rw [drainFrames]
      split <;> simp_all [frameScanner.drain_bad hlook]
    · obtain ⟨_, hn, _⟩ := hspec
      rw [h] at hn; cases hn
  | case2 d d' h =>
    have hspec := d.nextFrame_spec alloc
    split at hspec
    · rename_i hlook
      rw [h] at hspec; cases hspec
      rw [drainFrames]
      split <;> simp_all [frameScanner.drain_more hlook]
    · rw [h] at hspec; cases hspec
    · obtain ⟨_, hn, _⟩ := hspec
      rw [h] at hn; cases hn
  | case3 d f d' h ih =>
    have hspec := d.nextFrame_spec alloc
    split at hspec
    · rw [h] at hspec; cases hspec
    · rw [h] at hspec; cases hspec
    · rename_i hlook
      obtain ⟨d'', hn, hp, hpos⟩ := hspec
      rw [h] at hn; cases hn
      have ih := ih hpos
      rw [hp] at ih
      rw [drainFrames, frameScanner.drain_item hlook]
      split <;> simp_all

/-- What is known of the decoder's result once it is known of the scanner's. -/
def Agrees (r : List Frame × Except ProtocolError FrameDecoder) (s : List Frame × Except ProtocolError Bytes) : Prop :=
  r.1 = s.1 ∧
    match r.2 with
    | .error e => s.2 = .error e
    | .ok d => s.2 = .ok d.pending ∧ d.pos ≤ d.buf.length

theorem pushAll_agrees (alloc : Nat → Nat → Nat) (chunks : List Bytes)
    (r : List Frame × Except ProtocolError FrameDecoder) (s : List Frame × Except ProtocolError Bytes)
    (h : Agrees r s) : Agrees (pushAll alloc r chunks) (frameScanner.feedAll s chunks) := by
  induction chunks generalizing r s with
  | nil => exact h
  | cons c cs ih =>
    obtain ⟨frames, _ | d⟩ := r <;> obtain ⟨frames', rest⟩ := s <;> obtain ⟨rfl, h⟩ := h
    · simp only at h
      subst h
      have hstop : ∀ cs e, frameScanner.feedAll (frames, .error e) cs = (frames, .error e) := by
        intro cs e
        induction cs with
        | nil => rfl
        | cons c cs ih => exact ih
      rw [hstop]
      exact ⟨rfl, rfl⟩
    · obtain ⟨rfl, hpos⟩ := h
      simp only [pushAll, Scanner.feedAll, Scanner.resume]
      have hd := drainFrames_spec alloc (d.push alloc c) (by rw [d.pos_push]; exact Nat.zero_le _)
      rw [d.pending_push alloc c hpos] at hd
      exact ih _ _ ⟨by rw [hd.1], hd.2⟩

theorem decodeStream_eq_drain (bytes : Bytes) :
    decodeStream bytes = ((frameScanner.drain bytes).1,
      match (frameScanner.drain bytes).2 with
      | .error e => .failed e
      | .ok rest => if rest = [] then .finished else .midFrame) := by
  induction bytes using decodeStream.induct with
  | case1 bytes f rest h ih =>
    have hspec := decodeFrom_spec bytes
    split at hspec
    · rename_i hlook
      rw [h] at hspec; cases hspec
      rw [decodeStream, frameScanner.drain_item hlook]
      split <;> simp_all
    · rw [h] at hspec; cases hspec
    · obtain ⟨_, hspec⟩ := hspec
      rw [h] at hspec; cases hspec
  | case2 bytes what h =>
    have hspec := decodeFrom_spec bytes
    split at hspec
    · rw [h] at hspec; cases hspec
    · rename_i hlook
      rw [h] at hspec; cases hspec
      exact absurd rfl (frameLook_bad_not_eof hlook what)
    · rename_i hlook
      rw [decodeStream, frameScanner.drain_more hlook]
      split <;> simp_all
  | case3 bytes e hne h =>
    have hspec := decodeFrom_spec bytes
    split at hspec
    · rw [h] at hspec; cases hspec
    · rename_i hlook
      rw [h] at hspec; cases hspec
      rw [decodeStream, frameScanner.drain_bad hlook]
      split <;> rename_i heq <;> rw [h] at heq <;> cases heq
      · exact absurd rfl (hne _)
      · rfl
    · obtain ⟨what, hspec⟩ := hspec
      rw [h] at hspec; cases hspec
      exact absurd rfl (hne what)

/-- However the bytes arrive, the incremental decoder yields the stream decoder's frames and
ends as it does. -/
theorem decodeChunks_eq_decodeStream (alloc : Nat → Nat → Nat) (chunks : List Bytes) :
    decodeChunks alloc chunks = decodeStream chunks.flatten := by
  have hagree := pushAll_agrees alloc chunks ([], .ok {}) ([], .ok []) ⟨rfl, rfl, Nat.le_refl _⟩
  rw [frameScanner.feedAll_eq_drain chunks rfl] at hagree
  rw [decodeStream_eq_drain, decodeChunks]
  obtain ⟨hframes, hend⟩ := hagree
  rw [hframes]
  split at hend <;> simp_all

/-! ## What is encoded is decoded -/

/-- A frame the daemon and its clients build: through one of the three constructors. -/
def Frame.Known (f : Frame) : Prop := checkType f.ty = .ok ()

def Frame.Fits (f : Frame) : Prop := 1 + f.body.length ≤ maxFrameSize

instance (f : Frame) : Decidable f.Known := inferInstanceAs (Decidable (checkType f.ty = .ok ()))
instance (f : Frame) : Decidable f.Fits := inferInstanceAs (Decidable (1 + f.body.length ≤ maxFrameSize))

theorem Frame.encodeTo_fits {f : Frame} (h : f.Fits) :
    f.encodeTo = .ok (toLeBytes (f.body.length + 1) ++ f.ty :: f.body) := by
  unfold Fits at h
  have hmax : maxFrameSize = 2 ^ 24 := rfl
  simp only [encodeTo]
  rw [if_neg (by omega), if_neg (by omega), Nat.mod_eq_of_lt (by omega)]

/-- A known frame that fits comes back from its own encoding, whatever follows it. -/
theorem frameLook_encode {f : Frame} (hk : f.Known) (hf : f.Fits) (ys : Bytes) :
    frameLook (toLeBytes (f.body.length + 1) ++ f.ty :: f.body ++ ys) = .item f (f.body.length + 5) := by
  unfold Frame.Fits at hf
  have hmax : maxFrameSize = 2 ^ 24 := rfl
  have hsize := fromLeBytes_toLeBytes (f.body.length + 1) (by omega)
  have hs : checkSize (f.body.length + 1) = .ok () := by
    simp only [checkSize]
    rw [if_neg (by omega), if_neg (by omega)]
  rw [← hsize] at hs
  simp only [frameLook, toLeBytes, List.cons_append, List.nil_append, completeFrameLen_header hs hk, hsize,
    List.length_append]
  rw [if_pos (by omega)]
  simp [show 4 + (f.body.length + 1) = f.body.length + 1 + 1 + 1 + 1 + 1 by omega]

theorem decodeStream_encode_append {f : Frame} (hk : f.Known) (hf : f.Fits) (ys : Bytes) :
    decodeStream (toLeBytes (f.body.length + 1) ++ f.ty :: f.body ++ ys) =
      (f :: (decodeStream ys).1, (decodeStream ys).2) := by
  have hdrop : (toLeBytes (f.body.length + 1) ++ f.ty :: f.body ++ ys).drop (f.body.length + 5) = ys := by
    simp [toLeBytes]
  rw [decodeStream_eq_drain, decodeStream_eq_drain, frameScanner.drain_item (frameLook_encode hk hf ys), hdrop]

/-- The encodings of known frames that fit decode, concatenated, to these frames. -/
theorem decodeStream_encodings (frames : List Frame) (h : ∀ f ∈ frames, f.Known ∧ f.Fits) :
    ∃ wires, frames.mapM Frame.encodeTo = .ok wires ∧ decodeStream wires.flatten = (frames, .finished) := by
  induction frames with
  | nil => exact ⟨[], rfl, by rw [List.flatten_nil, decodeStream_eq_drain, frameScanner.drain_more rfl]; rfl⟩
  | cons f frames ih =>
    obtain ⟨hk, hf⟩ := h f (by simp)
    obtain ⟨wires, hw, hdec⟩ := ih fun g hg => h g (by simp [hg])
    refine ⟨(toLeBytes (f.body.length + 1) ++ f.ty :: f.body) :: wires, ?_, ?_⟩
    · rw [List.mapM_cons, f.encodeTo_fits hf, hw]; rfl
    · rw [List.flatten_cons, decodeStream_encode_append hk hf, hdec]

theorem Frame.fits_of_encodeTo {f : Frame} {wire : Bytes} (h : f.encodeTo = .ok wire) : f.Fits := by
  unfold encodeTo at h
  unfold Fits
  split at h
  · cases h
  · dsimp only at h
    split at h
    · cases h
    · omega

/-- These are the encodings of these frames, each with a type the decoders know. -/
abbrev Frame.Wires : List Frame → List Bytes → Prop := List.Forall₂ fun f wire => f.Known ∧ f.encodeTo = .ok wire

theorem Frame.Wires.decode {frames : List Frame} {wires : List Bytes} (h : Frame.Wires frames wires) :
    decodeStream wires.flatten = (frames, .finished) := by
  induction h with
  | nil => rw [List.flatten_nil, decodeStream_eq_drain, frameScanner.drain_more rfl]; rfl
  | @cons f wire _ _ hf _ ih =>
    have hfits := Frame.fits_of_encodeTo hf.2
    obtain rfl := Except.ok.inj (hf.2.symm.trans (f.encodeTo_fits hfits))
    rw [List.flatten_cons, decodeStream_encode_append hf.1 hfits, ih]

/-- Of a stream of whole frames, a front decodes to the first of them, and to no error. -/
theorem Frame.Wires.decode_front {frames : List Frame} {wires : List Bytes} {bytes : Bytes} (h : Frame.Wires frames wires)
    (hfront : bytes <+: wires.flatten) : (decodeStream bytes).1 <+: frames ∧ ∀ e, (decodeStream bytes).2 ≠ .failed e := by
  have hall := h.decode
  rw [decodeStream_eq_drain] at hall ⊢
  obtain ⟨hitems, hend⟩ := Prod.mk.inj hall
  cases hrest : (frameScanner.drain wires.flatten).2 with
  | error e =>
    rw [hrest] at hend
    cases hend
  | ok rest =>
    obtain ⟨hle, rest', hrest'⟩ := frameScanner.drain_front hfront hrest
    refine ⟨hitems ▸ hle, fun e he => ?_⟩
    dsimp only at he
    rw [hrest'] at he
    dsimp only at he
    split at he <;> cases he

/-- Both decoders agree on every input, however it is cut; and known frames whose payloads
are within the limit survive encoding and decoding, through either of them. -/
theorem decoders_agree_and_invert (alloc : Nat → Nat → Nat) :
    (∀ chunks, decodeChunks alloc chunks = decodeStream chunks.flatten) ∧
      ∀ frames : List Frame, (∀ f ∈ frames, f.Known ∧ f.Fits) →
        ∃ wires, frames.mapM Frame.encodeTo = .ok wires ∧ decodeStream wires.flatten = (frames, .finished) :=
  ⟨decodeChunks_eq_decodeStream alloc, decodeStream_encodings⟩

theorem decoders_agree_and_invert_two :
    ∃ wires, [Frame.rawData [104, 105], Frame.rawAck []].mapM Frame.encodeTo = .ok wires ∧
      decodeStream wires.flatten = ([Frame.rawData [104, 105], Frame.rawAck []], .finished) :=
  (decoders_agree_and_invert fun _ need => need).2 _ (by decide)

/-- `encode_to` does not check the type tag: a frame with an unknown one is written and does
not come back. -/
theorem unknown_type_not_inverted :
    ¬ ∀ frames : List Frame, (∀ f ∈ frames, f.Fits) →
        ∃ wires, frames.mapM Frame.encodeTo = .ok wires ∧ decodeStream wires.flatten = (frames, .finished) := by
  intro h
  obtain ⟨wires, hw, hdec⟩ := h [{ ty := 3, body := [] }] (by decide)
  have hwires : [{ ty := 3, body := [] : Frame }].mapM Frame.encodeTo = .ok [[1, 0, 0, 0, 3]] := by decide
  rw [hwires] at hw
  cases hw
  have hlook : frameScanner.look [[1, 0, 0, 0, 3]].flatten = .bad (.unknownType 3) := by decide
  rw [decodeStream_eq_drain, frameScanner.drain_bad hlook] at hdec
  cases hdec

end Hyoui.Protocol
