import Hyoui.Protocol.Frame
/-!
# The scrollback ring

The output chunks a session keeps, oldest first, bounded in bytes. An `Instant` is a number of
nanoseconds since the earliest instant the clock can represent, so `checked_sub` fails where the
difference would be negative.

`Kept` says which of the pushed chunks are still there. What the reads return follows from it,
for every run of pushes in the order of time.
-/

namespace Hyoui

open Hyoui.Protocol

abbrev Instant := Nat

def millis (n : Nat) : Nat := n * 1000000

structure OutputChunk where
  ts : Instant
  bytes : Bytes
deriving DecidableEq

structure Scrollback where
  chunks : List OutputChunk := []
  lastEvictedTs : Option Instant := none
  maxBytes : Nat
  totalBytes : Nat := 0
deriving DecidableEq

namespace Scrollback

/-- The eviction loop of `push`. -/
def evict (maxBytes : Nat) : List OutputChunk → Option Instant → Nat → List OutputChunk × Option Instant × Nat
  | [], last, total => if total > maxBytes then ([], last, 0) else ([], last, total)
  | c :: cs, last, total =>
    if total > maxBytes then evict maxBytes cs (some c.ts) (total - c.bytes.length) else (c :: cs, last, total)

def push (s : Scrollback) (ts : Instant) (bytes : Bytes) : Scrollback :=
  let (chunks, lastEvictedTs, totalBytes) :=
    evict s.maxBytes (s.chunks ++ [{ ts, bytes }]) s.lastEvictedTs (s.totalBytes + bytes.length)
  { s with chunks, lastEvictedTs, totalBytes }

/-- `now.checked_sub(dur).unwrap_or(now)`. -/
def cutoff (now dur : Nat) : Instant := if dur ≤ now then now - dur else now

def since (s : Scrollback) (now : Instant) (dur : Nat) : Bytes :=
  (s.chunks.filter fun c => c.ts ≥ cutoff now dur).flatMap (·.bytes)

/-- `none` where a chunk of the asked range was already evicted. -/
def sinceStrict (s : Scrollback) (now : Instant) (dur : Nat) : Option Bytes :=
  match s.lastEvictedTs with
  | some lastEvict => if lastEvict ≥ cutoff now dur then none else some (s.since now dur)
  | none => some (s.since now dur)

/-- The loop of `last_n_bytes`, over the chunks newest first. -/
def takeLast (n : Nat) : List OutputChunk → Bytes → Bytes
  | [], out => out
  | c :: cs, out =>
    if out.length + c.bytes.length ≤ n then takeLast n cs (c.bytes ++ out)
    else c.bytes.drop (c.bytes.length - (n - out.length)) ++ out

def lastNBytes (s : Scrollback) (n : Nat) : Bytes := takeLast n s.chunks.reverse []

/-- The bytes the ring holds. -/
def stored (s : Scrollback) : Bytes := s.chunks.flatMap (·.bytes)

/-! ## What a push keeps -/

section Push

variable {s : Scrollback} {ts now dur n : Nat} {bytes : Bytes}

theorem evict_suffix (maxBytes : Nat) (cs : List OutputChunk) (last : Option Instant) (total : Nat) :
    (evict maxBytes cs last total).1 <:+ cs := by
  induction cs generalizing last total with
  | nil =>
    unfold evict
    split <;> exact List.suffix_refl _
  | cons c cs ih =>
    unfold evict
    split
    · exact (ih _ _).trans (List.suffix_cons c cs)
    · exact List.suffix_refl _

/-- Only the oldest chunks are evicted. -/
theorem push_suffix : (s.push ts bytes).chunks <:+ s.chunks ++ [⟨ts, bytes⟩] := evict_suffix ..

theorem stored_push_suffix : (s.push ts bytes).stored <:+ s.stored ++ bytes := by
  obtain ⟨gone, hgone⟩ : (s.push ts bytes).chunks <:+ s.chunks ++ [⟨ts, bytes⟩] := push_suffix
  have hflat := congrArg (List.flatMap (·.bytes)) hgone
  rw [List.flatMap_append, List.flatMap_append, List.flatMap_singleton] at hflat
  exact ⟨_, hflat⟩

/-- The chunks are in the order of their timestamps. -/
def Ordered (s : Scrollback) : Prop := s.chunks.Pairwise fun c c' => c.ts ≤ c'.ts

theorem Ordered.push (h : s.Ordered) (hlate : ∀ c ∈ s.chunks, c.ts ≤ ts) : (s.push ts bytes).Ordered := by
  refine List.Pairwise.sublist push_suffix.sublist (List.pairwise_append.2 ⟨h, List.pairwise_singleton _ _, ?_⟩)
  intro c hc c' hc'
  rw [List.mem_singleton.1 hc']
  exact hlate c hc

theorem push_mem {c : OutputChunk} (h : c ∈ (s.push ts bytes).chunks) : c ∈ s.chunks ∨ c = ⟨ts, bytes⟩ := by
  rcases List.mem_append.1 (push_suffix.subset h) with hc | hc
  · exact .inl hc
  · exact .inr (List.mem_singleton.1 hc)

end Push

/-! ## What a read returns -/

section Read

variable {s : Scrollback} {now dur n : Nat}

/-- Of chunks in order the recent ones are the last ones. -/
theorem recent_suffix {cs : List OutputChunk} (h : cs.Pairwise fun c c' => c.ts ≤ c'.ts) (t : Instant) :
    cs.filter (fun c => c.ts ≥ t) <:+ cs := by
  induction cs with
  | nil => exact List.suffix_refl _
  | cons c cs ih =>
    obtain ⟨hc, hcs⟩ := List.pairwise_cons.1 h
    by_cases ht : c.ts ≥ t
    · have hall : (c :: cs).filter (fun c => c.ts ≥ t) = c :: cs := by
        refine List.filter_eq_self.2 fun d hd => decide_eq_true ?_
        rcases List.mem_cons.1 hd with rfl | hd
        · exact ht
        · exact le_trans ht (hc d hd)
      rw [hall]
    · rw [List.filter_cons_of_neg (by simpa using ht)]
      exact (ih hcs).trans (List.suffix_cons c cs)

theorem since_suffix (h : s.Ordered) : s.since now dur <:+ s.stored := by
  obtain ⟨gone, hgone⟩ := recent_suffix h (cutoff now dur)
  refine ⟨gone.flatMap (·.bytes), ?_⟩
  rw [since, ← List.flatMap_append, hgone, stored]

theorem sinceStrict_suffix (h : s.Ordered) {bytes : Bytes} (hread : s.sinceStrict now dur = some bytes) :
    bytes <:+ s.stored := by
  have hsince : ∀ o : Option Bytes, o = some bytes → o = some (s.since now dur) → bytes <:+ s.stored := by
    rintro o ho hs
    rw [Option.some.inj (ho.symm.trans hs)]
    exact since_suffix h
  unfold sinceStrict at hread
  split at hread
  · split at hread
    · cases hread
    · exact hsince _ hread rfl
  · exact hsince _ hread rfl

theorem takeLast_suffix (n : Nat) (cs : List OutputChunk) (out : Bytes) :
    takeLast n cs out <:+ cs.reverse.flatMap (·.bytes) ++ out := by
  induction cs generalizing out with
  | nil => exact List.suffix_refl _
  | cons c cs ih =>
    rw [List.reverse_cons, List.flatMap_append, List.flatMap_singleton, List.append_assoc]
    unfold takeLast
    split
    · exact ih _
    · refine (List.suffix_append_of_suffix ?_)
      exact ⟨c.bytes.take (c.bytes.length - (n - out.length)), by rw [← List.append_assoc, List.take_append_drop]⟩

theorem lastNBytes_suffix : s.lastNBytes n <:+ s.stored := by
  have h := takeLast_suffix n s.chunks.reverse []
  rwa [List.reverse_reverse, List.append_nil] at h

end Read

/-! ## Which of the pushed chunks are kept -/

def bytesOf (cs : List OutputChunk) : Bytes := cs.flatMap (·.bytes)

theorem bytesOf_append (cs cs' : List OutputChunk) : bytesOf (cs ++ cs') = bytesOf cs ++ bytesOf cs' :=
  List.flatMap_append

/-- The chunks `new` was given are `gone`, evicted, and then those it holds. The last one evicted
did not fit with the ones still held. -/
structure Kept (maxBytes : Nat) (cs gone : List OutputChunk) (s : Scrollback) : Prop where
  bound : s.maxBytes = maxBytes
  split : cs = gone ++ s.chunks
  total : s.totalBytes = (bytesOf s.chunks).length
  fits : s.totalBytes ≤ maxBytes
  evicted : s.lastEvictedTs = gone.getLast?.map (·.ts)
  needed : ∀ c ∈ gone.getLast?, maxBytes < c.bytes.length + s.totalBytes

def new (maxBytes : Nat) : Scrollback := { maxBytes }

/-- A ring of `maxBytes` after the pushes `cs`. -/
def pushAll (maxBytes : Nat) (cs : List OutputChunk) : Scrollback :=
  cs.foldl (fun s c => s.push c.ts c.bytes) (new maxBytes)

section Kept

variable {maxBytes now dur n : Nat} {cs gone : List OutputChunk} {s : Scrollback} {c : OutputChunk}

/-- The eviction loop drops from the front, and its last drop was needed. -/
theorem evict_spec (maxBytes : Nat) (cs : List OutputChunk) (last : Option Instant) {total : Nat}
    (htotal : total = (bytesOf cs).length) :
    ∃ gone kept, cs = gone ++ kept ∧
      evict maxBytes cs last total = (kept, (gone.getLast?.map (·.ts)).or last, (bytesOf kept).length) ∧
      (bytesOf kept).length ≤ maxBytes ∧ ∀ c ∈ gone.getLast?, maxBytes < c.bytes.length + (bytesOf kept).length := by
  induction cs generalizing last total with
  | nil =>
    refine ⟨[], [], rfl, ?_, Nat.zero_le _, fun c hc => by cases hc⟩
    rw [htotal]
    simp [evict, bytesOf]
  | cons c cs ih =>
    unfold evict
    by_cases hover : total > maxBytes
    · have hrest : total - c.bytes.length = (bytesOf cs).length := by
        rw [htotal]
        simp [bytesOf]
      obtain ⟨gone, kept, hsplit, heq, hfits, hneed⟩ := ih (some c.ts) hrest
      refine ⟨c :: gone, kept, by rw [hsplit, List.cons_append], ?_, hfits, ?_⟩
      · rw [if_pos hover, heq, List.getLast?_cons]
        cases gone.getLast? <;> rfl
      · intro d hd
        rw [List.getLast?_cons, Option.mem_some_iff] at hd
        cases hgone : gone.getLast? with
        | none =>
          -- the first chunk is the only one dropped
          rw [List.getLast?_eq_none_iff] at hgone
          subst hgone
          have hd' : c = d := hd
          rw [← hd', ← List.nil_append kept, ← hsplit]
          omega
        | some e =>
          rw [hgone] at hd
          exact hneed d (by rw [hgone]; exact congrArg some hd)
    · refine ⟨[], c :: cs, rfl, ?_, by omega, fun d hd => by cases hd⟩
      rw [if_neg hover, htotal]
      rfl

theorem Kept.push (h : Kept maxBytes cs gone s) (c : OutputChunk) :
    ∃ gone', Kept maxBytes (cs ++ [c]) gone' (s.push c.ts c.bytes) := by
  have htotal : s.totalBytes + c.bytes.length = (bytesOf (s.chunks ++ [c])).length := by
    rw [bytesOf_append, List.length_append, h.total]
    simp [bytesOf]
  obtain ⟨gone', kept, hsplit, heq, hfits, hneed⟩ := evict_spec s.maxBytes _ s.lastEvictedTs htotal
  have hpush : s.push c.ts c.bytes =
      { s with chunks := kept, lastEvictedTs := (gone'.getLast?.map (·.ts)).or s.lastEvictedTs,
               totalBytes := (bytesOf kept).length } := by
    simp only [Scrollback.push, heq]
  have hmax : s.maxBytes = maxBytes := h.bound
  refine ⟨gone ++ gone', ?_⟩
  rw [hpush]
  refine ⟨hmax, ?_, rfl, hmax ▸ hfits, ?_, ?_⟩
  · rw [h.split, List.append_assoc, List.append_assoc, hsplit]
  · change (gone'.getLast?.map (·.ts)).or s.lastEvictedTs = _
    rw [h.evicted, List.getLast?_append]
    cases gone'.getLast? <;> rfl
  · intro d hd
    change maxBytes < d.bytes.length + (bytesOf kept).length
    rw [List.getLast?_append] at hd
    cases hgone : gone'.getLast? with
    | none =>
      -- nothing evicted by this push: the ring only grew
      rw [List.getLast?_eq_none_iff] at hgone
      subst hgone
      have hd' : d ∈ gone.getLast? := hd
      have hold := h.needed d hd'
      rw [← List.nil_append kept, ← hsplit, ← htotal]
      omega
    | some e =>
      rw [hgone] at hd
      rw [← hmax]
      exact hneed d (by rw [hgone]; exact hd)

/-- Every run of pushes. -/
theorem kept_pushAll (maxBytes : Nat) (cs : List OutputChunk) : ∃ gone, Kept maxBytes cs gone (pushAll maxBytes cs) := by
  induction cs using List.reverseRecOn with
  | nil => exact ⟨[], rfl, rfl, rfl, Nat.zero_le _, rfl, fun c hc => by cases hc⟩
  | append_singleton cs c ih =>
    obtain ⟨gone, h⟩ := ih
    have hlast : pushAll maxBytes (cs ++ [c]) = (pushAll maxBytes cs).push c.ts c.bytes := by
      rw [pushAll, List.foldl_append]
      rfl
    rw [hlast]
    exact h.push c

/-- Exactly the chunks that fit are kept: a longer run of the latest pushes is over the limit. -/
theorem Kept.maximal (h : Kept maxBytes cs gone s) {rest : List OutputChunk} (hrest : rest <:+ cs)
    (hfits : (bytesOf rest).length ≤ maxBytes) : rest <:+ s.chunks := by
  obtain hin | hin := List.suffix_or_suffix_of_suffix hrest (h.split ▸ List.suffix_append gone s.chunks)
  · exact hin
  · -- `rest` reaches into the evicted chunks, unless it is the ring
    obtain ⟨more, hmore⟩ := hin
    obtain ⟨front, hfront⟩ := hrest
    have hgone : gone = front ++ more := by
      have hcs : front ++ more ++ s.chunks = gone ++ s.chunks := by
        rw [List.append_assoc, hmore, hfront, h.split]
      exact (List.append_cancel_right hcs).symm
    cases hlast : more.getLast? with
    | none =>
      rw [List.getLast?_eq_none_iff] at hlast
      rw [← hmore, hlast]
      exact List.suffix_refl _
    | some c =>
      have hneed := h.needed c (by rw [hgone, List.getLast?_append, hlast]; rfl)
      obtain ⟨init, hinit⟩ := List.getLast?_eq_some_iff.1 hlast
      rw [← hmore, hinit, bytesOf_append, bytesOf_append, List.length_append, List.length_append] at hfits
      have hc : (bytesOf [c]).length = c.bytes.length := by simp [bytesOf]
      have htotal := h.total
      omega

theorem takeLast_length (n : Nat) (cs : List OutputChunk) (out : Bytes) (hout : out.length ≤ n) :
    (takeLast n cs out).length = min n (out.length + (bytesOf cs).length) := by
  induction cs generalizing out with
  | nil => simp [takeLast, bytesOf, hout]
  | cons c cs ih =>
    have hcons : (bytesOf (c :: cs)).length = c.bytes.length + (bytesOf cs).length := by simp [bytesOf]
    unfold takeLast
    split
    · rename_i hfit
      rw [ih _ (by simp only [List.length_append]; omega), List.length_append, hcons]
      omega
    · rw [List.length_append, List.length_drop, hcons]
      omega

theorem Kept.lastNBytes_length (h : Kept maxBytes cs gone s) : (s.lastNBytes n).length = min n s.totalBytes := by
  have hlen := takeLast_length n s.chunks.reverse [] (Nat.zero_le n)
  have hrev : (bytesOf s.chunks.reverse).length = (bytesOf s.chunks).length := by
    simp only [bytesOf, List.length_flatMap]
    exact (List.reverse_perm _).map _ |>.sum_eq
  rw [lastNBytes, hlen, hrev, h.total, List.length_nil, Nat.zero_add]

/-- In order of time, an evicted chunk after `t` means that the last evicted one is after `t`. -/
theorem Kept.evicted_before (h : Kept maxBytes cs gone s) (hord : cs.Pairwise fun c c' => c.ts ≤ c'.ts) {t : Instant}
    (hlast : ∀ e, s.lastEvictedTs = some e → e < t) : ∀ c ∈ gone, c.ts < t := by
  intro c hc
  rw [h.split] at hord
  have hgone := (List.pairwise_append.1 hord).1
  obtain ⟨init, e, rfl⟩ := (List.eq_nil_or_concat' gone).resolve_left (List.ne_nil_of_mem hc)
  have he : e.ts < t := hlast e.ts (by rw [h.evicted, List.getLast?_concat]; rfl)
  rcases List.mem_append.1 hc with hc | hc
  · exact lt_of_le_of_lt ((List.pairwise_append.1 hgone).2.2 c hc e (List.mem_singleton.2 rfl)) he
  · rw [List.mem_singleton.1 hc]
    exact he

/-- A strict read: all that was pushed since the cutoff, or a refusal where a part of it is gone. -/
theorem Kept.sinceStrict (h : Kept maxBytes cs gone s) (hord : cs.Pairwise fun c c' => c.ts ≤ c'.ts)
    (now : Instant) (dur : Nat) :
    (s.sinceStrict now dur = some (s.since now dur) ∧
        s.since now dur = bytesOf (cs.filter fun c => c.ts ≥ cutoff now dur) ∧ ∀ c ∈ gone, c.ts < cutoff now dur) ∨
      (s.sinceStrict now dur = none ∧ ∃ c ∈ gone.getLast?, c.ts ≥ cutoff now dur) := by
  by_cases hevict : ∃ e, s.lastEvictedTs = some e ∧ e ≥ cutoff now dur
  · obtain ⟨e, he, hlate⟩ := hevict
    have hlast := h.evicted
    rw [he] at hlast
    obtain ⟨c, hc, hts⟩ := Option.map_eq_some_iff.1 hlast.symm
    refine .inr ⟨?_, c, hc, hts ▸ hlate⟩
    simp only [Scrollback.sinceStrict, he, if_pos hlate]
  · have hbefore : ∀ c ∈ gone, c.ts < cutoff now dur := by
      apply h.evicted_before hord
      intro e he
      by_contra hlate
      exact hevict ⟨e, he, Nat.le_of_not_lt hlate⟩
    have hread : s.sinceStrict now dur = some (s.since now dur) := by
      unfold Scrollback.sinceStrict
      split
      · rename_i e he
        rw [if_neg fun hlate => hevict ⟨e, he, hlate⟩]
      · rfl
    refine .inl ⟨hread, ?_, hbefore⟩
    have hnone : gone.filter (fun c => c.ts ≥ cutoff now dur) = [] := by
      apply List.filter_eq_nil_iff.2
      intro c hc hge
      exact absurd (hbefore c hc) (Nat.not_lt.2 (of_decide_eq_true hge))
    rw [Scrollback.since, h.split, List.filter_append, hnone, List.nil_append]
    rfl

end Kept

/-! ## The promises of the reads -/

section Promises

variable {maxBytes now dur n : Nat} {cs gone : List OutputChunk} {s : Scrollback}

/-- What a ring of `maxBytes` promises after the pushes `cs`, to a read of the last `dur` at `now`
and to one of the last `n` bytes. -/
structure Promises (maxBytes : Nat) (cs : List OutputChunk) (now dur n : Nat) (s : Scrollback) : Prop where
  total : s.totalBytes = (bytesOf s.chunks).length
  fits : s.totalBytes ≤ maxBytes
  latest : s.chunks <:+ cs
  needed : ∀ rest, rest <:+ cs → (bytesOf rest).length ≤ maxBytes → rest <:+ s.chunks
  tail : s.lastNBytes n <:+ bytesOf s.chunks ∧ (s.lastNBytes n).length = min n s.totalBytes
  strict : s.sinceStrict now dur = some (bytesOf (cs.filter fun c => now ≤ c.ts + dur)) ∨
    s.sinceStrict now dur = none ∧ ∃ gone, cs = gone ++ s.chunks ∧ ∃ c ∈ gone, now ≤ c.ts + dur
  whole : now < dur → s.since now dur = bytesOf s.chunks

theorem cutoff_of_le (h : dur ≤ now) (t : Instant) : t ≥ cutoff now dur ↔ now ≤ t + dur := by
  rw [cutoff, if_pos h]
  exact Nat.sub_le_iff_le_add

theorem cutoff_of_lt (h : now < dur) : cutoff now dur = now := by
  rw [cutoff, if_neg (Nat.not_le.2 h)]

/-- Dropping chunks without bytes changes nothing. -/
theorem bytesOf_filter {p : OutputChunk → Bool} (h : ∀ c ∈ cs, p c = false → c.bytes = []) :
    bytesOf (cs.filter p) = bytesOf cs := by
  induction cs with
  | nil => rfl
  | cons c cs ih =>
    have hrest := ih fun d hd => h d (List.mem_cons_of_mem c hd)
    have hcons : bytesOf (c :: cs) = c.bytes ++ bytesOf cs := rfl
    cases hc : p c with
    | true =>
      rw [List.filter_cons_of_pos hc, hcons, ← hrest]
      rfl
    | false =>
      rw [List.filter_cons_of_neg (by rw [hc]; exact Bool.false_ne_true), hrest, hcons, h c List.mem_cons_self hc,
        List.nil_append]

theorem bytesOf_filter_length {p : OutputChunk → Bool} {c : OutputChunk} (hc : c ∈ cs) (hp : p c = false)
    (hne : c.bytes ≠ []) : (bytesOf (cs.filter p)).length < (bytesOf cs).length := by
  obtain ⟨front, back, rfl⟩ := List.append_of_mem hc
  have hle : ∀ l : List OutputChunk, (bytesOf (l.filter p)).length ≤ (bytesOf l).length := fun l =>
    (List.Sublist.flatMap List.filter_sublist _).length_le
  have hdrop : (c :: back).filter p = back.filter p := List.filter_cons_of_neg (by rw [hp]; exact Bool.false_ne_true)
  have hcons : bytesOf (c :: back) = c.bytes ++ bytesOf back := rfl
  rw [List.filter_append, hdrop, bytesOf_append, bytesOf_append, hcons]
  simp only [List.length_append]
  have hpos := List.length_pos_iff.2 hne
  have hf := hle front
  have hb := hle back
  omega

/-- A strict read says which case it is in. -/
theorem Kept.strict_window (h : Kept maxBytes cs gone s) (hord : cs.Pairwise fun c c' => c.ts ≤ c'.ts) (hd : dur ≤ now) :
    s.sinceStrict now dur = some (bytesOf (cs.filter fun c => now ≤ c.ts + dur)) ∨
      s.sinceStrict now dur = none ∧ ∃ gone, cs = gone ++ s.chunks ∧ ∃ c ∈ gone, now ≤ c.ts + dur := by
  rcases h.sinceStrict hord now dur with ⟨hread, hall, -⟩ | ⟨hread, c, hc, hts⟩
  · left
    rw [hread, hall]
    have hsame : (fun c : OutputChunk => decide (c.ts ≥ cutoff now dur)) = fun c => decide (now ≤ c.ts + dur) := by
      funext c
      exact decide_eq_decide.2 (cutoff_of_le hd c.ts)
    rw [hsame]
  · right
    exact ⟨hread, gone, h.split, c, List.mem_of_getLast? hc, (cutoff_of_le hd c.ts).1 hts⟩

/-- A window the clock cannot represent starts at `now`: the promises then need an evicted chunk
from `now` on, or that nothing was pushed before. -/
theorem Kept.reads_beyond (h : Kept maxBytes cs gone s) (hord : cs.Pairwise fun c c' => c.ts ≤ c'.ts) (hd : now < dur) :
    ((s.sinceStrict now dur = some (bytesOf (cs.filter fun c => now ≤ c.ts + dur)) ∨
        s.sinceStrict now dur = none ∧ ∃ gone, cs = gone ++ s.chunks ∧ ∃ c ∈ gone, now ≤ c.ts + dur) ∧
      s.since now dur = bytesOf s.chunks) ↔
      (∀ c ∈ cs, c.ts < now → c.bytes = []) ∨ maxBytes < (bytesOf (cs.filter fun c => c.ts ≥ now)).length := by
  have hwindow : cs.filter (fun c => now ≤ c.ts + dur) = cs := by
    apply List.filter_eq_self.2
    intro c _
    exact decide_eq_true (by omega)
  have hfits : (bytesOf s.chunks).length ≤ maxBytes := h.total ▸ h.fits
  have hcases := h.sinceStrict hord now dur
  rw [cutoff_of_lt hd] at hcases
  rw [hwindow]
  constructor
  · rintro ⟨hstrict, -⟩
    rcases hcases with ⟨hread, hall, -⟩ | ⟨-, c, hc, hts⟩
    · left
      intro c hc hbefore
      by_contra hne
      have hlt := bytesOf_filter_length (p := fun c => c.ts ≥ now) hc (decide_eq_false (Nat.not_le.2 hbefore)) hne
      rcases hstrict with hsome | ⟨hnone, -⟩
      · rw [hread, hall] at hsome
        rw [Option.some.inj hsome] at hlt
        exact lt_irrefl _ hlt
      · rw [hread] at hnone
        cases hnone
    · right
      -- the last evicted chunk and the ring are all from `now` on
      have hneed := h.needed c hc
      obtain ⟨init, hinit⟩ := List.getLast?_eq_some_iff.1 hc
      have hsplit : cs = init ++ (c :: s.chunks) := by rw [h.split, hinit, List.append_assoc]; rfl
      have hlate : (c :: s.chunks).filter (fun c => c.ts ≥ now) = c :: s.chunks := by
        refine List.filter_eq_self.2 fun d hd => decide_eq_true ?_
        rw [hsplit] at hord
        rcases List.mem_cons.1 hd with rfl | hd
        · exact hts
        · exact le_trans hts ((List.pairwise_cons.1 (List.pairwise_append.1 hord).2.1).1 d hd)
      have hcons : bytesOf (c :: s.chunks) = c.bytes ++ bytesOf s.chunks := rfl
      rw [hsplit, List.filter_append, hlate, bytesOf_append, hcons]
      simp only [List.length_append]
      have htotal := h.total
      omega
  · intro hcond
    rcases hcases with ⟨hread, hall, hbefore⟩ | ⟨hread, c, hc, hts⟩
    · -- nothing evicted from `now` on
      have hring : cs.filter (fun c => c.ts ≥ now) = s.chunks.filter (fun c => c.ts ≥ now) := by
        have hnone : gone.filter (fun c => c.ts ≥ now) = [] := by
          refine List.filter_eq_nil_iff.2 fun c hc hge => ?_
          exact absurd (hbefore c hc) (Nat.not_lt.2 (of_decide_eq_true hge))
        rw [h.split, List.filter_append, hnone, List.nil_append]
      have hempty : ∀ c ∈ cs, c.ts < now → c.bytes = [] := by
        rcases hcond with hempty | hmany
        · exact hempty
        · have hle : (bytesOf (s.chunks.filter fun c => c.ts ≥ now)).length ≤ (bytesOf s.chunks).length :=
            (List.Sublist.flatMap List.filter_sublist _).length_le
          rw [hring] at hmany
          omega
      have hp : ∀ c : OutputChunk, decide (c.ts ≥ now) = false → c.ts < now := fun c hc =>
        Nat.not_le.1 (of_decide_eq_false hc)
      constructor
      · left
        rw [hread, hall, bytesOf_filter fun c hc hc' => hempty c hc (hp c hc')]
      · rw [hall, hring]
        apply bytesOf_filter
        intro c hc hc'
        exact hempty c (by rw [h.split]; exact List.mem_append_right gone hc) (hp c hc')
    · have hmem : c ∈ gone := List.mem_of_getLast? hc
      refine ⟨.inr ⟨hread, gone, h.split, c, hmem, by omega⟩, ?_⟩
      rw [Scrollback.since, cutoff_of_lt hd]
      have hlate : s.chunks.filter (fun c => c.ts ≥ now) = s.chunks := by
        refine List.filter_eq_self.2 fun d hd => decide_eq_true ?_
        rw [h.split] at hord
        exact le_trans hts ((List.pairwise_append.1 hord).2.2 c hmem d hd)
      rw [hlate]
      rfl

/-- After every run of pushes in the order of time the ring keeps its promises, but for a window
that starts before the clock does: that read starts at `now` instead. -/
theorem pushAll_promises_iff (hord : cs.Pairwise fun c c' => c.ts ≤ c'.ts) :
    Promises maxBytes cs now dur n (pushAll maxBytes cs) ↔
      dur ≤ now ∨ (∀ c ∈ cs, c.ts < now → c.bytes = []) ∨
        maxBytes < (bytesOf (cs.filter fun c => c.ts ≥ now)).length := by
  obtain ⟨gone, h⟩ := kept_pushAll maxBytes cs
  have hkept : ∀ (hstrict : _) (hwhole : _), Promises maxBytes cs now dur n (pushAll maxBytes cs) := fun hstrict hwhole =>
    { total := h.total
      fits := h.fits
      latest := ⟨gone, h.split.symm⟩
      needed := fun rest hrest hfits => h.maximal hrest hfits
      tail := ⟨lastNBytes_suffix, h.lastNBytes_length⟩
      strict := hstrict
      whole := hwhole }
  rcases Nat.lt_or_ge now dur with hd | hd
  · have hreads := h.reads_beyond hord hd
    constructor
    · intro hp
      exact .inr (hreads.1 ⟨hp.strict, hp.whole hd⟩)
    · rintro (hle | hcond)
      · omega
      · obtain ⟨hstrict, hwhole⟩ := hreads.2 hcond
        exact hkept hstrict fun _ => hwhole
  · constructor
    · intro _
      exact .inl hd
    · intro _
      exact hkept (h.strict_window hord hd) fun hlt => absurd hlt (Nat.not_lt.2 hd)

theorem pushAll_promises_iff_minute :
    Promises 8 [⟨1, [65]⟩, ⟨2, [66]⟩] 3 2 1 (pushAll 8 [⟨1, [65]⟩, ⟨2, [66]⟩]) :=
  (pushAll_promises_iff (by decide)).2 (.inl (by decide))

/-- One byte pushed at 0 and read at 1 over a window of 2: neither read returns it. -/
theorem since_before_clock :
    ¬ Promises 8 [⟨0, [65]⟩] 1 2 1 (pushAll 8 [⟨0, [65]⟩]) := by
  intro h
  exact absurd (h.whole (by decide)) (by decide)

end Promises

end Scrollback

end Hyoui
