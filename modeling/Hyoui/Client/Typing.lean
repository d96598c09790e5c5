import Hyoui.Client.KeyDecoder
/-!
# What was typed

The keys a person typed, read off the bytes and the times they arrived at: a Ctrl+Z is one of its
encodings typed without a pause. This is the measure of what the decoder and the guard make of the
reads they are given; nothing here knows of reads.
-/

namespace Hyoui.Client

open Hyoui.Protocol Hyoui.Lib

/-- Bytes with the times they arrived. -/
abbrev Typed := List (UInt8 × Instant)

def Typed.bytes (ts : Typed) : Bytes := ts.map Prod.fst

@[simp] theorem Typed.bytes_append (ts us : Typed) : Typed.bytes (ts ++ us) = ts.bytes ++ us.bytes := List.map_append

/-- No byte came so late after the one before it that it belongs to another key. -/
def Unbroken (ts : Typed) : Prop := ts.IsChain fun a b => b.2 < a.2 + hold

instance (ts : Typed) : Decidable (Unbroken ts) := inferInstanceAs (Decidable (List.IsChain _ _))

/-- The Ctrl+Z these bytes begin with. -/
def pressAt (ts : Typed) : Option Bytes :=
  ctrlzEncodings.find? fun seq => seq.isPrefixOf ts.bytes && decide (Unbroken (ts.take seq.length))

theorem pressAt_none {ts : Typed} :
    pressAt ts = none ↔ ∀ seq ∈ ctrlzEncodings, seq <+: ts.bytes → ¬ Unbroken (ts.take seq.length) := by
  simp [pressAt, List.find?_eq_none, List.isPrefixOf_iff_prefix]

theorem pressAt_some {ts : Typed} {seq : Bytes} :
    pressAt ts = some seq ↔ seq ∈ ctrlzEncodings ∧ seq <+: ts.bytes ∧ Unbroken (ts.take seq.length) := by
  have hfind : ∀ {found}, pressAt ts = some found →
      found ∈ ctrlzEncodings ∧ found <+: ts.bytes ∧ Unbroken (ts.take found.length) := by
    intro found h
    have hp := List.find?_some h
    simp only [Bool.and_eq_true, List.isPrefixOf_iff_prefix, decide_eq_true_eq] at hp
    exact ⟨List.mem_of_find?_eq_some h, hp⟩
  refine ⟨hfind, fun ⟨hseq, hfront, hun⟩ => ?_⟩
  cases h : pressAt ts with
  | none => exact absurd hun (pressAt_none.1 h seq hseq hfront)
  | some found =>
    obtain ⟨hfound, hfront', -⟩ := hfind h
    obtain hle | hle := List.prefix_or_prefix_of_prefix hfront hfront'
    · rw [encodings_prefixFree _ hseq _ hfound hle]
    · rw [encodings_prefixFree _ hfound _ hseq hle]

/-- A key with the arrival of its first and of its last byte. -/
structure TypedKey where
  key : Key
  first : Instant
  last : Instant
deriving DecidableEq

def typedKeys (ts : Typed) : List TypedKey :=
  match ts with
  | [] => []
  | x :: rest =>
    match _hpress : pressAt (x :: rest) with
    | some seq =>
      { key := .ctrlZ seq, first := x.2, last := (((x :: rest).take seq.length).getLastD x).2 } ::
        typedKeys ((x :: rest).drop seq.length)
    | none => { key := .byte x.1, first := x.2, last := x.2 } :: typedKeys rest
termination_by ts.length
decreasing_by
  · have := encodings_pos _ (pressAt_some.1 _hpress).1
    simp only [List.length_drop, List.length_cons]; omega
  · simp

theorem typedKeys_nil : typedKeys [] = [] := by rw [typedKeys]

theorem typedKeys_press {ts : Typed} {seq : Bytes} (h : pressAt ts = some seq) :
    ∃ x ∈ ts.take seq.length, ∃ y ∈ (ts.take seq.length).getLast?,
      typedKeys ts = { key := .ctrlZ seq, first := x.2, last := y.2 } :: typedKeys (ts.drop seq.length) := by
  obtain ⟨hseq, hfront, -⟩ := pressAt_some.1 h
  have hpos := encodings_pos seq hseq
  cases ts with
  | nil =>
    have := hfront.length_le
    simp only [Typed.bytes, List.map_nil, List.length_nil] at this
    omega
  | cons x rest =>
    obtain ⟨n, hn⟩ : ∃ n, seq.length = n + 1 := ⟨_, (Nat.sub_add_cancel hpos).symm⟩
    refine ⟨x, by simp [hn], (((x :: rest).take seq.length).getLastD x), ?_, ?_⟩
    · rw [hn, List.take_succ_cons]
      simp [List.getLastD_eq_getLast?, List.getLast?_cons]
    · rw [typedKeys]
      split <;> simp_all

/-- A byte that begins no Ctrl+Z. -/
def asByte (x : UInt8 × Instant) : TypedKey := { key := .byte x.1, first := x.2, last := x.2 }

theorem typedKeys_byte {x : UInt8 × Instant} {rest : Typed} (h : pressAt (x :: rest) = none) :
    typedKeys (x :: rest) = asByte x :: typedKeys rest := by
  rw [typedKeys]; split <;> simp_all [asByte]

/-- A key is typed at times of the bytes. -/
theorem times_of_mem_typedKeys {ts : Typed} {k : TypedKey} (h : k ∈ typedKeys ts) :
    (∃ x ∈ ts, k.first = x.2) ∧ ∃ x ∈ ts, k.last = x.2 := by
  induction ts using typedKeys.induct with
  | case1 => simp [typedKeys_nil] at h
  | case2 x rest seq hpress ih =>
    obtain ⟨first, hfirst, last, hlast, heq⟩ := typedKeys_press hpress
    rw [heq, List.mem_cons] at h
    obtain rfl | h := h
    · exact ⟨⟨first, List.mem_of_mem_take hfirst, rfl⟩, last, List.mem_of_mem_take (List.mem_of_getLast? hlast), rfl⟩
    · obtain ⟨⟨y, hy, hfirst⟩, z, hz, hlast⟩ := ih h
      exact ⟨⟨y, List.mem_of_mem_drop hy, hfirst⟩, z, List.mem_of_mem_drop hz, hlast⟩
  | case3 x rest hpress ih =>
    rw [typedKeys_byte hpress, List.mem_cons] at h
    obtain rfl | h := h
    · exact ⟨⟨x, List.mem_cons_self, rfl⟩, x, List.mem_cons_self, rfl⟩
    · obtain ⟨⟨y, hy, hfirst⟩, z, hz, hlast⟩ := ih h
      exact ⟨⟨y, List.mem_cons_of_mem _ hy, hfirst⟩, z, List.mem_cons_of_mem _ hz, hlast⟩

/-! ## Bytes that hold no press -/

/-- No Ctrl+Z stands in these bytes. -/
def Quiet (bytes : Bytes) : Prop := ∀ seq ∈ ctrlzEncodings, ∀ j, ¬ seq <+: bytes.drop j

theorem quiet_nil : Quiet [] := by
  intro seq hseq j h
  have := encodings_pos seq hseq
  have := h.length_le
  simp only [List.drop_nil, List.length_nil] at this
  omega

theorem Quiet.tail {b : UInt8} {bytes : Bytes} (h : Quiet (b :: bytes)) : Quiet bytes :=
  fun seq hseq j => h seq hseq (j + 1)

theorem quiet_of_incomplete {bytes : Bytes} (h : scan bytes = .incomplete) : Quiet bytes := by
  obtain ⟨⟨seq, hseq, hbuf⟩, hnone⟩ := scan_incomplete h
  intro enc henc j
  cases j with
  | zero => exact hnone enc henc
  | succ j =>
    refine not_begin_inside hseq (Nat.succ_pos j) (fun b hb => ?_) enc henc
    obtain ⟨more, rfl⟩ := hbuf
    rw [List.getElem?_append_left (List.getElem?_eq_some_iff.1 hb).1, hb]

/-- A press that begins where no press stands ends in what comes after. -/
theorem Quiet.lt_length {bytes more seq : Bytes} (h : Quiet bytes) (hseq : seq ∈ ctrlzEncodings)
    (hfront : seq <+: bytes ++ more) : bytes.length < seq.length := by
  by_contra hle
  exact h seq hseq 0 (List.prefix_of_prefix_length_le hfront (List.prefix_append _ _) (Nat.le_of_not_lt hle))

/-- Bytes with a pause after them and no press in them are no key. -/
theorem typedKeys_expired {ts more : Typed} (h : Quiet ts.bytes)
    (hgap : ∀ x ∈ ts.getLast?, ∀ y ∈ more, x.2 + hold ≤ y.2) :
    typedKeys (ts ++ more) = ts.map asByte ++ typedKeys more := by
  induction ts with
  | nil => rfl
  | cons x ts ih =>
    have hnone : pressAt (x :: (ts ++ more)) = none := by
      rw [pressAt_none]
      intro seq hseq hfront hun
      have hfront' : seq <+: Typed.bytes (x :: ts) ++ more.bytes := by simpa [Typed.bytes] using hfront
      have hlong := h.lt_length hseq hfront'
      have hlen := hfront.length_le
      simp only [Typed.bytes, List.length_map, List.length_append, List.length_cons] at hlong hlen
      -- The press would go over the pause.
      have htake : (x :: (ts ++ more)).take seq.length = (x :: ts) ++ more.take (seq.length - (ts.length + 1)) := by
        rw [← List.cons_append, List.take_append, List.take_of_length_le (by simp only [List.length_cons]; omega)]
        simp
      cases more with
      | nil =>
        simp only [List.length_nil] at hlen
        omega
      | cons y more =>
        rw [htake, Unbroken, List.isChain_append] at hun
        obtain ⟨k, hk⟩ : ∃ k, seq.length - (ts.length + 1) = k + 1 := ⟨_, (Nat.sub_add_cancel (by omega)).symm⟩
        have hlast := List.getLast?_eq_some_getLast (List.cons_ne_nil x ts)
        have hsoon : y.2 < ((x :: ts).getLast (List.cons_ne_nil x ts)).2 + hold := hun.2.2 _ hlast y (by simp [hk])
        exact absurd (hgap _ hlast y List.mem_cons_self) (Nat.not_le.2 hsoon)
    rw [List.cons_append, typedKeys_byte hnone, ih h.tail]
    · rfl
    · intro y hy
      refine hgap y ?_
      rw [List.getLast?_cons_of_ne_nil]
      · exact hy
      · rintro rfl
        cases hy

/-! ## Bytes that come at once -/

/-- The bytes of one read. -/
def arrive (chunk : Bytes) (now : Instant) : Typed := chunk.map fun b => (b, now)

@[simp] theorem bytes_arrive (chunk : Bytes) (now : Instant) : (arrive chunk now).bytes = chunk := by
  simp [Typed.bytes, arrive, Function.comp_def]

theorem time_of_mem_arrive {chunk : Bytes} {now : Instant} {x : UInt8 × Instant} (h : x ∈ arrive chunk now) : x.2 = now := by
  obtain ⟨b, -, rfl⟩ := List.mem_map.1 h
  rfl

/-- A key that the read at `now` settles. -/
structure SettledAt (now : Instant) (k : TypedKey) : Prop where
  first_le : k.first ≤ now
  last_eq : ∀ seq, k.key = .ctrlZ seq → k.last = now

/-- A press that a read completes is the next key typed, whatever comes later. -/
theorem typedKeys_completed {ts : Typed} {chunk : Bytes} {now : Instant} {len : Nat} (hquiet : Quiet ts.bytes)
    (hnow : ∀ x ∈ ts, x.2 ≤ now) (hun : Unbroken (ts ++ arrive chunk now)) (hscan : scan (ts.bytes ++ chunk) = .ctrlZ len)
    (more : Typed) :
    ∃ front back k, chunk = front ++ back ∧ front ≠ [] ∧ len = (ts.bytes ++ front).length ∧
      typedKeys (ts ++ arrive chunk now ++ more) = k :: typedKeys (arrive back now ++ more) ∧
      k.key = .ctrlZ (ts.bytes ++ front) ∧ SettledAt now k := by
  obtain ⟨seq, hseq, hfront, rfl⟩ := scan_ctrlZ.1 hscan
  have hlong := hquiet.lt_length hseq hfront
  -- The press ends in the chunk, so its last byte came now.
  obtain ⟨front, rfl⟩ := List.prefix_of_prefix_length_le (List.prefix_append ts.bytes chunk) hfront hlong.le
  obtain ⟨back, rfl⟩ := (List.prefix_append_right_inj _).1 hfront
  have hne : front ≠ [] := by
    rintro rfl
    simp at hlong
  have hsize : (ts.bytes ++ front).length = (ts ++ arrive front now).length := by simp [Typed.bytes, arrive]
  have hparts : ts ++ arrive (front ++ back) now = (ts ++ arrive front now) ++ arrive back now := by simp [arrive]
  rw [hparts] at hun ⊢
  rw [List.append_assoc (ts ++ arrive front now)]
  have hpress : pressAt ((ts ++ arrive front now) ++ (arrive back now ++ more)) = some (ts.bytes ++ front) := by
    refine pressAt_some.2 ⟨hseq, ?_, ?_⟩
    · rw [Typed.bytes_append, Typed.bytes_append, bytes_arrive]
      exact List.prefix_append _ _
    · rw [List.take_left' hsize.symm]
      exact hun.left_of_append
  obtain ⟨x, hx, y, hy, hkeys⟩ := typedKeys_press hpress
  rw [List.take_left' hsize.symm] at hx hy
  rw [List.drop_left' hsize.symm] at hkeys
  refine ⟨front, back, _, rfl, hne, rfl, hkeys, rfl, ?_, fun _ _ => ?_⟩
  · obtain hx | hx := List.mem_append.1 hx
    · exact hnow x hx
    · exact (time_of_mem_arrive hx).le
  · rw [Option.mem_def, List.getLast?_append_of_ne_nil] at hy
    · exact time_of_mem_arrive (List.mem_of_getLast? hy)
    · simpa [arrive] using hne

/-- A byte that the scan passes by is the next key typed. -/
theorem typedKeys_passed {x : UInt8 × Instant} {ts : Typed} (hscan : scan (x.1 :: ts.bytes) = .other) (more : Typed) :
    typedKeys (x :: ts ++ more) = asByte x :: typedKeys (ts ++ more) := by
  refine typedKeys_byte (pressAt_none.2 fun seq hseq hfront _ => ?_)
  refine (scan_other (scan_append_other more.bytes hscan)).2 seq hseq ?_
  simpa [Typed.bytes] using hfront

/-- What a drain of unbroken bytes gives are the keys typed, whatever comes later. -/
theorem typedKeys_drain {ts : Typed} {chunk : Bytes} {now : Instant} (hquiet : Quiet ts.bytes)
    (hnow : ∀ x ∈ ts, x.2 ≤ now) (hun : Unbroken (ts ++ arrive chunk now)) (more : Typed) :
    ∃ done, ∃ rest : Typed, rest <:+ ts ++ arrive chunk now ∧
      typedKeys (ts ++ arrive chunk now ++ more) = done ++ typedKeys (rest ++ more) ∧
      keyScanner.drain (ts.bytes ++ chunk) = (done.map TypedKey.key, .ok rest.bytes) ∧
      ∀ k ∈ done, SettledAt now k := by
  induction hlen : ts.length + chunk.length using Nat.strong_induction_on generalizing ts chunk with
  | _ n ih =>
  cases hscan : scan (ts.bytes ++ chunk) with
  | incomplete =>
    refine ⟨[], _, List.suffix_rfl, rfl, ?_, by simp⟩
    rw [drain_incomplete hscan]
    simp
  | ctrlZ len =>
    obtain ⟨front, back, k, rfl, hne, rfl, hkeys, hkey, hk⟩ := typedKeys_completed hquiet hnow hun hscan more
    have hparts : ts ++ arrive (front ++ back) now = (ts ++ arrive front now) ++ arrive back now := by simp [arrive]
    have hlt : back.length < n := by
      have := List.length_pos_of_ne_nil hne
      simp only [List.length_append] at hlen
      omega
    rw [hparts] at hun
    obtain ⟨done, rest, hrest, hmore, hdrain, hdone⟩ :=
      @ih back.length hlt [] back quiet_nil (by simp) hun.right_of_append (by simp)
    refine ⟨k :: done, rest, ?_, ?_, ?_, List.forall_mem_cons.2 ⟨hk, hdone⟩⟩
    · rw [hparts]
      exact hrest.trans (List.suffix_append _ _)
    · rw [hkeys, List.cons_append, ← hmore, List.nil_append]
    · have hback : keyScanner.drain back = (done.map TypedKey.key, .ok rest.bytes) := hdrain
      rw [drain_ctrlZ hscan, ← List.append_assoc, List.take_left' rfl, List.drop_left' rfl, hback, List.map_cons, hkey]
  | other =>
    cases ts with
    | cons x ts =>
      obtain ⟨done, rest, hrest, hmore, hdrain, hdone⟩ := @ih (ts.length + chunk.length)
        (by simp only [List.length_cons] at hlen; omega) ts chunk hquiet.tail
        (fun y hy => hnow y (List.mem_cons_of_mem _ hy)) hun.tail rfl
      refine ⟨asByte x :: done, rest, hrest.trans (List.suffix_cons _ _), ?_, ?_, ?_⟩
      · have hpassed := @typedKeys_passed x (ts ++ arrive chunk now)
          (by rw [Typed.bytes_append, bytes_arrive]; exact hscan) more
        rw [List.cons_append, hpassed, hmore, List.cons_append]
      · have hscan' : scan (x.1 :: (Typed.bytes ts ++ chunk)) = .other := hscan
        have := drain_other hscan'
        rw [hdrain] at this
        exact this
      · exact List.forall_mem_cons.2 ⟨⟨hnow x List.mem_cons_self, by rintro _ ⟨⟩⟩, hdone⟩
    | nil =>
      cases chunk with
      | nil => cases hscan
      | cons b chunk =>
        obtain ⟨done, rest, hrest, hmore, hdrain, hdone⟩ := @ih chunk.length
          (by simp only [List.length_cons] at hlen; omega) [] chunk quiet_nil (by simp) hun.tail (by simp)
        refine ⟨asByte (b, now) :: done, rest, hrest.trans (List.suffix_cons _ _), ?_, ?_, ?_⟩
        · have hpassed := @typedKeys_passed (b, now) (arrive chunk now) (by rw [bytes_arrive]; exact hscan) more
          exact hpassed.trans (congrArg _ hmore)
        · have := @drain_other b chunk hscan
          have hchunk : keyScanner.drain chunk = (done.map TypedKey.key, .ok rest.bytes) := hdrain
          rw [hchunk] at this
          exact this
        · exact List.forall_mem_cons.2 ⟨⟨le_rfl, by rintro _ ⟨⟩⟩, hdone⟩

/-! ## What the decoder holds -/

/-- The bytes a decoder holds, with their times. -/
structure Holding (d : KeyDecoder) (ts : Typed) : Prop where
  bytes : ts.bytes = d.partialBytes
  begun : scan d.partialBytes = .incomplete
  unbroken : Unbroken ts
  deadline : d.holdDeadline = ts.getLast?.map fun x => x.2 + hold

theorem holding_fresh : Holding {} [] := ⟨rfl, by decide, .nil, rfl⟩

theorem unbroken_arrive (chunk : Bytes) (now : Instant) : Unbroken (arrive chunk now) := by
  induction chunk with
  | nil => exact .nil
  | cons b chunk ih =>
    refine List.isChain_cons.2 ⟨fun y hy => ?_, ih⟩
    rw [time_of_mem_arrive (List.mem_of_head? hy)]
    exact Nat.lt_add_of_pos_right (by rw [hold]; decide)

theorem getLast?_suffix {ts : Typed} {chunk : Bytes} {now : Instant} {front : Typed} (h : ts <:+ front ++ arrive chunk now)
    (hts : ts ≠ []) (hchunk : chunk ≠ []) : ts.getLast?.map Prod.snd = some now := by
  obtain ⟨before, heq⟩ := h
  have hlast : ts.getLast? = (arrive chunk now).getLast? := by
    rw [← List.getLast?_append_of_ne_nil before hts, heq, List.getLast?_append_of_ne_nil]
    simpa [arrive] using hchunk
  obtain ⟨x, hx⟩ := List.getLast?_isSome.2 hts |> Option.isSome_iff_exists.1
  rw [hx, Option.map_some, time_of_mem_arrive (List.mem_of_getLast? (hlast ▸ hx))]

namespace Holding

variable {d : KeyDecoder} {ts : Typed} {now : Instant}

theorem bytes_eq_nil {ts : Typed} : ts.bytes = [] ↔ ts = [] := List.map_eq_nil_iff

theorem expired_iff (h : Holding d ts) : d.expired now = true ↔ ∃ x ∈ ts.getLast?, x.2 + hold ≤ now := by
  unfold KeyDecoder.expired
  rw [← h.bytes, h.deadline]
  cases hlast : ts.getLast? with
  | none => simp
  | some x =>
    have hne : ts.bytes ≠ [] := by
      intro hnil
      rw [bytes_eq_nil.1 hnil] at hlast
      cases hlast
    rw [Option.map_some, Option.any_some, Bool.and_eq_true, decide_eq_true_eq, decide_eq_true_eq]
    constructor
    · rintro ⟨-, hle⟩
      exact ⟨x, rfl, hle⟩
    · rintro ⟨y, hy, hle⟩
      cases hy
      exact ⟨hne, hle⟩

/-- The deadline after a feed is that of the last byte held. -/
theorem deadline_rest (h : Holding d ts) {chunk : Bytes} {front rest : Typed} (hrest : rest <:+ front ++ arrive chunk now)
    (hbytes : rest.bytes = (d.feed chunk now).2.partialBytes) (hsame : chunk = [] → rest = [] ∨ rest = ts) :
    (d.feed chunk now).2.holdDeadline = rest.getLast?.map fun x => x.2 + hold := by
  by_cases hnil : rest = []
  · rw [hnil] at hbytes ⊢
    exact KeyDecoder.deadline_none hbytes.symm
  · have hleft : (d.feed chunk now).2.partialBytes ≠ [] := by
      rw [← hbytes]
      exact mt bytes_eq_nil.1 hnil
    by_cases hchunk : chunk = []
    · obtain rfl := (hsame hchunk).resolve_left hnil
      subst hchunk
      obtain ⟨x, hx⟩ := Option.isSome_iff_exists.1 (List.getLast?_isSome.2 hnil)
      rw [KeyDecoder.deadline_kept hleft, h.deadline, hx, Option.map_some, Option.getD_some]
    · obtain ⟨x, hx, rfl⟩ := Option.map_eq_some_iff.1 (getLast?_suffix hrest hnil hchunk)
      rw [KeyDecoder.deadline_extended hleft hchunk, hx, Option.map_some]

/-- A feed settles the keys typed up to some point, and holds the bytes from there on. -/
theorem feed (h : Holding d ts) (hnow : ∀ x ∈ ts, x.2 ≤ now) (chunk : Bytes) {more : Typed}
    (hmore : ∀ y ∈ more, now ≤ y.2) :
    ∃ done, ∃ rest : Typed, Holding (d.feed chunk now).2 rest ∧ rest <:+ ts ++ arrive chunk now ∧
      typedKeys (ts ++ arrive chunk now ++ more) = done ++ typedKeys (rest ++ more) ∧
      (d.feed chunk now).1.flatMap KeyToken.keys = done.map TypedKey.key ∧
      ∀ k ∈ done, SettledAt now k := by
  have hquiet : Quiet ts.bytes := quiet_of_incomplete (h.bytes ▸ h.begun)
  cases hexp : d.expired now with
  | false =>
    have hun : Unbroken (ts ++ arrive chunk now) := by
      refine List.isChain_append.2 ⟨h.unbroken, unbroken_arrive chunk now, fun x hx y hy => ?_⟩
      rw [time_of_mem_arrive (List.mem_of_head? hy)]
      by_contra hlate
      rw [h.expired_iff.2 ⟨x, hx, Nat.le_of_not_lt hlate⟩] at hexp
      cases hexp
    obtain ⟨done, rest, hrest, hkeys, hdrain, hdone⟩ := typedKeys_drain hquiet hnow hun more
    obtain ⟨htokens, hleft⟩ := KeyDecoder.feed_keys chunk hexp
    rw [← h.bytes, hdrain] at htokens hleft
    have hbytes : rest.bytes = (d.feed chunk now).2.partialBytes := Except.ok.inj hleft
    refine ⟨done, rest, ⟨hbytes, KeyDecoder.feed_left d chunk now, hun.suffix hrest, ?_⟩,
      hrest, hkeys, htokens, hdone⟩
    refine h.deadline_rest hrest hbytes ?_
    rintro rfl
    right
    have hidle := drain_incomplete h.begun
    rw [List.append_nil, h.bytes] at hdrain
    rw [hidle, Prod.mk.injEq, Except.ok.injEq, ← h.bytes] at hdrain
    rw [arrive, List.map_nil, List.append_nil] at hrest
    refine hrest.eq_of_length ?_
    rw [← List.length_map (f := Prod.fst), ← @List.length_map _ _ ts Prod.fst]
    exact congrArg List.length hdrain.2.symm
  | true =>
    obtain ⟨x, hx, hpause⟩ := h.expired_iff.1 hexp
    have hgap : ∀ z ∈ ts.getLast?, ∀ y ∈ arrive chunk now ++ more, z.2 + hold ≤ y.2 := by
      intro z hz y hy
      obtain rfl : x = z := Option.mem_unique hx hz
      obtain hy | hy := List.mem_append.1 hy
      · rwa [time_of_mem_arrive hy]
      · exact hpause.trans (hmore y hy)
    obtain ⟨done, rest, hrest, hkeys, hdrain, hdone⟩ :=
      @typedKeys_drain [] chunk now quiet_nil (by simp) (unbroken_arrive chunk now) more
    obtain ⟨htokens, hleft⟩ := KeyDecoder.feed_keys_expired chunk hexp
    have hchunk : keyScanner.drain chunk = (done.map TypedKey.key, .ok rest.bytes) := hdrain
    rw [hchunk] at htokens hleft
    have hbytes : rest.bytes = (d.feed chunk now).2.partialBytes := Except.ok.inj hleft
    refine ⟨ts.map asByte ++ done, rest, ⟨hbytes, KeyDecoder.feed_left d chunk now,
      (unbroken_arrive chunk now).suffix hrest, h.deadline_rest hrest hbytes ?_⟩,
      hrest.trans (List.suffix_append _ _), ?_, ?_, ?_⟩
    · rintro rfl
      exact .inl (List.suffix_nil.1 hrest)
    · rw [List.append_assoc, typedKeys_expired hquiet hgap, List.append_assoc]
      exact congrArg _ hkeys
    · rw [htokens, ← h.bytes, List.map_append]
      simp [Typed.bytes, asByte, Function.comp_def]
    · intro k hk
      obtain hk | hk := List.mem_append.1 hk
      · obtain ⟨y, hy, rfl⟩ := List.mem_map.1 hk
        exact ⟨hnow y hy, by rintro _ ⟨⟩⟩
      · exact hdone k hk

end Holding

end Hyoui.Client
