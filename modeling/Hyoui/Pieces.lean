import Hyoui.Strip
/-!
# Stripping piece by piece

What `strip_ansi` copies of a buffer that comes in pieces, when each piece is stripped on its own: the bytes it
copies of the whole, each from its own place, exactly when every cut inside an escape is followed by a piece in
which that makes no difference.
-/

namespace Hyoui.Strip

open Hyoui.Protocol Hyoui.Lib

/-! ## The bytes that are copied -/

/-- For each byte, whether `strip_ansi` copies it. -/
def copies : Bytes → List Bool
  | [] => []
  | b :: rest =>
    if b ≠ esc then true :: copies rest
    else match rest with
      | [] => [false]
      | kind :: body =>
        List.replicate (body.length + 2 - (skipEscape kind body).length) false ++ copies (skipEscape kind body)
termination_by input => input.length
decreasing_by
  · simp
  · have h := (skipEscape_suffix kind body).length_le
    simp only [List.length_cons]
    omega

/-- The bytes at the marked places. -/
def select (input : Bytes) (marks : List Bool) : Bytes := ((input.zip marks).filter (·.2)).map (·.1)

theorem copies_nil : copies [] = [] := by rw [copies.eq_def]

theorem copies_text {b : UInt8} (h : b ≠ esc) (rest : Bytes) : copies (b :: rest) = true :: copies rest := by
  rw [copies.eq_def]
  exact if_pos h

theorem copies_esc : copies [esc] = [false] := by
  rw [copies.eq_def]
  rfl

theorem copies_escape (kind : UInt8) (body : Bytes) : copies (esc :: kind :: body) =
    List.replicate (body.length + 2 - (skipEscape kind body).length) false ++ copies (skipEscape kind body) := by
  rw [copies.eq_def]
  exact if_neg fun h => h rfl

theorem copies_length (input : Bytes) : (copies input).length = input.length := by
  induction input using stripAnsi.induct with
  | case1 =>
    rw [copies_nil]
    rfl
  | case2 b rest hb ih => rw [copies_text hb, List.length_cons, ih, List.length_cons]
  | case3 b hb =>
    obtain rfl : b = esc := not_not.1 hb
    rw [copies_esc]
    rfl
  | case4 b hb kind body ih =>
    obtain rfl : b = esc := not_not.1 hb
    have h := (skipEscape_suffix kind body).length_le
    rw [copies_escape, List.length_append, List.length_replicate, ih]
    simp only [List.length_cons]
    omega

theorem select_append {a b : Bytes} {marks marks' : List Bool} (h : marks.length = a.length) :
    select (a ++ b) (marks ++ marks') = select a marks ++ select b marks' := by
  rw [select, List.zip_append h.symm, List.filter_append, List.map_append]
  rfl

theorem select_none (input : Bytes) (n : Nat) : select input (List.replicate n false) = [] := by
  induction input generalizing n with
  | nil => rfl
  | cons b rest ih =>
    cases n with
    | zero => rfl
    | succ n => exact ih n

theorem select_length_le (input : Bytes) (marks : List Bool) : (select input marks).length ≤ input.length := by
  rw [select, List.length_map]
  refine (List.length_filter_le _ _).trans ?_
  rw [List.length_zip]
  exact Nat.min_le_left _ _

/-- `strip_ansi` returns the bytes it copies. -/
theorem select_copies (input : Bytes) : select input (copies input) = stripAnsi input := by
  induction input using stripAnsi.induct with
  | case1 => rw [copies_nil, stripAnsi_nil, select, List.zip_nil_left, List.filter_nil, List.map_nil]
  | case2 b rest hb ih =>
    rw [copies_text hb, stripAnsi_text hb, ← ih]
    rfl
  | case3 b hb =>
    obtain rfl : b = esc := not_not.1 hb
    rw [copies_esc, stripAnsi.eq_def]
    rfl
  | case4 b hb kind body ih =>
    obtain rfl : b = esc := not_not.1 hb
    obtain ⟨front, hfront⟩ := skipEscape_suffix kind body
    have hlen : (esc :: kind :: front).length = body.length + 2 - (skipEscape kind body).length := by
      rw [← congrArg List.length hfront, List.length_append]
      simp only [List.length_cons]
      omega
    have hsplit : esc :: kind :: body = (esc :: kind :: front) ++ skipEscape kind body := by
      rw [List.cons_append, List.cons_append, hfront]
    rw [copies_escape, stripAnsi_escape, ← ih, ← hlen]
    conv_lhs => rw [hsplit]
    rw [select_append (List.length_replicate ..), select_none, List.nil_append]

theorem stripAnsi_length_le (input : Bytes) : (stripAnsi input).length ≤ input.length := by
  rw [← select_copies]
  exact select_length_le _ _

/-- Nothing is copied of escapes, and of nothing else. -/
theorem copies_eq_none (input : Bytes) : copies input = List.replicate input.length false ↔ onlyEscapes input = true := by
  rw [← stripAnsi_eq_nil]
  constructor
  · intro h
    rw [← select_copies, h, select_none]
  · intro h
    induction input using stripAnsi.induct with
    | case1 => rw [copies_nil, List.length_nil, List.replicate_zero]
    | case2 b rest hb =>
      rw [stripAnsi_text hb] at h
      cases h
    | case3 b hb =>
      obtain rfl : b = esc := not_not.1 hb
      rw [copies_esc]
      rfl
    | case4 b hb kind body ih =>
      obtain rfl : b = esc := not_not.1 hb
      rw [stripAnsi_escape] at h
      have hle := (skipEscape_suffix kind body).length_le
      rw [copies_escape, ih h, List.replicate_append_replicate, List.length_cons, List.length_cons]
      congr 1
      omega

/-! ## Escapes that go on -/

theorem endString_append {byBel : Bool} {body after : Bytes} (h : endString byBel body = some after) (more : Bytes) :
    endString byBel (body ++ more) = some (after ++ more) := by
  induction body with
  | nil => cases h
  | cons b rest ih =>
    rw [List.cons_append]
    unfold endString at h ⊢
    split at h <;> rename_i hbel
    · rw [if_pos hbel, ← Option.some.inj h]
    · rw [if_neg hbel]
      cases rest with
      | nil => simp [endString] at h
      | cons c rest =>
        split at h <;> rename_i hst
        · rw [if_pos (by simpa using hst), ← Option.some.inj h]
          rfl
        · rw [if_neg (by simpa using hst)]
          exact ih h

theorem endEscape_append {kind : UInt8} {body after : Bytes} (h : endEscape kind body = some after) (more : Bytes) :
    endEscape kind (body ++ more) = some (after ++ more) := by
  unfold endEscape at h ⊢
  split at h <;> rename_i hcsi
  · rw [if_pos hcsi]
    exact (carryCsi_append h more).2
  · rw [if_neg hcsi]
    split at h <;> rename_i hosc
    · rw [if_pos hosc]
      exact endString_append h more
    · rw [if_neg hosc]
      split at h <;> rename_i hdcs
      · rw [if_pos hdcs]
        exact endString_append h more
      · rw [if_neg hdcs, Option.some.inj h]

theorem endString_resumed {byBel : Bool} {body more after : Bytes} (hcut : endString byBel body = none)
    (h : endString byBel (body ++ more) = some after) : after <:+ more := by
  induction body with
  | nil =>
    rw [List.nil_append] at h
    have hskip := skipString_suffix byBel more
    rwa [skipString_eq, h] at hskip
  | cons b rest ih =>
    rw [List.cons_append] at h
    unfold endString at hcut h
    split at hcut <;> rename_i hbel
    · cases hcut
    · rw [if_neg hbel] at h
      split at hcut <;> rename_i hst
      · cases hcut
      · split at h <;> rename_i hst'
        · -- The ESC of an ST was the last byte of the first piece.
          cases rest with
          | nil =>
            rw [← Option.some.inj h]
            exact List.tail_suffix more
          | cons c rest => exact absurd hst' hst
        · exact ih hcut h

theorem carryCsi_resumed {body more after : Bytes} (hcut : carryCsi body = none)
    (h : carryCsi (body ++ more) = some after) : after <:+ more := by
  have hempty : csiParams body = [] := by
    unfold carryCsi at hcut
    split at hcut
    · assumption
    · split at hcut <;> cases hcut
  have hsuffix : csiParams (body ++ more) <:+ more := by
    unfold csiParams at hempty ⊢
    rw [List.dropWhile_append]
    split
    · exact (List.dropWhile_suffix _).trans (List.dropWhile_suffix _)
    · rw [List.dropWhile_append, if_pos (by rw [hempty]; rfl)]
      exact List.dropWhile_suffix _
  unfold carryCsi at h
  split at h
  · cases h
  · rename_i f rest heq
    rw [heq] at hsuffix
    split at h <;> rw [← Option.some.inj h]
    · exact (List.suffix_cons f rest).trans hsuffix
    · exact hsuffix

/-- Where an escape that was cut off ends, if it ends, is in what came after. -/
theorem endEscape_resumed {kind : UInt8} {body more after : Bytes} (hcut : endEscape kind body = none)
    (h : endEscape kind (body ++ more) = some after) : after <:+ more := by
  unfold endEscape at hcut h
  split at hcut <;> rename_i hcsi
  · rw [if_pos hcsi] at h
    exact carryCsi_resumed hcut h
  · rw [if_neg hcsi] at h
    split at hcut <;> rename_i hosc
    · rw [if_pos hosc] at h
      exact endString_resumed hcut h
    · rw [if_neg hosc] at h
      split at hcut <;> rename_i hdcs
      · rw [if_pos hdcs] at h
        exact endString_resumed hcut h
      · cases hcut

/-! ## A piece after a cut -/

/-- What is left of a piece after the escape that was cut off before it; `none` where that does not end in it. -/
def resume (cut piece : Bytes) : Option Bytes :=
  match cut ++ piece with
  | _ :: kind :: body => endEscape kind body
  | _ => none

/-- Whether a piece is copied alike with and without the escape that was cut off before it: its bytes that are
inside that escape are escapes on their own, and where the last of these is cut off in turn, the same holds of
it and the rest of the piece. -/
def agrees (cut piece : Bytes) : Bool :=
  if cut = [] then true
  else match resume cut piece with
    | none => onlyEscapes piece
    | some after =>
      if piece.length ≤ after.length then true
      else
        let inside := piece.take (piece.length - after.length)
        onlyEscapes inside && agrees (unfinished inside) after
termination_by piece.length
decreasing_by omega

/-- The same at every cut: between the first piece and the next one, and between those that follow. -/
def cutsAgree (first : Bytes) : List Bytes → Bool
  | [] => true
  | piece :: pieces => agrees (unfinished first) piece && cutsAgree (first ++ piece) pieces

/-- The start of an escape that the end of a piece cut off, or nothing. -/
def IsCut (cut : Bytes) : Prop :=
  cut = [] ∨ cut = [esc] ∨ ∃ kind body, cut = esc :: kind :: body ∧ endEscape kind body = none

theorem unfinished_isCut (input : Bytes) : IsCut (unfinished input) := by
  induction input using unfinished.induct with
  | case1 =>
    rw [unfinished.eq_def]
    exact .inl rfl
  | case2 b rest hb ih =>
    rw [unfinished_text hb]
    exact ih
  | case3 b hb =>
    obtain rfl : b = esc := not_not.1 hb
    rw [unfinished.eq_def]
    exact .inr (.inl rfl)
  | case4 b hb kind body hend =>
    obtain rfl : b = esc := not_not.1 hb
    rw [unfinished_cut hend]
    exact .inr (.inr ⟨kind, body, rfl, hend⟩)
  | case5 b hb kind body after hend ih =>
    obtain rfl : b = esc := not_not.1 hb
    rw [unfinished_escape hend]
    exact ih

/-- Up to its end nothing of an escape is copied, wherever it is cut. -/
theorem copies_resume {cut : Bytes} (hcut : IsCut cut) (hne : cut ≠ []) (piece : Bytes) :
    match resume cut piece with
    | none => copies (cut ++ piece) = List.replicate (cut ++ piece).length false
    | some after => after <:+ piece ∧
        copies (cut ++ piece) = List.replicate ((cut ++ piece).length - after.length) false ++ copies after := by
  have hescape : ∀ kind body, cut ++ piece = esc :: kind :: body →
      copies (cut ++ piece) = List.replicate ((cut ++ piece).length - ((endEscape kind body).getD []).length) false ++
        copies ((endEscape kind body).getD []) := by
    intro kind body h
    rw [h, copies_escape, skipEscape_eq]
    rfl
  rcases hcut with rfl | rfl | ⟨kind, body, rfl, hend⟩
  · exact absurd rfl hne
  · cases piece with
    | nil => exact copies_esc
    | cons kind body =>
      have hcopies := hescape kind body rfl
      have hresume : resume [esc] (kind :: body) = endEscape kind body := rfl
      rw [hresume]
      cases hend : endEscape kind body with
      | none =>
        rw [hend, Option.getD_none, copies_nil, List.append_nil] at hcopies
        exact hcopies
      | some after =>
        rw [hend, Option.getD_some] at hcopies
        exact ⟨(endEscape_suffix hend).trans (List.suffix_cons kind body), hcopies⟩
  · have hcopies := hescape kind (body ++ piece) rfl
    have hresume : resume (esc :: kind :: body) piece = endEscape kind (body ++ piece) := rfl
    rw [hresume]
    cases hmore : endEscape kind (body ++ piece) with
    | none =>
      rw [hmore, Option.getD_none, copies_nil, List.append_nil] at hcopies
      exact hcopies
    | some after =>
      rw [hmore, Option.getD_some] at hcopies
      exact ⟨endEscape_resumed hend hmore, hcopies⟩

/-- What is copied of a piece that comes after a cut. -/
def copiesAfter (cut piece : Bytes) : List Bool := (copies (cut ++ piece)).drop cut.length

theorem copiesAfter_nil (piece : Bytes) : copiesAfter [] piece = copies piece := rfl

theorem copiesAfter_length (cut piece : Bytes) : (copiesAfter cut piece).length = piece.length := by
  rw [copiesAfter, List.length_drop, copies_length, List.length_append]
  omega

theorem copies_cut {cut : Bytes} (hcut : IsCut cut) (hne : cut ≠ []) (piece : Bytes) :
    copies (cut ++ piece) = List.replicate cut.length false ++ copiesAfter cut piece := by
  have htake : (copies (cut ++ piece)).take cut.length = List.replicate cut.length false := by
    have hresume := copies_resume hcut hne piece
    cases hafter : resume cut piece with
    | none =>
      simp only [hafter] at hresume
      rw [hresume, List.take_replicate, List.length_append, Nat.min_eq_left (Nat.le_add_right _ _)]
    | some after =>
      simp only [hafter] at hresume
      have hle := hresume.1.length_le
      rw [hresume.2, List.take_append_of_le_length, List.take_replicate, Nat.min_eq_left]
      all_goals simp only [List.length_replicate, List.length_append]
      all_goals omega
  rw [copiesAfter, ← htake, List.take_append_drop]

theorem copies_of_cut {cut : Bytes} (hcut : IsCut cut) (hne : cut ≠ []) :
    copies cut = List.replicate cut.length false := by
  have h := copies_cut hcut hne []
  rwa [List.append_nil, List.eq_nil_of_length_eq_zero (copiesAfter_length cut []), List.append_nil] at h

/-- Of two pieces, the first is copied as it is alone, and the second as it is after the cut. -/
theorem copies_append (a b : Bytes) : copies (a ++ b) = copies a ++ copiesAfter (unfinished a) b := by
  have hself : ∀ cut, cut = unfinished cut → cut ≠ [] → copies (cut ++ b) = copies cut ++ copiesAfter (unfinished cut) b := by
    intro cut heq hne
    have hcut : IsCut cut := by
      rw [heq]
      exact unfinished_isCut cut
    rw [copies_cut hcut hne, copies_of_cut hcut hne, ← heq]
  induction a using unfinished.induct with
  | case1 =>
    rw [unfinished.eq_def, copies_nil]
    rfl
  | case2 c rest hc ih =>
    rw [List.cons_append, copies_text hc, copies_text hc, unfinished_text hc, ih]
    rfl
  | case3 c hc =>
    obtain rfl : c = esc := not_not.1 hc
    refine hself _ ?_ (List.cons_ne_nil _ _)
    rw [unfinished.eq_def]
    rfl
  | case4 c hc kind body hend =>
    obtain rfl : c = esc := not_not.1 hc
    exact hself _ (unfinished_cut hend).symm (List.cons_ne_nil _ _)
  | case5 c hc kind body after hend ih =>
    obtain rfl : c = esc := not_not.1 hc
    have hskip : skipEscape kind body = after := by rw [skipEscape_eq, hend, Option.getD_some]
    have hmore : skipEscape kind (body ++ b) = after ++ b := by
      rw [skipEscape_eq, endEscape_append hend, Option.getD_some]
    have hlen : (body ++ b).length + 2 - (after ++ b).length = body.length + 2 - after.length := by
      rw [List.length_append, List.length_append]
      omega
    rw [List.cons_append, List.cons_append, copies_escape, copies_escape, hskip, hmore, hlen, unfinished_escape hend, ih,
      List.append_assoc]

/-- A piece after a cut is copied as it is alone exactly when it agrees with the cut. -/
theorem agrees_iff {cut : Bytes} (hcut : IsCut cut) (piece : Bytes) :
    agrees cut piece = true ↔ copiesAfter cut piece = copies piece := by
  induction hlen : piece.length using Nat.strong_induction_on generalizing cut piece with
  | _ n ih =>
    subst hlen
    rw [agrees.eq_def]
    by_cases hne : cut = []
    · rw [if_pos hne, hne, copiesAfter_nil]
      exact iff_of_true rfl rfl
    · rw [if_neg hne]
      have hresume := copies_resume hcut hne piece
      cases hafter : resume cut piece with
      | none =>
        simp only [hafter] at hresume ⊢
        have hnone : copiesAfter cut piece = List.replicate piece.length false := by
          rw [copiesAfter, hresume, List.drop_replicate, List.length_append, Nat.add_sub_cancel_left]
        rw [hnone, ← copies_eq_none]
        exact eq_comm
      | some after =>
        simp only [hafter] at hresume ⊢
        obtain ⟨⟨inside, rfl⟩, hcopies⟩ := hresume
        have hrest : copiesAfter cut (inside ++ after) = List.replicate inside.length false ++ copies after := by
          have hlen : (cut ++ (inside ++ after)).length - after.length = cut.length + inside.length := by
            simp only [List.length_append]
            omega
          rw [copiesAfter, hcopies, hlen, List.replicate_add, List.append_assoc, List.drop_left' (List.length_replicate ..)]
        have hinside : (inside ++ after).take ((inside ++ after).length - after.length) = inside := by
          rw [List.length_append, Nat.add_sub_cancel, List.take_left]
        rw [hinside, hrest, copies_append inside after]
        split <;> rename_i hle
        · -- The escape ended at the cut.
          obtain rfl : inside = [] := by
            rw [List.length_append] at hle
            exact List.eq_nil_of_length_eq_zero (by omega)
          rw [copies_nil, unfinished.eq_def]
          exact iff_of_true rfl rfl
        · have hshort : after.length < (inside ++ after).length := by omega
          rw [Bool.and_eq_true, ih _ hshort (unfinished_isCut inside) after rfl, ← copies_eq_none]
          constructor
          · rintro ⟨hnone, hsame⟩
            rw [hnone, hsame]
          · intro h
            obtain ⟨hnone, hsame⟩ := List.append_inj h.symm (by rw [copies_length, List.length_replicate])
            exact ⟨hnone, hsame⟩

/-- Piece by piece, the places of the whole are copied exactly when the cuts agree. -/
theorem cutsAgree_iff (first : Bytes) (pieces : List Bytes) :
    cutsAgree first pieces = true ↔ copies first ++ pieces.flatMap copies = copies (first ++ pieces.flatten) := by
  induction pieces generalizing first with
  | nil => simp [cutsAgree]
  | cons piece pieces ih =>
    have hcopies : copies (first ++ piece) = copies first ++ copiesAfter (unfinished first) piece := copies_append _ _
    rw [cutsAgree, Bool.and_eq_true, agrees_iff (unfinished_isCut first), ih, List.flatMap_cons, List.flatten_cons,
      ← List.append_assoc first, ← List.append_assoc (copies first)]
    constructor
    · rintro ⟨hpiece, hrest⟩
      rw [← hrest, hcopies, hpiece]
    · intro h
      have hfront : copies first ++ copies piece = copies (first ++ piece) := by
        rw [copies_append (first ++ piece)] at h
        exact (List.append_inj h (by simp only [List.length_append, copies_length])).1
      refine ⟨?_, hfront ▸ h⟩
      rw [hcopies] at hfront
      exact (List.append_cancel_left hfront).symm

/-- The bytes that come of pieces that are stripped one by one. -/
theorem select_pieces (first : Bytes) (pieces : List Bytes) :
    select (first ++ pieces.flatten) (copies first ++ pieces.flatMap copies) =
      stripAnsi first ++ pieces.flatMap stripAnsi := by
  have hpieces : select pieces.flatten (pieces.flatMap copies) = pieces.flatMap stripAnsi := by
    induction pieces with
    | nil => rfl
    | cons piece pieces ih =>
      rw [List.flatten_cons, List.flatMap_cons, List.flatMap_cons, select_append (copies_length piece), ih, select_copies]
  rw [select_append (copies_length first), hpieces, select_copies]

end Hyoui.Strip
