import Hyoui.Lib.Glob
import Mathlib
/-!
# What the child inherits of the environment

`env_scrub.rs`: variables whose name matches a kill glob are taken out of the environment of the daemon
child, unless a keep glob matches too or the name is reserved. The globs are matched on bytes, so a `?` is
one byte, and a variable whose name begins with `=` cannot be removed. `scrub_exact` says where neither
matters.
-/

open Hyoui.Lib.Glob

namespace Hyoui.Sys

def protectedPrefix : String := "HYOUI_"

structure ScrubPlan where
  patterns : List String
  keep : List String

/-- `str::as_bytes` -/
def asBytes (text : String) : List UInt8 := text.toByteArray.data.toList

def globMatch (pattern name : String) : Bool := glob 42 63 (asBytes pattern) (asBytes name)

def isProtected (name : String) : Bool := protectedPrefix.toList.isPrefixOf name.toList

/-- A variable of the environment. A name is not empty, and ends before the first `=` after its first byte. -/
structure EnvVar where
  name : ByteArray
  value : ByteArray
  nonempty : name.data.toList ≠ []
  no_eq : 61 ∉ name.data.toList.tail

/-- `into_string`: a name that is no text has no such form. -/
def EnvVar.text (v : EnvVar) : Option String := String.fromUTF8? v.name

structure ScrubResult where
  removed : List String := []
  keepSkips : List String := []
  protectedHits : List String := []

/-- `remove_var_at_startup` panics on a name with an `=`. -/
def removeVar (key : String) (env : List EnvVar) : Option (List EnvVar) :=
  if 61 ∈ asBytes key then none else some (env.filter (·.name ≠ key.toByteArray))

/-- One round of the loop of `apply`. -/
def scrubName (plan : ScrubPlan) (result : ScrubResult) (env : List EnvVar) (name : String) :
    Option (ScrubResult × List EnvVar) :=
  if !plan.patterns.any (globMatch · name) then some (result, env)
  else if plan.keep.any (globMatch · name) then some ({ result with keepSkips := result.keepSkips ++ [name] }, env)
  else if isProtected name then some ({ result with protectedHits := result.protectedHits ++ [name] }, env)
  else (removeVar name env).map fun env => ({ result with removed := result.removed ++ [name] }, env)

/-- The loop of `apply`. -/
def scrubNames (plan : ScrubPlan) (result : ScrubResult) (env : List EnvVar) :
    List String → Option (ScrubResult × List EnvVar)
  | [] => some (result, env)
  | name :: names => (scrubName plan result env name).bind fun (result, env) => scrubNames plan result env names

/-- `none` is a panic. -/
def apply (plan : ScrubPlan) (env : List EnvVar) : Option (ScrubResult × List EnvVar) :=
  if plan.patterns.isEmpty then some ({}, env)
  else
    (scrubNames plan {} env (env.filterMap EnvVar.text)).map fun (result, env) =>
      ({ removed := result.removed.mergeSort, keepSkips := result.keepSkips.mergeSort,
         protectedHits := result.protectedHits.mergeSort }, env)

/-! ## What a plan says -/

/-- `*` is any run of characters, `?` is one character and every other one itself. -/
def GlobMatches (pattern name : String) : Prop := Matches '*' '?' pattern.toList name.toList

def Scrubbed (plan : ScrubPlan) (name : String) : Prop :=
  (∃ pattern ∈ plan.patterns, GlobMatches pattern name) ∧ (∀ pattern ∈ plan.keep, ¬GlobMatches pattern name) ∧
    ¬protectedPrefix.toList <+: name.toList

/-- The plan takes the variables it is about out of the environment, and leaves the others as they are. -/
def Exact (plan : ScrubPlan) (env : List EnvVar) : Prop :=
  ∃ keep : EnvVar → Bool, (apply plan env).map Prod.snd = some (env.filter keep) ∧
    ∀ v ∈ env, keep v = true ↔ ∀ name, v.text = some name → ¬Scrubbed plan name

def Ascii (name : String) : Prop := ∀ c ∈ name.toList, c.utf8Size = 1

/-- No run of wildcards asks for more than one character, and for exactly one only with a `*` in it. -/
def PlainPattern (pattern : String) : Prop :=
  let (first, rest) := shape '*' '?' pattern.toList
  ∀ w ∈ first :: rest.map Prod.snd, w.Plain

/-- A `?` of the pattern is held against a byte of a longer character before `glob_match` has its answer. -/
def holdsPart (pattern name : String) : Bool := touches 42 63 (128 ≤ ·) (asBytes pattern) (asBytes name)

/-- Bytes are as good as characters for this pattern on this name. -/
def ByteSafe (pattern name : String) : Prop := PlainPattern pattern ∨ holdsPart pattern name = false

/-- The globs that `any` tries: up to the first that matches. -/
def tried (globs : List String) (name : String) : List String :=
  match globs with
  | [] => []
  | pattern :: globs => pattern :: if globMatch pattern name then [] else tried globs name

/-- The globs that `apply` tries on a name: the keep globs only where a kill glob matches. -/
def ScrubPlan.tried (plan : ScrubPlan) (name : String) : List String :=
  Sys.tried plan.patterns name ++ if plan.patterns.any (globMatch · name) then Sys.tried plan.keep name else []

/-- The condition under which `apply` removes a name. -/
def removes (plan : ScrubPlan) (name : String) : Bool :=
  plan.patterns.any (globMatch · name) && !plan.keep.any (globMatch · name) && !isProtected name

/-- Nothing goes wrong with the variables that are not reserved: the globs that are tried on their names are safe on
bytes, and what the plan is to take out has a name that can be removed. -/
def Untroubled (plan : ScrubPlan) (env : List EnvVar) : Prop :=
  ∀ v ∈ env, ∀ name, v.text = some name → ¬protectedPrefix.toList <+: name.toList →
    (∀ pattern ∈ plan.tried name, ByteSafe pattern name) ∧ (Scrubbed plan name → name.toList.head? ≠ some '=')

/-! ## The glob matcher -/

theorem asBytes_eq (text : String) : asBytes text = text.toList.flatMap String.utf8EncodeChar := by
  have h : text.toList.utf8Encode = text.toByteArray := by simp
  rw [asBytes, ← h, List.utf8Encode]
  simp

theorem globMatch_iff {pattern name : String} :
    globMatch pattern name = true ↔
      Fill (fun x => (x.flatMap String.utf8EncodeChar).length) (shape '*' '?' pattern.toList).1
        (shape '*' '?' pattern.toList).2 name.toList := by
  have henc : Encodes String.utf8EncodeChar '*' '?' 42 63 := utf8_aligned.encodes (by decide) (by decide)
  rw [globMatch, glob_iff (by decide), asBytes_eq, asBytes_eq]
  exact matches_flatMap henc utf8_aligned (by decide) (by decide)

theorem globMatches_iff {pattern name : String} :
    GlobMatches pattern name ↔
      Fill List.length (shape '*' '?' pattern.toList).1 (shape '*' '?' pattern.toList).2 name.toList :=
  matches_iff_fill (by decide)

theorem bytes_of_ascii {t : List Char} (h : ∀ c ∈ t, c.utf8Size = 1) :
    (t.flatMap String.utf8EncodeChar).length = t.length := by
  induction t with
  | nil => rfl
  | cons c t ih =>
    rw [List.forall_mem_cons] at h
    rw [List.flatMap_cons, List.length_append, String.length_utf8EncodeChar, h.1, ih h.2, List.length_cons,
      Nat.add_comm]

theorem bytes_eq_zero {t : List Char} : (t.flatMap String.utf8EncodeChar).length = 0 ↔ t.length = 0 := by
  cases t with
  | nil => rfl
  | cons c t =>
    have hpos := c.utf8Size_pos
    simp only [List.flatMap_cons, List.length_append, String.length_utf8EncodeChar, List.length_cons]
    omega

/-- Bytes and characters are the same in a name of ASCII, and for a pattern that does not count them. -/
theorem globMatch_exact {pattern name : String} (h : PlainPattern pattern ∨ Ascii name) :
    globMatch pattern name = true ↔ GlobMatches pattern name := by
  rw [globMatch_iff, globMatches_iff]
  refine fill_congr fun x hx w hw => ?_
  rcases h with hplain | hascii
  · exact (hplain w hw).fits_iff bytes_eq_zero
  · rw [bytes_of_ascii fun c hc => hascii c (hx.subset hc)]

theorem length_le_bytes (t : List Char) : t.length ≤ (t.flatMap String.utf8EncodeChar).length := by
  induction t with
  | nil => exact Nat.le_refl _
  | cons c t ih =>
    have hpos := c.utf8Size_pos
    rw [List.flatMap_cons, List.length_append, String.length_utf8EncodeChar, List.length_cons]
    omega

theorem ascii_of_bytes {t : List Char} (h : (t.flatMap String.utf8EncodeChar).length ≤ t.length) :
    ∀ c ∈ t, c.utf8Size = 1 := by
  induction t with
  | nil => exact nofun
  | cons c t ih =>
    have hpos := c.utf8Size_pos
    have hle := length_le_bytes t
    rw [List.flatMap_cons, List.length_append, String.length_utf8EncodeChar, List.length_cons] at h
    rw [List.forall_mem_cons]
    exact ⟨by omega, ih (by omega)⟩

/-- As many `?` as the name has characters. -/
def questions (name : String) : String := String.ofList (List.replicate name.toList.length '?')

theorem questions_match (name : String) : GlobMatches (questions name) name := by
  rw [GlobMatches, questions, String.toList_ofList, matches_replicate_one (by decide)]

theorem ascii_of_questions {name : String} (h : globMatch (questions name) name = true) : Ascii name := by
  have hbytes : asBytes (questions name) = List.replicate name.toList.length 63 := by
    rw [asBytes_eq, questions, String.toList_ofList, List.flatMap_replicate]
    have hone : String.utf8EncodeChar '?' = [63] := by decide
    rw [hone]
    simp
  rw [globMatch, glob_iff (by decide), hbytes, matches_replicate_one (by decide), asBytes_eq] at h
  exact ascii_of_bytes (by rw [h])

theorem plain_of_exact {pattern : String} {z : Char} (hz : z ∉ pattern.toList) (hsize : z.utf8Size ≠ 1)
    (h : ∀ name, globMatch pattern name = true ↔ GlobMatches pattern name) : PlainPattern pattern := by
  have hpos := z.utf8Size_pos
  have hbytes : ∀ n, ((List.replicate n z).flatMap String.utf8EncodeChar).length = n * z.utf8Size := by
    intro n
    induction n with
    | zero => simp
    | succ n ih =>
      rw [List.replicate_succ, List.flatMap_cons, List.length_append, ih, String.length_utf8EncodeChar, Nat.succ_mul,
        Nat.add_comm]
  have hletters : ∀ q ∈ (shape '*' '?' pattern.toList).2, q.1 ≠ z := by
    intro q hq heq
    exact hz (heq ▸ mem_of_mem_shape hq)
  have hsample : ∀ j : Run → Nat, _ := fun j =>
    h (String.ofList (sample z j (shape '*' '?' pattern.toList).1 (shape '*' '?' pattern.toList).2))
  simp only [globMatch_iff, globMatches_iff, String.toList_ofList, fill_sample hletters, hbytes,
    List.length_replicate] at hsample
  -- with one `z` for each `?` the name matches, so a run without `*` has none
  have hclosed : ∀ v ∈ (shape '*' '?' pattern.toList).1 :: (shape '*' '?' pattern.toList).2.map Prod.snd,
      v.free = false → v.least = 0 := by
    intro v hv hfree
    have hfits := (hsample Run.least).2 (fun w _ => w.fits_least) v hv
    simp only [Run.Fits, hfree, Bool.false_eq_true, if_false] at hfits
    by_contra hne
    have hmore : v.least * 2 ≤ v.least * z.utf8Size := Nat.mul_le_mul_left _ (by omega)
    omega
  -- with half as many the bytes still suffice
  have hhalf := (hsample fun v => (v.least + 1) / 2).1 (by
    intro v hv
    cases hfree : v.free with
    | false => simp [Run.Fits, hfree, hclosed v hv hfree]
    | true =>
      have hmore : (v.least + 1) / 2 * 2 ≤ (v.least + 1) / 2 * z.utf8Size := Nat.mul_le_mul_left _ (by omega)
      simp only [Run.Fits, hfree, if_true]
      omega)
  intro v hv
  cases hfree : v.free with
  | false => exact .inl (hclosed v hv hfree)
  | true =>
    have hfits := (hhalf v hv).least_le
    by_cases hzero : v.least = 0
    · exact .inl hzero
    · exact .inr ⟨hfree, by omega⟩

/-- A byte below 128 is a character. -/
theorem narrow_encodes (b : UInt8) (h : decide (128 ≤ b) = false) : ∃ c, String.utf8EncodeChar c = [b] := by
  have hlt : b.toNat < 128 := by
    have hnot := of_decide_eq_false h
    rw [UInt8.not_le] at hnot
    exact hnot
  refine ⟨Char.ofUInt8 b, ?_⟩
  have hsize : (Char.ofUInt8 b).utf8Size = 1 := by
    rw [Char.utf8Size_eq_one_iff, UInt32.le_iff_toNat_le]
    exact Nat.le_of_lt_succ hlt
  rw [String.utf8EncodeChar_eq_singleton hsize]
  simp [Char.ofUInt8]

/-! ## Applying a plan -/

theorem isProtected_iff {name : String} : isProtected name = true ↔ protectedPrefix.toList <+: name.toList :=
  List.isPrefixOf_iff_prefix

theorem scrubName_env (plan : ScrubPlan) (result : ScrubResult) (env : List EnvVar) (name : String) :
    ∃ result', scrubName plan result env name =
      (if removes plan name then removeVar name env else some env).map (result', ·) := by
  unfold scrubName removes
  cases plan.patterns.any (globMatch · name) <;> cases plan.keep.any (globMatch · name) <;>
    cases isProtected name <;> exact ⟨_, rfl⟩

/-- The plan would remove a name that cannot be removed. -/
def stuck (plan : ScrubPlan) (name : String) : Bool := removes plan name && 61 ∈ asBytes name

theorem scrub_env (plan : ScrubPlan) (names : List String) (result : ScrubResult) (env : List EnvVar) :
    (scrubNames plan result env names).map Prod.snd =
      if names.any (stuck plan) then none
      else some (env.filter fun v => !names.any fun name => removes plan name && v.name = name.toByteArray) := by
  induction names generalizing result env with
  | nil => simp [scrubNames]
  | cons name names ih =>
    obtain ⟨result', hstep⟩ := scrubName_env plan result env name
    rw [scrubNames, hstep]
    cases hremoves : removes plan name with
    | false => simp [hremoves, stuck, ih]
    | true =>
      by_cases heq : 61 ∈ asBytes name
      · simp [removeVar, heq, hremoves, stuck]
      · simp [removeVar, heq, hremoves, stuck, ih, List.filter_filter, Bool.and_comm]

theorem text_eq_some {v : EnvVar} {name : String} : v.text = some name ↔ v.name = name.toByteArray := by
  unfold EnvVar.text String.fromUTF8?
  constructor
  · intro h
    split at h
    · cases h
      rfl
    · cases h
  · intro h
    rw [dif_pos (by rw [h]; exact name.isValidUTF8)]
    simp only [h]
    rfl

theorem apply_env (plan : ScrubPlan) (env : List EnvVar) :
    (apply plan env).map Prod.snd =
      if (env.filterMap EnvVar.text).any (stuck plan) then none
      else some (env.filter fun v => !v.text.any (removes plan)) := by
  unfold apply
  split <;> rename_i hempty
  · rw [List.isEmpty_iff] at hempty
    have hnone : ∀ name, removes plan name = false := fun name => by simp [removes, hempty]
    have hself : env.filter (fun v => !v.text.any (removes plan)) = env := by
      rw [List.filter_eq_self]
      intro v _
      cases htext : v.text <;> simp [hnone]
    have hfree : (env.filterMap EnvVar.text).any (stuck plan) = false :=
      List.any_eq_false.2 fun name _ => by simp [stuck, hnone]
    rw [hfree, hself]
    rfl
  · rw [Option.map_map]
    have hsnd : Prod.snd ∘ (fun (r : ScrubResult × List EnvVar) =>
        (({ removed := r.1.removed.mergeSort, keepSkips := r.1.keepSkips.mergeSort,
            protectedHits := r.1.protectedHits.mergeSort } : ScrubResult), r.2)) = Prod.snd := rfl
    have hscrub := scrub_env plan (env.filterMap EnvVar.text) {} env
    refine (congrArg (Option.map · _) hsnd).trans (hscrub.trans ?_)
    split
    · rfl
    · refine congrArg some (List.filter_congr fun v hv => ?_)
      congr 1
      rw [Bool.eq_iff_iff, List.any_eq_true]
      constructor
      · rintro ⟨name, -, hname⟩
        simp only [Bool.and_eq_true, decide_eq_true_eq] at hname
        simp [text_eq_some.2 hname.2, hname.1]
      · intro h
        obtain ⟨name, htext, hremoves⟩ := (Option.any_eq_true ..).1 h
        refine ⟨name, List.mem_filterMap.2 ⟨v, hv, htext⟩, ?_⟩
        simp [hremoves, text_eq_some.1 htext]

/-- Of the bytes of a name only the first can be an `=`. -/
theorem eq_mem_iff {v : EnvVar} {name : String} (h : v.text = some name) :
    61 ∈ asBytes name ↔ name.toList.head? = some '=' := by
  have hbytes : asBytes name = v.name.data.toList := by rw [asBytes, text_eq_some.1 h]
  have hnot := v.no_eq
  rw [← hbytes, asBytes_eq] at hnot
  rw [asBytes_eq]
  generalize name.toList = chars at hnot ⊢
  cases chars with
  | nil => simp
  | cons c t =>
    have hone : String.utf8EncodeChar '=' = [61] := by decide
    constructor
    · intro hmem
      rw [List.flatMap_cons] at hmem hnot
      cases hc : String.utf8EncodeChar c with
      | nil => exact absurd hc String.utf8EncodeChar_ne_nil
      | cons b more =>
        rw [hc] at hmem hnot
        rcases List.mem_cons.1 hmem with hb | hmem
        · have hin : 61 ∈ String.utf8EncodeChar c := by
            rw [hc, hb]
            exact List.mem_cons_self
          exact congrArg some (utf8_aligned.eq_of_mem hone hin)
        · exact absurd hmem hnot
    · intro hhead
      obtain rfl := Option.some.inj hhead
      rw [List.flatMap_cons, hone]
      exact List.mem_cons_self

theorem stuck_iff {v : EnvVar} {plan : ScrubPlan} {name : String} (h : v.text = some name) :
    stuck plan name = true ↔ removes plan name = true ∧ name.toList.head? = some '=' := by
  rw [stuck, Bool.and_eq_true, decide_eq_true_eq, eq_mem_iff h]

theorem any_stuck {plan : ScrubPlan} {env : List EnvVar} :
    (env.filterMap EnvVar.text).any (stuck plan) = true ↔
      ∃ v ∈ env, ∃ name, v.text = some name ∧ removes plan name = true ∧ name.toList.head? = some '=' := by
  simp only [List.any_eq_true, List.mem_filterMap]
  constructor
  · rintro ⟨name, ⟨v, hv, htext⟩, hstuck⟩
    exact ⟨v, hv, name, htext, (stuck_iff htext).1 hstuck⟩
  · rintro ⟨v, hv, name, htext, hstuck⟩
    exact ⟨name, ⟨v, hv, htext⟩, (stuck_iff htext).2 hstuck⟩

theorem apply_panics {plan : ScrubPlan} {env : List EnvVar} :
    apply plan env = none ↔
      ∃ v ∈ env, ∃ name, v.text = some name ∧ removes plan name = true ∧ name.toList.head? = some '=' := by
  rw [← any_stuck, ← Option.map_eq_none_iff (f := Prod.snd), apply_env]
  split <;> simp_all

theorem exact_iff {plan : ScrubPlan} {env : List EnvVar} :
    Exact plan env ↔ ∀ v ∈ env, ∀ name, v.text = some name →
      (removes plan name = true → name.toList.head? ≠ some '=') ∧ (removes plan name = true ↔ Scrubbed plan name) := by
  unfold Exact
  rw [apply_env]
  constructor
  · rintro ⟨keep, henv, hkeep⟩ v hv name htext
    split at henv
    · cases henv
    · rename_i hstuck
      have hmem : v ∈ env.filter (fun v => !v.text.any (removes plan)) ↔ v ∈ env.filter keep := by
        rw [Option.some.inj henv]
      simp only [List.mem_filter, hv, true_and, htext, Option.any_some, hkeep v hv, Option.some.injEq, forall_eq',
        Bool.not_eq_true'] at hmem
      refine ⟨fun hremoves heq => hstuck (any_stuck.2 ⟨v, hv, name, htext, hremoves, heq⟩), ?_⟩
      rw [← not_iff_not, ← hmem, Bool.not_eq_true]
  · intro h
    have hfree : ¬ (env.filterMap EnvVar.text).any (stuck plan) = true := by
      rw [any_stuck]
      rintro ⟨v, hv, name, htext, hremoves, heq⟩
      exact (h v hv name htext).1 hremoves heq
    rw [if_neg hfree]
    refine ⟨_, rfl, fun v hv => ?_⟩
    cases htext : v.text with
    | none => simp
    | some name => simp [← (h v hv name htext).2]

/-! ### The globs that are tried -/

/-- Where the globs that are tried agree, one of all matches by bytes exactly if one does by characters. -/
theorem any_iff_of_tried {globs : List String} {name : String}
    (h : ∀ pattern ∈ tried globs name, globMatch pattern name = true ↔ GlobMatches pattern name) :
    globs.any (globMatch · name) = true ↔ ∃ pattern ∈ globs, GlobMatches pattern name := by
  induction globs with
  | nil => simp
  | cons pattern globs ih =>
    rw [tried, List.forall_mem_cons] at h
    rw [List.any_cons, Bool.or_eq_true, List.exists_mem_cons_iff, ← h.1]
    by_cases hmatch : globMatch pattern name = true
    · simp [hmatch]
    · rw [if_neg hmatch] at h
      rw [ih h.2]

theorem byteSafe_iff {pattern name : String} (h : ByteSafe pattern name) :
    globMatch pattern name = true ↔ GlobMatches pattern name := by
  rcases h with hplain | huntouched
  · exact globMatch_exact (.inl hplain)
  · have henc : Encodes String.utf8EncodeChar '*' '?' 42 63 := utf8_aligned.encodes (by decide) (by decide)
    rw [holdsPart, asBytes_eq, asBytes_eq] at huntouched
    rw [globMatch, asBytes_eq, asBytes_eq]
    exact glob_untouched utf8_aligned henc (by decide) narrow_encodes huntouched

/-- On a name on which the globs that are tried agree, `apply` does what the plan says. -/
theorem removes_iff {plan : ScrubPlan} {name : String}
    (h : ∀ pattern ∈ plan.tried name, globMatch pattern name = true ↔ GlobMatches pattern name) :
    removes plan name = true ↔ Scrubbed plan name := by
  have hkill := any_iff_of_tried fun pattern hp => h pattern (List.mem_append_left _ hp)
  by_cases hany : plan.patterns.any (globMatch · name) = true
  · have hkeep : plan.keep.any (globMatch · name) = true ↔ ∃ pattern ∈ plan.keep, GlobMatches pattern name :=
      any_iff_of_tried fun pattern hp => h pattern (List.mem_append_right _ (by rwa [if_pos hany]))
    have hkeep' :
        (¬∃ pattern ∈ plan.keep, GlobMatches pattern name) ↔ ∀ pattern ∈ plan.keep, ¬GlobMatches pattern name := by
      simp only [not_exists, not_and]
    simp only [removes, Bool.and_eq_true, Bool.not_eq_true', Bool.eq_false_iff, ne_eq, hkill, hkeep, isProtected_iff,
      Scrubbed, hkeep', and_assoc]
  · refine iff_of_false (fun hremoves => ?_) fun hscrubbed => hany (hkill.2 hscrubbed.1)
    rw [removes, Bool.and_eq_true, Bool.and_eq_true] at hremoves
    exact hany hremoves.1.1

theorem not_reserved {plan : ScrubPlan} {name : String} (h : removes plan name = true) :
    ¬protectedPrefix.toList <+: name.toList := by
  rw [removes, Bool.and_eq_true, Bool.not_eq_true', Bool.eq_false_iff] at h
  exact fun hprefix => h.2 (isProtected_iff.2 hprefix)

/-- On names that are reserved, or on which the globs that are tried agree and which can be removed, `apply` does
what the plan says. -/
theorem exact_of_agree {plan : ScrubPlan} {env : List EnvVar}
    (h : ∀ v ∈ env, ∀ name, v.text = some name → ¬protectedPrefix.toList <+: name.toList →
      (∀ pattern ∈ plan.tried name, globMatch pattern name = true ↔ GlobMatches pattern name) ∧
        (removes plan name = true → name.toList.head? ≠ some '=')) :
    Exact plan env := by
  refine exact_iff.2 fun v hv name htext => ⟨fun hremoves => (h v hv name htext (not_reserved hremoves)).2 hremoves, ?_⟩
  by_cases hfree : protectedPrefix.toList <+: name.toList
  · simp [removes, isProtected_iff.2 hfree, Scrubbed, hfree]
  · exact removes_iff (h v hv name htext hfree).1

/-- A plan is carried out to the letter on every environment it goes through untroubled; on an environment every plan
is, exactly if the names that are not reserved are ASCII and do not begin with `=`. `apply` panics exactly if it is to
remove a name that does. The matcher reads all patterns by characters exactly on names of ASCII; and on all names
exactly those patterns that count no characters, if some character beyond ASCII is not in them. -/
theorem scrub_exact (plan : ScrubPlan) (env : List EnvVar) (pattern name : String) :
    (Untroubled plan env → Exact plan env) ∧
    ((∀ plan, Exact plan env) ↔
      ∀ v ∈ env, ∀ name, v.text = some name → ¬protectedPrefix.toList <+: name.toList →
        Ascii name ∧ name.toList.head? ≠ some '=') ∧
    (apply plan env = none ↔
      ∃ v ∈ env, ∃ name, v.text = some name ∧ removes plan name = true ∧ name.toList.head? = some '=') ∧
    ((∀ pattern, globMatch pattern name = true ↔ GlobMatches pattern name) ↔ Ascii name) ∧
    (PlainPattern pattern ∨ (∃ z : Char, z.utf8Size ≠ 1 ∧ z ∉ pattern.toList) →
      ((∀ name, globMatch pattern name = true ↔ GlobMatches pattern name) ↔ PlainPattern pattern)) := by
  refine ⟨fun h => ?_, ⟨fun h => ?_, fun h plan => ?_⟩, apply_panics, ⟨fun h => ?_, fun h pattern =>
    globMatch_exact (.inr h)⟩, fun hpattern => ⟨fun h => ?_, fun h name => globMatch_exact (.inl h)⟩⟩
  · refine exact_of_agree fun v hv name htext hfree => ?_
    obtain ⟨hsafe, hremovable⟩ := h v hv name htext hfree
    have hagree : ∀ pattern ∈ plan.tried name, globMatch pattern name = true ↔ GlobMatches pattern name :=
      fun pattern hp => byteSafe_iff (hsafe pattern hp)
    exact ⟨hagree, fun hremoves => hremovable ((removes_iff hagree).1 hremoves)⟩
  · intro v hv name htext hfree
    have hexact := exact_iff.1 (h ⟨[questions name], []⟩) v hv name htext
    have hscrubbed : Scrubbed ⟨[questions name], []⟩ name :=
      ⟨⟨_, List.mem_singleton_self _, questions_match name⟩, nofun, hfree⟩
    have hremoves := hexact.2.2 hscrubbed
    refine ⟨?_, hexact.1 hremoves⟩
    simp only [removes, List.any_cons, List.any_nil, Bool.or_false, Bool.and_eq_true] at hremoves
    exact ascii_of_questions hremoves.1.1
  · exact exact_of_agree fun v hv name htext hfree =>
      ⟨fun pattern _ => globMatch_exact (.inr (h v hv name htext hfree).1), fun _ => (h v hv name htext hfree).2⟩
  · exact ascii_of_questions ((h _).2 (questions_match name))
  · rcases hpattern with hplain | ⟨z, hsize, hz⟩
    · exact hplain
    · exact plain_of_exact hz hsize h

/-- A plan that takes out every name of one character leaves one behind. -/
theorem one_character_name_kept : ¬∀ plan env, Exact plan env := by
  intro h
  have hname : ("é".toByteArray.data.toList ≠ []) ∧ 61 ∉ "é".toByteArray.data.toList.tail := by decide
  have hexact := exact_iff.1 (h ⟨["?"], []⟩ [⟨"é".toByteArray, "secret".toByteArray, hname.1, hname.2⟩]) _
    (List.mem_singleton_self _) "é" (text_eq_some.2 rfl)
  have hscrubbed : Scrubbed ⟨["?"], []⟩ "é" := by
    refine ⟨⟨"?", List.mem_singleton_self _, ?_⟩, nofun, by decide⟩
    have hq : questions "é" = "?" := by decide
    exact hq ▸ questions_match "é"
  exact absurd (hexact.2.2 hscrubbed) (by decide +kernel)

end Hyoui.Sys
