import Mathlib.Data.List.Nodup
import Hyoui.Lib.Transition
import Hyoui.Auth.Refresh
/-!
# Token families over the runs

The runs are those of one `auth.json`: families are minted, refreshed, and revoked on the command line, at
times that do not go back. A state notes the refresh generations each record has held; what the runs keep
ties them to the digests the record holds.
-/

namespace Hyoui.Auth

open Hyoui.Lib

/-! ## The runs of one `auth.json` -/

/-- What reaches the file: a sign-in that mints a family, a refresh, and the two removals of the command
line. The tokens are drawn for the request. -/
inductive Request
  | mint (endpoint : Endpoint) (sub id access refresh : String)
  | refresh (endpoint : Endpoint) (presented newRefresh newAccess : String)
  | passkeyRemove (sub : String)
  | sessionRemove (id : String)
  deriving DecidableEq, Repr

namespace Request

def drawn : Request → List String
  | mint _ _ id access newRefresh => [id, access, newRefresh]
  | refresh _ _ newRefresh newAccess => [newRefresh, newAccess]
  | _ => []

/-- The tokens and the presented values of a request. -/
def texts : Request → List String
  | refresh _ presented newRefresh newAccess => [presented, newRefresh, newAccess]
  | request => request.drawn

def apply (sha256Hex : List UInt8 → String) (file : AuthFile) (nowMs : Nat) :
    Request → AuthFile × Option (Except AuthFailure MintedSession)
  | mint endpoint sub id access newRefresh =>
    let (file, minted) := Auth.mint file endpoint sub id access newRefresh nowMs
    (file, some (.ok minted))
  | refresh endpoint presented newRefresh newAccess =>
    let (file, answer) := refreshBlocking sha256Hex file endpoint presented newRefresh newAccess nowMs
    (file, some answer)
  | passkeyRemove sub => ((file.tombstoneSub sub nowMs).1, none)
  | sessionRemove id => ((file.sessionRemove id nowMs).1, none)

end Request

/-- A refresh generation a family's record has held, and since when. -/
structure Held where
  value : String
  expiresAtMs : Nat
  sinceMs : Nat
  deriving DecidableEq, Repr

/-- Notes the refresh generation a record holds, where it is a new one. -/
def note (nowMs : Nat) (record : Option FamilyRecord) (held : List Held) : List Held :=
  match record with
  | none => held
  | some family =>
    if held.head?.any fun g => g.value = family.refresh.value ∧ g.expiresAtMs = family.refresh.expiresAtMs then
      held
    else
      ⟨family.refresh.value, family.refresh.expiresAtMs, nowMs⟩ :: held

/-- The file, the time of the last request, the tokens drawn so far, the refresh generations each record
has held, the newest first, and the last answer. -/
structure Gateway where
  file : AuthFile := {}
  nowMs : Nat := 0
  drawn : List String := []
  held : Endpoint → String → List Held := fun _ _ => []
  answer : Option (Except AuthFailure MintedSession) := none

/-- The runs in which time does not go back, no token is drawn twice, and every token and every presented
value is one of `values`. -/
def gateway (sha256Hex : List UInt8 → String) (values : List String) : System Gateway (Nat × Request) where
  init s := s.file = {} ∧ s.drawn = [] ∧ s.held = fun _ _ => []
  step s event :=
    let (nowMs, request) := event
    if s.nowMs ≤ nowMs ∧ (request.drawn ++ s.drawn).Nodup ∧ request.texts ⊆ values then
      let (file, answer) := request.apply sha256Hex s.file nowMs
      some {
        file, nowMs, answer
        drawn := request.drawn ++ s.drawn
        held := fun endpoint id => note nowMs (file.family endpoint id) (s.held endpoint id) }
    else
      none

namespace Gateway

/-- The family has been revoked. -/
def Revoked (s : Gateway) (endpoint : Endpoint) (id : String) : Prop :=
  ∃ family, s.file.family endpoint id = some family ∧ family.isTombstoned = true

/-- These tokens are the ones of the family. -/
def Yields (s : Gateway) (endpoint : Endpoint) (id : String) (minted : MintedSession) : Prop :=
  ∃ family, s.file.family endpoint id = some family ∧ minted = .fromFamily family

end Gateway

/-! ## What the runs keep -/

section Runs

variable {sha256Hex : List UInt8 → String} {values : List String} {s s' : Gateway} {event : Nat × Request}

/-- The record of a family and the refresh generations it has held. -/
structure Tells (sha256Hex : List UInt8 → String) (nowMs : Nat) (family : FamilyRecord) (g : Held) (past : List Held) :
    Prop where
  value : g.value = family.refresh.value
  expires : g.expiresAtMs = family.refresh.expiresAtMs
  ttl : g.expiresAtMs = g.sinceMs + refreshTtlMs
  since : g.sinceMs ≤ nowMs
  older : ∀ h ∈ past, h.expiresAtMs ≤ g.expiresAtMs
  /-- A retired digest is that of a past value. -/
  sound : ∀ r ∈ family.retired, ∃ h ∈ past, r.digest = sha256Hex (bytesOf h.value) ∧ r.expiresAtMs = h.expiresAtMs
  /-- A past value is kept as long as it has not expired. -/
  complete : ∀ h ∈ past, g.sinceMs < h.expiresAtMs →
    ∃ r ∈ family.retired, r.digest = sha256Hex (bytesOf h.value) ∧ r.expiresAtMs = h.expiresAtMs
  /-- The last retired value is the one the current one replaced. -/
  last : ∀ r, family.retired.getLast? = some r →
    ∃ previous older, past = previous :: older ∧ r.digest = sha256Hex (bytesOf previous.value) ∧ r.retiredAtMs = g.sinceMs

/-- What all runs keep of the file and of the values its records have held. -/
structure Kept (sha256Hex : List UInt8 → String) (values : List String) (s : Gateway) : Prop where
  tells : ∀ {endpoint id family}, s.file.family endpoint id = some family →
    ∃ g past, s.held endpoint id = g :: past ∧ Tells sha256Hex s.nowMs family g past
  absent : ∀ {endpoint id}, s.file.family endpoint id = none → s.held endpoint id = []
  key : ∀ {endpoint id family}, s.file.family endpoint id = some family → family.endpoint = endpoint ∧ id ∈ s.drawn
  drawn : ∀ {endpoint id g}, g ∈ s.held endpoint id → g.value ∈ s.drawn
  unique : ∀ {endpoint id g endpoint' id' g'}, g ∈ s.held endpoint id → g' ∈ s.held endpoint' id' →
    g.value = g'.value → endpoint = endpoint' ∧ id = id' ∧ g = g'
  nodup : ∀ endpoint id, (s.held endpoint id).Nodup
  values : s.drawn ⊆ values

/-- The refresh generation of a record is noted once. -/
theorem Tells.note {nowMs : Nat} {family : FamilyRecord} {g : Held} {past : List Held}
    (h : Tells sha256Hex nowMs family g past) (now : Nat) : Auth.note now (some family) (g :: past) = g :: past := by
  simp [Auth.note, h.value, h.expires]

theorem Tells.later {nowMs later : Nat} {family : FamilyRecord} {g : Held} {past : List Held}
    (h : Tells sha256Hex nowMs family g past) (hle : nowMs ≤ later) : Tells sha256Hex later family g past :=
  { h with since := Nat.le_trans h.since hle }

theorem Tells.tombstone {nowMs : Nat} {family : FamilyRecord} {g : Held} {past : List Held}
    (h : Tells sha256Hex nowMs family g past) (now : Nat) : Tells sha256Hex nowMs (family.tombstone now) g past :=
  { h with }

/-- A rotation retires the current value, and drops the retired values that have expired. -/
theorem Tells.rotate {nowMs now : Nat} {family : FamilyRecord} {g : Held} {past : List Held}
    (h : Tells sha256Hex nowMs family g past) (hle : nowMs ≤ now) (newRefresh newAccess : String) :
    Tells sha256Hex now (family.rotateRefresh sha256Hex newRefresh newAccess now)
      ⟨newRefresh, now + refreshTtlMs, now⟩ (g :: past) := by
  have hnow : g.expiresAtMs ≤ now + refreshTtlMs := by
    have := h.ttl
    have := h.since
    omega
  refine ⟨rfl, rfl, rfl, Nat.le_refl _, ?_, ?_, ?_, ?_⟩
  · intro g' hg'
    rcases List.mem_cons.1 hg' with rfl | hg'
    · exact hnow
    · exact Nat.le_trans (h.older _ hg') hnow
  · intro r hr
    simp only [FamilyRecord.rotateRefresh, List.mem_filter, List.mem_append, List.mem_singleton] at hr
    rcases hr.1 with hr | rfl
    · obtain ⟨g', hg', hdigest⟩ := h.sound r hr
      exact ⟨g', List.mem_cons_of_mem _ hg', hdigest⟩
    · exact ⟨g, List.mem_cons_self, by rw [h.value], h.expires.symm⟩
  · intro g' hg' hlive
    simp only [FamilyRecord.rotateRefresh, List.mem_filter, List.mem_append, List.mem_singleton, decide_eq_true_eq]
    rcases List.mem_cons.1 hg' with rfl | hg'
    · exact ⟨_, ⟨Or.inr rfl, h.expires ▸ hlive⟩, by rw [h.value], h.expires.symm⟩
    · have hsince := h.since
      obtain ⟨r, hr, hdigest, hexpires⟩ := h.complete g' hg' (by simp only at hlive; omega)
      exact ⟨r, ⟨Or.inl hr, hexpires ▸ hlive⟩, hdigest, hexpires⟩
  · intro r hr
    refine ⟨g, past, rfl, ?_⟩
    simp only [FamilyRecord.rotateRefresh, List.filter_append] at hr
    by_cases hlive : now < family.refresh.expiresAtMs
    · simp only [List.filter_cons, hlive, decide_true, if_true, List.filter_nil, List.getLast?_concat,
        Option.some.injEq] at hr
      rw [← hr, h.value]
      exact ⟨rfl, rfl⟩
    · -- The current value has expired, and with it every older one: nothing is retired.
      have hnone : family.retired.filter (fun r => now < r.expiresAtMs) = [] := by
        refine List.filter_eq_nil_iff.2 fun r hr => ?_
        obtain ⟨g', hg', -, hexpires⟩ := h.sound r hr
        have := h.older g' hg'
        have := h.expires
        simp only [decide_eq_true_eq]
        omega
      simp [hnone, hlive] at hr

/-- What a step does to the record of a family. -/
inductive Moved (sha256Hex : List UInt8 → String) (event : Nat × Request) (endpoint : Endpoint) (id : String) :
    Option FamilyRecord → Option FamilyRecord → Prop
  | same {record} : Moved sha256Hex event endpoint id record record
  | minted {sub access newRefresh} :
      event.2 = .mint endpoint sub id access newRefresh →
      Moved sha256Hex event endpoint id none (some (({} : AuthFile).mintFamily endpoint sub id access newRefresh event.1).2)
  | rotated {family presented newRefresh newAccess} :
      event.2 = .refresh endpoint presented newRefresh newAccess → family.isTombstoned = false →
      family.refresh.value = presented →
      Moved sha256Hex event endpoint id (some family)
        (some (family.rotateRefresh sha256Hex newRefresh newAccess event.1))
  | tombstoned {family} :
      family.isTombstoned = false → Moved sha256Hex event endpoint id (some family) (some (family.tombstone event.1))

/-- What a step of a run takes. -/
theorem gateway_step (hstep : (gateway sha256Hex values).step s event = some s') :
    s.nowMs ≤ event.1 ∧ (event.2.drawn ++ s.drawn).Nodup ∧ event.2.texts ⊆ values ∧
      s' = {
        file := (event.2.apply sha256Hex s.file event.1).1
        nowMs := event.1
        drawn := event.2.drawn ++ s.drawn
        held := fun endpoint id =>
          note event.1 ((event.2.apply sha256Hex s.file event.1).1.family endpoint id) (s.held endpoint id)
        answer := (event.2.apply sha256Hex s.file event.1).2 } := by
  simp only [gateway] at hstep
  split at hstep
  · rename_i h
    exact ⟨h.1, h.2.1, h.2.2, (Option.some.inj hstep).symm⟩
  · cases hstep

theorem Moved.map {record : Option FamilyRecord} {endpoint : Endpoint} {id : String} (f : FamilyRecord → FamilyRecord)
    (hf : ∀ family, f family = family ∨ family.isTombstoned = false ∧ f family = family.tombstone event.1) :
    Moved sha256Hex event endpoint id record (record.map f) := by
  cases record with
  | none => exact .same
  | some family =>
    rw [Option.map_some]
    rcases hf family with he | ⟨hlive, he⟩
    · rw [he]
      exact .same
    · rw [he]
      exact .tombstoned hlive

/-- Each record is minted, rotated, revoked or left alone by a request, as long as ids are drawn. -/
theorem Moved.of_apply {file : AuthFile} {drawn : List String}
    (hkey : ∀ {endpoint id family}, file.family endpoint id = some family → id ∈ drawn)
    (hdrawn : (event.2.drawn ++ drawn).Nodup) (endpoint : Endpoint) (id : String) :
    Moved sha256Hex event endpoint id (file.family endpoint id)
      ((event.2.apply sha256Hex file event.1).1.family endpoint id) := by
  obtain ⟨nowMs, request⟩ := event
  cases request with
  | mint endpoint' sub id' access newRefresh =>
    simp only [Request.apply, mint, AuthFile.mintFamily, AuthFile.family_putFamily]
    split
    · rename_i he
      obtain ⟨rfl, rfl⟩ := he
      -- The id is drawn for the family, so no record has it.
      have hnone : file.family endpoint' id' = none := by
        refine Option.eq_none_iff_forall_ne_some.2 fun family hf => ?_
        have := hkey hf
        simp only [Request.drawn, List.cons_append, List.nodup_cons, List.mem_cons] at hdrawn
        exact hdrawn.1 (Or.inr (Or.inr this))
      rw [hnone]
      exact .minted rfl
    · exact .same
  | refresh endpoint' presented newRefresh newAccess =>
    simp only [Request.apply]
    have hr := refreshBlocking_refreshed sha256Hex file endpoint' presented newRefresh newAccess nowMs
    generalize (refreshBlocking sha256Hex file endpoint' presented newRefresh newAccess nowMs).1 = file' at hr ⊢
    generalize (refreshBlocking sha256Hex file endpoint' presented newRefresh newAccess nowMs).2 = answer at hr
    cases hr with
    | unknown | tombstoned | replay | lapsed => exact .same
    | @current id' family hf htomb hcurrent =>
      rw [AuthFile.family_putFamily]
      split
      · rename_i he
        obtain ⟨rfl, rfl⟩ := he
        rw [hf]
        exact .rotated rfl htomb (FamilyRecord.classifyRefresh_current.1 hcurrent)
      · exact .same
    | @reused id' family hf htomb _ =>
      rw [AuthFile.family_putFamily]
      split
      · rename_i he
        obtain ⟨rfl, rfl⟩ := he
        rw [hf]
        exact .tombstoned htomb
      · exact .same
  | passkeyRemove sub =>
    simp only [Request.apply, AuthFile.family_tombstoneSub]
    refine .map _ fun family => ?_
    split
    · rename_i hsub
      exact Or.inr ⟨by simpa using hsub.2, rfl⟩
    · exact Or.inl rfl
  | sessionRemove id' =>
    simp only [Request.apply, AuthFile.family_sessionRemove]
    split
    · refine .map _ fun family => ?_
      split
      · exact Or.inl rfl
      · rename_i hlive
        exact Or.inr ⟨by simpa using hlive, rfl⟩
    · exact .same

theorem Kept.moved (h : Kept sha256Hex values s) (hdrawn : (event.2.drawn ++ s.drawn).Nodup) (endpoint : Endpoint)
    (id : String) :
    Moved sha256Hex event endpoint id (s.file.family endpoint id)
      ((event.2.apply sha256Hex s.file event.1).1.family endpoint id) :=
  Moved.of_apply (fun hf => (h.key hf).2) hdrawn endpoint id

/-- The families a request may give a new refresh value: the one it mints, and the one that holds what it presents. -/
def Grows (s : Gateway) (event : Nat × Request) (endpoint : Endpoint) (id : String) : Prop :=
  (∃ sub access newRefresh, event.2 = .mint endpoint sub id access newRefresh) ∨
  ∃ presented newRefresh newAccess g, event.2 = .refresh endpoint presented newRefresh newAccess ∧
    g ∈ s.held endpoint id ∧ g.value = presented

theorem Kept.grows_unique (h : Kept sha256Hex values s) {endpoint endpoint' : Endpoint} {id id' : String}
    (hg : Grows s event endpoint id) (hg' : Grows s event endpoint' id') : endpoint = endpoint' ∧ id = id' := by
  rcases hg with ⟨_, _, _, he⟩ | ⟨_, _, _, g, he, hg, hv⟩ <;> rcases hg' with ⟨_, _, _, he'⟩ | ⟨_, _, _, g', he', hg', hv'⟩ <;>
    rw [he] at he' <;> cases he'
  · exact ⟨rfl, rfl⟩
  · exact ⟨rfl, (h.unique hg hg' (hv.trans hv'.symm)).2.1⟩

/-- A record keeps the refresh generation it has, or a drawn value is put before it. -/
theorem Kept.held_step (h : Kept sha256Hex values s) (hstep : (gateway sha256Hex values).step s event = some s')
    (endpoint : Endpoint) (id : String) :
    s'.held endpoint id = s.held endpoint id ∨
      ∃ value ∈ event.2.drawn, Grows s event endpoint id ∧
        s'.held endpoint id = ⟨value, event.1 + refreshTtlMs, event.1⟩ :: s.held endpoint id := by
  obtain ⟨-, hdrawn, -, rfl⟩ := gateway_step hstep
  simp only
  have hmoved := h.moved hdrawn endpoint id
  have htold : ∀ {family}, s.file.family endpoint id = some family → ∀ {family'},
      (event.2.apply sha256Hex s.file event.1).1.family endpoint id = some family' →
      family'.refresh = family.refresh →
      note event.1 (some family') (s.held endpoint id) = s.held endpoint id := by
    intro family hf family' _ hsame
    obtain ⟨g, past, hheld, htells⟩ := h.tells hf
    rw [hheld]
    simp [note, htells.value, htells.expires, hsame]
  generalize hf' : (event.2.apply sha256Hex s.file event.1).1.family endpoint id = record' at hmoved htold ⊢
  generalize hf : s.file.family endpoint id = record at hmoved htold
  cases hmoved with
  | same =>
    refine Or.inl ?_
    cases record' with
    | none => rfl
    | some family => exact htold rfl rfl rfl
  | @minted sub access newRefresh he =>
    refine Or.inr ⟨newRefresh, by simp [he, Request.drawn], Or.inl ⟨_, _, _, he⟩, ?_⟩
    rw [h.absent hf]
    rfl
  | @rotated family presented newRefresh newAccess he htomb hvalue =>
    obtain ⟨g, past, hheld, htells⟩ := h.tells hf
    have hfresh : newRefresh ≠ g.value := by
      rintro rfl
      simp only [he, Request.drawn, List.cons_append, List.nodup_cons, List.mem_cons] at hdrawn
      exact hdrawn.1 (Or.inr (h.drawn (hheld ▸ List.mem_cons_self)))
    refine Or.inr ⟨newRefresh, by simp [he, Request.drawn],
      Or.inr ⟨presented, newRefresh, newAccess, g, he, hheld ▸ List.mem_cons_self, htells.value.trans hvalue⟩, ?_⟩
    rw [hheld]
    simp [note, FamilyRecord.rotateRefresh, Ne.symm hfresh]
  | tombstoned => exact Or.inl (htold rfl rfl rfl)

/-- After a step, the record of a family and the generations it has held still tell the same. -/
theorem Kept.tells_step (h : Kept sha256Hex values s) (hstep : (gateway sha256Hex values).step s event = some s')
    {endpoint : Endpoint} {id : String} {family' : FamilyRecord} (hf' : s'.file.family endpoint id = some family') :
    ∃ g past, s'.held endpoint id = g :: past ∧ Tells sha256Hex s'.nowMs family' g past := by
  obtain ⟨hle, hdrawn, -, rfl⟩ := gateway_step hstep
  simp only at hf' ⊢
  have hmoved := h.moved hdrawn endpoint id
  rw [hf'] at hmoved ⊢
  generalize hf : s.file.family endpoint id = record at hmoved
  cases hmoved with
  | same =>
    obtain ⟨g, past, hheld, htells⟩ := h.tells hf
    exact ⟨g, past, hheld ▸ htells.note event.1, htells.later hle⟩
  | @minted sub access newRefresh he =>
    refine ⟨⟨newRefresh, event.1 + refreshTtlMs, event.1⟩, [], by rw [h.absent hf]; rfl, ?_⟩
    exact ⟨rfl, rfl, rfl, Nat.le_refl _, by simp, by simp [AuthFile.mintFamily], by simp, by simp [AuthFile.mintFamily]⟩
  | @rotated family presented newRefresh newAccess he htomb hvalue =>
    obtain ⟨g, past, hheld, htells⟩ := h.tells hf
    have hfresh : g.value ≠ newRefresh := by
      rintro rfl
      simp only [he, Request.drawn, List.cons_append, List.nodup_cons, List.mem_cons] at hdrawn
      exact hdrawn.1 (Or.inr (h.drawn (hheld ▸ List.mem_cons_self)))
    refine ⟨_, g :: past, ?_, htells.rotate hle newRefresh newAccess⟩
    rw [hheld]
    simp [note, FamilyRecord.rotateRefresh, hfresh]
  | @tombstoned family hlive =>
    obtain ⟨g, past, hheld, htells⟩ := h.tells hf
    exact ⟨g, past, hheld ▸ (htells.tombstone event.1).note event.1, (htells.tombstone event.1).later hle⟩

theorem Kept.step (h : Kept sha256Hex values s) (hstep : (gateway sha256Hex values).step s event = some s') :
    Kept sha256Hex values s' := by
  have hheld := fun endpoint id => h.held_step hstep endpoint id
  obtain ⟨hle, hdrawn, htexts, hs'⟩ := gateway_step hstep
  have hsub : event.2.drawn ⊆ values := by
    refine List.Subset.trans ?_ htexts
    cases event.2 <;> simp [Request.drawn, Request.texts]
  have hnew : ∀ {value : String}, value ∈ event.2.drawn → value ∉ s.drawn :=
    fun hv => (List.nodup_append.1 hdrawn).2.2 _ hv _ |> fun hne hmem => hne hmem rfl
  have hne : ∀ {endpoint id g value}, g ∈ s.held endpoint id → value ∈ event.2.drawn → g.value ≠ value :=
    fun hg hv he => hnew hv (he ▸ h.drawn hg)
  have hsdrawn : s'.drawn = event.2.drawn ++ s.drawn := by rw [hs']
  refine ⟨fun hf' => h.tells_step hstep hf', ?_, ?_, ?_, ?_, ?_, ?_⟩
  · intro endpoint id hf'
    have hmoved := h.moved hdrawn endpoint id
    subst hs'
    simp only at hf' ⊢
    rw [hf'] at hmoved ⊢
    generalize hf : s.file.family endpoint id = record at hmoved
    cases hmoved
    exact h.absent hf
  · intro endpoint id family' hf'
    have hmoved := h.moved hdrawn endpoint id
    rw [hsdrawn]
    subst hs'
    simp only at hf'
    rw [hf'] at hmoved
    generalize hf : s.file.family endpoint id = record at hmoved
    cases hmoved with
    | minted he => exact ⟨rfl, by simp [he, Request.drawn]⟩
    | same | rotated | tombstoned =>
      have := h.key hf
      exact ⟨this.1, List.mem_append_right _ this.2⟩
  · intro endpoint id g hg
    rw [hsdrawn]
    rcases hheld endpoint id with he | ⟨value, hv, -, he⟩ <;> rw [he] at hg
    · exact List.mem_append_right _ (h.drawn hg)
    · rcases List.mem_cons.1 hg with rfl | hg
      · exact List.mem_append_left _ hv
      · exact List.mem_append_right _ (h.drawn hg)
  · intro endpoint id g endpoint' id' g' hg hg' hvalue
    -- A value drawn in this step is none of those drawn before.
    rcases hheld endpoint id with he | ⟨value, hv, hgrows, he⟩ <;> rw [he] at hg <;>
      rcases hheld endpoint' id' with he' | ⟨value', hv', hgrows', he'⟩ <;> rw [he'] at hg'
    · exact h.unique hg hg' hvalue
    · rcases List.mem_cons.1 hg' with rfl | hg'
      · exact absurd hvalue (hne hg hv')
      · exact h.unique hg hg' hvalue
    · rcases List.mem_cons.1 hg with rfl | hg
      · exact absurd hvalue.symm (hne hg' hv)
      · exact h.unique hg hg' hvalue
    · obtain ⟨rfl, rfl⟩ := h.grows_unique hgrows hgrows'
      have hsame : value = value' := by
        rw [he] at he'
        exact congrArg Held.value (List.cons.inj he').1
      subst hsame
      rcases List.mem_cons.1 hg with rfl | hg <;> rcases List.mem_cons.1 hg' with rfl | hg'
      · exact ⟨rfl, rfl, rfl⟩
      · exact absurd hvalue.symm (hne hg' hv)
      · exact absurd hvalue (hne hg hv)
      · exact h.unique hg hg' hvalue
  · intro endpoint id
    rcases hheld endpoint id with he | ⟨value, hv, -, he⟩ <;> rw [he]
    · exact h.nodup endpoint id
    · exact List.nodup_cons.2 ⟨fun hmem => hne hmem hv rfl, h.nodup endpoint id⟩
  · rw [hsdrawn]
    exact List.append_subset.2 ⟨hsub, h.values⟩

theorem Kept.init (h : (gateway sha256Hex values).init s) : Kept sha256Hex values s := by
  obtain ⟨hfile, hdrawn, hheld⟩ := h
  have hnone : ∀ endpoint id, s.file.family endpoint id = none := by
    intro endpoint id
    simp [hfile, AuthFile.family]
  constructor <;> simp [hnone, hdrawn, hheld]

theorem kept (h : (gateway sha256Hex values).Reachable s) : Kept sha256Hex values s :=
  h.inv _ (fun _ => Kept.init) fun _ _ _ _ hk _ hstep => hk.step hstep

theorem Kept.current_held (h : Kept sha256Hex values s) {endpoint : Endpoint} {id : String} {family : FamilyRecord}
    (hf : s.file.family endpoint id = some family) :
    ∃ g past, s.held endpoint id = g :: past ∧ g.value = family.refresh.value ∧
      g.expiresAtMs = family.refresh.expiresAtMs := by
  obtain ⟨g, past, hheld, htells⟩ := h.tells hf
  exact ⟨g, past, hheld, htells.value, htells.expires⟩

theorem Kept.refresh_drawn (h : Kept sha256Hex values s) {endpoint : Endpoint} {id : String} {family : FamilyRecord}
    (hf : s.file.family endpoint id = some family) : family.refresh.value ∈ s.drawn := by
  obtain ⟨g, past, hheld, hvalue, -⟩ := h.current_held hf
  exact hvalue ▸ h.drawn (hheld ▸ List.mem_cons_self)

/-- Two records with one refresh value are one record. -/
theorem Kept.same_family (h : Kept sha256Hex values s) {endpoint endpoint' : Endpoint} {id id' : String}
    {family family' : FamilyRecord} (hf : s.file.family endpoint id = some family)
    (hf' : s.file.family endpoint' id' = some family') (hvalue : family.refresh.value = family'.refresh.value) :
    family = family' := by
  obtain ⟨g, past, hheld, hg, -⟩ := h.current_held hf
  obtain ⟨g', past', hheld', hg', -⟩ := h.current_held hf'
  obtain ⟨rfl, rfl, -⟩ := h.unique (hheld ▸ List.mem_cons_self) (hheld' ▸ List.mem_cons_self)
    (hg.trans (hvalue.trans hg'.symm))
  exact Option.some.inj (hf.symm.trans hf')

/-- A refresh of a run, told by what it does. -/
theorem gateway_refresh {endpoint : Endpoint} {presented newRefresh newAccess : String}
    (hstep : (gateway sha256Hex values).step s event = some s')
    (he : event.2 = .refresh endpoint presented newRefresh newAccess) :
    presented ∈ values ∧ newRefresh ∉ s.drawn ∧ ∃ answer, s'.answer = some answer ∧
      Refreshed sha256Hex s.file endpoint presented newRefresh newAccess event.1 s'.file answer := by
  obtain ⟨-, hdrawn, htexts, rfl⟩ := gateway_step hstep
  rw [he] at hdrawn htexts ⊢
  refine ⟨htexts (by simp [Request.texts]), fun hmem => ?_, _, rfl, refreshBlocking_refreshed sha256Hex ..⟩
  simp only [Request.drawn, List.cons_append, List.nodup_cons, List.mem_cons] at hdrawn
  exact hdrawn.1 (Or.inr hmem)

/-- A revoked family is left alone, and the tokens a step answers are not its own. -/
theorem Kept.revoked_step (h : Kept sha256Hex values s) (hstep : (gateway sha256Hex values).step s event = some s')
    {endpoint : Endpoint} {id : String} (hrevoked : s.Revoked endpoint id) :
    s'.file.family endpoint id = s.file.family endpoint id ∧
      ∀ minted, s'.answer = some (.ok minted) → ¬ s'.Yields endpoint id minted := by
  obtain ⟨family, hf, htomb⟩ := hrevoked
  have hsame : s'.file.family endpoint id = some family := by
    obtain ⟨-, hdrawn, -, rfl⟩ := gateway_step hstep
    have hmoved := h.moved hdrawn endpoint id
    simp only
    rw [hf] at hmoved
    generalize (event.2.apply sha256Hex s.file event.1).1.family endpoint id = record' at hmoved ⊢
    cases hmoved with
    | same => rfl
    | rotated _ hlive => exact absurd htomb (by simp [hlive])
    | tombstoned hlive => exact absurd htomb (by simp [hlive])
  refine ⟨hsame.trans hf.symm, ?_⟩
  rintro minted hanswer ⟨family', hf', rfl⟩
  obtain rfl : family = family' := Option.some.inj (hsame.symm.trans hf')
  cases hrequest : event.2 with
  | mint endpoint' sub id' access newRefresh =>
    obtain ⟨-, hdrawn, -, rfl⟩ := gateway_step hstep
    simp only [hrequest, Request.apply, mint, Option.some.injEq, Except.ok.injEq] at hanswer
    have hvalue : newRefresh = family.refresh.value := congrArg MintedSession.refresh hanswer
    simp only [hrequest, Request.drawn, List.cons_append, List.nodup_cons, List.mem_cons, List.nil_append] at hdrawn
    exact hdrawn.2.2.1 (hvalue ▸ h.refresh_drawn hf)
  | refresh endpoint' presented newRefresh newAccess =>
    obtain ⟨-, hfresh, answer, hanswer', hr⟩ := gateway_refresh hstep hrequest
    rw [hanswer, Option.some.injEq] at hanswer'
    subst hanswer'
    generalize he : (Except.ok (MintedSession.fromFamily family) : Except AuthFailure MintedSession) = answer at hr
    generalize s'.file = file' at hr
    cases hr with
    | current hf₀ htomb₀ _ =>
      have hvalue : family.refresh.value = newRefresh := congrArg MintedSession.refresh (Except.ok.inj he)
      exact hfresh (hvalue ▸ h.refresh_drawn hf)
    | replay hf₀ htomb₀ _ =>
      have hvalue := congrArg MintedSession.refresh (Except.ok.inj he)
      obtain rfl := h.same_family hf hf₀ hvalue
      exact absurd htomb (by simp [htomb₀])
    | unknown | tombstoned | lapsed | reused => cases he
  | passkeyRemove | sessionRemove =>
    obtain ⟨-, -, -, rfl⟩ := gateway_step hstep
    simp [hrequest, Request.apply] at hanswer

end Runs

end Hyoui.Auth
