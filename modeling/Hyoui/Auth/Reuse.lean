import Mathlib.Data.Set.Function
import Hyoui.Auth.Families
/-!
# Refresh values that come back

Which presented values return tokens, and which revoke their family. The digests of the values that occur
in a run are taken to be distinct.
-/

namespace Hyoui.Auth

open Hyoui.Lib

namespace Gateway

/-- The value is the family's current one, before its expiry. -/
def Current (s : Gateway) (endpoint : Endpoint) (id presented : String) (nowMs : Nat) : Prop :=
  ∃ g, (s.held endpoint id).head? = some g ∧ g.value = presented ∧ nowMs < g.expiresAtMs

/-- The value is the one the current one replaced, within the replay grace. -/
def Previous (s : Gateway) (endpoint : Endpoint) (id presented : String) (nowMs : Nat) : Prop :=
  ∃ g previous older, s.held endpoint id = g :: previous :: older ∧ previous.value = presented ∧
    nowMs - g.sinceMs ≤ refreshReplayGraceMs

end Gateway

/-- What is promised of a step of a run. -/
structure RefreshLaws (s : Gateway) (event : Nat × Request) (s' : Gateway) : Prop where
  /-- Only a current value before its expiry, or the value it replaced within the grace, returns tokens. -/
  tokens : ∀ {endpoint presented newRefresh newAccess minted},
    event.2 = .refresh endpoint presented newRefresh newAccess → s'.answer = some (.ok minted) →
    ∃ id, s'.Yields endpoint id minted ∧
      (s.Current endpoint id presented event.1 ∨ s.Previous endpoint id presented event.1)
  /-- Any other past value of a family, before that value's expiry, revokes the family. -/
  reused : ∀ {endpoint presented newRefresh newAccess id g},
    event.2 = .refresh endpoint presented newRefresh newAccess → g ∈ (s.held endpoint id).tail →
    g.value = presented → event.1 < g.expiresAtMs → ¬ s.Previous endpoint id presented event.1 →
    s'.Revoked endpoint id
  /-- A revoked family does not change and does not yield tokens. -/
  revoked : ∀ {endpoint id}, s.Revoked endpoint id →
    s'.file.family endpoint id = s.file.family endpoint id ∧
      ∀ minted, s'.answer = some (.ok minted) → ¬ s'.Yields endpoint id minted
  /-- A value no family of the endpoint has held, or one that has expired, changes no family. -/
  unchanged : ∀ {endpoint presented newRefresh newAccess},
    event.2 = .refresh endpoint presented newRefresh newAccess →
    (∀ id, ∀ g ∈ s.held endpoint id, g.value = presented → g.expiresAtMs ≤ event.1) →
    ∀ endpoint id, s'.file.family endpoint id = s.file.family endpoint id

/-- A refresh does not present an expired value that its family, not revoked, still holds: as its current
one, or among the retired ones where that makes it a reuse. -/
structure Timely (sha256Hex : List UInt8 → String) (s : Gateway) (event : Nat × Request) : Prop where
  current : ∀ {endpoint presented newRefresh newAccess id family},
    event.2 = .refresh endpoint presented newRefresh newAccess → s.file.family endpoint id = some family →
    family.isTombstoned = false → family.refresh.value = presented → event.1 < family.refresh.expiresAtMs
  retired : ∀ {endpoint presented newRefresh newAccess id family r},
    event.2 = .refresh endpoint presented newRefresh newAccess → s.file.family endpoint id = some family →
    family.isTombstoned = false → family.classifyRefresh sha256Hex presented event.1 = .reused →
    r ∈ family.retired → r.digest = sha256Hex (bytesOf presented) → event.1 < r.expiresAtMs

section Runs

variable {sha256Hex : List UInt8 → String} {values : List String} {s s' : Gateway} {event : Nat × Request}

/-! ## What a family knows of the values it has held -/

theorem Kept.held_value (h : Kept sha256Hex values s) {endpoint : Endpoint} {id : String} {g : Held}
    (hg : g ∈ s.held endpoint id) : g.value ∈ values := h.values (h.drawn hg)

/-- The digests of the values of a run are distinct. -/
def DigestsApart (sha256Hex : List UInt8 → String) (values : List String) : Prop :=
  Set.InjOn (fun value => sha256Hex (bytesOf value)) {value | value ∈ values}

theorem Kept.value_of_digest (h : Kept sha256Hex values s) (hinj : DigestsApart sha256Hex values) {endpoint : Endpoint}
    {id presented : String} {g : Held} (hg : g ∈ s.held endpoint id) (hpresented : presented ∈ values)
    (hdigest : sha256Hex (bytesOf presented) = sha256Hex (bytesOf g.value)) : g.value = presented :=
  (hinj hpresented (h.held_value hg) hdigest).symm

/-- A value that a family knows is one it has held. -/
theorem Kept.held_of_known (h : Kept sha256Hex values s) (hinj : DigestsApart sha256Hex values) {endpoint : Endpoint}
    {id presented : String} {family : FamilyRecord} {nowMs : Nat} (hf : s.file.family endpoint id = some family)
    (hpresented : presented ∈ values) (hknown : family.classifyRefresh sha256Hex presented nowMs ≠ .unknown) :
    ∃ g ∈ s.held endpoint id, g.value = presented := by
  obtain ⟨g, past, hheld, htells⟩ := h.tells hf
  have hretired : ∀ r ∈ family.retired, r.digest = sha256Hex (bytesOf presented) →
      ∃ g ∈ s.held endpoint id, g.value = presented := by
    intro r hr hdigest
    obtain ⟨g', hg', hr', -⟩ := htells.sound r hr
    have hmem : g' ∈ s.held endpoint id := hheld ▸ List.mem_cons_of_mem _ hg'
    exact ⟨g', hmem, h.value_of_digest hinj hmem hpresented (hdigest ▸ hr')⟩
  cases hcase : family.classifyRefresh sha256Hex presented nowMs with
  | current =>
    exact ⟨g, hheld ▸ List.mem_cons_self, htells.value.trans (FamilyRecord.classifyRefresh_current.1 hcase)⟩
  | replay =>
    obtain ⟨r, hr, hdigest, -⟩ := FamilyRecord.classifyRefresh_replay hcase
    exact hretired r (List.mem_of_getLast? hr) hdigest
  | reused =>
    obtain ⟨r, hr, hdigest⟩ := FamilyRecord.classifyRefresh_reused hcase
    exact hretired r hr hdigest
  | unknown => exact absurd hcase hknown

/-- A value answered as a repeated request is the one that was just replaced. -/
theorem Kept.previous_of_replay (h : Kept sha256Hex values s) (hinj : DigestsApart sha256Hex values)
    {endpoint : Endpoint} {id presented : String} {family : FamilyRecord} {nowMs : Nat}
    (hf : s.file.family endpoint id = some family) (hpresented : presented ∈ values)
    (hreplay : family.classifyRefresh sha256Hex presented nowMs = .replay) : s.Previous endpoint id presented nowMs := by
  obtain ⟨g, past, hheld, htells⟩ := h.tells hf
  obtain ⟨r, hr, hdigest, hgrace⟩ := FamilyRecord.classifyRefresh_replay hreplay
  obtain ⟨previous, older, rfl, hprevious, hsince⟩ := htells.last r hr
  have hmem : previous ∈ s.held endpoint id := hheld ▸ List.mem_cons_of_mem _ List.mem_cons_self
  exact ⟨g, previous, older, hheld, h.value_of_digest hinj hmem hpresented (hdigest ▸ hprevious), hsince ▸ hgrace⟩

/-- A past value that has not expired is not unknown to its family. -/
theorem Kept.known_of_past (h : Kept sha256Hex values s) {endpoint : Endpoint} {id : String} {family : FamilyRecord}
    {g : Held} {nowMs : Nat} (hf : s.file.family endpoint id = some family) (hle : s.nowMs ≤ nowMs)
    (hg : g ∈ (s.held endpoint id).tail) (hlive : nowMs < g.expiresAtMs) :
    family.classifyRefresh sha256Hex g.value nowMs ≠ .unknown := by
  intro hunknown
  obtain ⟨current, past, hheld, htells⟩ := h.tells hf
  rw [hheld] at hg
  have hsince := htells.since
  obtain ⟨r, hr, hdigest, -⟩ := htells.complete g hg (by omega)
  exact (FamilyRecord.classifyRefresh_unknown hunknown).2 r hr hdigest

/-- A past value is not the current one. -/
theorem Kept.past_not_current (h : Kept sha256Hex values s) {endpoint : Endpoint} {id : String} {family : FamilyRecord}
    {g : Held} {nowMs : Nat} (hf : s.file.family endpoint id = some family) (hg : g ∈ (s.held endpoint id).tail) :
    family.classifyRefresh sha256Hex g.value nowMs ≠ .current := by
  intro hcurrent
  obtain ⟨current, past, hheld, htells⟩ := h.tells hf
  have hvalue := FamilyRecord.classifyRefresh_current.1 hcurrent
  have hnodup := h.nodup endpoint id
  rw [hheld] at hg hnodup
  have hsame := (h.unique (hheld ▸ List.mem_cons_of_mem _ hg) (hheld ▸ List.mem_cons_self)
    (hvalue.symm.trans htells.value.symm)).2.2
  exact (List.nodup_cons.1 hnodup).1 (hsame ▸ hg)
/-! ## The laws of the refreshes -/

/-- The laws of a refresh, when what it presents is timely. -/
theorem Kept.laws_of_timely (h : Kept sha256Hex values s) (hinj : DigestsApart sha256Hex values)
    (hstep : (gateway sha256Hex values).step s event = some s') (htimely : Timely sha256Hex s event) :
    RefreshLaws s event s' := by
  have hle : s.nowMs ≤ event.1 := (gateway_step hstep).1
  refine ⟨?_, ?_, h.revoked_step hstep, ?_⟩
  · intro endpoint presented newRefresh newAccess minted he hanswer
    obtain ⟨hpresented, -, answer, hanswer', hr⟩ := gateway_refresh hstep he
    rw [hanswer, Option.some.injEq] at hanswer'
    generalize hfile : s'.file = file' at hr
    cases hr with
    | @current id family hf htomb hcurrent =>
      obtain rfl := Except.ok.inj hanswer'
      have hvalue := FamilyRecord.classifyRefresh_current.1 hcurrent
      obtain ⟨g, past, hheld, hg, hexpires⟩ := h.current_held hf
      refine ⟨id, ⟨_, by rw [hfile, AuthFile.family_putFamily, if_pos ⟨rfl, rfl⟩], rfl⟩, Or.inl ⟨g, ?_, hg.trans hvalue, ?_⟩⟩
      · rw [hheld, List.head?_cons]
      · exact hexpires ▸ htimely.current he hf htomb hvalue
    | @replay id family hf htomb hreplay =>
      obtain rfl := Except.ok.inj hanswer'
      exact ⟨id, ⟨family, by rw [hfile, hf], rfl⟩, Or.inr (h.previous_of_replay hinj hf hpresented hreplay)⟩
    | unknown | tombstoned | lapsed | reused => cases hanswer'
  · intro endpoint presented newRefresh newAccess id g he hg hvalue hlive hprevious
    subst hvalue
    obtain ⟨hpresented, -, answer, -, hr⟩ := gateway_refresh hstep he
    have hmem : g ∈ s.held endpoint id := List.mem_of_mem_tail hg
    obtain ⟨family, hf⟩ : ∃ family, s.file.family endpoint id = some family := by
      cases hf : s.file.family endpoint id with
      | none => rw [h.absent hf] at hmem; cases hmem
      | some family => exact ⟨family, rfl⟩
    have hknown := h.known_of_past hf hle hg hlive
    -- The family the search finds has held the value too, so it is this one.
    have hfound : ∀ {id' family'}, s.file.family endpoint id' = some family' →
        family'.classifyRefresh sha256Hex g.value event.1 ≠ .unknown → id = id' ∧ family = family' := by
      intro id' family' hf' hknown'
      obtain ⟨g', hg', hvalue'⟩ := h.held_of_known hinj hf' hpresented hknown'
      obtain ⟨-, rfl, -⟩ := h.unique hmem hg' hvalue'.symm
      exact ⟨rfl, Option.some.inj (hf.symm.trans hf')⟩
    simp only [Gateway.Revoked]
    generalize s'.file = file' at hr ⊢
    cases hr with
    | unknown hunknown => exact absurd (hunknown id family hf) hknown
    | tombstoned hf' htomb hknown' =>
      obtain ⟨rfl, rfl⟩ := hfound hf' hknown'
      exact ⟨family, hf, htomb⟩
    | current hf' _ hcurrent =>
      obtain ⟨rfl, rfl⟩ := hfound hf' (by simp [hcurrent])
      exact absurd hcurrent (h.past_not_current hf hg)
    | replay hf' _ hreplay | lapsed hf' _ hreplay =>
      obtain ⟨rfl, rfl⟩ := hfound hf' (by simp [hreplay])
      exact absurd (h.previous_of_replay hinj hf hpresented hreplay) hprevious
    | reused hf' _ hreused =>
      obtain ⟨rfl, rfl⟩ := hfound hf' (by simp [hreused])
      exact ⟨family.tombstone event.1, by rw [AuthFile.family_putFamily, if_pos ⟨rfl, rfl⟩], rfl⟩
  · intro endpoint presented newRefresh newAccess he hexpired
    obtain ⟨hpresented, -, answer, -, hr⟩ := gateway_refresh hstep he
    generalize s'.file = file' at hr ⊢
    cases hr with
    | unknown | tombstoned | replay | lapsed => exact fun _ _ => rfl
    | @current id family hf htomb hcurrent =>
      have hvalue := FamilyRecord.classifyRefresh_current.1 hcurrent
      obtain ⟨g, past, hheld, hg, hexpires⟩ := h.current_held hf
      have := hexpired id g (hheld ▸ List.mem_cons_self) (hg.trans hvalue)
      have := htimely.current he hf htomb hvalue
      omega
    | @reused id family hf htomb hreused =>
      obtain ⟨g, past, hheld, htells⟩ := h.tells hf
      obtain ⟨r, hr, hdigest⟩ := FamilyRecord.classifyRefresh_reused hreused
      obtain ⟨g', hg', hdigest', hexpires⟩ := htells.sound r hr
      have hmem : g' ∈ s.held endpoint id := hheld ▸ List.mem_cons_of_mem _ hg'
      have := hexpired id g' hmem (h.value_of_digest hinj hmem hpresented (hdigest ▸ hdigest'))
      have := htimely.retired he hf htomb hreused hr hdigest
      omega

/-- An expired value that its family still holds is let in, or revokes the family: the laws fail. -/
theorem Kept.timely_of_laws (h : Kept sha256Hex values s) (hinj : DigestsApart sha256Hex values)
    (hstep : (gateway sha256Hex values).step s event = some s') (hlaws : RefreshLaws s event s') :
    Timely sha256Hex s event := by
  -- The refresh finds the family that holds the value.
  have hfound : ∀ {endpoint presented newRefresh newAccess id family},
      event.2 = .refresh endpoint presented newRefresh newAccess → s.file.family endpoint id = some family →
      family.classifyRefresh sha256Hex presented event.1 ≠ .unknown → ∀ {id' family'},
      s.file.family endpoint id' = some family' → family'.classifyRefresh sha256Hex presented event.1 ≠ .unknown →
      id = id' ∧ family = family' := by
    intro endpoint presented newRefresh newAccess id family he hf hknown id' family' hf' hknown'
    obtain ⟨hpresented, -⟩ := gateway_refresh hstep he
    obtain ⟨g, hg, hvalue⟩ := h.held_of_known hinj hf hpresented hknown
    obtain ⟨g', hg', hvalue'⟩ := h.held_of_known hinj hf' hpresented hknown'
    obtain ⟨-, rfl, -⟩ := h.unique hg hg' (hvalue.trans hvalue'.symm)
    exact ⟨rfl, Option.some.inj (hf.symm.trans hf')⟩
  constructor
  · intro endpoint presented newRefresh newAccess id family he hf htomb hvalue
    by_contra hexpired
    have hcurrent : family.classifyRefresh sha256Hex presented event.1 = .current :=
      FamilyRecord.classifyRefresh_current.2 hvalue
    obtain ⟨hpresented, hfresh, answer, -, hr⟩ := gateway_refresh hstep he
    have hsame := hlaws.unchanged he (fun id' g' hg' hv' => by
      obtain ⟨g, past, hheld, hg, hexpires⟩ := h.current_held hf
      obtain ⟨-, -, rfl⟩ := h.unique hg' (hheld ▸ List.mem_cons_self) (hv'.trans (hvalue.symm.trans hg.symm))
      omega) endpoint id
    generalize s'.file = file' at hr hsame
    cases hr with
    | unknown hunknown => exact absurd (hunknown id family hf) (by simp [hcurrent])
    | tombstoned hf' htomb' hknown' =>
      obtain ⟨rfl, rfl⟩ := hfound he hf (by simp [hcurrent]) hf' hknown'
      exact absurd htomb (by simp [htomb'])
    | current hf' _ hcurrent' =>
      obtain ⟨rfl, rfl⟩ := hfound he hf (by simp [hcurrent]) hf' (by simp [hcurrent'])
      rw [AuthFile.family_putFamily, if_pos ⟨rfl, rfl⟩, hf, Option.some.injEq] at hsame
      have hrotated : newRefresh = family.refresh.value := congrArg (·.refresh.value) hsame
      exact hfresh (hrotated ▸ h.refresh_drawn hf)
    | replay hf' _ hcase | lapsed hf' _ hcase | reused hf' _ hcase =>
      obtain ⟨rfl, rfl⟩ := hfound he hf (by simp [hcurrent]) hf' (by simp [hcase])
      rw [hcurrent] at hcase
      cases hcase
  · intro endpoint presented newRefresh newAccess id family r he hf htomb hreused hmem hdigest
    by_contra hexpired
    obtain ⟨hpresented, hfresh, answer, -, hr⟩ := gateway_refresh hstep he
    have hsame := hlaws.unchanged he (fun id' g' hg' hv' => by
      obtain ⟨g, past, hheld, htells⟩ := h.tells hf
      obtain ⟨g₀, hg₀, hdigest₀, hexpires⟩ := htells.sound r hmem
      have hmem₀ : g₀ ∈ s.held endpoint id := hheld ▸ List.mem_cons_of_mem _ hg₀
      have hvalue := h.value_of_digest hinj hmem₀ hpresented (hdigest ▸ hdigest₀)
      obtain ⟨-, -, rfl⟩ := h.unique hg' hmem₀ (hv'.trans hvalue.symm)
      omega) endpoint id
    generalize s'.file = file' at hr hsame
    cases hr with
    | unknown hunknown => exact absurd (hunknown id family hf) (by simp [hreused])
    | tombstoned hf' htomb' hknown' =>
      obtain ⟨rfl, rfl⟩ := hfound he hf (by simp [hreused]) hf' hknown'
      exact absurd htomb (by simp [htomb'])
    | reused hf' _ _ =>
      obtain ⟨rfl, rfl⟩ := hfound he hf (by simp [hreused]) hf' (by simp [*])
      rw [AuthFile.family_putFamily, if_pos ⟨rfl, rfl⟩, hf, Option.some.injEq] at hsame
      rw [← hsame] at htomb
      cases htomb
    | replay hf' _ hcase | lapsed hf' _ hcase | current hf' _ hcase =>
      obtain ⟨rfl, rfl⟩ := hfound he hf (by simp [hreused]) hf' (by simp [hcase])
      rw [hreused] at hcase
      cases hcase

/-- In every run, the refreshes keep their laws exactly when each of them is timely. -/
theorem refresh_laws_iff_timely (sha256Hex : List UInt8 → String) (values : List String)
    (hinj : DigestsApart sha256Hex values) {steps : List (Gateway × (Nat × Request) × Gateway)} {s : Gateway}
    (hrun : (gateway sha256Hex values).Trace steps s) :
    (∀ t ∈ steps, RefreshLaws t.1 t.2.1 t.2.2) ↔ ∀ t ∈ steps, Timely sha256Hex t.1 t.2.1 :=
  System.Trace.forall_iff
    (fun _ _ _ hr hstep => ⟨(kept hr).timely_of_laws hinj hstep, (kept hr).laws_of_timely hinj hstep⟩) hrun

end Runs

/-! ## An expired value -/

/-- The sha256 of a few texts. -/
def sha256Sample (bytes : List UInt8) : String :=
  if bytes = bytesOf "family-1" then "f7ec4d67a1d701ec748f7ae9b451c23088a39b499e4f05de0c35d456e84ad663"
  else if bytes = bytesOf "access-1" then "f4c2844f463b5a93a517de81b67a09c8b9d79697bd3e7e5145e20e1ca2013c06"
  else if bytes = bytesOf "refresh-1" then "bd473e5dcdce2510c2df4f0c5a54a605fa3647fe74afae20a8cdb8b91b1a1f63"
  else if bytes = bytesOf "access-2" then "6762f65455db85eb39ce6ed04355d710bd03b5d0316aef92dc0846cd5dd72b56"
  else if bytes = bytesOf "refresh-2" then "f865a88f563b9fbc4c224f6fbabd2ec9f810efefc61b212bda20ee64a6fb2840"
  else ""

def sampleValues : List String := ["family-1", "access-1", "refresh-1", "access-2", "refresh-2"]

theorem sampleValues_apart : DigestsApart sha256Sample sampleValues := by
  have h : ∀ a ∈ sampleValues, ∀ b ∈ sampleValues, sha256Sample (bytesOf a) = sha256Sample (bytesOf b) → a = b := by
    decide +kernel
  exact fun a ha b hb => h a ha b hb

def sampleEndpoint : Endpoint := "https://hyoui.example.jp/"

/-- A sign-in at time 0. -/
def sampleMint : Nat × Request := (0, .mint sampleEndpoint "hyoui.example.jp-1" "family-1" "access-1" "refresh-1")

/-- A refresh with the value of that sign-in. -/
def sampleRefresh (nowMs : Nat) : Nat × Request := (nowMs, .refresh sampleEndpoint "refresh-1" "refresh-2" "access-2")

/-- The state after the sign-in. -/
def signedIn : Gateway := {
  file := (({} : AuthFile).mintFamily sampleEndpoint "hyoui.example.jp-1" "family-1" "access-1" "refresh-1" 0).1
  drawn := ["family-1", "access-1", "refresh-1"]
  held := fun endpoint id =>
    note 0 ((({} : AuthFile).mintFamily sampleEndpoint "hyoui.example.jp-1" "family-1" "access-1" "refresh-1" 0).1.family
      endpoint id) []
  answer := some (.ok {
    endpoint := sampleEndpoint, sub := "hyoui.example.jp-1", access := "access-1", accessExpiresAtMs := accessTtlMs,
    refresh := "refresh-1" }) }

theorem signedIn_step : (gateway sha256Sample sampleValues).step {} sampleMint = some signedIn := by
  have h : (({} : Gateway).nowMs ≤ sampleMint.1 ∧ (sampleMint.2.drawn ++ ({} : Gateway).drawn).Nodup ∧
      sampleMint.2.texts ⊆ sampleValues) := by decide +kernel
  simp only [gateway, h, and_self, if_true]
  rfl

theorem signedIn_trace : (gateway sha256Sample sampleValues).Trace [({}, sampleMint, signedIn)] signedIn :=
  .step (.init ⟨rfl, rfl, rfl⟩) signedIn_step

theorem signedIn_family : signedIn.file.family sampleEndpoint "family-1" = some
    { id := "family-1", sub := "hyoui.example.jp-1", endpoint := sampleEndpoint, access := ⟨"access-1", accessTtlMs⟩,
      refresh := ⟨"refresh-1", refreshTtlMs⟩, retired := [], tombstonedAtMs := none } := by
  simp [signedIn, AuthFile.mintFamily, AuthFile.family_putFamily]

/-- The value of a sign-in, presented when it has just expired, returns new tokens. -/
theorem refresh_at_expiry : DigestsApart sha256Sample sampleValues ∧ ∃ s',
    (gateway sha256Sample sampleValues).Trace
      [(signedIn, sampleRefresh refreshTtlMs, s'), ({}, sampleMint, signedIn)] s' ∧
    s'.answer = some (.ok {
      endpoint := sampleEndpoint, sub := "hyoui.example.jp-1", access := "access-2",
      accessExpiresAtMs := refreshTtlMs + accessTtlMs, refresh := "refresh-2" }) ∧
    ¬ RefreshLaws signedIn (sampleRefresh refreshTtlMs) s' := by
  refine ⟨sampleValues_apart, ?_⟩
  obtain ⟨s', hstep⟩ : ∃ s', (gateway sha256Sample sampleValues).step signedIn (sampleRefresh refreshTtlMs) = some s' :=
    Option.isSome_iff_exists.1 (by decide +kernel)
  refine ⟨s', signedIn_trace.step hstep, ?_, fun hlaws => ?_⟩
  · obtain ⟨-, -, -, rfl⟩ := gateway_step hstep
    decide +kernel
  · have htimely := (kept signedIn_trace.reachable).timely_of_laws sampleValues_apart hstep hlaws
    exact absurd (htimely.current rfl signedIn_family rfl rfl) (Nat.lt_irrefl _)

/-- A sign-in and a refresh within the life of its value keep the laws. -/
theorem refresh_laws_first : ∃ s',
    (gateway sha256Sample sampleValues).Trace [(signedIn, sampleRefresh 1000, s'), ({}, sampleMint, signedIn)] s' ∧
    RefreshLaws {} sampleMint signedIn ∧ RefreshLaws signedIn (sampleRefresh 1000) s' := by
  obtain ⟨s', hstep⟩ : ∃ s', (gateway sha256Sample sampleValues).step signedIn (sampleRefresh 1000) = some s' :=
    Option.isSome_iff_exists.1 (by decide +kernel)
  have hrun := signedIn_trace.step hstep
  have hfamily : ∀ {endpoint id family}, signedIn.file.family endpoint id = some family →
      family.retired = [] ∧ family.refresh.expiresAtMs = refreshTtlMs := by
    intro endpoint id family hf
    simp only [signedIn, AuthFile.mintFamily, AuthFile.family_putFamily] at hf
    split at hf
    · rw [← Option.some.inj hf]
      exact ⟨rfl, Nat.zero_add _⟩
    · simp [AuthFile.family] at hf
  have hlaws := (refresh_laws_iff_timely sha256Sample sampleValues sampleValues_apart hrun).2 (by
    simp only [List.forall_mem_cons, List.not_mem_nil, false_implies, implies_true, and_true]
    refine ⟨⟨fun he hf _ _ => ?_, fun he hf _ _ hr _ => ?_⟩, ⟨fun he => ?_, fun he => ?_⟩⟩
    · rw [(hfamily hf).2]
      decide
    · rw [(hfamily hf).1] at hr
      exact absurd hr List.not_mem_nil
    · cases he
    · cases he)
  simp only [List.forall_mem_cons, List.not_mem_nil, false_implies, implies_true, and_true] at hlaws
  exact ⟨s', hrun, hlaws.2, hlaws.1⟩

end Hyoui.Auth
