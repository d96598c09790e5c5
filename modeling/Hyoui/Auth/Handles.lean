import Hyoui.Auth.Passkeys
/-!
# A `sub` and its user handle

`passkey add` draws a user handle for each registration and names it from the credentials its endpoint has.
When a `sub` stands for one handle, and when two registrations get one name.
-/

namespace Hyoui.Auth

open Hyoui.Lib

/-- Registrations that were issued under one `sub` have one user handle. -/
def OneHandleEach (issued : List Issued) : Prop := ∀ x ∈ issued, ∀ y ∈ issued, x.sub = y.sub → x.userId = y.userId

instance (issued : List Issued) : Decidable (OneHandleEach issued) :=
  inferInstanceAs (Decidable (∀ x ∈ issued, ∀ y ∈ issued, x.sub = y.sub → x.userId = y.userId))

/-- A `sub` stands for one user handle. -/
structure OneHandle (s : Passkeys) : Prop where
  issued : OneHandleEach s.issued
  record : ∀ {endpoint endpoint' sub id id' r r'}, s.auth.credential endpoint sub id = some r →
    s.auth.credential endpoint' sub id' = some r' → r.userId = r'.userId
  /-- Removing a `sub` revokes the live credentials of its handle and no others. -/
  revoked_credential : ∀ x ∈ s.issued, ∀ nowMs endpoint sub id,
    (s.auth.tombstoneSub x.sub nowMs).1.credential endpoint sub id = (s.auth.credential endpoint sub id).map fun r =>
      if r.userId = x.userId ∧ !r.isTombstoned then { r with tombstonedAtMs := some nowMs } else r
  /-- Likewise the sessions that were minted with them. -/
  revoked_family : ∀ x ∈ s.issued, ∀ nowMs endpoint id,
    (s.auth.tombstoneSub x.sub nowMs).1.family endpoint id = (s.auth.family endpoint id).map fun f =>
      if s.owner endpoint id = some x.userId ∧ !f.isTombstoned then f.tombstone nowMs else f

/-- A command that issues a registration comes after all others of its host: they were issued for its own
endpoint, and had completed when it read the credentials. -/
def AfterOthers (s : Passkeys) : PasskeyMove → Prop
  | .issue i _ _ _ _ => ∀ command, s.adding i = some command → ∀ x ∈ s.issued, SameHost x.endpoint command.endpoint →
      x.endpoint = command.endpoint ∧ command.existing.hasSub command.endpoint x.sub = true
  | _ => True

section

variable {W : Ceremony} {A : Assertions} {s s' : Passkeys} {move : PasskeyMove}

/-- A handle is drawn for one registration. -/
theorem Known.drawn_once (h : Known s) {x y : Issued} (hx : x ∈ s.issued) (hy : y ∈ s.issued)
    (huserId : x.userId = y.userId) : x = y :=
  List.inj_on_of_nodup_map h.handles hx hy huserId

/-- The records and the sessions follow the registrations they come from. -/
theorem Known.oneHandle_iff (h : Known s) : OneHandle s ↔ OneHandleEach s.issued := by
  refine ⟨fun hone => hone.issued, fun hissued => ⟨hissued, ?_, ?_, ?_⟩⟩
  · intro endpoint endpoint' sub id id' r r' hr hr'
    exact hissued _ (h.sourced.record hr).2.2 _ (h.sourced.record hr').2.2 rfl
  · intro x hx nowMs endpoint sub id
    rw [AuthFile.credential_tombstoneSub]
    refine Option.map_congr fun r hr => ?_
    have hr := (h.sourced.record hr).2.2
    have hsame : sub = x.sub ↔ r.userId = x.userId := by
      refine ⟨fun hsub => hissued _ hr _ hx hsub, fun huserId => ?_⟩
      exact congrArg Issued.sub (h.drawn_once hr hx huserId)
    simp only [hsame]
  · intro x hx nowMs endpoint id
    rw [AuthFile.family_tombstoneSub]
    refine Option.map_congr fun f hf => ?_
    obtain ⟨userId, howner, hf⟩ := h.owned endpoint id f hf
    have hsame : f.sub = x.sub ↔ s.owner endpoint id = some x.userId := by
      rw [howner, Option.some.injEq]
      refine ⟨fun hsub => hissued _ hf _ hx hsub, fun huserId => ?_⟩
      exact congrArg Issued.sub (h.drawn_once hf hx huserId)
    simp only [hsame]

/-- The name of a command is new exactly when the command comes after all others of its host. -/
theorem Known.fresh_iff (h : Known s) (hone : OneHandleEach s.issued) {i : Nat} {command : Adding}
    (hcommand : s.adding i = some command) :
    (∀ x ∈ s.issued, x.sub ≠ command.existing.nextSub command.endpoint) ↔
      ∀ x ∈ s.issued, SameHost x.endpoint command.endpoint →
        x.endpoint = command.endpoint ∧ command.existing.hasSub command.endpoint x.sub = true := by
  obtain ⟨n, hn, hname, hfree, htaken, hbelow⟩ := h.next hcommand
  rw [hname]
  constructor
  · intro hfresh x hx hhost
    obtain ⟨k, hk, hxsub, hxbelow⟩ := h.numbered x hx
    have hshared : ∀ m, subName x.endpoint m = subName command.endpoint m := fun m => subName_inj.2 ⟨hhost, rfl⟩
    -- The numbers of `x` up to its own are in use, so the new one is greater.
    have hlt : k < n := by
      by_contra hge
      rcases Nat.lt_or_eq_of_le (Nat.not_lt.1 hge) with hlt | rfl
      · obtain ⟨userId, hmem⟩ := hxbelow n hn hlt
        exact hfresh _ hmem (hshared n)
      · exact hfresh x hx (hxsub.trans (hshared n))
    have hendpoint : x.endpoint = command.endpoint := by
      -- The endpoint of the command has the name of `x` too: one name, so one registration.
      obtain ⟨userId, hmem⟩ := hbelow k hk hlt
      have hsub : x.sub = subName command.endpoint k := hxsub.trans (hshared k)
      exact congrArg Issued.endpoint (h.drawn_once hx hmem (hone x hx _ hmem hsub))
    refine ⟨hendpoint, ?_⟩
    rw [hxsub, hshared]
    exact htaken k hk hlt
  · intro hafter x hx hsub
    obtain ⟨k, -, hxsub, -⟩ := h.numbered x hx
    obtain ⟨hhost, -⟩ := subName_inj.1 (hxsub.symm.trans hsub)
    obtain ⟨-, hhas⟩ := hafter x hx hhost
    rw [hsub, hfree] at hhas
    cases hhas

theorem oneHandleEach_cons {x : Issued} {issued : List Issued} (hfresh : x.userId ∉ issued.map (·.userId)) :
    OneHandleEach (x :: issued) ↔ OneHandleEach issued ∧ ∀ y ∈ issued, y.sub ≠ x.sub := by
  have hne : ∀ y ∈ issued, y.userId ≠ x.userId := fun y hy he => hfresh (he ▸ List.mem_map_of_mem hy)
  constructor
  · intro hone
    refine ⟨fun y hy z hz => hone y (List.mem_cons_of_mem _ hy) z (List.mem_cons_of_mem _ hz), fun y hy hsub => ?_⟩
    exact hne y hy (hone y (List.mem_cons_of_mem _ hy) x List.mem_cons_self hsub)
  · rintro ⟨hone, hsubs⟩ y hy z hz hsub
    rcases List.mem_cons.1 hy with rfl | hy' <;> rcases List.mem_cons.1 hz with rfl | hz'
    · rfl
    · exact absurd hsub.symm (hsubs z hz')
    · exact absurd hsub (hsubs y hy')
    · exact hone y hy' z hz' hsub

/-- Nothing but a command issues registrations. -/
theorem issued_kept (hstep : (passkeys W A).step s move = some s')
    (hmove : ∀ i jti userId secret codeHash, move ≠ .issue i jti userId secret codeHash) : s'.issued = s.issued := by
  cases move with
  | issue i jti userId secret codeHash => exact absurd rfl (hmove i jti userId secret codeHash)
  | gateway move =>
    obtain ⟨registrar', -, ⟨-, rfl⟩ | ⟨i, id, access, refresh, r, credential, -, -, rfl⟩⟩ := passkeys_gateway hstep
    · rfl
    · rfl
  | signIn i id access refresh =>
    obtain rfl | ⟨r, sub, key, record, result, -, rfl⟩ := passkeys_signIn hstep
    · rfl
    · rfl
  | read i endpoint label nowMs =>
    simp only [passkeys] at hstep
    split at hstep <;> cases hstep
    rfl
  | consume i request userAgent nowMs =>
    simp only [passkeys] at hstep
    split at hstep
    · obtain rfl := Option.some.inj hstep
      split <;> rfl
    · cases hstep
  | refresh | remove | sessionRemove =>
    obtain rfl := Option.some.inj hstep
    rfl

/-- A step keeps one handle to a `sub` exactly when it comes after all others. -/
theorem Known.oneHandle_step (h : Known s) (hstep : (passkeys W A).step s move = some s') :
    OneHandle s' ↔ OneHandle s ∧ AfterOthers s move := by
  have hsame : s'.issued = s.issued → (OneHandle s' ↔ OneHandle s ∧ True) := by
    intro hissued
    rw [and_true, h.oneHandle_iff, (h.step hstep).oneHandle_iff, hissued]
  cases move with
  | issue i jti userId secret codeHash =>
    rw [h.oneHandle_iff, (h.step hstep).oneHandle_iff]
    obtain ⟨command, hcommand, hfresh, rfl⟩ := passkeys_issue hstep
    rw [oneHandleEach_cons hfresh]
    refine and_congr_right fun hone => (h.fresh_iff hone hcommand).trans ?_
    constructor
    · intro hafter command' hcommand'
      obtain rfl := Option.some.inj (hcommand.symm.trans hcommand')
      exact hafter
    · exact fun hafter => hafter command hcommand
  | read | gateway | consume | signIn | refresh | remove | sessionRemove =>
    exact hsame (issued_kept hstep (by simp))

/-- In every run, a `sub` stands for one user handle exactly when each command came after all others of its
host: those were for its own endpoint and had completed when it read the credentials. -/
theorem sub_names_one_handle (W : Ceremony) (A : Assertions) {steps : List (Passkeys × PasskeyMove × Passkeys)}
    {s : Passkeys} (hrun : (passkeys W A).Trace steps s) : OneHandle s ↔ ∀ t ∈ steps, AfterOthers t.1 t.2.1 := by
  refine hrun.inv_iff (fun s hs => ?_) fun s i s' hr hstep => (known hr).oneHandle_step hstep
  have hinit : (passkeys W A).Reachable s := .init hs
  obtain rfl : s = {} := hs
  exact (known hinit).oneHandle_iff.2 fun x hx => nomatch hx

end

/-! ## Two devices of one endpoint -/

/-- The WebAuthn crate accepts every assertion. -/
def sampleAssertions : Assertions where
  authenticationState _ := .ok ()
  authenticateCredential _ _ _ := .ok {
    counter := 0, backupEligible := false, backupState := false, needsUpdate := false }

abbrev samplePasskeys : System Passkeys PasskeyMove := passkeys sampleCeremony sampleAssertions

/-- A command for an endpoint reads the credentials and issues a registration. -/
def sampleAdd (i : Nat) (endpoint : Endpoint) (jti : String) : List PasskeyMove :=
  [.read i endpoint none 0,
    .issue i jti [UInt8.ofNat i] [8] "8d969eef6ecad3c29a3a629280e686cf0c3f5d5a86aff3ca12020c923adc6c92"]

/-- The registration is completed. -/
def sampleComplete : List PasskeyMove :=
  [.gateway (.challenge 0 sampleChallenge "challenge-1" 1), .gateway (.offer 0),
    .gateway (.register 2 (sampleRegister "challenge-1" "first") none 3), .gateway (.verify 2),
    .gateway (.store 2 "family-1" "access-1" "refresh-1"), .gateway (.consume 2)]

theorem samplePasskeys_init : samplePasskeys.Reachable {} := .init rfl

/-- A second device is added once the first is registered. -/
theorem sub_names_one_handle_completed : ∃ steps s, samplePasskeys.Trace steps s ∧
    s.issued.map (·.sub) = ["hyoui.example.jp-2", "hyoui.example.jp-1"] ∧ ∀ t ∈ steps, AfterOthers t.1 t.2.1 := by
  obtain ⟨s, hr, hs⟩ := samplePasskeys_init.exists_run
    (sampleAdd 1 "https://hyoui.example.jp/" "jti-1" ++ sampleComplete ++
      sampleAdd 2 "https://hyoui.example.jp/" "jti-2")
    (p := fun s => s.issued.map (·.sub) = ["hyoui.example.jp-2", "hyoui.example.jp-1"] ∧ OneHandleEach s.issued)
    (by decide +kernel)
  obtain ⟨steps, hsteps⟩ := hr.trace
  refine ⟨steps, s, hsteps, hs.1, ?_⟩
  exact (sub_names_one_handle sampleCeremony sampleAssertions hsteps).1 ((known hr).oneHandle_iff.2 hs.2)

/-- It is added before, or for another port: two handles under one name. -/
theorem sub_names_two_handles :
    (∃ s, samplePasskeys.Reachable s ∧ ¬ OneHandle s ∧ s.issued =
      [⟨"https://hyoui.example.jp/", "hyoui.example.jp-1", [2]⟩,
        ⟨"https://hyoui.example.jp/", "hyoui.example.jp-1", [1]⟩]) ∧
    ∃ s, samplePasskeys.Reachable s ∧ ¬ OneHandle s ∧ s.issued =
      [⟨"https://hyoui.example.jp:8443/", "hyoui.example.jp-1", [2]⟩,
        ⟨"https://hyoui.example.jp/", "hyoui.example.jp-1", [1]⟩] := by
  constructor
  · obtain ⟨s, hr, hs⟩ := samplePasskeys_init.exists_run
      (sampleAdd 1 "https://hyoui.example.jp/" "jti-1" ++ sampleAdd 2 "https://hyoui.example.jp/" "jti-2")
      (p := fun s => ¬ OneHandleEach s.issued ∧ s.issued = [⟨"https://hyoui.example.jp/", "hyoui.example.jp-1", [2]⟩,
        ⟨"https://hyoui.example.jp/", "hyoui.example.jp-1", [1]⟩]) (by decide +kernel)
    exact ⟨s, hr, fun hone => hs.1 hone.issued, hs.2⟩
  · obtain ⟨s, hr, hs⟩ := samplePasskeys_init.exists_run
      (sampleAdd 1 "https://hyoui.example.jp/" "jti-1" ++ sampleComplete ++
        sampleAdd 2 "https://hyoui.example.jp:8443/" "jti-2")
      (p := fun s => ¬ OneHandleEach s.issued ∧ s.issued =
        [⟨"https://hyoui.example.jp:8443/", "hyoui.example.jp-1", [2]⟩,
          ⟨"https://hyoui.example.jp/", "hyoui.example.jp-1", [1]⟩]) (by decide +kernel)
    exact ⟨s, hr, fun hone => hs.1 hone.issued, hs.2⟩

end Hyoui.Auth
