import Hyoui.Auth.Handles
/-!
# Credential ids

A browser presents the id of its credential, and the gateway looks for it among the records of the endpoint,
whatever their `sub`. The id of a new credential is what the authenticator sends. When an id stands for one
live record.
-/

namespace Hyoui.Auth

open Hyoui.Lib

/-- The record is live and has the id. -/
def CredentialRecord.HasLive (record : CredentialRecord) (id : List UInt8) : Prop :=
  record.isTombstoned = false ∧ record.credentialId = id

/-- What a lookup finds when it meets the records in some order. -/
def findIn (entries : List (String × String × CredentialRecord)) (presented : List UInt8) :
    Option (String × String × CredentialRecord) :=
  entries.find? fun (_, _, record) => !record.isTombstoned && constantTimeEq record.credentialId presented

/-- An id belongs to at most one live record of an endpoint. -/
def OneHolder (file : AuthFile) : Prop :=
  ∀ endpoint sub sub' key key' r r', file.credential endpoint sub key = some r →
    file.credential endpoint sub' key' = some r' → r.isTombstoned = false → r'.HasLive r.credentialId →
    sub = sub' ∧ key = key'

/-- An id stands for one live record of an endpoint. -/
structure UniqueIds (file : AuthFile) : Prop where
  holder : OneHolder file
  /-- The order of the keys does not matter to a lookup. -/
  order : ∀ {endpoint entries}, entries.Perm (file.entries endpoint) →
    ∀ presented, findIn entries presented = file.findLiveCredential endpoint presented
  /-- Every live record is found by its id. -/
  found : ∀ {endpoint sub key r}, file.credential endpoint sub key = some r → r.isTombstoned = false →
    file.findLiveCredential endpoint r.credentialId = some (sub, key, r)

/-- Storing a registration leaves the live records of other endpoints and of other subs as they were, and they
are still found. -/
def KeepsOthers (s : Passkeys) (move : PasskeyMove) (s' : Passkeys) : Prop :=
  ∀ i id access refresh r credential, move = .gateway (.store i id access refresh) →
    s.registrar.phase i = .verified r credential →
    ∀ endpoint sub key record, s.auth.credential endpoint sub key = some record → record.isTombstoned = false →
      endpoint ≠ r.request.endpoint ∨ sub ≠ r.accepted.sub →
      s'.auth.credential endpoint sub key = some record ∧
        s'.auth.findLiveCredential endpoint record.credentialId = some (sub, key, record)

/-- A registration that is stored has an id of no live record of another `sub`. -/
def NewId (s : Passkeys) : PasskeyMove → Prop
  | .gateway (.store i _ _ _) => ∀ r credential, s.registrar.phase i = .verified r credential →
      ∀ sub key record, s.auth.credential r.request.endpoint sub key = some record →
        record.HasLive credential.credId → sub = r.accepted.sub
  | _ => True

/-- The condition, evaluated. -/
def storesNewId (s : Passkeys) : PasskeyMove → Bool
  | .gateway (.store i _ _ _) =>
    match s.registrar.phase i with
    | .verified r credential => (s.auth.entries r.request.endpoint).all fun (sub, _, record) =>
        record.isTombstoned || record.credentialId ≠ credential.credId || sub = r.accepted.sub
    | _ => true
  | _ => true

section Files

variable {file file' : AuthFile} {endpoint : Endpoint} {sub key : String}

/-- With one holder, a lookup that can meet a live record of the id meets that one. -/
theorem OneHolder.findIn_eq (h : OneHolder file) {entries : List (String × String × CredentialRecord)}
    (hentries : entries.Perm (file.entries endpoint)) {r : CredentialRecord}
    (hr : file.credential endpoint sub key = some r) (hlive : r.isTombstoned = false) :
    findIn entries r.credentialId = some (sub, key, r) := by
  have hmem : (sub, key, r) ∈ entries := hentries.mem_iff.2 (AuthFile.mem_entries.2 hr)
  cases hfind : findIn entries r.credentialId with
  | none =>
    have hnone := List.find?_eq_none.1 hfind _ hmem
    simp [hlive, constantTimeEq_iff] at hnone
  | some found =>
    obtain ⟨sub', key', r'⟩ := found
    have hr' : file.credential endpoint sub' key' = some r' :=
      AuthFile.mem_entries.1 (hentries.mem_iff.1 (List.mem_of_find?_eq_some hfind))
    have hholds : r'.HasLive r.credentialId := by
      simpa [constantTimeEq_iff, CredentialRecord.HasLive] using List.find?_some hfind
    obtain ⟨rfl, rfl⟩ := h endpoint sub sub' key key' r r' hr hr' hlive hholds
    rw [hr] at hr'
    rw [Option.some.inj hr']

theorem OneHolder.uniqueIds (h : OneHolder file) : UniqueIds file := by
  refine ⟨h, fun {endpoint entries} hentries presented => ?_, fun hr hlive => h.findIn_eq (.refl _) hr hlive⟩
  cases hfind : file.findLiveCredential endpoint presented with
  | none =>
    refine List.find?_eq_none.2 fun entry hentry => ?_
    exact List.find?_eq_none.1 hfind entry (hentries.mem_iff.1 hentry)
  | some found =>
    obtain ⟨sub, key, r⟩ := found
    obtain ⟨hr, hlive, rfl⟩ := AuthFile.findLiveCredential_some hfind
    exact h.findIn_eq hentries hr hlive

/-- The live records of a file stood, with their ids, in an earlier one. -/
def LiveFrom (file' file : AuthFile) : Prop :=
  ∀ endpoint sub key r', file'.credential endpoint sub key = some r' → r'.isTombstoned = false →
    ∃ r, file.credential endpoint sub key = some r ∧ r.HasLive r'.credentialId

theorem OneHolder.keep (h : OneHolder file) (hfrom : LiveFrom file' file) : OneHolder file' := by
  rintro endpoint sub sub' key key' r r' hr hr' hlive ⟨hlive', hid⟩
  obtain ⟨p, hp, hplive, hpid⟩ := hfrom endpoint sub key r hr hlive
  obtain ⟨p', hp', hp'live, hp'id⟩ := hfrom endpoint sub' key' r' hr' hlive'
  exact h endpoint sub sub' key key' p p' hp hp' hplive ⟨hp'live, by rw [hp'id, hid, hpid]⟩

theorem LiveFrom.of_credentials (hcredentials : file'.credentials = file.credentials) : LiveFrom file' file := by
  intro endpoint sub key r hr hlive
  rw [AuthFile.credential, hcredentials] at hr
  exact ⟨r, hr, hlive, rfl⟩

theorem LiveFrom.tombstoneSub (file : AuthFile) (sub : String) (nowMs : Nat) :
    LiveFrom (file.tombstoneSub sub nowMs).1 file := by
  intro endpoint sub' key r' hr' hlive
  rw [AuthFile.credential_tombstoneSub] at hr'
  obtain ⟨r, hr, rfl⟩ := Option.map_eq_some_iff.1 hr'
  split at hlive
  · simp [CredentialRecord.isTombstoned] at hlive
  · rename_i hother
    rw [if_neg hother]
    exact ⟨r, hr, hlive, rfl⟩

theorem LiveFrom.set {r r' : CredentialRecord} (hr : file.credential endpoint sub key = some r)
    (hlive : r.isTombstoned = false) (hid : r'.credentialId = r.credentialId) :
    LiveFrom (file.setCredential endpoint sub key r') file := by
  intro endpoint' sub' key' p hp hplive
  rw [AuthFile.credential_setCredential] at hp
  split at hp
  · rename_i hkey
    obtain ⟨rfl, rfl, rfl⟩ := hkey
    rw [hr] at hp
    obtain rfl := Option.some.inj hp
    exact ⟨r, hr, hlive, hid.symm⟩
  · exact ⟨p, hp, hplive, rfl⟩

/-- Inserting a record keeps one holder to an id exactly when no live record of another `sub` has its id. -/
theorem OneHolder.insert_iff {issued : List Issued} (h : OneHolder file) (hsourced : Sourced issued file)
    {record : CredentialRecord} (hlive : record.isTombstoned = false) :
    OneHolder (file.insertCredential endpoint record) ↔
      ∀ sub key r, file.credential endpoint sub key = some r → r.HasLive record.credentialId → sub = record.sub := by
  have hself : (file.insertCredential endpoint record).credential endpoint record.sub (base64url record.credentialId) =
      some record := by
    rw [AuthFile.credential_insertCredential, if_pos ⟨rfl, rfl, rfl⟩]
  constructor
  · intro hone sub key r hr hholds
    by_contra hsub
    have hr' : (file.insertCredential endpoint record).credential endpoint sub key = some r := by
      rw [AuthFile.credential_insertCredential, if_neg fun hkey => hsub hkey.2.1.symm]
      exact hr
    exact hsub (hone endpoint _ sub _ key record r hself hr' hlive hholds).1.symm
  · -- A record with the id of the new one has its `sub`, and with it its key.
    intro hnew endpoint' sub sub' key key' r r' hr hr' hrlive hholds
    rw [AuthFile.credential_insertCredential] at hr hr'
    have hsame : ∀ {sub key p}, file.credential endpoint sub key = some p → p.HasLive record.credentialId →
        record.sub = sub ∧ base64url record.credentialId = key := by
      intro sub key p hp hholds
      refine ⟨(hnew sub key p hp hholds).symm, ?_⟩
      rw [← hholds.2]
      exact (hsourced.record hp).2.1
    split at hr <;> split at hr' <;> rename_i hkey hkey'
    · exact ⟨hkey.2.1.symm.trans hkey'.2.1, hkey.2.2.symm.trans hkey'.2.2⟩
    · obtain ⟨rfl, rfl, rfl⟩ := hkey
      obtain rfl := Option.some.inj hr
      exact hsame hr' hholds
    · obtain ⟨rfl, rfl, rfl⟩ := hkey'
      obtain rfl := Option.some.inj hr'
      obtain ⟨hsub, hkey⟩ := hsame hr ⟨hrlive, hholds.2.symm⟩
      exact ⟨hsub.symm, hkey.symm⟩
    · exact h endpoint' sub sub' key key' r r' hr hr' hrlive hholds

end Files

/-! ## The runs -/

section Runs

variable {W : Ceremony} {A : Assertions} {s s' : Passkeys} {move : PasskeyMove}

theorem storesNewId_iff : storesNewId s move = true ↔ NewId s move := by
  cases move with
  | gateway move =>
    cases move with
    | store i id access refresh =>
      simp only [storesNewId, NewId]
      split
      · rename_i r credential hphase
        constructor
        · intro hall r' credential' hphase' sub key record hr hholds
          obtain ⟨rfl, rfl⟩ := Phase.verified.inj (hphase.symm.trans hphase')
          simpa [hholds.1, hholds.2] using List.all_eq_true.1 hall _ (AuthFile.mem_entries.2 hr)
        · intro hnew
          refine List.all_eq_true.2 fun (sub, key, record) hmem => ?_
          have hsub := hnew r credential hphase sub key record (AuthFile.mem_entries.1 hmem)
          simp only [CredentialRecord.HasLive, and_imp] at hsub
          simp only [Bool.or_eq_true, decide_eq_true_eq]
          by_cases hlive : record.isTombstoned = true
          · exact .inl (.inl hlive)
          · by_cases hid : record.credentialId = credential.credId
            · exact .inr (hsub (Bool.not_eq_true _ ▸ hlive) hid)
            · exact .inl (.inr hid)
      · rename_i hphase
        exact ⟨fun _ r credential h => absurd h (hphase r credential), fun _ => rfl⟩
    | _ => simp [storesNewId, NewId]
  | _ => simp [storesNewId, NewId]

instance : Decidable (NewId s move) := decidable_of_iff _ storesNewId_iff

theorem newId_of_other (hmove : ∀ i id access refresh, move ≠ .gateway (.store i id access refresh)) :
    NewId s move := by
  cases move with
  | gateway move =>
    cases move with
    | store i id access refresh => exact absurd rfl (hmove i id access refresh)
    | _ => exact trivial
  | _ => exact trivial

/-- A registration that is stored is the only step that may give an id a second holder. -/
theorem liveFrom_of_step (hstep : (passkeys W A).step s move = some s')
    (hmove : ∀ i id access refresh, move ≠ .gateway (.store i id access refresh)) : LiveFrom s'.auth s.auth := by
  cases move with
  | issue i jti userId secret codeHash =>
    obtain ⟨command, -, -, rfl⟩ := passkeys_issue hstep
    exact .of_credentials rfl
  | gateway move =>
    obtain ⟨registrar', hmoved, ⟨hother, rfl⟩ | ⟨i, id, access, refresh, r, credential, rfl, -⟩⟩ :=
      passkeys_gateway hstep
    · exact .of_credentials (congrArg AuthFile.credentials (hmoved.auth hother))
    · exact absurd rfl (hmove i id access refresh)
  | signIn i id access refresh =>
    obtain rfl | ⟨r, sub, key, record, result, hfind, rfl⟩ := passkeys_signIn hstep
    · exact .of_credentials rfl
    · obtain ⟨hr, hlive, -⟩ := AuthFile.findLiveCredential_some hfind
      have hset : LiveFrom (s.auth.setCredential r.request.endpoint sub key
          (record.recordUse result r.nowMs r.userAgent)) s.auth := .set hr hlive record.recordUse_credentialId
      exact hset
  | read i endpoint label nowMs =>
    simp only [passkeys] at hstep
    split at hstep <;> cases hstep
    exact .of_credentials rfl
  | consume i request userAgent nowMs =>
    simp only [passkeys] at hstep
    split at hstep
    · obtain rfl := Option.some.inj hstep
      exact .of_credentials rfl
    · cases hstep
  | refresh endpoint presented newRefresh newAccess nowMs =>
    obtain rfl := Option.some.inj hstep
    exact .of_credentials (refreshBlocking_credentials W.sha256Hex s.auth endpoint presented newRefresh newAccess nowMs)
  | remove sub nowMs =>
    obtain rfl := Option.some.inj hstep
    exact .tombstoneSub s.auth sub nowMs
  | sessionRemove id nowMs =>
    obtain rfl := Option.some.inj hstep
    exact .of_credentials rfl

/-- From a state with unique ids, a step leads to one, and keeps the records of others, exactly when a
registration it stores has a new id. -/
theorem Known.uniqueIds_step (h : Known s) (hunique : UniqueIds s.auth) (hstep : (passkeys W A).step s move = some s') :
    UniqueIds s'.auth ∧ KeepsOthers s move s' ↔ NewId s move := by
  have hother : (∀ i id access refresh, move ≠ .gateway (.store i id access refresh)) →
      UniqueIds s'.auth ∧ KeepsOthers s move s' := by
    intro hmove
    refine ⟨(hunique.holder.keep (liveFrom_of_step hstep hmove)).uniqueIds, ?_⟩
    exact fun i id access refresh r credential hstore => absurd hstore (hmove i id access refresh)
  by_cases hmove : ∃ i id access refresh, move = .gateway (.store i id access refresh)
  · obtain ⟨i, id, access, refresh, rfl⟩ := hmove
    obtain ⟨registrar', hmoved, ⟨hne, -⟩ | ⟨i', id', access', refresh', r, credential, heq, hphase, rfl⟩⟩ :=
      passkeys_gateway hstep
    · exact absurd rfl (hne i id access refresh)
    · cases heq
      obtain ⟨r', credential', hphase', hauth⟩ := hmoved.store rfl
      obtain ⟨rfl, rfl⟩ := Phase.verified.inj (hphase.symm.trans hphase')
      have hholder : OneHolder registrar'.auth ↔ ∀ sub key p, s.auth.credential r.request.endpoint sub key = some p →
          p.HasLive credential.credId → sub = r.accepted.sub := by
        rw [hauth]
        exact hunique.holder.insert_iff h.sourced rfl
      constructor
      · rintro ⟨hunique', -⟩ r' credential' hphase'
        obtain ⟨rfl, rfl⟩ := Phase.verified.inj (hphase.symm.trans hphase')
        exact hholder.1 hunique'.holder
      · intro hnew
        have hunique' : UniqueIds registrar'.auth := (hholder.2 (hnew r credential hphase)).uniqueIds
        refine ⟨hunique', ?_⟩
        intro i' id' access' refresh' r' credential' heq hphase' endpoint sub key record hr hlive hne
        cases heq
        obtain ⟨rfl, rfl⟩ := Phase.verified.inj (hphase.symm.trans hphase')
        have hkept : registrar'.auth.credential endpoint sub key = some record := by
          rw [hauth]
          refine (AuthFile.credential_insertCredential.trans (if_neg ?_)).trans hr
          rintro ⟨rfl, rfl, -⟩
          exact hne.elim (absurd rfl) (absurd rfl)
        exact ⟨hkept, hunique'.found hkept hlive⟩
  · have hmove : ∀ i id access refresh, move ≠ .gateway (.store i id access refresh) :=
      fun i id access refresh heq => hmove ⟨i, id, access, refresh, heq⟩
    exact iff_of_true (hother hmove) (newId_of_other hmove)

/-- In every run, the ids stay unique and every registration keeps the records of others exactly when each
registration that is stored has an id of no live record of another `sub`. -/
theorem credential_ids_unique (W : Ceremony) (A : Assertions) {steps : List (Passkeys × PasskeyMove × Passkeys)}
    {s : Passkeys} (hrun : (passkeys W A).Trace steps s) :
    (∀ t ∈ steps, UniqueIds t.2.2.auth ∧ KeepsOthers t.1 t.2.1 t.2.2) ↔ ∀ t ∈ steps, NewId t.1 t.2.1 := by
  refine hrun.steps_iff (I := fun s => UniqueIds s.auth)
    (P := fun s move s' => UniqueIds s'.auth ∧ KeepsOthers s move s')
    (Q := fun s move _ => NewId s move) (fun s hs => ?_) fun s i s' hr hstep hunique => ?_
  · obtain rfl : s = {} := hs
    refine OneHolder.uniqueIds fun endpoint sub sub' key key' r r' hr => ?_
    simp [AuthFile.credential] at hr
  · exact ⟨(known hr).uniqueIds_step hunique hstep, fun hboth => hboth.1⟩

end Runs

/-! ## Two devices of one endpoint -/

/-- As `sampleCeremony`, with a jwt that is its own jti. -/
def twoInvitations : Ceremony := { sampleCeremony with peekJti jwt := .ok jwt }

abbrev twoDevices : System Passkeys PasskeyMove := passkeys twoInvitations sampleAssertions

/-- An invitation is opened, and the device answers with a credential. -/
def sampleRegistered (i : Nat) (jti challengeId : String) (credential : Json) : List PasskeyMove :=
  [.gateway (.challenge i { sampleChallenge with jwt := some jti } challengeId 1), .gateway (.offer i),
    .gateway (.register (i + 1) { sampleRegister challengeId credential with jwt := jti } none 3),
    .gateway (.verify (i + 1)), .gateway (.store (i + 1) challengeId "access" "refresh"), .gateway (.consume (i + 1))]

/-- A device is registered, and then another one, which answers with the given credential. -/
def sampleTwo (credential : Json) : List PasskeyMove :=
  sampleAdd 1 "https://hyoui.example.jp/" "jti-1" ++ sampleRegistered 1 "jti-1" "challenge-1" "first" ++
    sampleAdd 2 "https://hyoui.example.jp/" "jti-2" ++ sampleRegistered 3 "jti-2" "challenge-2" credential

/-- The live credentials of the endpoint, by `sub` and id. -/
def liveIds (s : Passkeys) : List (String × List UInt8) :=
  (s.auth.liveCredentials "https://hyoui.example.jp/").map fun r => (r.sub, r.credentialId)

theorem twoDevices_init : twoDevices.Reachable {} := .init rfl

/-- Two devices with an id each. -/
theorem credential_ids_unique_two : ∃ steps s, twoDevices.Trace steps s ∧
    liveIds s = [("hyoui.example.jp-1", [1]), ("hyoui.example.jp-2", [2])] ∧
    ∀ t ∈ steps, UniqueIds t.2.2.auth ∧ KeepsOthers t.1 t.2.1 t.2.2 := by
  have hinit : twoDevices.Reach NewId {} := .init rfl
  obtain ⟨s, hr, hs⟩ := hinit.exists_run (sampleTwo "second")
    (p := fun s => liveIds s = [("hyoui.example.jp-1", [1]), ("hyoui.example.jp-2", [2])]) (by decide +kernel)
  obtain ⟨steps, hsteps, hnew⟩ := hr.trace_ok
  exact ⟨steps, s, hsteps, hs, (credential_ids_unique twoInvitations sampleAssertions hsteps).2 hnew⟩

/-- The second device answers with the id of the first: its record is live, and never found. -/
theorem credential_id_shared : ∃ s, twoDevices.Reachable s ∧
    liveIds s = [("hyoui.example.jp-1", [1]), ("hyoui.example.jp-2", [1])] ∧
    (s.auth.findLiveCredential "https://hyoui.example.jp/" [1]).map (·.1) = some "hyoui.example.jp-1" ∧
    ¬ UniqueIds s.auth := by
  obtain ⟨s, hr, hs⟩ := twoDevices_init.exists_run (sampleTwo "first")
    (p := fun s => liveIds s = [("hyoui.example.jp-1", [1]), ("hyoui.example.jp-2", [1])] ∧
      (s.auth.findLiveCredential "https://hyoui.example.jp/" [1]).map (·.1) = some "hyoui.example.jp-1" ∧
      (findIn (s.auth.entries "https://hyoui.example.jp/").reverse [1]).map (·.1) = some "hyoui.example.jp-2")
    (by decide +kernel)
  refine ⟨s, hr, hs.1, hs.2.1, fun hunique => ?_⟩
  have horder := hunique.order (List.reverse_perm (s.auth.entries "https://hyoui.example.jp/")) [1]
  have hboth := hs.2.2
  rw [horder, hs.2.1] at hboth
  exact absurd hboth (by decide)

end Hyoui.Auth
