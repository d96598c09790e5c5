import Mathlib.Data.List.Perm.Subperm
import Hyoui.Auth.Invitation
import Hyoui.Auth.Token
import Hyoui.Web.Endpoint
/-!
# The passkeys of a state directory

`hyoui web passkey` next to the gateways: `add` names a `sub` and issues a registration, browsers complete
registrations and sign in, `remove` revokes a `sub`. Every credential record and every session comes from a
registration that was issued, for the same endpoint, `sub` and user handle.
-/

namespace Hyoui.Auth

open Hyoui.Lib
open Std (TreeMap)

/-! ## Names -/

/-- `<host>-<n>` -/
def subName (endpoint : Endpoint) (n : Nat) : String :=
  .ofList (Web.Endpoint.rpId endpoint.toList ++ '-' :: Nat.toDigits 10 n)

/-- Endpoints with one host, which may differ in the port and the path. -/
def SameHost (a b : Endpoint) : Prop := Web.Endpoint.rpId a.toList = Web.Endpoint.rpId b.toList

instance (a b : Endpoint) : Decidable (SameHost a b) := inferInstanceAs (Decidable (_ = _))

/-- The first number from `n` on that is not taken, looked for among so many. -/
def firstFree (taken : Nat → Bool) : Nat → Nat → Nat
  | 0, n => n
  | fuel + 1, n => if taken n then firstFree taken fuel (n + 1) else n

theorem subName_inj {a b : Endpoint} {n m : Nat} : subName a n = subName b m ↔ SameHost a b ∧ n = m := by
  have hdigits : ∀ n, '-' ∉ Nat.toDigits 10 n := by
    intro n hmem
    have hdigit := Nat.isDigit_of_mem_toDigits (by decide) (by decide) hmem
    exact absurd hdigit (by decide)
  constructor
  · intro h
    have hcut := Token.rsplitOnce_of_notMem (hdigits n) (Web.Endpoint.rpId a.toList)
    rw [String.ofList_inj.1 h, Token.rsplitOnce_of_notMem (hdigits m)] at hcut
    obtain ⟨hhost, hnumber⟩ := Prod.mk.inj (Option.some.inj hcut)
    refine ⟨hhost.symm, ?_⟩
    rw [← Nat.ofDigitChars_ten_toDigits (n := n), ← Nat.ofDigitChars_ten_toDigits (n := m), hnumber]
  · rintro ⟨hhost, rfl⟩
    rw [subName, subName, hhost]

theorem firstFree_spec (taken : Nat → Bool) (fuel n : Nat) :
    n ≤ firstFree taken fuel n ∧ (∀ m, n ≤ m → m < firstFree taken fuel n → taken m = true) ∧
      (taken (firstFree taken fuel n) = false ∨ firstFree taken fuel n = n + fuel) := by
  induction fuel generalizing n with
  | zero => exact ⟨le_refl _, fun m hle hlt => absurd hlt (Nat.not_lt.2 hle), .inr rfl⟩
  | succ fuel ih =>
    rw [firstFree]
    split <;> rename_i htaken
    · obtain ⟨hle, hbelow, hfree⟩ := ih (n + 1)
      refine ⟨by omega, fun m hle hlt => ?_, hfree.imp_right fun h => by omega⟩
      rcases Nat.eq_or_lt_of_le hle with rfl | hle
      · exact htaken
      · exact hbelow m hle hlt
    · exact ⟨le_refl _, fun m hle hlt => absurd hlt (Nat.not_lt.2 hle), .inl (Bool.not_eq_true _ ▸ htaken)⟩

/-! ## The credentials of the file -/

namespace AuthFile

/-- The credentials of an endpoint, by `sub` and credential id. -/
def subs (file : AuthFile) (endpoint : Endpoint) : Nested String String CredentialRecord :=
  file.credentials.getD endpoint ∅

/-- The name has been used under the endpoint, be it for revoked credentials. -/
def hasSub (file : AuthFile) (endpoint : Endpoint) (sub : String) : Bool := (file.subs endpoint).contains sub

/-- The name for the next registration of an endpoint. -/
def nextSub (file : AuthFile) (endpoint : Endpoint) : String :=
  subName endpoint (firstFree (fun n => file.hasSub endpoint (subName endpoint n)) (file.subs endpoint).size 1)

/-- The credentials of an endpoint with their keys, in the order of the keys. -/
def entries (file : AuthFile) (endpoint : Endpoint) : List (String × String × CredentialRecord) :=
  (file.subs endpoint).toList.flatMap fun (sub, records) => records.toList.map fun (id, record) => (sub, id, record)

def findLiveCredential (file : AuthFile) (endpoint : Endpoint) (presented : List UInt8) :
    Option (String × String × CredentialRecord) :=
  (file.entries endpoint).find? fun (_, _, record) =>
    !record.isTombstoned && constantTimeEq record.credentialId presented

/-- Writes to a stored record in place. -/
def setCredential (file : AuthFile) (endpoint : Endpoint) (sub id : String) (record : CredentialRecord) : AuthFile :=
  { file with credentials := file.credentials.modify endpoint fun subs => subs.modify sub fun records =>
      records.modify id fun _ => record }

variable {file : AuthFile} {endpoint endpoint' : Endpoint} {sub sub' id id' : String} {nowMs : Nat}

theorem credential_eq_look : file.credential endpoint sub id = (file.subs endpoint).look sub id := by
  rw [credential, subs, TreeMap.getD_eq_getD_getElem?]
  cases file.credentials[endpoint]? <;> simp [Nested.look]

theorem hasSub_eq : file.hasSub endpoint sub = (file.credentials[endpoint]?).any (·.contains sub) := by
  rw [hasSub, subs, TreeMap.getD_eq_getD_getElem?]
  cases file.credentials[endpoint]? <;> simp

theorem credential_insertCredential {record : CredentialRecord} :
    (file.insertCredential endpoint record).credential endpoint' sub id =
      if endpoint = endpoint' ∧ record.sub = sub ∧ base64url record.credentialId = id then some record
      else file.credential endpoint' sub id := by
  by_cases he : endpoint = endpoint'
  · subst he
    have hput : (file.insertCredential endpoint record).subs endpoint =
        (file.subs endpoint).put record.sub (base64url record.credentialId) record := by
      simp [subs, insertCredential, Nested.put]
    rw [credential_eq_look, hput, Nested.look_put, credential_eq_look]
    simp only [true_and]
  · have hother : (file.insertCredential endpoint record).subs endpoint' = file.subs endpoint' := by
      simp [subs, insertCredential, TreeMap.getD_insert, he]
    rw [credential_eq_look, hother, ← credential_eq_look]
    simp only [he, false_and, if_false]

theorem hasSub_insertCredential {record : CredentialRecord} :
    (file.insertCredential endpoint record).hasSub endpoint' sub = true ↔
      endpoint = endpoint' ∧ record.sub = sub ∨ file.hasSub endpoint' sub = true := by
  by_cases he : endpoint = endpoint'
  · subst he
    simp [hasSub, subs, insertCredential]
  · simp [hasSub, subs, insertCredential, TreeMap.getD_insert, he]

theorem credential_tombstoneSub : (file.tombstoneSub sub nowMs).1.credential endpoint sub' id =
    (file.credential endpoint sub' id).map fun record =>
      if sub' = sub ∧ !record.isTombstoned then { record with tombstonedAtMs := some nowMs } else record := by
  simp only [credential, tombstoneSub, TreeMap.getElem?_map]
  cases file.credentials[endpoint]? with
  | none => rfl
  | some subs =>
    simp only [Option.map_some, Option.bind_some, TreeMap.getElem?_modify, Std.compare_eq_iff_eq]
    by_cases hs : sub = sub'
    · subst hs
      cases hrecords : subs[sub]? with
      | none => simp
      | some records =>
        cases hrecord : records[id]? with
        | none => simp [TreeMap.getElem?_map, hrecord]
        | some record => cases hlive : record.isTombstoned <;> simp [TreeMap.getElem?_map, hrecord, hlive]
    · cases subs[sub']? <;> simp [hs, Ne.symm hs]

theorem hasSub_tombstoneSub : (file.tombstoneSub sub nowMs).1.hasSub endpoint sub' = file.hasSub endpoint sub' := by
  simp only [hasSub_eq, tombstoneSub, TreeMap.getElem?_map]
  cases file.credentials[endpoint]? <;> simp [TreeMap.contains_modify]

theorem credential_setCredential {record : CredentialRecord} :
    (file.setCredential endpoint sub id record).credential endpoint' sub' id' =
      if endpoint = endpoint' ∧ sub = sub' ∧ id = id' then (file.credential endpoint' sub' id').map fun _ => record
      else file.credential endpoint' sub' id' := by
  simp only [credential, setCredential, TreeMap.getElem?_modify, Std.compare_eq_iff_eq]
  by_cases he : endpoint = endpoint'
  · subst he
    cases file.credentials[endpoint]? with
    | none => simp
    | some subs =>
      simp only [if_true, Option.map_some, Option.bind_some, TreeMap.getElem?_modify, Std.compare_eq_iff_eq]
      by_cases hs : sub = sub'
      · subst hs
        by_cases hi : id = id'
        · subst hi
          cases subs[sub]? <;> simp
        · cases subs[sub]? <;> simp [TreeMap.getElem?_modify, hi]
      · simp [hs]
  · simp [he]

theorem hasSub_setCredential {record : CredentialRecord} :
    (file.setCredential endpoint sub id record).hasSub endpoint' sub' = file.hasSub endpoint' sub' := by
  simp only [hasSub_eq, setCredential, TreeMap.getElem?_modify, Std.compare_eq_iff_eq]
  split
  · rename_i he
    subst he
    cases file.credentials[endpoint]? <;> simp [TreeMap.contains_modify]
  · rfl

/-- The next name is free, and all with a smaller number are taken. -/
theorem nextSub_spec (file : AuthFile) (endpoint : Endpoint) : ∃ n, 1 ≤ n ∧ file.nextSub endpoint = subName endpoint n ∧
    file.hasSub endpoint (subName endpoint n) = false ∧
    ∀ m, 1 ≤ m → m < n → file.hasSub endpoint (subName endpoint m) = true := by
  obtain ⟨hle, hbelow, hfree⟩ :=
    firstFree_spec (fun n => file.hasSub endpoint (subName endpoint n)) (file.subs endpoint).size 1
  refine ⟨_, hle, rfl, ?_, hbelow⟩
  rcases hfree with hfree | hlast
  · exact hfree
  · -- One name more than there are keys: they cannot all be taken.
    rw [hlast] at hbelow ⊢
    by_contra htaken
    have hnames : ((List.range' 1 ((file.subs endpoint).size + 1)).map (subName endpoint)).Subperm
        (file.subs endpoint).keys := by
      refine List.Nodup.subperm (List.Nodup.map (fun a b h => (subName_inj.1 h).2) List.nodup_range') ?_
      intro name hname
      obtain ⟨m, hm, rfl⟩ := List.mem_map.1 hname
      rw [List.mem_range'_1] at hm
      rw [TreeMap.mem_keys, ← TreeMap.contains_iff_mem]
      rcases Nat.lt_or_ge m (1 + (file.subs endpoint).size) with hlt | hge
      · exact hbelow m hm.1 hlt
      · obtain rfl : m = 1 + (file.subs endpoint).size := by omega
        simpa [hasSub] using htaken
    have hlength := hnames.length_le
    rw [List.length_map, List.length_range', TreeMap.length_keys] at hlength
    omega

theorem mem_entries {record : CredentialRecord} :
    (sub, id, record) ∈ file.entries endpoint ↔ file.credential endpoint sub id = some record := by
  simp only [entries, List.mem_flatMap, List.mem_map, credential_eq_look, Nested.look_eq_some]
  constructor
  · rintro ⟨⟨sub, records⟩, hsub, ⟨id, record⟩, hid, heq⟩
    simp only [Prod.mk.injEq] at heq
    obtain ⟨rfl, rfl, rfl⟩ := heq
    exact ⟨records, TreeMap.mem_toList_iff_getElem?_eq_some.1 hsub, TreeMap.mem_toList_iff_getElem?_eq_some.1 hid⟩
  · rintro ⟨records, hsub, hid⟩
    exact ⟨(sub, records), TreeMap.mem_toList_iff_getElem?_eq_some.2 hsub, (id, record),
      TreeMap.mem_toList_iff_getElem?_eq_some.2 hid, rfl⟩

theorem findLiveCredential_some {presented : List UInt8} {record : CredentialRecord}
    (h : file.findLiveCredential endpoint presented = some (sub, id, record)) :
    file.credential endpoint sub id = some record ∧ record.isTombstoned = false ∧ record.credentialId = presented := by
  refine ⟨mem_entries.1 (List.mem_of_find?_eq_some h), ?_⟩
  simpa [constantTimeEq_iff] using List.find?_some h

end AuthFile

/-! ## Signing in with a passkey -/

/-- What the WebAuthn crate says of a verified assertion. -/
structure AuthenticationResult where
  counter : Nat
  backupEligible : Bool
  backupState : Bool
  needsUpdate : Bool
  deriving DecidableEq, Repr

/-- The response of `get()`. What only the crate reads is kept as it came. -/
structure PublicKeyCredential where
  rawId : List UInt8
  userHandle : Option (List UInt8)
  response : Json
  deriving DecidableEq, Repr

structure AssertRequest where
  endpoint : Endpoint
  challengeId : String
  credential : PublicKeyCredential
  deriving DecidableEq, Repr

/-- What `/auth/assert` asks of the WebAuthn crate. -/
structure Assertions where
  /-- Whether a stored state reads back. -/
  authenticationState : Json → Except String Unit
  authenticateCredential : Endpoint → PublicKeyCredential → Json → Except String AuthenticationResult

/-- Notes in the record that an authentication has passed. -/
def CredentialRecord.recordUse (record : CredentialRecord) (result : AuthenticationResult) (nowMs : Nat)
    (userAgent : Option String) : CredentialRecord :=
  { record with
    signCount := result.counter
    backupEligible := result.backupEligible
    backupState := result.backupState
    lastUsedAtMs := some nowMs
    lastUsedUserAgent := userAgent
    credential :=
      if result.needsUpdate then
        { record.credential with
          counter := result.counter
          backupEligible := result.backupEligible
          backupState := result.backupState }
      else
        record.credential }

theorem CredentialRecord.recordUse_credentialId (record : CredentialRecord) {result : AuthenticationResult}
    {nowMs : Nat} {userAgent : Option String} :
    (record.recordUse result nowMs userAgent).credentialId = record.credentialId := by
  simp only [recordUse, credentialId]
  split <;> rfl

section Assert

variable (A : Assertions)

def userHandleMismatch : String := "assertion user handle does not match the record"

def finishAuthentication (endpoint : Endpoint) (response : PublicKeyCredential) (state : Json)
    (expectedUserId : List UInt8) : Except String AuthenticationResult :=
  match response.userHandle with
  | none => .error userHandleMismatch
  | some presented =>
    if constantTimeEq presented expectedUserId then A.authenticateCredential endpoint response state
    else .error userHandleMismatch

/-- The first update of `/auth/assert`: the challenge is consumed. -/
def consumeAssertion (pending : PendingFile) (request : AssertRequest) (nowMs : Nat) :
    PendingFile × Except AuthFailure Json :=
  let (pending, consumed) := pending.consumeChallenge request.endpoint request.challengeId .assert nowMs
  (pending.sweepExpired nowMs,
    match consumed with
    | none => .error (.denied "no assert challenge with that id")
    | some challenge =>
      match A.authenticationState challenge.state with
      | .error reason => .error (.denied s!"stored authentication state: {reason}")
      | .ok () => .ok challenge.state)

/-- The second update of `/auth/assert`: the record of the presented id, and a session for its `sub`. -/
def assertCredential (file : AuthFile) (request : AssertRequest) (state : Json) (userAgent : Option String)
    (id access refresh : String) (nowMs : Nat) : AuthFile × Except AuthFailure MintedSession :=
  match file.findLiveCredential request.endpoint request.credential.rawId with
  | none => (file, .error (.denied "no credential with that id"))
  | some (sub, key, record) =>
    match finishAuthentication A request.endpoint request.credential state record.userId with
    | .error reason => (file, .error (.denied reason))
    | .ok result =>
      let used := file.setCredential request.endpoint sub key (record.recordUse result nowMs userAgent)
      let (file, minted) := mint used request.endpoint record.sub id access refresh nowMs
      (file, .ok minted)

end Assert

/-! ## The runs -/

/-- `passkey add` between reading `auth.json` and writing `pending.json`. -/
structure Adding where
  endpoint : Endpoint
  label : Option String
  nowMs : Nat
  existing : AuthFile

/-- An assert request that has consumed its challenge. -/
structure Asserting where
  request : AssertRequest
  userAgent : Option String
  nowMs : Nat
  state : Json

/-- A registration that was issued. -/
structure Issued where
  endpoint : Endpoint
  sub : String
  userId : List UInt8
  deriving DecidableEq, Repr

/-- The files and the gateways, the commands and the assert requests under way. Noted besides: the
registrations issued, and for each session the user handle of the credential it was minted with. -/
structure Passkeys where
  registrar : Registrar := {}
  adding : Nat → Option Adding := fun _ => none
  asserting : Nat → Option Asserting := fun _ => none
  issued : List Issued := []
  owner : Endpoint → String → Option (List UInt8) := fun _ _ => none

/-- What happens: a command reads `auth.json`, or issues the registration it has named; a gateway makes a
move of a registration; an assertion consumes its challenge, or signs in; a session is refreshed; a `sub` or
a session is removed. Commands and requests that stop on the way make no more moves. -/
inductive PasskeyMove
  | read (i : Nat) (endpoint : Endpoint) (label : Option String) (nowMs : Nat)
  | issue (i : Nat) (jti : String) (userId secret : List UInt8) (codeHash : String)
  | gateway (move : RegistrarMove)
  | consume (i : Nat) (request : AssertRequest) (userAgent : Option String) (nowMs : Nat)
  | signIn (i : Nat) (id access refresh : String)
  | refresh (endpoint : Endpoint) (presented newRefresh newAccess : String) (nowMs : Nat)
  | remove (sub : String) (nowMs : Nat)
  | sessionRemove (id : String) (nowMs : Nat)
  deriving DecidableEq, Repr

namespace Passkeys

abbrev auth (s : Passkeys) : AuthFile := s.registrar.auth

def setAuth (s : Passkeys) (auth : AuthFile) : Passkeys := { s with registrar := { s.registrar with auth } }

def setAdding (s : Passkeys) (i : Nat) (command : Option Adding) : Passkeys :=
  { s with adding := fun j => if j = i then command else s.adding j }

def setAsserting (s : Passkeys) (i : Nat) (request : Option Asserting) : Passkeys :=
  { s with asserting := fun j => if j = i then request else s.asserting j }

def setOwner (s : Passkeys) (endpoint : Endpoint) (id : String) (userId : List UInt8) : Passkeys :=
  { s with owner := fun e i => if e = endpoint ∧ i = id then some userId else s.owner e i }

end Passkeys

/-- The registration a command issues. -/
def Adding.registration (command : Adding) (jti : String) (userId secret : List UInt8) (codeHash : String) :
    PendingRegistration :=
  { jti
    sub := command.existing.nextSub command.endpoint
    userId
    access := .rw
    hmacSecret := secret
    codeHash
    codeAttempts := 0
    issuedLabel := command.label
    expiresAtMs := command.nowMs + registrationTtlMs }

/-- The runs. A user handle is drawn once. -/
def passkeys (W : Ceremony) (A : Assertions) : System Passkeys PasskeyMove where
  init s := s = {}
  step s
    | .read i endpoint label nowMs =>
      match s.adding i with
      | some _ => none
      | none => some (s.setAdding i (some ⟨endpoint, label, nowMs, s.auth⟩))
    | .issue i jti userId secret codeHash =>
      match s.adding i with
      | none => none
      | some command =>
        if ∀ x ∈ s.issued, x.userId ≠ userId then
          let registration := command.registration jti userId secret codeHash
          ((registrar W).step s.registrar (.add command.endpoint registration command.nowMs)).map fun registrar =>
            { s.setAdding i none with
              registrar
              issued := ⟨command.endpoint, registration.sub, userId⟩ :: s.issued }
        else
          none
    | .gateway move =>
      match move with
      | .add _ _ _ => none
      | .store i id _ _ =>
        ((registrar W).step s.registrar move).map fun registrar =>
          let s' := match s.registrar.phase i with
            | .verified r _ => s.setOwner r.request.endpoint id r.accepted.userId
            | _ => s
          { s' with registrar }
      | _ => ((registrar W).step s.registrar move).map fun registrar => { s with registrar }
    | .consume i request userAgent nowMs =>
      match s.asserting i, W.forEndpoint request.endpoint with
      | none, .ok () =>
        let (pending, outcome) := consumeAssertion A s.registrar.pending request nowMs
        let s' := match outcome with
          | .error _ => s
          | .ok state => s.setAsserting i (some ⟨request, userAgent, nowMs, state⟩)
        some { s' with registrar := { s.registrar with pending } }
      | _, _ => none
    | .signIn i id access refresh =>
      match s.asserting i with
      | none => none
      | some r =>
        let (auth, outcome) := assertCredential A s.auth r.request r.state r.userAgent id access refresh r.nowMs
        let s' := match outcome, s.auth.findLiveCredential r.request.endpoint r.request.credential.rawId with
          | .ok _, some (_, _, record) => s.setOwner r.request.endpoint id record.userId
          | _, _ => s
        some ((s'.setAsserting i none).setAuth auth)
    | .refresh endpoint presented newRefresh newAccess nowMs =>
      some (s.setAuth (refreshBlocking W.sha256Hex s.auth endpoint presented newRefresh newAccess nowMs).1)
    | .remove sub nowMs => some (s.setAuth (s.auth.tombstoneSub sub nowMs).1)
    | .sessionRemove id nowMs => some (s.setAuth (s.auth.sessionRemove id nowMs).1)

/-! ## Everything comes from a registration that was issued -/

section Check

variable {W : Ceremony} {pending : PendingFile} {request : RegisterRequest} {jti : String} {nowMs : Nat}

/-- What a check hands on is what was issued. -/
theorem checkRegistration_accepted {accepted : AcceptedRegistration}
    (h : (checkRegistration W pending request jti nowMs).2 = .ok accepted) :
    accepted.jti = jti ∧ ∃ r, pending.registration request.endpoint jti = some r ∧
      accepted.sub = r.sub ∧ accepted.userId = r.userId := by
  simp only [checkRegistration] at h
  cases hfind : findRegistration W (pending.sweepExpired nowMs) request jti nowMs with
  | error e =>
    rw [hfind] at h
    cases h
  | ok r =>
    have hr := findRegistration_some hfind
    rw [PendingFile.registration_sweepExpired] at hr
    have hstored := (Option.filter_eq_some_iff.1 hr).1
    simp only [hfind, checkCode_eq] at h
    by_cases hcode : r.holdsCode W.sha256Hex request.code = true
    · simp only [hcode, if_true] at h
      split at h
      · cases h
      · split at h <;> cases h
        exact ⟨rfl, r, hstored, rfl, rfl⟩
    · by_cases hlt : r.codeAttempts + 1 < codeAttemptLimit
      · simp only [hcode, hlt, if_false, if_true, Bool.false_eq_true] at h
        cases h
      · simp only [hcode, hlt, if_false, Bool.false_eq_true] at h
        cases h

end Check

/-- A file's registrations come, but for the attempts, from those of an earlier one. -/
def PendingFile.ComesFrom (pending earlier : PendingFile) : Prop :=
  ∀ endpoint jti r, pending.registration endpoint jti = some r →
    ∃ r', earlier.registration endpoint jti = some r' ∧ r.sub = r'.sub ∧ r.userId = r'.userId

namespace PendingFile.ComesFrom

variable {pending earlier : PendingFile} {endpoint : Endpoint} {jti : String}

theorem refl : pending.ComesFrom pending := fun _ _ r hr => ⟨r, hr, rfl, rfl⟩

theorem sweep (h : pending.ComesFrom earlier) (nowMs : Nat) : (pending.sweepExpired nowMs).ComesFrom earlier := by
  intro endpoint jti r hr
  rw [PendingFile.registration_sweepExpired] at hr
  exact h _ _ _ (Option.filter_eq_some_iff.1 hr).1

theorem remove (h : pending.ComesFrom earlier) : (pending.removeRegistration endpoint jti).ComesFrom earlier := by
  intro endpoint' jti' r hr
  rw [PendingFile.registration_removeRegistration] at hr
  split at hr
  · cases hr
  · exact h _ _ _ hr

theorem consume (h : pending.ComesFrom earlier) {id : String} {purpose : ChallengePurpose} {nowMs : Nat} :
    (pending.consumeChallenge endpoint id purpose nowMs).1.ComesFrom earlier := by
  intro endpoint' jti' r hr
  rw [PendingFile.registration_consumeChallenge] at hr
  exact h _ _ _ hr

/-- The attempts of a registration are counted. -/
theorem count (h : pending.ComesFrom earlier) {r : PendingRegistration} {attempts : Nat}
    (hr : pending.registration endpoint jti = some r) :
    (pending.insertRegistration endpoint jti { r with codeAttempts := attempts }).ComesFrom earlier := by
  intro endpoint' jti' r' hr'
  rw [PendingFile.registration_insertRegistration] at hr'
  split at hr'
  · rename_i he
    obtain ⟨rfl, rfl⟩ := he
    obtain rfl := Option.some.inj hr'
    obtain ⟨r', hr', hsub, huserId⟩ := h _ _ _ hr
    exact ⟨r', hr', hsub, huserId⟩
  · exact h _ _ _ hr'

theorem check (W : Ceremony) (pending : PendingFile) (request : RegisterRequest) (jti : String) (nowMs : Nat) :
    (checkRegistration W pending request jti nowMs).1.ComesFrom pending := by
  have hswept : (pending.sweepExpired nowMs).ComesFrom pending := refl.sweep nowMs
  have hchecked := checkRegistration_checked W pending request jti nowMs
  generalize (checkRegistration W pending request jti nowMs).1 = checked at hchecked ⊢
  generalize (checkRegistration W pending request jti nowMs).2 = outcome at hchecked
  generalize wrongCode W pending request jti nowMs = wrong at hchecked
  generalize burns W pending request jti nowMs = burned at hchecked
  cases hchecked with
  | refused => exact hswept
  | rejected hr => exact hswept.count hr
  | burned => exact hswept.remove
  | accepted => exact hswept

end PendingFile.ComesFrom

/-- What a gateway's move does to the files and the requests, as far as it concerns names and handles. -/
structure GatewayMoved (s : Registrar) (move : RegistrarMove) (s' : Registrar) : Prop where
  pending : s'.pending.ComesFrom s.pending
  phase : ∀ i r, (s'.phase i).registering = some r → (s.phase i).registering = some r ∨
    ∃ p, s.pending.registration r.request.endpoint r.jti = some p ∧
      r.accepted.sub = p.sub ∧ r.accepted.userId = p.userId
  auth : (∀ i id access refresh, move ≠ .store i id access refresh) → s'.auth = s.auth
  store : ∀ {i id access refresh}, move = .store i id access refresh →
    ∃ r credential, s.phase i = .verified r credential ∧ s'.auth = (mint (s.auth.insertCredential r.request.endpoint
        (registeredCredential r.request r.accepted credential r.userAgent r.nowMs))
      r.request.endpoint r.accepted.sub id access refresh r.nowMs).1

theorem gateway_moved {W : Ceremony} {s s' : Registrar} {move : RegistrarMove}
    (hstep : (registrar W).step s move = some s')
    (hmove : ∀ endpoint registration nowMs, move ≠ .add endpoint registration nowMs) : GatewayMoved s move s' := by
  have hkept : ∀ {i r} {phase : Phase}, phase.registering = none ∨ phase.registering = (s.phase i).registering →
      ∀ j, ((s.setPhase i phase).phase j).registering = some r → (s.phase j).registering = some r := by
    intro i r phase hphase j hj
    by_cases hji : j = i
    · subst hji
      rw [setPhase_self] at hj
      rcases hphase with hnone | hsame
      · rw [hnone] at hj
        cases hj
      · rwa [hsame] at hj
    · rwa [setPhase_ne hji] at hj
  cases move with
  | add endpoint registration nowMs => exact absurd rfl (hmove endpoint registration nowMs)
  | challenge i request challengeId nowMs =>
    simp only [registrar] at hstep
    split at hstep
    · split at hstep <;> obtain rfl := Option.some.inj hstep
      · exact ⟨.refl, fun j r hj => .inl (hkept (.inl rfl) j hj), fun _ => rfl, fun h => by cases h⟩
      · exact ⟨.refl, fun j r hj => .inl (hkept (.inl rfl) j hj), fun _ => rfl, fun h => by cases h⟩
    · cases hstep
  | offer i =>
    simp only [registrar] at hstep
    split at hstep
    · obtain rfl := Option.some.inj hstep
      refine ⟨?_, fun j r hj => .inl (hkept (.inl rfl) j hj), fun _ => rfl, fun h => by cases h⟩
      exact PendingFile.ComesFrom.refl.sweep _
    · cases hstep
  | register i request userAgent nowMs =>
    simp only [registrar] at hstep
    split at hstep
    · split at hstep
      · rename_i jti _ _
        obtain rfl := Option.some.inj hstep
        refine ⟨.check W s.pending request jti nowMs, fun j r hj => ?_, fun _ => rfl, fun h => by cases h⟩
        cases houtcome : (checkRegistration W s.pending request jti nowMs).2 with
        | error e =>
          rw [houtcome] at hj
          exact .inl (hkept (.inl rfl) j hj)
        | ok accepted =>
          rw [houtcome] at hj
          by_cases hji : j = i
          · subst hji
            simp only [setPhase_self] at hj
            obtain rfl := Option.some.inj hj
            obtain ⟨hjti, p, hp, hsub, huserId⟩ := checkRegistration_accepted houtcome
            refine .inr ⟨p, ?_, hsub, huserId⟩
            simp only [Registering.jti, hjti]
            exact hp
          · exact .inl (by simpa only [setPhase_ne hji] using hj)
      · obtain rfl := Option.some.inj hstep
        exact ⟨.refl, fun j r hj => .inl (hkept (.inl rfl) j hj), fun _ => rfl, fun h => by cases h⟩
    · cases hstep
  | verify i =>
    simp only [registrar] at hstep
    split at hstep
    · rename_i hphase
      split at hstep <;> obtain rfl := Option.some.inj hstep
      · exact ⟨.refl, fun j r hj => .inl (hkept (.inl rfl) j hj), fun _ => rfl, fun h => by cases h⟩
      · refine ⟨.refl, fun j r hj => .inl (hkept (.inr ?_) j hj), fun _ => rfl, fun h => by cases h⟩
        rw [hphase]
        rfl
    · cases hstep
  | store i id access refresh =>
    simp only [registrar] at hstep
    split at hstep
    · rename_i r credential hphase
      obtain rfl := Option.some.inj hstep
      refine ⟨.refl, fun j r hj => .inl (hkept (.inr ?_) j hj), fun h => absurd rfl (h i id access refresh), ?_⟩
      · rw [hphase]
        rfl
      · intro i' id' access' refresh' h
        cases h
        exact ⟨r, credential, hphase, rfl⟩
    · cases hstep
  | consume i =>
    simp only [registrar] at hstep
    split at hstep
    · obtain rfl := Option.some.inj hstep
      refine ⟨?_, fun j r hj => .inl (hkept (.inl rfl) j hj), fun _ => rfl, fun h => by cases h⟩
      exact PendingFile.ComesFrom.refl.remove.consume.sweep _
    · cases hstep
  | stop i =>
    simp only [registrar, Option.some.injEq] at hstep
    subst hstep
    exact ⟨.refl, fun j r hj => .inl (hkept (.inl rfl) j hj), fun _ => rfl, fun h => by cases h⟩

/-! ### The files -/

/-- The credentials of a file are those of issued registrations, under the keys they belong to. -/
structure Sourced (issued : List Issued) (file : AuthFile) : Prop where
  record : ∀ {endpoint sub id r}, file.credential endpoint sub id = some r →
    r.sub = sub ∧ base64url r.credentialId = id ∧ ⟨endpoint, sub, r.userId⟩ ∈ issued
  sub : ∀ {endpoint sub}, file.hasSub endpoint sub = true → ∃ userId, ⟨endpoint, sub, userId⟩ ∈ issued

/-- So are the sessions, each with the handle that is noted of it. -/
def Owned (issued : List Issued) (owner : Endpoint → String → Option (List UInt8)) (file : AuthFile) : Prop :=
  ∀ endpoint id family, file.family endpoint id = some family →
    ∃ userId, owner endpoint id = some userId ∧ ⟨endpoint, family.sub, userId⟩ ∈ issued

section Files

variable {issued issued' : List Issued} {file file' : AuthFile} {owner : Endpoint → String → Option (List UInt8)}
  {endpoint : Endpoint} {sub id : String} {nowMs : Nat}

theorem Sourced.mono (h : Sourced issued file) (hissued : issued ⊆ issued') : Sourced issued' file where
  record hr := (h.record hr).imp id fun hr => hr.imp id fun hmem => hissued hmem
  sub hsub := (h.sub hsub).imp fun _ hmem => hissued hmem

theorem Sourced.families (h : Sourced issued file) (hcredentials : file'.credentials = file.credentials) :
    Sourced issued file' where
  record hr := by
    rw [AuthFile.credential, hcredentials] at hr
    exact h.record hr
  sub hsub := by
    rw [AuthFile.hasSub, AuthFile.subs, hcredentials] at hsub
    exact h.sub hsub

theorem Sourced.insert (h : Sourced issued file) {record : CredentialRecord}
    (hissued : ⟨endpoint, record.sub, record.userId⟩ ∈ issued) :
    Sourced issued (file.insertCredential endpoint record) where
  record hr := by
    rw [AuthFile.credential_insertCredential] at hr
    split at hr
    · rename_i hkey
      obtain ⟨rfl, rfl, rfl⟩ := hkey
      obtain rfl := Option.some.inj hr
      exact ⟨rfl, rfl, hissued⟩
    · exact h.record hr
  sub hsub := by
    rcases AuthFile.hasSub_insertCredential.1 hsub with ⟨rfl, rfl⟩ | hsub
    · exact ⟨_, hissued⟩
    · exact h.sub hsub

theorem Sourced.set (h : Sourced issued file) {record record' : CredentialRecord}
    (hr : file.credential endpoint sub id = some record)
    (hsame : record'.sub = record.sub ∧ record'.credentialId = record.credentialId ∧ record'.userId = record.userId) :
    Sourced issued (file.setCredential endpoint sub id record') where
  record hr' := by
    rw [AuthFile.credential_setCredential] at hr'
    split at hr'
    · rename_i hkey
      obtain ⟨rfl, rfl, rfl⟩ := hkey
      rw [hr] at hr'
      obtain rfl := Option.some.inj hr'
      rw [hsame.1, hsame.2.1, hsame.2.2]
      exact h.record hr
    · exact h.record hr'
  sub hsub := by
    rw [AuthFile.hasSub_setCredential] at hsub
    exact h.sub hsub

theorem Sourced.tombstoneSub (h : Sourced issued file) : Sourced issued (file.tombstoneSub sub nowMs).1 where
  record hr := by
    rw [AuthFile.credential_tombstoneSub] at hr
    obtain ⟨r, hold, rfl⟩ := Option.map_eq_some_iff.1 hr
    have hrecord := h.record hold
    split
    · exact hrecord
    · exact hrecord
  sub hsub := by
    rw [AuthFile.hasSub_tombstoneSub] at hsub
    exact h.sub hsub

theorem Owned.mono (h : Owned issued owner file) (hissued : issued ⊆ issued') : Owned issued' owner file :=
  fun _ _ _ hf => (h _ _ _ hf).imp fun _ hfound => hfound.imp id fun hmem => hissued hmem

/-- A change that makes no sessions and keeps their subs. -/
theorem Owned.keep (h : Owned issued owner file)
    (hkeep : ∀ endpoint id f', file'.family endpoint id = some f' →
      ∃ f, file.family endpoint id = some f ∧ f'.sub = f.sub) :
    Owned issued owner file' := by
  intro endpoint id f' hf'
  obtain ⟨f, hf, hsub⟩ := hkeep endpoint id f' hf'
  rw [hsub]
  exact h endpoint id f hf

theorem Owned.tombstoneSub (h : Owned issued owner file) : Owned issued owner (file.tombstoneSub sub nowMs).1 := by
  refine h.keep fun endpoint id f' hf' => ?_
  rw [AuthFile.family_tombstoneSub] at hf'
  obtain ⟨f, hf, rfl⟩ := Option.map_eq_some_iff.1 hf'
  refine ⟨f, hf, ?_⟩
  split <;> rfl

theorem Owned.sessionRemove (h : Owned issued owner file) : Owned issued owner (file.sessionRemove id nowMs).1 := by
  refine h.keep fun endpoint id f' hf' => ?_
  rw [AuthFile.family_sessionRemove] at hf'
  split at hf'
  · obtain ⟨f, hf, rfl⟩ := Option.map_eq_some_iff.1 hf'
    refine ⟨f, hf, ?_⟩
    split <;> rfl
  · exact ⟨f', hf', rfl⟩

theorem Owned.put_kept (h : Owned issued owner file) {family family' : FamilyRecord}
    (hf : file.family endpoint id = some family) (hsub : family'.sub = family.sub) :
    Owned issued owner (file.putFamily endpoint id family') := by
  refine h.keep fun endpoint' id' f' hf' => ?_
  rw [AuthFile.family_putFamily] at hf'
  split at hf'
  · rename_i hkey
    obtain ⟨rfl, rfl⟩ := hkey
    obtain rfl := Option.some.inj hf'
    exact ⟨family, hf, hsub⟩
  · exact ⟨f', hf', rfl⟩

theorem refreshBlocking_credentials (sha256Hex : List UInt8 → String) (file : AuthFile) (endpoint : Endpoint)
    (presented newRefresh newAccess : String) (nowMs : Nat) :
    (refreshBlocking sha256Hex file endpoint presented newRefresh newAccess nowMs).1.credentials =
      file.credentials := by
  have hrefreshed := refreshBlocking_refreshed sha256Hex file endpoint presented newRefresh newAccess nowMs
  generalize (refreshBlocking sha256Hex file endpoint presented newRefresh newAccess nowMs).1 = file' at hrefreshed ⊢
  generalize (refreshBlocking sha256Hex file endpoint presented newRefresh newAccess nowMs).2 = outcome at hrefreshed
  cases hrefreshed <;> rfl

theorem Owned.refresh (h : Owned issued owner file) (sha256Hex : List UInt8 → String) (endpoint : Endpoint)
    (presented newRefresh newAccess : String) (nowMs : Nat) :
    Owned issued owner (refreshBlocking sha256Hex file endpoint presented newRefresh newAccess nowMs).1 := by
  have hrefreshed := refreshBlocking_refreshed sha256Hex file endpoint presented newRefresh newAccess nowMs
  generalize (refreshBlocking sha256Hex file endpoint presented newRefresh newAccess nowMs).1 = file' at hrefreshed ⊢
  generalize (refreshBlocking sha256Hex file endpoint presented newRefresh newAccess nowMs).2 = outcome at hrefreshed
  cases hrefreshed with
  | unknown | tombstoned | replay | lapsed => exact h
  | current hf => exact h.put_kept hf rfl
  | reused hf => exact h.put_kept hf rfl

theorem Owned.mint (h : Owned issued owner file) {userId : List UInt8} (hissued : ⟨endpoint, sub, userId⟩ ∈ issued)
    (access refresh : String) : Owned issued (fun e i => if e = endpoint ∧ i = id then some userId else owner e i)
      (mint file endpoint sub id access refresh nowMs).1 := by
  intro endpoint' id' family hf
  simp only [Auth.mint, AuthFile.mintFamily, AuthFile.family_putFamily] at hf
  split at hf
  · rename_i hkey
    obtain ⟨rfl, rfl⟩ := hkey
    obtain rfl := Option.some.inj hf
    exact ⟨userId, if_pos ⟨rfl, rfl⟩, hissued⟩
  · rename_i hkey
    obtain ⟨userId', howner, hmem⟩ := h endpoint' id' family hf
    exact ⟨userId', (if_neg fun he => hkey ⟨he.1.symm, he.2.symm⟩).trans howner, hmem⟩

end Files

/-! ### The runs -/

/-- What all runs keep. -/
structure Known (s : Passkeys) : Prop where
  pending : ∀ {endpoint jti r}, s.registrar.pending.registration endpoint jti = some r →
    ⟨endpoint, r.sub, r.userId⟩ ∈ s.issued
  phase : ∀ {i r}, (s.registrar.phase i).registering = some r →
    ⟨r.request.endpoint, r.accepted.sub, r.accepted.userId⟩ ∈ s.issued
  sourced : Sourced s.issued s.auth
  owned : Owned s.issued s.owner s.auth
  seen : ∀ {i command}, s.adding i = some command → ∀ {sub}, command.existing.hasSub command.endpoint sub = true →
    ∃ userId, ⟨command.endpoint, sub, userId⟩ ∈ s.issued
  handles : (s.issued.map (·.userId)).Nodup
  /-- The numbers of an endpoint are given in order, though not each to one registration. -/
  numbered : ∀ x ∈ s.issued, ∃ n, 1 ≤ n ∧ x.sub = subName x.endpoint n ∧
    ∀ m, 1 ≤ m → m < n → ∃ userId, ⟨x.endpoint, subName x.endpoint m, userId⟩ ∈ s.issued

section Runs

variable {W : Ceremony} {A : Assertions} {s s' : Passkeys} {move : PasskeyMove}

/-- What issuing a registration does. -/
theorem passkeys_issue {i : Nat} {jti : String} {userId secret : List UInt8} {codeHash : String}
    (hstep : (passkeys W A).step s (.issue i jti userId secret codeHash) = some s') :
    ∃ command, s.adding i = some command ∧ userId ∉ s.issued.map (·.userId) ∧
      s' = { s.setAdding i none with
        registrar := { s.registrar with
          pending := (s.registrar.pending.sweepExpired command.nowMs).insertRegistration command.endpoint jti
            (command.registration jti userId secret codeHash)
          issued := (command.endpoint, jti) :: s.registrar.issued }
        issued := ⟨command.endpoint, command.existing.nextSub command.endpoint, userId⟩ :: s.issued } := by
  simp only [passkeys] at hstep
  split at hstep
  · cases hstep
  · rename_i command hcommand
    split at hstep
    · rename_i hfresh
      obtain ⟨registrar', hregistrar, rfl⟩ := Option.map_eq_some_iff.1 hstep
      simp only [registrar] at hregistrar
      split at hregistrar
      · obtain rfl := Option.some.inj hregistrar
        refine ⟨command, hcommand, fun hmem => ?_, rfl⟩
        obtain ⟨x, hx, heq⟩ := List.mem_map.1 hmem
        exact hfresh x hx heq
      · cases hregistrar
    · cases hstep

/-- A new name carries on the numbers of its endpoint. -/
theorem Known.next (h : Known s) {i : Nat} {command : Adding} (hcommand : s.adding i = some command) :
    ∃ n, 1 ≤ n ∧ command.existing.nextSub command.endpoint = subName command.endpoint n ∧
      command.existing.hasSub command.endpoint (subName command.endpoint n) = false ∧
      (∀ m, 1 ≤ m → m < n → command.existing.hasSub command.endpoint (subName command.endpoint m) = true) ∧
      ∀ m, 1 ≤ m → m < n → ∃ userId, ⟨command.endpoint, subName command.endpoint m, userId⟩ ∈ s.issued := by
  obtain ⟨n, hn, hname, hfree, hbelow⟩ := command.existing.nextSub_spec command.endpoint
  exact ⟨n, hn, hname, hfree, hbelow, fun m hm hlt => h.seen hcommand (hbelow m hm hlt)⟩

theorem Known.issue (h : Known s) {i : Nat} {jti : String} {userId secret : List UInt8} {codeHash : String}
    (hstep : (passkeys W A).step s (.issue i jti userId secret codeHash) = some s') : Known s' := by
  obtain ⟨command, hcommand, hfresh, rfl⟩ := passkeys_issue hstep
  have hgrows : s.issued ⊆ ⟨command.endpoint, command.existing.nextSub command.endpoint, userId⟩ :: s.issued :=
    List.subset_cons_self _ _
  refine ⟨?_, fun hr => hgrows (h.phase hr), h.sourced.mono hgrows, h.owned.mono hgrows, ?_, ?_, ?_⟩
  · intro endpoint jti' r hr
    rw [PendingFile.registration_insertRegistration] at hr
    split at hr
    · rename_i hkey
      obtain ⟨rfl, rfl⟩ := hkey
      obtain rfl := Option.some.inj hr
      exact List.mem_cons_self
    · rw [PendingFile.registration_sweepExpired] at hr
      exact hgrows (h.pending (Option.filter_eq_some_iff.1 hr).1)
  · intro j other hother sub hsub
    simp only [Passkeys.setAdding] at hother
    split at hother
    · cases hother
    · exact (h.seen hother hsub).imp fun _ hmem => hgrows hmem
  · exact List.nodup_cons.2 ⟨hfresh, h.handles⟩
  · intro x hx
    rcases List.mem_cons.1 hx with rfl | hx
    · obtain ⟨n, hn, hname, -, -, hbelow⟩ := h.next hcommand
      exact ⟨n, hn, hname, fun m hm hlt => (hbelow m hm hlt).imp fun _ hmem => hgrows hmem⟩
    · obtain ⟨n, hn, hname, hbelow⟩ := h.numbered x hx
      exact ⟨n, hn, hname, fun m hm hlt => (hbelow m hm hlt).imp fun _ hmem => hgrows hmem⟩

/-- What a gateway's move does besides: a session that is stored has the handle of its registration. -/
theorem passkeys_gateway {move : RegistrarMove} (hstep : (passkeys W A).step s (.gateway move) = some s') :
    ∃ registrar', GatewayMoved s.registrar move registrar' ∧
      ((∀ i id access refresh, move ≠ .store i id access refresh) ∧ s' = { s with registrar := registrar' } ∨
        ∃ i id access refresh r credential, move = .store i id access refresh ∧
          s.registrar.phase i = .verified r credential ∧
          s' = { s.setOwner r.request.endpoint id r.accepted.userId with registrar := registrar' }) := by
  cases move with
  | add => cases hstep
  | store i id access refresh =>
    obtain ⟨registrar', hregistrar, rfl⟩ := Option.map_eq_some_iff.1 hstep
    have hmoved := gateway_moved hregistrar (by simp)
    obtain ⟨r, credential, hphase, -⟩ := hmoved.store rfl
    refine ⟨registrar', hmoved, .inr ⟨i, id, access, refresh, r, credential, rfl, hphase, ?_⟩⟩
    simp only [hphase]
  | challenge | offer | register | verify | consume =>
    obtain ⟨registrar', hregistrar, rfl⟩ := Option.map_eq_some_iff.1 hstep
    exact ⟨registrar', gateway_moved hregistrar (by simp), .inl ⟨by simp, rfl⟩⟩
  | stop i =>
    obtain rfl := Option.some.inj hstep
    exact ⟨_, @gateway_moved W _ _ (.stop i) rfl (by simp), .inl ⟨by simp, rfl⟩⟩

/-- What signing in does: nothing to the file, or the record of the presented id is used and a session minted. -/
theorem passkeys_signIn {i : Nat} {id access refresh : String}
    (hstep : (passkeys W A).step s (.signIn i id access refresh) = some s') :
    s' = s.setAsserting i none ∨
      ∃ (r : Asserting) (sub key : String) (record : CredentialRecord) (result : AuthenticationResult),
        s.auth.findLiveCredential r.request.endpoint r.request.credential.rawId = some (sub, key, record) ∧
        s' = ((s.setOwner r.request.endpoint id record.userId).setAsserting i none).setAuth
          (mint (s.auth.setCredential r.request.endpoint sub key (record.recordUse result r.nowMs r.userAgent))
            r.request.endpoint record.sub id access refresh r.nowMs).1 := by
  simp only [passkeys] at hstep
  split at hstep
  · cases hstep
  · rename_i r _
    obtain rfl := Option.some.inj hstep
    cases hfind : s.auth.findLiveCredential r.request.endpoint r.request.credential.rawId with
    | none =>
      refine .inl ?_
      simp only [assertCredential, hfind]
      rfl
    | some found =>
      obtain ⟨sub, key, record⟩ := found
      cases hfinish : finishAuthentication A r.request.endpoint r.request.credential r.state record.userId with
      | error reason =>
        refine .inl ?_
        simp only [assertCredential, hfind, hfinish]
        rfl
      | ok result =>
        refine .inr ⟨r, sub, key, record, result, hfind, ?_⟩
        simp only [assertCredential, hfind, hfinish]

theorem Known.gateway (h : Known s) {move : RegistrarMove} (hstep : (passkeys W A).step s (.gateway move) = some s') :
    Known s' := by
  obtain ⟨registrar', hmoved, hcase⟩ := passkeys_gateway hstep
  have hpending : ∀ {endpoint jti r}, registrar'.pending.registration endpoint jti = some r →
      ⟨endpoint, r.sub, r.userId⟩ ∈ s.issued := by
    intro endpoint jti r hr
    obtain ⟨p, hp, hsub, huserId⟩ := hmoved.pending endpoint jti r hr
    rw [hsub, huserId]
    exact h.pending hp
  have hphase : ∀ {i r}, (registrar'.phase i).registering = some r →
      ⟨r.request.endpoint, r.accepted.sub, r.accepted.userId⟩ ∈ s.issued := by
    intro i r hr
    rcases hmoved.phase i r hr with hr | ⟨p, hp, hsub, huserId⟩
    · exact h.phase hr
    · rw [hsub, huserId]
      exact h.pending hp
  rcases hcase with ⟨hother, rfl⟩ | ⟨i, id, access, refresh, r, credential, rfl, hverified, rfl⟩
  · have hsourced : Sourced s.issued registrar'.auth := by
      rw [hmoved.auth hother]
      exact h.sourced
    have howned : Owned s.issued s.owner registrar'.auth := by
      rw [hmoved.auth hother]
      exact h.owned
    exact ⟨hpending, hphase, hsourced, howned, h.seen, h.handles, h.numbered⟩
  · obtain ⟨r', credential', hverified', hauth⟩ := hmoved.store rfl
    obtain ⟨rfl, rfl⟩ := Phase.verified.inj (hverified.symm.trans hverified')
    have hissued : ⟨r.request.endpoint, r.accepted.sub, r.accepted.userId⟩ ∈ s.issued := by
      refine h.phase (i := i) ?_
      rw [hverified]
      rfl
    have hinserted : Owned s.issued s.owner (s.auth.insertCredential r.request.endpoint
        (registeredCredential r.request r.accepted credential r.userAgent r.nowMs)) := h.owned
    have hsourced : Sourced s.issued registrar'.auth := by
      rw [hauth]
      exact (h.sourced.insert hissued).families rfl
    have howned : Owned s.issued (s.setOwner r.request.endpoint id r.accepted.userId).owner registrar'.auth := by
      rw [hauth]
      exact hinserted.mint hissued access refresh
    exact ⟨hpending, hphase, hsourced, howned, h.seen, h.handles, h.numbered⟩

theorem Known.signIn (h : Known s) {i : Nat} {id access refresh : String}
    (hstep : (passkeys W A).step s (.signIn i id access refresh) = some s') : Known s' := by
  rcases passkeys_signIn hstep with rfl | ⟨r, sub, key, record, result, hfind, rfl⟩
  · exact ⟨h.pending, h.phase, h.sourced, h.owned, h.seen, h.handles, h.numbered⟩
  · obtain ⟨hr, -⟩ := AuthFile.findLiveCredential_some hfind
    have hrecord := h.sourced.record hr
    have hused : Sourced s.issued (s.auth.setCredential r.request.endpoint sub key
        (record.recordUse result r.nowMs r.userAgent)) := h.sourced.set hr ⟨rfl, record.recordUse_credentialId, rfl⟩
    have howned : Owned s.issued s.owner (s.auth.setCredential r.request.endpoint sub key
        (record.recordUse result r.nowMs r.userAgent)) := h.owned
    exact ⟨h.pending, h.phase, hused.families rfl, howned.mint (hrecord.1 ▸ hrecord.2.2) access refresh, h.seen,
      h.handles, h.numbered⟩

theorem Known.step (h : Known s) (hstep : (passkeys W A).step s move = some s') : Known s' := by
  cases move with
  | issue i jti userId secret codeHash => exact h.issue hstep
  | gateway move => exact h.gateway hstep
  | signIn i id access refresh => exact h.signIn hstep
  | read i endpoint label nowMs =>
    simp only [passkeys] at hstep
    split at hstep
    · cases hstep
    · obtain rfl := Option.some.inj hstep
      refine ⟨h.pending, h.phase, h.sourced, h.owned, ?_, h.handles, h.numbered⟩
      intro j command hcommand sub hsub
      simp only [Passkeys.setAdding] at hcommand
      split at hcommand
      · obtain rfl := Option.some.inj hcommand
        exact h.sourced.sub hsub
      · exact h.seen hcommand hsub
  | consume i request userAgent nowMs =>
    simp only [passkeys] at hstep
    split at hstep
    · obtain rfl := Option.some.inj hstep
      have hpending : (consumeAssertion A s.registrar.pending request nowMs).1.ComesFrom s.registrar.pending :=
        PendingFile.ComesFrom.refl.consume.sweep _
      have hknown : ∀ {endpoint jti r},
          (consumeAssertion A s.registrar.pending request nowMs).1.registration endpoint jti = some r →
          ⟨endpoint, r.sub, r.userId⟩ ∈ s.issued := by
        intro endpoint jti r hr
        obtain ⟨p, hp, hsub, huserId⟩ := hpending endpoint jti r hr
        rw [hsub, huserId]
        exact h.pending hp
      cases (consumeAssertion A s.registrar.pending request nowMs).2 with
      | error e => exact ⟨hknown, h.phase, h.sourced, h.owned, h.seen, h.handles, h.numbered⟩
      | ok state => exact ⟨hknown, h.phase, h.sourced, h.owned, h.seen, h.handles, h.numbered⟩
    · cases hstep
  | refresh endpoint presented newRefresh newAccess nowMs =>
    obtain rfl := Option.some.inj hstep
    have hsourced := h.sourced.families
      (refreshBlocking_credentials W.sha256Hex s.auth endpoint presented newRefresh newAccess nowMs)
    exact ⟨h.pending, h.phase, hsourced, h.owned.refresh _ _ _ _ _ _, h.seen, h.handles, h.numbered⟩
  | remove sub nowMs =>
    obtain rfl := Option.some.inj hstep
    exact ⟨h.pending, h.phase, h.sourced.tombstoneSub, h.owned.tombstoneSub, h.seen, h.handles, h.numbered⟩
  | sessionRemove id nowMs =>
    obtain rfl := Option.some.inj hstep
    exact ⟨h.pending, h.phase, h.sourced.families rfl, h.owned.sessionRemove, h.seen, h.handles, h.numbered⟩

theorem known (h : (passkeys W A).Reachable s) : Known s := by
  refine h.inv _ (fun s hs => ?_) fun _ _ _ _ hk _ hstep => hk.step hstep
  obtain rfl : s = {} := hs
  refine ⟨?_, ?_, ⟨?_, ?_⟩, ?_, ?_, ?_, ?_⟩
  all_goals simp [PendingFile.registration, Phase.registering, AuthFile.credential, AuthFile.hasSub, AuthFile.subs,
    Owned, AuthFile.family]

end Runs

end Hyoui.Auth
