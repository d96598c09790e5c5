import Mathlib.Algebra.Group.Nat.Defs
import Hyoui.Auth.Record
/-!
# Registration tokens

The jwt of an invitation, `token.rs`: three segments of base64url with dots between them, the third the HMAC of the
first two. `verifyRegistration` splits a token once for the signature and once for the claims, `peekJti` for the claims
only. The HMAC, base64url and the JSON of header and claims are third-party code and are parameters. A text is its list
of characters.
-/

namespace Hyoui.Auth.Token

open Hyoui.Auth

abbrev Text := List Char

/-! ## Tokens -/

structure RegistrationClaims where
  sub : String
  endpoint : Endpoint
  rpId : String
  userId : String
  access : Access
  exp : Nat
  jti : String
deriving DecidableEq

inductive JwtError where
  | malformed
  | unexpectedAlgorithm
  | badSignature
  | expired
deriving DecidableEq

/-- The parts that are third-party code: HMAC-SHA256 of a message under a key, base64url, and JSON, where reading a
header yields its `alg`. -/
structure Jwt where
  hmacSha256 : List UInt8 → List UInt8 → List UInt8
  base64url : List UInt8 → Text
  decodeSegment : Text → Option (List UInt8)
  readHeader : List UInt8 → Option String
  readClaims : List UInt8 → Option RegistrationClaims
  writeClaims : RegistrationClaims → List UInt8

/-- What is encoded is decoded again, and holds no dot. -/
structure Jwt.Base64 (W : Jwt) : Prop where
  decoded : ∀ bytes, W.decodeSegment (W.base64url bytes) = some bytes
  noDot : ∀ bytes, '.' ∉ W.base64url bytes

/-- What comes before the last `sep`, and what after it. -/
def rsplitOnce (sep : Char) : Text → Option (Text × Text)
  | [] => none
  | c :: s =>
    match rsplitOnce sep s with
    | some (before, after) => some (c :: before, after)
    | none => if c = sep then some ([], s) else none

def orMalformed {α : Type} : Option α → Except JwtError α
  | some a => .ok a
  | none => .error .malformed

/-- The header of every token that is issued. -/
def header : List UInt8 := bytesOf "\x7b\"alg\":\"HS256\",\"typ\":\"JWT\"\x7d"

section Code
variable (W : Jwt)

/-- The signature of a signing input. -/
def signatureOf (secret : List UInt8) (signingInput : Text) : Text :=
  W.base64url (W.hmacSha256 secret (bytesOf (.ofList signingInput)))

def encodeRegistration (claims : RegistrationClaims) (secret : List UInt8) : Text :=
  let payload := W.base64url (W.writeClaims claims)
  let signingInput := W.base64url header ++ '.' :: payload
  signingInput ++ '.' :: signatureOf W secret signingInput

def decodePayload (jwt : Text) : Except JwtError RegistrationClaims :=
  match jwt.splitOn '.' with
  | [_, payload, _] => do
    let bytes ← orMalformed (W.decodeSegment payload)
    orMalformed (W.readClaims bytes)
  | _ => .error .malformed

def peekJti (jwt : Text) : Except JwtError String := do
  let claims ← decodePayload W jwt
  return claims.jti

def u64Max : Nat := 2 ^ 64 - 1

def verifyRegistration (jwt : Text) (secret : List UInt8) (nowUnixMs : Nat) : Except JwtError RegistrationClaims := do
  let (signingInput, signature) ← orMalformed (rsplitOnce '.' jwt)
  let headerSegment ← orMalformed (signingInput.splitOn '.').head?
  let bytes ← orMalformed (W.decodeSegment headerSegment)
  let alg ← orMalformed (W.readHeader bytes)
  if alg ≠ "HS256" then .error .unexpectedAlgorithm
  else if !constantTimeEq (bytesOf (.ofList (signatureOf W secret signingInput))) (bytesOf (.ofList signature)) then
    .error .badSignature
  else
    let claims ← decodePayload W jwt
    if min (claims.exp * 1000) u64Max ≤ nowUnixMs then .error .expired else .ok claims

end Code

/-! ## Splitting -/

section Split
variable {sep : Char} {s before after : Text}

theorem rsplitOnce_none (h : rsplitOnce sep s = none) : sep ∉ s := by
  induction s with
  | nil => exact List.not_mem_nil
  | cons c s ih =>
    rw [rsplitOnce] at h
    split at h
    · cases h
    · rename_i hrest
      split at h <;> rename_i hc
      · cases h
      · rw [List.mem_cons, not_or]
        exact ⟨fun hsep => hc hsep.symm, ih hrest⟩

theorem rsplitOnce_some (h : rsplitOnce sep s = some (before, after)) : s = before ++ sep :: after ∧ sep ∉ after := by
  induction s generalizing before with
  | nil => cases h
  | cons c s ih =>
    rw [rsplitOnce] at h
    split at h
    · rename_i hrest
      cases h
      obtain ⟨rfl, hafter⟩ := ih hrest
      exact ⟨rfl, hafter⟩
    · rename_i hrest
      split at h <;> rename_i hc
      · cases h
        exact ⟨by rw [hc, List.nil_append], rsplitOnce_none hrest⟩
      · cases h

theorem rsplitOnce_of_notMem (h : sep ∉ after) (before : Text) :
    rsplitOnce sep (before ++ sep :: after) = some (before, after) := by
  induction before with
  | nil =>
    have hnone : rsplitOnce sep after = none := by
      cases hrest : rsplitOnce sep after with
      | none => rfl
      | some parts =>
        obtain ⟨before, after'⟩ := parts
        exact absurd (by simp [(rsplitOnce_some hrest).1]) h
    rw [List.nil_append, rsplitOnce, hnone]
    exact if_pos rfl
  | cons c before ih =>
    rw [List.cons_append, rsplitOnce, ih]

/-- No segment holds a separator. -/
theorem notMem_of_mem_splitOn {segment : Text} (h : segment ∈ s.splitOn sep) : sep ∉ segment := by
  induction s generalizing segment with
  | nil =>
    rw [List.splitOn_nil, List.mem_singleton] at h
    exact h ▸ List.not_mem_nil
  | cons c s ih =>
    rw [List.splitOn_cons_eq_if_modifyHead] at h
    split at h <;> rename_i hc
    · rcases List.mem_cons.1 h with rfl | h
      · exact List.not_mem_nil
      · exact ih h
    · obtain ⟨head, rest, hsplit⟩ := List.exists_cons_of_ne_nil (List.splitOn_ne_nil sep s)
      rw [hsplit, List.modifyHead_cons, List.mem_cons] at h
      rcases h with rfl | h
      · have hhead : sep ∉ head := ih (hsplit ▸ List.mem_cons_self)
        have hne : c ≠ sep := by simpa using hc
        simp [hhead, Ne.symm hne]
      · exact ih (hsplit ▸ List.mem_cons_of_mem _ h)

/-- A token of three segments. -/
theorem splitOn_three {jwt h p t : Text} : jwt.splitOn '.' = [h, p, t] ↔
    jwt = h ++ '.' :: (p ++ '.' :: t) ∧ '.' ∉ h ∧ '.' ∉ p ∧ '.' ∉ t := by
  constructor
  · intro hsplit
    have hjoin : ['.'].intercalate (jwt.splitOn '.') = jwt := List.intercalate_splitOn '.'
    rw [hsplit] at hjoin
    have hfree : ∀ segment ∈ [h, p, t], '.' ∉ segment := fun segment hmem => notMem_of_mem_splitOn (hsplit ▸ hmem)
    exact ⟨by simpa using hjoin.symm, hfree h (by simp), hfree p (by simp), hfree t (by simp)⟩
  · rintro ⟨rfl, hh, hp, ht⟩
    rw [List.splitOn_append_cons_self_of_not_mem hh, List.splitOn_append_cons_self_of_not_mem hp,
      List.splitOn_eq_singleton ht]

end Split

/-! ## What is accepted -/

/-- Three segments: a header of HS256, the claims, and the signature of the two; and the claims have not expired. -/
def Verifies (W : Jwt) (jwt : Text) (secret : List UInt8) (nowUnixMs : Nat) (claims : RegistrationClaims) : Prop :=
  ∃ header payload signature, jwt.splitOn '.' = [header, payload, signature] ∧
    (W.decodeSegment header).bind W.readHeader = some "HS256" ∧
    (W.decodeSegment payload).bind W.readClaims = some claims ∧
    signature = W.base64url (W.hmacSha256 secret (bytesOf (.ofList (header ++ '.' :: payload)))) ∧
    nowUnixMs < min (claims.exp * 1000) u64Max

section Accept
variable {W : Jwt} {jwt : Text} {secret : List UInt8} {nowUnixMs : Nat} {claims : RegistrationClaims}

@[simp] theorem orMalformed_ok {α : Type} {o : Option α} {a : α} : orMalformed o = .ok a ↔ o = some a := by
  cases o <;> simp [orMalformed]

/-- The claims are read from the second of three segments. -/
theorem decodePayload_ok : decodePayload W jwt = .ok claims ↔
    ∃ header payload signature, jwt.splitOn '.' = [header, payload, signature] ∧
      (W.decodeSegment payload).bind W.readClaims = some claims := by
  unfold decodePayload
  constructor
  · intro h
    split at h
    · rename_i header payload signature hsplit
      obtain ⟨bytes, hbytes, hclaims⟩ := bind_ok.1 h
      refine ⟨header, payload, signature, hsplit, ?_⟩
      rw [orMalformed_ok.1 hbytes]
      exact orMalformed_ok.1 hclaims
    · cases h
  · rintro ⟨header, payload, signature, hsplit, hclaims⟩
    obtain ⟨bytes, hbytes, hclaims⟩ := Option.bind_eq_some_iff.1 hclaims
    rw [hsplit]
    exact bind_ok.2 ⟨bytes, orMalformed_ok.2 hbytes, orMalformed_ok.2 hclaims⟩

theorem signature_eq {a b : Text} :
    constantTimeEq (bytesOf (.ofList a)) (bytesOf (.ofList b)) = true ↔ a = b := by
  rw [constantTimeEq_bytesOf]
  exact String.ofList_inj

/-- What `verifyRegistration` accepts, and with which claims. -/
theorem verifyRegistration_ok :
    verifyRegistration W jwt secret nowUnixMs = .ok claims ↔ Verifies W jwt secret nowUnixMs claims := by
  unfold verifyRegistration
  constructor
  · intro h
    obtain ⟨⟨signingInput, signature⟩, hlast, h⟩ := bind_ok.1 h
    obtain ⟨headerSegment, hhead, h⟩ := bind_ok.1 h
    obtain ⟨bytes, hbytes, h⟩ := bind_ok.1 h
    obtain ⟨alg, halg, h⟩ := bind_ok.1 h
    split at h <;> rename_i hhs
    · cases h
    split at h <;> rename_i hsignature
    · cases h
    obtain ⟨claims', hclaims', h⟩ := bind_ok.1 h
    split at h <;> rename_i hexp
    · cases h
    cases h
    obtain ⟨header, payload, signature', hsplit, hclaims⟩ := decodePayload_ok.1 hclaims'
    obtain ⟨hjwt, hh, hp, ht⟩ := splitOn_three.1 hsplit
    -- the last dot is the second one, and the first of what is signed is the first one
    have hparts : signingInput = header ++ '.' :: payload ∧ signature = signature' := by
      have hcut := rsplitOnce_of_notMem ht (header ++ '.' :: payload)
      rw [List.append_assoc, List.cons_append, ← hjwt, orMalformed_ok.1 hlast] at hcut
      cases hcut
      exact ⟨rfl, rfl⟩
    obtain ⟨rfl, rfl⟩ := hparts
    rw [List.splitOn_append_cons_self_of_not_mem hh, List.head?_cons, orMalformed_ok, Option.some.injEq] at hhead
    subst hhead
    refine ⟨header, payload, signature, hsplit, ?_, hclaims, ?_, Nat.not_le.1 hexp⟩
    · rw [orMalformed_ok.1 hbytes]
      exact (orMalformed_ok.1 halg).trans (congrArg some (not_not.1 hhs))
    · rw [Bool.not_eq_true', Bool.not_eq_false, signature_eq] at hsignature
      exact hsignature.symm
  · rintro ⟨header, payload, signature, hsplit, hheader, hclaims, hsignature, hexp⟩
    have hpayload := decodePayload_ok.2 ⟨header, payload, signature, hsplit, hclaims⟩
    obtain ⟨hjwt, hh, hp, ht⟩ := splitOn_three.1 hsplit
    obtain ⟨bytes, hbytes, halg⟩ := Option.bind_eq_some_iff.1 hheader
    have hcut := rsplitOnce_of_notMem ht (header ++ '.' :: payload)
    rw [List.append_assoc, List.cons_append, ← hjwt] at hcut
    refine bind_ok.2 ⟨_, orMalformed_ok.2 hcut, bind_ok.2 ⟨header, ?_, bind_ok.2 ⟨bytes, orMalformed_ok.2 hbytes,
      bind_ok.2 ⟨_, orMalformed_ok.2 halg, ?_⟩⟩⟩⟩
    · rw [List.splitOn_append_cons_self_of_not_mem hh]
      rfl
    · have hequal := signature_eq.2 hsignature.symm
      rw [if_neg (not_not.2 rfl), signatureOf, hequal, if_neg (by decide)]
      exact bind_ok.2 ⟨claims, hpayload, if_neg (Nat.not_le.2 hexp)⟩

/-- A token that was issued has three segments, which are what they were made of. -/
theorem encodeRegistration_verifies (hbase : W.Base64) (hheader : W.readHeader header = some "HS256")
    (hjson : W.readClaims (W.writeClaims claims) = some claims) (hexp : nowUnixMs < min (claims.exp * 1000) u64Max) :
    Verifies W (encodeRegistration W claims secret) secret nowUnixMs claims := by
  refine ⟨W.base64url header, W.base64url (W.writeClaims claims), _, splitOn_three.2 ⟨?_, ?_, ?_, ?_⟩, ?_, ?_,
    rfl, hexp⟩
  · rw [encodeRegistration, List.append_assoc]
    rfl
  · exact hbase.noDot _
  · exact hbase.noDot _
  · exact hbase.noDot _
  · rw [hbase.decoded]
    exact hheader
  · rw [hbase.decoded]
    exact hjson

/-- Exactly the tokens of three segments with a header of HS256, the signature of the first two segments and claims
that have not expired are accepted, with these claims; what `peekJti` reads of a token that is accepted is the claims'
`jti`; and what `encodeRegistration` issues is accepted until it expires, where base64url and JSON read back what they
wrote. -/
theorem registration_token (W : Jwt) :
    (∀ jwt secret nowUnixMs claims, verifyRegistration W jwt secret nowUnixMs = .ok claims ↔
      Verifies W jwt secret nowUnixMs claims) ∧
    (∀ jwt secret nowUnixMs claims, verifyRegistration W jwt secret nowUnixMs = .ok claims →
      peekJti W jwt = .ok claims.jti) ∧
    ∀ claims secret nowUnixMs, W.Base64 → W.readHeader header = some "HS256" →
      W.readClaims (W.writeClaims claims) = some claims → nowUnixMs < min (claims.exp * 1000) u64Max →
      verifyRegistration W (encodeRegistration W claims secret) secret nowUnixMs = .ok claims := by
  refine ⟨fun _ _ _ _ => verifyRegistration_ok, fun jwt secret nowUnixMs claims h => ?_, ?_⟩
  · obtain ⟨header, payload, signature, hsplit, -, hclaims, -⟩ := verifyRegistration_ok.1 h
    exact bind_ok.2 ⟨claims, decodePayload_ok.2 ⟨header, payload, signature, hsplit, hclaims⟩, rfl⟩
  · intro claims secret nowUnixMs hbase hheader hjson hexp
    exact verifyRegistration_ok.2 (encodeRegistration_verifies hbase hheader hjson hexp)

end Accept

/-! ## base64url -/

/-- The six bits of a character. -/
def base64urlValue (c : Char) : Option Nat :=
  if 'A' ≤ c ∧ c ≤ 'Z' then some (c.toNat - 65)
  else if 'a' ≤ c ∧ c ≤ 'z' then some (c.toNat - 97 + 26)
  else if '0' ≤ c ∧ c ≤ '9' then some (c.toNat - 48 + 52)
  else if c = '-' then some 62
  else if c = '_' then some 63
  else none

/-- The bytes of a list of six bits each. No bit may be set beyond the last byte. -/
def bytesOfSextets : List Nat → Option (List UInt8)
  | a :: b :: c :: d :: rest =>
    (bytesOfSextets rest).map ([.ofNat (a * 4 + b / 16), .ofNat (b % 16 * 16 + c / 4), .ofNat (c % 4 * 64 + d)] ++ ·)
  | [a, b, c] => if c % 4 = 0 then some [.ofNat (a * 4 + b / 16), .ofNat (b % 16 * 16 + c / 4)] else none
  | [a, b] => if b % 16 = 0 then some [.ofNat (a * 4 + b / 16)] else none
  | [_] => none
  | [] => some []

def base64urlBytes (segment : Text) : Option (List UInt8) := (segment.mapM base64urlValue).bind bytesOfSextets

theorem base64urlValue_char {n : Nat} (h : n < 64) : base64urlValue (base64urlChar n) = some n := by
  have hall : ∀ n : Fin 64, base64urlValue (base64urlChar n) = some n.1 := by decide
  exact hall ⟨n, h⟩

theorem mapM_base64urlChar {sextets : List Nat} (h : ∀ n ∈ sextets, n < 64) :
    (sextets.map base64urlChar).mapM base64urlValue = some sextets := by
  induction sextets with
  | nil => rfl
  | cons n sextets ih =>
    rw [List.map_cons, List.mapM_cons, base64urlValue_char (h n List.mem_cons_self),
      ih fun m hm => h m (List.mem_cons_of_mem _ hm)]
    rfl

/-- The six bits each of the characters of a list of bytes. -/
def sextets : List UInt8 → List Nat
  | a :: b :: c :: rest =>
    let n := a.toNat * 65536 + b.toNat * 256 + c.toNat
    [n / 262144, n / 4096 % 64, n / 64 % 64, n % 64] ++ sextets rest
  | [a, b] =>
    let n := a.toNat * 256 + b.toNat
    [n / 1024, n / 16 % 64, n % 16 * 4]
  | [a] => [a.toNat / 4, a.toNat % 4 * 16]
  | [] => []

theorem base64urlChars_sextets (bytes : List UInt8) : base64urlChars bytes = (sextets bytes).map base64urlChar := by
  induction bytes using sextets.induct with
  | case1 a b c rest ih => rw [base64urlChars, sextets, List.map_append, ih]
  | case2 a b => rfl
  | case3 a => rfl
  | case4 => rfl

theorem sextets_lt (bytes : List UInt8) : ∀ n ∈ sextets bytes, n < 64 := by
  induction bytes using sextets.induct with
  | case1 a b c rest ih =>
    have ha := a.toNat_lt
    have hb := b.toNat_lt
    have hc := c.toNat_lt
    simp only [sextets, List.mem_append, List.mem_cons, List.not_mem_nil, or_false]
    rintro m ((rfl | rfl | rfl | rfl) | hm)
    any_goals omega
    exact ih m hm
  | case2 a b =>
    have ha := a.toNat_lt
    have hb := b.toNat_lt
    simp only [sextets, List.mem_cons, List.not_mem_nil, or_false]
    rintro m (rfl | rfl | rfl) <;> omega
  | case3 a =>
    have ha := a.toNat_lt
    simp only [sextets, List.mem_cons, List.not_mem_nil, or_false]
    rintro m (rfl | rfl) <;> omega
  | case4 => simp [sextets]

theorem bytesOfSextets_sextets (bytes : List UInt8) : bytesOfSextets (sextets bytes) = some bytes := by
  have hbyte : ∀ {n : Nat} (a : UInt8), n = a.toNat → UInt8.ofNat n = a := by
    rintro n a rfl
    exact UInt8.ofNat_toNat
  induction bytes using sextets.induct with
  | case1 a b c rest ih =>
    have ha := a.toNat_lt
    have hb := b.toNat_lt
    have hc := c.toNat_lt
    simp only [sextets, List.cons_append, List.nil_append, bytesOfSextets, ih, Option.map_some]
    rw [hbyte a (by omega), hbyte b (by omega), hbyte c (by omega)]
  | case2 a b =>
    have ha := a.toNat_lt
    have hb := b.toNat_lt
    simp only [sextets, bytesOfSextets]
    rw [if_pos (by omega), hbyte a (by omega), hbyte b (by omega)]
  | case3 a =>
    have ha := a.toNat_lt
    simp only [sextets, bytesOfSextets]
    rw [if_pos (by omega), hbyte a (by omega)]
  | case4 => rfl

/-- What is encoded is decoded again. -/
theorem base64urlBytes_chars (bytes : List UInt8) : base64urlBytes (base64urlChars bytes) = some bytes := by
  rw [base64urlBytes, base64urlChars_sextets, mapM_base64urlChar (sextets_lt bytes)]
  exact bytesOfSextets_sextets bytes

theorem base64urlChars_no_dot (bytes : List UInt8) : '.' ∉ base64urlChars bytes := by
  rw [base64urlChars_sextets, List.mem_map]
  rintro ⟨n, hn, hdot⟩
  have hvalue := base64urlValue_char (sextets_lt bytes n hn)
  have hnone : base64urlValue '.' = none := by decide
  rw [hdot, hnone] at hvalue
  cases hvalue

/-- A token of one registration, with the JSON and the HMAC it has. -/
theorem registration_token_issued :
    let claims : RegistrationClaims := {
      sub := "hyoui.example.jp-1"
      endpoint := "https://hyoui.example.jp/"
      rpId := "hyoui.example.jp"
      userId := "BwcHBwcHBwcHBwcHBwcHBw"
      access := .rw
      exp := 2000
      jti := "j1" }
    let json := bytesOf ("\x7b\"sub\":\"hyoui.example.jp-1\",\"endpoint\":\"https://hyoui.example.jp/\"," ++
      "\"rp_id\":\"hyoui.example.jp\",\"user_id\":\"BwcHBwcHBwcHBwcHBwcHBw\",\"access\":\"rw\",\"exp\":2000," ++
      "\"jti\":\"j1\"\x7d")
    let W : Jwt := {
      hmacSha256 := fun _ _ => [175, 122, 86, 59, 231, 108, 135, 134, 56, 20, 116, 63, 92, 72, 180, 27, 32, 30, 6, 26,
        45, 30, 19, 231, 222, 77, 81, 190, 25, 78, 246, 229]
      base64url := base64urlChars
      decodeSegment := base64urlBytes
      readHeader := fun bytes => if bytes = header then some "HS256" else none
      readClaims := fun bytes => if bytes = json then some claims else none
      writeClaims := fun _ => json }
    verifyRegistration W (encodeRegistration W claims (List.replicate 32 3)) (List.replicate 32 3) 1000000 =
      .ok claims := by
  intro claims json W
  have hheader : W.readHeader header = some "HS256" := if_pos (e := none) (Eq.refl header)
  have hjson : W.readClaims (W.writeClaims claims) = some claims := by simp only [W, if_true]
  have hbase : W.Base64 := ⟨base64urlBytes_chars, base64urlChars_no_dot⟩
  exact (registration_token W).2.2 claims _ _ hbase hheader hjson (by decide)

end Hyoui.Auth.Token
