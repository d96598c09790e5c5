import Mathlib.Data.List.Nodup
import Hyoui.Auth.Registration
/-!
# A registration is used once

Which runs store at most one credential for a registration and a challenge, and none after too many wrong
codes: those in which no other request comes between what a request read and what it stores. The code does
not look again when it stores, so two requests can both be past the check.
-/

namespace Hyoui.Auth

open Hyoui.Lib

/-- One credential record and one session for a registration, one credential for a challenge, and no request
succeeds after the wrong codes have reached the limit: none stores a challenge or a credential, and none is
answered with a session. -/
structure AtMostOnce (s : Registrar) : Prop where
  registration : (s.stores.map (·.jti)).Nodup
  challenge : (s.stores.map (·.challengeId)).Nodup
  offered : ∀ o ∈ s.offers, o.2 < codeAttemptLimit
  stored : ∀ e ∈ s.stores, e.wrongCodes < codeAttemptLimit
  answered : ∀ a ∈ s.answers, a.2 < codeAttemptLimit

/-- No request has overtaken a request on its way to an update. Since it read `pending.json`, none has burned its
registration; and where it stores a credential, none has stored one since its check, and none that had stored
one before the check had still to consume the registration. -/
def Undisturbed (W : Ceremony) (earlier : List (Registrar × RegistrarMove × Registrar)) (s : Registrar) :
    RegistrarMove → Prop
  | .offer i | .consume i => ∀ jti, (s.phase i).jti = some jti → ¬ Did W (since i earlier) jti .burned
  | .store i _ _ _ => ∀ jti, (s.phase i).jti = some jti →
      ¬ Did W (since i earlier) jti .burned ∧ ¬ Did W (since i earlier) jti .stored ∧
        (Did W (upTo i earlier) jti .stored → Did W (upTo i earlier) jti .consumed)
  | _ => True

/-! ## What the check does -/

section Check

variable {W : Ceremony} {pending : PendingFile} {request : RegisterRequest} {jti : String} {nowMs : Nat}

theorem checkCode_eq {sha256Hex : List UInt8 → String} (r : PendingRegistration) (presented : String) :
    r.checkCode sha256Hex presented =
      if r.holdsCode sha256Hex presented then (r, .accepted)
      else if r.codeAttempts + 1 < codeAttemptLimit then
        ({ r with codeAttempts := r.codeAttempts + 1 }, .rejected (codeAttemptLimit - (r.codeAttempts + 1)))
      else ({ r with codeAttempts := min (r.codeAttempts + 1) (2 ^ 32 - 1) }, .burned) := by
  simp only [PendingRegistration.checkCode]
  split
  · rfl
  · by_cases hlt : r.codeAttempts + 1 < codeAttemptLimit
    · have hmin : min (r.codeAttempts + 1) (2 ^ 32 - 1) = r.codeAttempts + 1 := by
        simp only [codeAttemptLimit] at hlt
        omega
      have hnot : ¬ codeAttemptLimit ≤ r.codeAttempts + 1 := by omega
      simp only [hmin, hlt, if_true, ge_iff_le, hnot, if_false]
    · have hge : codeAttemptLimit ≤ min (r.codeAttempts + 1) (2 ^ 32 - 1) := by
        simp only [codeAttemptLimit] at hlt ⊢
        omega
      simp only [hlt, if_false, ge_iff_le, hge, if_true]

theorem findRegistration_some {r : PendingRegistration} (h : findRegistration W pending request jti nowMs = .ok r) :
    pending.registration request.endpoint jti = some r := by
  simp only [findRegistration] at h
  split at h
  · cases h
  · rename_i byJti hbyJti
    split at h
    · cases h
    · rename_i registration hr
      obtain ⟨hr, -⟩ := Option.filter_eq_some_iff.1 hr
      split at h
      · cases h
      · split at h
        · rw [← Except.ok.inj h]
          exact Nested.look_eq_some.2 ⟨byJti, hbyJti, hr⟩
        · cases h

/-- The file and the answer of a check, and whether it compared a wrong code and burned the registration. -/
inductive Checked (W : Ceremony) (pending : PendingFile) (request : RegisterRequest) (jti : String) (nowMs : Nat) :
    PendingFile → Except AuthFailure AcceptedRegistration → Bool → Bool → Prop
  | refused {e} : Checked W pending request jti nowMs (pending.sweepExpired nowMs) (.error e) false false
  | rejected {r e} :
      (pending.sweepExpired nowMs).registration request.endpoint jti = some r →
      r.codeAttempts + 1 < codeAttemptLimit →
      Checked W pending request jti nowMs
        ((pending.sweepExpired nowMs).insertRegistration request.endpoint jti
          { r with codeAttempts := r.codeAttempts + 1 }) (.error e) true false
  | burned {r e} :
      (pending.sweepExpired nowMs).registration request.endpoint jti = some r →
      codeAttemptLimit ≤ r.codeAttempts + 1 →
      Checked W pending request jti nowMs
        ((pending.sweepExpired nowMs).removeRegistration request.endpoint jti) (.error e) true true
  | accepted {r c accepted} :
      (pending.sweepExpired nowMs).registration request.endpoint jti = some r →
      (pending.sweepExpired nowMs).stored request.endpoint request.challengeId = some c → c.jti = some jti →
      accepted.jti = jti →
      Checked W pending request jti nowMs (pending.sweepExpired nowMs) (.ok accepted) false false

theorem checkRegistration_checked (W : Ceremony) (pending : PendingFile) (request : RegisterRequest) (jti : String)
    (nowMs : Nat) :
    Checked W pending request jti nowMs (checkRegistration W pending request jti nowMs).1
      (checkRegistration W pending request jti nowMs).2 (wrongCode W pending request jti nowMs)
      (burns W pending request jti nowMs) := by
  simp only [checkRegistration, wrongCode, burns]
  cases hfind : findRegistration W (pending.sweepExpired nowMs) request jti nowMs with
  | error e => exact .refused
  | ok r =>
    have hr := findRegistration_some hfind
    simp only [checkCode_eq]
    by_cases hcode : r.holdsCode W.sha256Hex request.code = true
    · simp only [hcode, if_true, Bool.not_true]
      cases hc : ((pending.sweepExpired nowMs).challenge request.endpoint request.challengeId .register nowMs).filter
          (·.jti = some jti) with
      | none => exact .refused
      | some c =>
        obtain ⟨hc, hjti⟩ := Option.filter_eq_some_iff.1 hc
        simp only
        split
        · exact .refused
        · exact .accepted hr (PendingFile.challenge_eq_some hc) (by simpa using hjti) rfl
    · by_cases hlt : r.codeAttempts + 1 < codeAttemptLimit
      · simp only [hcode, hlt, if_false, if_true, Bool.not_false, Bool.false_eq_true]
        exact .rejected hr hlt
      · simp only [hcode, hlt, if_false, Bool.not_false, Bool.false_eq_true]
        exact .burned hr (by omega)

end Check

/-! ## What the runs keep -/

section Runs

variable {W : Ceremony} {s s' : Registrar} {move : RegistrarMove}

/-- The registrations and the challenges of the file, and what is noted of them. -/
structure Ledgered (pending : PendingFile) (issued : List (Endpoint × String)) (offered : List (String × Option String))
    (wrong : String → Nat) (taken burned : List String) : Prop where
  issued_once : (issued.map (·.2)).Nodup
  offered_once : (offered.map (·.1)).Nodup
  registration : ∀ {endpoint jti r}, pending.registration endpoint jti = some r →
    (endpoint, jti) ∈ issued ∧ jti ∉ taken ∧ jti ∉ burned ∧ r.codeAttempts = wrong jti
  unissued : ∀ {jti}, jti ∉ issued.map (·.2) → wrong jti = 0 ∧ jti ∉ taken ∧ jti ∉ burned
  burned : ∀ {jti}, jti ∈ burned ↔ codeAttemptLimit ≤ wrong jti
  challenge : ∀ {endpoint id c}, pending.stored endpoint id = some c → (id, c.jti) ∈ offered

section Ledgered

variable {pending : PendingFile} {issued : List (Endpoint × String)} {offered : List (String × Option String)}
  {wrong : String → Nat} {taken burned : List String}

theorem Ledgered.sweep (h : Ledgered pending issued offered wrong taken burned) (nowMs : Nat) :
    Ledgered (pending.sweepExpired nowMs) issued offered wrong taken burned := by
  refine { h with registration := fun hr => ?_, challenge := fun hc => ?_ }
  · rw [PendingFile.registration_sweepExpired] at hr
    exact h.registration (Option.filter_eq_some_iff.1 hr).1
  · rw [PendingFile.stored_sweepExpired] at hc
    exact h.challenge (Option.filter_eq_some_iff.1 hc).1

/-- A jti names one endpoint. -/
theorem Ledgered.endpoint (h : Ledgered pending issued offered wrong taken burned) {endpoint endpoint' : Endpoint}
    {jti : String} (he : (endpoint, jti) ∈ issued) (he' : (endpoint', jti) ∈ issued) : endpoint = endpoint' :=
  congrArg Prod.fst (List.inj_on_of_nodup_map h.issued_once he he' rfl)

/-- A challenge id is bound to one registration. -/
theorem Ledgered.bound (h : Ledgered pending issued offered wrong taken burned) {id : String} {jti jti' : Option String}
    (hj : (id, jti) ∈ offered) (hj' : (id, jti') ∈ offered) : jti = jti' :=
  congrArg Prod.snd (List.inj_on_of_nodup_map h.offered_once hj hj' rfl)

theorem Ledgered.add (h : Ledgered pending issued offered wrong taken burned) {endpoint : Endpoint}
    {r : PendingRegistration} (hfresh : r.jti ∉ issued.map (·.2)) (hcount : r.codeAttempts = 0) :
    Ledgered (pending.insertRegistration endpoint r.jti r) ((endpoint, r.jti) :: issued) offered wrong taken burned := by
  refine { h with issued_once := ?_, registration := ?_, unissued := ?_ }
  · exact List.nodup_cons.2 ⟨hfresh, h.issued_once⟩
  · intro endpoint' jti r' hr
    rw [PendingFile.registration_insertRegistration] at hr
    split at hr
    · rename_i he
      obtain ⟨rfl, rfl⟩ := he
      obtain rfl := Option.some.inj hr
      obtain ⟨hwrong, htaken, hburned⟩ := h.unissued hfresh
      exact ⟨List.mem_cons_self, htaken, hburned, hcount.trans hwrong.symm⟩
    · obtain ⟨hissued, hrest⟩ := h.registration hr
      exact ⟨List.mem_cons_of_mem _ hissued, hrest⟩
  · intro jti hjti
    exact h.unissued fun hmem => hjti (List.mem_cons_of_mem _ hmem)

theorem Ledgered.draw (h : Ledgered pending issued offered wrong taken burned) {id : String} {jti : Option String}
    (hfresh : id ∉ offered.map (·.1)) : Ledgered pending issued ((id, jti) :: offered) wrong taken burned :=
  { h with
    offered_once := List.nodup_cons.2 ⟨hfresh, h.offered_once⟩
    challenge := fun hc => List.mem_cons_of_mem _ (h.challenge hc) }

theorem Ledgered.offer (h : Ledgered pending issued offered wrong taken burned) {c : PendingChallenge}
    (hc : (c.id, c.jti) ∈ offered) : Ledgered (pending.insertChallenge c.endpoint c) issued offered wrong taken burned := by
  refine { h with challenge := fun {endpoint id c'} hc' => ?_ }
  rw [PendingFile.stored_insertChallenge] at hc'
  split at hc'
  · rename_i he
    obtain ⟨-, rfl⟩ := he
    obtain rfl := Option.some.inj hc'
    exact hc
  · exact h.challenge hc'

/-- Removing a registration for good: a later one with its jti cannot be issued. -/
theorem Ledgered.registration_gone (h : Ledgered pending issued offered wrong taken burned) {endpoint endpoint' : Endpoint}
    {jti jti' : String} {r : PendingRegistration} (hissued : (endpoint, jti) ∈ issued)
    (hr : (pending.removeRegistration endpoint jti).registration endpoint' jti' = some r) :
    jti' ≠ jti ∧ pending.registration endpoint' jti' = some r := by
  rw [PendingFile.registration_removeRegistration] at hr
  split at hr
  · cases hr
  · rename_i hne
    refine ⟨fun he => hne ⟨?_, he.symm⟩, hr⟩
    subst he
    exact h.endpoint hissued (h.registration hr).1

theorem Ledgered.wrongCode (h : Ledgered pending issued offered wrong taken burned) {endpoint : Endpoint} {jti : String}
    {r : PendingRegistration} (hr : pending.registration endpoint jti = some r)
    (hlt : r.codeAttempts + 1 < codeAttemptLimit) :
    Ledgered (pending.insertRegistration endpoint jti { r with codeAttempts := r.codeAttempts + 1 }) issued offered
      (fun j => if j = jti then wrong j + 1 else wrong j) taken burned := by
  obtain ⟨hissued, htaken, hburned, hcount⟩ := h.registration hr
  refine { h with registration := ?_, unissued := ?_, burned := ?_ }
  · intro endpoint' jti' r' hr'
    rw [PendingFile.registration_insertRegistration] at hr'
    split at hr'
    · rename_i he
      obtain ⟨rfl, rfl⟩ := he
      obtain rfl := Option.some.inj hr'
      exact ⟨hissued, htaken, hburned, by simp [hcount]⟩
    · rename_i hne
      obtain ⟨hissued', htaken', hburned', hcount'⟩ := h.registration hr'
      refine ⟨hissued', htaken', hburned', ?_⟩
      rw [if_neg, hcount']
      rintro rfl
      exact hne ⟨h.endpoint hissued hissued', rfl⟩
  · intro jti' hjti
    obtain ⟨hwrong, hrest⟩ := h.unissued hjti
    refine ⟨?_, hrest⟩
    rw [if_neg, hwrong]
    rintro rfl
    exact hjti (List.mem_map_of_mem (f := Prod.snd) hissued)
  · intro jti'
    rw [h.burned]
    by_cases he : jti' = jti
    · subst he
      simp only [if_true]
      omega
    · simp only [he, if_false]

theorem Ledgered.burn (h : Ledgered pending issued offered wrong taken burned) {endpoint : Endpoint} {jti : String}
    {r : PendingRegistration} (hr : pending.registration endpoint jti = some r)
    (hge : codeAttemptLimit ≤ r.codeAttempts + 1) :
    Ledgered (pending.removeRegistration endpoint jti) issued offered
      (fun j => if j = jti then wrong j + 1 else wrong j) taken (jti :: burned) := by
  obtain ⟨hissued, htaken, hburned, hcount⟩ := h.registration hr
  refine { h with registration := ?_, unissued := ?_, burned := ?_ }
  · intro endpoint' jti' r' hr'
    obtain ⟨hne, hr'⟩ := h.registration_gone hissued hr'
    obtain ⟨hissued', htaken', hburned', hcount'⟩ := h.registration hr'
    exact ⟨hissued', htaken', by simp [hne, hburned'], by simp [hne, hcount']⟩
  · intro jti' hjti
    have hne : jti' ≠ jti := fun he => hjti (he ▸ List.mem_map_of_mem (f := Prod.snd) hissued)
    obtain ⟨hwrong, htaken', hburned'⟩ := h.unissued hjti
    exact ⟨by simp [hne, hwrong], htaken', by simp [hne, hburned']⟩
  · intro jti'
    by_cases he : jti' = jti
    · subst he
      simp only [List.mem_cons_self, if_true, true_iff]
      omega
    · simp [he, h.burned]

theorem Ledgered.consume (h : Ledgered pending issued offered wrong taken burned) {request : RegisterRequest}
    {jti : String} (hissued : (request.endpoint, jti) ∈ issued) (nowMs : Nat) :
    Ledgered (consumeRegistration pending request jti nowMs) issued offered wrong (jti :: taken) burned := by
  suffices hconsumed : Ledgered ((pending.removeRegistration request.endpoint jti).consumeChallenge request.endpoint
      request.challengeId .register nowMs).1 issued offered wrong (jti :: taken) burned from hconsumed.sweep nowMs
  refine { h with registration := ?_, unissued := ?_, challenge := ?_ }
  · intro endpoint' jti' r hr
    rw [PendingFile.registration_consumeChallenge] at hr
    obtain ⟨hne, hr⟩ := h.registration_gone hissued hr
    obtain ⟨hissued', htaken, hrest⟩ := h.registration hr
    exact ⟨hissued', by simp [hne, htaken], hrest⟩
  · intro jti' hjti
    have hne : jti' ≠ jti := fun he => hjti (he ▸ List.mem_map_of_mem (f := Prod.snd) hissued)
    obtain ⟨hwrong, htaken, hburned⟩ := h.unissued hjti
    exact ⟨hwrong, by simp [hne, htaken], hburned⟩
  · intro endpoint' id c hc
    have hstored : (pending.removeRegistration request.endpoint jti).stored endpoint' id = some c :=
      PendingFile.stored_of_consumeChallenge hc
    exact h.challenge hstored

end Ledgered

/-- What is known of a request where it stands. -/
structure Stands (issued : List (Endpoint × String)) (offered : List (String × Option String)) (phase : Phase) : Prop where
  offering : ∀ {response record nowMs}, phase = .offering response record nowMs → (record.id, record.jti) ∈ offered
  issued : ∀ {r}, phase.registering = some r → (r.request.endpoint, r.jti) ∈ issued
  bound : ∀ {r}, phase.registering = some r → (r.request.challengeId, some r.jti) ∈ offered

theorem Stands.mono {issued issued' : List (Endpoint × String)} {offered offered' : List (String × Option String)}
    {phase : Phase} (h : Stands issued offered phase) (hissued : issued ⊆ issued') (hoffered : offered ⊆ offered') :
    Stands issued' offered' phase :=
  ⟨fun he => hoffered (h.offering he), fun he => hissued (h.issued he), fun he => hoffered (h.bound he)⟩

theorem Stands.answered {issued : List (Endpoint × String)} {offered : List (String × Option String)} :
    Stands issued offered .answered := by
  constructor <;> intros <;> contradiction

/-- What all runs keep. -/
structure Consistent (s : Registrar) : Prop where
  ledgered : Ledgered s.pending s.issued s.offered s.wrong s.taken s.burned
  stands : ∀ i, Stands s.issued s.offered (s.phase i)
  bound : ∀ e ∈ s.stores, (e.challengeId, some e.jti) ∈ s.offered

@[simp] theorem setPhase_self {i : Nat} {phase : Phase} : (s.setPhase i phase).phase i = phase := by
  simp [Registrar.setPhase]

theorem setPhase_ne {i j : Nat} {phase : Phase} (h : j ≠ i) : (s.setPhase i phase).phase j = s.phase j := by
  simp [Registrar.setPhase, h]

/-- A phase of one request changes: the others stand where they stood. -/
theorem Consistent.stands_set (h : Consistent s) {i : Nat} {phase : Phase} {offered : List (String × Option String)}
    (hphase : Stands s.issued offered phase) (hoffered : s.offered ⊆ offered) (j : Nat) :
    Stands s.issued offered ((s.setPhase i phase).phase j) := by
  by_cases hj : j = i
  · subst hj
    rw [setPhase_self]
    exact hphase
  · rw [setPhase_ne hj]
    exact (h.stands j).mono (List.Subset.refl _) hoffered

/-- A request moves on with the registration it has. -/
theorem Consistent.stands_on (h : Consistent s) {i : Nat} {r : Registering} {phase : Phase}
    (hr : (s.phase i).registering = some r) (hphase : phase.registering = some r) (j : Nat) :
    Stands s.issued s.offered ((s.setPhase i phase).phase j) := by
  refine h.stands_set ⟨?_, fun he => ?_, fun he => ?_⟩ (List.Subset.refl _) j
  · rintro response record nowMs rfl
    cases hphase
  · obtain rfl := Option.some.inj (hphase.symm.trans he)
    exact (h.stands i).issued hr
  · obtain rfl := Option.some.inj (hphase.symm.trans he)
    exact (h.stands i).bound hr

theorem Consistent.stands_answered (h : Consistent s) (i j : Nat) :
    Stands s.issued s.offered ((s.setPhase i .answered).phase j) :=
  h.stands_set .answered (List.Subset.refl _) j

theorem Consistent.step (h : Consistent s) (hstep : (registrar W).step s move = some s') : Consistent s' := by
  cases move with
  | add endpoint registration nowMs =>
    simp only [registrar] at hstep
    split at hstep
    · rename_i hok
      obtain rfl := Option.some.inj hstep
      refine ⟨(h.ledgered.sweep nowMs).add hok.1 hok.2, fun i => ?_, h.bound⟩
      exact (h.stands i).mono (List.subset_cons_self _ _) (List.Subset.refl _)
    · cases hstep
  | challenge i request challengeId nowMs =>
    simp only [registrar] at hstep
    split at hstep
    · rename_i hok
      split at hstep
      · obtain rfl := Option.some.inj hstep
        exact ⟨h.ledgered, h.stands_answered i, h.bound⟩
      · rename_i options record hrecord
        have hid : record.id = challengeId := challengeRecord_id hrecord
        obtain rfl := Option.some.inj hstep
        have hsub : s.offered ⊆ (record.id, record.jti) :: s.offered := List.subset_cons_self _ _
        refine ⟨h.ledgered.draw (hid ▸ hok.2), h.stands_set ⟨fun he => ?_, ?_, ?_⟩ hsub, fun e he => hsub (h.bound e he)⟩
        · obtain ⟨-, rfl, -⟩ := Phase.offering.inj he
          exact List.mem_cons_self
        · simp [Phase.registering]
        · simp [Phase.registering]
    · cases hstep
  | offer i =>
    simp only [registrar] at hstep
    split at hstep
    · rename_i response record nowMs hphase
      obtain rfl := Option.some.inj hstep
      exact ⟨(h.ledgered.sweep nowMs).offer ((h.stands i).offering hphase), h.stands_answered i, h.bound⟩
    · cases hstep
  | register i request userAgent nowMs =>
    simp only [registrar] at hstep
    split at hstep
    · split at hstep
      · rename_i jti _ _
        obtain rfl := Option.some.inj hstep
        have hchecked := checkRegistration_checked W s.pending request jti nowMs
        have hswept := h.ledgered.sweep nowMs
        generalize (checkRegistration W s.pending request jti nowMs).1 = pending at hchecked ⊢
        generalize (checkRegistration W s.pending request jti nowMs).2 = outcome at hchecked ⊢
        generalize wrongCode W s.pending request jti nowMs = wrong at hchecked ⊢
        generalize burns W s.pending request jti nowMs = burned at hchecked ⊢
        cases hchecked with
        | refused => exact ⟨by simpa [Registrar.setPhase] using hswept, h.stands_answered i, h.bound⟩
        | rejected hr hlt =>
          exact ⟨by simpa [Registrar.setPhase] using hswept.wrongCode hr hlt, h.stands_answered i, h.bound⟩
        | burned hr hge =>
          exact ⟨by simpa [Registrar.setPhase] using hswept.burn hr hge, h.stands_answered i, h.bound⟩
        | @accepted r c accepted hr hc hjti haccepted =>
          refine ⟨by simpa [Registrar.setPhase] using hswept,
            h.stands_set ⟨by simp, fun he => ?_, fun he => ?_⟩ (List.Subset.refl _), h.bound⟩
          · obtain rfl := Option.some.inj he
            simp only [Registering.jti, haccepted]
            exact (hswept.registration hr).1
          · obtain rfl := Option.some.inj he
            simp only [Registering.jti, haccepted, ← hjti]
            exact hswept.challenge hc
      · obtain rfl := Option.some.inj hstep
        exact ⟨h.ledgered, h.stands_answered i, h.bound⟩
    · cases hstep
  | verify i =>
    simp only [registrar] at hstep
    split at hstep
    · rename_i r hphase
      split at hstep
      · obtain rfl := Option.some.inj hstep
        exact ⟨h.ledgered, h.stands_answered i, h.bound⟩
      · obtain rfl := Option.some.inj hstep
        exact ⟨h.ledgered, h.stands_on (r := r) (by rw [hphase]; rfl) rfl, h.bound⟩
    · cases hstep
  | store i id access refresh =>
    simp only [registrar] at hstep
    split at hstep
    · rename_i r credential hphase
      obtain rfl := Option.some.inj hstep
      have hr : (s.phase i).registering = some r := by rw [hphase]; rfl
      refine ⟨h.ledgered, h.stands_on hr rfl, ?_⟩
      exact List.forall_mem_cons.2 ⟨(h.stands i).bound hr, h.bound⟩
    · cases hstep
  | consume i =>
    simp only [registrar] at hstep
    split at hstep
    · rename_i r minted hphase
      obtain rfl := Option.some.inj hstep
      have hr : (s.phase i).registering = some r := by rw [hphase]; rfl
      exact ⟨h.ledgered.consume ((h.stands i).issued hr) r.nowMs, h.stands_answered i, h.bound⟩
    · cases hstep
  | stop i =>
    simp only [registrar, Option.some.injEq] at hstep
    subst hstep
    exact ⟨h.ledgered, h.stands_answered i, h.bound⟩

theorem consistent (h : (registrar W).Reachable s) : Consistent s := by
  refine h.inv _ (fun s hs => ?_) fun _ _ _ _ hk _ hstep => hk.step hstep
  obtain rfl : s = {} := hs
  refine ⟨?_, fun i => ?_, by simp⟩
  · constructor <;> simp [PendingFile.registration, PendingFile.stored, codeAttemptLimit]
  · constructor <;> simp [Phase.registering]

/-! ## A registration and a challenge are used once -/

theorem Consistent.not_burned (h : Consistent s) {jti : String} : jti ∉ s.burned ↔ s.wrong jti < codeAttemptLimit := by
  rw [h.ledgered.burned, Nat.not_le]

/-- A challenge that was used before was used for the same registration. -/
theorem Consistent.challenge_before (h : Consistent s) {i : Nat} {r : Registering}
    (hr : (s.phase i).registering = some r) (hmem : r.request.challengeId ∈ s.stores.map (·.challengeId)) :
    r.jti ∈ s.stores.map (·.jti) := by
  obtain ⟨e, he, hid⟩ := List.mem_map.1 hmem
  have hbound := h.bound e he
  rw [hid] at hbound
  have hjti : e.jti = r.jti := Option.some.inj (h.ledgered.bound hbound ((h.stands i).bound hr))
  exact hjti ▸ List.mem_map_of_mem he

/-! ## What the other requests did -/

section Deeds

variable {steps : List (Registrar × RegistrarMove × Registrar)} {jti : String} {i : Nat} {d : Deed}

theorem did_cons {t : Registrar × RegistrarMove × Registrar} :
    Did W (t :: steps) jti d ↔ deed W t.1 t.2.1 = some (jti, d) ∨ Did W steps jti d := by
  simp [Did]

theorem did_split (i : Nat) :
    Did W steps jti d ↔ Did W (since i steps) jti d ∨ Did W (upTo i steps) jti d := by
  have hsplit : since i steps ++ upTo i steps = steps := List.takeWhile_append_dropWhile
  simp only [Did, ← exists_or, ← or_and_right, ← List.mem_append, hsplit]

theorem deed_step (hstep : (registrar W).step s move = some s') (jti : String) :
    (jti ∈ s'.stores.map (·.jti) ↔ deed W s move = some (jti, .stored) ∨ jti ∈ s.stores.map (·.jti)) ∧
    (jti ∈ s'.taken ↔ deed W s move = some (jti, .consumed) ∨ jti ∈ s.taken) ∧
    (jti ∈ s'.burned ↔ deed W s move = some (jti, .burned) ∨ jti ∈ s.burned) := by
  cases move with
  | register i request userAgent nowMs =>
    simp only [registrar] at hstep
    split at hstep
    · split at hstep
      · rename_i jti' hendpoint hpeek
        obtain rfl := Option.some.inj hstep
        simp only [deed, hendpoint, hpeek, Registrar.setPhase]
        by_cases hburns : burns W s.pending request jti' nowMs = true
        · simp [hburns, eq_comm]
        · simp [hburns]
      · rename_i hnot
        obtain rfl := Option.some.inj hstep
        have hdeed : deed W s (.register i request userAgent nowMs) = none := by
          simp only [deed]
        simp [hdeed, Registrar.setPhase]
    · cases hstep
  | store i id access refresh =>
    simp only [registrar] at hstep
    split at hstep
    · rename_i r credential hphase
      obtain rfl := Option.some.inj hstep
      simp [deed, hphase, Registrar.setPhase, eq_comm]
    · cases hstep
  | consume i =>
    simp only [registrar] at hstep
    split at hstep
    · rename_i r minted hphase
      obtain rfl := Option.some.inj hstep
      simp [deed, hphase, Registrar.setPhase, eq_comm]
    · cases hstep
  | add | challenge | offer | verify | stop =>
    simp only [registrar] at hstep
    (repeat' split at hstep) <;> cases hstep <;> simp [deed, Registrar.setPhase]

/-- The notes of a state are what the steps to it did. -/
structure Noted (W : Ceremony) (steps : List (Registrar × RegistrarMove × Registrar)) (s : Registrar) : Prop where
  stored : ∀ jti, jti ∈ s.stores.map (·.jti) ↔ Did W steps jti .stored
  consumed : ∀ jti, jti ∈ s.taken ↔ Did W steps jti .consumed
  burned : ∀ jti, jti ∈ s.burned ↔ Did W steps jti .burned

theorem noted (h : (registrar W).Trace steps s) : Noted W steps s := by
  induction h with
  | init hs =>
    obtain rfl : _ = ({} : Registrar) := hs
    constructor <;> simp [Did]
  | step _ hstep ih =>
    constructor <;> intro jti
    · rw [did_cons, (deed_step hstep jti).1, ih.stored]
    · rw [did_cons, (deed_step hstep jti).2.1, ih.consumed]
    · rw [did_cons, (deed_step hstep jti).2.2, ih.burned]

theorem challengeOptions_registration {auth : AuthFile} {pending : PendingFile} {request : ChallengeRequest} {nowMs : Nat}
    {options state : Json} (h : challengeOptions W auth pending request nowMs = .ok (options, state, some jti)) :
    ∃ r, pending.registration request.endpoint jti = some r := by
  simp only [challengeOptions] at h
  obtain ⟨-, -, h⟩ := bind_ok.1 h
  cases hpurpose : request.purpose with
  | assert =>
    simp only [hpurpose] at h
    split at h
    · cases h
    · obtain ⟨_, _, h⟩ := bind_ok.1 h
      cases h
  | register =>
    simp only [hpurpose] at h
    split at h
    · cases h
    · obtain ⟨jti', -, h⟩ := bind_ok.1 h
      split at h
      · cases h
      · rename_i r hr
        obtain ⟨endpoint, -, h⟩ := bind_ok.1 h
        split at h
        · cases h
        · obtain ⟨_, _, h⟩ := bind_ok.1 h
          cases h
          exact ⟨r, (Option.filter_eq_some_iff.1 hr).1⟩

/-- The request that a challenge was drawn for names a registration of the file. -/
theorem challengeRecord_registration {auth : AuthFile} {pending : PendingFile} {request : ChallengeRequest}
    {challengeId : String} {nowMs : Nat} {options : Json} {record : PendingChallenge}
    (h : challengeRecord W auth pending request challengeId nowMs = .ok (options, record)) (hjti : record.jti = some jti) :
    ∃ r, pending.registration request.endpoint jti = some r := by
  simp only [challengeRecord] at h
  cases ho : challengeOptions W auth pending request nowMs with
  | error e =>
    rw [ho] at h
    cases h
  | ok o =>
    obtain ⟨options, state, bound⟩ := o
    rw [ho] at h
    obtain ⟨-, rfl⟩ := Prod.mk.inj (Except.ok.inj h)
    obtain rfl : bound = some jti := hjti
    exact challengeOptions_registration ho

/-- A request that is about a registration was about it before the step, or the step is its reading of the file,
which holds the registration. -/
theorem phase_step (hstep : (registrar W).step s move = some s') (hi : (s'.phase i).jti = some jti) :
    move.begins i = false ∧ (s.phase i).jti = some jti ∨
      move.begins i = true ∧ deed W s move = none ∧ ∃ endpoint r, s.pending.registration endpoint jti = some r := by
  cases move with
  | challenge j request challengeId nowMs =>
    simp only [registrar] at hstep
    split at hstep
    · by_cases hj : i = j
      · subst hj
        refine Or.inr ⟨by simp [RegistrarMove.begins], rfl, request.endpoint, ?_⟩
        split at hstep
        · obtain rfl := Option.some.inj hstep
          simp [Phase.jti] at hi
        · rename_i options record hrecord
          obtain rfl := Option.some.inj hstep
          have hjti : record.jti = some jti := by simpa [Registrar.setPhase, Phase.jti] using hi
          exact challengeRecord_registration hrecord hjti
      · refine Or.inl ⟨by simp [RegistrarMove.begins, Ne.symm hj], ?_⟩
        split at hstep <;> cases hstep <;> simpa [Registrar.setPhase, hj] using hi
    · cases hstep
  | register j request userAgent nowMs =>
    simp only [registrar] at hstep
    split at hstep
    · by_cases hj : i = j
      · subst hj
        refine Or.inr ⟨by simp [RegistrarMove.begins], ?_⟩
        split at hstep
        · rename_i jti' hendpoint hpeek
          obtain rfl := Option.some.inj hstep
          have hchecked := checkRegistration_checked W s.pending request jti' nowMs
          simp only [deed, hendpoint, hpeek]
          generalize (checkRegistration W s.pending request jti' nowMs).1 = pending at hchecked hi
          generalize (checkRegistration W s.pending request jti' nowMs).2 = outcome at hchecked hi
          generalize wrongCode W s.pending request jti' nowMs = wrong at hchecked hi
          generalize burns W s.pending request jti' nowMs = burned at hchecked hi ⊢
          cases hchecked with
          | @accepted r c accepted hr hc hjti haccepted =>
            have hjti : accepted.jti = jti := by simpa [Registrar.setPhase, Phase.jti, Registering.jti] using hi
            rw [PendingFile.registration_sweepExpired] at hr
            rw [← hjti, haccepted]
            exact ⟨by simp, request.endpoint, r, (Option.filter_eq_some_iff.1 hr).1⟩
          | refused | rejected | burned => simp [Registrar.setPhase, Phase.jti] at hi
        · obtain rfl := Option.some.inj hstep
          simp [Phase.jti] at hi
      · refine Or.inl ⟨by simp [RegistrarMove.begins, Ne.symm hj], ?_⟩
        split at hstep <;> cases hstep <;> simpa [Registrar.setPhase, hj] using hi
    · cases hstep
  | add endpoint registration nowMs =>
    simp only [registrar] at hstep
    split at hstep
    · cases hstep
      exact Or.inl ⟨rfl, hi⟩
    · cases hstep
  | offer j | verify j | store j | consume j | stop j =>
    refine Or.inl ⟨rfl, ?_⟩
    simp only [registrar] at hstep
    by_cases hj : i = j
    · subst hj
      (repeat' split at hstep) <;> cases hstep <;> simp_all [Registrar.setPhase, Phase.jti]
    · (repeat' split at hstep) <;> cases hstep <;> simpa [Registrar.setPhase, hj] using hi

/-- Where a request read the file, its registration was neither consumed nor burned. -/
theorem upTo_begun (h : (registrar W).Trace steps s) (hi : (s.phase i).jti = some jti) :
    ¬ Did W (upTo i steps) jti .consumed ∧ ¬ Did W (upTo i steps) jti .burned := by
  induction h with
  | init hs =>
    obtain rfl : _ = ({} : Registrar) := hs
    cases hi
  | @step earlier s move s' hr hstep ih =>
    rcases phase_step hstep hi with ⟨hbegins, hi⟩ | ⟨hbegins, hdeed, endpoint, r, hregistration⟩
    · rw [upTo, List.dropWhile_cons_of_pos (by simp [hbegins])]
      exact ih hi
    · obtain ⟨-, htaken, hburned, -⟩ := (consistent hr.reachable).ledgered.registration hregistration
      rw [upTo, List.dropWhile_cons_of_neg (by simp [hbegins]), did_cons, did_cons, hdeed, ← (noted hr).consumed,
        ← (noted hr).burned]
      exact ⟨by simpa using htaken, by simpa using hburned⟩

/-- A registration is burned exactly when it was burned since the request read the file. -/
theorem burned_since (h : (registrar W).Trace steps s) (hi : (s.phase i).jti = some jti) :
    jti ∈ s.burned ↔ Did W (since i steps) jti .burned := by
  rw [(noted h).burned, did_split i, or_iff_left (upTo_begun h hi).2]

/-- A credential was stored for the registration exactly when it was stored since the request's check, or by a
request that had still to consume it then. -/
theorem stored_since (h : (registrar W).Trace steps s) (hi : (s.phase i).jti = some jti) :
    jti ∉ s.stores.map (·.jti) ↔ ¬ Did W (since i steps) jti .stored ∧
      (Did W (upTo i steps) jti .stored → Did W (upTo i steps) jti .consumed) := by
  rw [(noted h).stored, did_split i, not_or, imp_iff_not (upTo_begun h hi).1]

/-- What undisturbed means for a step, in the notes of the state it is taken from. -/
theorem undisturbed_offer (h : (registrar W).Trace steps s) {response : ChallengeResponse} {record : PendingChallenge}
    {nowMs : Nat} (hphase : s.phase i = .offering response record nowMs) :
    Undisturbed W steps s (.offer i) ↔ ∀ jti, record.jti = some jti → s.wrong jti < codeAttemptLimit := by
  have hk := consistent h.reachable
  have hjti : (s.phase i).jti = record.jti := by rw [hphase]; rfl
  constructor
  · intro hu jti hrecord
    rw [← hk.not_burned, burned_since h (hjti.trans hrecord)]
    exact hu jti (hjti.trans hrecord)
  · intro hwrong jti hi
    rw [← burned_since h hi, hk.not_burned]
    exact hwrong jti (hjti.symm.trans hi)

theorem undisturbed_store (h : (registrar W).Trace steps s) {r : Registering} (hi : (s.phase i).jti = some r.jti)
    (id access refresh : String) : Undisturbed W steps s (.store i id access refresh) ↔
      s.wrong r.jti < codeAttemptLimit ∧ r.jti ∉ s.stores.map (·.jti) := by
  rw [← (consistent h.reachable).not_burned, burned_since h hi, stored_since h hi]
  refine ⟨fun hu => hu _ hi, fun hu jti hi' => ?_⟩
  obtain rfl := Option.some.inj (hi.symm.trans hi')
  exact hu

theorem undisturbed_consume (h : (registrar W).Trace steps s) {r : Registering}
    (hi : (s.phase i).jti = some r.jti) :
    Undisturbed W steps s (.consume i) ↔ s.wrong r.jti < codeAttemptLimit := by
  rw [← (consistent h.reachable).not_burned, burned_since h hi]
  refine ⟨fun hu => hu _ hi, fun hu jti hi' => ?_⟩
  obtain rfl := Option.some.inj (hi.symm.trans hi')
  exact hu

/-- A step keeps the promise exactly when it is undisturbed. -/
theorem atMostOnce_step (h : (registrar W).Trace steps s) (hstep : (registrar W).step s move = some s') :
    AtMostOnce s' ↔ AtMostOnce s ∧ Undisturbed W steps s move := by
  have hk := consistent h.reachable
  cases move with
  | offer i =>
    simp only [registrar] at hstep
    split at hstep
    · rename_i response record nowMs hphase
      obtain rfl := Option.some.inj hstep
      rw [undisturbed_offer h hphase]
      constructor
      · intro ha
        have hbefore : ∀ o ∈ s.offers, o.2 < codeAttemptLimit := fun o ho => ha.offered o (List.mem_append_right _ ho)
        refine ⟨⟨ha.registration, ha.challenge, hbefore, ha.stored, ha.answered⟩, fun jti hrecord => ?_⟩
        exact ha.offered (jti, s.wrong jti) (List.mem_append_left _ (by simp [hrecord]))
      · rintro ⟨ha, hwrong⟩
        refine ⟨ha.registration, ha.challenge, fun o ho => ?_, ha.stored, ha.answered⟩
        rcases List.mem_append.1 ho with ho | ho
        · obtain ⟨jti, hrecord, rfl⟩ := by simpa using ho
          exact hwrong jti hrecord
        · exact ha.offered o ho
    · cases hstep
  | store i id access refresh =>
    simp only [registrar] at hstep
    split at hstep
    · rename_i r credential hphase
      obtain rfl := Option.some.inj hstep
      have hi : (s.phase i).jti = some r.jti := by rw [hphase]; rfl
      have hr : (s.phase i).registering = some r := by rw [hphase]; rfl
      rw [undisturbed_store h hi]
      constructor
      · intro ha
        obtain ⟨hwrong, hstored⟩ := List.forall_mem_cons.1 ha.stored
        obtain ⟨hbefore, hregistration⟩ := List.nodup_cons.1 ha.registration
        exact ⟨⟨hregistration, (List.nodup_cons.1 ha.challenge).2, ha.offered, hstored, ha.answered⟩, hwrong, hbefore⟩
      · rintro ⟨ha, hwrong, hbefore⟩
        exact ⟨List.nodup_cons.2 ⟨hbefore, ha.registration⟩,
          List.nodup_cons.2 ⟨fun hmem => hbefore (hk.challenge_before hr hmem), ha.challenge⟩, ha.offered,
          List.forall_mem_cons.2 ⟨hwrong, ha.stored⟩, ha.answered⟩
    · cases hstep
  | consume i =>
    simp only [registrar] at hstep
    split at hstep
    · rename_i r minted hphase
      obtain rfl := Option.some.inj hstep
      have hi : (s.phase i).jti = some r.jti := by rw [hphase]; rfl
      rw [undisturbed_consume h hi]
      constructor
      · intro ha
        obtain ⟨hwrong, hanswered⟩ := List.forall_mem_cons.1 ha.answered
        exact ⟨⟨ha.registration, ha.challenge, ha.offered, ha.stored, hanswered⟩, hwrong⟩
      · rintro ⟨ha, hwrong⟩
        exact ⟨ha.registration, ha.challenge, ha.offered, ha.stored, List.forall_mem_cons.2 ⟨hwrong, ha.answered⟩⟩
    · cases hstep
  | add | challenge | register | verify | stop =>
    have hsame : s'.stores = s.stores ∧ s'.offers = s.offers ∧ s'.answers = s.answers := by
      simp only [registrar] at hstep
      (repeat' split at hstep) <;> cases hstep <;> exact ⟨rfl, rfl, rfl⟩
    obtain ⟨hstores, hoffers, hanswers⟩ := hsame
    simp only [Undisturbed, and_true]
    constructor
    · intro ha
      exact ⟨hstores ▸ ha.registration, hstores ▸ ha.challenge, hoffers ▸ ha.offered, hstores ▸ ha.stored,
        hanswers ▸ ha.answered⟩
    · intro ha
      exact ⟨hstores ▸ ha.registration, hstores ▸ ha.challenge, hoffers ▸ ha.offered, hstores ▸ ha.stored,
        hanswers ▸ ha.answered⟩

end Deeds

/-- In every run, the registrations and the challenges are used at most once, and no request succeeds after the
wrong codes, exactly when no request is overtaken between what it read and what it stores or answers. -/
theorem registrations_once_iff (W : Ceremony) {steps : List (Registrar × RegistrarMove × Registrar)} {s : Registrar}
    (hrun : (registrar W).Trace steps s) : AtMostOnce s ↔ System.Each (Undisturbed W) steps := by
  refine hrun.inv_iff_each (fun s hs => ?_) fun earlier s move s' hr hstep => atMostOnce_step hr hstep
  obtain rfl : s = {} := hs
  constructor <;> simp

end Runs

/-! ## Two requests past one check -/

/-- One registration under the code 123456, whose jwt verifies, and an authenticator that answers with the
credential ids 1 and 2. -/
def sampleCeremony : Ceremony where
  sha256Hex bytes := if bytes = bytesOf "123456" then "8d969eef6ecad3c29a3a629280e686cf0c3f5d5a86aff3ca12020c923adc6c92" else ""
  forEndpoint _ := .ok ()
  peekJti _ := .ok "jti-1"
  verifyRegistration _ _ _ := .ok "https://hyoui.example.jp/"
  startRegistration _ _ _ := .ok ("{}", "state")
  startAuthentication _ _ := .ok ("{}", "state")
  registrationState _ := .ok ()
  finishRegistration _ credential _ := .ok {
    credId := if credential = "first" then [1] else [2], counter := 0, backupEligible := false, backupState := false }

def sampleRegistration : PendingRegistration :=
  { jti := "jti-1", sub := "hyoui.example.jp-1", userId := [7], access := .rw, hmacSecret := [8]
    codeHash := "8d969eef6ecad3c29a3a629280e686cf0c3f5d5a86aff3ca12020c923adc6c92", codeAttempts := 0
    issuedLabel := none, expiresAtMs := registrationTtlMs }

def sampleChallenge : ChallengeRequest :=
  { endpoint := "https://hyoui.example.jp/", purpose := .register, jwt := some "jwt" }

def sampleRegister (challengeId : String) (credential : Json) : RegisterRequest :=
  { endpoint := "https://hyoui.example.jp/", challengeId, jwt := "jwt", code := "123456", credential, deviceLabel := none }

/-- Two browsers open one invitation. -/
def invitationMoves : List RegistrarMove :=
  [.add "https://hyoui.example.jp/" sampleRegistration 0,
    .challenge 0 sampleChallenge "challenge-1" 1, .offer 0, .challenge 1 sampleChallenge "challenge-2" 2, .offer 1]

/-- The first of them registers. -/
theorem registrations_once_first : ∃ steps s, (registrar sampleCeremony).Trace steps s ∧ s.answers.length = 1 ∧
    System.Each (Undisturbed sampleCeremony) steps := by
  obtain ⟨s, hr, hs⟩ := (System.Reach.init rfl : (registrar sampleCeremony).Reachable {}).exists_run
    (invitationMoves ++ [.register 2 (sampleRegister "challenge-1" "first") none 3, .verify 2,
      .store 2 "family-1" "access-1" "refresh-1", .consume 2])
    (p := fun s => s.answers.length = 1 ∧ (s.stores.map (·.jti)).Nodup ∧ (s.stores.map (·.challengeId)).Nodup ∧
      (∀ o ∈ s.offers, o.2 < codeAttemptLimit) ∧ (∀ e ∈ s.stores, e.wrongCodes < codeAttemptLimit) ∧
      ∀ a ∈ s.answers, a.2 < codeAttemptLimit) (by decide +kernel)
  obtain ⟨steps, hsteps⟩ := hr.trace
  obtain ⟨hanswers, hregistration, hchallenge, hoffered, hstored, hanswered⟩ := hs
  exact ⟨steps, s, hsteps, hanswers,
    (registrations_once_iff sampleCeremony hsteps).1 ⟨hregistration, hchallenge, hoffered, hstored, hanswered⟩⟩

/-- Both pass the check before either consumes the registration: two credentials and two sessions. -/
theorem registered_twice : ∃ s, (registrar sampleCeremony).Reachable s ∧
    s.answers.map (·.1) = ["jti-1", "jti-1"] ∧ s.stores.map (·.record.credentialId) = [[2], [1]] ∧ ¬ AtMostOnce s := by
  obtain ⟨s, hr, hs⟩ := (System.Reach.init rfl : (registrar sampleCeremony).Reachable {}).exists_run
    (invitationMoves ++ [.register 2 (sampleRegister "challenge-1" "first") none 3,
      .register 3 (sampleRegister "challenge-2" "second") none 4, .verify 2, .verify 3,
      .store 2 "family-1" "access-1" "refresh-1", .store 3 "family-2" "access-2" "refresh-2", .consume 2, .consume 3])
    (p := fun s => (s.answers.map (·.1) = ["jti-1", "jti-1"] ∧ s.stores.map (·.record.credentialId) = [[2], [1]]) ∧
      ¬ (s.stores.map (·.jti)).Nodup) (by decide +kernel)
  exact ⟨s, hr, hs.1.1, hs.1.2, fun ha => hs.2 ha.registration⟩

end Hyoui.Auth
