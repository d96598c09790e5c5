import Hyoui.Auth.Sockets
/-!
# Revocation reaches the open connections

Several gateway processes and the command line share one `auth.json`. A refresh that detects a reused value
revokes the family and, later, tells the connections of its own process. Whatever the order of all this, the first poll
at or after the expiry of an access token that was shown while its family was not revoked ends a connection,
and so does a poll that follows the signal.
-/

namespace Hyoui.Auth

open Hyoui.Lib Hyoui.Protocol

/-! ## The runs -/

/-- A WebSocket: past the middleware, or open. -/
inductive Socket
  | identified (identity : Identity)
  | opened (connection : Connection)

/-- The processes over one `auth.json`. `sent` counts the signals of each; `unsent` are the refreshes that
were answered `Reused` and whose handler has not signalled yet. `revokedBy` is the request that revoked a
family, and the process it came to. -/
structure Units where
  file : AuthFile := {}
  unixMs : Nat := 0
  instantMs : Nat := 0
  drawn : List String := []
  sent : Nat → Nat := fun _ => 0
  unsent : List (Nat × Request) := []
  revokedBy : Endpoint → String → Option (Nat × Request) := fun _ _ => none
  /-- With the process each belongs to. -/
  sockets : Nat → Option (Nat × Socket) := fun _ => none

/-- `nowMs` are readings of the unix clock taken for the event. -/
inductive Event
  | request (unit nowMs : Nat) (request : Request)
  | notify (unit : Nat) (request : Request)
  | pass (ms : Nat)
  | identify (unit socket : Nat) (readable : Bool) (presented : Option String) (nowMs : Nat)
  | opened (socket : Nat) (G : Web.Gateway) (response : HandshakeResponse)
  | socket (socket : Nat) (move : Connection.Move)

namespace Units

def isRevoked (file : AuthFile) (endpoint : Endpoint) (id : String) : Bool :=
  (file.family endpoint id).any (·.isTombstoned)

/-- The family has been revoked. -/
def Revoked (s : Units) (endpoint : Endpoint) (id : String) : Prop := isRevoked s.file endpoint id = true

def setSocket (s : Units) (k unit : Nat) (socket : Socket) : Units :=
  { s with sockets := fun j => if j = k then some (unit, socket) else s.sockets j }

/-- What a connection of a process sees. -/
def sight (s : Units) (unit : Nat) : Sight := ⟨s.file, s.unixMs, s.instantMs, s.sent unit⟩

/-- The refresh revoked the family of a value that came back, and its handler goes on to signal. -/
def detected : Option (Except AuthFailure MintedSession) → Bool
  | some (.error .reused) => true
  | _ => false

def onRequest (sha256Hex : List UInt8 → String) (s : Units) (unit nowMs : Nat) (request : Request) : Units :=
  let (file, answer) := request.apply sha256Hex s.file nowMs
  { s with
    file
    drawn := request.drawn ++ s.drawn
    unsent := if detected answer then (unit, request) :: s.unsent else s.unsent
    revokedBy := fun endpoint id =>
      if isRevoked file endpoint id && !isRevoked s.file endpoint id then some (unit, request)
      else s.revokedBy endpoint id }

end Units

/-- The runs of the processes. The two clocks go on together, and no token is drawn twice. -/
def units (sha256Hex : List UInt8 → String) (C : Client.Codec) (decode : String → Except String ClientFrame) :
    System Units Event where
  init s := s.file = {} ∧ s.drawn = [] ∧ s.unsent = [] ∧ s.revokedBy = (fun _ _ => none) ∧ s.sockets = fun _ => none
  step s
    | .request unit nowMs request =>
      if nowMs ≤ s.unixMs ∧ (request.drawn ++ s.drawn).Nodup then some (s.onRequest sha256Hex unit nowMs request)
      else none
    | .notify unit request =>
      if (unit, request) ∈ s.unsent then
        some { s with
          sent := fun u => if u = unit then s.sent u + 1 else s.sent u
          unsent := s.unsent.erase (unit, request) }
      else
        none
    | .pass ms => some { s with unixMs := s.unixMs + ms, instantMs := s.instantMs + ms }
    | .identify unit k readable presented nowMs =>
      if s.sockets k = none ∧ nowMs ≤ s.unixMs then
        match requireAuth (if readable then some s.file else none) presented nowMs with
        | .error _ => some s
        | .ok identity => some (s.setSocket k unit (.identified identity))
      else
        none
    | .opened k G response =>
      match s.sockets k with
      | some (unit, .identified identity) =>
        some (s.setSocket k unit (.opened (.start G response (.new identity s.instantMs s.unixMs))))
      | _ => none
    | .socket k move =>
      match s.sockets k with
      | some (unit, .opened c) =>
        (c.step C decode (s.sight unit) move).map fun c => s.setSocket k unit (.opened c)
      | _ => none

section Runs

variable {sha256Hex : List UInt8 → String} {C : Client.Codec} {decode : String → Except String ClientFrame}
variable {s s' : Units} {event : Event} {steps : List (Units × Event × Units)} {endpoint : Endpoint} {id : String}

/-- What a step of the runs does. -/
inductive Happened (sha256Hex : List UInt8 → String) (C : Client.Codec) (decode : String → Except String ClientFrame)
    (s : Units) : Event → Units → Prop
  | request {unit nowMs request} :
      nowMs ≤ s.unixMs → (Request.drawn request ++ s.drawn).Nodup →
      Happened sha256Hex C decode s (.request unit nowMs request) (s.onRequest sha256Hex unit nowMs request)
  | notify {unit request} :
      (unit, request) ∈ s.unsent →
      Happened sha256Hex C decode s (.notify unit request) { s with
        sent := fun u => if u = unit then s.sent u + 1 else s.sent u
        unsent := s.unsent.erase (unit, request) }
  | pass {ms} :
      Happened sha256Hex C decode s (.pass ms) { s with unixMs := s.unixMs + ms, instantMs := s.instantMs + ms }
  | refused {unit k readable presented nowMs} :
      Happened sha256Hex C decode s (.identify unit k readable presented nowMs) s
  | identified {unit k readable presented nowMs identity} :
      s.sockets k = none →
      requireAuth (if readable then some s.file else none) presented nowMs = .ok identity →
      Happened sha256Hex C decode s (.identify unit k readable presented nowMs) (s.setSocket k unit (.identified identity))
  | opened {unit k G response identity} :
      s.sockets k = some (unit, .identified identity) →
      Happened sha256Hex C decode s (.opened k G response)
        (s.setSocket k unit (.opened (.start G response (.new identity s.instantMs s.unixMs))))
  | moved {unit k move} {c c' : Connection} :
      s.sockets k = some (unit, .opened c) → c.step C decode (s.sight unit) move = some c' →
      Happened sha256Hex C decode s (.socket k move) (s.setSocket k unit (.opened c'))

theorem units_step (hstep : (units sha256Hex C decode).step s event = some s') :
    Happened sha256Hex C decode s event s' := by
  cases event with
  | request unit nowMs request =>
    simp only [units, Option.ite_none_right_eq_some, Option.some.injEq] at hstep
    rw [← hstep.2]
    exact .request hstep.1.1 hstep.1.2
  | notify unit request =>
    simp only [units, Option.ite_none_right_eq_some, Option.some.injEq] at hstep
    rw [← hstep.2]
    exact .notify hstep.1
  | pass ms =>
    rw [← Option.some.inj hstep]
    exact .pass
  | identify unit k readable presented nowMs =>
    simp only [units, Option.ite_none_right_eq_some] at hstep
    obtain ⟨⟨hnone, -⟩, hstep⟩ := hstep
    split at hstep
    · rw [← Option.some.inj hstep]
      exact .refused
    · rename_i identity hidentity
      rw [← Option.some.inj hstep]
      exact .identified hnone hidentity
  | opened k G response =>
    simp only [units] at hstep
    split at hstep
    · rename_i unit identity hk
      rw [← Option.some.inj hstep]
      exact .opened hk
    · cases hstep
  | socket k move =>
    simp only [units] at hstep
    split at hstep
    · rename_i unit c hk
      obtain ⟨c', hc', rfl⟩ := Option.map_eq_some_iff.1 hstep
      exact .moved hk hc'
    · cases hstep

/-! ## What is revoked stays so -/

/-- The keys of the file are those in its records, and who revoked a family is known only if it is revoked. -/
structure Tidy (s : Units) : Prop where
  key : ∀ {endpoint id family}, s.file.family endpoint id = some family →
    family.endpoint = endpoint ∧ family.id = id ∧ id ∈ s.drawn
  cause : ∀ {endpoint id cause}, s.revokedBy endpoint id = some cause → s.Revoked endpoint id

theorem Tidy.moved (h : Tidy s) {request : Request} (hdrawn : (request.drawn ++ s.drawn).Nodup)
    (sha256Hex : List UInt8 → String) (unit nowMs : Nat) (endpoint : Endpoint) (id : String) :
    Moved sha256Hex (nowMs, request) endpoint id (s.file.family endpoint id)
      ((s.onRequest sha256Hex unit nowMs request).file.family endpoint id) :=
  Moved.of_apply (fun hf => (h.key hf).2.2) hdrawn endpoint id

theorem Tidy.revoked_request (h : Tidy s) {unit nowMs : Nat} {request : Request}
    (hdrawn : (request.drawn ++ s.drawn).Nodup) (hrevoked : s.Revoked endpoint id) :
    (s.onRequest sha256Hex unit nowMs request).Revoked endpoint id := by
  have hmoved := h.moved hdrawn sha256Hex unit nowMs endpoint id
  simp only [Units.Revoked, Units.isRevoked, Option.any_eq_true] at hrevoked ⊢
  obtain ⟨family, hf, htomb⟩ := hrevoked
  rw [hf] at hmoved
  generalize (s.onRequest sha256Hex unit nowMs request).file.family endpoint id = record at hmoved ⊢
  cases hmoved with
  | same => exact ⟨family, rfl, htomb⟩
  | rotated _ hlive | tombstoned hlive =>
    rw [htomb] at hlive
    cases hlive

theorem Tidy.step (h : Tidy s) (hs : Happened sha256Hex C decode s event s') : Tidy s' := by
  cases hs with
  | @request unit nowMs request _ hdrawn =>
    refine ⟨fun {endpoint id family'} hf' => ?_, fun {endpoint id cause} hcause => ?_⟩
    · have hmoved := h.moved hdrawn sha256Hex unit nowMs endpoint id
      rw [hf'] at hmoved
      have hold : ∀ {family}, s.file.family endpoint id = some family →
          family.endpoint = endpoint ∧ family.id = id ∧ id ∈ request.drawn ++ s.drawn :=
        fun hf => ⟨(h.key hf).1, (h.key hf).2.1, List.mem_append_right _ (h.key hf).2.2⟩
      generalize hf : s.file.family endpoint id = record at hmoved
      cases hmoved with
      | minted he => exact ⟨rfl, rfl, List.mem_append_left _ (by simp only at he; simp [he, Request.drawn])⟩
      | same | rotated | tombstoned => exact (hold hf :)
    · simp only [Units.onRequest] at hcause
      split at hcause
      · rename_i hnew
        exact (Bool.and_eq_true _ _ ▸ hnew).1
      · exact h.revoked_request hdrawn (h.cause hcause)
  | notify | pass | refused | identified | opened | moved => exact ⟨h.key, h.cause⟩

theorem Tidy.init (h : (units sha256Hex C decode).init s) : Tidy s := by
  obtain ⟨hfile, hdrawn, -, hcause, -⟩ := h
  refine ⟨fun hf => ?_, fun hr => ?_⟩
  · rw [hfile] at hf
    simp [AuthFile.family] at hf
  · rw [hcause] at hr
    cases hr

theorem tidy (h : (units sha256Hex C decode).Reachable s) : Tidy s :=
  h.inv _ (fun _ => Tidy.init) fun _ _ _ _ ht _ hstep => ht.step (units_step hstep)

theorem Tidy.revoked_step (h : Tidy s) (hs : Happened sha256Hex C decode s event s')
    (hrevoked : s.Revoked endpoint id) : s'.Revoked endpoint id := by
  cases hs with
  | request _ hdrawn => exact h.revoked_request hdrawn hrevoked
  | notify | pass | refused | identified | opened | moved => exact hrevoked

/-- A family that was revoked at any time is revoked now. -/
theorem revoked_of_trace (h : (units sha256Hex C decode).Trace steps s) {t : Units × Event × Units} (ht : t ∈ steps)
    (hrevoked : t.2.2.Revoked endpoint id) : s.Revoked endpoint id := by
  induction h with
  | init => cases ht
  | step hr hstep ih =>
    rcases List.mem_cons.1 ht with rfl | ht
    · exact hrevoked
    · exact (tidy hr.reachable).revoked_step (units_step hstep) (ih ht)

/-- A refresh that revokes a family has detected a value that came back. -/
theorem detected_of_revoked {unit nowMs : Nat} {endpoint' : Endpoint}
    {presented newRefresh newAccess : String}
    (hrevoked : (s.onRequest sha256Hex unit nowMs (.refresh endpoint' presented newRefresh newAccess)).Revoked endpoint id)
    (hlive : ¬ s.Revoked endpoint id) :
    (unit, Request.refresh endpoint' presented newRefresh newAccess) ∈
      (s.onRequest sha256Hex unit nowMs (.refresh endpoint' presented newRefresh newAccess)).unsent := by
  have hreused : ∀ file answer, Refreshed sha256Hex s.file endpoint' presented newRefresh newAccess nowMs file answer →
      Units.isRevoked file endpoint id = true → answer = .error .reused := by
    intro file answer hr hfile
    cases hr with
    | unknown | tombstoned | replay | lapsed => exact absurd hfile hlive
    | reused => rfl
    | @current id' family hf htomb _ =>
      refine absurd ?_ hlive
      simp only [Units.Revoked, Units.isRevoked, AuthFile.family_putFamily] at hfile ⊢
      split at hfile
      · simp only [Option.any_some, FamilyRecord.isTombstoned, FamilyRecord.rotateRefresh] at hfile htomb
        rw [hfile] at htomb
        cases htomb
      · exact hfile
  have hanswer := hreused _ _
    (refreshBlocking_refreshed sha256Hex s.file endpoint' presented newRefresh newAccess nowMs) hrevoked
  simp only [Units.onRequest, Request.apply, hanswer]
  exact List.mem_cons_self

/-! ## What the runs keep of a WebSocket -/

/-- The access token a browser shows for a WebSocket: to the middleware, or to extend it. -/
def Event.shows (decode : String → Except String ClientFrame) (k : Nat) : Event → Option String
  | .identify _ k' _ presented _ => if k' = k then presented else none
  | .socket k' (.receive _ _ incoming) => if k' = k then incoming.extension decode else none
  | _ => none

/-- At this step the browser shows the access token that the family holds, while it is not revoked. -/
def Shown (decode : String → Except String ClientFrame) (k : Nat) (endpoint : Endpoint) (id : String)
    (expiresAtMs : Nat) (t : Units × Event × Units) : Prop :=
  ∃ family, t.1.file.family endpoint id = some family ∧ family.isTombstoned = false ∧
    t.2.1.shows decode k = some family.access.value ∧ family.access.expiresAtMs = expiresAtMs

def Request.isRefresh : Request → Bool
  | refresh .. => true
  | _ => false

/-- What the runs keep of an open connection. -/
structure Guarded (decode : String → Except String ClientFrame) (steps : List (Units × Event × Units)) (s : Units)
    (k unit : Nat) (c : Connection) : Prop where
  shown : ∃ t ∈ steps, Shown decode k c.auth.endpoint c.auth.familyId c.auth.expiresAtMs t
  /-- The timers and the unix clock go on together. -/
  clock : c.auth.anchor.2 ≤ s.unixMs ∧ c.auth.anchor.1 + (s.unixMs - c.auth.anchor.2) = s.instantMs
  seen : ∀ n, c.auth.seen = some n → n ≤ s.sent unit
  /-- The connection has not taken note of a reuse detection of its process, or has ended. -/
  told : ∀ {request}, s.revokedBy c.auth.endpoint c.auth.familyId = some (unit, request) → request.isRefresh = true →
    (unit, request) ∈ s.unsent ∨ c.auth.seen ≠ some (s.sent unit) ∨ c.reading = false
  fit : c.Fit
  silent : ∀ t ∈ steps, ∀ u c₀, t.2.2.sockets k = some (u, .opened c₀) → c₀.lost ≠ none →
    c.reading = false ∧ c.lost = c₀.lost ∧ c.fed = c₀.fed

/-- The same of every place for a WebSocket. -/
def Sound (decode : String → Except String ClientFrame) (steps : List (Units × Event × Units)) (s : Units) (k : Nat) :
    Option (Nat × Socket) → Prop
  | none => ∀ t ∈ steps, ∀ u c₀, t.2.2.sockets k ≠ some (u, .opened c₀)
  | some (_, .identified identity) =>
    (∀ t ∈ steps, ∀ u c₀, t.2.2.sockets k ≠ some (u, .opened c₀)) ∧
      ∃ t ∈ steps, Shown decode k identity.endpoint identity.familyId identity.accessExpiresAtMs t
  | some (unit, .opened c) => Guarded decode steps s k unit c

theorem exists_mem_cons {α : Type} {p : α → Prop} {a : α} {l : List α} (h : ∃ t ∈ l, p t) : ∃ t ∈ a :: l, p t := by
  obtain ⟨t, ht, hp⟩ := h
  exact ⟨t, List.mem_cons_of_mem _ ht, hp⟩

/-- A signal that is sent later than the last look is one not taken note of. -/
theorem told_step {unit : Nat} {request : Request} {seen : Option Nat} {ended : Prop}
    (hseen : ∀ n, seen = some n → n ≤ s.sent unit)
    (htold : s.revokedBy endpoint id = some (unit, request) →
      (unit, request) ∈ s.unsent ∨ seen ≠ some (s.sent unit) ∨ ended)
    (hs : Happened sha256Hex C decode s event s') (hby : s'.revokedBy endpoint id = some (unit, request))
    (hrefresh : request.isRefresh = true) : (unit, request) ∈ s'.unsent ∨ seen ≠ some (s'.sent unit) ∨ ended := by
  cases hs with
  | @request unit' nowMs request' =>
    by_cases hnew : Units.isRevoked (s.onRequest sha256Hex unit' nowMs request').file endpoint id = true ∧
        ¬ Units.isRevoked s.file endpoint id = true
    · have hcause : (s.onRequest sha256Hex unit' nowMs request').revokedBy endpoint id = some (unit', request') := by
        simp only [Units.onRequest] at hnew ⊢
        simp [hnew]
      rw [hcause] at hby
      cases hby
      cases request with
      | refresh => exact Or.inl (detected_of_revoked hnew.1 hnew.2)
      | mint | passkeyRemove | sessionRemove => cases hrefresh
    · have hcause : (s.onRequest sha256Hex unit' nowMs request').revokedBy endpoint id = s.revokedBy endpoint id := by
        simp only [Units.onRequest] at hnew ⊢
        rw [if_neg]
        simpa using hnew
      rw [hcause] at hby
      rcases htold hby with hmem | hrest
      · refine Or.inl ?_
        simp only [Units.onRequest]
        split
        · exact List.mem_cons_of_mem _ hmem
        · exact hmem
      · exact Or.inr hrest
  | @notify unit' request' _ =>
    have hlater : unit = unit' → seen ≠ some (s.sent unit' + 1) := by
      rintro rfl he
      have := hseen _ he
      omega
    dsimp only
    by_cases hunit : unit = unit'
    · subst hunit
      exact Or.inr (Or.inl (by simpa using hlater rfl))
    · rw [if_neg hunit]
      rcases htold hby with hmem | hrest
      · exact Or.inl ((List.mem_erase_of_ne fun he => hunit (congrArg Prod.fst he)).2 hmem)
      · exact Or.inr hrest
  | pass | refused | identified | opened | moved => exact htold hby

/-- A step that leaves a connection alone. -/
theorem Guarded.idle {k unit : Nat} {c : Connection} (h : Guarded decode steps s k unit c)
    (hs : Happened sha256Hex C decode s event s') (hsame : s'.sockets k = some (unit, .opened c)) :
    Guarded decode ((s, event, s') :: steps) s' k unit c := by
  have hclock : c.auth.anchor.2 ≤ s'.unixMs ∧ c.auth.anchor.1 + (s'.unixMs - c.auth.anchor.2) = s'.instantMs := by
    have := h.clock
    cases hs with
    | pass =>
      dsimp only
      omega
    | request | notify | refused | identified | opened | moved => exact this
  refine ⟨exists_mem_cons h.shown, hclock, ?_, ?_, h.fit, ?_⟩
  · intro n hn
    have hle := h.seen n hn
    cases hs with
    | notify _ =>
      dsimp only
      split
      · rename_i he
        subst he
        omega
      · exact hle
    | request | pass | refused | identified | opened | moved => exact hle
  · intro request hby hrefresh
    exact told_step h.seen (fun hby => h.told hby hrefresh) hs hby hrefresh
  · intro t ht u c₀ hk hlost
    rcases List.mem_cons.1 ht with rfl | ht
    · rw [hsame] at hk
      cases hk
      exact ⟨h.fit.ended hlost, rfl, rfl⟩
    · exact h.silent t ht u c₀ hk hlost

theorem familyIsRevoked_of_revoked (h : s.Revoked endpoint id) (readable : Bool) :
    familyIsRevoked (if readable then some s.file else none) endpoint id = true := by
  cases readable with
  | false => rfl
  | true =>
    simp only [Units.Revoked, Units.isRevoked, Option.any_eq_true] at h
    obtain ⟨family, hf, htomb⟩ := h
    simp [familyIsRevoked, hf, htomb]

/-- A poll of a connection that has a signal to take note of, and whose family is revoked. -/
theorem poll_of_revoked {unit : Nat} {c : Connection} (hrevoked : s.Revoked c.auth.endpoint c.auth.familyId)
    (hseen : c.auth.seen ≠ some (s.sent unit)) (readable timerFirst : Bool) :
    (c.poll (if readable then some s.file else none) s.instantMs (s.sent unit) timerFirst).lost ≠ none := by
  obtain ⟨loss, hloss⟩ : ∃ loss,
      (c.auth.lost (if readable then some s.file else none) s.instantMs (s.sent unit) timerFirst).1 = some loss :=
    WsAuth.lost_of_revoked hseen (familyIsRevoked_of_revoked hrevoked readable) timerFirst
  rw [Connection.poll_lost hloss]
  exact Option.some_ne_none loss

/-- A step of the connection itself. -/
theorem Guarded.moved {k unit : Nat} {c c' : Connection} {move : Connection.Move}
    (h : Guarded decode steps s k unit c) (ht : Tidy s)
    (hstep : c.step C decode (s.sight unit) move = some c') :
    Guarded decode ((s, .socket k move, s.setSocket k unit (.opened c')) :: steps)
      (s.setSocket k unit (.opened c')) k unit c' := by
  have hturned := Connection.step_turned hstep
  have hfit := h.fit.step hstep
  obtain ⟨hendpoint, hid, hanchor⟩ := hturned.same_family
  refine ⟨?_, ?_, ?_, ?_, hfit, ?_⟩
  · rw [hendpoint, hid]
    generalize c'.auth = auth' at hturned ⊢
    cases hturned with
    | same | seen => exact exists_mem_cons h.shown
    | @extended readable nowMs incoming presented family hpresented hf htomb hvalue =>
      exact ⟨_, List.mem_cons_self, family, hf, htomb, by simp [Event.shows, hpresented, hvalue], rfl⟩
  · rw [hanchor]
    exact h.clock
  · intro n hn
    generalize c'.auth = auth' at hturned hn
    cases hturned with
    | same | extended => exact h.seen n hn
    | seen =>
      cases hn
      exact Nat.le_refl _
  · intro request hby hrefresh
    rw [hendpoint, hid] at hby
    have hhalted : c.reading = false → c'.reading = false := fun hr => (Connection.step_halted hstep hr).1
    have htold : (unit, request) ∈ s.unsent ∨ c.auth.seen ≠ some (s.sent unit) ∨ c.reading = false :=
      h.told hby hrefresh
    by_cases hsame : c'.auth.seen = c.auth.seen
    · rw [hsame]
      exact htold.imp_right (Or.imp_right hhalted)
    · -- The connection took note of a signal: with the family revoked, this poll ends it.
      have hpoll : ∃ readable timerFirst, move = .poll readable timerFirst := by
        generalize c'.auth = auth' at hturned hsame
        cases hturned with
        | same | extended => exact absurd rfl hsame
        | seen => exact ⟨_, _, rfl⟩
      obtain ⟨readable, timerFirst, rfl⟩ := hpoll
      rcases htold with hmem | hseen | hr
      · exact Or.inl hmem
      · simp only [Connection.step, Option.ite_none_right_eq_some, Option.some.injEq] at hstep
        refine Or.inr (Or.inr (hfit.ended ?_))
        rw [← hstep.2]
        exact poll_of_revoked (ht.cause hby) hseen readable timerFirst
      · exact Or.inr (Or.inr (hhalted hr))
  · intro t ht u c₀ hk hlost
    rcases List.mem_cons.1 ht with rfl | ht
    · simp only [Units.setSocket, if_true, Option.some.injEq, Prod.mk.injEq, Socket.opened.injEq] at hk
      rw [← hk.2] at hlost ⊢
      exact ⟨hfit.ended hlost, rfl, rfl⟩
    · obtain ⟨hreading, hsame, hfed⟩ := h.silent t ht u c₀ hk hlost
      obtain ⟨hreading', hsame', hfed'⟩ := Connection.step_halted hstep hreading
      exact ⟨hreading', hsame'.trans hsame, hfed'.trans hfed⟩

/-- What the middleware lets through shows the access token of a family that is not revoked. -/
theorem Tidy.identified (h : Tidy s) {readable : Bool} {presented : Option String} {nowMs unit k : Nat}
    {identity : Identity}
    (hidentity : requireAuth (if readable then some s.file else none) presented nowMs = .ok identity) :
    Shown decode k identity.endpoint identity.familyId identity.accessExpiresAtMs
      (s, .identify unit k readable presented nowMs, s') := by
  cases presented with
  | none => cases hidentity
  | some presented =>
    cases readable with
    | false => cases hidentity
    | true =>
      simp only [requireAuth, if_true] at hidentity
      split at hidentity
      · cases hidentity
      · rename_i family hfind
        obtain ⟨⟨endpoint, id, hf⟩, htomb, -, hvalue⟩ := AuthFile.findLiveFamilyByAccess_some hfind
        obtain ⟨hendpoint, hid, -⟩ := h.key hf
        cases hidentity
        exact ⟨family, by rw [hendpoint, hid]; exact hf, htomb, by simp [Event.shows, hvalue], rfl⟩

theorem Sound.idle {k : Nat} {place : Option (Nat × Socket)} (h : Sound decode steps s k place)
    (hs : Happened sha256Hex C decode s event s') (hsame : s'.sockets k = place) :
    Sound decode ((s, event, s') :: steps) s' k place := by
  have hclosed : (∀ u c, place ≠ some (u, .opened c)) →
      (∀ t ∈ steps, ∀ u c₀, t.2.2.sockets k ≠ some (u, .opened c₀)) →
      ∀ t ∈ (s, event, s') :: steps, ∀ u c₀, t.2.2.sockets k ≠ some (u, .opened c₀) := by
    intro hplace hsteps t ht u c₀
    rcases List.mem_cons.1 ht with rfl | ht
    · rw [hsame]
      exact hplace u c₀
    · exact hsteps t ht u c₀
  match place with
  | none => exact hclosed (by simp) h
  | some (_, .identified identity) => exact ⟨hclosed (by simp) h.1, exists_mem_cons h.2⟩
  | some (unit, .opened c) => exact Guarded.idle h hs hsame

theorem Guarded.opened {k unit : Nat} {identity : Identity} {G : Web.Gateway} {response : HandshakeResponse}
    (hclosed : ∀ t ∈ steps, ∀ u c₀, t.2.2.sockets k ≠ some (u, .opened c₀))
    (hshown : ∃ t ∈ steps, Shown decode k identity.endpoint identity.familyId identity.accessExpiresAtMs t)
    (hs' : s' = s.setSocket k unit (.opened (.start G response (.new identity s.instantMs s.unixMs)))) :
    Guarded decode ((s, event, s') :: steps) s' k unit
      (.start G response (.new identity s.instantMs s.unixMs)) := by
  subst hs'
  refine ⟨exists_mem_cons hshown, ⟨Nat.le_refl _, ?_⟩, ?_, ?_, .start .., ?_⟩
  · simp [Connection.start, WsAuth.new, Units.setSocket]
  · intro n hn
    cases hn
  · intro request _ _
    exact Or.inr (Or.inl (by simp [Connection.start, WsAuth.new]))
  · intro t ht u c₀ hk hlost
    rcases List.mem_cons.1 ht with rfl | ht
    · simp only [Units.setSocket, if_true, Option.some.injEq, Prod.mk.injEq, Socket.opened.injEq] at hk
      rw [← hk.2] at hlost
      exact absurd rfl hlost
    · exact absurd hk (hclosed t ht u c₀)

theorem sound (h : (units sha256Hex C decode).Trace steps s) (k : Nat) : Sound decode steps s k (s.sockets k) := by
  induction h with
  | init hi =>
    obtain ⟨-, -, -, -, hsockets⟩ := hi
    rw [hsockets]
    exact fun t ht => absurd ht List.not_mem_nil
  | @step steps s event s' hr hstep ih =>
    have hs := units_step hstep
    have hidle : s'.sockets k = s.sockets k → Sound decode ((s, event, s') :: steps) s' k (s'.sockets k) :=
      fun hsame => Sound.idle (hsame ▸ ih) hs rfl
    cases hs with
    | request | notify | pass | refused => exact hidle rfl
    | @identified unit k' readable presented nowMs identity hnone hidentity =>
      by_cases hk : k = k'
      · subst hk
        rw [hnone] at ih
        simp only [Units.setSocket, if_true]
        refine ⟨fun t ht u c₀ => ?_, _, List.mem_cons_self, (tidy hr.reachable).identified hidentity⟩
        rcases List.mem_cons.1 ht with rfl | ht
        · simp
        · exact ih t ht u c₀
      · exact hidle (if_neg hk)
    | @opened unit k' G response identity hopen =>
      by_cases hk : k = k'
      · subst hk
        rw [hopen] at ih
        have hopened : (s.setSocket k unit (.opened
            (.start G response (.new identity s.instantMs s.unixMs)))).sockets k = some (unit, .opened
              (.start G response (.new identity s.instantMs s.unixMs))) := if_pos rfl
        rw [hopened]
        exact Guarded.opened ih.1 ih.2 rfl
      · exact hidle (if_neg hk)
    | @moved unit k' move c c' hopen hmove =>
      by_cases hk : k = k'
      · subst hk
        rw [hopen] at ih
        have hopened : (s.setSocket k unit (.opened c')).sockets k = some (unit, .opened c') := if_pos rfl
        rw [hopened]
        exact Guarded.moved ih (tidy hr.reachable) hmove
      · exact hidle (if_neg hk)

/-- The next poll of `lost` ends the connection, whichever branch of the select is first. -/
def PollEnds (sha256Hex : List UInt8 → String) (C : Client.Codec) (decode : String → Except String ClientFrame)
    (s : Units) (k : Nat) : Prop :=
  ∀ readable timerFirst, ∃ s' unit c',
    (units sha256Hex C decode).step s (.socket k (.poll readable timerFirst)) = some s' ∧
      s'.sockets k = some (unit, .opened c') ∧ c'.lost ≠ none ∧ c'.reading = false

/-- How long the connection `k` lives, and what comes after its end. -/
structure Ends (sha256Hex : List UInt8 → String) (C : Client.Codec) (decode : String → Except String ClientFrame)
    (steps : List (Units × Event × Units)) (s : Units) (k unit : Nat) (c : Connection) : Prop where
  /-- The expiry is that of an access token which the family held when it was shown, not revoked. -/
  shown : ∃ t ∈ steps, Shown decode k c.auth.endpoint c.auth.familyId c.auth.expiresAtMs t
  refused : ∀ t ∈ steps, t.2.2.Revoked c.auth.endpoint c.auth.familyId →
    ∀ (readable : Bool) presented nowMs, ∃ loss,
      (c.auth.extendAt (if readable then some s.file else none) presented nowMs).1 = .error loss
  /-- From the expiry on the next poll ends the connection, and a poll of the run at or after it has. -/
  expired : c.reading = true → c.auth.expiresAtMs ≤ s.unixMs → PollEnds sha256Hex C decode s k
  ended : ∀ t ∈ steps, ∀ u c₀, t.1.sockets k = some (u, .opened c₀) → c₀.auth.expiresAtMs ≤ t.1.unixMs →
    (∃ readable timerFirst, t.2.1 = .socket k (.poll readable timerFirst)) → c.reading = false ∧ c.lost ≠ none
  /-- A reuse detection of the same process, once its handler has signalled, before or after the connection
  subscribed. -/
  detected : c.reading = true → ∀ request,
    s.revokedBy c.auth.endpoint c.auth.familyId = some (unit, request) → request.isRefresh = true →
    (unit, request) ∈ s.unsent ∨ PollEnds sha256Hex C decode s k
  /-- The first poll after the connection subscribed sees any revocation. -/
  first : c.reading = true → c.auth.seen = none → s.Revoked c.auth.endpoint c.auth.familyId →
    PollEnds sha256Hex C decode s k
  /-- After the loss the bridge is fed no more, and it only takes what it was fed. -/
  silent : ∀ t ∈ steps, ∀ u c₀, t.2.2.sockets k = some (u, .opened c₀) → c₀.lost ≠ none →
    c.reading = false ∧ c.lost = c₀.lost ∧ c.fed = c₀.fed
  taken : c.bridge.input <:+ c.fed
  closed : ∀ pre frame suf, c.wire = pre ++ .close frame :: suf → suf = []

theorem Guarded.pollEnds {k unit : Nat} {c : Connection} (h : Guarded decode steps s k unit c)
    (hk : s.sockets k = some (unit, .opened c)) (hreading : c.reading = true)
    (hlost : ∀ readable timerFirst : Bool,
      (c.poll (if readable then some s.file else none) s.instantMs (s.sent unit) timerFirst).lost ≠ none) :
    PollEnds sha256Hex C decode s k := by
  intro readable timerFirst
  have hstep : c.step C decode (s.sight unit) (.poll readable timerFirst) =
      some (c.poll (if readable then some s.file else none) s.instantMs (s.sent unit) timerFirst) := by
    simp only [Connection.step, hreading, if_true]
    rfl
  refine ⟨s.setSocket k unit (.opened
    (c.poll (if readable then some s.file else none) s.instantMs (s.sent unit) timerFirst)), unit, _, ?_, if_pos rfl,
    hlost readable timerFirst, (h.fit.step hstep).ended (hlost readable timerFirst)⟩
  simp only [units, hk, hstep, Option.map_some]

theorem Guarded.poll_of_expired {k unit : Nat} {c : Connection} (h : Guarded decode steps s k unit c)
    (hexpired : c.auth.expiresAtMs ≤ s.unixMs) (readable timerFirst : Bool) :
    (c.poll (if readable then some s.file else none) s.instantMs (s.sent unit) timerFirst).lost ≠ none := by
  have hdeadline : c.auth.expired s.instantMs = true := by
    have := h.clock
    unfold WsAuth.expired WsAuth.deadline
    exact decide_eq_true (by omega)
  obtain ⟨loss, hloss⟩ : ∃ loss,
      (c.auth.lost (if readable then some s.file else none) s.instantMs (s.sent unit) timerFirst).1 = some loss :=
    WsAuth.lost_of_expired hdeadline timerFirst
  rw [Connection.poll_lost hloss]
  exact Option.some_ne_none loss

/-- A poll of the run at or after the expiry has ended the connection. -/
theorem ended_of_poll (h : (units sha256Hex C decode).Trace steps s) {t : Units × Event × Units} (ht : t ∈ steps)
    {k unit : Nat} {c : Connection} (hk : t.1.sockets k = some (unit, .opened c))
    (hexpired : c.auth.expiresAtMs ≤ t.1.unixMs) {readable timerFirst : Bool}
    (hmove : t.2.1 = .socket k (.poll readable timerFirst)) :
    ∃ c', t.2.2.sockets k = some (unit, .opened c') ∧ c'.lost ≠ none := by
  obtain ⟨later, earlier, rfl⟩ := List.append_of_mem ht
  obtain ⟨hearlier, hstep⟩ := h.split
  have hsound := sound hearlier k
  rw [hk] at hsound
  have hguarded : Guarded decode earlier t.1 k unit c := hsound
  rw [hmove] at hstep
  simp only [units, hk] at hstep
  obtain ⟨c', hc', hs'⟩ := Option.map_eq_some_iff.1 hstep
  simp only [Connection.step, Option.ite_none_right_eq_some, Option.some.injEq] at hc'
  refine ⟨c', by rw [← hs']; exact if_pos rfl, ?_⟩
  rw [← hc'.2]
  exact hguarded.poll_of_expired hexpired readable timerFirst

end Runs

/-- The sha256 of three refresh values. -/
def sampleDigest (bytes : List UInt8) : String :=
  if bytes = bytesOf "refresh-1" then "bd473e5dcdce2510c2df4f0c5a54a605fa3647fe74afae20a8cdb8b91b1a1f63"
  else if bytes = bytesOf "refresh-2" then "f865a88f563b9fbc4c224f6fbabd2ec9f810efefc61b212bda20ee64a6fb2840"
  else if bytes = bytesOf "refresh-3" then "4482e973ec11c6135fee76b488ae112dbad4fd03fea792ace9c0cf7875e714fe"
  else ""

/-- The runs without text frames, and without a daemon that answers. -/
abbrev sampleUnits : System Units Event :=
  units sampleDigest ⟨fun _ => none, fun _ => none, fun _ => none⟩ fun _ => .error "expected value"

abbrev SamplePollEnds : Units → Nat → Prop :=
  PollEnds sampleDigest ⟨fun _ => none, fun _ => none, fun _ => none⟩ fun _ => .error "expected value"

def sampleSignIn : Event :=
  .request 0 0 (.mint "https://hyoui.example.jp/" "hyoui.example.jp-1" "family-1" "access-1" "refresh-1")

def sampleReuse : Request := .refresh "https://hyoui.example.jp/" "refresh-1" "refresh-4" "access-4"

/-- The WebSocket of the first unit's first connection, once it is open. -/
def firstOpened (s : Units) : Option Connection :=
  match s.sockets 0 with
  | some (0, .opened c) => some c
  | _ => none

theorem sockets_of_firstOpened {s : Units} {c : Connection} (h : firstOpened s = some c) :
    s.sockets 0 = some (0, .opened c) := by
  unfold firstOpened at h
  split at h
  · rename_i hk
    cases h
    exact hk
  · cases h

theorem sampleUnits_init : sampleUnits.Reachable {} := .init ⟨rfl, rfl, rfl, rfl, rfl⟩

/-- A poll between the reuse detection and its signal leaves the connection as it is. -/
theorem poll_before_signal : ∃ s c, sampleUnits.Reachable s ∧ s.sockets 0 = some (0, .opened c) ∧ c.reading = true ∧
    s.revokedBy c.auth.endpoint c.auth.familyId = some (0, sampleReuse) ∧ ¬ SamplePollEnds s 0 := by
  obtain ⟨s, hr, hs⟩ := sampleUnits_init.exists_run [
      sampleSignIn,
      .request 0 0 (.refresh "https://hyoui.example.jp/" "refresh-1" "refresh-2" "access-2"),
      .request 0 0 (.refresh "https://hyoui.example.jp/" "refresh-2" "refresh-3" "access-3"),
      .identify 0 0 true (some "access-1") 0,
      .opened 0 ⟨"", none, ""⟩ ⟨[], "", 0, true, .rw, false⟩,
      .socket 0 (.poll true true),
      .request 0 0 sampleReuse]
    (p := fun s => (firstOpened s).any (fun c => c.reading && decide (c.lost = none) &&
      decide (s.revokedBy c.auth.endpoint c.auth.familyId = some (0, sampleReuse)) &&
      decide ((c.poll (some s.file) s.instantMs (s.sent 0) true).lost = none)) = true) (by decide +kernel)
  obtain ⟨c, hfirst, hs⟩ := (Option.any_eq_true ..).1 hs
  have hk := sockets_of_firstOpened hfirst
  simp only [Bool.and_eq_true, decide_eq_true_eq] at hs
  refine ⟨s, c, hr, hk, hs.1.1.1, hs.1.2, fun hends => ?_⟩
  obtain ⟨s', unit, c', hstep, hk', hlost, -⟩ := hends true true
  simp only [units, hk, Connection.step, hs.1.1.1, if_true, Option.map_some, Option.some.injEq] at hstep
  rw [← hstep] at hk'
  simp only [Units.setSocket, if_true, Option.some.injEq, Prod.mk.injEq, Socket.opened.injEq] at hk'
  rw [← hk'.2] at hlost
  exact hlost hs.2

/-- Past the expiry, a message that the select takes before the timer still reaches the bridge. -/
theorem message_after_expiry : ∃ s c, sampleUnits.Reachable s ∧ s.sockets 0 = some (0, .opened c) ∧ c.reading = true ∧
    c.auth.expiresAtMs < s.unixMs ∧ c.fed = [.bytes [104]] := by
  obtain ⟨s, hr, hs⟩ := sampleUnits_init.exists_run [
      sampleSignIn,
      .identify 0 0 true (some "access-1") 0,
      .opened 0 ⟨"", none, ""⟩ ⟨[], "", 0, true, .rw, false⟩,
      .pass (accessTtlMs + 1),
      .socket 0 (.receive true 0 (.message (.binary [104])))]
    (p := fun s => (firstOpened s).any (fun c => c.reading && decide (c.auth.expiresAtMs < s.unixMs) &&
      decide (c.fed = [.bytes [104]])) = true) (by decide +kernel)
  obtain ⟨c, hfirst, hs⟩ := (Option.any_eq_true ..).1 hs
  simp only [Bool.and_eq_true, decide_eq_true_eq] at hs
  exact ⟨s, c, hr, sockets_of_firstOpened hfirst, hs.1.1, hs.1.2, hs.2⟩

end Hyoui.Auth
