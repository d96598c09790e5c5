import Hyoui.Daemon.Pristine
/-!
# How many clients are attached

A connection is refused while the list of clients is full, but a handshake that began before may
complete when it is. `Roll.attaching` counts beforehand how many clients a pass over the handshakes
leaves; a run in whose passes that many fit keeps the list within the limit. So does every run that
accepts a connection only where it leaves a place for each handshake that is pending: there the
check at the listener is enough.
-/

namespace Hyoui.Daemon

open Hyoui.Protocol Hyoui.Lib

/-! ## Counting a pass -/

def ClientHandle.writes (ch : ClientHandle) : Bool := ch.mode = .rw || ch.mode = .rwNoLeader

/-- What decides which handshakes are granted: how many clients are attached, whether one of them writes or leads,
and the id the next one gets. -/
structure Roll where
  attached : Nat
  writer : Bool
  leader : Bool
  nextId : ClientId

def Session.roll (s : Session) : Roll := {
  attached := s.clients.length
  writer := s.clients.any (·.writes)
  leader := s.clients.any (·.leader)
  nextId := s.nextClientId }

/-- A request that is refused where so many other handshakes are pending. -/
def Roll.refuses (roll : Roll) (others : Nat) (req : HandshakeRequest) : Bool :=
  (req.detachOthers && req.mode = .ro) ||
    (req.exclusive && !req.detachOthers && (roll.writer || decide (others > 0)))

def Roll.response (cfg : Config) (childStopped : Bool) (roll : Roll) (req : HandshakeRequest) (intersect : List Cap) :
    HandshakeResponse := {
  caps := intersect
  sessionId := cfg.sessionId
  clientId := roll.nextId
  leader := req.mode = .rw && !roll.leader
  mode := req.mode
  childStopped }

/-- The request is not refused, and its answer can be sent. -/
def Roll.grants (W : World) (cfg : Config) (childStopped : Bool) (roll : Roll) (others : Nat) (req : HandshakeRequest)
    (intersect : List Cap) : Bool :=
  !roll.refuses others req && (W.controlFrame (.handshakeResponse (roll.response cfg childStopped req intersect))).isSome

def Roll.join (roll : Roll) (mode : Mode) : Roll := {
  attached := roll.attached + 1
  writer := roll.writer || mode = .rw || mode = .rwNoLeader
  leader := roll.leader || mode = .rw
  nextId := roll.nextId + 1 }

/-- How many clients are attached after the handshakes that `polls` finds complete: those before, and one more for
each that is granted; or just the one that asks for `--detach-others`. -/
def Roll.attaching (W : World) (cfg : Config) (childStopped : Bool) (roll : Roll) (kept : Nat)
    (rest : List PendingHandshake) (polls : List HandshakePoll) : Nat :=
  match rest with
  | [] => roll.attached
  | entry :: rest =>
    match polls.headD (.empty entry.startedAt) with
    | .ready req intersect setNonblocking =>
      if setNonblocking && roll.grants W cfg childStopped (kept + rest.length) req intersect then
        -- the pass ends with a client that detaches the others
        if req.detachOthers then 1
        else (roll.join req.mode).attaching W cfg childStopped kept rest polls.tail
      else roll.attaching W cfg childStopped kept rest polls.tail
    | .failed | .disconnected => roll.attaching W cfg childStopped kept rest polls.tail
    | .empty at_ =>
      roll.attaching W cfg childStopped (if at_ - entry.startedAt ≥ handshakeTimeout then kept else kept + 1) rest
        polls.tail

section Pass

variable {W : World} {cfg : Config} {now : Instant} {unixMs : Nat} {s : Session} {d : DaemonState} {ov : List ClientId}

/-- The first frame of a client is sent if it encodes. -/
theorem sendControl_fresh (W : World) {ch : ClientHandle} (hq : ch.send = {}) (msg : ControlMessage) :
    (sendControl W ch msg).2 = (W.controlFrame msg).map fun _ => .sent := by
  unfold sendControl ClientHandle.offer
  cases W.controlFrame msg with
  | none => rfl
  | some payload =>
    dsimp only [ClientHandle.enqueueForClient]
    rw [hq]
    rfl

theorem sendControl_mode (W : World) (ch : ClientHandle) (msg : ControlMessage) : (sendControl W ch msg).1.mode = ch.mode := by
  unfold sendControl ClientHandle.offer
  cases W.controlFrame msg <;> rfl

theorem refuses_iff {roll : Roll} {others : Nat} {req : HandshakeRequest} :
    roll.refuses others req = true ↔ (req.detachOthers = true ∧ req.mode = .ro) ∨
      (req.exclusive = true ∧ ¬ req.detachOthers = true ∧ (roll.writer = true ∨ others > 0)) := by
  simp [Roll.refuses, and_assoc]

/-- A handshake is granted where the roll says so, and then with the mode that was asked for. -/
theorem finalizeAcceptedClient_grants (cfg : Config) (now : Instant) (unixMs : Nat) (req : HandshakeRequest)
    (intersect : List Cap) (setNonblocking : Bool)
    (others : Nat) (s : Session) :
    match finalizeAcceptedClient W cfg req intersect setNonblocking s.nextClientId s.clients others s.childStopped now
        unixMs with
    | .ok accepted =>
      (setNonblocking && s.roll.grants W cfg s.childStopped others req intersect) = true ∧ accepted.handle.mode = req.mode
    | .error _ => (setNonblocking && s.roll.grants W cfg s.childStopped others req intersect) = false := by
  cases setNonblocking with
  | false => rfl
  | true =>
    unfold finalizeAcceptedClient Roll.grants
    simp only [Bool.not_true, Bool.false_eq_true, if_false, Bool.true_and]
    by_cases hro : req.detachOthers = true ∧ req.mode = .ro
    · rw [if_pos hro, refuses_iff.2 (.inl hro)]
      rfl
    · rw [if_neg hro]
      by_cases hexcl : req.exclusive = true ∧ ¬ req.detachOthers = true ∧
          (s.clients.any (fun c => c.mode = .rw || c.mode = .rwNoLeader) = true ∨ others > 0)
      · rw [if_pos hexcl, refuses_iff.2 (.inr hexcl)]
        rfl
      · have hallowed : s.roll.refuses others req = false :=
          Bool.eq_false_iff.2 fun hr => (refuses_iff.1 hr).elim hro hexcl
        rw [if_neg hexcl, hallowed, Bool.not_false, Bool.true_and]
        -- the first frame of the client is its answer
        generalize hh : ({ id := s.nextClientId, mode := req.mode, leader := shouldAssignLeader s.clients req.mode
                           negotiatedCaps := intersect, bufferLimit := cfg.clientBufferBytes
                           connectedAtUnixMs := unixMs } : ClientHandle) = handle
        have hresponse : s.roll.response cfg s.childStopped req intersect =
            { caps := intersect, sessionId := cfg.sessionId, clientId := s.nextClientId
              leader := shouldAssignLeader s.clients req.mode, mode := req.mode, childStopped := s.childStopped } := rfl
        have hhandle : handle.send = {} ∧ handle.mode = req.mode := hh ▸ ⟨rfl, rfl⟩
        have hsent := sendControl_fresh W hhandle.1
          (.handshakeResponse (s.roll.response cfg s.childStopped req intersect))
        have hmode := sendControl_mode W handle (.handshakeResponse (s.roll.response cfg s.childStopped req intersect))
        rw [← hresponse]
        generalize sendControl W _ _ = r at hsent hmode ⊢
        obtain ⟨sent, outcome⟩ := r
        dsimp only at hsent hmode
        subst hsent
        cases W.controlFrame (.handshakeResponse (s.roll.response cfg s.childStopped req intersect)) with
        | none => rfl
        | some payload => exact ⟨rfl, hmode.trans hhandle.2⟩

theorem clients_any_congr {R : ClientHandle → ClientHandle → Prop} {l l' : List ClientHandle} {p : ClientHandle → Bool}
    (h : List.Forall₂ R l l') (hp : ∀ ch ch', R ch ch' → p ch' = p ch) : l'.any p = l.any p := by
  induction h with
  | nil => rfl
  | cons hR _ ih => rw [List.any_cons, List.any_cons, hp _ _ hR, ih]

theorem talks_roll {P : Outgoing → Prop} {s' : Session} {ov : List ClientId} (h : Talks P ov s s') : s'.roll = s.roll := by
  have hwriter := clients_any_congr (p := (·.writes)) h.clients fun ch ch' hs => by
    rw [ClientHandle.writes, hs.mode, ClientHandle.writes]
  have hleader := clients_any_congr (p := (·.leader)) h.clients fun ch ch' hs => hs.leader
  rw [Session.roll, h.length, hwriter, hleader, h.nextClientId, Session.roll]

/-- A client whose handshake is granted joins the roll. -/
theorem attachClient_joins (h : Mid s d ov) {req : HandshakeRequest} {intersect : List Cap} {setNonblocking : Bool}
    {others : Nat} {accepted : AcceptedClient}
    (hfinal : finalizeAcceptedClient W cfg req intersect setNonblocking s.nextClientId s.clients others s.childStopped now
      unixMs = .ok accepted) :
    Stepped W s d (attachClient W s d ov accepted).1 d (attachClient W s d ov accepted).2 ∧
      (attachClient W s d ov accepted).1.roll = s.roll.join accepted.handle.mode ∧
      (attachClient W s d ov accepted).1.childStopped = s.childStopped ∧
      accepted.handle.id ∈ (attachClient W s d ov accepted).1.clients.map (·.id) := by
  obtain ⟨hid, hlead, hbecame, hoff, -⟩ := finalizeAcceptedClient_ok hfinal
  refine ⟨attachClient_stepped (W := W) h hid hlead hbecame hoff, ?_⟩
  obtain ⟨ch, hch, hchid, hmode, hleader, -⟩ := attached_handle W d.lock s.missed s.screen hoff
  have hjoin : ∀ {s' : Session}, s'.clients = s.clients ++ [ch] → s'.nextClientId = s.nextClientId + 1 →
      s'.roll = s.roll.join accepted.handle.mode ∧ accepted.handle.id ∈ s'.clients.map (·.id) := by
    intro s' hc hn
    have hled : (s.clients.any (·.leader) || ch.leader) =
        (s.clients.any (·.leader) || decide (accepted.handle.mode = .rw)) := by
      rw [hleader, hlead, hbecame, shouldAssignLeader]
      cases s.clients.any (·.leader) <;> simp
    constructor
    · simp only [Session.roll, Roll.join, hc, hn, List.length_append, List.length_singleton, List.any_append,
        List.any_cons, List.any_nil, Bool.or_false, hled, ClientHandle.writes, hmode, Bool.or_assoc]
    · rw [hc, ← hchid]
      exact List.mem_map_of_mem (List.mem_append_right _ (List.mem_singleton.2 rfl))
  unfold attachClient
  dsimp only
  rw [← hch]
  split
  · refine ⟨(talks_roll (broadcastControl_talks W _ _)).trans (hjoin rfl rfl).1, rfl, ?_⟩
    rw [forall₂_map_eq (fun _ _ hs => hs.id) (broadcastControl_talks W _ _).clients]
    exact (hjoin rfl rfl).2
  · exact ⟨(hjoin rfl rfl).1, rfl, (hjoin rfl rfl).2⟩

/-- `--detach-others` leaves the new client alone. -/
theorem detachOthers_length (h : Mid s d ov) {id : ClientId} (hid : id ∈ s.clients.map (·.id)) (now : Instant) :
    (detachOthers W id now s d ov).1.clients.length = 1 := by
  have hids := congrArg List.length (detachOthers_stepped (W := W) h id now).2
  have honly : (s.clients.filter (·.id = id)).map (·.id) = (s.clients.map (·.id)).filter (· = id) := by
    rw [List.filter_map]
    rfl
  rwa [honly, List.filter_eq, List.count_eq_one_of_mem h.ids hid, List.length_map] at hids

/-- As many clients are attached after a pass as were counted before it. -/
theorem processPendingHandshakes_length (cfg : Config) (now : Instant) (unixMs : Nat) (h : Mid s d ov)
    (kept rest : List PendingHandshake) (polls : List HandshakePoll) :
    (processPendingHandshakes W cfg now unixMs s d kept rest polls ov).1.clients.length =
      s.roll.attaching W cfg s.childStopped kept.length rest polls := by
  induction rest generalizing s d kept polls ov with
  | nil => rfl
  | cons entry rest ih =>
    unfold processPendingHandshakes Roll.attaching
    cases polls.headD (.empty entry.startedAt) with
    | failed => exact ih h kept polls.tail
    | disconnected => exact ih h kept polls.tail
    | empty at_ =>
      dsimp only
      rw [ih h]
      split
      · rfl
      · rw [List.length_append, List.length_singleton]
    | ready req intersect setNonblocking =>
      have hgrants := finalizeAcceptedClient_grants (W := W) cfg now unixMs req intersect
        setNonblocking (kept.length + rest.length) s
      dsimp only
      cases hfinal : finalizeAcceptedClient W cfg req intersect setNonblocking s.nextClientId s.clients
          (kept.length + rest.length) s.childStopped now unixMs with
      | error rejected =>
        rw [hfinal] at hgrants
        rw [hgrants, if_neg Bool.false_ne_true]
        cases rejected with
        | none => exact ih h kept polls.tail
        | some c =>
          have hst : Stepped W s d { s with closing := admitClosing s.closing c } d ov := .congr h rfl rfl rfl rfl
          exact ih hst.mid kept polls.tail
      | ok accepted =>
        rw [hfinal] at hgrants
        obtain ⟨hgranted, hmode⟩ := hgrants
        have hjoins := attachClient_joins h hfinal
        dsimp only
        rw [hgranted, if_pos rfl, ← (finalizeAcceptedClient_ok hfinal).2.2.2.2]
        generalize attachClient W s d ov accepted = r at hjoins ⊢
        obtain ⟨s', ov'⟩ := r
        obtain ⟨hattach, hroll, hstopped, hmem⟩ := hjoins
        dsimp only at hroll hstopped ⊢
        split
        · exact detachOthers_length hattach.mid hmem now
        · rw [ih hattach.mid, hroll, hstopped, hmode]

/-- A pass takes a place for a client from a handshake. -/
theorem processPendingHandshakes_places (cfg : Config) (now : Instant) (unixMs : Nat) (h : Mid s d ov)
    (kept rest : List PendingHandshake) (polls : List HandshakePoll) :
    (processPendingHandshakes W cfg now unixMs s d kept rest polls ov).1.clients.length +
        (processPendingHandshakes W cfg now unixMs s d kept rest polls ov).2.2.1.length ≤
      max 1 (s.clients.length + kept.length + rest.length) := by
  induction rest generalizing s d kept polls ov with
  | nil => exact Nat.le_max_right _ _
  | cons entry rest ih =>
    have hskip : ∀ {n : Nat}, n ≤ max 1 (s.clients.length + kept.length + rest.length) →
        n ≤ max 1 (s.clients.length + kept.length + (entry :: rest).length) := by
      intro n hn
      rw [List.length_cons]
      omega
    unfold processPendingHandshakes
    cases polls.headD (.empty entry.startedAt) with
    | failed => exact hskip (ih h kept polls.tail)
    | disconnected => exact hskip (ih h kept polls.tail)
    | empty at_ =>
      dsimp only
      split
      · exact hskip (ih h kept polls.tail)
      · have hkept := ih h (kept ++ [entry]) polls.tail
        rw [List.length_append, List.length_singleton] at hkept
        rw [List.length_cons, Nat.add_comm rest.length, ← Nat.add_assoc]
        exact hkept
    | ready req intersect setNonblocking =>
      dsimp only
      cases hfinal : finalizeAcceptedClient W cfg req intersect setNonblocking s.nextClientId s.clients
          (kept.length + rest.length) s.childStopped now unixMs with
      | error rejected =>
        cases rejected with
        | none => exact hskip (ih h kept polls.tail)
        | some c =>
          have hst : Stepped W s d { s with closing := admitClosing s.closing c } d ov := .congr h rfl rfl rfl rfl
          exact hskip (ih hst.mid kept polls.tail)
      | ok accepted =>
        have hjoins := attachClient_joins h hfinal
        dsimp only
        generalize attachClient W s d ov accepted = r at hjoins ⊢
        obtain ⟨s', ov'⟩ := r
        obtain ⟨hattach, hroll, -, hmem⟩ := hjoins
        have hlen := congrArg Roll.attached hroll
        dsimp only [Session.roll, Roll.join] at hattach hlen ⊢
        split
        · rw [detachOthers_length hattach.mid hmem now]
          exact Nat.le_max_left _ _
        · have hrest := ih hattach.mid kept polls.tail
          rw [hlen] at hrest
          rw [List.length_cons]
          omega

end Pass

/-! ## Places

A client that is attached takes a place, and so does a handshake that is pending. -/

def State.places (st : State) : Nat := st.sess.clients.length + st.loc.pendingHandshakes.length

def Work.places (w : Work) : Nat := w.sess.clients.length + w.loc.pendingHandshakes.length

def Stage.places : Stage → Nat
  | .done turn => turn.1.places
  | .tick w | .frames w _ => w.places

section Places

variable {W : World} {cfg : Config} {w w' : Work}

theorem Work.Chats.places (h : w.Chats W w') (hp : w'.loc.pendingHandshakes = w.loc.pendingHandshakes) :
    w'.places = w.places := by
  rw [Work.places, h.length, hp, Work.places]

theorem transition_pending (w : Work) (t : Option ChildTransition) :
    (w.transition W cfg t).loc.pendingHandshakes = w.loc.pendingHandshakes := by
  unfold Work.transition
  split <;> rfl

theorem deferChildExit_pending (l : Locals) (now : Instant) (code : Option Int) :
    (deferChildExit l now code).pendingHandshakes = l.pendingHandshakes := by
  unfold deferChildExit
  split <;> rfl

theorem observeChildTransition_pending (cfg : Config) (w : Work) (evs : List ChildEvent) (now : Instant) :
    (observeChildTransition W cfg w evs now).loc.pendingHandshakes = w.loc.pendingHandshakes := by
  unfold observeChildTransition
  dsimp only
  rw [transition_pending]
  split
  · exact deferChildExit_pending _ _ _
  · rfl
  · rfl

theorem Work.drainSignals_pending (w : Work) (inp : IterInput) :
    (w.drainSignals inp).1.loc.pendingHandshakes = w.loc.pendingHandshakes := by
  unfold Work.drainSignals
  split
  · dsimp only
    split <;> rfl
  · rfl

theorem Work.sigchld_pending (w : Work) (inp : IterInput) (ready : Bool) :
    (w.sigchld W cfg inp ready).1.loc.pendingHandshakes = w.loc.pendingHandshakes := by
  have hdrain := w.drainSignals_pending inp
  unfold Work.sigchld
  split
  · generalize w.drainSignals inp = r at hdrain ⊢
    obtain ⟨w₁, flow⟩ := r
    cases flow with
    | go => exact (observeChildTransition_pending _ _ _ _).trans hdrain
    | again => exact hdrain
    | ret o => exact hdrain
  · rfl

theorem Work.interrupted_pending (cfg : Config) (w : Work) (inp : IterInput) :
    (w.interrupted W cfg inp).1.loc.pendingHandshakes = w.loc.pendingHandshakes := by
  have hdrain := w.drainSignals_pending inp
  unfold Work.interrupted
  generalize w.drainSignals inp = r at hdrain ⊢
  obtain ⟨w₁, flow⟩ := r
  cases flow with
  | go => exact (observeChildTransition_pending _ _ _ _).trans hdrain
  | again => exact hdrain
  | ret o => exact hdrain

theorem Work.timeoutObserve_pending (w : Work) (inp : IterInput) :
    (w.timeoutObserve W cfg inp).loc.pendingHandshakes = w.loc.pendingHandshakes := by
  unfold Work.timeoutObserve
  split
  · dsimp only
    split
    · exact observeChildTransition_pending _ _ _ _
    · exact observeChildTransition_pending _ _ _ _
  · rfl

theorem Work.masterEof_pending (w : Work) (inp : IterInput) :
    (w.masterEof W cfg inp).loc.pendingHandshakes = w.loc.pendingHandshakes := by
  unfold Work.masterEof
  split
  · rfl
  · dsimp only
    split
    · exact (deferChildExit_pending _ _ _).trans (transition_pending _ _)
    · exact transition_pending _ _
    · exact transition_pending _ _

theorem Work.masterBytes_pending (w : Work) (inp : IterInput) (bytes : Bytes) :
    (w.masterBytes W inp bytes).1.loc.pendingHandshakes = w.loc.pendingHandshakes := by
  unfold Work.masterBytes
  dsimp only
  split
  · split <;> rfl
  · rfl

theorem Work.master_pending (w : Work) (inp : IterInput) (ready : Bool) :
    (w.master W cfg inp ready).1.loc.pendingHandshakes = w.loc.pendingHandshakes := by
  unfold Work.master
  split
  · split
    · exact w.masterEof_pending inp
    · exact w.masterEof_pending inp
    · exact w.masterEof_pending inp
    · exact w.masterBytes_pending inp _
    · rfl
    · rfl
  · rfl

/-- The listener takes at most one place, and none where the list of clients is full. -/
theorem Work.listen_places (w : Work) (inp : IterInput) (ready : Bool) :
    (w.listen inp ready).1.places = w.places ∨
      ready = true ∧ inp.accept.isSome = true ∧ w.sess.clients.length < maxClientsPerDaemon ∧
        (w.listen inp ready).1.places = w.places + 1 := by
  unfold Work.listen
  split <;> rename_i hready
  · split <;> rename_i hfull
    · exact .inl rfl
    · split <;> rename_i haccept
      · refine .inr ⟨hready, by rw [haccept]; rfl, Nat.lt_of_not_le fun hle => hfull (.inl hle), ?_⟩
        simp only [Work.places, List.length_append, List.length_singleton, Nat.add_assoc]
      · exact .inl rfl
  · exact .inl rfl

/-- After the handshakes a turn keeps within the limit where the connection it accepts, if it accepts one, does. -/
theorem Work.afterHandshakes_places (h : w.Mid) (inp : IterInput) (listener master sigchld : Bool)
    (revents : List (ClientId × Bool)) (hle : w.places ≤ maxClientsPerDaemon)
    (hroom : (listener && inp.accept.isSome) = true →
      w.loc.pendingHandshakes = [] ∨ w.places < maxClientsPerDaemon) :
    (w.afterHandshakes W cfg inp listener master sigchld revents).places ≤ maxClientsPerDaemon := by
  unfold Work.afterHandshakes
  have hsig : w.Chats W (w.sigchld W cfg inp sigchld).1 := Work.sigchld_chats h inp sigchld
  have hpending : (w.sigchld W cfg inp sigchld).1.loc.pendingHandshakes = w.loc.pendingHandshakes :=
    w.sigchld_pending inp sigchld
  generalize w.sigchld W cfg inp sigchld = r₁ at hsig hpending ⊢
  obtain ⟨w₁, flow₁⟩ := r₁
  have hplaces₁ := hsig.places hpending
  dsimp only at hpending hplaces₁
  cases flow₁ with
  | ret o => exact le_of_eq_of_le hplaces₁ hle
  | again => exact le_of_eq_of_le hplaces₁ hle
  | go =>
    dsimp only
    have hlisten : w₁.Chats W (w₁.listen inp listener).1 := Work.listen_chats hsig.mid inp listener
    have hplaces₂ : (w₁.listen inp listener).1.places ≤ maxClientsPerDaemon := by
      rcases w₁.listen_places inp listener with hsame | ⟨hready, haccept, hfree, hone⟩
      · rw [hsame, hplaces₁]
        exact hle
      · rw [hone]
        rcases hroom (Bool.and_eq_true_iff.2 ⟨hready, haccept⟩) with hnone | hlt
        · rw [Work.places, hpending, hnone]
          exact hfree
        · rw [hplaces₁]
          exact hlt
    generalize w₁.listen inp listener = r₂ at hlisten hplaces₂ ⊢
    obtain ⟨w₂, flow₂⟩ := r₂
    cases flow₂ with
    | ret o => exact hplaces₂
    | again => exact hplaces₂
    | go =>
      dsimp only at hplaces₂ ⊢
      have hmaster : w₂.Chats W (w₂.master W cfg inp master).1 := Work.master_chats hlisten.mid inp master
      have hplaces₃ := hmaster.places (w₂.master_pending inp master)
      generalize w₂.master W cfg inp master = r₃ at hplaces₃ ⊢
      obtain ⟨w₃, flow₃⟩ := r₃
      dsimp only at hplaces₃
      cases flow₃ <;> exact le_of_eq_of_le hplaces₃ hplaces₂

/-- A pass over the handshakes takes no more places than it gives back. -/
theorem Work.handshakes_places (cfg : Config) (h : w.Mid) (inp : IterInput) :
    (w.handshakes W cfg inp).places ≤ max 1 w.places ∧
      (w.loc.pendingHandshakes = [] → (w.handshakes W cfg inp).loc.pendingHandshakes = []) := by
  have hplaces := processPendingHandshakes_places (W := W) cfg inp.handshakeNow inp.unixMs h
    [] w.loc.pendingHandshakes inp.handshakes
  refine ⟨?_, fun hnone => ?_⟩
  · unfold Work.handshakes Work.places
    dsimp only
    rw [(flushPendingRedraws_talks _).length]
    exact hplaces
  · unfold Work.handshakes
    rw [hnone]
    rfl

theorem Work.tick_places (h : w.Mid) (inp : IterInput) : (w.tick inp).1.places ≤ w.places := by
  have hlen : (w.tick inp).1.sess.clients.length ≤ w.sess.clients.length := by
    rw [(tick_loses inp h).2.2]
    exact List.length_filter_le _ _
  exact Nat.add_le_add_right hlen _

theorem FrameRun.step_pending (inp : IterInput) (r : FrameRun) (idx : Nat) (fre : FrameOrError) :
    (r.step W cfg inp idx fre).pendingHandshakes.length ≤ r.pendingHandshakes.length := by
  unfold FrameRun.step
  split
  · exact Nat.le_refl _
  · split
    · exact Nat.le_refl _
    · dsimp only
      split
      · exact Nat.le_refl _
      · exact Nat.le_refl _
      · dsimp only
        split
        · exact Nat.zero_le _
        · exact Nat.le_refl _
      · exact Nat.le_refl _

theorem FrameRun.run_pending (inp : IterInput) (r : FrameRun) (frames : List (Nat × FrameOrError)) :
    (r.run W cfg inp frames).pendingHandshakes.length ≤ r.pendingHandshakes.length := by
  induction frames generalizing r with
  | nil => exact Nat.le_refl _
  | cons f frames ih => exact le_trans (ih _) (r.step_pending inp f.1 f.2)

/-- The frames attach nobody. -/
theorem Work.frames_length (h : w.Mid) (inp : IterInput) (revents : List (ClientId × Bool)) :
    (w.frames W cfg inp revents).1.sess.clients.length ≤ w.sess.clients.length := by
  have hrun : (w.frameRun W inp revents).1.sess.clients.length = w.sess.clients.length :=
    (collectFrames_same (W := W) inp.recv 0 w.sess.clients revents).length_eq.symm
  have hmid := (Work.frameRun_mid (W := W) inp h revents).1
  unfold Work.frames
  generalize w.frameRun W inp revents = r at hrun hmid ⊢
  obtain ⟨r, frames⟩ := r
  dsimp only at hrun hmid ⊢
  have hframes := FrameRun.run_chatted (W := W) cfg inp hmid frames
  have hids := congrArg List.length hframes.ids
  rw [List.length_map, List.length_map, hrun] at hids
  exact hids ▸ stayed_length (dropClients_stepped inp hframes.mid).2

theorem Work.frames_places (h : w.Mid) (inp : IterInput) (revents : List (ClientId × Bool)) :
    (w.frames W cfg inp revents).1.places ≤ w.places :=
  Nat.add_le_add (Work.frames_length h inp revents) (FrameRun.run_pending inp _ _)

end Places

/-! ## Turns and runs -/

/-- When the move's turn comes to its handshakes, no more of them complete than the list of clients has room for. -/
def HandshakesFit (W : World) (cfg : Config) (st : State) (mv : Move) : Prop :=
  match beforePoll cfg mv.input st with
  | .error _ => True
  | .ok w =>
    (w.toHandshakes W cfg mv.input).all (fun w => w.sess.roll.attaching W cfg w.sess.childStopped 0
      w.loc.pendingHandshakes mv.input.handshakes ≤ maxClientsPerDaemon) = true

instance (W : World) (cfg : Config) (st : State) (mv : Move) : Decidable (HandshakesFit W cfg st mv) :=
  match h : beforePoll cfg mv.input st with
  | .error _ => isTrue (by rw [HandshakesFit, h]; trivial)
  | .ok _ => decidable_of_iff _ (by rw [HandshakesFit, h])

/-- Whether a connection can be accepted in the turn. -/
def IterInput.accepts (inp : IterInput) : Bool :=
  match inp.poll with
  | .ready listener _ _ _ => listener && inp.accept.isSome
  | _ => false

/-- A connection is accepted only where it leaves a place for each handshake that is pending. -/
def LeavesRoom (st : State) (mv : Move) : Prop :=
  mv.input.accepts = true → st.loc.pendingHandshakes = [] ∨ st.places < maxClientsPerDaemon

instance (st : State) (mv : Move) : Decidable (LeavesRoom st mv) :=
  inferInstanceAs (Decidable (mv.input.accepts = true →
    st.loc.pendingHandshakes = [] ∨ st.places < maxClientsPerDaemon))

section Capacity

variable {W : World} {cfg : Config} {inp : IterInput} {st : State} {w w' : Work}

/-- However the turn goes on from `w`, nobody is added to the list. -/
theorem from_length (h : w.Mid) {stage : Stage} (hfrom : Stage.From w stage)
    (hst : beforeFrames W cfg inp st = stage) :
    (iterate W cfg inp st).1.sess.clients.length ≤ w.sess.clients.length := by
  unfold iterate
  rw [hst]
  cases hfrom with
  | left o => exact le_refl _
  | frames revents => exact Work.frames_length h inp revents
  | tick =>
    have hc := (tick_loses inp h).2.2
    dsimp only
    rw [hc]
    exact List.length_filter_le _ _

/-- A turn keeps the list within the limit. -/
theorem iterate_length (h : st.Ok) (hlen : st.sess.clients.length ≤ maxClientsPerDaemon) {mv : Move}
    (hfit : HandshakesFit W cfg st mv) :
    (iterate W cfg mv.input st).1.sess.clients.length ≤ maxClientsPerDaemon := by
  unfold HandshakesFit at hfit
  rcases beforePoll_spec (W := W) cfg mv.input h with ⟨turn, heq, -, hclients⟩ | ⟨w, heq, harr, hclients⟩
  · have hdone : iterate W cfg mv.input st = turn := by rw [iterate, beforeFrames, heq]
    rw [hdone, hclients, flushClients, List.length_map]
    exact hlen
  · rw [heq] at hfit
    have hw : w.sess.clients.length ≤ maxClientsPerDaemon := by
      rw [hclients, flushClients, List.length_map]
      exact hlen
    have hbefore : beforeFrames W cfg mv.input st = w.afterPoll W cfg mv.input := by rw [beforeFrames, heq]
    rcases Work.afterPoll_cases (W := W) cfg mv.input harr.mid with
      ⟨-, w', o, hc, hleft⟩ | ⟨w₁, w', hshake, hc, hc', hfrom⟩
    · refine le_trans (from_length hc.mid (.left o) (hbefore.trans hleft)) ?_
      rw [hc.length]
      exact hw
    · refine le_trans (from_length hc'.mid hfrom hbefore) ?_
      rw [hc'.length]
      dsimp only at hfit
      rw [hshake, Option.all_some] at hfit
      unfold Work.handshakes
      dsimp only
      rw [(flushPendingRedraws_talks _).length, processPendingHandshakes_length _ _ _ hc.mid]
      exact of_decide_eq_true hfit

theorem beforePoll_pending (cfg : Config) (inp : IterInput) (st : State) :
    match beforePoll cfg inp st with
    | .error turn => turn.1.loc.pendingHandshakes = st.loc.pendingHandshakes
    | .ok w => w.loc.pendingHandshakes = st.loc.pendingHandshakes := by
  unfold beforePoll
  dsimp only
  by_cases hup : st.sess.upgradePending = true
  · rw [if_pos hup]
    unfold awaitUpgradeFlush
    dsimp only
    split <;> rfl
  · rw [if_neg hup]
    cases st.loc.exitDrainDeadline.filter (inp.exitNow ≥ ·) <;> cases st.loc.deferredExit <;>
      cases evalTimeout (inp.timeoutNow - st.loc.serveStart) (inp.timeoutNow - st.loc.lastOutput) cfg.timeoutMs
        cfg.idleTimeoutMs <;> rfl

/-- A pass that keeps within the limit fits. -/
theorem attaching_places (h : w.Mid) (inp : IterInput) (hle : w.places ≤ maxClientsPerDaemon) :
    w.sess.roll.attaching W cfg w.sess.childStopped 0 w.loc.pendingHandshakes inp.handshakes ≤ maxClientsPerDaemon := by
  have hpass := processPendingHandshakes_length (W := W) cfg inp.handshakeNow inp.unixMs h
    [] w.loc.pendingHandshakes inp.handshakes
  have hplaces := processPendingHandshakes_places (W := W) cfg inp.handshakeNow inp.unixMs h
    [] w.loc.pendingHandshakes inp.handshakes
  rw [List.length_nil] at hpass hplaces
  rw [← hpass]
  refine le_trans (le_trans (Nat.le_add_right _ _) hplaces) (max_le (by decide) ?_)
  exact hle

theorem Work.afterPoll_places (cfg : Config) (inp : IterInput) (h : w.Mid) (hle : w.places ≤ maxClientsPerDaemon)
    (hroom : inp.accepts = true → w.loc.pendingHandshakes = [] ∨ w.places < maxClientsPerDaemon) :
    (w.afterPoll W cfg inp).places ≤ maxClientsPerDaemon ∧
      (w.toHandshakes W cfg inp).all (fun w => w.sess.roll.attaching W cfg w.sess.childStopped 0
        w.loc.pendingHandshakes inp.handshakes ≤ maxClientsPerDaemon) = true := by
  have hpass := Work.handshakes_places (W := W) cfg h inp
  unfold Work.afterPoll Work.toHandshakes
  unfold IterInput.accepts at hroom
  cases hpoll : inp.poll with
  | error => exact ⟨hle, rfl⟩
  | interrupted =>
    have hpending := w.interrupted_pending (W := W) cfg inp
    obtain ⟨w', o, hc, heq⟩ := Work.interrupted_left (W := W) cfg inp h
    have hplaces : (w.interrupted W cfg inp).1.places = w.places := by
      rw [State.places, hpending, heq, Work.places, ← hc.length]
      rfl
    exact ⟨le_of_eq_of_le hplaces hle, rfl⟩
  | timeout =>
    have hobs : w.Chats W (w.timeoutObserve W cfg inp) := Work.timeoutObserve_chats h inp
    have hplaces := hobs.places (w.timeoutObserve_pending inp)
    have hpass := Work.handshakes_places (W := W) cfg hobs.mid inp
    have hmid := (Work.handshakes_moves (W := W) cfg hobs.mid inp).mid
    rw [hplaces] at hpass
    have hle' : ((w.timeoutObserve W cfg inp).handshakes W cfg inp).places ≤ maxClientsPerDaemon :=
      le_trans hpass.1 (max_le (by decide) hle)
    refine ⟨?_, decide_eq_true (attaching_places hobs.mid inp (le_of_eq_of_le hplaces hle))⟩
    dsimp only
    split
    · exact Work.afterHandshakes_places hmid inp false false false [] hle' fun hf => by cases hf
    · exact hle'
  | ready listener master readable sigchld =>
    rw [hpoll] at hroom
    have hmid := (Work.handshakes_moves (W := W) cfg h inp).mid
    refine ⟨Work.afterHandshakes_places hmid inp listener master _ _ (le_trans hpass.1 (max_le (by decide) hle))
      fun haccepts => ?_, decide_eq_true (attaching_places h inp hle)⟩
    rcases hroom haccepts with hnone | hlt
    · exact .inl (hpass.2 hnone)
    · exact .inr (lt_of_le_of_lt hpass.1 (max_lt (by decide) hlt))

/-- A turn that accepts a connection only where it leaves room keeps within the limit, and so do its handshakes. -/
theorem iterate_places (h : st.Ok) (hle : st.places ≤ maxClientsPerDaemon) {mv : Move} (hroom : LeavesRoom st mv) :
    HandshakesFit W cfg st mv ∧ (iterate W cfg mv.input st).1.places ≤ maxClientsPerDaemon := by
  have hpending := beforePoll_pending cfg mv.input st
  unfold HandshakesFit
  rcases beforePoll_spec (W := W) cfg mv.input h with ⟨turn, heq, -, hclients⟩ | ⟨w, heq, harr, hclients⟩
  · rw [heq] at hpending ⊢
    have hdone : iterate W cfg mv.input st = turn := by rw [iterate, beforeFrames, heq]
    refine ⟨trivial, ?_⟩
    rw [hdone, State.places, hclients, flushClients, List.length_map, hpending]
    exact hle
  · rw [heq] at hpending ⊢
    dsimp only at hpending ⊢
    have hplaces : w.places = st.places := by
      rw [Work.places, hclients, flushClients, List.length_map, hpending, State.places]
    obtain ⟨hstage, hfit⟩ := Work.afterPoll_places (W := W) cfg mv.input harr.mid
      (le_of_eq_of_le hplaces hle) (by rw [hpending, hplaces]; exact hroom)
    refine ⟨hfit, ?_⟩
    have hbefore : beforeFrames W cfg mv.input st = w.afterPoll W cfg mv.input := by rw [beforeFrames, heq]
    have hspec := beforeFrames_spec (W := W) cfg mv.input h
    rw [hbefore] at hspec
    unfold iterate
    rw [hbefore]
    generalize w.afterPoll W cfg mv.input = stage at hstage hspec ⊢
    cases stage with
    | done turn => exact hstage
    | tick w => exact le_trans (Work.tick_places hspec.mid mv.input) hstage
    | frames w revents => exact le_trans (Work.frames_places hspec.mid mv.input revents) hstage

/-- When the loop is entered nobody is shaking hands. -/
theorem enterServeLoop_places (cfg : Config) (s : Session) (e : EntryInput) :
    (enterServeLoop W cfg e s).places = (enterServeLoop W cfg e s).sess.clients.length := by
  have hpending : (enterServeLoop W cfg e s).loc.pendingHandshakes = [] :=
    observeChildTransition_pending cfg { sess := s, loc := Locals.initial cfg e, overflow := [] } e.childEvents e.now
  rw [State.places, hpending, List.length_nil, Nat.add_zero]

/-- Where a turn keeps within the limit, so does the move it begins. -/
theorem places_kept {mv : Move} {st' : State} (h : st.Ok)
    (hturn : (iterate W cfg mv.input st).1.places ≤ maxClientsPerDaemon) (hstep : (loop W cfg).step st mv = some st') :
    st'.places ≤ maxClientsPerDaemon := by
  cases mv with
  | turn inp => simpa only [Move.input, loop_turn hstep] using hturn
  | retry inp failure e =>
    obtain ⟨st₁, hit, rfl⟩ := loop_retry hstep
    have hplaces : (resumeServe W cfg failure e st₁.sess).places = (resumeServe W cfg failure e st₁.sess).sess.clients.length :=
      enterServeLoop_places cfg _ e
    rw [hplaces, registry_length (resumeServe_ok failure e (upgrade_turned h hit).mid).2]
    rw [Move.input, hit] at hturn
    exact le_trans (Nat.le_add_right _ _) hturn

/-- With these moves `n` connections are accepted, and then all their handshakes complete at once. -/
def fillMoves (n : Nat) : List Move :=
  List.replicate n (.turn acceptInput) ++
    [.turn { handshakes := List.replicate n (.ready (handshakeRequest .ro []) [] true) }]

end Capacity

end Hyoui.Daemon
