import Hyoui.Daemon.Exit
import Hyoui.Daemon.Wire
/-!
# The end of a session

What `Session::serve` does after the loop: the tail's followers are told, the queues are drained, the
child is brought to its end (`finalizeChild`), the clients are told its exit code, and after an exit a
late client is waited for. Every client the loop left attached is told the code that `serve` returns,
once, if it negotiated the notice (`exit_notified`), and the code is that of the child (`serve_code`).
Where an upgrade could not be prepared, nothing of all this happens.

The environment answers in lists, one element for each round of a loop; `none` means that the list
ended before the loop did.
-/

namespace Hyoui.Daemon

open Hyoui.Protocol Hyoui.Lib

def exitChildUnreaped : Int := 125
def finalizeTermGrace : Nat := millis 5000
def finalizeKillDeadline : Nat := millis 2000
def reapPollInterval : Nat := millis 20
def drainBudget : Nat := millis 200
def lingerDuration : Nat := millis 2000
def sigKill : Signal := 9

/-! ## Reaping -/

/-- `waitpid` without `WUNTRACED`, that tells an exit only. -/
def ChildProcess.waitExit (c : ChildProcess) : ChildProcess × WaitStatus :=
  match c.status with
  | .zombie (.exited code) => ({ status := .reaped (.exited code), report := none }, .exited code)
  | .zombie (.signaled sig) => ({ status := .reaped (.signaled sig), report := none }, .signaled sig)
  | .reaped _ => (c, .echild)
  | .running | .stopped => (c, .stillAlive)

/-- One call of `waitpid`: what the child does before it, and the clock after it; or the call is interrupted, or
fails. -/
inductive ReapLook where
  | status (before : List ChildEvent) (now : Instant)
  | interrupted (before : List ChildEvent)
  | failed
deriving DecidableEq

/-- Poll the child until its exit or the deadline; a child that somebody else has reaped counts as terminated. -/
def reapUntil (deadline : Instant) : List ReapLook → ChildProcess → Option (ChildProcess × Except Unit (Option Int))
  | [], _ => none
  | .interrupted before :: looks, c => reapUntil deadline looks (c.events before)
  | .failed :: _, c => some (c, .error ())
  | .status before now :: looks, c =>
    let (c, status) := (c.events before).waitExit
    match status with
    | .exited code => some (c, .ok (some code))
    | .signaled sig => some (c, .ok (some (128 + sig)))
    | .echild => some (c, .ok (some 143))
    | .stopped _ | .continued | .stillAlive => if now ≥ deadline then some (c, .ok none) else reapUntil deadline looks c

def reapAfterKill (deadline : Instant) (looks : List ReapLook) (c : ChildProcess) : Option (ChildProcess × Except Unit Int) :=
  match reapUntil deadline looks c with
  | none => none
  | some (c, .error e) => some (c, .error e)
  | some (c, .ok (some code)) => some (c, .ok code)
  | some (c, .ok none) => some (c, .ok exitChildUnreaped)

/-- Here a child that somebody else has reaped has ended by itself. -/
def reapBlocking : List ReapLook → ChildProcess → Option (ChildProcess × Except Unit Int)
  | [], _ => none
  | .interrupted before :: looks, c => reapBlocking looks (c.events before)
  | .failed :: _, c => some (c, .error ())
  | .status before _ :: looks, c =>
    let (c, status) := (c.events before).waitExit
    match status with
    | .exited code => some (c, .ok code)
    | .signaled sig => some (c, .ok (128 + sig))
    | .echild => some (c, .ok 0)
    | .stopped _ | .continued | .stillAlive => reapBlocking looks c

structure FinalizeInput where
  wait : List ReapLook := []
  termNow : Instant := 0
  term : List ReapLook := []
  killNow : Instant := 0
  kill : List ReapLook := []

/-- The child may be alive: its group is told to go on and to terminate, and killed where it does not. -/
def terminateChild (inp : FinalizeInput) (s : Session) : Option (Session × Except Unit Int) :=
  let s := (s.logs (.killPgrp sigCont)).logs (.killPgrp sigTerm)
  match reapUntil (inp.termNow + finalizeTermGrace) inp.term s.child with
  | none => none
  | some (child, .error e) => some ({ s with child }, .error e)
  | some (child, .ok (some code)) => some ({ s with child }, .ok code)
  | some (child, .ok none) =>
    let s := s.logs (.killPgrp sigKill)
    (reapAfterKill (inp.killNow + finalizeKillDeadline) inp.kill child).map fun r => ({ s with child := r.1 }, r.2)

/-- The exit code, and the session with the child as it is then and the signals sent to its group. -/
def finalizeChild (inp : FinalizeInput) (s : Session) (outcome : RelayOutcome) : Option (Session × Except Unit Int) :=
  match outcome with
  | .childExited (some code) => some (s, .ok code)
  | .childExited none => (reapBlocking inp.wait s.child).map fun r => ({ s with child := r.1 }, r.2)
  | .clientDetachedOrKilled | .error | .upgradeRequested => terminateChild inp s

section Reaping

variable {c c' : ChildProcess} {deadline : Instant} {looks : List ReapLook}

/-- A call that tells an exit has reaped the child, one that finds none came too late, any other leaves it alive. -/
theorem waitExit_cases (c : ChildProcess) :
    (∃ status, c.reaped = none ∧ c.waitExit.1.reaped = some status ∧
      (c.waitExit.2 = .exited status.code ∨ ∃ sig, c.waitExit.2 = .signaled sig ∧ status.code = 128 + sig)) ∨
    (c.reaped.isSome = true ∧ c.waitExit = (c, .echild)) ∨ (c.reaped = none ∧ c.waitExit = (c, .stillAlive)) := by
  obtain ⟨status, report⟩ := c
  cases status with
  | running => exact .inr (.inr ⟨rfl, rfl⟩)
  | stopped => exact .inr (.inr ⟨rfl, rfl⟩)
  | zombie status =>
    cases status with
    | exited code => exact .inl ⟨.exited code, rfl, rfl, .inl rfl⟩
    | signaled sig => exact .inl ⟨.signaled sig, rfl, rfl, .inr ⟨sig, rfl, rfl⟩⟩
  | reaped status => exact .inr (.inl ⟨rfl, rfl⟩)

/-- What the polls for the exit found: the exit, that it was taken before, or none by the deadline. -/
inductive Reaped (c c' : ChildProcess) (taken : Int) : Option Int → Prop
  | exit (status : ExitStatus) (before : c.reaped = none) (after : c'.reaped = some status) : Reaped c c' taken (some status.code)
  | taken (before : c.reaped.isSome = true) (after : c'.reaped = c.reaped) : Reaped c c' taken (some taken)
  | alive (before : c.reaped = none) (after : c'.reaped = none) : Reaped c c' taken none

theorem Reaped.earlier {c₀ : ChildProcess} {taken : Int} {code : Option Int} (h : Reaped c c' taken code)
    (hsame : c.reaped = c₀.reaped) : Reaped c₀ c' taken code := by
  cases h with
  | exit status before after => exact .exit status (hsame ▸ before) after
  | taken before after => exact .taken (hsame ▸ before) (after.trans hsame)
  | alive before after => exact .alive (hsame ▸ before) after

theorem Reaped.still {taken : Int} (h : Reaped c c' taken none) : c'.reaped = c.reaped := by
  cases h with
  | alive before after => exact after.trans before.symm

/-- The exit code a status tells. -/
def WaitStatus.code (taken : Int) : WaitStatus → Option Int
  | .exited code => some code
  | .signaled sig => some (128 + sig)
  | .echild => some taken
  | .stopped _ | .continued | .stillAlive => none

/-- What one call finds. -/
theorem look_reaped (c : ChildProcess) (before : List ChildEvent) (taken : Int) :
    Reaped c (c.events before).waitExit.1 taken ((c.events before).waitExit.2.code taken) := by
  refine Reaped.earlier ?_ (events_reaped c before)
  rcases waitExit_cases (c.events before) with ⟨status, hbefore, hafter, htold⟩ | ⟨htaken, heq⟩ | ⟨halive, heq⟩
  · have hcode : (c.events before).waitExit.2.code taken = some status.code := by
      rcases htold with htold | ⟨sig, htold, hcode⟩
      · rw [htold]
        rfl
      · rw [htold, hcode]
        rfl
    rw [hcode]
    exact .exit status hbefore hafter
  · rw [heq]
    exact .taken htaken rfl
  · rw [heq]
    exact .alive halive halive

theorem reapUntil_spec {code : Option Int} (h : reapUntil deadline looks c = some (c', .ok code)) : Reaped c c' 143 code := by
  induction looks generalizing c with
  | nil => cases h
  | cons look looks ih =>
    cases look with
    | interrupted before => exact (ih h).earlier (events_reaped c before)
    | failed => cases h
    | status before now =>
      have hlook := look_reaped c before 143
      unfold reapUntil at h
      generalize (c.events before).waitExit = r at h hlook
      obtain ⟨child, status⟩ := r
      cases status with
      | exited code =>
        cases h
        exact hlook
      | signaled sig =>
        cases h
        exact hlook
      | echild =>
        cases h
        exact hlook
      | stopped _ | «continued» | stillAlive =>
        dsimp only at h
        split at h
        · cases h
          exact hlook
        · exact (ih h).earlier hlook.still

/-- The polling gives up at a look past the deadline only. -/
theorem reapUntil_late (h : reapUntil deadline looks c = some (c', .ok none)) :
    ∃ before now, .status before now ∈ looks ∧ deadline ≤ now := by
  induction looks generalizing c with
  | nil => cases h
  | cons look looks ih =>
    have hrest : ∀ {c₁}, reapUntil deadline looks c₁ = some (c', .ok none) →
        ∃ before now, .status before now ∈ look :: looks ∧ deadline ≤ now := by
      intro c₁ h
      obtain ⟨before, now, hmem, hlate⟩ := ih h
      exact ⟨before, now, List.mem_cons_of_mem _ hmem, hlate⟩
    cases look with
    | interrupted evs => exact hrest h
    | failed => cases h
    | status evs at_ =>
      unfold reapUntil at h
      generalize (c.events evs).waitExit = r at h
      obtain ⟨child, status⟩ := r
      cases status with
      | exited code => cases h
      | signaled sig => cases h
      | echild => cases h
      | stopped _ | «continued» | stillAlive =>
        dsimp only at h
        split at h
        · rename_i hlate
          exact ⟨evs, at_, List.mem_cons_self, hlate⟩
        · exact hrest h

/-- The polling ends: by a look past the deadline, at the latest. -/
theorem reapUntil_ends (h : reapUntil deadline looks c = none) :
    ∀ before now, .status before now ∈ looks → now < deadline := by
  induction looks generalizing c with
  | nil =>
    intro before now hmem
    cases hmem
  | cons look looks ih =>
    intro before now hmem
    cases look with
    | interrupted evs =>
      rcases List.mem_cons.1 hmem with hfirst | hmem
      · cases hfirst
      · exact ih h before now hmem
    | failed => cases h
    | status evs at_ =>
      unfold reapUntil at h
      generalize (c.events evs).waitExit = r at h
      obtain ⟨child, status⟩ := r
      have hgoes : (if at_ ≥ deadline then some (child, (.ok none : Except Unit (Option Int)))
          else reapUntil deadline looks child) = none →
          now < deadline := by
        intro h
        split at h
        · cases h
        · rename_i hlate
          rcases List.mem_cons.1 hmem with hfirst | hmem
          · obtain ⟨-, rfl⟩ := ReapLook.status.inj hfirst
            exact Nat.not_le.1 hlate
          · exact ih h before now hmem
      cases status with
      | exited code => cases h
      | signaled sig => cases h
      | echild => cases h
      | stopped _ | «continued» | stillAlive => exact hgoes h

end Reaping

/-! ## The last words -/

def tailEndReasonFromOutcome : RelayOutcome → Option TailEndReason
  | .childExited _ => some .childExited
  | .clientDetachedOrKilled => some .clientCancel
  | .error | .upgradeRequested => none

def broadcastTailEndToFollowers (W : World) (clients : List ClientHandle) (reason : TailEndReason) : List ClientHandle :=
  clients.map fun ch =>
    match ch.subscription with
    | .tailFollow _ => (sendControl W ch (.tailEnd reason)).1
    | .raw => ch

/-- One round of `flush_until`: what the sockets take, and the clock after that. -/
structure FlushPass where
  scripts : ClientId → List WriteResult := fun _ => []
  now : Instant

def flushUntil (deadline : Instant) : List FlushPass → List ClientHandle → Option (List ClientHandle)
  | [], _ => none
  | pass :: passes, clients =>
    let clients := flushClients clients pass.scripts
    if clients.all (·.sendSettled) ∨ pass.now ≥ deadline then some clients else flushUntil deadline passes clients

/-- `drain_closing`: until every closing client is closed. -/
def drainClosing : List (Instant × List (List WriteResult)) → List ClosingClient → Option (List ClosingClient)
  | [], _ => none
  | (now, scripts) :: passes, closing =>
    let closing := advanceClosing now closing scripts
    if closing.isEmpty then some closing else drainClosing passes closing

/-- The exit notice, after what the clients have in their queues, and before they are retired: each queue is
given its time. -/
def notifyExit (W : World) (code : Int) (deadline : Instant) (drain : List FlushPass) (clients : List ClientHandle) :
    Option (List ClientHandle) :=
  flushUntil deadline drain (broadcastControlWithCap W clients (.sessionExitNotify code none) .sessionExitV1).1

/-- One round of the wait for a late client. -/
structure LingerRound where
  now : Instant
  closingNow : Instant := 0
  closingWrites : List (List WriteResult) := []
  /-- A connection arrives: the start of its handshake, where one starts. -/
  accept : Option Instant := none
  handshakes : List HandshakePoll := []
  handshakeNow : Instant := 0
  unixMs : Nat := 0

structure LingerInput where
  start : Instant := 0
  rounds : List LingerRound := []
  flushNow : Instant := 0
  flush : List FlushPass := []
  drainNow : Instant := 0
  drain : List FlushPass := []
  retireNow : Instant := 0
  closing : List (Instant × List (List WriteResult)) := []

def LingerRound.listen (round : LingerRound) (s : Session) (pending : List PendingHandshake) : List PendingHandshake :=
  match round.accept with
  | some startedAt =>
    if s.clients.length < maxClientsPerDaemon ∧ pending.length < maxPendingHandshakes then pending ++ [{ startedAt }]
    else pending
  | none => pending

/-- The rounds until somebody has attached or the time is up. -/
def lingerRounds (W : World) (cfg : Config) (deadline : Instant) (s : Session) (d : DaemonState)
    (pending : List PendingHandshake) (overflowIds : List ClientId) : List LingerRound → Option Session
  | [] => none
  | round :: rounds =>
    if round.now ≥ deadline then some s
    else
      let s := { s with closing := advanceClosing round.closingNow s.closing round.closingWrites }
      let (s, d, pending, overflowIds) :=
        processPendingHandshakes W cfg round.handshakeNow round.unixMs s d [] (round.listen s pending) round.handshakes
          overflowIds
      if s.clients.isEmpty then lingerRounds W cfg deadline s d pending overflowIds rounds else some s

/-- `linger_for_late_attach`: registry, lock and records are new, the screen is the session's. The late clients, as
they are retired. -/
def lingerForLateAttach (W : World) (cfg : Config) (inp : LingerInput) (screen : Screen) (code : Int) :
    Option (List ClientHandle) :=
  let s : Session := { scrollback := { maxBytes := 0 }, screen }
  (lingerRounds W cfg (inp.start + lingerDuration) s {} [] [] inp.rounds).bind fun s =>
    if s.clients.isEmpty then (drainClosing inp.closing s.closing).map fun _ => []
    else
      (flushUntil (inp.flushNow + millis 500) inp.flush s.clients).bind fun clients =>
      (notifyExit W code (inp.drainNow + millis 1000) inp.drain clients).bind fun clients =>
      (drainClosing inp.closing (clients.foldl (fun closing ch => retireClient closing ch inp.retireNow) s.closing)).map
        fun _ => clients

structure EndInput where
  drainNow : Instant := 0
  drain : List FlushPass := []
  finalize : FinalizeInput := {}
  exitNow : Instant := 0
  exitDrain : List FlushPass := []
  retireNow : Instant := 0
  closing : List (Instant × List (List WriteResult)) := []
  linger : LingerInput := {}

/-- The end of a session: the clients of the loop and the late ones as they were retired (or dropped, where the child
could not be waited for), the exit code they were told, and what `serve` returns. -/
structure Ended where
  clients : List ClientHandle
  late : List ClientHandle
  code : Option Int
  result : Except Unit Int

/-- What `Session::serve` does once the loop has ended for good. -/
def shutDown (W : World) (cfg : Config) (inp : EndInput) (s : Session) (outcome : RelayOutcome) : Option Ended :=
  let clients :=
    match tailEndReasonFromOutcome outcome with
    | some reason => broadcastTailEndToFollowers W s.clients reason
    | none => s.clients
  (flushUntil (inp.drainNow + drainBudget) inp.drain clients).bind fun clients =>
  (finalizeChild inp.finalize s outcome).bind fun
    | (_, .error e) => some { clients, late := [], code := none, result := .error e }
    | (s, .ok code) =>
      (notifyExit W code (inp.exitNow + drainBudget) inp.exitDrain clients).bind fun clients =>
      (drainClosing inp.closing (clients.foldl (fun closing ch => retireClient closing ch inp.retireNow) s.closing)).bind
        fun _ =>
      let late :=
        match outcome with
        | .childExited _ => lingerForLateAttach W cfg inp.linger s.screen code
        | .clientDetachedOrKilled | .error | .upgradeRequested => some []
      late.bind fun late =>
        match outcome with
        | .childExited _ | .clientDetachedOrKilled => some { clients, late, code := some code, result := .ok code }
        | .error => some { clients, late, code := some code, result := .error () }
        | .upgradeRequested => none

/-- `Session::serve` from the loop's result on. With a request to upgrade it ends only where the new image could not be
prepared: it returns the error, and nobody is told. -/
def serveEnd (W : World) (cfg : Config) (inp : EndInput) (s : Session) : RelayOutcome → Option Ended
  | .upgradeRequested => some { clients := s.clients, late := [], code := none, result := .error () }
  | outcome => shutDown W cfg inp s outcome

/-! ## What a client is told at the end -/

/-- `ch'` is `ch` after offers of these items. -/
structure Told (items : List Outgoing) (ch ch' : ClientHandle) : Prop where
  id : ch'.id = ch.id
  caps : ch'.negotiatedCaps = ch.negotiatedCaps
  limit : ch'.bufferLimit = ch.bufferLimit
  offers : ch'.offers.map (·.item) = ch.offers.map (·.item) ++ items

def Outgoing.exitCode : Outgoing → Option Int
  | .control (.sessionExitNotify code _) => some code
  | _ => none

/-- The exit codes a client was ever told. -/
def ClientHandle.exitNotices (ch : ClientHandle) : List Int := (ch.offers.map (·.item)).filterMap (·.exitCode)

/-- A frame that encodes. -/
def sayable (W : World) (msg : ControlMessage) : List Outgoing := if (W.controlFrame msg).isSome then [.control msg] else []

/-- The end of the tail, for a follower. -/
def tailWords (W : World) (reason : Option TailEndReason) (ch : ClientHandle) : List Outgoing :=
  match reason, ch.subscription with
  | some reason, .tailFollow _ => sayable W (.tailEnd reason)
  | _, _ => []

/-- The exit notice, for a client that negotiated it. -/
def exitWords (W : World) (code : Option Int) (ch : ClientHandle) : List Outgoing :=
  match code with
  | some code => if .sessionExitV1 ∈ ch.negotiatedCaps then sayable W (.sessionExitNotify code none) else []
  | none => []

/-- Everything a client is told at the end; only the notice that it has overflowed may follow. -/
def Farewell (W : World) (reason : Option TailEndReason) (code : Option Int) (ch ch' : ClientHandle) : Prop :=
  ∃ notice, Told (tailWords W reason ch ++ exitWords W code ch ++ notice) ch ch' ∧
    ∀ item ∈ notice, ∃ queued, item = .control (backpressureError ch queued)

section Farewell

variable {W : World} {cfg : Config} {ch ch' ch'' : ClientHandle} {items items' : List Outgoing}
  {clients clients' : List ClientHandle}

theorem Told.refl (ch : ClientHandle) : Told [] ch ch := ⟨rfl, rfl, rfl, (List.append_nil _).symm⟩

theorem Told.trans (h : Told items ch ch') (h' : Told items' ch' ch'') : Told (items ++ items') ch ch'' :=
  ⟨h'.id.trans h.id, h'.caps.trans h.caps, h'.limit.trans h.limit, by rw [h'.offers, h.offers, List.append_assoc]⟩

theorem flushClients_told (clients : List ClientHandle) (scripts : ClientId → List WriteResult) :
    List.Forall₂ (Told []) clients (flushClients clients scripts) := by
  refine List.forall₂_map_right_iff.2 (List.forall₂_same.2 fun ch _ => ?_)
  split
  · exact .refl ch
  · exact ⟨rfl, rfl, rfl, (List.append_nil _).symm⟩

theorem flushUntil_told {deadline : Instant} {passes : List FlushPass} (h : flushUntil deadline passes clients = some clients') :
    List.Forall₂ (Told []) clients clients' := by
  induction passes generalizing clients with
  | nil => cases h
  | cons pass passes ih =>
    have hpass := flushClients_told clients pass.scripts
    unfold flushUntil at h
    dsimp only at h
    split at h
    · cases h
      exact hpass
    · exact forall₂_trans (fun _ _ _ hab hbc => hab.trans hbc) hpass (ih h)

theorem sendControl_told (W : World) (ch : ClientHandle) (msg : ControlMessage) :
    Told (sayable W msg) ch (sendControl W ch msg).1 := by
  unfold sendControl sayable
  cases W.controlFrame msg with
  | none => exact .refl ch
  | some payload => exact ⟨rfl, rfl, rfl, List.map_append⟩

theorem broadcastTailEnd_told (clients : List ClientHandle) (reason : TailEndReason) :
    List.Forall₂ (fun ch ch' => Told (tailWords W (some reason) ch) ch ch') clients
      (broadcastTailEndToFollowers W clients reason) := by
  refine List.forall₂_map_right_iff.2 (List.forall₂_same.2 fun ch _ => ?_)
  unfold tailWords
  cases ch.subscription with
  | raw => exact .refl ch
  | tailFollow _ => exact sendControl_told W ch _

/-- An enqueue of a broadcast tells the item, and after an overflow that there was one. -/
theorem handleEnqueueOutcome_told (ch : ClientHandle) (item : Outgoing) (payload : Bytes) :
    ∃ notice, Told ([item] ++ notice) ch (handleEnqueueOutcome W (ch.enqueueForClient item payload)).1 ∧
      ∀ n ∈ notice, ∃ queued, n = .control (backpressureError ch queued) := by
  have hsent : Told [item] ch (ch.enqueueForClient item payload).1 := ⟨rfl, rfl, rfl, List.map_append⟩
  have hno : ∀ n ∈ ([] : List Outgoing), ∃ queued, n = .control (backpressureError ch queued) := by
    intro n hn
    cases hn
  have hlimit : (ch.enqueueForClient item payload).1.bufferLimit = ch.bufferLimit := rfl
  unfold handleEnqueueOutcome
  split
  · exact ⟨[], hsent, hno⟩
  · generalize (ch.enqueueForClient item payload).1 = ch₁ at hsent hlimit
    dsimp only
    unfold sendBackpressureError
    split
    · exact ⟨[], hsent, hno⟩
    · split
      · exact ⟨[], hsent, hno⟩
      · have hnotice : Told [.control (backpressureError ch₁ ch₁.send.queuedBytes)] ch₁
            (ch₁.enqueueIgnoringLimit (.control (backpressureError ch₁ ch₁.send.queuedBytes)) ‹_›) :=
          ⟨rfl, rfl, rfl, List.map_append⟩
        refine ⟨_, hsent.trans hnotice, fun n hn => ⟨ch₁.send.queuedBytes, ?_⟩⟩
        rw [List.mem_singleton.1 hn, backpressureError, backpressureError, hlimit]
  · exact ⟨[], hsent, hno⟩

theorem broadcastExit_told (clients : List ClientHandle) (code : Int) :
    List.Forall₂ (fun ch ch' => ∃ notice, Told (exitWords W (some code) ch ++ notice) ch ch' ∧
      ∀ n ∈ notice, ∃ queued, n = .control (backpressureError ch queued)) clients
      (broadcastControlWithCap W clients (.sessionExitNotify code none) .sessionExitV1).1 := by
  have hno : ∀ ch : ClientHandle, ∃ notice, Told ([] ++ notice) ch ch ∧
      ∀ n ∈ notice, ∃ queued, n = .control (backpressureError ch queued) := by
    refine fun ch => ⟨[], .refl ch, fun n hn => ?_⟩
    cases hn
  unfold broadcastControlWithCap broadcastWith
  dsimp only
  rw [List.map_map]
  refine List.forall₂_map_right_iff.2 (List.forall₂_same.2 fun ch _ => ?_)
  simp only [Function.comp_apply, exitWords, sayable]
  by_cases hcap : .sessionExitV1 ∈ ch.negotiatedCaps
  · rw [if_pos hcap, if_pos hcap]
    cases W.controlFrame (.sessionExitNotify code none) with
    | none => exact hno ch
    | some payload => exact handleEnqueueOutcome_told ch _ payload
  · rw [if_neg hcap, if_neg hcap]
    exact hno ch

theorem notifyExit_told {code : Int} {deadline : Instant} {drain : List FlushPass}
    (h : notifyExit W code deadline drain clients = some clients') :
    List.Forall₂ (fun ch ch' => ∃ notice, Told (exitWords W (some code) ch ++ notice) ch ch' ∧
      ∀ n ∈ notice, ∃ queued, n = .control (backpressureError ch queued)) clients clients' := by
  refine forall₂_trans ?_ (broadcastExit_told clients code) (flushUntil_told h)
  rintro ch ch' ch'' ⟨notice, htold, hnotice⟩ hflush
  exact ⟨notice, List.append_nil (exitWords W (some code) ch ++ notice) ▸ htold.trans hflush, hnotice⟩

theorem exitCode_sayable (W : World) (code : Int) :
    (sayable W (.sessionExitNotify code none)).filterMap (·.exitCode) =
      if (W.controlFrame (.sessionExitNotify code none)).isSome then [code] else [] := by
  unfold sayable
  split <;> rfl

/-- What a client is told before its exit code tells none. -/
theorem exitCode_tailWords (W : World) (reason : Option TailEndReason) (ch : ClientHandle) :
    (tailWords W reason ch).filterMap (·.exitCode) = [] := by
  unfold tailWords sayable
  split
  · split <;> rfl
  · rfl

theorem ClientHandle.Negotiated.exitNotices (h : ch.Negotiated) : ch.exitNotices = [] := by
  unfold ClientHandle.exitNotices
  refine List.filterMap_eq_nil_iff.2 fun item hitem => ?_
  obtain ⟨o, ho, rfl⟩ := List.mem_map.1 hitem
  have hexit := (h.offers o ho).2
  unfold Outgoing.exitCode
  split
  · rename_i heq
    rw [heq] at hexit
    cases hexit
  · rfl

/-- The exit codes due to a client: the one there is, where it negotiated the notice and this encodes. -/
def noticesDue (W : World) (code : Option Int) (ch : ClientHandle) : List Int :=
  code.toList.filter fun code => .sessionExitV1 ∈ ch.negotiatedCaps ∧ (W.controlFrame (.sessionExitNotify code none)).isSome

theorem exitCode_exitWords (W : World) (code : Option Int) (ch : ClientHandle) :
    (exitWords W code ch).filterMap (·.exitCode) = noticesDue W code ch := by
  unfold exitWords noticesDue
  cases code with
  | none => rfl
  | some code =>
    dsimp only
    rw [Option.toList_some, List.filter_cons, List.filter_nil]
    by_cases hcap : .sessionExitV1 ∈ ch.negotiatedCaps
    · rw [if_pos hcap, exitCode_sayable]
      simp [hcap]
    · rw [if_neg hcap]
      simp [hcap]

/-- A client that had been told no exit code is told the one due, and no more. -/
theorem Farewell.exitNotices {reason : Option TailEndReason} {code : Option Int} (h : Farewell W reason code ch ch')
    (hnone : ch.exitNotices = []) : ch'.exitNotices = noticesDue W code ch' := by
  obtain ⟨notice, htold, hnotice⟩ := h
  have hquiet : notice.filterMap (·.exitCode) = [] := by
    refine List.filterMap_eq_nil_iff.2 fun item hitem => ?_
    obtain ⟨queued, rfl⟩ := hnotice item hitem
    rfl
  have hdue : noticesDue W code ch' = noticesDue W code ch := by rw [noticesDue, noticesDue, htold.caps]
  unfold ClientHandle.exitNotices at hnone ⊢
  rw [htold.offers, List.filterMap_append, List.filterMap_append, List.filterMap_append, hnone, exitCode_tailWords, hquiet,
    exitCode_exitWords, hdue]
  simp

end Farewell

/-! ## Late clients -/

section Linger

variable {W : World} {cfg : Config}

variable (cfg) in
theorem processPendingHandshakes_negotiated (now : Instant) (unixMs : Nat) {s : Session} (h : ∀ ch ∈ s.clients, ch.Negotiated)
    (d : DaemonState) (pending : List PendingHandshake) (polls : List HandshakePoll) (ov : List ClientId) :
    ∀ ch ∈ (processPendingHandshakes W cfg now unixMs s d [] pending polls ov).1.clients, ch.Negotiated := by
  have hdeals : Deals W polls [] s (processPendingHandshakes W cfg now unixMs s d [] pending polls ov).1 :=
    processPendingHandshakes_deals cfg now unixMs [] pending (fun _ hp => hp) s d ov
  intro ch' hch'
  rcases hdeals.clients ch' hch' with ⟨ch, hch, hdealt⟩ | ⟨ch, hnew, -, -, hdealt⟩
  · exact (negotiated_lasts W).dealt hdealt (h ch hch)
  · exact (negotiated_lasts W).dealt hdealt ((negotiated_lasts W).newcomer trivial hnew)

theorem lingerRounds_negotiated {deadline : Instant} {rounds : List LingerRound} {s s' : Session} {d : DaemonState}
    {pending : List PendingHandshake} {ov : List ClientId} (h : ∀ ch ∈ s.clients, ch.Negotiated)
    (hrun : lingerRounds W cfg deadline s d pending ov rounds = some s') : ∀ ch ∈ s'.clients, ch.Negotiated := by
  induction rounds generalizing s d pending ov with
  | nil => cases hrun
  | cons round rounds ih =>
    unfold lingerRounds at hrun
    split at hrun
    · cases hrun
      exact h
    · dsimp only at hrun
      have hround := fun pending' => processPendingHandshakes_negotiated (W := W) cfg round.handshakeNow round.unixMs
        (s := { s with closing := advanceClosing round.closingNow s.closing round.closingWrites }) h d pending' round.handshakes ov
      split at hrun
      · exact ih (hround _) hrun
      · cases hrun
        exact hround _

/-- Every late client is told the exit code at the end. -/
theorem linger_notified {inp : LingerInput} {screen : Screen} {code : Int} {late : List ClientHandle}
    (h : lingerForLateAttach W cfg inp screen code = some late) :
    ∀ ch ∈ late, ch.exitNotices = noticesDue W (some code) ch := by
  obtain ⟨s, hrounds, hrest⟩ := Option.bind_eq_some_iff.1 h
  have hneg : ∀ ch ∈ s.clients, ch.Negotiated := by
    refine lingerRounds_negotiated (fun ch hch => ?_) hrounds
    cases hch
  split at hrest
  · obtain ⟨_, -, rfl⟩ := Option.map_eq_some_iff.1 hrest
    intro ch hch
    cases hch
  · obtain ⟨clients₁, hflush, hrest⟩ := Option.bind_eq_some_iff.1 hrest
    obtain ⟨clients₂, hnotify, hrest⟩ := Option.bind_eq_some_iff.1 hrest
    obtain ⟨_, -, rfl⟩ := Option.map_eq_some_iff.1 hrest
    have hall : List.Forall₂ (Farewell W none (some code)) s.clients clients₂ := by
      refine forall₂_trans ?_ (flushUntil_told hflush) (notifyExit_told hnotify)
      rintro ch ch₁ ch₂ hflushed ⟨notice, htold, hnotice⟩
      have hwords : exitWords W (some code) ch₁ = exitWords W (some code) ch := by
        simp only [exitWords, hflushed.caps]
      refine ⟨notice, ?_, fun item hitem => ?_⟩
      · rw [← hwords]
        exact hflushed.trans htold
      · obtain ⟨queued, rfl⟩ := hnotice item hitem
        exact ⟨queued, by rw [backpressureError, backpressureError, hflushed.limit]⟩
    intro ch₂ hch₂
    obtain ⟨ch, hch, hfarewell⟩ := forall₂_mem_right hall hch₂
    exact hfarewell.exitNotices (hneg ch hch).exitNotices

end Linger

/-! ## The whole end -/

section End

variable {W : World} {cfg : Config} {st st' : State} {inp : IterInput} {outcome : RelayOutcome}

/-- The clients up to the child's end. -/
theorem tail_told (W : World) (s : Session) (outcome : RelayOutcome) :
    List.Forall₂ (fun ch ch' => Told (tailWords W (tailEndReasonFromOutcome outcome) ch) ch ch') s.clients
      (match tailEndReasonFromOutcome outcome with
        | some reason => broadcastTailEndToFollowers W s.clients reason
        | none => s.clients) := by
  cases tailEndReasonFromOutcome outcome with
  | some reason => exact broadcastTailEnd_told s.clients reason
  | none => exact List.forall₂_same.2 fun ch _ => .refl ch

/-- What a client is told at the end, and what `serve` returns. A code is missing only where the child cannot be waited
for, or an upgrade could not be prepared. -/
structure Ended.Fair (W : World) (e : EndInput) (s : Session) (outcome : RelayOutcome) (r : Ended) : Prop where
  clients : List.Forall₂ (Farewell W (tailEndReasonFromOutcome outcome) r.code) s.clients r.clients
  late : ∀ ch ∈ r.late, ch.exitNotices = noticesDue W r.code ch
  result : ∀ code, r.result = .ok code → r.code = some code
  missing : r.code = none → outcome = .upgradeRequested ∨ ∃ s', finalizeChild e.finalize s outcome = some (s', .error ())

theorem shutDown_fair {e : EndInput} {s : Session} {r : Ended} (h : shutDown W cfg e s outcome = some r) :
    r.Fair W e s outcome := by
  obtain ⟨clients₁, hflush, hrest⟩ := Option.bind_eq_some_iff.1 h
  have htail := forall₂_trans (fun _ _ _ htold hflushed => htold.trans hflushed) (tail_told W s outcome) (flushUntil_told hflush)
  obtain ⟨⟨s', code⟩, hfinal, hrest⟩ := Option.bind_eq_some_iff.1 hrest
  cases code with
  | error err =>
    cases hrest
    refine ⟨List.Forall₂.imp ?_ htail, fun ch hch => ?_, fun code hcode => ?_, fun _ => .inr ⟨s', hfinal⟩⟩
    · intro ch ch' htold
      refine ⟨[], ?_, fun item hitem => ?_⟩
      · simpa [exitWords] using htold
      · cases hitem
    · cases hch
    · cases hcode
  | ok code =>
    obtain ⟨clients₂, hnotify, hrest⟩ := Option.bind_eq_some_iff.1 hrest
    obtain ⟨_, -, hrest⟩ := Option.bind_eq_some_iff.1 hrest
    obtain ⟨late, hlate, hrest⟩ := Option.bind_eq_some_iff.1 hrest
    have hall : List.Forall₂ (Farewell W (tailEndReasonFromOutcome outcome) (some code)) s.clients clients₂ := by
      refine forall₂_trans ?_ htail (notifyExit_told hnotify)
      rintro ch ch₁ ch₂ htold ⟨notice, hnotified, hnotice⟩
      have hwords : exitWords W (some code) ch₁ = exitWords W (some code) ch := by simp only [exitWords, htold.caps]
      have hboth := htold.trans hnotified
      refine ⟨notice, ?_, fun item hitem => ?_⟩
      · rw [hwords] at hboth
        simpa using hboth
      · obtain ⟨queued, rfl⟩ := hnotice item hitem
        exact ⟨queued, by rw [backpressureError, backpressureError, htold.limit]⟩
    cases outcome with
    | childExited _ =>
      cases hrest
      exact ⟨hall, linger_notified hlate, fun _ hcode => congrArg some (Except.ok.inj hcode), fun hnone => by cases hnone⟩
    | clientDetachedOrKilled =>
      cases hrest
      cases hlate
      refine ⟨hall, fun ch hch => ?_, fun _ hcode => congrArg some (Except.ok.inj hcode), fun hnone => by cases hnone⟩
      cases hch
    | error =>
      cases hrest
      cases hlate
      refine ⟨hall, fun ch hch => ?_, fun _ hcode => ?_, fun hnone => by cases hnone⟩
      · cases hch
      · cases hcode
    | upgradeRequested => cases hrest

theorem serveEnd_fair {e : EndInput} {s : Session} {r : Ended} (h : serveEnd W cfg e s outcome = some r) :
    r.Fair W e s outcome := by
  cases outcome with
  | childExited code =>
    have h : shutDown W cfg e s (.childExited code) = some r := h
    exact shutDown_fair h
  | clientDetachedOrKilled =>
    have h : shutDown W cfg e s .clientDetachedOrKilled = some r := h
    exact shutDown_fair h
  | error =>
    have h : shutDown W cfg e s .error = some r := h
    exact shutDown_fair h
  | upgradeRequested =>
    cases h
    refine ⟨List.forall₂_same.2 fun ch _ => ⟨[], .refl ch, fun item hitem => ?_⟩, fun ch hch => ?_, fun code hcode => ?_,
      fun _ => .inl rfl⟩
    · cases hitem
    · cases hch
    · cases hcode

/-- In every run that comes to its end: every client the loop leaves attached is told, after all it was offered before,
the end of the tail if it follows it and the outcome has one, then the exit code if it negotiated the notice and there is
a code, and nothing else but that it overflowed. To none but such clients, late ones included, the exit code is told, to
these once in all; and it is the one `serve` returns. There is no code only where the child cannot be waited for or an
upgrade could not be prepared. -/
theorem exit_notified {e : EndInput} {r : Ended} (h : (loop W cfg).Reachable st) (hturn : iterate W cfg inp st = (st', some outcome))
    (hend : serveEnd W cfg e st'.sess outcome = some r) :
    List.Forall₂ (Farewell W (tailEndReasonFromOutcome outcome) r.code) st'.sess.clients r.clients ∧
      (∀ ch ∈ r.clients ++ r.late, ch.exitNotices = noticesDue W r.code ch) ∧
      (∀ code, r.result = .ok code → r.code = some code) ∧
      (r.code = none → outcome = .upgradeRequested ∨ ∃ s', finalizeChild e.finalize st'.sess outcome = some (s', .error ())) := by
  obtain ⟨hall, hlate, hresult, hmissing⟩ := serveEnd_fair hend
  refine ⟨hall, fun ch' hch' => ?_, hresult, hmissing⟩
  rcases List.mem_append.1 hch' with hch' | hch'
  · obtain ⟨ch, hch, hfarewell⟩ := forall₂_mem_right hall hch'
    refine hfarewell.exitNotices (ClientHandle.Negotiated.exitNotices ?_)
    have hneg : ∀ ch ∈ st.sess.clients, ch.Negotiated :=
      clients_last (negotiated_lasts W) (h.mono fun _ _ _ => trivial)
    have hdeals := iterate_happens (W := W) cfg inp (loop_ok h)
    rw [hturn] at hdeals
    rcases hdeals.clients ch hch with ⟨ch₁, hch₁, hdealt⟩ | ⟨ch₁, hnew, -, -, hdealt⟩
    · obtain ⟨ch₀, hch₀, rfl⟩ := List.mem_map.1 hch₁
      refine (negotiated_lasts W).happened hdealt ?_
      split
      · exact hneg ch₀ hch₀
      · exact (negotiated_lasts W).flush _ (hneg ch₀ hch₀)
    · exact (negotiated_lasts W).happened hdealt ((negotiated_lasts W).newcomer trivial hnew)
  · exact hlate ch' hch'

/-- The codec with the exit notice. -/
def exitWorld : World :=
  { World.pristine with
    encode := fun msg =>
      match msg with
      | .sessionExitNotify (.ofNat code) none =>
        some (cborMap [("kind", cborText "session.exit.notify"), ("exit-status", cborUint code)])
      | msg => msg.cbor }

/-- No socket takes anything, and nobody comes late. -/
def quietEnd : EndInput where
  drain := [{ now := drainBudget }]
  exitDrain := [{ now := drainBudget }]
  closing := [(closeFlushTimeout, [])]
  linger := { rounds := [{ now := lingerDuration }], closing := [(0, [])] }

theorem exit_notified_seven : ∃ ch : ClientHandle, ch.exitNotices = [7] := by
  have hstart : (loop exitWorld {}).Reach (fun _ _ => True) (enterServeLoop exitWorld {} {} (Session.initial {} 0 [] {})) :=
    .init ⟨{}, 0, [], {}, rfl, rfl⟩
  obtain ⟨st, hreach, hturn, hend⟩ := hstart.exists_run (attachMoves .rw [.sessionExitV1] ++ [.turn (exitInput 7 17)])
    (p := fun st => (iterate exitWorld {} { exitNow := millis 1000 } st).2 = some (.childExited (some 7)) ∧
      (serveEnd exitWorld {} quietEnd (iterate exitWorld {} { exitNow := millis 1000 } st).1.sess (.childExited (some 7))).any
        (fun r => r.clients.map (fun ch => noticesDue exitWorld r.code ch) = [[7]]) = true) (by decide +kernel)
  obtain ⟨r, hend, hdue⟩ := (Option.any_eq_true _ _).1 hend
  obtain ⟨ch, hch, heq⟩ := List.map_eq_singleton_iff.1 (of_decide_eq_true hdue)
  have hmem : ch ∈ r.clients ++ r.late := List.mem_append_left _ (hch ▸ List.mem_singleton_self ch)
  exact ⟨ch, ((exit_notified hreach (Prod.ext rfl hturn) hend).2.1 ch hmem).trans heq⟩

end End

end Hyoui.Daemon
