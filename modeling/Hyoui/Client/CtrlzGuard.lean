import Hyoui.Client.Typing
/-!
# The Ctrl+Z guard

A typed Ctrl+Z does not stop the child: the first of two is held back, and the second within the delay
lets one through. A held one that no key follows within the delay suspends the client.
-/

namespace Hyoui.Client

open Hyoui.Protocol Hyoui.Lib

inductive CtrlzX1Action where
  | clientSuspend
  | clientDetach
  | selectOnDemand
deriving DecidableEq

structure AttachConfig where
  ctrlzGuard : Bool
  ctrlzGuardDelay : Nat
  ctrlzX1Action : CtrlzX1Action
deriving DecidableEq

structure GuardOutcome where
  forward : Bytes
  suspend : Bool
deriving DecidableEq

inductive CtrlzGuardState where
  | idle
  | pending (deadline : Instant)
deriving DecidableEq

namespace CtrlzGuardState

def deadline : CtrlzGuardState → Option Instant
  | idle => none
  | pending deadline => some deadline

/-- The held Ctrl+Z has found no second one in time. -/
def due (state : CtrlzGuardState) (now : Instant) : Bool := state.deadline.any (· ≤ now)

end CtrlzGuardState

structure CtrlzGuard where
  state : CtrlzGuardState := .idle
  decoder : KeyDecoder := {}
deriving DecidableEq

/-- What the guard does with one token. -/
def guardToken (config : AttachConfig) (now : Instant) (acc : CtrlzGuardState × GuardOutcome) :
    KeyToken → CtrlzGuardState × GuardOutcome
  | .ctrlZ bytes =>
    match acc.1 with
    | .idle =>
      if config.ctrlzGuardDelay = 0 then (.idle, { acc.2 with suspend := true })
      else (.pending (now + config.ctrlzGuardDelay), acc.2)
    | .pending _ => (.idle, { acc.2 with forward := acc.2.forward ++ bytes })
  | .passthrough bytes => (.idle, { acc.2 with forward := acc.2.forward ++ bytes })

def processCtrlzGuard (config : AttachConfig) (guard : CtrlzGuard) (chunk : Bytes) (now : Instant) :
    GuardOutcome × CtrlzGuard :=
  if config.ctrlzGuard = false then
    ({ forward := guard.decoder.takePartial.1 ++ chunk, suspend := false }, {})
  else
    -- A suspend does not end the chunk: the rest of it still goes to the child.
    let due := guard.state.due now
    let (tokens, decoder) := guard.decoder.feed chunk now
    let (state, outcome) :=
      tokens.foldl (guardToken config now) (if due then .idle else guard.state, { forward := [], suspend := due })
    (outcome, { state, decoder })

/-- The milliseconds to wait for input: up to the earlier deadline, if there is one. -/
def ctrlzGuardPollTimeout (guard : CtrlzGuard) (now : Instant) : Option Nat :=
  let deadline := match guard.state.deadline, guard.decoder.holdDeadline with
    | some a, some b => some (min a b)
    | some d, none | none, some d => some d
    | none, none => none
  deadline.map fun d => min (max ((d - now) / millis 1) 1) 65535

/-! ## Calls -/

/-- The outcomes of successive calls, each with its time, and the guard after them. -/
def guardCalls (config : AttachConfig) (guard : CtrlzGuard) :
    List (Bytes × Instant) → List (Instant × GuardOutcome) × CtrlzGuard
  | [] => ([], guard)
  | (chunk, now) :: calls =>
    let (outcome, guard') := processCtrlzGuard config guard chunk now
    let (log, last) := guardCalls config guard' calls
    ((now, outcome) :: log, last)

def forwarded (log : List (Instant × GuardOutcome)) : Bytes := log.flatMap (·.2.forward)

/-- When a suspend was reported. -/
def suspends (log : List (Instant × GuardOutcome)) : List Instant := (log.filter (·.2.suspend)).map Prod.fst

/-- The bytes of the calls, as typed. -/
def typed (calls : List (Bytes × Instant)) : Typed := calls.flatMap fun call => arrive call.1 call.2

/-- No call finds the held Ctrl+Z due while the decoder holds the beginning of another key. -/
def Undivided (config : AttachConfig) (guard : CtrlzGuard) : List (Bytes × Instant) → Prop
  | [] => True
  | (chunk, now) :: calls =>
    (guard.state.due now = true → guard.decoder.partialBytes = []) ∧
      Undivided config (processCtrlzGuard config guard chunk now).2 calls

/-! ## What is to become of the keys -/

section Rules

variable (delay : Nat)

/-- The deadline of the Ctrl+Z that is held after a key. -/
def heldAfter (held : Option Instant) (k : TypedKey) : Option Instant :=
  match k.key with
  | .byte _ => none
  | .ctrlZ _ => if held.any (k.last < ·) then none else some (k.last + delay)

/-- What a key sends to the child: its bytes, for a Ctrl+Z when it follows a held one in time. -/
def sent (held : Option Instant) (k : TypedKey) : Bytes :=
  match k.key with
  | .byte b => [b]
  | .ctrlZ bytes => if held.any (k.last < ·) then bytes else []

def passedOn (held : Option Instant) : List TypedKey → Bytes
  | [] => []
  | k :: ks => sent held k ++ passedOn (heldAfter delay held k) ks

/-- The deadlines of the held Ctrl+Z after which no key was begun in time. -/
def runOut (held : Option Instant) : List TypedKey → List Instant
  | [] => held.toList
  | k :: ks => (held.filter (· ≤ k.first)).toList ++ runOut (heldAfter delay held k) ks

end Rules

/-! ## The guard works key by key -/

/-- A key as a token of its own. -/
def Key.token : Key → KeyToken
  | .ctrlZ bytes => .ctrlZ bytes
  | .byte b => .passthrough [b]

section Fold

variable {config : AttachConfig} {now : Instant}

theorem foldl_bytes (bytes : Bytes) (acc : CtrlzGuardState × GuardOutcome) (hidle : acc.1 = .idle) :
    ((bytes.map Key.byte).map Key.token).foldl (guardToken config now) acc =
      (.idle, { acc.2 with forward := acc.2.forward ++ bytes }) := by
  induction bytes generalizing acc with
  | nil =>
    obtain ⟨state, outcome⟩ := acc
    cases hidle
    simp
  | cons b bytes ih =>
    simp only [List.map_cons, List.foldl_cons]
    rw [ih _ rfl]
    simp [Key.token, guardToken]

/-- How the bytes between two presses are grouped makes no difference to the guard. -/
theorem foldl_tokens {tokens : List KeyToken} (hne : KeyToken.passthrough [] ∉ tokens)
    (acc : CtrlzGuardState × GuardOutcome) :
    tokens.foldl (guardToken config now) acc =
      ((tokens.flatMap KeyToken.keys).map Key.token).foldl (guardToken config now) acc := by
  induction tokens generalizing acc with
  | nil => rfl
  | cons token tokens ih =>
    simp only [List.mem_cons, not_or] at hne
    rw [List.foldl_cons, ih hne.2, List.flatMap_cons, List.map_append, List.foldl_append]
    congr 1
    cases token with
    | ctrlZ bytes => rfl
    | passthrough bytes =>
      cases bytes with
      | nil => exact absurd rfl hne.1
      | cons b bytes =>
        simp only [KeyToken.keys, List.map_cons, List.foldl_cons]
        rw [foldl_bytes _ _ rfl]
        simp [Key.token, guardToken]

end Fold

/-! ## The rules over a sequence of keys -/

section Sequences

variable {delay : Nat} {now : Instant}

theorem passedOn_append (held : Option Instant) (ks more : List TypedKey) :
    passedOn delay held (ks ++ more) = passedOn delay held ks ++ passedOn delay (ks.foldl (heldAfter delay) held) more := by
  induction ks generalizing held with
  | nil => rfl
  | cons k ks ih => simp only [List.cons_append, passedOn, ih, List.foldl_cons, List.append_assoc]

/-- No deadline passed before `now`. -/
def Open (now : Instant) (held : Option Instant) : Prop := ∀ deadline ∈ held, now < deadline

theorem heldAfter_open (hdelay : 0 < delay) {held : Option Instant} {k : TypedKey} (hk : SettledAt now k) :
    Open now (heldAfter delay held k) := by
  intro deadline h
  unfold heldAfter at h
  split at h
  · cases h
  · rename_i seq hkey
    split at h
    · cases h
    · cases h
      rw [hk.last_eq seq hkey]
      exact Nat.lt_add_of_pos_right hdelay

theorem foldl_open (hdelay : 0 < delay) {held : Option Instant} (hopen : Open now held) {ks : List TypedKey}
    (hks : ∀ k ∈ ks, SettledAt now k) : Open now (ks.foldl (heldAfter delay) held) := by
  induction ks generalizing held with
  | nil => exact hopen
  | cons k ks ih =>
    rw [List.forall_mem_cons] at hks
    exact ih (heldAfter_open hdelay hks.1) hks.2

/-- Keys settled before the deadline let none run out. -/
theorem runOut_settled (hdelay : 0 < delay) {held : Option Instant} (hopen : Open now held) {ks : List TypedKey}
    (hks : ∀ k ∈ ks, SettledAt now k) (more : List TypedKey) :
    runOut delay held (ks ++ more) = runOut delay (ks.foldl (heldAfter delay) held) more := by
  induction ks generalizing held with
  | nil => rfl
  | cons k ks ih =>
    rw [List.forall_mem_cons] at hks
    have hnone : held.filter (· ≤ k.first) = none := by
      cases held with
      | none => rfl
      | some deadline =>
        have hlater : ¬ deadline ≤ k.first := Nat.not_le.2 (Nat.lt_of_le_of_lt hks.1.first_le (hopen deadline rfl))
        simp [Option.filter, hlater]
    rw [List.cons_append, runOut, hnone, ih (heldAfter_open hdelay hks.1) hks.2]
    rfl

/-- When all further keys come from the deadline on, the held Ctrl+Z has run out and is forgotten. -/
theorem lapsed {deadline : Instant} {ks : List TypedKey} (hks : ∀ k ∈ ks, deadline ≤ k.first ∧ deadline ≤ k.last) :
    passedOn delay (some deadline) ks = passedOn delay none ks ∧
      runOut delay (some deadline) ks = deadline :: runOut delay none ks := by
  cases ks with
  | nil => exact ⟨rfl, rfl⟩
  | cons k ks =>
    obtain ⟨hfirst, hlast⟩ := hks k List.mem_cons_self
    have hlate : ¬ k.last < deadline := Nat.not_lt.2 hlast
    have hsent : sent (some deadline) k = sent none k := by
      unfold sent
      split <;> simp [hlate]
    have hheld : heldAfter delay (some deadline) k = heldAfter delay none k := by
      unfold heldAfter
      split <;> simp [hlate]
    refine ⟨?_, ?_⟩
    · rw [passedOn, passedOn, hsent, hheld]
    · rw [runOut, runOut, hheld]
      simp [Option.filter, hfirst]

/-- A Ctrl+Z runs out the delay after it was typed. -/
theorem mem_runOut {held : Option Instant} {ks : List TypedKey} {deadline : Instant}
    (h : deadline ∈ runOut delay held ks) :
    held = some deadline ∨ ∃ k ∈ ks, (∃ seq, k.key = .ctrlZ seq) ∧ deadline = k.last + delay := by
  induction ks generalizing held with
  | nil => exact .inl (Option.mem_toList.1 h)
  | cons k ks ih =>
    obtain h | h := List.mem_append.1 h
    · rw [Option.mem_toList, Option.filter_eq_some_iff] at h
      exact .inl h.1
    · obtain h | ⟨k', hk', hrest⟩ := ih h
      · right
        unfold heldAfter at h
        split at h
        · cases h
        · rename_i seq hkey
          split at h
          · cases h
          · cases h
            exact ⟨k, List.mem_cons_self, ⟨seq, hkey⟩, rfl⟩
      · exact .inr ⟨k', List.mem_cons_of_mem _ hk', hrest⟩

end Sequences

/-! ## One call -/

section Calling

variable {config : AttachConfig} {now : Instant}

/-- A call with the guard on: the tokens of the decoder, one after the other. -/
theorem processCtrlzGuard_on (hon : config.ctrlzGuard = true) {guard : CtrlzGuard} {start : CtrlzGuardState}
    (hstart : (if guard.state.due now then CtrlzGuardState.idle else guard.state) = start) (chunk : Bytes) :
    processCtrlzGuard config guard chunk now =
      (((guard.decoder.feed chunk now).1.foldl (guardToken config now)
          (start, { forward := [], suspend := guard.state.due now })).2,
        { state := ((guard.decoder.feed chunk now).1.foldl (guardToken config now)
            (start, { forward := [], suspend := guard.state.due now })).1,
          decoder := (guard.decoder.feed chunk now).2 }) := by
  simp only [processCtrlzGuard, hon, hstart]
  rfl

theorem guardToken_settled (hdelay : 0 < config.ctrlzGuardDelay) {state : CtrlzGuardState} (hopen : Open now state.deadline)
    {k : TypedKey} (hk : SettledAt now k) (outcome : GuardOutcome) :
    (guardToken config now (state, outcome) k.key.token).1.deadline =
        heldAfter config.ctrlzGuardDelay state.deadline k ∧
      (guardToken config now (state, outcome) k.key.token).2 =
        { outcome with forward := outcome.forward ++ sent state.deadline k } := by
  obtain ⟨key, first, last⟩ := k
  cases key with
  | byte b => exact ⟨rfl, rfl⟩
  | ctrlZ bytes =>
    obtain rfl : last = now := hk.last_eq bytes rfl
    cases state with
    | idle => simp [Key.token, guardToken, hdelay.ne', heldAfter, sent, CtrlzGuardState.deadline]
    | pending deadline =>
      have hin : last < deadline := hopen deadline rfl
      simp [Key.token, guardToken, heldAfter, sent, CtrlzGuardState.deadline, hin]

theorem foldl_settled (hdelay : 0 < config.ctrlzGuardDelay) {state : CtrlzGuardState} (hopen : Open now state.deadline)
    {ks : List TypedKey} (hks : ∀ k ∈ ks, SettledAt now k) (outcome : GuardOutcome) :
    (((ks.map TypedKey.key).map Key.token).foldl (guardToken config now) (state, outcome)).1.deadline =
        ks.foldl (heldAfter config.ctrlzGuardDelay) state.deadline ∧
      (((ks.map TypedKey.key).map Key.token).foldl (guardToken config now) (state, outcome)).2 =
        { outcome with forward := outcome.forward ++ passedOn config.ctrlzGuardDelay state.deadline ks } := by
  induction ks generalizing state outcome with
  | nil => simp [passedOn]
  | cons k ks ih =>
    rw [List.forall_mem_cons] at hks
    obtain ⟨hstate, hout⟩ := guardToken_settled hdelay hopen hks.1 outcome
    have hopen' : Open now (heldAfter config.ctrlzGuardDelay state.deadline k) := heldAfter_open hdelay hks.1
    rw [← hstate] at hopen'
    obtain ⟨hstates, houts⟩ := ih hopen' hks.2 (guardToken config now (state, outcome) k.key.token).2
    simp only [List.map_cons, List.foldl_cons]
    rw [hstates, houts, hout, hstate]
    simp [passedOn]

theorem foldl_suspend (hdelay : 0 < config.ctrlzGuardDelay) (tokens : List KeyToken) (acc : CtrlzGuardState × GuardOutcome) :
    (tokens.foldl (guardToken config now) acc).2.suspend = acc.2.suspend := by
  induction tokens generalizing acc with
  | nil => rfl
  | cons token tokens ih =>
    rw [List.foldl_cons, ih]
    obtain ⟨state, outcome⟩ := acc
    cases token with
    | passthrough bytes => rfl
    | ctrlZ bytes =>
      cases state with
      | pending deadline => rfl
      | idle => simp [guardToken, hdelay.ne']

theorem suspend_eq_due (hon : config.ctrlzGuard = true) (hdelay : 0 < config.ctrlzGuardDelay) (guard : CtrlzGuard)
    (chunk : Bytes) : (processCtrlzGuard config guard chunk now).1.suspend = guard.state.due now := by
  simp only [processCtrlzGuard, hon]
  exact foldl_suspend hdelay _ _

theorem due_iff {state : CtrlzGuardState} : state.due now = true ↔ ∃ deadline ∈ state.deadline, deadline ≤ now := by
  cases state <;> simp [CtrlzGuardState.due, CtrlzGuardState.deadline]

theorem due_eq_false {state : CtrlzGuardState} : state.due now = false ↔ Open now state.deadline := by
  rw [← Bool.not_eq_true, due_iff]
  simp [Open]

theorem open_of_due {state state' : CtrlzGuardState} (h : (if state.due now then .idle else state) = state') :
    Open now state'.deadline := by
  subst h
  split
  · intro deadline h
    cases h
  · rename_i hdue
    exact due_eq_false.1 (Bool.not_eq_true _ ▸ hdue)

/-- What a call of the guard does: `ts` are the bytes the decoder held and `rest` those it holds after,
`more` what is typed later. -/
structure GuardCall (config : AttachConfig) (guard : CtrlzGuard) (now : Instant) (outcome : GuardOutcome)
    (guard' : CtrlzGuard) (keys keys' : List TypedKey) : Prop where
  sends : passedOn config.ctrlzGuardDelay guard.state.deadline keys =
    outcome.forward ++ passedOn config.ctrlzGuardDelay guard'.state.deadline keys'
  reports : outcome.suspend = guard.state.due now
  due : ∀ deadline, guard.state.deadline = some deadline → deadline ≤ now →
    runOut config.ctrlzGuardDelay (some deadline) keys =
      deadline :: runOut config.ctrlzGuardDelay guard'.state.deadline keys'
  waits : Open now guard.state.deadline → runOut config.ctrlzGuardDelay guard.state.deadline keys =
    runOut config.ctrlzGuardDelay guard'.state.deadline keys'
  later : Open now guard'.state.deadline
  settles : ∀ k ∈ keys, (∃ seq, k.key = .ctrlZ seq) → k.last = now ∨ k ∈ keys'

theorem call (hon : config.ctrlzGuard = true) (hdelay : 0 < config.ctrlzGuardDelay) {guard : CtrlzGuard} {ts : Typed}
    (hts : Holding guard.decoder ts) (hnow : ∀ x ∈ ts, x.2 ≤ now)
    (hwhole : guard.state.due now = true → guard.decoder.partialBytes = []) (chunk : Bytes) {more : Typed}
    (hmore : ∀ y ∈ more, now ≤ y.2) :
    ∃ rest : Typed, Holding (processCtrlzGuard config guard chunk now).2.decoder rest ∧
      rest <:+ ts ++ arrive chunk now ∧
      GuardCall config guard now (processCtrlzGuard config guard chunk now).1 (processCtrlzGuard config guard chunk now).2
        (typedKeys (ts ++ arrive chunk now ++ more)) (typedKeys (rest ++ more)) := by
  obtain ⟨done, rest, hrest, hsuffix, hkeys, htokens, hdone⟩ := hts.feed hnow chunk hmore
  -- The state the tokens find, in which no deadline has passed.
  generalize hstart : (if guard.state.due now then CtrlzGuardState.idle else guard.state) = state
  have hopen : Open now state.deadline := open_of_due hstart
  have hfold := foldl_settled hdelay hopen hdone { forward := [], suspend := guard.state.due now }
  rw [← htokens, ← foldl_tokens (KeyDecoder.feed_ne _ _ _)] at hfold
  obtain ⟨hstate, hout⟩ := hfold
  have hcall := processCtrlzGuard_on hon hstart chunk
  -- When the held Ctrl+Z is due nothing else is held, so all further keys come too late for it.
  have hlapsed : ∀ deadline, guard.state.deadline = some deadline → deadline ≤ now →
      state.deadline = none ∧ ∀ k ∈ typedKeys (ts ++ arrive chunk now ++ more), deadline ≤ k.first ∧ deadline ≤ k.last := by
    intro deadline hdeadline hle
    have hdue : guard.state.due now = true := due_iff.2 ⟨deadline, hdeadline, hle⟩
    obtain rfl : ts = [] := Holding.bytes_eq_nil.1 (hts.bytes.trans (hwhole hdue))
    refine ⟨by rw [← hstart, if_pos hdue]; rfl, fun k hk => ?_⟩
    have htime : ∀ x ∈ arrive chunk now ++ more, deadline ≤ x.2 := by
      intro x hx
      obtain hx | hx := List.mem_append.1 hx
      · rwa [time_of_mem_arrive hx]
      · exact hle.trans (hmore x hx)
    obtain ⟨⟨x, hx, hfirst⟩, y, hy, hlast⟩ := times_of_mem_typedKeys hk
    exact ⟨hfirst ▸ htime x hx, hlast ▸ htime y hy⟩
  have hsame : Open now guard.state.deadline → state = guard.state := by
    intro hwait
    rw [← hstart, due_eq_false.2 hwait]
    rfl
  refine ⟨rest, hcall ▸ hrest, hsuffix, ?_⟩
  rw [hcall, hout]
  rw [hkeys] at hlapsed ⊢
  refine ⟨?_, rfl, ?_, ?_, ?_, ?_⟩
  · have hpass : passedOn config.ctrlzGuardDelay guard.state.deadline (done ++ typedKeys (rest ++ more)) =
        passedOn config.ctrlzGuardDelay state.deadline (done ++ typedKeys (rest ++ more)) := by
      cases hdue : guard.state.due now with
      | false => rw [hsame (due_eq_false.1 hdue)]
      | true =>
        obtain ⟨deadline, hdeadline, hle⟩ := due_iff.1 hdue
        obtain ⟨hnone, hlate⟩ := hlapsed deadline hdeadline hle
        rw [hdeadline, hnone, (lapsed hlate).1]
    rw [hpass, passedOn_append, hstate]
    rfl
  · intro deadline hdeadline hle
    obtain ⟨hnone, hlate⟩ := hlapsed deadline hdeadline hle
    rw [(lapsed hlate).2, ← hnone, runOut_settled hdelay hopen hdone, hstate]
  · intro hwait
    rw [← congrArg CtrlzGuardState.deadline (hsame hwait), runOut_settled hdelay hopen hdone, hstate]
  · rw [hstate]
    exact foldl_open hdelay hopen hdone
  · rintro k hk ⟨seq, hkey⟩
    obtain hk | hk := List.mem_append.1 hk
    · exact .inl ((hdone k hk).last_eq seq hkey)
    · exact .inr hk

end Calling

/-! ## Runs of calls -/

section Run

variable {config : AttachConfig}

/-- What calls from a guard in the middle of things do, with `ts` the bytes its decoder holds. -/
structure Runs (config : AttachConfig) (guard : CtrlzGuard) (ts : Typed) (calls : List (Bytes × Instant)) : Prop where
  holding : ∃ rest : Typed, Holding (guardCalls config guard calls).2.decoder rest ∧ rest <:+ ts ++ typed calls
  sends : forwarded (guardCalls config guard calls).1 ++ (guardCalls config guard calls).2.decoder.partialBytes =
    passedOn config.ctrlzGuardDelay guard.state.deadline (typedKeys (ts ++ typed calls))
  reports : suspends (guardCalls config guard calls).1 =
    (runOut config.ctrlzGuardDelay guard.state.deadline (typedKeys (ts ++ typed calls))).filterMap fun deadline =>
      (calls.map Prod.snd).find? (deadline ≤ ·)
  presses : ∀ k ∈ typedKeys (ts ++ typed calls), (∃ seq, k.key = .ctrlZ seq) → ∃ c ∈ calls, k.last = c.2

/-- Bytes that begin a Ctrl+Z and do not end it are keys of their own if nothing follows. -/
theorem typedKeys_held {d : KeyDecoder} {ts : Typed} (h : Holding d ts) : typedKeys ts = ts.map asByte := by
  have := @typedKeys_expired ts [] (quiet_of_incomplete (h.bytes ▸ h.begun)) (by simp)
  simpa [typedKeys_nil] using this

theorem passedOn_bytes (delay : Nat) (held : Option Instant) (ts : Typed) : passedOn delay held (ts.map asByte) = ts.bytes := by
  induction ts generalizing held with
  | nil => rfl
  | cons x ts ih =>
    rw [List.map_cons, passedOn, ih]
    rfl

/-- A call reports the Ctrl+Z whose deadline it is the first to come after. -/
theorem reports_cons {guard : CtrlzGuard} {chunk : Bytes} {now : Instant} {calls : List (Bytes × Instant)}
    {keys keys' : List TypedKey}
    (hcall : GuardCall config guard now (processCtrlzGuard config guard chunk now).1 (processCtrlzGuard config guard chunk now).2
      keys keys')
    (hrest : suspends (guardCalls config (processCtrlzGuard config guard chunk now).2 calls).1 =
      (runOut config.ctrlzGuardDelay (processCtrlzGuard config guard chunk now).2.state.deadline keys').filterMap
        fun deadline => (calls.map Prod.snd).find? (deadline ≤ ·))
    (hafter : ∀ deadline ∈ runOut config.ctrlzGuardDelay (processCtrlzGuard config guard chunk now).2.state.deadline keys',
      ¬ deadline ≤ now) :
    suspends (guardCalls config guard ((chunk, now) :: calls)).1 =
      (runOut config.ctrlzGuardDelay guard.state.deadline keys).filterMap fun deadline =>
        (((chunk, now) :: calls).map Prod.snd).find? (deadline ≤ ·) := by
  have hlater : (runOut config.ctrlzGuardDelay (processCtrlzGuard config guard chunk now).2.state.deadline keys').filterMap
      (fun deadline => (((chunk, now) :: calls).map Prod.snd).find? (deadline ≤ ·)) =
        suspends (guardCalls config (processCtrlzGuard config guard chunk now).2 calls).1 := by
    rw [hrest]
    refine List.filterMap_congr fun deadline hmem => ?_
    rw [List.map_cons, List.find?_cons_of_neg (by simpa using hafter deadline hmem)]
  cases hdue : guard.state.due now with
  | false =>
    rw [hcall.waits (due_eq_false.1 hdue), hlater]
    simp [guardCalls, suspends, hcall.reports, hdue]
  | true =>
    obtain ⟨deadline, hdeadline, hle⟩ := due_iff.1 hdue
    rw [Option.mem_def.1 hdeadline, hcall.due deadline hdeadline hle, List.filterMap_cons, hlater]
    simp [guardCalls, suspends, hcall.reports, hdue, hle]

theorem runs (hon : config.ctrlzGuard = true) (hdelay : 0 < config.ctrlzGuardDelay) {calls : List (Bytes × Instant)}
    {guard : CtrlzGuard} {ts : Typed} (hts : Holding guard.decoder ts)
    (hbefore : ∀ x ∈ ts, ∀ c ∈ calls, x.2 ≤ c.2) (hsorted : calls.Pairwise (·.2 ≤ ·.2))
    (hwhole : Undivided config guard calls) : Runs config guard ts calls := by
  induction calls generalizing guard ts with
  | nil =>
    refine ⟨⟨ts, hts, by simp [typed]⟩, ?_, ?_, ?_⟩
    · rw [typed, List.flatMap_nil, List.append_nil, typedKeys_held hts, passedOn_bytes, hts.bytes]
      rfl
    · simp [guardCalls, suspends]
    · rw [typed, List.flatMap_nil, List.append_nil, typedKeys_held hts]
      rintro k hk ⟨seq, hkey⟩
      obtain ⟨x, -, rfl⟩ := List.mem_map.1 hk
      cases hkey
  | cons c calls ih =>
    obtain ⟨chunk, now⟩ := c
    rw [List.pairwise_cons] at hsorted
    have hmore : ∀ y ∈ typed calls, now ≤ y.2 := by
      intro y hy
      obtain ⟨c, hc, hy⟩ := List.mem_flatMap.1 hy
      rw [time_of_mem_arrive hy]
      exact hsorted.1 c hc
    obtain ⟨rest, hrest, hsuffix, hcall⟩ := call hon hdelay hts (fun x hx => hbefore x hx _ List.mem_cons_self) hwhole.1
      chunk hmore
    have hnow : ∀ x ∈ rest, x.2 ≤ now := by
      intro x hx
      obtain hx | hx := List.mem_append.1 (hsuffix.subset hx)
      · exact hbefore x hx _ List.mem_cons_self
      · exact (time_of_mem_arrive hx).le
    have hrun := ih hrest (fun x hx c hc => (hnow x hx).trans (hsorted.1 c hc)) hsorted.2 hwhole.2
    have htyped : ts ++ typed ((chunk, now) :: calls) = ts ++ arrive chunk now ++ typed calls := by
      simp [typed]
    refine ⟨?_, ?_, ?_, ?_⟩
    · obtain ⟨last, hlast, hlast'⟩ := hrun.holding
      obtain ⟨front, hfront⟩ := hsuffix
      refine ⟨last, hlast, hlast'.trans ?_⟩
      rw [htyped, ← hfront, List.append_assoc]
      exact List.suffix_append _ _
    · rw [htyped, hcall.sends, ← hrun.sends]
      simp [guardCalls, forwarded]
    · have hafter : ∀ deadline ∈ runOut config.ctrlzGuardDelay
          (processCtrlzGuard config guard chunk now).2.state.deadline (typedKeys (rest ++ typed calls)), ¬ deadline ≤ now := by
        intro deadline hmem
        obtain hheld | ⟨k, hk, hpress, rfl⟩ := mem_runOut hmem
        · exact Nat.not_le.2 (hcall.later deadline hheld)
        · obtain ⟨c, hc, hlast⟩ := hrun.presses k hk hpress
          rw [hlast]
          exact Nat.not_le.2 (Nat.lt_add_right_iff_pos.2 hdelay |>.trans_le' (hsorted.1 c hc))
      rw [htyped]
      exact reports_cons hcall hrun.reports hafter
    · rw [htyped]
      intro k hk hpress
      obtain h | h := hcall.settles k hk hpress
      · exact ⟨_, List.mem_cons_self, h⟩
      · obtain ⟨c, hc, h⟩ := hrun.presses k h hpress
        exact ⟨c, List.mem_cons_of_mem _ hc, h⟩

theorem undivided_append {guard : CtrlzGuard} {before : List (Bytes × Instant)} {c : Bytes × Instant}
    {after : List (Bytes × Instant)} (h : Undivided config guard (before ++ c :: after)) :
    Undivided config guard before ∧ ((guardCalls config guard before).2.state.due c.2 = true →
      (guardCalls config guard before).2.decoder.partialBytes = []) := by
  induction before generalizing guard with
  | nil => exact ⟨trivial, h.1⟩
  | cons d before ih =>
    obtain ⟨hbefore, hc⟩ := ih h.2
    exact ⟨⟨h.1, hbefore⟩, hc⟩

theorem wait_lt {now deadline earlier : Nat} (hearlier : earlier ≤ deadline) (hnow : now < deadline) :
    now + millis (min (max ((earlier - now) / millis 1) 1) 65535) < deadline + millis 1 := by
  simp only [millis, one_mul]
  omega

/-- The wait ends at the earlier deadline, to the millisecond. -/
theorem pollTimeout_wakes {guard : CtrlzGuard} {now deadline : Instant}
    (h : guard.state.deadline = some deadline ∨ guard.decoder.holdDeadline = some deadline) (hnow : now < deadline) :
    ∃ ms, ctrlzGuardPollTimeout guard now = some ms ∧ now + millis ms < deadline + millis 1 := by
  unfold ctrlzGuardPollTimeout
  cases hstate : guard.state.deadline with
  | none =>
    rw [hstate] at h
    obtain h | h := h
    · cases h
    · rw [h]
      exact ⟨_, rfl, wait_lt le_rfl hnow⟩
  | some a =>
    cases hdecoder : guard.decoder.holdDeadline with
    | none =>
      rw [hstate, hdecoder] at h
      obtain h | h := h
      · cases h
        exact ⟨_, rfl, wait_lt le_rfl hnow⟩
      · cases h
    | some b =>
      refine ⟨_, rfl, wait_lt ?_ hnow⟩
      rw [hstate, hdecoder, Option.some.injEq, Option.some.injEq] at h
      obtain rfl | rfl := h
      · exact Nat.min_le_left _ _
      · exact Nat.min_le_right _ _

/-- What the guard is for, over calls from its start. -/
structure Guarded (config : AttachConfig) (calls : List (Bytes × Instant)) : Prop where
  /-- The child gets what the keys typed send it, up to bytes that may still become a Ctrl+Z. -/
  sends : forwarded (guardCalls config {} calls).1 ++ (guardCalls config {} calls).2.decoder.partialBytes =
    passedOn config.ctrlzGuardDelay none (typedKeys (typed calls))
  /-- These are given up when nothing follows the last byte typed. -/
  holds : (guardCalls config {} calls).2.decoder.partialBytes ≠ [] →
    (∃ seq ∈ ctrlzEncodings, (guardCalls config {} calls).2.decoder.partialBytes <+: seq) ∧
      (guardCalls config {} calls).2.decoder.holdDeadline = (typed calls).getLast?.map fun x => x.2 + hold
  /-- A suspend is reported for each held Ctrl+Z that ran out, by the first call from its deadline on. -/
  reports : suspends (guardCalls config {} calls).1 =
    (runOut config.ctrlzGuardDelay none (typedKeys (typed calls))).filterMap fun deadline =>
      (calls.map Prod.snd).find? (deadline ≤ ·)
  /-- Before a suspend is reported, all that was typed has gone where it belongs. -/
  settled : ∀ before chunk now after, calls = before ++ (chunk, now) :: after →
    (processCtrlzGuard config (guardCalls config {} before).2 chunk now).1.suspend = true →
      forwarded (guardCalls config {} before).1 = passedOn config.ctrlzGuardDelay none (typedKeys (typed before))
  /-- While something is held, the next call comes at its deadline. -/
  wakes : ∀ deadline, ((guardCalls config {} calls).2.state.deadline = some deadline ∨
      (guardCalls config {} calls).2.decoder.holdDeadline = some deadline) → ∀ now < deadline,
    ∃ ms, ctrlzGuardPollTimeout (guardCalls config {} calls).2 now = some ms ∧ now + millis ms < deadline + millis 1

theorem guarded (hon : config.ctrlzGuard = true) (hdelay : 0 < config.ctrlzGuardDelay) {calls : List (Bytes × Instant)}
    (hsorted : calls.Pairwise (·.2 ≤ ·.2)) (hwhole : Undivided config {} calls) : Guarded config calls := by
  have hrun := runs hon hdelay holding_fresh (by simp) hsorted hwhole
  obtain ⟨rest, hrest, hsuffix⟩ := hrun.holding
  refine ⟨hrun.sends, fun hne => ⟨(scan_incomplete hrest.begun).1, ?_⟩, hrun.reports, ?_,
    fun _ hheld _ hnow => pollTimeout_wakes hheld hnow⟩
  · rw [hrest.deadline]
    have hrestNe : rest ≠ [] := by
      rintro rfl
      exact hne hrest.bytes.symm
    obtain ⟨front, hfront⟩ := hsuffix
    rw [List.nil_append] at hfront
    rw [← hfront, List.getLast?_append_of_ne_nil _ hrestNe]
  · rintro before chunk now after rfl hsuspend
    obtain ⟨hbefore, hpart⟩ := undivided_append hwhole
    rw [suspend_eq_due hon hdelay] at hsuspend
    have hsent := (runs hon hdelay holding_fresh (by simp) (List.pairwise_append.1 hsorted).1 hbefore).sends
    rw [hpart hsuspend, List.append_nil] at hsent
    exact hsent

/-- A double press, a key, and a single press that is left to run out. -/
theorem guarded_presses :
    Guarded ⟨true, millis 500, .clientSuspend⟩
      [([0x1a], 0), ([0x1a, 0x78], millis 3), ([0x1a], millis 9), ([], millis 509), ([0x79], millis 600)] :=
  guarded rfl (by decide) (by decide) ⟨by decide +kernel, by decide +kernel, by decide +kernel, by decide +kernel,
    by decide +kernel, trivial⟩

/-- An Escape typed just before the deadline is still held when the client suspends. -/
theorem escape_divided :
    ctrlzGuardPollTimeout (guardCalls ⟨true, millis 1000, .clientSuspend⟩ {} [([0x1a], 0), ([0x1b], millis 995)]).2
        (millis 995) = some 5 ∧
      ¬ Guarded ⟨true, millis 1000, .clientSuspend⟩ [([0x1a], 0), ([0x1b], millis 995), ([], millis 1000)] := by
  refine ⟨by decide +kernel, fun h => ?_⟩
  have hreports := h.reports
  revert hreports
  decide +kernel

end Run

end Hyoui.Client
