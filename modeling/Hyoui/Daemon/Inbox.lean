import Hyoui.Daemon.Acks
import Hyoui.Daemon.ExitCode
/-!
# What becomes of what clients type

`inboxed` is the loop with all that it reads from every client's socket beside it, and the frames of it
that it handled. In every run the log tells of each frame of raw input once, in order, all of it: what
the PTY took, what it did not, what was refused and why (`log_tells_input`).
-/

namespace Hyoui.Daemon

open Hyoui.Protocol Hyoui.Lib

/-! ## Reading a socket -/

/-- What a turn reads from the socket of a client. -/
def receivedBytes (ch : ClientHandle) (readable : Bool) (recv : RecvResult) : Bytes :=
  if ch.decoder.isReady ∨ readable = false then []
  else match recv with
    | .bytes b => b.take clientRecvChunk
    | .wouldBlock | .error => []

/-- The same of the client with this id, in the walk over the clients. -/
def collectedBytes (recv : ClientId → RecvResult) (id : ClientId) : List ClientHandle → List (ClientId × Bool) → Bytes
  | [], _ => []
  | ch :: chs, revents =>
    let (readable, revents) := matchRevents ch.id revents
    if ch.id = id then receivedBytes ch readable (recv id) else collectedBytes recv id chs revents

/-- The frame a client's turn to read gives, if any. -/
def takenFrame : Option FrameOrError → List Frame
  | some (.frame f) => [f]
  | some .error | none => []

section Reading

variable {W : World} {ch : ClientHandle} {xs : Bytes} {items : List Frame}

/-- Of all that was received from the client these frames have been taken, and its decoder holds the rest. -/
structure ClientHandle.HasRead (ch : ClientHandle) (xs : Bytes) (items : List Frame) : Prop where
  reads : frameScanner.Reads xs items ch.decoder.pending
  pos : ch.decoder.pos ≤ ch.decoder.buf.length

theorem takeFrame_reads (h : ch.HasRead xs items) :
    (takeFrame W ch).1.HasRead xs (items ++ takenFrame (takeFrame W ch).2) := by
  have hspec := ch.decoder.nextFrame_spec W.alloc
  unfold takeFrame
  split at hspec
  · rw [hspec]
    exact ⟨(List.append_nil items).symm ▸ h.reads, h.pos⟩
  · rw [hspec]
    exact ⟨(List.append_nil items).symm ▸ h.reads, h.pos⟩
  · rename_i hlook
    obtain ⟨decoder, hnext, hpending, hpos⟩ := hspec
    rw [hnext]
    refine ⟨?_, hpos⟩
    rw [hpending]
    exact h.reads.take hlook

/-- A client's turn to read: the bytes are appended to what was received, and at most one frame is taken. -/
theorem receiveClientFrame_reads (h : ch.HasRead xs items) (readable : Bool) (recv : RecvResult) :
    (receiveClientFrame W ch readable recv).1.HasRead (xs ++ receivedBytes ch readable recv)
      (items ++ takenFrame (receiveClientFrame W ch readable recv).2) := by
  have hsame : ch.HasRead (xs ++ []) (items ++ []) := by
    rw [List.append_nil, List.append_nil]
    exact h
  unfold receiveClientFrame receivedBytes
  by_cases hready : ch.decoder.isReady = true
  · rw [if_pos hready, if_pos (Or.inl hready), List.append_nil]
    exact takeFrame_reads h
  · rw [if_neg hready]
    cases readable with
    | false =>
      rw [if_pos (Or.inr rfl)]
      exact hsame
    | true =>
      rw [if_neg (by simp), if_neg (by simp [hready])]
      cases recv with
      | wouldBlock => exact hsame
      | error => exact hsame
      | bytes b =>
        cases b with
        | nil => exact hsame
        | cons x b =>
          refine takeFrame_reads ⟨?_, ?_⟩
          · dsimp only
            rw [FrameDecoder.pending_push _ _ _ h.pos]
            exact h.reads.more _
          · dsimp only
            rw [FrameDecoder.pos_push]
            exact Nat.zero_le _

variable (W) in
/-- In the walk every client has its own turn to read. -/
theorem collectFrames_client (recv : ClientId → RecvResult) (idx : Nat) {clients : List ClientHandle}
    (hn : (clients.map (·.id)).Nodup) (revents : List (ClientId × Bool)) {i : Nat} (hch : clients[i]? = some ch) :
    ∃ readable, collectedBytes recv ch.id clients revents = receivedBytes ch readable (recv ch.id) ∧
      (collectFrames W recv idx clients revents).1[i]? = some (receiveClientFrame W ch readable (recv ch.id)).1 ∧
      (collectFrames W recv idx clients revents).2.filter (·.1 = idx + i) =
        (receiveClientFrame W ch readable (recv ch.id)).2.toList.map (idx + i, ·) := by
  induction clients generalizing idx i revents with
  | nil => cases hch
  | cons c chs ih =>
    rw [List.map_cons, List.nodup_cons] at hn
    unfold collectedBytes collectFrames
    generalize matchRevents c.id revents = m
    obtain ⟨readable, revents'⟩ := m
    have hlater : ∀ {j : Nat} {fre : FrameOrError}, (j, fre) ∈ (collectFrames W recv (idx + 1) chs revents').2 →
        idx + 1 ≤ j ∧ j < idx + 1 + chs.length := collectFrames_index
    dsimp only
    cases i with
    | zero =>
      obtain rfl : c = ch := Option.some.inj hch
      refine ⟨readable, if_pos rfl, rfl, ?_⟩
      have hrest : (collectFrames W recv (idx + 1) chs revents').2.filter (·.1 = idx + 0) = [] := by
        refine List.filter_eq_nil_iff.2 fun f hf heq => ?_
        have hle := (hlater hf).1
        have hidx := of_decide_eq_true heq
        omega
      cases (receiveClientFrame W c readable (recv c.id)).2 with
      | none => exact hrest
      | some fre =>
        dsimp only
        rw [List.filter_cons_of_pos (by simp), hrest]
        rfl
    | succ i =>
      rw [List.getElem?_cons_succ] at hch
      have hne : c.id ≠ ch.id := fun heq => hn.1 (heq ▸ List.mem_map_of_mem (List.mem_of_getElem? hch))
      obtain ⟨readable', hbytes, hclient, hframes⟩ := ih (idx + 1) hn.2 revents' hch
      rw [Nat.add_right_comm] at hframes
      refine ⟨readable', (if_neg hne).trans hbytes, hclient, ?_⟩
      rw [← Nat.add_assoc]
      cases (receiveClientFrame W c readable (recv c.id)).2 with
      | none => exact hframes
      | some fre =>
        dsimp only
        rw [List.filter_cons_of_neg (by simp; omega), hframes]

theorem collectedBytes_absent {recv : ClientId → RecvResult} {id : ClientId} {clients : List ClientHandle}
    (h : ∀ ch ∈ clients, ch.id ≠ id) (revents : List (ClientId × Bool)) : collectedBytes recv id clients revents = [] := by
  induction clients generalizing revents with
  | nil => rfl
  | cons c chs ih =>
    unfold collectedBytes
    dsimp only
    rw [if_neg (h c List.mem_cons_self)]
    exact ih (fun ch hch => h ch (List.mem_cons_of_mem _ hch)) _

end Reading

/-! ## The frames of a turn -/

/-- A frame the daemon handled, and whether it was about to hand over to its successor. -/
structure Heard where
  frame : Frame
  upgrading : Bool
deriving DecidableEq

def FrameRun.stepHeard (r : FrameRun) (id : ClientId) (idx : Nat) (fre : FrameOrError) : List Heard :=
  match r.shouldReturn, fre with
  | none, .frame frame => if (r.sess.clients[idx]?).any (·.id = id) then [⟨frame, r.sess.upgradePending⟩] else []
  | _, _ => []

/-- The frames of one client among those that are handled. -/
def FrameRun.heard (W : World) (cfg : Config) (inp : IterInput) (id : ClientId) (r : FrameRun) :
    List (Nat × FrameOrError) → List Heard
  | [] => []
  | f :: frames => r.stepHeard id f.1 f.2 ++ (r.step W cfg inp f.1 f.2).heard W cfg inp id frames

/-- What the PTY took, if it took anything. -/
def typedEntry (id : ClientId) (accepted : Bytes) : Log := if accepted = [] then [] else [.push (.bytesIn id accepted)]

/-- What the log tells of a frame: of raw input, that the PTY took all of it, or took a part and not the rest, or that
it was refused, to a reader or because another has the lock. A daemon that hands over refuses it silently. -/
inductive Entered (id : ClientId) : Heard → Log → Prop
  | other {f : Frame} {upgrading : Bool} (h : f.ty ≠ typeRawData) : Entered id ⟨f, upgrading⟩ []
  | upgrading {f : Frame} (h : f.ty = typeRawData) : Entered id ⟨f, true⟩ []
  | taken {f : Frame} (h : f.ty = typeRawData) : Entered id ⟨f, false⟩ (typedEntry id f.body)
  | cut {f : Frame} {accepted rest : Bytes} {kind : WriteErrorKind} (h : f.ty = typeRawData) (hbody : f.body = accepted ++ rest)
      (hrest : rest ≠ []) :
    Entered id ⟨f, false⟩ (typedEntry id accepted ++ [.push (.inWriteError id f.body.length accepted.length kind rest)])
  | reader {f : Frame} {holder : Option ClientId} (h : f.ty = typeRawData) :
    Entered id ⟨f, false⟩ [.push (.inRejected id .ro holder .roClient f.body)]
  | locked {f : Frame} {mode : Mode} {holder : ClientId} (h : f.ty = typeRawData) (hmode : mode ≠ .ro) (hother : holder ≠ id) :
    Entered id ⟨f, false⟩ [.push (.inRejected id mode (some holder) .lockNotHeld f.body)]

section Heard

variable {W : World} {cfg : Config} {inp : IterInput} {r : FrameRun} {id : ClientId} {i : Nat}

/-- All that is told of a frame is told of who sent it. -/
theorem Entered.typist {heard : Heard} {told : Log} (h : Entered id heard told) : ∀ e ∈ told, e.typist = some id := by
  have htyped : ∀ accepted, ∀ e ∈ typedEntry id accepted, e.typist = some id := by
    intro accepted e he
    unfold typedEntry at he
    split at he
    · cases he
    · rw [List.mem_singleton.1 he]
      rfl
  intro e he
  cases h with
  | other | upgrading => cases he
  | taken => exact htyped _ e he
  | cut =>
    rcases List.mem_append.1 he with he | he
    · exact htyped _ e he
    · rw [List.mem_singleton.1 he]
      rfl
  | reader | locked =>
    rw [List.mem_singleton.1 he]
    rfl

theorem Entered.filter {heard : Heard} {told : Log} (h : Entered id heard told) :
    told.filter (·.isTyping) = told ∧ ∀ id', told.filter (·.typist = some id') = if id = id' then told else [] := by
  refine ⟨List.filter_eq_self.2 fun e he => ?_, fun id' => ?_⟩
  · rw [LogEntry.isTyping, h.typist e he]
    rfl
  · split <;> rename_i hid
    · exact List.filter_eq_self.2 fun e he => decide_eq_true (hid ▸ h.typist e he)
    · refine List.filter_eq_nil_iff.2 fun e he heq => ?_
      rw [decide_eq_true_eq, h.typist e he, Option.some.injEq] at heq
      exact hid heq

/-- Raw input is told of whole. -/
theorem inputEntries_told (lock : LockState) (mode : Mode) {f : Frame} (hraw : f.ty = typeRawData) (steps : List TtyStep) :
    Entered id ⟨f, false⟩ ((inputEntries lock id mode f.body steps).filter (·.isTyping)) := by
  unfold inputEntries
  split <;> rename_i hro
  · rw [hro]
    exact .reader hraw
  · split <;> rename_i hheld
    · obtain ⟨holder, hholder⟩ := Option.isSome_iff_exists.1 hheld.1
      rw [hholder] at hheld ⊢
      exact .locked hraw hro fun heq => hheld.2 (heq ▸ rfl)
    · obtain ⟨htake, hwhole⟩ := writeAll_accepts f.body steps
      have hrecords := writeRecords_logged id f.body steps
      have hle := writeAll_le f.body steps
      generalize writeAllWithIdleTimeout f.body steps = w at htake hwhole hrecords hle ⊢
      obtain ⟨written, error⟩ := w
      dsimp only at htake hwhole hrecords hle ⊢
      have hwrite : (LogEntry.ptyWrite (ptyAccepts f.body steps)).isTyping = false := rfl
      rw [List.filter_cons_of_neg (by simp [hwrite]), hrecords, htake]
      cases error with
      | none =>
        have hall : f.body.take written = f.body := by rw [hwhole.1 rfl, List.take_length]
        have htold : Entered id ⟨f, false⟩ (typedEntry id f.body) := .taken hraw
        dsimp only
        rw [hall, List.append_nil]
        exact htold.filter.1.symm ▸ htold
      | some err =>
        have hcut : written ≠ f.body.length := fun heq => by cases hwhole.2 heq
        have htold : Entered id ⟨f, false⟩ (typedEntry id (f.body.take written) ++
            [.push (.inWriteError id f.body.length (f.body.take written).length (ClientRegistry.writeErrorKind err)
              (f.body.drop written))]) := by
          refine .cut hraw (List.take_append_drop _ _).symm fun hnil => ?_
          have hlen := congrArg List.length hnil
          rw [List.length_drop, List.length_nil] at hlen
          omega
        rw [List.length_take, Nat.min_eq_left hle] at htold
        exact htold.filter.1.symm ▸ htold

variable (inp) in
/-- What one frame leaves on the log is what is told of it to who sent it, and nothing to anybody else. -/
theorem FrameRun.step_told (r : FrameRun) (id : ClientId) (idx : Nat) (fre : FrameOrError) :
    ∃ told, List.Forall₂ (Entered id) (r.stepHeard id idx fre) told ∧
      (r.stepTyping inp idx fre).filter (·.typist = some id) = told.flatten := by
  unfold FrameRun.stepHeard FrameRun.stepTyping
  cases r.shouldReturn with
  | some o => exact ⟨[], .nil, rfl⟩
  | none =>
    cases fre with
    | error => exact ⟨[], .nil, rfl⟩
    | frame f =>
      dsimp only
      unfold frameTyping rawTyping
      cases r.sess.clients[idx]? with
      | none => exact ⟨[], .nil, by split <;> rfl⟩
      | some ch =>
        dsimp only [Option.elim_some, Option.any_some]
        obtain ⟨told, htold, htyping⟩ : ∃ told, Entered ch.id ⟨f, r.sess.upgradePending⟩ told ∧
            (if f.ty = typeRawData then if r.sess.upgradePending = true then [] else
              (inputEntries r.daemonState.lock ch.id ch.mode f.body (inp.frameEnv ch.id).tty).filter (·.isTyping)
            else []) = told := by
          refine ⟨_, ?_, rfl⟩
          split <;> rename_i hraw
          · cases r.sess.upgradePending with
            | true => exact .upgrading hraw
            | false => exact inputEntries_told _ _ hraw _
          · exact .other hraw
        rw [htyping, htold.filter.2 id]
        by_cases hid : ch.id = id
        · rw [if_pos hid, if_pos (decide_eq_true hid)]
          exact ⟨[told], .cons (hid ▸ htold) .nil, (List.append_nil told).symm⟩
        · rw [if_neg hid, if_neg (by simp [hid])]
          exact ⟨[], .nil, rfl⟩

variable (W cfg) in
theorem FrameRun.run_told (r : FrameRun) (id : ClientId) (frames : List (Nat × FrameOrError)) :
    ∃ told, List.Forall₂ (Entered id) (r.heard W cfg inp id frames) told ∧
      (r.typing W cfg inp frames).filter (·.typist = some id) = told.flatten := by
  induction frames generalizing r with
  | nil => exact ⟨[], .nil, rfl⟩
  | cons f frames ih =>
    obtain ⟨told, htold, hstep⟩ := FrameRun.step_told inp r id f.1 f.2
    obtain ⟨told', htold', hrun⟩ := ih (r.step W cfg inp f.1 f.2)
    refine ⟨told ++ told', List.rel_append htold htold', ?_⟩
    rw [FrameRun.typing, List.filter_append, hstep, hrun, List.flatten_append]

/-- With distinct ids a client is found at one place only. -/
theorem any_id_iff {clients : List ClientHandle} (hn : (clients.map (·.id)).Nodup)
    (hid : (clients.map (·.id))[i]? = some id) (k : Nat) :
    (clients[k]?).any (·.id = id) = decide (k = i) := by
  have hlt : i < (clients.map (·.id)).length := (List.getElem?_eq_some_iff.1 hid).1
  have hiff : (clients.map (·.id))[k]? = some id ↔ k = i := by
    rw [← hid, eq_comm, List.getElem?_inj hlt hn, eq_comm]
  rw [Bool.eq_iff_iff, decide_eq_true_eq, ← hiff, List.getElem?_map]
  cases clients[k]? <;> simp

theorem FrameRun.step_ended {r : FrameRun} (h : r.shouldReturn.isSome = true) (idx : Nat) (fre : FrameOrError) :
    r.step W cfg inp idx fre = r := if_pos h

theorem FrameRun.run_ended {r : FrameRun} (h : r.shouldReturn.isSome = true) (frames : List (Nat × FrameOrError)) :
    r.run W cfg inp frames = r := by
  induction frames with
  | nil => rfl
  | cons f frames ih =>
    rw [FrameRun.run, List.foldl_cons, FrameRun.step_ended h]
    exact ih

/-- Where the turn goes on, all the frames collected from a client were handled. -/
theorem FrameRun.run_heard {r : FrameRun} (h : r.Mid) (hid : (r.sess.clients.map (·.id))[i]? = some id)
    (frames : List (Nat × FrameOrError)) (hends : (r.run W cfg inp frames).shouldReturn = none) :
    (r.heard W cfg inp id frames).map (·.frame) = (frames.filter (·.1 = i)).flatMap fun f => takenFrame (some f.2) := by
  induction frames generalizing r with
  | nil => rfl
  | cons f frames ih =>
    have hgoes : r.shouldReturn = none := by
      by_contra hsome
      have hend : r.run W cfg inp (f :: frames) = r := FrameRun.run_ended (Option.isSome_iff_ne_none.2 hsome) _
      rw [hend] at hends
      exact hsome hends
    have hchatted := FrameRun.step_chatted (W := W) cfg inp h f.1 f.2
    have hrest := ih hchatted.mid (hchatted.ids.symm ▸ hid) hends
    have hone : (r.stepHeard id f.1 f.2).map (·.frame) = if f.1 = i then takenFrame (some f.2) else [] := by
      unfold FrameRun.stepHeard
      rw [hgoes]
      cases f.2 with
      | error => exact (ite_self []).symm
      | frame frame =>
        dsimp only
        rw [any_id_iff h.ids hid]
        by_cases hi : f.1 = i
        · rw [if_pos (decide_eq_true hi), if_pos hi]
          rfl
        · rw [if_neg (by simp [hi]), if_neg hi]
          rfl
    rw [FrameRun.heard, List.map_append, hone, hrest, List.filter_cons]
    by_cases hi : f.1 = i
    · rw [if_pos hi, if_pos (decide_eq_true hi), List.flatMap_cons]
    · rw [if_neg hi, if_neg (by simp [hi]), List.nil_append]

variable (W cfg) in
/-- Nothing is heard of who is not attached. -/
theorem FrameRun.heard_absent {r : FrameRun} (h : r.Mid) (hid : id ∉ r.sess.clients.map (·.id))
    (frames : List (Nat × FrameOrError)) :
    r.heard W cfg inp id frames = [] := by
  induction frames generalizing r with
  | nil => rfl
  | cons f frames ih =>
    have hchatted := FrameRun.step_chatted (W := W) cfg inp h f.1 f.2
    rw [FrameRun.heard, ih hchatted.mid (hchatted.ids.symm ▸ hid), List.append_nil]
    unfold FrameRun.stepHeard
    split
    · rw [if_neg]
      intro hany
      obtain ⟨ch, hch, heq⟩ := (Option.any_eq_true _ _).1 hany
      exact hid (List.mem_map.2 ⟨ch, List.mem_of_getElem? hch, of_decide_eq_true heq⟩)
    · rfl

end Heard

/-! ## The loop and its inboxes -/

/-- What a turn reads from a client's socket. -/
def State.readIn (W : World) (cfg : Config) (inp : IterInput) (st : State) (id : ClientId) : Bytes :=
  match beforeFrames W cfg inp st with
  | .frames w revents => collectedBytes inp.recv id w.sess.clients revents
  | .done _ | .tick _ => []

/-- The frames of a client that a turn handles. -/
def State.heardIn (W : World) (cfg : Config) (inp : IterInput) (st : State) (id : ClientId) : List Heard :=
  match beforeFrames W cfg inp st with
  | .frames w revents => (w.frameRun W inp revents).1.heard W cfg inp id (w.frameRun W inp revents).2
  | .done _ | .tick _ => []

/-- The loop, what it has read from every client's socket and which frames of it it has handled. -/
structure Inbox where
  state : State
  received : ClientId → Bytes
  heard : ClientId → List Heard

def inboxed (W : World) (cfg : Config) : System Inbox Move where
  init p := (loop W cfg).init p.state ∧ (p.received = fun _ => []) ∧ p.heard = fun _ => []
  step p mv := ((loop W cfg).step p.state mv).map fun st' =>
    { state := st'
      received := fun id => p.received id ++ p.state.readIn W cfg mv.input id
      heard := fun id => p.heard id ++ p.state.heardIn W cfg mv.input id }

/-- Of what was read from every client the frames that were handled are the first; an attached client's decoder holds
the rest; and of those to come nothing was read. -/
structure Session.HasRead (s : Session) (received : ClientId → Bytes) (heard : ClientId → List Heard) : Prop where
  clients : ∀ ch ∈ s.clients, ch.HasRead (received ch.id) ((heard ch.id).map (·.frame))
  everyone : ∀ id, (heard id).map (·.frame) <+: (frameScanner.drain (received id)).1
  fresh : ∀ id, s.nextClientId ≤ id → received id = [] ∧ heard id = []

section Inbox

variable {W : World} {cfg : Config} {inp : IterInput} {polls : List HandshakePoll} {typed : Log} {s s' : Session} {w : Work}
  {received : ClientId → Bytes} {heard : ClientId → List Heard} {st : State} {p : Inbox}

theorem inboxed_step {mv : Move} {p' : Inbox} (h : (inboxed W cfg).step p mv = some p') :
    (loop W cfg).step p.state mv = some p'.state ∧
      (p'.received = fun id => p.received id ++ p.state.readIn W cfg mv.input id) ∧
      p'.heard = fun id => p.heard id ++ p.state.heardIn W cfg mv.input id := by
  obtain ⟨st', hstep, rfl⟩ := Option.map_eq_some_iff.1 h
  exact ⟨hstep, rfl, rfl⟩

theorem inboxed_reachable (h : (inboxed W cfg).Reachable p) : (loop W cfg).Reachable p.state := by
  induction h with
  | init hinit => exact .init hinit.1
  | step _ _ hstep ih => exact .step ih trivial (inboxed_step hstep).1

/-- What is dealt out to clients does not touch what was read of them. -/
theorem Session.HasRead.deals (h : s.HasRead received heard) (hd : Deals W polls typed s s') : s'.HasRead received heard where
  clients ch' hch' := by
    rcases hd.clients ch' hch' with ⟨ch, hch, hdealt⟩ | ⟨ch, hnew, hle, -, hdealt⟩
    · obtain ⟨-, hid, hdecoder⟩ := hdealt.same
      have hread := h.clients ch hch
      rw [hid]
      exact ⟨hdecoder.symm ▸ hread.reads, hdecoder.symm ▸ hread.pos⟩
    · obtain ⟨-, hid, hdecoder⟩ := hdealt.same
      obtain ⟨hreceived, hheard⟩ := h.fresh ch.id hle
      rw [hid, hreceived, hheard]
      rw [hnew.decoder] at hdecoder
      exact ⟨hdecoder.symm ▸ Scanner.Reads.refl _ _, hdecoder.symm ▸ Nat.le_refl _⟩
  everyone := h.everyone
  fresh id hid := h.fresh id (le_trans hd.nextId hid)

theorem Session.HasRead.flushed (h : st.sess.HasRead received heard) (inp : IterInput) :
    (st.flushed inp).HasRead received heard where
  clients ch' hch' := by
    obtain ⟨ch, hch, rfl⟩ := List.mem_map.1 hch'
    split <;> exact ⟨(h.clients ch hch).reads, (h.clients ch hch).pos⟩
  everyone := h.everyone
  fresh := h.fresh

/-- The sockets are read, and all the frames taken from what was read are handled. -/
theorem Session.HasRead.collected (h : w.sess.HasRead received heard) (hmid : w.Mid) (revents : List (ClientId × Bool))
    (hends : ((w.frameRun W inp revents).1.run W cfg inp (w.frameRun W inp revents).2).shouldReturn = none) :
    (w.frameRun W inp revents).1.sess.HasRead (fun id => received id ++ collectedBytes inp.recv id w.sess.clients revents)
      (fun id => heard id ++ (w.frameRun W inp revents).1.heard W cfg inp id (w.frameRun W inp revents).2) := by
  obtain ⟨hmid₁, -⟩ := Work.frameRun_mid (W := W) inp hmid revents
  have hsame : List.Forall₂ (fun ch ch' : ClientHandle => ∃ decoder, ch' = { ch with decoder }) w.sess.clients
      (w.frameRun W inp revents).1.sess.clients := collectFrames_same inp.recv 0 w.sess.clients revents
  have hids : (w.frameRun W inp revents).1.sess.clients.map (·.id) = w.sess.clients.map (·.id) := by
    refine forall₂_map_eq ?_ hsame
    rintro ch _ ⟨decoder, rfl⟩
    rfl
  have hclient : ∀ ch' ∈ (w.frameRun W inp revents).1.sess.clients, ch'.HasRead
      (received ch'.id ++ collectedBytes inp.recv ch'.id w.sess.clients revents)
      ((heard ch'.id ++ (w.frameRun W inp revents).1.heard W cfg inp ch'.id (w.frameRun W inp revents).2).map (·.frame)) := by
    intro ch' hch'
    obtain ⟨i, hi⟩ := List.mem_iff_getElem?.1 hch'
    have hid : ((w.frameRun W inp revents).1.sess.clients.map (·.id))[i]? = some ch'.id := by
      rw [List.getElem?_map, hi]
      rfl
    have hheard := FrameRun.run_heard hmid₁ hid (w.frameRun W inp revents).2 hends
    have hid' := hids ▸ hid
    rw [List.getElem?_map, Option.map_eq_some_iff] at hid'
    obtain ⟨ch, hch, hsameid⟩ := hid'
    obtain ⟨readable, hbytes, hread, hframes⟩ := collectFrames_client W inp.recv 0 hmid.ids revents hch
    have heq : (receiveClientFrame W ch readable (inp.recv ch.id)).1 = ch' := Option.some.inj (hread.symm.trans hi)
    have hfilter : (w.frameRun W inp revents).2.filter (·.1 = i) =
        (receiveClientFrame W ch readable (inp.recv ch.id)).2.toList.map (0 + i, ·) := by
      rw [← hframes, Nat.zero_add]
      rfl
    have htaken : ((receiveClientFrame W ch readable (inp.recv ch.id)).2.toList.map (0 + i, ·)).flatMap
        (fun f => takenFrame (some f.2)) = takenFrame (receiveClientFrame W ch readable (inp.recv ch.id)).2 := by
      cases (receiveClientFrame W ch readable (inp.recv ch.id)).2 with
      | none => rfl
      | some fre => exact List.append_nil _
    rw [List.map_append, hheard, hfilter, htaken, ← hsameid, hbytes, ← heq]
    exact receiveClientFrame_reads (h.clients ch (List.mem_of_getElem? hch)) readable (inp.recv ch.id)
  -- who is not attached is not read
  have hquiet : ∀ id, id ∉ (w.frameRun W inp revents).1.sess.clients.map (·.id) →
      received id ++ collectedBytes inp.recv id w.sess.clients revents = received id ∧
        heard id ++ (w.frameRun W inp revents).1.heard W cfg inp id (w.frameRun W inp revents).2 = heard id := by
    intro id hmem
    have habsent : ∀ ch ∈ w.sess.clients, ch.id ≠ id := by
      rintro ch hch rfl
      rw [hids] at hmem
      exact hmem (List.mem_map_of_mem hch)
    rw [FrameRun.heard_absent W cfg hmid₁ hmem, collectedBytes_absent habsent, List.append_nil, List.append_nil]
    exact ⟨rfl, rfl⟩
  refine ⟨hclient, fun id => ?_, fun id hid => ?_⟩
  · by_cases hmem : id ∈ (w.frameRun W inp revents).1.sess.clients.map (·.id)
    · obtain ⟨ch', hch', rfl⟩ := List.mem_map.1 hmem
      exact (hclient ch' hch').reads.front
    · obtain ⟨hreceived, hheard⟩ := hquiet id hmem
      rw [hreceived, hheard]
      exact h.everyone id
  · have hmem : id ∉ (w.frameRun W inp revents).1.sess.clients.map (·.id) := by
      intro hmem
      obtain ⟨ch', hch', rfl⟩ := List.mem_map.1 hmem
      exact absurd (hmid₁.fresh hch') (Nat.not_lt.2 hid)
    obtain ⟨hreceived, hheard⟩ := hquiet id hmem
    rw [hreceived, hheard]
    exact h.fresh id hid

/-- The log as it tells of one client's input. -/
def Session.inputOf (s : Session) (id : ClientId) : Log := s.log.filter (·.typist = some id)

theorem typing_inputOf (s : Session) (id : ClientId) : s.typing.filter (·.typist = some id) = s.inputOf id := by
  unfold Session.typing Session.inputOf
  rw [List.filter_filter]
  refine List.filter_congr fun e _ => ?_
  unfold LogEntry.isTyping
  cases e.typist <;> simp

theorem Deals.inputOf (h : Deals W polls typed s s') (id : ClientId) :
    s'.inputOf id = s.inputOf id ++ typed.filter (·.typist = some id) := by
  rw [← typing_inputOf, ← typing_inputOf, h.typing, List.filter_append]

/-- The log tells of the frames that were handled of a client, one after the other. -/
def Session.TellsInput (s : Session) (id : ClientId) (heard : List Heard) : Prop :=
  ∃ told, List.Forall₂ (Entered id) heard told ∧ s.inputOf id = told.flatten

theorem Session.TellsInput.deals {id : ClientId} {hs hs' : List Heard} (h : s.TellsInput id hs) (hd : Deals W polls typed s s')
    (hnew : ∃ told, List.Forall₂ (Entered id) hs' told ∧ typed.filter (·.typist = some id) = told.flatten) :
    s'.TellsInput id (hs ++ hs') := by
  obtain ⟨told, htold, hlog⟩ := h
  obtain ⟨told', htold', htyped⟩ := hnew
  refine ⟨told ++ told', List.rel_append htold htold', ?_⟩
  rw [hd.inputOf, hlog, htyped, List.flatten_append]

theorem Session.TellsInput.quiet {id : ClientId} {hs : List Heard} (h : s.TellsInput id hs) (hd : Deals W polls [] s s') :
    s'.TellsInput id hs := by
  have hall : s'.TellsInput id (hs ++ []) := h.deals hd ⟨[], .nil, rfl⟩
  rwa [List.append_nil] at hall

/-- What was read and what was handled agree with the decoders and with the log. -/
structure Inbox.Ok (p : Inbox) : Prop where
  read : p.state.sess.HasRead p.received p.heard
  tells : ∀ id, p.state.sess.TellsInput id (p.heard id)

variable (W cfg inp) in
/-- A turn reads and handles frames before it is over, or it does not come to that. -/
theorem iterate_inbox (h : p.Ok) (hok : p.state.Ok) (hends : (iterate W cfg inp p.state).2 ≠ some .clientDetachedOrKilled) :
    Inbox.Ok { state := (iterate W cfg inp p.state).1
               received := fun id => p.received id ++ p.state.readIn W cfg inp id
               heard := fun id => p.heard id ++ p.state.heardIn W cfg inp id } := by
  have hdeals := iterate_deals (W := W) cfg inp hok
  have hspec := beforeFrames_spec (W := W) cfg inp hok
  have hread := h.read.flushed inp
  have htells : ∀ id, (p.state.flushed inp).TellsInput id (p.heard id) := h.tells
  have hquiet : Deals W inp.handshakes [] (p.state.flushed inp) (iterate W cfg inp p.state).1.sess →
      Inbox.Ok { state := (iterate W cfg inp p.state).1
                 received := fun id => p.received id ++ []
                 heard := fun id => p.heard id ++ [] } := by
    intro hd
    simp only [List.append_nil]
    exact ⟨hread.deals hd, fun id => (htells id).quiet hd⟩
  unfold State.readIn State.heardIn
  cases hstage : beforeFrames W cfg inp p.state with
  | done turn =>
    rw [hstage] at hdeals
    exact hquiet hdeals
  | tick w =>
    rw [hstage] at hdeals
    exact hquiet hdeals
  | frames w revents =>
    rw [hstage] at hdeals hspec
    obtain ⟨hbefore, hafter⟩ := hdeals
    have hgoes : ((w.frameRun W inp revents).1.run W cfg inp (w.frameRun W inp revents).2).shouldReturn = none := by
      have hkilled := run_ends W cfg inp (w.frameRun W inp revents).2 (r := (w.frameRun W inp revents).1) (fun o ho => by cases ho)
      have hresult : (iterate W cfg inp p.state).2 =
          ((w.frameRun W inp revents).1.run W cfg inp (w.frameRun W inp revents).2).shouldReturn := by
        unfold iterate
        rw [hstage]
        rfl
      rw [hresult] at hends
      generalize ((w.frameRun W inp revents).1.run W cfg inp (w.frameRun W inp revents).2).shouldReturn = o at hkilled hends
      cases o with
      | none => rfl
      | some o => exact absurd (congrArg some (hkilled o rfl)) hends
    refine ⟨((hread.deals hbefore).collected hspec.mid revents hgoes).deals hafter, fun id => ?_⟩
    have hpolled : w.sess.TellsInput id (p.heard id) := (htells id).quiet hbefore
    have hcollected : (w.frameRun W inp revents).1.sess.TellsInput id (p.heard id) := hpolled
    exact hcollected.deals hafter (FrameRun.run_told W cfg _ id _)

theorem inboxed_ok (h : (inboxed W cfg).Reachable p) : p.Ok := by
  refine h.inv Inbox.Ok ?_ ?_
  · rintro p ⟨hinit, hreceived, hheard⟩
    have hnobody := loop_init_clients hinit
    obtain ⟨e, nowMs, resumeScrollback, child, -, hstate⟩ := hinit
    have hdeals : Deals W [] [] (Session.initial cfg nowMs resumeScrollback child) p.state.sess :=
      hstate ▸ enterServeLoop_deals cfg e _
    refine ⟨⟨fun ch hch => ?_, fun id => ?_, fun id _ => ⟨congrFun hreceived id, congrFun hheard id⟩⟩, fun id => ?_⟩
    · rw [hnobody] at hch
      cases hch
    · rw [hheard]
      exact List.nil_prefix
    · rw [hheard]
      exact ⟨[], .nil, hdeals.inputOf id⟩
  · intro p mv p' hreach hp _ hstep
    obtain ⟨hmove, hreceived, hheard⟩ := inboxed_step hstep
    have hok := loop_ok (inboxed_reachable hreach)
    obtain ⟨state, received, heard⟩ := p'
    dsimp only at hmove hreceived hheard
    subst hreceived hheard
    cases mv with
    | turn inp =>
      have hturn := loop_turn hmove
      have hall := iterate_inbox W cfg inp hp hok (by rw [hturn]; exact fun heq => by cases heq)
      rwa [hturn] at hall
    | retry inp failure e =>
      obtain ⟨st₁, hturn, rfl⟩ := loop_retry hmove
      have hall := iterate_inbox W cfg inp hp hok (by rw [hturn]; exact fun heq => by cases heq)
      rw [hturn] at hall
      have hresume : Deals W [] [] st₁.sess (resumeServe W cfg failure e st₁.sess).sess := resumeServe_deals failure e st₁.sess
      exact ⟨hall.read.deals hresume, fun id => (hall.tells id).quiet hresume⟩

/-- In every run, whatever was read of a client in whatever pieces: of the frames it decodes to, the daemon has handled the
first, and where the client is attached its decoder holds the bytes of all the others. And what the log tells of the
client's input is, frame by frame of those handled, in order and each once, what becomes of the frame. -/
theorem log_tells_input (h : (inboxed W cfg).Reachable p) (id : ClientId) :
    (p.heard id).map (·.frame) <+: (decodeStream (p.received id)).1 ∧
      (∀ ch ∈ p.state.sess.clients, ch.id = id → decodeStream (p.received id) =
        ((p.heard id).map (·.frame) ++ (decodeStream ch.decoder.pending).1, (decodeStream ch.decoder.pending).2)) ∧
      ∃ told, List.Forall₂ (Entered id) (p.heard id) told ∧ p.state.sess.inputOf id = told.flatten := by
  obtain ⟨hread, htells⟩ := inboxed_ok h
  refine ⟨?_, ?_, htells id⟩
  · rw [decodeStream_eq_drain]
    exact hread.everyone id
  · rintro ch hch rfl
    have hreads : frameScanner.drain (p.received ch.id) = _ := (hread.clients ch hch).reads
    rw [decodeStream_eq_drain, decodeStream_eq_drain, hreads]

/-- A client attaches and types; of its next frame only the first bytes have come. -/
def inboxMoves : List Move := attachMoves .rw [] ++
  [.turn { recvInput [(0, rawBytes [104, 105] ++ (rawBytes [106]).take 3)] with frameEnv := fun _ => { tty := [.wrote 2] } }]

/-- Its first frame is on the log, and its decoder holds what there is of the second. -/
theorem log_tells_input_typed : ∃ (p : Inbox) (ch : ClientHandle) (told : List Log), p.state.sess.clients = [ch] ∧
    p.received 0 = rawBytes [104, 105] ++ (rawBytes [106]).take 3 ∧ p.heard 0 = [⟨.rawData [104, 105], false⟩] ∧
    decodeStream (p.received 0) =
      ((p.heard 0).map (·.frame) ++ (decodeStream ch.decoder.pending).1, (decodeStream ch.decoder.pending).2) ∧
    List.Forall₂ (Entered 0) (p.heard 0) told ∧ p.state.sess.inputOf 0 = told.flatten := by
  have hstart : (inboxed World.pristine {}).Reach (fun _ _ => True)
      { state := pristineStart {} {}, received := fun _ => [], heard := fun _ => [] } :=
    .init ⟨⟨{}, 0, [], {}, rfl, rfl⟩, rfl, rfl⟩
  obtain ⟨p, hreach, hids, hreceived, hheard⟩ := hstart.exists_run inboxMoves (p := fun p : Inbox =>
    p.state.sess.clients.map (·.id) = [0] ∧ p.received 0 = rawBytes [104, 105] ++ (rawBytes [106]).take 3 ∧
      p.heard 0 = [⟨.rawData [104, 105], false⟩]) (by decide +kernel)
  obtain ⟨ch, hch, hid⟩ := List.map_eq_singleton_iff.1 hids
  obtain ⟨-, hdecoders, told, htold, hlog⟩ := log_tells_input hreach 0
  exact ⟨p, ch, told, hch, hreceived, hheard, hdecoders ch (hch ▸ List.mem_singleton_self ch) hid, htold, hlog⟩

end Inbox

end Hyoui.Daemon
