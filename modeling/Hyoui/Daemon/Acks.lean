import Hyoui.Daemon.Pristine
/-!
# One ack for each frame of raw input

Raw input has no request numbers: a client matches the acks it gets with the frames it sent by
their order. Whatever comes of a frame of raw input, its sender gets one ack or is dropped; the
exception is input that arrives while an upgrade is pending, which is answered by an `error`.
-/

namespace Hyoui.Daemon

open Hyoui.Protocol Hyoui.Lib

/-- The client at `idx`, which was `ch`, has been sent one more frame, an ack. -/
def Acked (ch : ClientHandle) (idx : Nat) (s : Session) : Prop :=
  ∃ ack ch', s.clients[idx]? = some ch' ∧ ch'.offers = ch.offers ++ [⟨.rawAck ack, .sent⟩]

section RawData

variable {W : World} {cfg : Config} {s : Session} {d : DaemonState} {ov : List ClientId} {idx : Nat} {ch : ClientHandle}

/-- Plain frames are no ack. -/
theorem plain_not_acked {s' : Session} (ht : Talks (·.plain = true) [] s s') (hch : s.clients[idx]? = some ch) :
    ¬ Acked ch idx s' := by
  rintro ⟨ack, ch', hch', hoff⟩
  have hlt : idx < s.clients.length := (List.getElem?_eq_some_iff.1 hch).1
  have hspoke := (List.forall₂_iff_get.1 ht.clients).2 idx hlt (ht.length ▸ hlt)
  rw [List.get_eq_getElem, List.get_eq_getElem, (List.getElem?_eq_some_iff.1 hch).2,
    (List.getElem?_eq_some_iff.1 hch').2] at hspoke
  obtain ⟨more, hm, hplain⟩ := hspoke.offers
  have hmore := List.append_cancel_left (hm.symm.trans hoff)
  have hp := hplain ⟨.rawAck ack, .sent⟩ (hmore ▸ List.mem_singleton.2 rfl)
  cases hp

/-- Raw input is acked or its sender dropped, exactly where no upgrade is pending; and it reaches the PTY
only where its sender may write. -/
theorem handleRawData_answers (h : Mid s d ov) (hch : s.clients[idx]? = some ch) (env : FrameEnv) (body : Bytes) :
    ((Acked ch idx (handleRawData W env s d idx body).1 ∨ (handleRawData W env s d idx body).2.2 = .dropClient) ↔
        s.upgradePending = false) ∧
      ((handleRawData W env s d idx body).2.2 = .continue ∨ (handleRawData W env s d idx body).2.2 = .dropClient) ∧
      ((handleRawData W env s d idx body).1.ptyWrites = s.ptyWrites ∨ MayWrite d.lock ch) := by
  unfold handleRawData
  rw [hch]
  dsimp only
  split <;> rename_i hup
  · have ht : Talks (·.plain = true) [] s (refuse W s idx (.unknown "upgrade.rejected") rawDataRejectedText) :=
      refuse_talks s idx _ _
    refine ⟨⟨fun ha => ?_, fun hno => absurd (hup.symm.trans hno) (by decide)⟩, .inl rfl, .inl ?_⟩
    · exact absurd (ha.resolve_right nofun) (plain_not_acked ht hch)
    · exact sendIgnoring_ptyWrites s idx _
  · obtain ⟨clients, -, ctx', heq, hraw, hpty⟩ := rawInput_handled (W := W) h.idle h.ids hch body env.tty
    rw [heq]
    dsimp only
    refine ⟨⟨fun _ => by simpa using hup, fun _ => ?_⟩, by split <;> simp, hpty⟩
    rcases hraw.answered with hdrop | ⟨ack, ch', hset, hoff⟩
    · right
      rw [if_pos hdrop]
    · left
      refine ⟨ack, ch', ?_, hoff⟩
      have hclients : (ctx'.session.ignore (ctx'.overflowIds.filter (· ≠ ch.id))).clients = s.clients.set idx ch' := hset
      rw [hclients, List.getElem?_set_self (List.getElem?_eq_some_iff.1 hch).1]

end RawData

/-! ## In a turn -/

/-- In this turn the daemon handles `frame`, raw input of the client at `idx`, and stands at `r` just
before that. -/
structure HandlesRaw (W : World) (cfg : Config) (st : State) (inp : IterInput) (w : Work)
    (revents : List (ClientId × Bool)) (before after : List (Nat × FrameOrError)) (r : FrameRun) (idx : Nat)
    (frame : Frame) : Prop where
  stage : beforeFrames W cfg inp st = .frames w revents
  frames : (w.frameRun W inp revents).2 = before ++ (idx, .frame frame) :: after
  here : r = (w.frameRun W inp revents).1.run W cfg inp before
  goesOn : r.shouldReturn = none
  raw : frame.ty = typeRawData

section Turn

variable {W : World} {cfg : Config} {inp : IterInput} {st : State} {w : Work} {revents : List (ClientId × Bool)}
  {before after : List (Nat × FrameOrError)} {r : FrameRun} {idx : Nat} {frame : Frame} {ch : ClientHandle}

theorem HandlesRaw.start (h : HandlesRaw W cfg st inp w revents before after r idx frame) (hok : st.Ok) :
    (w.frameRun W inp revents).1.Mid := by
  have harr := beforeFrames_spec (W := W) cfg inp hok
  rw [h.stage] at harr
  exact (Work.frameRun_mid inp harr.mid revents).1

theorem HandlesRaw.mid (h : HandlesRaw W cfg st inp w revents before after r idx frame) (hok : st.Ok) : r.Mid := by
  rw [h.here]
  exact (FrameRun.run_chatted cfg inp (h.start hok) before).mid

theorem HandlesRaw.sender (h : HandlesRaw W cfg st inp w revents before after r idx frame) (hok : st.Ok) :
    ∃ ch, r.sess.clients[idx]? = some ch := by
  have hmem : (idx, .frame frame) ∈ (collectFrames W inp.recv 0 w.sess.clients revents).2 := by
    have hmem' : (idx, .frame frame) ∈ (w.frameRun W inp revents).2 := h.frames ▸ by simp
    exact hmem'
  have hlt := (collectFrames_index hmem).2
  have hids := (FrameRun.run_chatted (W := W) cfg inp (h.start hok) before).ids
  rw [← h.here] at hids
  have hlen : r.sess.clients.length = w.sess.clients.length := by
    have hrun := congrArg List.length hids
    rw [List.length_map, List.length_map] at hrun
    exact hrun.trans (collectFrames_same (W := W) inp.recv 0 w.sess.clients revents).length_eq.symm
  exact ⟨r.sess.clients[idx], List.getElem?_eq_getElem (by omega)⟩

theorem step_indices (r : FrameRun) (idx : Nat) (fre : FrameOrError) :
    ∀ i ∈ r.indicesToDrop, i ∈ (r.step W cfg inp idx fre).indicesToDrop := by
  intro i hi
  unfold FrameRun.step
  split
  · exact hi
  · split
    · exact List.mem_append_left _ hi
    · dsimp only
      split
      · exact hi
      · exact List.mem_append_left _ hi
      · exact List.mem_append_left _ hi
      · exact hi

theorem run_indices (r : FrameRun) (frames : List (Nat × FrameOrError)) :
    ∀ i ∈ r.indicesToDrop, i ∈ (r.run W cfg inp frames).indicesToDrop := by
  induction frames generalizing r with
  | nil => exact fun _ hi => hi
  | cons f frames ih => exact fun i hi => ih _ i (step_indices r f.1 f.2 i hi)

/-- Who is to be dropped after this frame is not attached after the turn. -/
theorem HandlesRaw.dropped (h : HandlesRaw W cfg st inp w revents before after r idx frame) (hok : st.Ok)
    (hch : r.sess.clients[idx]? = some ch) (hdrop : idx ∈ (r.step W cfg inp idx (.frame frame)).indicesToDrop) :
    ∀ c ∈ (iterate W cfg inp st).1.sess.clients, c.id ≠ ch.id := by
  have hrest := FrameRun.run_chatted (W := W) cfg inp (h.mid hok) ((idx, .frame frame) :: after)
  have hwhole : (w.frameRun W inp revents).1.run W cfg inp (w.frameRun W inp revents).2 =
      r.run W cfg inp ((idx, .frame frame) :: after) := by
    rw [h.frames, h.here, FrameRun.run, List.foldl_append]
    rfl
  have hiter : (iterate W cfg inp st).1.sess =
      (dropClients W inp (r.run W cfg inp ((idx, .frame frame) :: after))).1 := by
    rw [← hwhole, iterate, h.stage]
    rfl
  have hids := (dropClients_stepped (W := W) inp hrest.mid).2
  intro c hc heq
  rw [hiter] at hc
  have hmem := List.mem_map_of_mem (f := fun c : ClientHandle => c.id) hc
  rw [hids] at hmem
  obtain ⟨c', hc', hid⟩ := List.mem_map.1 hmem
  refine of_decide_eq_true (List.mem_filter.1 hc').2 ?_
  rw [keysAt_congr hrest.ids]
  refine List.mem_filterMap.2 ⟨idx, run_indices _ after idx hdrop, ?_⟩
  rw [hch, Option.map_some, hid, heq]

/-- Raw input is acked, or its sender is to be dropped, if and only if no upgrade is pending when it is
handled (or the sender was to be dropped before); who is to be dropped is gone after the turn; and the input
reaches the PTY only where the sender may write and nobody else holds the lock. -/
theorem raw_data_acked (hr : (loop W cfg).Reachable st)
    (h : HandlesRaw W cfg st inp w revents before after r idx frame) :
    ∃ ch, r.sess.clients[idx]? = some ch ∧
      ((Acked ch idx (r.step W cfg inp idx (.frame frame)).sess ∨
          idx ∈ (r.step W cfg inp idx (.frame frame)).indicesToDrop) ↔
        (r.sess.upgradePending = false ∨ idx ∈ r.indicesToDrop)) ∧
      (idx ∈ (r.step W cfg inp idx (.frame frame)).indicesToDrop →
        ∀ c ∈ (iterate W cfg inp st).1.sess.clients, c.id ≠ ch.id) ∧
      ((r.step W cfg inp idx (.frame frame)).sess.ptyWrites = r.sess.ptyWrites ∨ MayWrite r.daemonState.lock ch) := by
  have hok := loop_ok hr
  obtain ⟨ch, hch⟩ := h.sender hok
  refine ⟨ch, hch, ?_, h.dropped hok hch, ?_⟩
  all_goals
    obtain ⟨hans, hout, hpty⟩ := handleRawData_answers (W := W) (h.mid hok) hch (inp.frameEnv ch.id) frame.body
    have hstep : r.step W cfg inp idx (.frame frame) =
        let res := handleRawData W (inp.frameEnv ch.id) r.sess r.daemonState idx frame.body
        { r with
          sess := res.1
          daemonState := res.2.1
          indicesToDrop := if res.2.2 = .dropClient then r.indicesToDrop ++ [idx] else r.indicesToDrop } := by
      simp only [FrameRun.step, h.goesOn, Option.isSome_none, Bool.false_eq_true, if_false, hch, Option.elim_some,
        handleClientFrame, h.raw, if_true]
      rcases hout with ho | ho <;> simp [ho]
    rw [hstep]
    dsimp only
  · constructor
    · rintro (ha | hd)
      · exact .inl (hans.1 (.inl ha))
      · split at hd <;> rename_i ho
        · exact .inl (hans.1 (.inr ho))
        · exact .inr hd
    · rintro (hno | hd)
      · rcases hans.2 hno with ha | ho
        · exact .inl ha
        · exact .inr (by rw [if_pos ho]; simp)
      · exact .inr (by split <;> simp [hd])
  · exact hpty

end Turn

/-! ## Two sessions -/

/-- The turn comes to its frames, with work and `poll` results `p` holds of. -/
def Stage.IsFrames (p : Work → List (ClientId × Bool) → Prop) : Stage → Prop
  | .frames w revents => p w revents
  | .done _ | .tick _ => False

instance {p : Work → List (ClientId × Bool) → Prop} [∀ w revents, Decidable (p w revents)] :
    (stage : Stage) → Decidable (stage.IsFrames p)
  | .frames w revents => inferInstanceAs (Decidable (p w revents))
  | .done _ | .tick _ => isFalse id

theorem Stage.IsFrames.exists {p : Work → List (ClientId × Bool) → Prop} {stage : Stage} (h : stage.IsFrames p) :
    ∃ w revents, stage = .frames w revents ∧ p w revents := by
  cases stage with
  | frames w revents => exact ⟨w, revents, rfl, h⟩
  | done turn => cases h
  | tick w => cases h

def rawBytes (bytes : Bytes) : Bytes := (rawDataFrame bytes).getD []

theorem raw_data_acked_one :
    ∃ st w revents r ch, HandlesRaw World.pristine {} st (recvInput [(0, rawBytes [104, 105])]) w revents [] [] r 0
        (.rawData [104, 105]) ∧ r.sess.clients[0]? = some ch ∧
      (Acked ch 0 (r.step World.pristine {} (recvInput [(0, rawBytes [104, 105])]) 0 (.frame (.rawData [104, 105]))).sess ∨
        0 ∈ (r.step World.pristine {} (recvInput [(0, rawBytes [104, 105])]) 0
          (.frame (.rawData [104, 105]))).indicesToDrop) := by
  obtain ⟨st, hreach, hstage⟩ := (pristineStart_reach {} {} fun _ _ => True).exists_run (attachMoves .rw [])
    (p := fun st => (beforeFrames World.pristine {} (recvInput [(0, rawBytes [104, 105])]) st).IsFrames fun w revents =>
      (w.frameRun World.pristine (recvInput [(0, rawBytes [104, 105])]) revents).2 = [(0, .frame (.rawData [104, 105]))] ∧
        (w.frameRun World.pristine (recvInput [(0, rawBytes [104, 105])]) revents).1.sess.upgradePending = false)
    (by decide +kernel)
  obtain ⟨w, revents, hst, hframes, hup⟩ := hstage.exists
  have hraw : HandlesRaw World.pristine {} st (recvInput [(0, rawBytes [104, 105])]) w revents [] [] _ 0
      (.rawData [104, 105]) := ⟨hst, hframes, rfl, rfl, rfl⟩
  obtain ⟨ch, hch, hacked, -⟩ := raw_data_acked hreach hraw
  exact ⟨st, w, revents, _, ch, hraw, hch, hacked.2 (.inl hup)⟩

/-- One client asks for an upgrade, and in the same turn another sends raw input. -/
def upgradeAndInput : IterInput := recvInput [(0, requestBytes (.upgradeRequest none)), (1, rawBytes [104, 105])]

/-- The input is answered by an `error`: its sender stays without an ack. -/
theorem pending_upgrade_takes_ack :
    ∃ st w revents before r ch, (loop World.pristine {}).Reachable st ∧
      HandlesRaw World.pristine {} st upgradeAndInput w revents before [] r 1 (.rawData [104, 105]) ∧
      r.sess.clients[1]? = some ch ∧
      ¬ Acked ch 1 (r.step World.pristine {} upgradeAndInput 1 (.frame (.rawData [104, 105]))).sess ∧
      1 ∉ (r.step World.pristine {} upgradeAndInput 1 (.frame (.rawData [104, 105]))).indicesToDrop ∧
      ∃ c ∈ (iterate World.pristine {} upgradeAndInput st).1.sess.clients, c.id = ch.id := by
  obtain ⟨st, hreach, hstage, hstays⟩ := (pristineStart_reach {} {} fun _ _ => True).exists_run
    (attachMoves .rw [.upgradeV1] ++ attachMoves .rw [])
    (p := fun st => ((beforeFrames World.pristine {} upgradeAndInput st).IsFrames fun w revents =>
      ((w.frameRun World.pristine upgradeAndInput revents).2.drop 1 = [(1, .frame (.rawData [104, 105]))]) ∧
      let r := (w.frameRun World.pristine upgradeAndInput revents).1.run World.pristine {} upgradeAndInput
        ((w.frameRun World.pristine upgradeAndInput revents).2.take 1)
      r.shouldReturn = none ∧ (r.sess.clients[1]?).map (·.id) = some 1 ∧
        (∀ ch ∈ (r.step World.pristine {} upgradeAndInput 1 (.frame (.rawData [104, 105]))).sess.clients[1]?,
          ∀ o ∈ ch.offers, o.item.ack = none) ∧
        1 ∉ (r.step World.pristine {} upgradeAndInput 1 (.frame (.rawData [104, 105]))).indicesToDrop) ∧
      ∃ c ∈ (iterate World.pristine {} upgradeAndInput st).1.sess.clients, c.id = 1)
    (by decide +kernel)
  obtain ⟨w, revents, hst, hframes, hgoes, hsender, hno, hdrop⟩ := hstage.exists
  obtain ⟨ch, hch, hid⟩ := Option.map_eq_some_iff.1 hsender
  refine ⟨st, w, revents, _, _, ch, hreach, ⟨hst, ?_, rfl, hgoes, rfl⟩, hch, ?_, hdrop, hid ▸ hstays⟩
  · rw [← hframes, List.take_append_drop]
  · rintro ⟨ack, ch', hch', hoff⟩
    have hnone := hno ch' hch' ⟨.rawAck ack, .sent⟩ (hoff ▸ by simp)
    cases hnone

end Hyoui.Daemon
