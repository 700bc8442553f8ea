import BoostConnector.Ftx.ChannelInterest
import BoostConnector.Ftx.ConnectionEvents

/-!
# Connection events are seen once

A subscription that holds its channel across the end of a connection is told of it once, as long as
two things do not happen while another connection may follow: a reader that is cancelled while a
channel is acquired ends with an exception and tells nobody, and a subscription that takes its
channel between the end of a reader and the next connection is told that the old one is up.
-/

namespace BoostConnector

namespace Ftx

/-! ## The steps of a subscription -/

namespace Connector

variable {c d : Connector} {live : ChannelMarketPair → Bool} {may : Bool}

theorem cancelOne_told {index : ChannelMarketPair} {node : ℕ} {wake : Option ℕ}
    (h : Told c live may) (hd : c.cancelOne index node wake = some d) : Told d live may := by
  rcases cancelOne_cases hd with ⟨-, rfl, -⟩ | ⟨j, s, -, hs, -, rfl⟩
  · exact h
  · refine h.setSub hs rfl rfl id fun hbefore ↦ ⟨?_, rfl⟩
    rwa [Pc.isBefore_wake] at hbefore

theorem checkRelease_told (h : Told c live may) (cs : ChannelState) :
    Told (c.checkRelease cs) live may := h.congr rfl rfl

theorem releaseChannel_told {index : ChannelMarketPair} {node : ℕ} {wake : Option ℕ}
    (h : Told c live may) (hd : c.releaseChannel index node wake = some d) :
    Told d live may := by
  obtain ⟨cs, -, ⟨-, -, rfl⟩ | ⟨-, hcancel⟩⟩ := releaseChannel_cases hd
  · exact (checkRelease_told h cs).erase index
  · refine cancelOne_told ((checkRelease_told h cs).setChannel _ _ fun hacq ↦ ?_) hcancel
    exact absurd hacq (by simp)

theorem awaitClosed_told {i : ℕ} {s : Subscription} {wake : Option ℕ} (h : Told c live may)
    (hi : c.subs[i]? = some s) (hd : c.awaitClosed i s wake = some d) : Told d live may := by
  rcases awaitClosed_cases hd with rfl | ⟨e, he, rfl⟩
  · exact h
  · obtain ⟨pc, ht⟩ := releaseChannel_getElem? hi he
    refine (releaseChannel_told h he).setSub ht rfl rfl id fun hbefore ↦ ?_
    exact absurd hbefore (by simp [Pc.isBefore])

theorem closeMachine_told {i : ℕ} {s : Subscription} {wake : Option ℕ} (h : Told c live may)
    (hi : c.subs[i]? = some s) (hd : c.closeMachine i s wake = some d) : Told d live may := by
  unfold closeMachine at hd
  dsimp only at hd
  obtain ⟨hlt, -⟩ := List.getElem?_eq_some_iff.mp hi
  have hclosed : Told (c.setSub i { s with sm := s.sm.close.1, pc := .awaitingClosed }) live may :=
    h.setSub hi rfl rfl Subscription.state_close fun hbefore ↦
      absurd hbefore (by simp [Pc.isBefore])
  have hperformed := hclosed.undisturbed (performAll_undisturbed _ s.sm.close.2)
    (performAll_subs _ _)
  refine awaitClosed_told hperformed ?_ hd
  rw [performAll_subs]
  exact List.getElem?_set_self hlt

theorem awaitStop_told {i : ℕ} {s : Subscription} {wake : Option ℕ} (h : Told c live may)
    (hi : c.subs[i]? = some s) (hd : c.awaitStop i s wake = some d) : Told d live may := by
  rcases awaitStop_cases hd with rfl | hclose
  · exact h
  · exact closeMachine_told h hi hclose

/-- Subscription `i` stores its handler in a channel. -/
theorem Told.take (h : Told c live may) (index : ChannelMarketPair) (cs : ChannelState) {i : ℕ}
    {s t : Subscription} (hi : c.subs[i]? = some s) (hbefore : s.pc.isBefore = true)
    (hcs : cs.onEvent = some i) (htopic : t.topic = index) (hafter : t.pc.isBefore = false)
    (honce : t.SeesOnce) (hlinked : may = true → t.Linked (live index)) :
    Told ((c.setChannel index cs).setSub i t) live may where
  once r hr := by
    rcases List.mem_or_eq_of_mem_set hr with hr | rfl
    · exact h.once r hr
    · exact honce
  fresh r hr hpc := by
    rcases List.mem_or_eq_of_mem_set hr with hr | rfl
    · exact h.fresh r hr hpc
    · exact absurd (hafter.symm.trans hpc) (by decide)
  handler k ks j hlookup hacq hj := by
    obtain ⟨hlt, -⟩ := List.getElem?_eq_some_iff.mp hi
    by_cases hk : k = index
    · subst hk
      have hself : (c.setChannel k cs).channelStates.lookup k = some cs := AList.lookup_insert _
      have hks : cs = ks := Option.some_inj.mp (hself.symm.trans hlookup)
      rw [← hks, hcs, Option.some_inj] at hj
      subst hj
      exact ⟨t, List.getElem?_set_self hlt, htopic, hafter, hlinked⟩
    · have hother : c.channelStates.lookup k = some ks :=
        (AList.lookup_insert_ne hk).symm.trans hlookup
      obtain ⟨r, hr, hrtopic, hrbefore, hrlinked⟩ := h.handler k ks j hother hacq hj
      -- no other channel calls a subscription that holds none yet
      have hij : i ≠ j := by
        rintro rfl
        rw [hi, Option.some_inj] at hr
        rw [← hr, hbefore] at hrbefore
        exact Bool.noConfusion hrbefore
      exact ⟨r, (List.getElem?_set_ne hij).trans hr, hrtopic, hrbefore, hrlinked⟩

/-- A subscription that takes its channel is told that the connection is up if it is. -/
theorem acquire_told {i : ℕ} {s t : Subscription} {wake : Option ℕ} {l : Bool}
    (h : Told c (fun _ ↦ l) may) (hi : c.subs[i]? = some t) (hbefore : t.pc.isBefore = true)
    (hseen : s.seen = t.seen) (hsm : s.sm = t.sm) (hlive : may = true → c.isUp = l)
    (hd : c.acquire i s wake = some d) : Told d (fun _ ↦ l) may := by
  obtain ⟨hnil, hstate⟩ := h.fresh t (List.mem_of_getElem? hi) hbefore
  have hlinked : Subscription.Linked { s with pc := .awaitingStop } false :=
    Subscription.linked_of_seen_eq_nil (hseen.trans hnil) (hsm ▸ hstate)
  have honce : Subscription.SeesOnce { s with pc := .awaitingStop } :=
    Subscription.seesOnce_of_seen_eq_nil (hseen.trans hnil)
  obtain ⟨cs, -, ⟨hup, hstop⟩ | ⟨hdown, hstop⟩⟩ := acquire_cases hd
  · rw [handle_of_sub (getElem?_taken hi s cs)] at hstop
    refine awaitStop_told ?_ ?_ hstop
    · refine Told.undisturbed ?_ (performAll_undisturbed _ _) (performAll_subs _ _)
      -- the handler is stored and given the event in one go: between the two it is behind
      have htaken := h.take s.topic { cs with acquired := true, onEvent := some i } hi hbefore rfl
        (t := Subscription.given { s with pc := .awaitingStop } .connectionUp) rfl rfl
        (honce.given_up hlinked)
        fun hm ↦ (hlive hm).symm.trans hup ▸ Subscription.linked_given_up _
      refine htaken.congr ?_ rfl
      exact List.set_set ..
    · rw [performAll_subs]
      exact getElem?_setSub (getElem?_taken hi s cs) _
  · refine awaitStop_told ?_ (getElem?_taken hi s cs) hstop
    refine h.take _ _ hi hbefore rfl rfl rfl honce fun hm ↦ ?_
    rw [← hlive hm, hdown]
    exact hlinked

/-- Subscription `s` takes its channel when it is resumed. -/
def Acquires (c : Connector) (s : Subscription) : Prop :=
  s.pc = .waiting .woken ∨
    s.pc = .spawned ∧ ∀ cs ∈ c.channelStates.lookup s.topic, cs.acquired = false

instance (c : Connector) (s : Subscription) : Decidable (c.Acquires s) :=
  inferInstanceAs (Decidable (_ ∨ _ ∧ ∀ cs ∈ c.channelStates.lookup s.topic, cs.acquired = false))

theorem enter_told {i : ℕ} {s : Subscription} {wake : Option ℕ} {l : Bool}
    (h : Told c (fun _ ↦ l) may) (hi : c.subs[i]? = some s) (hpc : s.pc = .spawned)
    (hlive : c.Acquires s → may = true → c.isUp = l) (hd : c.enter i s wake = some d) :
    Told d (fun _ ↦ l) may := by
  have hbefore : s.pc.isBefore = true := by
    rw [hpc]
    rfl
  cases hlookup : c.channelStates.lookup s.topic with
  | none =>
    simp only [enter, locateChannel, hlookup, Bool.false_eq_true, if_false] at hd
    have hnext : Told { c with nextNode := c.nextNode + 1 } (fun _ ↦ l) may := h.congr rfl rfl
    have hlocated := hnext.setChannel s.topic { node := c.nextNode, interest := 1 }
      fun hacq ↦ absurd hacq (by simp)
    exact acquire_told (s := { s with node := c.nextNode }) hlocated hi hbefore rfl rfl
      (hlive (.inr ⟨hpc, fun cs hcs ↦ by simp [hlookup] at hcs⟩)) hd
  | some cs =>
    simp only [enter, locateChannel, hlookup] at hd
    have hlocated : Told (c.setChannel s.topic { cs with interest := cs.interest + 1 })
        (fun _ ↦ l) may := h.setChannel _ _ fun hacq ↦ ⟨cs, hlookup, hacq, rfl⟩
    by_cases hacq : cs.acquired = true
    · rw [if_pos hacq] at hd
      split_ifs at hd
      all_goals exact Option.some_inj.mp hd ▸
        hlocated.setSub hi rfl rfl id fun _ ↦ ⟨hbefore, rfl⟩
    · rw [if_neg hacq] at hd
      refine acquire_told (s := { s with node := cs.node }) hlocated hi hbefore rfl rfl
        (hlive (.inr ⟨hpc, fun cs' hcs' ↦ ?_⟩)) hd
      rw [Option.mem_def, hlookup, Option.some_inj] at hcs'
      exact hcs' ▸ Bool.eq_false_iff.mpr hacq

theorem resume_told {i : ℕ} {wake : Option ℕ} {l : Bool} (h : Told c (fun _ ↦ l) may)
    (hlive : ∀ s ∈ c.subs[i]?, c.Acquires s → may = true → c.isUp = l)
    (hd : c.resume i wake = some d) : Told d (fun _ ↦ l) may := by
  obtain ⟨s, hi, ⟨hpc, henter⟩ | ⟨hpc, rfl⟩ | ⟨hpc, hacquire⟩ | ⟨hpc, hclose⟩ | ⟨hpc, hclosed⟩⟩ :=
    resume_cases hd
  · exact enter_told h hi hpc (hlive s hi) henter
  · refine h.setSub hi rfl rfl id fun hbefore ↦ ?_
    exact absurd hbefore (by simp [Pc.isBefore])
  · refine acquire_told h hi ?_ rfl rfl (hlive s hi (.inl hpc)) hacquire
    rw [hpc]
    rfl
  · exact closeMachine_told h hi hclose
  · exact awaitClosed_told h hi hclosed

end Connector

/-! ## The steps of the connection -/

namespace RunPhase

/-- The connection is announced and its reader has not ended. -/
def readerLive (p : RunPhase) : Bool := p.tasks?.any fun t ↦ t.reader.outcome?.isNone

theorem readerLive_wakeWriter (p : RunPhase) :
    (p.mapTasks Tasks.wakeWriter).readerLive = p.readerLive := by
  cases p <;> rfl

/-- Another connection may be announced from this phase. -/
def mayAnnounce (p : RunPhase) (stopRequested : Bool) : Bool :=
  match p with
  | finished => false
  | connecting => true
  | idle | online _ | delay => !stopRequested

theorem mayAnnounce_mapTasks (p : RunPhase) (f : Tasks → Tasks) (b : Bool) :
    (p.mapTasks f).mayAnnounce b = p.mayAnnounce b := by
  cases p <;> rfl

end RunPhase

namespace Connector

variable {c d : Connector}

/-- Another connection may be announced. -/
def mayAnnounce (c : Connector) : Bool := c.phase.mayAnnounce c.stopRequested

/-- What the subscriptions were told agrees with the reader; a live reader's connection is up, and
no writer has returned. -/
structure Informed (c : Connector) : Prop where
  told : Told c (fun _ ↦ c.phase.readerLive) c.mayAnnounce
  up : c.phase.readerLive = true → c.connectionState = .up
  writer : ∀ t, c.phase = .online t → t.writer.outcome? ≠ some .returned

theorem informed_fresh : Informed {} where
  told := told_fresh
  up h := absurd h (by decide)
  writer t ht := by simp at ht

theorem KeepsConnection.readerLive (h : KeepsConnection c d) :
    d.phase.readerLive = c.phase.readerLive := by
  rcases h.phase with hphase | hphase
  · rw [hphase]
  · rw [hphase, RunPhase.readerLive_wakeWriter]

theorem KeepsConnection.mayAnnounce (h : KeepsConnection c d) :
    d.mayAnnounce = c.mayAnnounce := by
  rw [Connector.mayAnnounce, h.stopRequested, Connector.mayAnnounce]
  rcases h.phase with hphase | hphase
  · rw [hphase]
  · rw [hphase, RunPhase.mayAnnounce_mapTasks]

theorem KeepsConnection.writer (h : KeepsConnection c d)
    (hc : ∀ t, c.phase = .online t → t.writer.outcome? ≠ some .returned) (t : Tasks)
    (ht : d.phase = .online t) : t.writer.outcome? ≠ some .returned := by
  rcases h.phase with hphase | hphase
  · exact hc t (hphase ▸ ht)
  · cases hp : c.phase with
    | online t' =>
      rw [hphase, hp, RunPhase.mapTasks, RunPhase.online.injEq] at ht
      rw [← ht, Tasks.wakeWriter, Writer.outcome?_wake]
      exact hc t' hp
    | _ => simp [hphase, hp, RunPhase.mapTasks] at ht

/-- What does not touch the connection keeps everybody informed if it keeps what was told. -/
theorem KeepsConnection.informed (h : KeepsConnection c d) (hc : Informed c)
    (htold : Told d (fun _ ↦ c.phase.readerLive) c.mayAnnounce) : Informed d where
  told := by
    rw [h.readerLive, h.mayAnnounce]
    exact htold
  up hlive := h.connectionState ▸ hc.up (h.readerLive ▸ hlive)
  writer := h.writer hc.writer

/-- No channel is acquired. -/
def NoneAcquired (c : Connector) : Prop :=
  ∀ index ∈ c.channelStates.keys, ∀ cs ∈ c.channelStates.lookup index, cs.acquired = false

instance (c : Connector) : Decidable c.NoneAcquired :=
  inferInstanceAs (Decidable (∀ index ∈ c.channelStates.keys,
    ∀ cs ∈ c.channelStates.lookup index, cs.acquired = false))

theorem NoneAcquired.lookup (h : c.NoneAcquired) {index : ChannelMarketPair} {cs : ChannelState}
    (hlookup : c.channelStates.lookup index = some cs) : cs.acquired = false := by
  refine h index ?_ cs hlookup
  rw [← AList.mem_keys, ← AList.lookup_isSome, hlookup]
  rfl

end Connector

/-- The action has the reader go on to `ws.async_read()`. -/
def Action.startsRead : Action → Bool
  | .beginReader | .readMessage _ => true
  | _ => false

/-- The steps in which, while another connection may be announced, no reader that was cancelled goes
on while a channel is acquired, and no subscription takes its channel while the state is up and the
reader of the connection has ended. -/
def InformsAll (a : Action) (c : Connector) : Prop :=
  c.mayAnnounce = true →
    (a.startsRead = true → ∀ t ∈ c.phase.tasks?, t.cancelled = true → c.NoneAcquired) ∧
    ∀ r ∈ a.resumed?, ∀ s ∈ c.subs[r.1]?, c.Acquires s → c.connectionState = .up →
      c.phase.readerLive = true

instance (a : Action) (c : Connector) : Decidable (InformsAll a c) :=
  inferInstanceAs (Decidable (c.mayAnnounce = true →
    (a.startsRead = true → ∀ t ∈ c.phase.tasks?, t.cancelled = true → c.NoneAcquired) ∧
    ∀ r ∈ a.resumed?, ∀ s ∈ c.subs[r.1]?, c.Acquires s → c.connectionState = .up →
      c.phase.readerLive = true))

namespace Connector

variable {c d : Connector}

theorem informed_online {t : Tasks} (hphase : d.phase = .online t)
    (htold : Told d (fun _ ↦ t.reader.outcome?.isNone) d.mayAnnounce)
    (hup : t.reader.outcome? = none → d.connectionState = .up)
    (hwriter : t.writer.outcome? ≠ some .returned) : Informed d where
  told := by
    rw [hphase]
    exact htold
  up hlive := hup (by simpa [hphase, RunPhase.readerLive, RunPhase.tasks?] using hlive)
  writer t' ht' := by
    rw [hphase, RunPhase.online.injEq] at ht'
    exact ht' ▸ hwriter

/-- An online connection after calls that keep it online. -/
theorem KeepsConnection.phase_online (h : KeepsConnection c d) {t : Tasks}
    (hphase : c.phase = .online t) : ∃ t', d.phase = .online t' ∧ t'.reader = t.reader ∧
      t'.cancelled = t.cancelled ∧ t'.writer.outcome? = t.writer.outcome? := by
  rcases h.phase with hd | hd
  · exact ⟨t, hd.trans hphase, rfl, rfl, rfl⟩
  · rw [hphase] at hd
    exact ⟨t.wakeWriter, hd, rfl, rfl, Writer.outcome?_wake _⟩

theorem Informed.readerLive_online (hc : Informed c) {t : Tasks} (hphase : c.phase = .online t) :
    Told c (fun _ ↦ t.reader.outcome?.isNone) c.mayAnnounce := by
  have htold := hc.told
  rw [hphase] at htold
  exact htold

theorem Informed.up_online (hc : Informed c) {t : Tasks} (hphase : c.phase = .online t)
    (hlive : t.reader.outcome? = none) : c.connectionState = .up :=
  hc.up (by simp [hphase, RunPhase.readerLive, RunPhase.tasks?, hlive])

/-- The reader goes on, or ends with an exception that leaves nobody uninformed. -/
theorem Informed.startRead (hc : Informed c) {t : Tasks} (hphase : c.phase = .online t)
    (hlive : t.reader.outcome? = none)
    (hsafe : c.mayAnnounce = true → t.cancelled = true → c.NoneAcquired) :
    Informed (c.modifyTasks Tasks.startRead) := by
  have hd : (c.modifyTasks Tasks.startRead).phase = .online t.startRead := by
    rw [modifyTasks, hphase]
    rfl
  have hmay : (c.modifyTasks Tasks.startRead).mayAnnounce = c.mayAnnounce :=
    RunPhase.mayAnnounce_mapTasks _ _ _
  have htold := hc.readerLive_online hphase
  have hwriter := hc.writer t hphase
  rw [hlive] at htold
  refine informed_online hd ?_ (fun _ ↦ hc.up_online hphase hlive) ?_
  · rw [hmay]
    refine Told.congr (htold.weaken id fun hm index cs hlookup hacq ↦ ?_) rfl rfl
    unfold Tasks.startRead
    split_ifs with hcancelled
    · rw [(hsafe hm hcancelled).lookup hlookup] at hacq
      exact Bool.noConfusion hacq
    · rfl
  · unfold Tasks.startRead
    split_ifs
    · simpa [Tasks.endReader, Tasks.cancel, Writer.outcome?_wake] using hwriter
    · exact hwriter

theorem handleMessage_told {live : ChannelMarketPair → Bool} {may : Bool} (h : Told c live may)
    (msg : Message) : Told (c.handleMessage msg) live may := by
  cases msg with
  | binary => exact h
  | text jframe? =>
    simp only [handleMessage]
    split
    · exact h.congr rfl rfl
    · split
      · exact h.congr rfl rfl
      · exact h.congr rfl rfl
      · rename_i jframe _ index _
        have htold := h.tell (.response jframe) index (b := live index) fun s honce hlinked ↦
          ⟨honce.given_of_not_isUp rfl, fun hm ↦ (hlinked hm).given_other rfl rfl⟩
        rwa [Function.update_eq_self] at htold

theorem readError_informed (hc : Informed c) {t : Tasks} (hphase : c.phase = .online t)
    (hlive : t.reader.outcome? = none) {order : List ChannelMarketPair} (hwalks : c.Walks order) :
    Informed ((c.broadcast order .connectionDown).modifyTasks fun t ↦ t.endReader .returned) := by
  have hkeeps := (broadcast_undisturbed c order .connectionDown).keepsConnection
  obtain ⟨t', ht', -, -, hwriter⟩ := hkeeps.phase_online hphase
  have htold := hc.readerLive_online hphase
  rw [hlive] at htold
  have hdown := htold.announce (e := .connectionDown) (b := false) hwalks fun s honce hlinked ↦
    ⟨honce.given_of_not_isUp rfl, fun hm ↦ (hlinked hm).given_down⟩
  have hmay : ((c.broadcast order .connectionDown).modifyTasks
      fun t ↦ t.endReader .returned).mayAnnounce = c.mayAnnounce :=
    (RunPhase.mayAnnounce_mapTasks _ _ _).trans hkeeps.mayAnnounce
  refine informed_online (t := t'.endReader .returned) ?_ ?_ (fun h ↦ ?_) ?_
  · rw [modifyTasks, ht']
    rfl
  · rw [hmay]
    exact hdown.congr rfl rfl
  · simp [Tasks.endReader, Reader.outcome?] at h
  · simpa [Tasks.endReader] using hwriter ▸ hc.writer t hphase

/-- Everybody who can be told is told that the connection is up. -/
theorem opened_told (hc : Informed c) (hphase : c.phase = .connecting) (args : Args) (ok : Bool)
    {order : List ChannelMarketPair} (hwalks : c.Walks order) :
    Told ((c.opened args ok).notifyConnectionState .up order) (fun _ ↦ true) true := by
  have htold := hc.told
  rw [mayAnnounce, hphase] at htold
  have hannounced : Told ((c.opened args ok).announce .up) (fun _ ↦ false) true :=
    htold.congr rfl rfl
  exact hannounced.announce hwalks fun s honce hlinked ↦
    ⟨honce.given_up (hlinked rfl), fun _ ↦ Subscription.linked_given_up s⟩

theorem informed_offline (hc : Informed c) (hlive : c.phase.readerLive = false)
    (hsubs : d.subs = c.subs) (hchannels : d.channelStates = c.channelStates)
    (hoff : d.phase.tasks? = none) (hmay : d.mayAnnounce = true → c.mayAnnounce = true) :
    Informed d where
  told := by
    have hd : d.phase.readerLive = false := by
      rw [RunPhase.readerLive, hoff]
      rfl
    refine Told.congr (hc.told.weaken hmay fun _ _ _ _ _ ↦ ?_) hsubs hchannels
    rw [hd, hlive]
  up h := by simp [RunPhase.readerLive, hoff] at h
  writer t ht := by
    rw [ht, RunPhase.tasks?] at hoff
    simp at hoff

theorem reader_of_joined {t : Tasks} {o : Outcome} (h : t.joined = some o) :
    ∃ o', t.reader.outcome? = some o' := by
  cases hr : t.reader.outcome? with
  | some o' => exact ⟨o', rfl⟩
  | none => simp [Tasks.joined, hr] at h

theorem writer_of_joined {t : Tasks} (h : t.joined = some .returned) :
    t.writer.outcome? = some .returned := by
  unfold Tasks.joined at h
  split at h
  · assumption
  all_goals simp at h

theorem mayAnnounce_of_online {t : Tasks} (hphase : c.phase = .online t) :
    c.mayAnnounce = !c.stopRequested := by
  rw [mayAnnounce, hphase]
  rfl

theorem mayAnnounce_of_idle_or_delay (hphase : c.phase = .idle ∨ c.phase = .delay) :
    c.mayAnnounce = !c.stopRequested := by
  rcases hphase with hphase | hphase <;> rw [mayAnnounce, hphase] <;> rfl

theorem readerLive_of_idle_or_delay (hphase : c.phase = .idle ∨ c.phase = .delay) :
    c.phase.readerLive = false := by
  rcases hphase with hphase | hphase <;> rw [hphase] <;> rfl

/-- `run` goes on to the delay, or ends, from a phase whose reader has ended. -/
theorem leaveReconnect_informed (hc : Informed c) (hlive : c.phase.readerLive = false)
    (hmay : c.mayAnnounce = !c.stopRequested) : Informed c.leaveReconnect := by
  refine informed_offline hc hlive rfl rfl ?_ fun hd ↦ ?_
  · unfold leaveReconnect
    split_ifs <;> rfl
  · rw [hmay]
    by_cases hstop : c.stopRequested = true
    · simp [mayAnnounce, leaveReconnect, hstop, RunPhase.mayAnnounce] at hd
    · simp [Bool.eq_false_iff.mpr hstop]

theorem requestStop_informed (hc : Informed c) : Informed c.requestStop := by
  have hmay : c.requestStop.mayAnnounce = true → c.mayAnnounce = true := by
    intro hd
    have hd : (c.phase.mapTasks Tasks.cancel).mayAnnounce true = true := hd
    rw [RunPhase.mayAnnounce_mapTasks] at hd
    unfold mayAnnounce
    cases hphase : c.phase <;> simp_all [RunPhase.mayAnnounce]
  cases hphase : c.phase with
  | online t =>
    have hd : c.requestStop.phase = .online t.cancel := by
      simp only [requestStop, modifyTasks, hphase, RunPhase.mapTasks]
    refine informed_online hd ?_ (fun hlive ↦ hc.up_online (t := t) hphase hlive) ?_
    · exact Told.congr ((hc.readerLive_online hphase).weaken hmay fun _ _ _ _ _ ↦ rfl) rfl rfl
    · exact (Writer.outcome?_wake t.writer).symm ▸ hc.writer t hphase
  | _ =>
    refine informed_offline hc (by rw [hphase]; rfl) rfl rfl ?_ hmay
    simp only [requestStop, modifyTasks, hphase, RunPhase.mapTasks, RunPhase.tasks?]

theorem readMessage_informed (hc : Informed c) {t : Tasks} (hphase : c.phase = .online t)
    (hlive : t.reader.outcome? = none) (msg : Message)
    (hsafe : c.mayAnnounce = true → t.cancelled = true → c.NoneAcquired) :
    Informed ((c.handleMessage msg).modifyTasks Tasks.startRead) := by
  have hundisturbed := handleMessage_undisturbed c msg
  have hkeeps := hundisturbed.keepsConnection
  obtain ⟨t', ht', hreader, hcancelled, -⟩ := hkeeps.phase_online hphase
  refine (hkeeps.informed hc (handleMessage_told hc.told msg)).startRead ht' ?_ fun hm hcan ↦ ?_
  · rw [hreader, hlive]
  · rw [hkeeps.mayAnnounce] at hm
    have hnone := hsafe hm (hcancelled ▸ hcan)
    rw [NoneAcquired, hundisturbed.channelStates]
    exact hnone

/-- The writer and the keep-alive leave the reader alone, and neither lets the writer return. -/
theorem online_informed (hc : Informed c) {t t' : Tasks} (hphase : c.phase = .online t)
    (hd : d.phase = .online t') (hreader : t'.reader = t.reader)
    (hwriter : t'.writer.outcome? ≠ some .returned) (hsubs : d.subs = c.subs)
    (hchannels : d.channelStates = c.channelStates)
    (hstate : d.connectionState = c.connectionState)
    (hstop : d.stopRequested = c.stopRequested) : Informed d := by
  refine informed_online hd ?_ (fun hlive ↦ ?_) hwriter
  · rw [mayAnnounce_of_online hd, hstop, ← mayAnnounce_of_online hphase, hreader]
    exact (hc.readerLive_online hphase).congr hsubs hchannels
  · rw [hstate]
    exact hc.up_online hphase (hreader ▸ hlive)

end Connector

open Connector in
theorem ConnectionMove.informed {args : Args} {a : Action} {c d : Connector}
    (h : ConnectionMove args c a d) (ha : InformsAll a c) (hc : Informed c) : Informed d := by
  cases h with
  | send payload =>
    refine KeepsConnection.informed { KeepsConnection.refl c with phase := .inr rfl } hc ?_
    exact hc.told.congr rfl rfl
  | drop =>
    have hdrop := perform_undisturbed c .drop
    exact hdrop.keepsConnection.informed hc (hc.told.undisturbed hdrop (perform_subs c .drop))
  | requestStop => exact requestStop_informed hc
  | stopped hphase _ =>
    exact informed_offline hc (readerLive_of_idle_or_delay hphase) rfl rfl rfl
      fun hd ↦ absurd hd (by simp [mayAnnounce, RunPhase.mayAnnounce])
  | connecting hphase hstop =>
    refine informed_offline hc (readerLive_of_idle_or_delay hphase) rfl rfl rfl fun _ ↦ ?_
    rw [mayAnnounce_of_idle_or_delay hphase, hstop]
    rfl
  | badUrl hphase hstop =>
    exact leaveReconnect_informed hc (readerLive_of_idle_or_delay hphase)
      (mayAnnounce_of_idle_or_delay hphase)
  | @abandoned ok order hphase hwalks hstop =>
    have hkeeps := (notifyConnectionState_undisturbed (c.opened args ok) .up order).keepsConnection
    have hfinished : ((c.opened args ok).notifyConnectionState .up order).leaveReconnect.phase
        = .finished := if_pos (hkeeps.stopRequested.trans hstop)
    have htold := opened_told hc hphase args ok hwalks
    refine ⟨?_, fun hlive ↦ ?_, fun t ht ↦ ?_⟩
    -- what was announced does not matter any more: no other connection follows
    · rw [mayAnnounce, hfinished]
      exact (htold.weaken (fun hm ↦ Bool.noConfusion hm) fun hm ↦ Bool.noConfusion hm).congr rfl rfl
    · rw [hfinished] at hlive
      exact absurd hlive (by decide)
    · rw [hfinished] at ht
      simp at ht
  | @announced ok order hphase hwalks hstop =>
    have hkeeps := (notifyConnectionState_undisturbed (c.opened args ok) .up order).keepsConnection
    have htold := opened_told hc hphase args ok hwalks
    refine informed_online rfl ?_ (fun _ ↦ hkeeps.connectionState) (by simp [Writer.outcome?])
    have hmay : ({ (c.opened args ok).notifyConnectionState .up order with
        phase := .online {} } : Connector).mayAnnounce = true := by
      have hsame : ((c.opened args ok).notifyConnectionState .up order).stopRequested = false :=
        hkeeps.stopRequested.trans hstop
      simp [mayAnnounce, RunPhase.mayAnnounce, hsame]
    rw [hmay]
    exact htold.congr rfl rfl
  | @beginReader t hphase ht =>
    refine hc.startRead hphase (by rw [ht]; rfl) fun hm hcancelled ↦ ?_
    exact (ha hm).1 rfl t (by rw [hphase]; rfl) hcancelled
  | @readMessage t msg hphase ht =>
    refine readMessage_informed hc hphase (by rw [ht]; rfl) msg fun hm hcancelled ↦ ?_
    exact (ha hm).1 rfl t (by rw [hphase]; rfl) hcancelled
  | readError hphase ht hwalks =>
    exact readError_informed hc hphase (by rw [ht]; rfl) hwalks
  | writer _ hphase ht =>
    rcases ht with rfl | ⟨w, hw, rfl⟩
    · exact online_informed hc hphase rfl rfl (by simp [Tasks.endWriter, Tasks.cancel,
        Writer.wake, Writer.outcome?]) rfl rfl rfl rfl
    · exact online_informed hc hphase rfl rfl (by simp [hw]) rfl rfl rfl rfl
  | pinger _ hphase ht =>
    have hwriter := hc.writer _ hphase
    rcases ht with ⟨p, -, rfl⟩ | ⟨p, -, rfl⟩
    · exact online_informed hc hphase rfl rfl hwriter rfl rfl rfl rfl
    · refine online_informed hc hphase rfl rfl ?_ rfl rfl rfl rfl
      exact (Writer.outcome?_wake _).symm ▸ hwriter
  -- a group that ends without an exception has a writer that returned, and no writer does
  | joined hphase ht _ => exact absurd (writer_of_joined ht) (hc.writer _ hphase)
  | @failed t order hphase ht =>
    obtain ⟨o, ho⟩ := reader_of_joined ht
    refine leaveReconnect_informed hc ?_ (mayAnnounce_of_online hphase)
    simp [hphase, RunPhase.readerLive, RunPhase.tasks?, ho]

theorem step_informed {args : Args} {a : Action} {c d : Connector} (hc : c.Informed)
    (ha : InformsAll a c) (h : step args a c = some d) : d.Informed := by
  by_cases hconnection : a.IsConnection
  · exact (connection_move hconnection h).informed ha hc
  have hkeeps := keepsConnection hconnection h
  refine hkeeps.informed hc ?_
  cases a with
  | start topic =>
    rw [step, Option.some_inj] at h
    subst h
    exact hc.told.start topic
  | stop i =>
    obtain ⟨s, hs, ⟨hpc, rfl⟩ | rfl⟩ := Connector.stop_cases h
    · refine hc.told.setSub hs rfl rfl id fun _ ↦ ⟨?_, rfl⟩
      rw [hpc]
      rfl
    · exact hc.told.setSub hs rfl rfl id fun hbefore ↦ ⟨hbefore, rfl⟩
  | settle i =>
    obtain ⟨s, hs, hpc, rfl⟩ := Connector.settle_cases h
    refine hc.told.setSub hs rfl rfl id fun _ ↦ ⟨?_, rfl⟩
    rw [hpc]
    rfl
  | resume i wake =>
    refine Connector.resume_told hc.told (fun s hs hacquires hm ↦ ?_) h
    cases hstate : c.connectionState with
    | down =>
      have hlive : c.phase.readerLive = false := by
        rw [Bool.eq_false_iff]
        intro hlive
        have hup := hc.up hlive
        rw [hstate] at hup
        exact absurd hup (by decide)
      rw [hlive, Connector.isUp, hstate]
      rfl
    | up =>
      rw [(ha hm).2 (i, wake) rfl s hs hacquires hstate, Connector.isUp, hstate]
      rfl
  | _ => exact absurd trivial hconnection

/-- **Every subscription sees each connection once** in every run in which, while another connection
may be announced, no cancelled reader goes on while a channel is acquired, and no subscription takes
its channel while the state is up and the reader has ended. -/
theorem run_seesOnce {args : Args} {actions : List Action} {c : Connector}
    (hC : Transition.Along (step args) InformsAll actions {}) (hrun : run args actions = some c) :
    ∀ s ∈ c.subs, s.SeesOnce :=
  (Transition.exec_invariant_of_along InformsAll Connector.Informed step_informed
    Connector.informed_fresh hC hrun).told.once

/-- A subscription holds its channel while one connection ends with a read error and another one
comes up. -/
def reconnectOnce : List Action :=
  [.start btcTrades, .resume 0 none, .reconnect, .connected true [btcTrades], .beginReader,
    .beginWriter, .beginPinger, .readError [btcTrades], .written false, .pongTimeout, .join [],
    .reconnect, .connected true [btcTrades]]

theorem run_seesOnce_reconnectOnce :
    ∃ c, run {} reconnectOnce = some c ∧
      c.subs.map (·.seen.map (·.2.isUp)) = [[true, false, true]] ∧
      ∀ s ∈ c.subs, s.SeesOnce :=
  ⟨_, rfl, by decide, @run_seesOnce {} reconnectOnce _ (by decide) rfl⟩

/-- The server's confirmation of the subscription. -/
def subscribed : Json.Value :=
  .object [(ascii "type", .string (ascii "subscribed")),
    (ascii "channel", .string btcTrades.channel),
    (ascii "market", .string btcTrades.market)]

/-- The subscription is open when a write fails. The read that was cancelled for it still completes
with a frame, so the reader ends with an exception; then the next connection comes up. -/
def lateFrame : List Action :=
  [.start btcTrades, .resume 0 none, .reconnect, .connected true [btcTrades], .beginReader,
    .beginWriter, .beginPinger, .readMessage (.text (some subscribed)), .written false,
    .readMessage .binary, .pongTimeout, .join [], .reconnect, .connected true [btcTrades]]

theorem lateFrame_not_seesOnce :
    ∃ c, run {} lateFrame = some c ∧ ¬∀ s ∈ c.subs, s.SeesOnce := by
  refine ⟨_, rfl, fun h ↦ ?_⟩
  have hlast := h _ List.mem_cons_self [_, _] _ (List.prefix_refl _) rfl
  exact absurd hlast.1 (by decide)

/-- The reader ends with an error, and a subscription takes its channel before the other tasks have
ended: it is told that the connection is up, and again when the next one is. -/
example : (run {} [.reconnect, .connected true [], .beginReader, .beginWriter, .beginPinger,
    .resumeWriter, .readError [], .start btcTrades, .resume 0 none, .written false, .pongTimeout,
    .join [], .reconnect, .connected true [btcTrades]]).map
      (·.subs.map (·.seen.map fun x ↦ (x.1, x.2.isUp)))
    = some [[(.down, true), (.opening, true)]] := by decide

end Ftx

end BoostConnector
