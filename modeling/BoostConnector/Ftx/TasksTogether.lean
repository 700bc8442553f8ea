import BoostConnector.Ftx.SubscriptionMove

/-!
# The tasks of a connection stand or fall together

The operands of `read_state && ftx_write_state && run_ping_pong` should end together: once one of
them has ended, the others are cancelled. `&&` cancels them for an exception only, and two ways to
end are no exceptions. `read_state` returns on a read error, and the timeout that `run_ping_pong`
throws is caught at its own end.

These two are all that goes wrong: the tasks stand together in every state of a run just when no
read fails and no ping times out before the tasks have been cancelled (`standsTogether_iff`).
-/

namespace BoostConnector

namespace Ftx

open Transition

/-! ## Standing together -/

namespace Tasks

variable (t : Tasks)

def AnyEnded : Prop :=
  t.reader.outcome? ≠ none ∨ t.writer.outcome? ≠ none ∨ t.pinger.outcome? ≠ none

def AllEnded : Prop :=
  t.reader.outcome? ≠ none ∧ t.writer.outcome? ≠ none ∧ t.pinger.outcome? ≠ none

/-- Once one task has ended, all have, or the remaining ones have been cancelled. -/
def StandTogether : Prop := t.AnyEnded → t.AllEnded ∨ t.cancelled = true

instance : Decidable t.AnyEnded := inferInstanceAs (Decidable (_ ∨ _ ∨ _))

instance : Decidable t.AllEnded := inferInstanceAs (Decidable (_ ∧ _ ∧ _))

instance : Decidable t.StandTogether := inferInstanceAs (Decidable (_ → _))

variable {t}

theorem standTogether_of_cancelled (h : t.cancelled = true) : t.StandTogether := fun _ ↦ .inr h

theorem not_anyEnded_of_not_allEnded (h : t.StandTogether) (hopen : ¬t.AllEnded)
    (hcancelled : t.cancelled = false) : ¬t.AnyEnded := by
  intro hany
  rcases h hany with hall | hcancel
  · exact hopen hall
  · exact absurd hcancel (by simp [hcancelled])

theorem standTogether_of_not_anyEnded (h : ¬t.AnyEnded) : t.StandTogether := fun hany ↦
  absurd hany h

end Tasks

/-- The tasks of the current connection stand together. -/
def Connector.StandsTogether (c : Connector) : Prop := ∀ t ∈ c.phase.tasks?, t.StandTogether

instance (c : Connector) : Decidable c.StandsTogether :=
  inferInstanceAs (Decidable (∀ t ∈ c.phase.tasks?, _))

/-- The actions that end a task without an exception. -/
def Action.endsQuietly : Action → Bool
  | .readError _ | .pongTimeout => true
  | _ => false

/-- A read that fails and a ping that is not answered in time find the tasks already cancelled. -/
def EndsCancelled (a : Action) (c : Connector) : Prop :=
  a.endsQuietly = true → ∀ t ∈ c.phase.tasks?, t.cancelled = true

instance (a : Action) (c : Connector) : Decidable (EndsCancelled a c) :=
  inferInstanceAs (Decidable (_ → ∀ t ∈ c.phase.tasks?, _))

/-! ## What a step does to the tasks -/

/-- Each constructor is one way a step can leave the tasks of a connection. -/
inductive TasksMove (t : Tasks) : Action → Tasks → Prop
  | writer {a : Action} (w : Writer) (hw : w.outcome? = t.writer.outcome?) :
      TasksMove t a { t with writer := w }
  | cancelled {a : Action} {t' : Tasks} (h : t'.cancelled = true) : TasksMove t a t'
  | reading {a : Action} (h : t.reader.outcome? = none) (w : Writer)
      (hw : w.outcome? = t.writer.outcome?) :
      TasksMove t a { t with writer := w, reader := .reading }
  | pinging {a : Action} (w : Writer) (p : Pinger) (hw : w.outcome? = t.writer.outcome?)
      (h : t.pinger.outcome? = none) (hp : p.outcome? = none) :
      TasksMove t a { t with writer := w, pinger := p }
  | readError {order : List ChannelMarketPair} (h : t.reader = .reading) (w : Writer)
      (hw : w.outcome? = t.writer.outcome?) :
      TasksMove t (.readError order) { t with writer := w, reader := .ended .returned }
  | pongTimeout (h : t.pinger = .awaitingPong) :
      TasksMove t .pongTimeout { t with pinger := .ended .returned }

namespace TasksMove

variable {a : Action} {t t' : Tasks}

theorem startRead (ht : t.reader.outcome? = none) (w : Writer)
    (hw : w.outcome? = t.writer.outcome?) :
    TasksMove t a (Tasks.startRead { t with writer := w }) := by
  unfold Tasks.startRead
  split_ifs with hcancelled
  · exact .cancelled rfl
  · exact .reading ht w hw

/-- Tasks that stood together still do, unless a read has failed or a ping has timed out. -/
theorem standTogether (h : TasksMove t a t') (ht : t.StandTogether)
    (hread : ∀ order, a = .readError order → t.cancelled = true)
    (hpong : a = .pongTimeout → t.cancelled = true) : t'.StandTogether := by
  cases h with
  | writer w hw =>
    intro hany
    simp only [Tasks.AnyEnded, Tasks.AllEnded, hw] at hany ⊢
    exact ht hany
  | cancelled h => exact Tasks.standTogether_of_cancelled h
  | reading h w hw =>
    by_cases hcancelled : t.cancelled = true
    · exact Tasks.standTogether_of_cancelled hcancelled
    · have hnone := Tasks.not_anyEnded_of_not_allEnded ht (fun hall ↦ hall.1 h)
        (Bool.eq_false_iff.mpr hcancelled)
      refine Tasks.standTogether_of_not_anyEnded ?_
      simp only [Tasks.AnyEnded, not_or, hw] at hnone ⊢
      exact ⟨fun hreader ↦ hreader rfl, hnone.2⟩
  | pinging w p hw h hp =>
    by_cases hcancelled : t.cancelled = true
    · exact Tasks.standTogether_of_cancelled hcancelled
    · have hnone := Tasks.not_anyEnded_of_not_allEnded ht (fun hall ↦ hall.2.2 h)
        (Bool.eq_false_iff.mpr hcancelled)
      refine Tasks.standTogether_of_not_anyEnded ?_
      simp only [Tasks.AnyEnded, not_or, hw] at hnone ⊢
      exact ⟨hnone.1, hnone.2.1, fun hpinger ↦ hpinger hp⟩
  | readError h w hw => exact Tasks.standTogether_of_cancelled (hread _ rfl)
  | pongTimeout h => exact Tasks.standTogether_of_cancelled (hpong rfl)

end TasksMove

namespace Connector

variable {args : Args} {a : Action} {c d : Connector} {t : Tasks}

theorem tasks_of_online (h : c.phase = .online t) : c.phase.tasks? = some t := by
  rw [h, RunPhase.tasks?]

/-- A step of a task reads the tasks of the connection. -/
theorem of_bind_tasks {f : Tasks → Option Connector} (hphase : c.phase = .online t)
    (h : (c.phase.tasks?.bind f) = some d) : f t = some d := by
  rwa [hphase, RunPhase.tasks?, Option.bind_some] at h

theorem mem_tasks_modifyTasks {f : Tasks → Tasks} {t' : Tasks}
    (h : t' ∈ (c.modifyTasks f).phase.tasks?) : ∃ t ∈ c.phase.tasks?, t' = f t := by
  cases hphase : c.phase with
  | online t =>
    rw [modifyTasks, hphase, RunPhase.mapTasks, RunPhase.tasks?, Option.mem_some_iff] at h
    exact ⟨t, rfl, h.symm⟩
  | _ => simp [modifyTasks, hphase, RunPhase.mapTasks, RunPhase.tasks?] at h

theorem phase_modifyTasks (hphase : c.phase = .online t) (f : Tasks → Tasks) :
    (c.modifyTasks f).phase = .online (f t) := by
  rw [modifyTasks, hphase, RunPhase.mapTasks]

theorem Undisturbed.exists_writer (h : Undisturbed c d) (ht : t ∈ c.phase.tasks?) :
    ∃ w : Writer, w.outcome? = t.writer.outcome? ∧ d.phase = .online { t with writer := w } := by
  rcases h.phase with hphase | hphase
  · exact ⟨t.writer, rfl, hphase.trans (phase_eq_online ht)⟩
  · refine ⟨t.writer.wake, t.writer.outcome?_wake, ?_⟩
    rw [hphase, phase_eq_online ht]
    rfl

theorem not_mem_tasks_leaveReconnect : t ∉ c.leaveReconnect.phase.tasks? := by
  unfold leaveReconnect
  dsimp only
  split_ifs <;> simp [RunPhase.tasks?]

theorem ping_tasksMove (hphase : c.phase = .online t) (ht : t.pinger.outcome? = none) :
    ∃ t', c.ping.phase = .online t' ∧ TasksMove t a t' := by
  simp only [ping, send, modifyTasks, hphase, RunPhase.mapTasks]
  refine ⟨_, rfl, ?_⟩
  by_cases hcancelled : t.cancelled = true
  · exact .cancelled hcancelled
  · rw [if_neg (show ¬t.wakeWriter.cancelled = true from hcancelled)]
    exact .pinging _ _ t.writer.outcome?_wake ht rfl

/-- A step of the keep-alive leaves it running, cancelled, or ended by its timeout. -/
theorem pinger_tasksMove
    (ha : a = .beginPinger ∨ a = .pongPopped ∨ a = .pongTimeout ∨ a = .pingDue)
    (h : step args a c = some d) (hphase : c.phase = .online t) :
    ∃ t', d.phase = .online t' ∧ TasksMove t a t' := by
  obtain ⟨t₀, hphase₀, hrunning, hcases⟩ := pinger_cases ha h
  obtain rfl : t₀ = t := RunPhase.online.inj (hphase₀.symm.trans hphase)
  rcases hcases with rfl | rfl | ⟨rfl, hp, rfl⟩
  · exact ping_tasksMove hphase hrunning
  · simp only [modifyTasks, hphase, RunPhase.mapTasks]
    refine ⟨_, rfl, ?_⟩
    by_cases hcancelled : t₀.cancelled = true
    · exact .cancelled hcancelled
    · rw [if_neg hcancelled]
      exact .pinging t₀.writer _ rfl hrunning rfl
  · simp only [modifyTasks, hphase, RunPhase.mapTasks]
    exact ⟨_, rfl, .pongTimeout hp⟩

/-- The calls of the handlers at most wake the writer. -/
theorem tasks_of_phase (hphase : d.phase = c.phase ∨ d.phase = c.phase.mapTasks Tasks.wakeWriter)
    {t' : Tasks} (ht' : t' ∈ d.phase.tasks?) :
    ∃ t ∈ c.phase.tasks?, ∃ w : Writer, w.outcome? = t.writer.outcome? ∧
      t' = { t with writer := w } := by
  rcases hphase with hphase | hphase
  · exact ⟨t', hphase ▸ ht', t'.writer, rfl, rfl⟩
  · obtain ⟨t, ht, rfl⟩ : ∃ t ∈ c.phase.tasks?, t' = t.wakeWriter :=
      mem_tasks_modifyTasks (by rwa [hphase] at ht')
    exact ⟨t, ht, t.writer.wake, t.writer.outcome?_wake, rfl⟩

end Connector

/-- **What a step does to the tasks.** They are those of a new connection or have moved. -/
theorem tasks_move {args : Args} {a : Action} {c d : Connector} (h : step args a c = some d)
    {t' : Tasks} (ht' : t' ∈ d.phase.tasks?) :
    t' = {} ∨ ∃ t ∈ c.phase.tasks?, TasksMove t a t' := by
  have hmoved (hphase : d.phase = c.phase ∨ d.phase = c.phase.mapTasks Tasks.wakeWriter) :
      ∃ t ∈ c.phase.tasks?, TasksMove t a t' := by
    obtain ⟨t, ht, w, hw, rfl⟩ := Connector.tasks_of_phase hphase ht'
    exact ⟨t, ht, .writer w hw⟩
  by_cases ha : a.IsConnection
  · cases connection_move ha h with
    | send payload => exact .inr (hmoved (.inr rfl))
    | drop =>
      refine .inr (hmoved (.inl ?_))
      unfold Connector.drop
      split_ifs <;> rfl
    | requestStop =>
      obtain ⟨t, ht, rfl⟩ := Connector.mem_tasks_modifyTasks ht'
      exact .inr ⟨t, ht, .cancelled rfl⟩
    | stopped hphase hstop => simp [RunPhase.tasks?] at ht'
    | connecting hphase hstop => simp [RunPhase.tasks?] at ht'
    | badUrl hphase hstop => exact absurd ht' Connector.not_mem_tasks_leaveReconnect
    | abandoned hphase hwalks hstop => exact absurd ht' Connector.not_mem_tasks_leaveReconnect
    | announced hphase hwalks hstop => exact .inl (Option.some_inj.mp ht').symm
    | @beginReader t hphase hreader =>
      obtain ⟨t₀, ht₀, rfl⟩ := Connector.mem_tasks_modifyTasks ht'
      obtain rfl : t = t₀ := Option.some_inj.mp ((Connector.tasks_of_online hphase).symm.trans ht₀)
      exact .inr ⟨t, ht₀, .startRead (by simp [hreader, Reader.outcome?]) t.writer rfl⟩
    | @readMessage t msg hphase hreader =>
      obtain ⟨t₁, ht₁, rfl⟩ := Connector.mem_tasks_modifyTasks ht'
      obtain ⟨t₀, ht₀, w, hw, rfl⟩ :=
        Connector.tasks_of_phase (Connector.handleMessage_undisturbed c msg).phase ht₁
      obtain rfl : t = t₀ := Option.some_inj.mp ((Connector.tasks_of_online hphase).symm.trans ht₀)
      exact .inr ⟨t, ht₀, .startRead (by simp [hreader, Reader.outcome?]) w hw⟩
    | @readError t order hphase hreader hwalks =>
      obtain ⟨t₁, ht₁, rfl⟩ := Connector.mem_tasks_modifyTasks ht'
      obtain ⟨t₀, ht₀, w, hw, rfl⟩ := Connector.tasks_of_phase
        (Connector.broadcast_undisturbed c order .connectionDown).phase ht₁
      obtain rfl : t = t₀ := Option.some_inj.mp ((Connector.tasks_of_online hphase).symm.trans ht₀)
      exact .inr ⟨t, ht₀, .readError hreader w hw⟩
    | @writer _ t t₁ queue ha hphase hmoves =>
      obtain rfl : t₁ = t' := Option.some_inj.mp ht'
      refine .inr ⟨t, Connector.tasks_of_online hphase, ?_⟩
      obtain ⟨t₀, hphase₀, hrunning, -⟩ := Connector.writer_cases ha h
      obtain rfl : t₀ = t := RunPhase.online.inj (hphase₀.symm.trans hphase)
      rcases hmoves with rfl | ⟨w, hw, rfl⟩
      · exact .cancelled rfl
      · exact .writer w (hw.trans hrunning.symm)
    | @pinger _ t t₁ queue pong ha hphase hmoves =>
      obtain ⟨t₂, hd, hmove⟩ := Connector.pinger_tasksMove ha h hphase
      obtain rfl : t₂ = t' := Option.some_inj.mp ((Connector.tasks_of_online hd).symm.trans ht')
      exact .inr ⟨t, Connector.tasks_of_online hphase, hmove⟩
    | joined hphase ht hwalks => exact absurd ht' Connector.not_mem_tasks_leaveReconnect
    | failed hphase ht => exact absurd ht' Connector.not_mem_tasks_leaveReconnect
  · exact .inr (hmoved (keepsConnection ha h).phase)

/-! ## Runs -/

namespace Connector

theorem standsTogether_of_endsCancelled {args : Args} {a : Action} {c d : Connector}
    (hc : c.StandsTogether) (ha : EndsCancelled a c) (h : step args a c = some d) :
    d.StandsTogether := by
  intro t' ht'
  rcases tasks_move h ht' with rfl | ⟨t, ht, hmove⟩
  · exact Tasks.standTogether_of_not_anyEnded (by decide)
  · refine hmove.standTogether (hc t ht) ?_ ?_
    · rintro order rfl
      exact ha rfl t ht
    · rintro rfl
      exact ha rfl t ht

/-- A task that has ended before the tasks were cancelled leaves the others behind. -/
theorem cancelled_of_standTogether {t t' : Tasks} (ht : t.StandTogether) (hopen : ¬t.AllEnded)
    (ht' : t'.StandTogether) (hended : t'.AnyEnded) (hcancelled : t'.cancelled = t.cancelled)
    (hothers : ¬t.AnyEnded → ¬t'.AllEnded) : t.cancelled = true := by
  by_contra hnot
  have hnone := Tasks.not_anyEnded_of_not_allEnded ht hopen (Bool.eq_false_iff.mpr hnot)
  rcases ht' hended with hall | hcancel
  · exact hothers hnone hall
  · exact hnot (hcancelled ▸ hcancel)

theorem endsCancelled_of_standsTogether {args : Args} {a : Action} {c d : Connector}
    (hc : c.StandsTogether) (hd : d.StandsTogether) (h : step args a c = some d) :
    EndsCancelled a c := by
  cases a with
  | readError order =>
    intro _ t ht
    have hstep := of_bind_tasks (phase_eq_online ht) h
    split at hstep
    · rename_i hreader
      split_ifs at hstep
      obtain rfl := Option.some_inj.mp hstep
      have hreading : t.reader.outcome? = none := by simp [hreader, Reader.outcome?]
      obtain ⟨w, hw, hphase⟩ := (broadcast_undisturbed c order .connectionDown).exists_writer ht
      have htasks := tasks_of_online (phase_modifyTasks hphase fun t ↦ t.endReader .returned)
      refine cancelled_of_standTogether (hc t ht) (fun hall ↦ hall.1 hreading) (hd _ htasks)
        (.inl (by simp [Tasks.endReader, Reader.outcome?])) rfl fun hnone hall ↦ ?_
      exact hnone (.inr (.inr hall.2.2))
    · exact absurd hstep (by simp)
  | pongTimeout =>
    intro _ t ht
    have hstep := of_bind_tasks (phase_eq_online ht) h
    split at hstep
    · rename_i hpinger
      obtain rfl := Option.some_inj.mp hstep
      have hwaiting : t.pinger.outcome? = none := by simp [hpinger, Pinger.outcome?]
      have htasks := tasks_of_online (phase_modifyTasks (phase_eq_online ht)
        fun t ↦ { t with pinger := .ended .returned })
      refine cancelled_of_standTogether (hc t ht) (fun hall ↦ hall.2.2 hwaiting) (hd _ htasks)
        (.inr (.inr (by simp [Pinger.outcome?]))) rfl fun hnone hall ↦ ?_
      exact hnone (.inl hall.1)
    · exact absurd hstep (by simp)
  | _ => simp [EndsCancelled, Action.endsQuietly]

end Connector

theorem Connector.standsTogether_fresh : Connector.StandsTogether {} := by
  intro t ht
  simp [RunPhase.tasks?] at ht

/-- **The three tasks stand or fall together** in every state of a run exactly when each read that
fails and each ping that is not answered in time finds the tasks already cancelled. -/
theorem standsTogether_iff {args : Args} {actions : List Action} {c : Connector}
    (hrun : run args actions = some c) :
    (∀ before d, before <+: actions → run args before = some d → d.StandsTogether) ↔
      Along (step args) EndsCancelled actions {} := by
  refine forall_prefix_iff_along (fun hd hstep ↦ ⟨?_, ?_⟩) ?_ Connector.standsTogether_fresh
  · exact fun ht ↦ Connector.endsCancelled_of_standsTogether hd ht hstep
  · exact fun ha ↦ Connector.standsTogether_of_endsCancelled hd ha hstep
  · rintro before a after t rfl hbefore hnone
    exact absurd hnone (step_ne_none_of_exec hrun hbefore)

/-- A connection comes up, a write fails, and the other two tasks end because of it. -/
def failWrite : List Action :=
  [.reconnect, .connected true [], .beginReader, .beginWriter, .beginPinger, .resumeWriter,
    .written false, .pongTimeout, .readError []]

theorem standsTogether_failWrite : (run {} failWrite).isSome ∧
    ∀ before d, before <+: failWrite → run {} before = some d → d.StandsTogether :=
  ⟨rfl, (@standsTogether_iff {} failWrite _ rfl).mpr (by decide)⟩

/-- A connection comes up, and its first ping is not answered. -/
def silentPeer : List Action :=
  [.reconnect, .connected true [], .beginReader, .beginWriter, .beginPinger, .resumeWriter,
    .written true, .pongTimeout]

/-- The keep-alive has ended, and reading and writing go on. -/
theorem silentPeer_not_standsTogether :
    ∃ c t, run {} silentPeer = some c ∧ c.phase = .online t ∧ ¬c.StandsTogether ∧
      t.pinger = .ended .returned ∧ t.reader = .reading ∧ t.cancelled = false := by
  refine ⟨_, _, rfl, rfl, ?_, rfl, rfl, rfl⟩
  decide

end Ftx

end BoostConnector
