import BoostConnector.Ftx.VenueAgreement
import BoostConnector.Ftx.WriteQueue
import BoostConnector.Transition.Completion

/-!
# The connector and its venue come to rest

What is on its way keeps the two busy: the writer writes what is queued, the venue answers what was
written, the reader reads the answers, and an answer may lead to one more request, that of a machine
that was asked to close while it was opening. Each of these steps takes something off `load`, so
left alone on a connection that is read and written they come to rest, whatever their order
(`lively_step`). The prices in `load` are such that a frame can be paid for on its way: one that is
queued will be written, answered and read.

Where they rest every subscription has what it waits for (`Rests`).
-/

namespace BoostConnector

namespace Ftx

open Conversation (Agrees Phase Reply Request Talk)

open Transition Util

/-! ## What is left to do -/

namespace StateMachine

/-- The machine will answer its confirmation with another request. -/
def owes (sm : StateMachine) : Bool := decide (sm.state = .opening) && sm.closeRequested

theorem filterMap_frame?_of_isQuiet {effects : List Effect} (h : ∀ x ∈ effects, x.IsQuiet) :
    effects.filterMap Effect.frame? = [] := by
  refine List.filterMap_eq_nil_iff.mpr fun x hx ↦ ?_
  rcases x with _ | _ | _ | _
  · exact absurd (h _ hx) id
  all_goals rfl

/-- A message makes a machine send only what it owes. -/
theorem owes_processEvent {sm : StateMachine} {e : ChannelEvent} (hup : e.isUp = false) :
    (if (sm.processEvent e).1.owes then 1 else 0) +
        ((sm.processEvent e).2.filterMap Effect.frame?).length ≤ if sm.owes then 1 else 0 := by
  have hmove := sm.processEvent_move e
  generalize (sm.processEvent e).1 = next, (sm.processEvent e).2 = effects at hmove ⊢
  cases hmove with
  | ignored hignored hdown hnot => simp [filterMap_frame?_of_isQuiet hignored]
  | up hstate he => exact absurd (hup.symm.trans he) (by decide)
  | subscribedClosing hstate he hclose => simp [owes, hstate, hclose, Effect.frame?]
  | _ => simp [owes, enterClosedState]

end StateMachine

/-- A writer that does not sleep has a step to take. -/
def Writer.work : Writer → ℕ
  | spawned | popping true | writing _ => 1
  | popping false | ended _ => 0

theorem Writer.work_le_one (w : Writer) : w.work ≤ 1 := by
  rcases w with _ | (_ | _) | _ | _ <;> simp [work]

def Tasks.work (t : Tasks) : ℕ := (if t.reader = .spawned then 1 else 0) + t.writer.work

/-- The tasks read and write. -/
structure Tasks.Runs (t : Tasks) : Prop where
  cancelled : t.cancelled = false
  reader : t.reader.outcome? = none
  writer : t.writer.outcome? = none

namespace Connector

variable {c d : Connector} {t : Tasks}

def owing (c : Connector) : ℕ := c.subs.countP fun s ↦ s.sm.owes

theorem owing_handle {i : ℕ} {s : Subscription} (hi : c.subs[i]? = some s) {e : ChannelEvent}
    (hup : e.isUp = false) :
    (c.handle i e).owing + (c.handle i e).writeQueue.length ≤ c.owing + c.writeQueue.length := by
  have hset : (c.setSub i (s.given e)).owing + (if s.sm.owes then 1 else 0) =
      c.owing + if (s.sm.processEvent e).1.owes then 1 else 0 :=
    Collections.countP_set_add hi (s.given e)
  have hle : _ ≤ if s.sm.owes then 1 else 0 := StateMachine.owes_processEvent hup
  have howing : ((c.setSub i (s.given e)).performAll (s.sm.processEvent e).2).owing =
      (c.setSub i (s.given e)).owing := by
    rw [owing, performAll_subs, owing]
  have hqueue : (c.setSub i (s.given e)).writeQueue = c.writeQueue := rfl
  rw [handle_of_sub hi, writeQueue_performAll, howing, hqueue, List.length_append]
  omega

theorem owing_handleMessage (hmanned : Handover.Manned c.view) (msg : Message) :
    (c.handleMessage msg).owing + (c.handleMessage msg).writeQueue.length ≤
      c.owing + c.writeQueue.length := by
  rcases msg with _ | jframe?
  · exact le_rfl
  · simp only [handleMessage]
    split
    · exact le_rfl
    · split
      · exact le_rfl
      · exact le_rfl
      · rename_i jframe _ index _
        rcases tell_cases hmanned (.response jframe) index with
          ⟨htell, -⟩ | ⟨cs, i, s, -, -, -, hi, -, -, htell⟩
        · rw [htell]
        · rw [htell]
          exact owing_handle hi rfl

/-- No message moves a subscription. -/
theorem pcs_handleMessage (hmanned : Handover.Manned c.view) (msg : Message) :
    (c.handleMessage msg).subs.map (·.pc) = c.subs.map (·.pc) := by
  rcases msg with _ | jframe?
  · rfl
  · simp only [handleMessage]
    split
    · rfl
    · split
      · rfl
      · rfl
      · rename_i jframe _ index _
        rcases tell_cases hmanned (.response jframe) index with
          ⟨htell, -⟩ | ⟨cs, i, s, -, -, -, hi, -, -, htell⟩
        · rw [htell]
        · have hpc : (c.subs.map (·.pc))[i]? = some (s.given (.response jframe)).pc := by
            rw [List.getElem?_map, hi]
            rfl
          obtain ⟨hlt, hget⟩ := List.getElem?_eq_some_iff.mp hpc
          rw [htell, handle_of_sub hi, performAll_subs, setSub, List.map_set, ← hget,
            List.set_getElem_self]

/-- Pushing frames may wake the writer, and changes the tasks in no other way. -/
theorem sendAll_online (hphase : c.phase = .online t) (frames : List Frame) :
    ∃ t', (c.sendAll frames).phase = .online t' ∧ t'.reader = t.reader ∧
      t'.cancelled = t.cancelled ∧ t'.writer.outcome? = t.writer.outcome? ∧
        t'.writer.work ≤ t.writer.work + frames.length := by
  induction frames generalizing c t with
  | nil => exact ⟨t, hphase, rfl, rfl, rfl, le_rfl⟩
  | cons frame frames ih =>
    have hsent : (c.send frame).phase = .online t.wakeWriter := by
      rw [phase_send, hphase]
      rfl
    obtain ⟨t', ht', hreader, hcancelled, houtcome, hwork⟩ := ih hsent
    refine ⟨t', ht', hreader, hcancelled, houtcome.trans (Writer.outcome?_wake _), ?_⟩
    have hwake : t.wakeWriter.writer.work ≤ t.writer.work + 1 :=
      (Writer.work_le_one _).trans (Nat.le_add_left _ _)
    rw [List.length_cons]
    omega

/-! ## The steps of the tasks -/

/-- What is left of the connection after a step of its tasks. -/
structure Onward (t t' : Tasks) (c d : Connector) : Prop where
  runs : t'.Runs
  phase : d.phase = .online t'
  stop : d.stopRequested = c.stopRequested
  pcs : d.subs.map (·.pc) = c.subs.map (·.pc)

theorem beginReader_onward {args : Args} (hphase : c.phase = .online t) (ht : t.Runs)
    (hd : step args .beginReader c = some d) :
    d.subs = c.subs ∧ d.writeQueue = c.writeQueue ∧
      ∃ t', Onward t t' c d ∧ t'.work < t.work := by
  simp only [step, beginReader, tasks_of_online hphase] at hd
  rcases hreader : t.reader with _ | _ | _
  · simp only [Option.bind_eq_bind, Option.bind_some, hreader, Option.some_inj] at hd
    subst hd
    refine ⟨rfl, rfl, { t with reader := .reading },
      ⟨⟨ht.cancelled, rfl, ht.writer⟩, ?_, rfl, rfl⟩, ?_⟩
    · simp [modifyTasks, hphase, RunPhase.mapTasks, Tasks.startRead, ht.cancelled]
    · simp [Tasks.work, hreader]
  · simp [hreader] at hd
  · simp [hreader] at hd

theorem pop_of_writer {args : Args} {b : Action}
    (hb : b = .beginWriter ∨ b = .resumeWriter ∨ b = .written true)
    (hphase : c.phase = .online t) (ht : t.Runs) (hd : step args b c = some d) :
    t.writer.work = 1 ∧ c.pop t = d := by
  rcases hb with rfl | rfl | rfl
  · simp only [step, beginWriter, tasks_of_online hphase] at hd
    rcases hwriter : t.writer with _ | _ | _ | _ <;>
      simp [hwriter, startPop, ht.cancelled, Writer.work] at hd ⊢
    exact hd
  · simp only [step, resumeWriter, tasks_of_online hphase] at hd
    rcases hwriter : t.writer with _ | (_ | _) | _ | _ <;> simp [hwriter, Writer.work] at hd ⊢
    exact hd
  · simp only [step, written, tasks_of_online hphase] at hd
    rcases hwriter : t.writer with _ | _ | _ | _ <;>
      simp [hwriter, startPop, ht.cancelled, Writer.work] at hd ⊢
    exact hd

theorem writer_onward {args : Args} {b : Action}
    (hb : b = .beginWriter ∨ b = .resumeWriter ∨ b = .written true)
    (hphase : c.phase = .online t) (ht : t.Runs) (hd : step args b c = some d) :
    d.subs = c.subs ∧ ∃ t', Onward t t' c d ∧
      3 * d.writeQueue.length + 2 * d.writing?.toList.length + t'.work <
        3 * c.writeQueue.length + t.work := by
  obtain ⟨hwork, rfl⟩ := pop_of_writer hb hphase ht hd
  unfold pop
  split
  · refine ⟨rfl, { t with writer := .popping false },
      ⟨⟨ht.cancelled, ht.reader, rfl⟩, ?_, rfl, rfl⟩, ?_⟩
    · simp [modifyTasks, hphase, RunPhase.mapTasks, ht.cancelled]
    · simp [modifyTasks, hphase, RunPhase.mapTasks, ht.cancelled, writing?, RunPhase.tasks?,
        Writer.frame?, Tasks.work, hwork]
      simp [Writer.work]
  · rename_i frame rest hqueue
    refine ⟨rfl, { t with writer := .writing frame },
      ⟨⟨ht.cancelled, ht.reader, rfl⟩, ?_, rfl, rfl⟩, ?_⟩
    · simp [modifyTasks, hphase, RunPhase.mapTasks, ht.cancelled]
    · simp [modifyTasks, hphase, RunPhase.mapTasks, ht.cancelled, writing?, RunPhase.tasks?,
        Writer.frame?, Tasks.work, hwork, hqueue]
      simp only [Writer.work]
      omega

theorem readMessage_onward {args : Args} {msg : Message} (hmanned : Handover.Manned c.view)
    (hphase : c.phase = .online t) (ht : t.Runs) (hd : step args (.readMessage msg) c = some d) :
    ∃ t', Onward t t' c d ∧
      8 * d.owing + 3 * d.writeQueue.length + t'.work ≤
        8 * c.owing + 3 * c.writeQueue.length + t.work := by
  simp only [step, readMessage, tasks_of_online hphase] at hd
  rcases hreader : t.reader with _ | _ | _
  · simp [hreader] at hd
  · simp only [Option.bind_eq_bind, Option.bind_some, hreader, Option.some_inj] at hd
    subst hd
    obtain ⟨hqueue, hphase'⟩ := handleMessage_pushes c msg
    obtain ⟨t', ht', hreader', hcancelled, houtcome, hwork⟩ :=
      sendAll_online hphase (c.messagePushes msg)
    have howing := owing_handleMessage hmanned msg
    have hlength : (c.handleMessage msg).writeQueue.length =
        c.writeQueue.length + (c.messagePushes msg).length := by
      rw [hqueue, List.length_append]
    have hstop := (handleMessage_undisturbed c msg).keepsConnection.stopRequested
    have hread : t'.startRead = { t' with reader := .reading } := by
      rw [Tasks.startRead, hcancelled, ht.cancelled]
      rfl
    refine ⟨t'.startRead, ⟨⟨?_, ?_, ?_⟩, ?_, hstop, pcs_handleMessage hmanned msg⟩, ?_⟩
    · rw [hread]
      exact hcancelled.trans ht.cancelled
    · rw [hread]
      rfl
    · rw [hread]
      exact houtcome.trans ht.writer
    · rw [modifyTasks, hphase', ht']
      rfl
    · have hspawned : t'.startRead.work = t'.writer.work := by simp [hread, Tasks.work]
      have hnot : t.work = t.writer.work := by simp [Tasks.work, hreader]
      rw [hspawned, hnot]
      simp only [modifyTasks, owing] at howing ⊢
      omega
  · simp [hreader] at hd

end Connector

namespace Dialogue

variable {args : Args} {o o' : Dialogue}

/-- What the two do of themselves: nobody is told anything by a user or a timer, no write fails, and
no connection is lost. -/
def Action.settles : Action → Bool
  | .connector .beginReader | .connector .beginWriter | .connector .resumeWriter
  | .connector (.written true) => true
  | .receive | .answer _ | .skip => true
  | _ => false

/-- A request that is owed will be queued, written, answered and read, and may wake the writer. -/
def load (o : Dialogue) : ℕ :=
  8 * o.connector.owing + 3 * o.connector.writeQueue.length + 2 * o.venue.inbox.length +
    o.venue.outbox.length + (o.connector.phase.tasks?.map Tasks.work).getD 0

theorem load_online {t : Tasks} (hphase : o.connector.phase = .online t) :
    o.load = 8 * o.connector.owing + 3 * o.connector.writeQueue.length +
      2 * o.venue.inbox.length + o.venue.outbox.length + t.work := by
  rw [load, Connector.tasks_of_online hphase]
  rfl

theorem Action.settles_connector {b : Ftx.Action} (hb : settles (.connector b) = true) :
    b = .beginReader ∨ b = .beginWriter ∨ b = .resumeWriter ∨ b = .written true := by
  unfold settles at hb
  split at hb
  all_goals simp_all

/-- The queue of the connector has a run of its own. -/
def Served (o : Dialogue) : Prop := ∃ ops q, AsyncQueue.run ops = some q ∧ Serves q o.connector

theorem Served.step {a : Action} (h : o.Served) (hstep : step args a o = some o') : o'.Served := by
  refine connector_invariant (I := fun c ↦ ∃ ops q, AsyncQueue.run ops = some q ∧ Serves q c)
    ?_ h hstep
  rintro b c d ⟨ops, q, hq, hserves⟩ hd
  obtain ⟨ops', r, -, hr, hserves'⟩ := step_answered hd q hserves
  refine ⟨ops ++ ops', r, ?_, hserves'⟩
  rw [AsyncQueue.run, exec_append]
  exact Option.bind_eq_some_iff.mpr ⟨q, hq, hr⟩

theorem run_served {actions : List Action} (hrun : run args actions = some o) : o.Served :=
  exec_invariant Served Served.step ⟨[], {}, rfl, serves_fresh⟩ hrun

/-- The two agree on a connection that is read and written, and that nobody is about to stop. -/
structure Lively (o : Dialogue) : Prop where
  agreed : o.Agreed
  served : o.Served
  stop : o.connector.stopRequested = false
  online : ∃ t, o.connector.phase = .online t ∧ t.Runs

/-- Where nothing is on its way, and every subscription has what it waits for. -/
structure Rests (o : Dialogue) : Prop where
  writeQueue : o.connector.writeQueue = []
  inbox : o.venue.inbox = []
  outbox : o.venue.outbox = []
  awaitingStop : ∀ s ∈ o.connector.subs, s.pc = .awaitingStop → s.sm.state = .open
  awaitingClosed : ∀ s ∈ o.connector.subs, s.pc = .awaitingClosed → s.sm.state = .closed
  published : ∀ index, o.venue.published index = true ↔
    ∃ s ∈ o.connector.subs, s.topic = index ∧ s.pc = .awaitingStop

namespace Lively

/-- A step of the tasks of the connection. -/
theorem next {d : Connector} {venue : Venue} {t t' : Tasks} (h : o.Lively)
    (hagreed : Agreed ⟨d, venue⟩) (hserved : Served ⟨d, venue⟩)
    (honward : Connector.Onward t t' o.connector d) : Lively ⟨d, venue⟩ where
  agreed := hagreed
  served := hserved
  stop := honward.stop.trans h.stop
  online := ⟨t', honward.phase, honward.runs⟩

/-- A connection that is not cancelled keeps everybody informed. -/
theorem orderly {a : Action} (h : o.Lively) (ha : a.settles = true) : Orderly a o := by
  obtain ⟨t, hphase, hruns⟩ := h.online
  have hall {b : Ftx.Action} (hb : b.resumed? = none) :
      TakesFree b o.connector ∧ InformsAll b o.connector := by
    refine ⟨by simp [TakesFree, hb], fun _ ↦ ⟨fun _ t' ht' hcancelled ↦ ?_, by simp [hb]⟩⟩
    rw [hphase, RunPhase.tasks?, Option.mem_some_iff] at ht'
    rw [← ht', hruns.cancelled] at hcancelled
    exact absurd hcancelled (by decide)
  intro b hb
  unfold Action.settles at ha
  split at ha <;> simp [Action.connector?] at hb ha
  · exact hb ▸ hall rfl
  · exact hb ▸ hall rfl
  · exact hb ▸ hall rfl
  · exact hb ▸ hall rfl
  · obtain ⟨jframe, -, rfl⟩ := hb
    exact hall rfl

theorem venue_step {venue : Venue} (h : o.Lively) (hagreed : Agreed { o with venue })
    (hless : 2 * venue.inbox.length + venue.outbox.length <
      2 * o.venue.inbox.length + o.venue.outbox.length) :
    Lively { o with venue } ∧ load { o with venue } < o.load ∧
      o.connector.subs.map (·.pc) = o.connector.subs.map (·.pc) := by
  obtain ⟨t, hphase, hruns⟩ := h.online
  refine ⟨⟨hagreed, h.served, h.stop, h.online⟩, ?_, rfl⟩
  rw [load_online hphase, load_online (o := { o with venue }) hphase]
  dsimp only
  omega

theorem connector_step {b : Ftx.Action} {d : Connector} (h : o.Lively)
    (hb : Action.settles (.connector b) = true) (hd : Ftx.step args b o.connector = some d)
    (hagreed : Agreed ⟨d, o.venue.follow b d⟩) (hserved : Served ⟨d, o.venue.follow b d⟩) :
    Lively ⟨d, o.venue.follow b d⟩ ∧ load ⟨d, o.venue.follow b d⟩ < o.load ∧
      d.subs.map (·.pc) = o.connector.subs.map (·.pc) := by
  obtain ⟨t, hphase, hruns⟩ := h.online
  rcases Action.settles_connector hb with rfl | hwriter
  · obtain ⟨hsubs, hqueue, t', honward, hless⟩ := Connector.beginReader_onward hphase hruns hd
    refine ⟨h.next hagreed hserved honward, ?_, honward.pcs⟩
    rw [load_online hphase, load_online (o := ⟨d, _⟩) honward.phase]
    simp only [Venue.follow, Action.isWriter, Connector.owing, hsubs, hqueue, List.append_nil,
      Bool.false_eq_true, if_false]
    omega
  · -- what the writer takes off the queue is in the inbox of the venue, at a lower price
    obtain ⟨hsubs, t', honward, hless⟩ := Connector.writer_onward hwriter hphase hruns hd
    refine ⟨h.next hagreed hserved honward, ?_, honward.pcs⟩
    rw [load_online hphase, load_online (o := ⟨d, _⟩) honward.phase]
    have hinbox : (o.venue.follow b d).inbox = o.venue.inbox ++ d.writing?.toList := by
      rcases hwriter with rfl | rfl | rfl <;> rfl
    have houtbox : (o.venue.follow b d).outbox = o.venue.outbox := by
      rcases hwriter with rfl | rfl | rfl <;> rfl
    simp only [hinbox, houtbox, List.length_append, Connector.owing, hsubs] at hless ⊢
    omega

end Lively

/-- **Every such step leaves less to do**, and none moves a subscription. -/
theorem lively_step {a : Action} (h : o.Lively) (ha : a.settles = true)
    (hstep : step args a o = some o') :
    o'.Lively ∧ o'.load < o.load ∧
      o'.connector.subs.map (·.pc) = o.connector.subs.map (·.pc) := by
  have hagreed := step_agreed h.agreed (h.orderly ha) hstep
  have hserved := h.served.step hstep
  cases step_move hstep with
  | connector htext hd => exact h.connector_step ha hd hagreed hserved
  | receive houtbox hd =>
    obtain ⟨t, hphase, hruns⟩ := h.online
    -- the message is gone, and what its machine sends was owed
    obtain ⟨t', honward, hless⟩ :=
      Connector.readMessage_onward h.agreed.sound.manned hphase hruns hd
    refine ⟨h.next hagreed hserved honward, ?_, honward.pcs⟩
    rw [load_online hphase, load_online (o := ⟨_, _⟩) honward.phase, houtbox]
    simp only [List.length_cons]
    omega
  | answer hinbox hrequest hreply =>
    refine h.venue_step hagreed ?_
    rw [hinbox]
    simp only [List.length_cons, List.length_append, List.length_nil]
    omega
  | skip hinbox hrequest =>
    refine h.venue_step hagreed ?_
    rw [hinbox]
    simp only [List.length_cons]
    omega
  | publish hvenue => exact absurd ha (by simp [Action.settles])

/-! ## Where they rest -/

/-- A message that answers a request. -/
def confirm (index : ChannelMarketPair) (r : Request) : Json.Value :=
  .object [(ascii "type", .string (if r.wants then ascii "subscribed" else ascii "unsubscribed")),
    (ascii "channel", .string index.channel), (ascii "market", .string index.market)]

theorem replyOn_confirm (index : ChannelMarketPair) (r : Request) :
    replyOn index (confirm index r) = some r.reply := by
  have hroute : route (confirm index r) = some (.channel index) := by cases r <;> rfl
  have hkind : replyKind (confirm index r) = r.reply := by cases r <;> rfl
  simp [replyOn, hroute, hkind]

/-- The owner of a channel is up on a connection that is read. -/
theorem Lively.not_down (h : o.Lively) {s : Subscription} (hs : s ∈ o.connector.subs)
    (howner : s.pc.isOwner = true) : s.sm.state ≠ .down := by
  obtain ⟨t, hphase, hruns⟩ := h.online
  obtain ⟨i, hi⟩ := List.mem_iff_getElem?.mp hs
  obtain ⟨e, he, hacq, hhandler⟩ := h.agreed.exclusive s.topic i
    ⟨s.party, Connector.view_parties hi, rfl, Pc.phase_of_isOwner howner⟩
  obtain ⟨cs, hlookup, rfl⟩ := Connector.slots_view_eq_some he
  obtain ⟨s', hs', -, -, hlinked⟩ :=
    (h.agreed.informed.readerLive_online hphase).handler s.topic cs i hlookup hacq hhandler
  obtain rfl : s = s' := Option.some_inj.mp (hi.symm.trans hs')
  have hmay : o.connector.mayAnnounce = true := by
    rw [Connector.mayAnnounce_of_online hphase, h.stop]
    rfl
  have hsince := (hlinked hmay).since
  rw [hruns.reader] at hsince
  obtain ⟨lost, -, hconversing⟩ := h.agreed.conversing
  exact (hconversing.sane s hs).up hsince

/-- A machine that waits for no answer is open, or closed if it was asked to close. -/
theorem Lively.state_of_owner (h : o.Lively) {s : Subscription} (hs : s ∈ o.connector.subs)
    (howner : s.pc.isOwner = true) (hrest : s.sm.state ≠ .opening ∧ s.sm.state ≠ .closing) :
    s.sm.state = if s.sm.closeRequested then .closed else .open := by
  obtain ⟨lost, -, hconversing⟩ := h.agreed.conversing
  have hheeds := (hconversing.sane s hs).heeds
  have hdown := h.not_down hs howner
  split_ifs with hclose
  · have hopen := hheeds.2 hclose
    rcases hstate : s.sm.state with _ | _ | _ | _ | _ <;> simp_all
  · have hopen := hheeds.1 (Bool.eq_false_iff.mpr hclose)
    rcases hstate : s.sm.state with _ | _ | _ | _ | _ <;> simp_all

/-- The reader waits for a message and the writer for a frame. -/
theorem tasks_of_stuck (hstuck : Stuck (step args) Action.settles o) {t : Tasks}
    (hphase : o.connector.phase = .online t) (hruns : t.Runs) :
    t.reader = .reading ∧ t.writer = .popping false := by
  have htasks := Connector.tasks_of_online hphase
  have hconnector {b : Ftx.Action} (hb : Action.settles (.connector b) = true)
      (htext : ∀ jframe?, b ≠ .readMessage (.text jframe?)) :
      Ftx.step args b o.connector = none := by
    have hnone := hstuck (.connector b) hb
    rwa [step_connector htext, Option.map_eq_none_iff] at hnone
  constructor
  · rcases hreader : t.reader with _ | _ | _
    · have hnone := hconnector (b := .beginReader) rfl (by simp)
      simp [Ftx.step, Connector.beginReader, htasks, hreader] at hnone
    · rfl
    · exact absurd hruns.reader (by simp [hreader, Reader.outcome?])
  · rcases hwriter : t.writer with _ | (_ | _) | _ | _
    · have hnone := hconnector (b := .beginWriter) rfl (by simp)
      simp [Ftx.step, Connector.beginWriter, htasks, hwriter] at hnone
    · rfl
    · have hnone := hconnector (b := .resumeWriter) rfl (by simp)
      simp [Ftx.step, Connector.resumeWriter, htasks, hwriter] at hnone
    · have hnone := hconnector (b := .written true) rfl (by simp)
      simp [Ftx.step, Connector.written, htasks, hwriter] at hnone
    · exact absurd hruns.writer (by simp [hwriter, Writer.outcome?])

/-- The venue has taken every frame: it could answer each request, and skip anything else. -/
theorem inbox_of_stuck (h : o.Lively) (hlive : o.connector.phase.readerLive = true)
    (hstuck : Stuck (step args) Action.settles o) : o.venue.inbox = [] := by
  obtain ⟨lost, -, hconversing⟩ := h.agreed.conversing
  rcases hinbox : o.venue.inbox with _ | ⟨frame, inbox⟩
  · rfl
  -- what is no request is skipped, and a request is one that the venue confirms
  rcases hrequest : frame.request? with _ | ⟨index, r⟩
  · have hnone := hstuck .skip rfl
    simp [step, Venue.skip, hinbox, hrequest] at hnone
  · have hconverses := hconversing.converses hlive
    rw [hinbox, List.append_assoc, List.cons_append] at hconverses
    have hnone := hstuck (.answer (confirm index r)) rfl
    simp [step, Venue.answer, hinbox, hrequest, replyOn_confirm,
      hconverses.verdict hrequest] at hnone

/-- **Where no such step is left, they rest.** -/
theorem rests_of_stuck (h : o.Lively) (hstuck : Stuck (step args) Action.settles o) : o.Rests := by
  obtain ⟨t, hphase, hruns⟩ := h.online
  have htasks := Connector.tasks_of_online hphase
  obtain ⟨hreader, hwriter⟩ := tasks_of_stuck hstuck hphase hruns
  have hlive : o.connector.phase.readerLive = true := by
    simp [hphase, RunPhase.readerLive, RunPhase.tasks?, hruns.reader]
  obtain ⟨ops, q, hq, hserves⟩ := h.served
  have hqueue := hserves.writeQueue_eq_nil hq htasks hwriter
  have hinbox := inbox_of_stuck h hlive hstuck
  have houtbox : o.venue.outbox = [] := by
    rcases houtbox : o.venue.outbox with _ | ⟨jframe, outbox⟩
    · rfl
    · have hnone := hstuck .receive rfl
      simp [step, houtbox, Ftx.step, Connector.readMessage, htasks, hreader] at hnone
  obtain ⟨hpublished, hwaits⟩ := h.agreed.inStep.atRest t hphase hruns.reader hruns.writer hqueue
    hinbox houtbox
  obtain ⟨lost, -, hconversing⟩ := h.agreed.conversing
  have hopen {s : Subscription} (hs : s ∈ o.connector.subs) (hpc : s.pc = .awaitingStop) :
      s.sm.state = .open := by
    have hstate := h.state_of_owner hs (by rw [hpc]; rfl) (hwaits s hs)
    rwa [(hconversing.sane s hs).asked false (by rw [hpc]; rfl), if_neg Bool.false_ne_true]
      at hstate
  have hclosed {s : Subscription} (hs : s ∈ o.connector.subs) (hpc : s.pc = .awaitingClosed) :
      s.sm.state = .closed := by
    have hstate := h.state_of_owner hs (by rw [hpc]; rfl) (hwaits s hs)
    rwa [(hconversing.sane s hs).asked true (by rw [hpc]; rfl), if_pos rfl] at hstate
  refine ⟨hqueue, hinbox, houtbox, fun s hs ↦ hopen hs, fun s hs ↦ hclosed hs, fun index ↦ ?_⟩
  rw [hpublished]
  constructor
  · rintro ⟨s, hs, htopic, hstate⟩
    refine ⟨s, hs, htopic, ?_⟩
    -- only an owner has an open machine, and one that waits for its end has a closed one
    have howner : s.pc.isOwner = true := by
      by_contra hnot
      have hidle := (hconversing.sane s hs).idle (Bool.eq_false_iff.mpr hnot)
      rw [hstate] at hidle
      exact absurd hidle (by simp [StateType.phase?])
    rcases hpc : s.pc with _ | _ | _ | _ | _ <;> simp [hpc, Pc.isOwner] at howner ⊢
    exact absurd (hstate.symm.trans (hclosed hs hpc)) (by decide)
  · rintro ⟨s, hs, htopic, hpc⟩
    exact ⟨s, hs, htopic, hopen hs hpc⟩

/-- **Left to themselves the connector and its venue come to rest.** Take any state of an orderly
run whose connection is read and written and not about to be stopped. From there the two cannot go
on for ever without being told anything, and wherever they cannot go on at all nothing is on its
way, every subscription that awaits its stop is open, every one that awaits its end is closed, and
the venue publishes exactly the channels of the former. -/
theorem run_comesToRest {actions : List Action} {t : Tasks}
    (hC : Along (step args) Orderly actions {}) (hrun : run args actions = some o)
    (hphase : o.connector.phase = .online t) (hruns : t.Runs)
    (hstop : o.connector.stopRequested = false) :
    (∀ more o', (∀ a ∈ more, a.settles = true) → exec (step args) more o = some o' →
      more.length ≤ o.load ∧ o'.connector.subs.map (·.pc) = o.connector.subs.map (·.pc) ∧
        (Stuck (step args) Action.settles o' → o'.Rests)) ∧
      ∃ more o', (∀ a ∈ more, a.settles = true) ∧ exec (step args) more o = some o' ∧
        Stuck (step args) Action.settles o' := by
  have hlively : o.Lively := ⟨run_agreed hC hrun, run_served hrun, hstop, t, hphase, hruns⟩
  have hstep {a : Action} {u u' : Dialogue}
      (hu : u.Lively ∧ u.connector.subs.map (·.pc) = o.connector.subs.map (·.pc))
      (ha : a.settles = true) (h : step args a u = some u') :
      (u'.Lively ∧ u'.connector.subs.map (·.pc) = o.connector.subs.map (·.pc)) ∧
        u'.load < u.load := by
    obtain ⟨hlively', hless, hpcs⟩ := lively_step hu.1 ha h
    exact ⟨⟨hlively', hpcs.trans hu.2⟩, hless⟩
  refine ⟨fun more o' hmore hexec ↦ ?_, exec_comesToRest hstep ⟨hlively, rfl⟩⟩
  obtain ⟨⟨hlively', hpcs⟩, hle⟩ := exec_descends hstep ⟨hlively, rfl⟩ hmore hexec
  exact ⟨Nat.le_of_add_right_le hle, hpcs, rests_of_stuck hlively'⟩

/-- A subscription to the trades takes its channel on a connection that is up. -/
def askForTrades : List Action :=
  [.connector .reconnect, .connector (.connected true []), .connector (.start btcTrades),
    .connector (.resume 0 none), .connector .beginReader]

theorem run_comesToRest_askForTrades : ∃ o, run {} askForTrades = some o ∧
    o.connector.writeQueue.length = 1 ∧
      ∃ more o', (∀ a ∈ more, a.settles = true) ∧ exec (step {}) more o = some o' ∧
        Stuck (step {}) Action.settles o' :=
  ⟨_, rfl, rfl, (@run_comesToRest {} _ askForTrades _ (by decide) rfl rfl ⟨rfl, rfl, rfl⟩ rfl).2⟩

end Dialogue

end Ftx

end BoostConnector
