import BoostConnector.Transition.HandoverInterest

/-!
# The ownership of a slot

Who owns a slot, and who will. An acquired slot always has an owner (`Manned`); when every takeover
finds the slot free the recorded owner is the only one (`Exclusive`); and when every release wakes a
party that will take over, a free slot that somebody waits for is on its way to one (`Attended`).
-/

namespace BoostConnector

namespace Handover

variable {κ : Type*} [DecidableEq κ]

/-! ## The owner of an acquired slot -/

/-- Party `i` owns the slot of the key. -/
def State.OwnedBy (s : State κ) (k : κ) (i : ℕ) : Prop :=
  ∃ p, s.parties[i]? = some p ∧ p.key = k ∧ p.phase = .owning

/-- The recorded owner of an acquired slot owns it. -/
def Manned (s : State κ) : Prop :=
  ∀ k e, s.slots k = some e → e.acquired = true → ∃ i, e.owner = some i ∧ s.OwnedBy k i

omit [DecidableEq κ] in
theorem manned_initial : Manned (initial κ) := fun _ _ h ↦ by simp [initial] at h

omit [DecidableEq κ] in
theorem State.OwnedBy.setParty_of_ne {s : State κ} {k : κ} {i j : ℕ} {q : Party κ}
    (h : s.OwnedBy k j) (hne : j ≠ i) : (s.setParty i q).OwnedBy k j := by
  obtain ⟨p, hp, hkey, hown⟩ := h
  exact ⟨p, getElem?_setParty_of_ne hne hp, hkey, hown⟩

omit [DecidableEq κ] in
/-- A party that does not own can be replaced without touching any ownership. -/
theorem State.OwnedBy.setParty {s : State κ} {k : κ} {i j : ℕ} {p q : Party κ}
    (h : s.OwnedBy k j) (hi : s.parties[i]? = some p) (hp : p.phase ≠ .owning) :
    (s.setParty i q).OwnedBy k j := by
  refine h.setParty_of_ne ?_
  rintro rfl
  obtain ⟨r, hr, -, hown⟩ := h
  rw [hi, Option.some_inj] at hr
  exact hp (hr ▸ hown)

omit [DecidableEq κ] in
theorem Manned.setParty {s : State κ} (h : Manned s) {i : ℕ} {p q : Party κ}
    (hi : s.parties[i]? = some p) (hp : p.phase ≠ .owning) : Manned (s.setParty i q) := by
  intro k e hk hacq
  obtain ⟨j, hj, hown⟩ := h k e hk hacq
  exact ⟨j, hj, hown.setParty hi hp⟩

/-- A party that owned before the step must have owned that key's slot; any other may change
freely. -/
theorem Manned.update {s : State κ} (h : Manned s) {i : ℕ} {p q : Party κ} {e? : Option Slot}
    (hi : s.parties[i]? = some p)
    (hself : ∀ e, e? = some e → e.acquired = true →
      ∃ j, e.owner = some j ∧ (s.setParty i q).OwnedBy p.key j) :
    Manned ((s.setSlot p.key e?).setParty i q) := by
  intro k e he hacq
  by_cases hk : k = p.key
  · subst hk
    rw [State.setParty_slots, State.setSlot_slots_self] at he
    exact hself e he hacq
  · rw [State.setParty_slots, State.setSlot_slots_of_ne _ _ hk] at he
    obtain ⟨j, hj, hown⟩ := h k e he hacq
    refine ⟨j, hj, State.OwnedBy.setParty_of_ne (s := s) hown ?_⟩
    rintro rfl
    obtain ⟨r, hr, hkey, -⟩ := hown
    rw [hi, Option.some_inj] at hr
    exact hk (hr ▸ hkey.symm)

/-- **An acquired slot has an owner**, whatever the steps. -/
theorem step_manned {l : Label κ} {s t : State κ} (h : Manned s) (hstep : Step l s t) :
    Manned t := by
  cases hstep with
  | join k =>
    intro l e hl hacq
    obtain ⟨j, hj, p, hp, hkey, hown⟩ := h l e hl hacq
    refine ⟨j, hj, p, ?_, hkey, hown⟩
    exact List.getElem?_append_left (List.getElem?_eq_some_iff.mp hp).1 ▸ hp
  | @enterFresh _ i p hi hp hk =>
    have hfresh : Manned { s with next := s.next + 1 } := h
    refine hfresh.update hi fun e he _ ↦ ?_
    rw [Option.some_inj] at he
    subst he
    exact ⟨i, rfl, _, getElem?_setParty_self hi, rfl, rfl⟩
  | @enterFree _ i p e hi hp hk _ =>
    refine h.update hi fun f hf _ ↦ ?_
    rw [Option.some_inj] at hf
    subst hf
    exact ⟨i, rfl, _, getElem?_setParty_self hi, rfl, rfl⟩
  | @enterBusy _ i p e w hi hp hk hbusy _ =>
    refine h.update hi fun f hf _ ↦ ?_
    rw [Option.some_inj] at hf
    subst hf
    obtain ⟨j, hj, hown⟩ := h _ e hk hbusy
    exact ⟨j, hj, hown.setParty hi (by simp [hp])⟩
  | stop hi hp => exact h.setParty hi (by simp [hp])
  | settle hi hp => exact h.setParty hi (by simp [hp])
  | quit hi hp => exact h.setParty hi (by simp [hp])
  | @takeover _ i p e hi hp hk =>
    -- whoever was recorded before, the slot now records the party that takes over
    refine h.update hi fun f hf _ ↦ ?_
    rw [Option.some_inj] at hf
    subst hf
    exact ⟨i, rfl, _, getElem?_setParty_self hi, rfl, rfl⟩
  | releaseLast hi _ _ _ => exact h.update hi fun f hf _ ↦ by simp at hf
  | releaseIdle hi _ _ _ _ =>
    refine h.update hi fun f hf hacq ↦ ?_
    rw [Option.some_inj] at hf
    simp [← hf] at hacq
  | @releaseWake _ i j p q e hi hp hk hmore hj hq =>
    have hleft : Manned ((s.setSlot p.key (some { e with
        interest := e.interest - 1
        acquired := false })).setParty i { p with phase := .left }) := by
      refine h.update hi fun f hf hacq ↦ ?_
      rw [Option.some_inj] at hf
      simp [← hf] at hacq
    refine hleft.setParty (getElem?_setParty_of_ne (other_ne hi hp hj hq) hj) ?_
    intro hown
    obtain ⟨-, -, hout⟩ := hq
    simp [hown, Phase.isOutstanding] at hout

/-! ## Exclusive ownership -/

/-- Every party that owns is the recorded owner of its key's slot, which is acquired. -/
def Exclusive (s : State κ) : Prop :=
  ∀ k i, s.OwnedBy k i → ∃ e, s.slots k = some e ∧ e.acquired = true ∧ e.owner = some i

/-- The takeovers that find the slot free. -/
def FreeTakeover : Label κ → State κ → Prop
  | .takeover i, s => ∀ p e, s.parties[i]? = some p → s.slots p.key = some e → e.acquired = false
  | _, _ => True

omit [DecidableEq κ] in
theorem exclusive_initial : Exclusive (initial κ) := by
  rintro k i ⟨p, hp, -⟩
  simp [initial] at hp

omit [DecidableEq κ] in
theorem Exclusive.unique {s : State κ} (h : Exclusive s) {k : κ} {i j : ℕ} (hi : s.OwnedBy k i)
    (hj : s.OwnedBy k j) : i = j := by
  obtain ⟨e, he, -, howner⟩ := h k i hi
  obtain ⟨f, hf, -, howner'⟩ := h k j hj
  rw [he, Option.some_inj] at hf
  rw [hf, howner'] at howner
  exact (Option.some_inj.mp howner).symm

omit [DecidableEq κ] in
/-- Who owns after one party was replaced. -/
theorem ownedBy_setParty {s : State κ} {k : κ} {i j : ℕ} {q : Party κ}
    (h : (s.setParty i q).OwnedBy k j) :
    (j = i ∧ q.key = k ∧ q.phase = .owning) ∨ (j ≠ i ∧ s.OwnedBy k j) := by
  obtain ⟨p, hp, hkey, hown⟩ := h
  rcases getElem?_setParty hp with ⟨rfl, rfl⟩ | ⟨hne, hp⟩
  · exact .inl ⟨rfl, hkey, hown⟩
  · exact .inr ⟨hne, p, hp, hkey, hown⟩

omit [DecidableEq κ] in
theorem Exclusive.setParty {s : State κ} (h : Exclusive s) {i : ℕ} {q : Party κ}
    (hq : q.phase ≠ .owning) : Exclusive (s.setParty i q) := by
  intro k j hown
  rcases ownedBy_setParty hown with ⟨-, -, hown⟩ | ⟨-, hown⟩
  · exact absurd hown hq
  · exact h k j hown

theorem Exclusive.update {s : State κ} (h : Exclusive s) {i : ℕ} {p q : Party κ}
    {e? : Option Slot} (hkey : q.key = p.key)
    (hself : q.phase = .owning → ∃ e, e? = some e ∧ e.acquired = true ∧ e.owner = some i)
    (hothers : ∀ j, j ≠ i → s.OwnedBy p.key j →
      ∃ e, e? = some e ∧ e.acquired = true ∧ e.owner = some j) :
    Exclusive ((s.setSlot p.key e?).setParty i q) := by
  intro k j hown
  rw [State.setParty_slots]
  by_cases hk : k = p.key
  · subst hk
    rw [State.setSlot_slots_self]
    rcases ownedBy_setParty hown with ⟨rfl, -, hown⟩ | ⟨hne, hown⟩
    · exact hself hown
    · exact hothers j hne hown
  · rw [State.setSlot_slots_of_ne _ _ hk]
    rcases ownedBy_setParty hown with ⟨-, hq, -⟩ | ⟨-, hown⟩
    · exact absurd (hq.symm.trans hkey) hk
    · exact h k j hown

omit [DecidableEq κ] in
/-- Nobody owns the slot of a key that has none, or whose slot is free. -/
theorem Exclusive.not_ownedBy {s : State κ} (h : Exclusive s) {k : κ} {i : ℕ}
    (hfree : ∀ e, s.slots k = some e → e.acquired = false) : ¬s.OwnedBy k i := by
  intro hown
  obtain ⟨e, he, hacq, -⟩ := h k i hown
  rw [hfree e he] at hacq
  exact Bool.noConfusion hacq

theorem Exclusive.leave {s : State κ} (h : Exclusive s) {i : ℕ} {p : Party κ} {e? : Option Slot}
    (hi : s.parties[i]? = some p) (hp : p.phase = .owning) :
    Exclusive ((s.setSlot p.key e?).setParty i { p with phase := .left }) := by
  refine h.update rfl (fun hq ↦ by simp at hq) fun j hne hown ↦ ?_
  exact absurd (h.unique hown ⟨p, hi, rfl, hp⟩) hne

/-- **Ownership is exclusive**, as long as every takeover finds the slot free. -/
theorem step_exclusive {l : Label κ} {s t : State κ} (h : Exclusive s) (hl : FreeTakeover l s)
    (hstep : Step l s t) : Exclusive t := by
  cases hstep with
  | join k =>
    rintro l i ⟨p, hp, hkey, hown⟩
    refine h l i ⟨p, ?_, hkey, hown⟩
    rcases List.getElem?_append .. ▸ hp with hp
    split_ifs at hp with hlt
    · exact hp
    · have hmem := List.mem_of_getElem? hp
      rw [List.mem_singleton.mp hmem] at hown
      simp at hown
  | @enterFresh _ i p hi hp hk =>
    have hfresh : Exclusive { s with next := s.next + 1 } := h
    refine hfresh.update rfl (fun _ ↦ ⟨_, rfl, rfl, rfl⟩) fun j _ hown ↦ ?_
    exact absurd hown (h.not_ownedBy fun e he ↦ by simp [hk] at he)
  | @enterFree _ i p e hi hp hk hfree =>
    refine h.update rfl (fun _ ↦ ⟨_, rfl, rfl, rfl⟩) fun j _ hown ↦ ?_
    refine absurd hown (h.not_ownedBy fun f hf ↦ ?_)
    rw [hk, Option.some_inj] at hf
    exact hf ▸ hfree
  | @enterBusy _ i p e w hi hp hk hbusy _ =>
    refine h.update rfl (fun hq ↦ by simp at hq) fun j _ hown ↦ ?_
    obtain ⟨f, hf, hacq, howner⟩ := h _ j hown
    rw [hk, Option.some_inj] at hf
    subst hf
    exact ⟨_, rfl, hacq, howner⟩
  | stop hi hp => exact h.setParty (by simp)
  | settle hi hp => exact h.setParty (by simp)
  | quit hi hp => exact h.setParty (by simp)
  | @takeover _ i p e hi hp hk =>
    -- an owner that is still there would have kept the slot acquired
    refine h.update rfl (fun _ ↦ ⟨_, rfl, rfl, rfl⟩) fun j _ hown ↦ ?_
    exact absurd hown (h.not_ownedBy fun f hf ↦ hl p f hi hf)
  | releaseLast hi hp _ _ => exact h.leave hi hp
  | releaseIdle hi hp _ _ _ => exact h.leave hi hp
  | releaseWake hi hp _ _ _ hq =>
    refine (h.leave hi hp).setParty ?_
    exact Phase.wake_ne_owning hq.2.2

/-! ## No lost hand-over -/

/-- If the slot of the key is free and somebody waits for it, a party that will take over has been
woken. -/
def AttendedAt (s : State κ) (k : κ) : Prop :=
  ∀ e, s.slots k = some e → e.acquired = false → (∃ q ∈ s.parties, q.WaitsOn k e.node) →
    ∃ q ∈ s.parties, q.WokenOn k e.node

def Attended (s : State κ) : Prop := ∀ k, AttendedAt s k

/-- The releases that complete the wait of a party whose stop came first only if nobody else waits,
or another wake-up is under way. -/
def UsefulWake : Label κ → State κ → Prop
  | .release _ (some j), s => ∀ q, s.parties[j]? = some q → q.phase = .waiting .stopping →
      (∀ (j' : ℕ) (q' : Party κ), s.parties[j']? = some q' → j' ≠ j → ¬q'.WaitsOn q.key q.node) ∨
        ∃ q' ∈ s.parties, q'.WokenOn q.key q.node
  | _, _ => True

omit [DecidableEq κ] in
theorem attended_initial : Attended (initial κ) := fun _ _ h ↦ by simp [initial] at h

omit [DecidableEq κ] in
/-- A party is replaced that neither starts to wait on the key nor stops being woken. -/
theorem AttendedAt.setParty {s : State κ} {k : κ} (h : AttendedAt s k) {i : ℕ} {p q : Party κ}
    (hi : s.parties[i]? = some p) (hwaits : ∀ n, q.WaitsOn k n → p.WaitsOn k n)
    (hwoken : ∀ n, p.WokenOn k n → q.WokenOn k n) : AttendedAt (s.setParty i q) k := by
  rintro e he hfree ⟨r, hr, hrwaits⟩
  have hbefore : ∃ r ∈ s.parties, r.WaitsOn k e.node := by
    rcases mem_setParty hr with hr | rfl
    · exact ⟨r, hr, hrwaits⟩
    · exact ⟨p, List.mem_of_getElem? hi, hwaits _ hrwaits⟩
  obtain ⟨u, hu, huwoken⟩ := h e he hfree hbefore
  obtain ⟨j, hj⟩ := List.mem_iff_getElem?.mp hu
  by_cases hij : j = i
  · subst hij
    rw [hi, Option.some_inj] at hj
    subst hj
    exact ⟨q, List.mem_of_getElem? (getElem?_setParty_self hi), hwoken _ huwoken⟩
  · exact ⟨u, List.mem_of_getElem? (getElem?_setParty_of_ne hij hj), huwoken⟩

/-- Only the key of the party that moved has to be looked at. -/
theorem Attended.update {s : State κ} (h : Attended s) {i : ℕ} {p q : Party κ} {e? : Option Slot}
    (hi : s.parties[i]? = some p) (hkey : q.key = p.key)
    (hself : AttendedAt ((s.setSlot p.key e?).setParty i q) p.key) :
    Attended ((s.setSlot p.key e?).setParty i q) := by
  intro k
  by_cases hk : k = p.key
  · rw [hk]
    exact hself
  · have hslot : AttendedAt (s.setSlot p.key e?) k := by
      intro e he
      rw [State.setSlot_slots_of_ne _ _ hk] at he
      exact h k e he
    refine hslot.setParty hi (fun n hq ↦ ?_) (fun n hp ↦ ?_)
    · exact absurd (hq.1.symm.trans hkey) hk
    · exact absurd hp.1.symm hk

omit [DecidableEq κ] in
theorem attendedAt_of_acquired {s : State κ} {k : κ}
    (h : ∀ e, s.slots k = some e → e.acquired = true) : AttendedAt s k := by
  intro e he hfree
  rw [h e he] at hfree
  exact Bool.noConfusion hfree

/-- A party moves on that does not own the slot, and the slot stays or becomes acquired. -/
theorem Attended.take {s : State κ} (h : Attended s) {i : ℕ} {p q : Party κ} {e : Slot}
    (hi : s.parties[i]? = some p) (hkey : q.key = p.key) (hacq : e.acquired = true) :
    Attended ((s.setSlot p.key (some e)).setParty i q) := by
  refine h.update hi hkey (attendedAt_of_acquired fun f hf ↦ ?_)
  rw [State.setParty_slots, State.setSlot_slots_self, Option.some_inj] at hf
  exact hf ▸ hacq

omit [DecidableEq κ] in
theorem Attended.setParty {s : State κ} (h : Attended s) {i : ℕ} {p q : Party κ}
    (hi : s.parties[i]? = some p) (hwaits : ∀ k n, q.WaitsOn k n → p.WaitsOn k n)
    (hp : p.phase ≠ .waiting .woken) : Attended (s.setParty i q) := fun k ↦
  (h k).setParty hi (hwaits k) fun _ hwoken ↦ absurd hwoken.2.2 hp

omit [DecidableEq κ] in
/-- The release that wakes a party leaves the slot attended. -/
theorem attendedAt_wake {s : State κ} {i j : ℕ} {p q : Party κ} {n : ℕ}
    (hi : s.parties[i]? = some p) (hp : p.phase = .owning) (hj : s.parties[j]? = some q)
    (hq : q.WaitsOn p.key n) (hl : UsefulWake (.release i (some j)) s) {r : Party κ}
    (hr : r ∈ ((s.setParty i { p with phase := .left }).setParty j
      { q with phase := q.phase.wake }).parties) (hwaits : r.WaitsOn p.key n) :
    ∃ u ∈ ((s.setParty i { p with phase := .left }).setParty j
      { q with phase := q.phase.wake }).parties, u.WokenOn p.key n := by
  have hji : j ≠ i := other_ne hi hp hj hq
  have hj' := getElem?_setParty_of_ne (p := { p with phase := .left }) hji hj
  obtain ⟨hqkey, hqnode, hout⟩ := hq
  have hcases : q.phase = .waiting .suspended ∨ q.phase = .waiting .stopping := by
    cases hphase : q.phase with
    | waiting w => cases w <;> simp_all [Phase.isOutstanding]
    | _ => simp [hphase, Phase.isOutstanding] at hout
  rcases hcases with hphase | hphase
  -- nothing else has completed the wait, so the party is woken
  · refine ⟨_, List.mem_of_getElem? (getElem?_setParty_self hj'), hqkey, hqnode, ?_⟩
    rw [hphase]
    rfl
  -- the stop came first and the party will quit: the promise is another party's to keep
  · rcases hl q hj hphase with hnone | ⟨u, hu, hwoken⟩
    · exfalso
      obtain ⟨m, hm⟩ := List.mem_iff_getElem?.mp hr
      rcases getElem?_setParty hm with ⟨-, rfl⟩ | ⟨hmj, hm⟩
      · have hstill := hwaits.2.2
        rw [Phase.isOutstanding_wake] at hstill
        exact Bool.noConfusion hstill
      · rcases getElem?_setParty hm with ⟨-, rfl⟩ | ⟨-, hm⟩
        · simpa [Phase.isOutstanding] using hwaits.2.2
        · rw [hqkey, hqnode] at hnone
          exact hnone m r hm hmj hwaits
    · rw [hqkey, hqnode] at hwoken
      obtain ⟨m, hm⟩ := List.mem_iff_getElem?.mp hu
      have hmi : m ≠ i := by
        rintro rfl
        rw [hi, Option.some_inj] at hm
        have hphase := hwoken.2.2
        rw [← hm, hp] at hphase
        simp at hphase
      have hmj : m ≠ j := by
        rintro rfl
        rw [hj, Option.some_inj] at hm
        have hphase' := hwoken.2.2
        rw [← hm, hphase] at hphase'
        simp at hphase'
      exact ⟨u, List.mem_of_getElem? (getElem?_setParty_of_ne hmj
        (getElem?_setParty_of_ne hmi hm)), hwoken⟩

/-- **No hand-over is lost**, as long as every release wakes a party that will take over. -/
theorem step_attended {l : Label κ} {s t : State κ} (h : Attended s) (hl : UsefulWake l s)
    (hstep : Step l s t) : Attended t := by
  cases hstep with
  | join k =>
    rintro l e he hfree ⟨q, hq, hwaits⟩
    rcases List.mem_append.mp hq with hq | hq
    · obtain ⟨u, hu, hwoken⟩ := h l e he hfree ⟨q, hq, hwaits⟩
      exact ⟨u, List.mem_append_left _ hu, hwoken⟩
    · rw [List.mem_singleton.mp hq] at hwaits
      simpa [Phase.isOutstanding] using hwaits.2.2
  | enterFresh hi _ _ =>
    have hfresh : Attended { s with next := s.next + 1 } := h
    exact hfresh.take hi rfl rfl
  | enterFree hi _ _ _ => exact h.take hi rfl rfl
  | enterBusy hi _ _ hbusy _ => exact h.take hi rfl hbusy
  | stop hi hp =>
    exact h.setParty hi (fun k n hq ↦ ⟨hq.1, hq.2.1, by rw [hp]; rfl⟩) (by simp [hp])
  | settle hi hp =>
    exact h.setParty hi (fun k n hq ↦ by simpa [Phase.isOutstanding] using hq.2.2) (by simp [hp])
  | quit hi hp =>
    exact h.setParty hi (fun k n hq ↦ by simpa [Phase.isOutstanding] using hq.2.2) (by simp [hp])
  | takeover hi _ _ => exact h.take hi rfl rfl
  | releaseLast hi _ _ _ =>
    refine h.update hi rfl fun f hf ↦ ?_
    rw [State.setParty_slots, State.setSlot_slots_self] at hf
    simp at hf
  | @releaseIdle _ i p e hi hp hk _ hidle =>
    refine h.update hi rfl ?_
    rintro f hf - ⟨r, hr, hwaits⟩
    rw [State.setParty_slots, State.setSlot_slots_self, Option.some_inj] at hf
    subst hf
    rcases mem_setParty hr with hr | rfl
    · exact absurd hwaits (hidle r hr)
    · simpa [Phase.isOutstanding] using hwaits.2.2
  | @releaseWake _ i j p q e hi hp hk hmore hj hq =>
    intro k
    -- both parties that move are on the key of the slot that is released
    by_cases hkey : k = p.key
    · subst hkey
      rintro f hf - ⟨r, hr, hwaits⟩
      rw [State.setParty_slots, State.setParty_slots, State.setSlot_slots_self,
        Option.some_inj] at hf
      subst hf
      exact attendedAt_wake hi hp hj hq hl hr hwaits
    · have hslot : AttendedAt (s.setSlot p.key (some { e with
          interest := e.interest - 1, acquired := false })) k := by
        intro f hf
        rw [State.setSlot_slots_of_ne _ _ hkey] at hf
        exact h k f hf
      have hleft := hslot.setParty (q := { p with phase := .left }) hi
        (fun n hw ↦ absurd hw.1.symm hkey) (fun n hw ↦ absurd hw.1.symm hkey)
      refine hleft.setParty (getElem?_setParty_of_ne (other_ne hi hp hj hq) hj)
        (fun n hw ↦ ?_) (fun n hw ↦ ?_)
      · exact absurd (hw.1.symm.trans hq.1) hkey
      · exact absurd (hw.1.symm.trans hq.1) hkey

end Handover

end BoostConnector
