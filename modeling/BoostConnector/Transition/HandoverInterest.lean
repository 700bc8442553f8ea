import BoostConnector.Transition.Handover

/-!
# The interest in a slot

What the interest of a slot says about the parties inside: always at least their number
(`Counted`), and exactly their number when no party quits its wait (`Exact`).
-/

namespace BoostConnector

namespace Handover

variable {κ : Type*} [DecidableEq κ]

/-! ## Parties after a step -/

omit [DecidableEq κ] in
theorem mem_setParty {s : State κ} {i : ℕ} {p q : Party κ} (h : q ∈ (s.setParty i p).parties) :
    q ∈ s.parties ∨ q = p := List.mem_or_eq_of_mem_set h

omit [DecidableEq κ] in
theorem getElem?_setParty_of_ne {s : State κ} {i j : ℕ} {p q : Party κ} (h : j ≠ i)
    (hj : s.parties[j]? = some q) : (s.setParty i p).parties[j]? = some q := by
  rw [State.setParty_parties, List.getElem?_set_ne (Ne.symm h)]
  exact hj

omit [DecidableEq κ] in
theorem getElem?_setParty_self {s : State κ} {i : ℕ} {p q : Party κ}
    (hi : s.parties[i]? = some p) : (s.setParty i q).parties[i]? = some q := by
  obtain ⟨hlt, -⟩ := List.getElem?_eq_some_iff.mp hi
  rw [State.setParty_parties, List.getElem?_set_self hlt]

omit [DecidableEq κ] in
theorem getElem?_setParty {s : State κ} {i j : ℕ} {p q : Party κ}
    (h : (s.setParty i p).parties[j]? = some q) :
    (j = i ∧ q = p) ∨ (j ≠ i ∧ s.parties[j]? = some q) := by
  rw [State.setParty_parties, List.getElem?_set] at h
  by_cases hij : i = j
  · subst hij
    rw [if_pos rfl] at h
    split_ifs at h with hlt
    exact .inl ⟨rfl, (Option.some_inj.mp h).symm⟩
  · rw [if_neg hij] at h
    exact .inr ⟨Ne.symm hij, h⟩

theorem setParty_held_eq {s : State κ} {i : ℕ} {p q : Party κ} (hi : s.parties[i]? = some p)
    {k : κ} (h : q.Holds k ↔ p.Holds k) : (s.setParty i q).held k = s.held k := by
  have hcount := State.setParty_held (q := q) hi k
  rw [if_congr h rfl rfl] at hcount
  omega

theorem setParty_held_of_ne {s : State κ} {i : ℕ} {p q : Party κ} (hi : s.parties[i]? = some p)
    (hkey : q.key = p.key) {k : κ} (h : k ≠ p.key) : (s.setParty i q).held k = s.held k := by
  refine setParty_held_eq hi ⟨fun hq ↦ ?_, fun hp ↦ ?_⟩
  · exact absurd (hq.1.symm.trans hkey) h
  · exact absurd hp.1.symm h

theorem setParty_held_enter {s : State κ} {i : ℕ} {p q : Party κ} (hi : s.parties[i]? = some p)
    (hp : p.phase = .outside) (hkey : q.key = p.key) (hq : q.phase.isInside = true) :
    (s.setParty i q).held p.key = s.held p.key + 1 := by
  have hcount := State.setParty_held (q := q) hi p.key
  have hnot : ¬p.Holds p.key := fun h ↦ by simpa [hp, Phase.isInside] using h.2
  rw [if_neg hnot, if_pos ⟨hkey, hq⟩] at hcount
  omega

theorem setParty_held_leave {s : State κ} {i : ℕ} {p q : Party κ} (hi : s.parties[i]? = some p)
    (hp : p.phase.isInside = true) (hq : q.phase = .left) :
    (s.setParty i q).held p.key + 1 = s.held p.key := by
  have hcount := State.setParty_held (q := q) hi p.key
  have hnot : ¬q.Holds p.key := fun h ↦ by simpa [hq, Phase.isInside] using h.2
  rw [if_pos ⟨rfl, hp⟩, if_neg hnot] at hcount
  omega

/-! ## The interest covers the parties inside -/

/-- Every slot's interest covers the parties inside, all of which refer to that very slot, and a key
without a slot has no party inside. -/
structure Counted (s : State κ) : Prop where
  bound : ∀ {k e}, s.slots k = some e → (s.held k : ℤ) ≤ e.interest ∧ 0 < e.interest
  empty : ∀ {k}, s.slots k = none → s.held k = 0
  node : ∀ {k e p}, s.slots k = some e → p ∈ s.parties → p.Holds k → p.node = e.node

theorem Counted.not_holds {s : State κ} (h : Counted s) {k : κ} (hk : s.slots k = none)
    {p : Party κ} (hp : p ∈ s.parties) : ¬p.Holds k := by
  intro hholds
  have hzero := h.empty hk
  rw [State.held, List.countP_eq_zero] at hzero
  exact hzero p hp (decide_eq_true hholds)

theorem counted_initial : Counted (initial κ) :=
  ⟨fun h ↦ by simp [initial] at h, fun _ ↦ rfl, fun h ↦ by simp [initial] at h⟩

/-- A party that moves on inside, or leaves, keeps the count. -/
theorem Counted.setParty {s : State κ} (h : Counted s) {i : ℕ} {p q : Party κ}
    (hi : s.parties[i]? = some p) (hnode : q.node = p.node)
    (hholds : ∀ k, q.Holds k → p.Holds k) : Counted (s.setParty i q) := by
  have hle : ∀ k, (s.setParty i q).held k ≤ s.held k := by
    intro k
    have hcount := State.setParty_held (q := q) hi k
    by_cases hq : q.Holds k
    · rw [if_pos hq, if_pos (hholds k hq)] at hcount
      omega
    · rw [if_neg hq] at hcount
      omega
  refine ⟨fun {k e} hk ↦ ?_, fun {k} hk ↦ ?_, fun {k e r} hk hr hrk ↦ ?_⟩
  · obtain ⟨hbound, hpos⟩ := h.bound hk
    have := hle k
    exact ⟨by omega, hpos⟩
  · have := h.empty hk
    have := hle k
    omega
  · rcases mem_setParty hr with hr | rfl
    · exact h.node hk hr hrk
    · rw [hnode]
      exact h.node hk (List.mem_of_getElem? hi) (hholds k hrk)

/-- A party and the slot of its key change together: only that key has to be looked at. -/
theorem Counted.update {s : State κ} (h : Counted s) {i : ℕ} {p q : Party κ} {e? : Option Slot}
    (hi : s.parties[i]? = some p) (hkey : q.key = p.key)
    (hbound : ∀ e, e? = some e →
      ((s.setParty i q).held p.key : ℤ) ≤ e.interest ∧ 0 < e.interest)
    (hempty : e? = none → (s.setParty i q).held p.key = 0)
    (hnode : ∀ e, e? = some e → (∀ r ∈ s.parties, r.Holds p.key → r.node = e.node) ∧
      (q.Holds p.key → q.node = e.node)) :
    Counted ((s.setSlot p.key e?).setParty i q) := by
  have hheld : ∀ k, ((s.setSlot p.key e?).setParty i q).held k = (s.setParty i q).held k :=
    fun _ ↦ rfl
  refine ⟨fun {k e} he ↦ ?_, fun {k} he ↦ ?_, fun {k e r} he hr hrk ↦ ?_⟩
  · rw [hheld]
    by_cases hk : k = p.key
    · subst hk
      rw [State.setParty_slots, State.setSlot_slots_self] at he
      exact hbound e he
    · rw [State.setParty_slots, State.setSlot_slots_of_ne _ _ hk] at he
      rw [setParty_held_of_ne hi hkey hk]
      exact h.bound he
  · rw [hheld]
    by_cases hk : k = p.key
    · subst hk
      rw [State.setParty_slots, State.setSlot_slots_self] at he
      exact hempty he
    · rw [State.setParty_slots, State.setSlot_slots_of_ne _ _ hk] at he
      rw [setParty_held_of_ne hi hkey hk]
      exact h.empty he
  · by_cases hk : k = p.key
    · subst hk
      rw [State.setParty_slots, State.setSlot_slots_self] at he
      obtain ⟨hothers, hself⟩ := hnode e he
      rcases mem_setParty hr with hr | rfl
      · exact hothers r hr hrk
      · exact hself hrk
    · rw [State.setParty_slots, State.setSlot_slots_of_ne _ _ hk] at he
      rcases mem_setParty hr with hr | rfl
      · exact h.node he hr hrk
      · exact absurd (hrk.1.symm.trans hkey) hk

/-- A party that enters a slot that exists raises its interest by one. -/
theorem Counted.enter {s : State κ} (h : Counted s) {i : ℕ} {p q : Party κ} {e f : Slot}
    (hi : s.parties[i]? = some p) (hp : p.phase = .outside) (hkey : q.key = p.key)
    (hq : q.phase.isInside = true) (hk : s.slots p.key = some e)
    (hf : f.interest = e.interest + 1) (hfnode : f.node = e.node) (hqnode : q.node = e.node) :
    Counted ((s.setSlot p.key (some f)).setParty i q) := by
  have hcount := setParty_held_enter hi hp hkey hq
  obtain ⟨hbound, hpos⟩ := h.bound hk
  refine h.update hi hkey (fun g hg ↦ ?_) (fun hg ↦ by simp at hg) (fun g hg ↦ ?_)
  · rw [Option.some_inj] at hg
    subst hg
    rw [hcount, hf]
    push_cast
    omega
  · rw [Option.some_inj] at hg
    subst hg
    rw [hfnode]
    exact ⟨fun r hr hrk ↦ h.node hk hr hrk, fun _ ↦ hqnode⟩

/-- An owner that leaves lowers the interest of a slot that stays by one. -/
theorem Counted.leave {s : State κ} (h : Counted s) {i : ℕ} {p : Party κ} {e : Slot}
    (hi : s.parties[i]? = some p) (hk : s.slots p.key = some e) (hmore : e.interest - 1 ≠ 0)
    (hcount : (s.setParty i { p with phase := .left }).held p.key + 1 = s.held p.key) :
    Counted ((s.setSlot p.key (some { e with interest := e.interest - 1, acquired := false
      })).setParty i { p with phase := .left }) := by
  obtain ⟨hbound, hpos⟩ := h.bound hk
  refine h.update hi rfl (fun f hf ↦ ?_) (fun hf ↦ by simp at hf) (fun f hf ↦ ?_)
  · rw [Option.some_inj] at hf
    subst hf
    dsimp only
    omega
  · rw [Option.some_inj] at hf
    subst hf
    refine ⟨fun r hr hrk ↦ (h.node hk hr hrk : r.node = e.node), fun hleft ↦ ?_⟩
    simpa [Phase.isInside] using hleft.2

/-- A woken or stopped wait keeps its party inside. -/
theorem Counted.wake {s : State κ} (h : Counted s) {j : ℕ} {q : Party κ}
    (hj : s.parties[j]? = some q) : Counted (s.setParty j { q with phase := q.phase.wake }) := by
  refine h.setParty hj rfl fun k hk ↦ ?_
  obtain ⟨hkey, hinside⟩ := hk
  rw [Phase.isInside_wake] at hinside
  exact ⟨hkey, hinside⟩

omit [DecidableEq κ] in
theorem not_holds_outside (k l : κ) : ¬(⟨k, 0, .outside⟩ : Party κ).Holds l := by
  intro hl
  simpa [Phase.isInside] using hl.2

theorem held_join (s : State κ) (k l : κ) :
    State.held { s with parties := s.parties ++ [⟨k, 0, .outside⟩] } l = s.held l := by
  rw [State.held, List.countP_append, ← State.held, List.countP_singleton,
    if_neg (by simpa using not_holds_outside k l), Nat.add_zero]

theorem counted_join {s : State κ} (h : Counted s) (k : κ) :
    Counted { s with parties := s.parties ++ [⟨k, 0, .outside⟩] } := by
  refine ⟨fun hl ↦ ?_, fun hl ↦ ?_, fun {l e r} hl hr hrl ↦ ?_⟩
  · rw [held_join]
    exact h.bound hl
  · rw [held_join]
    exact h.empty hl
  · rcases List.mem_append.mp hr with hr | hr
    · exact h.node hl hr hrl
    · rw [List.mem_singleton.mp hr] at hrl
      exact absurd hrl (not_holds_outside k l)

omit [DecidableEq κ] in
theorem other_ne {s : State κ} {i j : ℕ} {p q : Party κ} (hi : s.parties[i]? = some p)
    (hp : p.phase = .owning) (hj : s.parties[j]? = some q) {k : κ} {n : ℕ} (hq : q.WaitsOn k n) :
    j ≠ i := by
  rintro rfl
  rw [hi, Option.some_inj] at hj
  obtain ⟨-, -, hout⟩ := hq
  rw [← hj, hp] at hout
  simp [Phase.isOutstanding] at hout

/-- **The interest covers the parties inside**, whatever the steps. -/
theorem step_counted {l : Label κ} {s t : State κ} (h : Counted s) (hstep : Step l s t) :
    Counted t := by
  cases hstep with
  | join k => exact counted_join h k
  | @enterFresh _ i p hi hp hk =>
    -- without a slot nobody is inside, so the party that enters is alone
    have hnone : s.held p.key = 0 := h.empty hk
    have hcount := setParty_held_enter (q := { p with node := s.next, phase := .owning }) hi hp rfl
      rfl
    have hfresh : Counted { s with next := s.next + 1 } := ⟨h.bound, h.empty, h.node⟩
    refine hfresh.update (q := { p with node := s.next, phase := .owning }) hi rfl
      (fun e he ↦ ?_) (fun he ↦ by simp at he) (fun e he ↦ ?_)
    · rw [Option.some_inj] at he
      subst he
      have hheld : (({ s with next := s.next + 1 } : State κ).setParty i
          { p with node := s.next, phase := .owning }).held p.key = s.held p.key + 1 := hcount
      rw [hheld, hnone]
      simp
    · rw [Option.some_inj] at he
      subst he
      exact ⟨fun r hr hrk ↦ absurd hrk (h.not_holds hk hr), fun _ ↦ rfl⟩
  | enterFree hi hp hk _ => exact h.enter hi hp rfl rfl hk rfl rfl rfl
  | enterBusy hi hp hk _ _ => exact h.enter hi hp rfl rfl hk rfl rfl rfl
  | stop hi hp => exact h.setParty hi rfl fun k hk ↦ ⟨hk.1, by rw [hp]; rfl⟩
  | settle hi hp => exact h.setParty hi rfl fun k hk ↦ ⟨hk.1, by rw [hp]; rfl⟩
  | quit hi hp => exact h.setParty hi rfl fun k hk ↦ ⟨hk.1, by rw [hp]; rfl⟩
  | @takeover _ i p e hi hp hk =>
    have hinside : p.Holds p.key := ⟨rfl, by rw [hp]; rfl⟩
    have hcount : (s.setParty i { p with phase := .owning }).held p.key = s.held p.key :=
      setParty_held_eq hi ⟨fun _ ↦ hinside, fun _ ↦ ⟨rfl, rfl⟩⟩
    obtain ⟨hbound, hpos⟩ := h.bound hk
    refine h.update hi rfl (fun f hf ↦ ?_) (fun hf ↦ by simp at hf) (fun f hf ↦ ?_)
    · rw [Option.some_inj] at hf
      subst hf
      rw [hcount]
      exact ⟨hbound, hpos⟩
    · rw [Option.some_inj] at hf
      subst hf
      have hnode : p.node = e.node := h.node hk (List.mem_of_getElem? hi) hinside
      exact ⟨fun r hr hrk ↦ (h.node hk hr hrk : r.node = e.node), fun _ ↦ hnode⟩
  | @releaseLast _ i p e hi hp hk hlast =>
    have hcount := setParty_held_leave (q := { p with phase := .left }) hi (by rw [hp]; rfl) rfl
    obtain ⟨hbound, -⟩ := h.bound hk
    refine h.update hi rfl (fun f hf ↦ by simp at hf) (fun _ ↦ ?_) (fun f hf ↦ by simp at hf)
    -- the last interest covered the owner, so nobody else can be inside
    omega
  | @releaseIdle _ i p e hi hp hk hmore _ =>
    have hcount := setParty_held_leave (q := { p with phase := .left }) hi (by rw [hp]; rfl) rfl
    exact h.leave hi hk hmore hcount
  | @releaseWake _ i j p q e hi hp hk hmore hj hq =>
    have hcount := setParty_held_leave (q := { p with phase := .left }) hi (by rw [hp]; rfl) rfl
    refine (h.leave hi hk hmore hcount).wake ?_
    exact getElem?_setParty_of_ne (other_ne hi hp hj hq) hj

/-! ## The interest is the number of parties inside -/

/-- The interest of every slot is the number of parties inside. -/
def Exact (s : State κ) : Prop := ∀ k e, s.slots k = some e → e.interest = s.held k

theorem exact_initial : Exact (initial κ) := fun _ _ h ↦ by simp [initial] at h

theorem Exact.setParty {s : State κ} (h : Exact s) {i : ℕ} {p q : Party κ}
    (hi : s.parties[i]? = some p) (hholds : ∀ k, q.Holds k ↔ p.Holds k) :
    Exact (s.setParty i q) := by
  intro k e hk
  rw [setParty_held_eq hi (hholds k)]
  exact h k e hk

theorem Exact.update {s : State κ} (h : Exact s) {i : ℕ} {p q : Party κ} {e? : Option Slot}
    (hi : s.parties[i]? = some p) (hkey : q.key = p.key)
    (hself : ∀ e, e? = some e → e.interest = (s.setParty i q).held p.key) :
    Exact ((s.setSlot p.key e?).setParty i q) := by
  intro k e he
  have hheld : ((s.setSlot p.key e?).setParty i q).held k = (s.setParty i q).held k := rfl
  rw [hheld]
  by_cases hk : k = p.key
  · subst hk
    rw [State.setParty_slots, State.setSlot_slots_self] at he
    exact hself e he
  · rw [State.setParty_slots, State.setSlot_slots_of_ne _ _ hk] at he
    rw [setParty_held_of_ne hi hkey hk]
    exact h k e he

theorem Exact.leave {s : State κ} (h : Exact s) {i : ℕ} {p : Party κ} {e : Slot}
    (hi : s.parties[i]? = some p) (hp : p.phase = .owning) (hk : s.slots p.key = some e) :
    Exact ((s.setSlot p.key (some { e with interest := e.interest - 1, acquired := false
      })).setParty i { p with phase := .left }) := by
  have hcount := setParty_held_leave (q := { p with phase := .left }) hi (by rw [hp]; rfl) rfl
  refine h.update hi rfl fun f hf ↦ ?_
  rw [Option.some_inj] at hf
  subst hf
  have hexact := h _ e hk
  dsimp only
  omega

/-- A party that enters a slot that exists raises its interest by one. -/
theorem Exact.enter {s : State κ} (h : Exact s) {i : ℕ} {p q : Party κ} {e f : Slot}
    (hi : s.parties[i]? = some p) (hp : p.phase = .outside) (hkey : q.key = p.key)
    (hq : q.phase.isInside = true) (hk : s.slots p.key = some e)
    (hf : f.interest = e.interest + 1) : Exact ((s.setSlot p.key (some f)).setParty i q) := by
  have hcount := setParty_held_enter hi hp hkey hq
  refine h.update hi hkey fun g hg ↦ ?_
  rw [Option.some_inj] at hg
  subst hg
  rw [hf, h _ e hk, hcount]
  push_cast
  rfl

/-- **The interest is the number of parties inside**, as long as nobody quits its wait. -/
theorem step_exact {l : Label κ} {s t : State κ} (hc : Counted s) (h : Exact s)
    (hl : ∀ i, l ≠ .quit i) (hstep : Step l s t) : Exact t := by
  cases hstep with
  | join k =>
    intro l e hl
    rw [held_join]
    exact h l e hl
  | @enterFresh _ i p hi hp hk =>
    have hcount := setParty_held_enter (q := { p with node := s.next, phase := .owning }) hi hp rfl
      rfl
    have hnone : s.held p.key = 0 := hc.empty hk
    have hfresh : Exact { s with next := s.next + 1 } := fun l e hl ↦ h l e hl
    refine hfresh.update (q := { p with node := s.next, phase := .owning }) hi rfl fun e he ↦ ?_
    rw [Option.some_inj] at he
    subst he
    have hheld : (({ s with next := s.next + 1 } : State κ).setParty i
        { p with node := s.next, phase := .owning }).held p.key = s.held p.key + 1 := hcount
    rw [hheld, hnone]
    rfl
  | enterFree hi hp hk _ => exact h.enter hi hp rfl rfl hk rfl
  | enterBusy hi hp hk _ _ => exact h.enter hi hp rfl rfl hk rfl
  | stop hi hp =>
    exact h.setParty hi fun k ↦ ⟨fun hq ↦ ⟨hq.1, by rw [hp]; rfl⟩, fun hq ↦ ⟨hq.1, rfl⟩⟩
  | settle hi hp =>
    exact h.setParty hi fun k ↦ ⟨fun hq ↦ ⟨hq.1, by rw [hp]; rfl⟩, fun hq ↦ ⟨hq.1, rfl⟩⟩
  -- `quit` is the one step that leaves the parties inside and not the interest
  | quit _ _ => exact absurd rfl (hl _)
  | @takeover _ i p e hi hp hk =>
    have hheld : (s.setParty i { p with phase := .owning }).held p.key = s.held p.key :=
      setParty_held_eq hi ⟨fun _ ↦ ⟨rfl, by rw [hp]; rfl⟩, fun _ ↦ ⟨rfl, rfl⟩⟩
    refine h.update hi rfl fun f hf ↦ ?_
    rw [Option.some_inj] at hf
    subst hf
    rw [hheld]
    exact h _ e hk
  | releaseLast hi _ _ _ => exact h.update hi rfl fun f hf ↦ by simp at hf
  | releaseIdle hi hp hk _ _ => exact h.leave hi hp hk
  | releaseWake hi hp hk _ hj hq =>
    refine (h.leave hi hp hk).setParty (getElem?_setParty_of_ne (other_ne hi hp hj hq) hj) ?_
    intro k
    rw [Party.Holds, Phase.isInside_wake]
    rfl

end Handover

end BoostConnector
