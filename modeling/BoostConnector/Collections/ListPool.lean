import Mathlib.Algebra.GroupWithZero.Nat
import Mathlib.Data.List.Forall2

/-!
# Pools kept as lists

A pool is a list of entries that are numbered in the order of their creation: an entry is read by
its number, overwritten in its place and created at the end.

The first part says what is in a pool after such an operation, how many entries of a kind, and which
of them it leaves as they were. The second one says that the operations respect `List.Forall₂`, so
that two runs can keep their pools related entry by entry.
-/

namespace BoostConnector

namespace Collections

variable {α β : Type*} {l : List α}

/-! ## Reading a pool -/

theorem getElem?_concat_eq_some {a b : α} {i : ℕ} (h : (l ++ [a])[i]? = some b) :
    l[i]? = some b ∨ i = l.length ∧ b = a := by
  rcases Nat.lt_or_ge i l.length with hlt | hge
  · rw [List.getElem?_append_left hlt] at h
    exact .inl h
  · rw [List.getElem?_append_right hge] at h
    obtain ⟨hi, rfl⟩ := List.getElem?_eq_some_iff.mp h
    rw [List.length_singleton] at hi
    exact .inr ⟨by omega, List.getElem_singleton hi⟩

theorem getElem?_set_eq_some {a b : α} {i j : ℕ} (h : (l.set i a)[j]? = some b) :
    j ≠ i ∧ l[j]? = some b ∨ j = i ∧ b = a := by
  rw [List.getElem?_set] at h
  split_ifs at h with hij hlt
  · exact .inr ⟨hij.symm, (Option.some_inj.mp h).symm⟩
  · exact .inl ⟨fun heq ↦ hij heq.symm, h⟩

/-- Overwriting an entry takes it off the count and puts the new one on it. -/
theorem countP_set_add {p : α → Bool} {i : ℕ} {a : α} (h : l[i]? = some a) (b : α) :
    (l.set i b).countP p + (if p a then 1 else 0) = l.countP p + (if p b then 1 else 0) := by
  obtain ⟨hlt, hget⟩ := List.getElem?_eq_some_iff.mp h
  have hle : (if p a then 1 else 0) ≤ l.countP p := by
    split_ifs with ha
    · exact List.countP_pos_iff.mpr ⟨a, List.mem_of_getElem? h, ha⟩
    · exact Nat.zero_le _
  rw [List.countP_set hlt, hget]
  omega

/-- What lies before an entry and behind it. -/
theorem exists_split {i : ℕ} {a : α} (h : l[i]? = some a) :
    ∃ before after, l = before ++ a :: after ∧ ∀ b, l.set i b = before ++ b :: after := by
  obtain ⟨hlt, rfl⟩ := List.getElem?_eq_some_iff.mp h
  refine ⟨l.take i, l.drop (i + 1), ?_, fun b ↦ ?_⟩
  · rw [← List.drop_eq_getElem_cons, List.take_append_drop]
  · rw [List.set_eq_take_append_cons_drop, if_pos hlt]

/-- Overwriting an entry takes its share off the total and puts the new one on it. -/
theorem sum_map_set_add {f : α → ℕ} {i : ℕ} {a : α} (h : l[i]? = some a) (b : α) :
    ((l.set i b).map f).sum + f a = (l.map f).sum + f b := by
  obtain ⟨before, after, rfl, hset⟩ := exists_split h
  rw [hset]
  simp only [List.map_append, List.map_cons, List.sum_append, List.sum_cons]
  omega

/-- An entry is overwritten by one that counts for the same. -/
theorem filterMap_set_of_eq {β : Type*} {f : α → Option β} {i : ℕ} {a b : α} (h : l[i]? = some a)
    (hf : f b = f a) : (l.set i b).filterMap f = l.filterMap f := by
  obtain ⟨before, after, rfl, hset⟩ := exists_split h
  rw [hset, List.filterMap_append, List.filterMap_append, List.filterMap_cons, List.filterMap_cons,
    hf]

/-- An entry is overwritten, and no other one counts. -/
theorem filterMap_set_of_alone {β : Type*} {f : α → Option β} {i : ℕ} {a : α} (h : l[i]? = some a)
    (halone : l.filterMap f = (f a).toList) (b : α) : (l.set i b).filterMap f = (f b).toList := by
  obtain ⟨before, after, rfl, hset⟩ := exists_split h
  have hcons (c : α) : (before ++ c :: after).filterMap f =
      before.filterMap f ++ ((f c).toList ++ after.filterMap f) := by
    rw [List.filterMap_append, List.filterMap_cons]
    rcases f c with _ | x <;> rfl
  have hlength := congrArg List.length (halone.symm.trans (hcons a))
  simp only [List.length_append] at hlength
  have hbefore : before.filterMap f = [] := List.eq_nil_of_length_eq_zero (by omega)
  have hafter : after.filterMap f = [] := List.eq_nil_of_length_eq_zero (by omega)
  rw [hset, hcons, hbefore, hafter, List.nil_append, List.append_nil]

/-- The entries but for those `touched` are as they were, and those after them are new. -/
def SameBut (touched : List ℕ) (l l' : List α) : Prop :=
  ∀ i a, l[i]? = some a → i ∉ touched → l'[i]? = some a

theorem sameBut_refl (touched : List ℕ) (l : List α) : SameBut touched l l :=
  fun _ _ h _ ↦ h

theorem SameBut.mono {touched touched' : List ℕ} {l' : List α} (h : SameBut touched l l')
    (hsub : touched ⊆ touched') : SameBut touched' l l' :=
  fun i a hi hnot ↦ h i a hi fun hmem ↦ hnot (hsub hmem)

theorem SameBut.trans {touched : List ℕ} {l' l'' : List α} (h : SameBut touched l l')
    (h' : SameBut touched l' l'') : SameBut touched l l'' :=
  fun i a hi hnot ↦ h' i a (h i a hi hnot) hnot

theorem sameBut_append (touched : List ℕ) (l more : List α) : SameBut touched l (l ++ more) := by
  intro i a h _
  rw [List.getElem?_append_left (List.getElem?_eq_some_iff.mp h).1]
  exact h

theorem sameBut_set (i : ℕ) (a : α) (l : List α) : SameBut [i] l (l.set i a) := by
  intro j b h hj
  have hne : i ≠ j := fun heq ↦ hj (List.mem_singleton.mpr heq.symm)
  rw [List.getElem?_set_ne hne]
  exact h

/-! ## Related pools -/

variable {R : α → β → Prop} {l' : List β}

theorem forall₂_getElem?_rel (h : List.Forall₂ R l l') (i : ℕ) : Option.Rel R l[i]? l'[i]? := by
  induction h generalizing i with
  | nil => exact .none
  | cons hab hrest ih =>
    cases i with
    | zero => exact .some hab
    | succ i => exact ih i

theorem forall₂_getElem? (h : List.Forall₂ R l l') {i : ℕ} {a : α} (ha : l[i]? = some a) :
    ∃ b, l'[i]? = some b ∧ R a b := by
  have hrel := forall₂_getElem?_rel h i
  rw [ha] at hrel
  generalize l'[i]? = b? at hrel
  cases hrel with
  | some hab => exact ⟨_, rfl, hab⟩

theorem exists_of_forall₂ (h : List.Forall₂ R l l') {a : α} (ha : a ∈ l) : ∃ b ∈ l', R a b := by
  obtain ⟨i, hi⟩ := List.mem_iff_getElem?.mp ha
  obtain ⟨b, hb, hab⟩ := forall₂_getElem? h hi
  exact ⟨b, List.mem_of_getElem? hb, hab⟩

theorem forall₂_concat (h : List.Forall₂ R l l') {a : α} {b : β} (hab : R a b) :
    List.Forall₂ R (l ++ [a]) (l' ++ [b]) :=
  List.rel_append h (.cons hab .nil)

theorem forall₂_set (h : List.Forall₂ R l l') (i : ℕ) {a : α} {b : β} (hab : R a b) :
    List.Forall₂ R (l.set i a) (l'.set i b) := by
  induction h generalizing i with
  | nil => exact .nil
  | cons hcd hrest ih =>
    cases i with
    | zero => exact .cons hab hrest
    | succ i => exact .cons hcd (ih i)

/-- Where the relation changes, it changes for the entries that are there. -/
theorem forall₂_imp_of_getElem? {S : α → β → Prop} (h : List.Forall₂ R l l')
    (hS : ∀ (i : ℕ) (a : α) (b : β), l[i]? = some a → R a b → S a b) : List.Forall₂ S l l' := by
  induction h with
  | nil => exact .nil
  | cons hab hrest ih =>
    exact .cons (hS 0 _ _ rfl hab) (ih fun i a b ha ↦ hS (i + 1) a b ha)

theorem forall₂_imp_of_mem {S : α → β → Prop} (h : List.Forall₂ R l l')
    (hS : ∀ a ∈ l, ∀ b ∈ l', R a b → S a b) : List.Forall₂ S l l' := by
  induction h with
  | nil => exact .nil
  | cons hab hrest ih =>
    refine .cons (hS _ List.mem_cons_self _ List.mem_cons_self hab) (ih fun a ha b hb ↦ ?_)
    exact hS a (List.mem_cons_of_mem _ ha) b (List.mem_cons_of_mem _ hb)

theorem map_eq_of_forall₂ {γ : Type*} {f : α → γ} {g : β → γ} (h : List.Forall₂ R l l')
    (hR : ∀ a b, a ∈ l → R a b → f a = g b) : l.map f = l'.map g := by
  induction h with
  | nil => rfl
  | cons hab hrest ih =>
    rw [List.map_cons, List.map_cons, hR _ _ List.mem_cons_self hab,
      ih fun a b ha ↦ hR a b (List.mem_cons_of_mem _ ha)]

theorem forall₂_of_map_eq {γ : Type*} {f : α → γ} {g : β → γ} (h : l.map f = l'.map g) :
    List.Forall₂ (fun a b ↦ f a = g b) l l' := by
  rw [← List.forall₂_eq_eq_eq, List.forall₂_map_left_iff, List.forall₂_map_right_iff] at h
  exact h

theorem length_flatMap_eq {γ : Type*} {f : α → List γ} {g : β → List γ}
    (h : List.Forall₂ (fun a b ↦ (f a).length = (g b).length) l l') :
    (l.flatMap f).length = (l'.flatMap g).length := by
  rw [List.length_flatMap, List.length_flatMap]
  exact congrArg List.sum (map_eq_of_forall₂ h fun _ _ _ hab ↦ hab)

/-- Two concatenations of blocks of pairwise the same lengths agree only if their blocks do. -/
theorem forall₂_of_flatMap_eq {γ : Type*} {f : α → List γ} {g : β → List γ}
    (hlen : List.Forall₂ (fun a b ↦ (f a).length = (g b).length) l l')
    (h : l.flatMap f = l'.flatMap g) : List.Forall₂ (fun a b ↦ f a = g b) l l' := by
  induction hlen with
  | nil => exact .nil
  | cons hab hrest ih =>
    rw [List.flatMap_cons, List.flatMap_cons] at h
    obtain ⟨hhead, htail⟩ := List.append_inj h hab
    exact .cons hhead (ih htail)

/-- One side overwrites the counterpart of `a`, and the other entries stay related. -/
theorem forall₂_set_right {S : α → β → Prop} (h : List.Forall₂ R l l') {i : ℕ} {a : α} {b : β}
    (ha : l[i]? = some a) (hab : S a b)
    (hS : ∀ (j : ℕ) (c : α) (d : β), j ≠ i → l[j]? = some c → R c d → S c d) :
    List.Forall₂ S l (l'.set i b) := by
  induction h generalizing i with
  | nil => exact absurd ha (by simp)
  | cons hcd hrest ih =>
    cases i with
    | zero =>
      obtain rfl := Option.some_inj.mp ha
      refine .cons hab (forall₂_imp_of_getElem? hrest fun j c d hc ↦ ?_)
      exact hS (j + 1) c d (by omega) hc
    | succ i =>
      refine .cons (hS 0 _ _ (by omega) rfl hcd) (ih ha fun j c d hj hc ↦ ?_)
      exact hS (j + 1) c d (by omega) hc

end Collections

end BoostConnector
