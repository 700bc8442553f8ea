import Mathlib.Data.List.Forall2
import Mathlib.Data.List.TakeWhile
import Mathlib.Logic.Function.Basic

/-!
# Regular expressions with captures

The backtracking semantics of ECMAScript for the expressions that are built from character classes:
a matcher is a function of what comes after it, an alternative tries its first branch first, and
optional and repeated classes take as much as they can and give it back if the rest does not match.

Matching and captures come apart. Which texts match at all is a question of the language alone
(`fullMatch_isSome_iff`); what the groups capture depends on the order of the attempts. A greedy
choice that succeeds is never revised, so where the rest of an expression matches whatever
is left, a repeated class takes exactly the longest run of its characters (`many_eq_of_isSome`).
-/

namespace BoostConnector

namespace Text

variable {α : Type*}

/-- What the numbered groups have captured; a group that took no part holds the empty string. -/
abbrev Captures (α : Type*) := ℕ → List α

/-- What comes after an expression: it is given the rest of the input and the captures so far. -/
abbrev Continuation (α : Type*) := List α → Captures α → Option (Captures α)

inductive Regex (α : Type*) where
  | empty
  | one (p : α → Bool)
  /-- An optional character, taken if possible. -/
  | opt (p : α → Bool)
  /-- Any number of characters, as many as possible. -/
  | many (p : α → Bool)
  | seq (r s : Regex α)
  | alt (r s : Regex α)
  | group (n : ℕ) (r : Regex α)

namespace Regex

/-- One or more characters. -/
def oneOrMore (p : α → Bool) : Regex α := seq (one p) (many p)

/-- The characters of a literal. -/
def literal (ps : List (α → Bool)) : Regex α := ps.foldr (fun p r ↦ seq (one p) r) empty

/-- All the characters a repeated class can take, and then fewer and fewer. -/
def manyThen (p : α → Bool) (k : Continuation α) : Continuation α
  | [], m => k [] m
  | c :: s, m => if p c then (manyThen p k s m).or (k (c :: s) m) else k (c :: s) m

/-- The expression, and then `k`. -/
def andThen : Regex α → Continuation α → Continuation α
  | empty, k => k
  | one p, k => fun s m ↦ match s with
    | [] => none
    | c :: s => if p c then k s m else none
  | opt p, k => fun s m ↦ match s with
    | [] => k [] m
    | c :: s => if p c then (k s m).or (k (c :: s) m) else k (c :: s) m
  | many p, k => manyThen p k
  | seq r s, k => r.andThen (s.andThen k)
  | alt r s, k => fun input m ↦ (r.andThen k input m).or (s.andThen k input m)
  | group n r, k => fun input m ↦
    r.andThen (fun rest m ↦
      k rest (Function.update m n (input.take (input.length - rest.length)))) input m

/-- `regex_match`: the expression matches the whole input. -/
def fullMatch (r : Regex α) (input : List α) : Option (Captures α) :=
  r.andThen (fun rest m ↦ if rest.isEmpty then some m else none) input fun _ ↦ []

variable {p : α → Bool} {k : Continuation α} {s : List α} {m : Captures α}

/-! ## Greedy choices that succeed -/

/-- What an optional character leaves of the input. -/
def skip (p : α → Bool) : List α → List α
  | [] => []
  | c :: s => if p c then s else c :: s

theorem opt_eq_of_isSome (hk : (k (skip p s) m).isSome = true) :
    (opt p).andThen k s m = k (skip p s) m := by
  cases s with
  | nil => rfl
  | cons c s =>
    simp only [andThen, skip] at hk ⊢
    split_ifs at hk ⊢
    · obtain ⟨result, hresult⟩ := Option.isSome_iff_exists.mp hk
      rw [hresult, Option.some_or]
    · rfl

/-- **A repeated class takes all it can** if the rest of the expression matches what is left. -/
theorem many_eq_of_isSome (hk : (k (s.dropWhile p) m).isSome = true) :
    (many p).andThen k s m = k (s.dropWhile p) m := by
  change manyThen p k s m = _
  induction s with
  | nil => rfl
  | cons c s ih =>
    rw [manyThen]
    split_ifs with hc
    · rw [List.dropWhile_cons_of_pos hc] at hk ⊢
      obtain ⟨result, hresult⟩ := Option.isSome_iff_exists.mp hk
      rw [ih hk, hresult, Option.some_or]
    · rw [List.dropWhile_cons_of_neg hc]

theorem oneOrMore_eq_of_isSome {c : α} (hc : p c = true)
    (hk : (k (s.dropWhile p) m).isSome = true) :
    (oneOrMore p).andThen k (c :: s) m = k (s.dropWhile p) m := by
  simp only [oneOrMore, andThen, hc, if_true]
  exact many_eq_of_isSome hk

/-! ## The language -/

/-- The texts an expression stands for, whichever way they are matched. -/
def Matches : Regex α → List α → Prop
  | empty, s => s = []
  | one p, s => ∃ c, p c = true ∧ s = [c]
  | opt p, s => s = [] ∨ ∃ c, p c = true ∧ s = [c]
  | many p, s => ∀ c ∈ s, p c = true
  | seq r t, s => ∃ s₁ s₂, s = s₁ ++ s₂ ∧ r.Matches s₁ ∧ t.Matches s₂
  | alt r t, s => r.Matches s ∨ t.Matches s
  | group _ r, s => r.Matches s

variable {r : Regex α} {result : Captures α}

theorem one_andThen_cons (c : α) :
    (one p).andThen k (c :: s) m = if p c then k s m else none := rfl

theorem opt_andThen_cons (c : α) :
    (opt p).andThen k (c :: s) m = if p c then (k s m).or (k (c :: s) m) else k (c :: s) m := rfl

theorem exists_of_manyThen (h : manyThen p k s m = some result) :
    ∃ taken rest, s = taken ++ rest ∧ (∀ c ∈ taken, p c = true) ∧ k rest m = some result := by
  induction s with
  | nil => exact ⟨[], [], rfl, List.forall_mem_nil _, h⟩
  | cons c s ih =>
    have hstop (hk : k (c :: s) m = some result) : ∃ taken rest, c :: s = taken ++ rest ∧
        (∀ d ∈ taken, p d = true) ∧ k rest m = some result :=
      ⟨[], c :: s, rfl, List.forall_mem_nil _, hk⟩
    rw [manyThen] at h
    split_ifs at h with hc
    · rcases Option.or_eq_some_iff.mp h with h | ⟨-, h⟩
      · obtain ⟨taken, rest, rfl, htaken, hk⟩ := ih h
        exact ⟨c :: taken, rest, rfl, List.forall_mem_cons.mpr ⟨hc, htaken⟩, hk⟩
      · exact hstop h
    · exact hstop h

/-- **A match is in the language.** -/
theorem exists_of_andThen (h : r.andThen k s m = some result) :
    ∃ taken rest m', s = taken ++ rest ∧ r.Matches taken ∧ k rest m' = some result := by
  induction r generalizing k s m with
  | empty => exact ⟨[], s, m, rfl, rfl, h⟩
  | one p =>
    cases s with
    | nil => exact absurd h (by simp [andThen])
    | cons c s =>
      rw [one_andThen_cons] at h
      split_ifs at h with hc
      exact ⟨[c], s, m, rfl, ⟨c, hc, rfl⟩, h⟩
  | opt p =>
    cases s with
    | nil => exact ⟨[], [], m, rfl, .inl rfl, h⟩
    | cons c s =>
      rw [opt_andThen_cons] at h
      split_ifs at h with hc
      · rcases Option.or_eq_some_iff.mp h with h | ⟨-, h⟩
        · exact ⟨[c], s, m, rfl, .inr ⟨c, hc, rfl⟩, h⟩
        · exact ⟨[], c :: s, m, rfl, .inl rfl, h⟩
      · exact ⟨[], c :: s, m, rfl, .inl rfl, h⟩
  | many p =>
    obtain ⟨taken, rest, hs, htaken, hk⟩ := exists_of_manyThen h
    exact ⟨taken, rest, m, hs, htaken, hk⟩
  | seq r t ihr iht =>
    obtain ⟨s₁, rest, m', rfl, hr, h⟩ := ihr h
    obtain ⟨s₂, rest, m'', rfl, ht, h⟩ := iht h
    exact ⟨s₁ ++ s₂, rest, m'', (List.append_assoc _ _ _).symm, ⟨s₁, s₂, rfl, hr, ht⟩, h⟩
  | alt r t ihr iht =>
    rcases Option.or_eq_some_iff.mp h with h | ⟨-, h⟩
    · obtain ⟨taken, rest, m', hs, hr, hk⟩ := ihr h
      exact ⟨taken, rest, m', hs, .inl hr, hk⟩
    · obtain ⟨taken, rest, m', hs, ht, hk⟩ := iht h
      exact ⟨taken, rest, m', hs, .inr ht, hk⟩
  | group n r ih =>
    obtain ⟨taken, rest, m', hs, hr, hk⟩ := ih h
    exact ⟨taken, rest, _, hs, hr, hk⟩

theorem manyThen_isSome {taken rest : List α} (h : ∀ c ∈ taken, p c = true)
    (hk : (k rest m).isSome = true) : (manyThen p k (taken ++ rest) m).isSome = true := by
  induction taken with
  | nil =>
    cases rest with
    | nil => exact hk
    | cons c rest =>
      rw [List.nil_append, manyThen]
      split_ifs
      · rw [Option.isSome_or, hk, Bool.or_true]
      · exact hk
  | cons c taken ih =>
    obtain ⟨hc, htaken⟩ := List.forall_mem_cons.mp h
    rw [List.cons_append, manyThen, if_pos hc, Option.isSome_or, ih htaken, Bool.true_or]

/-- **A text of the language is matched**, if what comes after it accepts the rest of the input
whatever the captures. -/
theorem andThen_isSome {taken rest : List α} (h : r.Matches taken)
    (hk : ∀ m, (k rest m).isSome = true) : (r.andThen k (taken ++ rest) m).isSome = true := by
  induction r generalizing k taken rest m with
  | empty =>
    obtain rfl := h
    exact hk m
  | one p =>
    obtain ⟨c, hc, rfl⟩ := h
    rw [List.singleton_append, one_andThen_cons, if_pos hc]
    exact hk m
  | opt p =>
    rcases h with rfl | ⟨c, hc, rfl⟩
    · cases rest with
      | nil => exact hk m
      | cons c rest =>
        rw [List.nil_append, opt_andThen_cons]
        split_ifs
        · rw [Option.isSome_or, hk, Bool.or_true]
        · exact hk m
    · rw [List.singleton_append, opt_andThen_cons, if_pos hc, Option.isSome_or, hk, Bool.true_or]
  | many p => exact manyThen_isSome h (hk m)
  | seq r t ihr iht =>
    obtain ⟨s₁, s₂, rfl, hr, ht⟩ := h
    rw [List.append_assoc]
    exact ihr hr fun m' ↦ iht ht hk
  | alt r t ihr iht =>
    rw [andThen, Option.isSome_or, Bool.or_eq_true]
    rcases h with h | h
    · exact .inl (ihr h hk)
    · exact .inr (iht h hk)
  | group n r ih => exact ih h fun m' ↦ hk _

theorem fullMatch_isSome_iff : (r.fullMatch s).isSome = true ↔ r.Matches s := by
  constructor
  · intro h
    obtain ⟨result, hresult⟩ := Option.isSome_iff_exists.mp h
    obtain ⟨taken, rest, m', rfl, hr, hend⟩ := exists_of_andThen hresult
    cases rest with
    | nil => rwa [List.append_nil]
    | cons c rest => exact absurd hend (by simp)
  · intro h
    have hmatch : (r.fullMatch (s ++ [])).isSome = true := andThen_isSome h fun m ↦ rfl
    rwa [List.append_nil] at hmatch

theorem matches_literal_iff {ps : List (α → Bool)} :
    (literal ps).Matches s ↔ List.Forall₂ (fun p c ↦ p c = true) ps s := by
  induction ps generalizing s with
  | nil => rw [List.forall₂_nil_left_iff, literal, List.foldr_nil, Matches]
  | cons p ps ih =>
    rw [List.forall₂_cons_left_iff]
    constructor
    · rintro ⟨_, s₂, rfl, ⟨c, hc, rfl⟩, hps⟩
      exact ⟨c, s₂, hc, ih.mp hps, rfl⟩
    · rintro ⟨c, s₂, hc, hps, rfl⟩
      exact ⟨[c], s₂, rfl, ⟨c, hc, rfl⟩, ih.mpr hps⟩

/-- All classes of the expression hold characters of `q` only. -/
def Within (q : α → Bool) : Regex α → Prop
  | empty => True
  | one p | opt p | many p => ∀ c, p c = true → q c = true
  | seq r t | alt r t => r.Within q ∧ t.Within q
  | group _ r => r.Within q

theorem Matches.forall_mem {q : α → Bool} (h : r.Matches s) (hr : r.Within q) :
    ∀ c ∈ s, q c = true := by
  induction r generalizing s with
  | empty =>
    obtain rfl := h
    exact List.forall_mem_nil _
  | one p =>
    obtain ⟨c, hc, rfl⟩ := h
    exact List.forall_mem_singleton.mpr (hr c hc)
  | opt p =>
    rcases h with rfl | ⟨c, hc, rfl⟩
    · exact List.forall_mem_nil _
    · exact List.forall_mem_singleton.mpr (hr c hc)
  | many p => exact fun c hc ↦ hr c (h c hc)
  | seq r t ihr iht =>
    obtain ⟨s₁, s₂, rfl, h₁, h₂⟩ := h
    exact List.forall_mem_append.mpr ⟨ihr h₁ hr.1, iht h₂ hr.2⟩
  | alt r t ihr iht =>
    rcases h with h | h
    · exact ihr h hr.1
    · exact iht h hr.2
  | group n r ih => exact ih h hr

/-! ## Captures -/

/-- A group around an expression that leaves `rest` of the input captures what is in front. -/
theorem group_eq {n : ℕ} {r : Regex α} (rest : List α)
    (hr : ∀ k' : Continuation α, (k' rest m).isSome = true → r.andThen k' s m = k' rest m)
    (hk : (k rest (Function.update m n (s.take (s.length - rest.length)))).isSome = true) :
    (group n r).andThen k s m = k rest (Function.update m n (s.take (s.length - rest.length))) :=
  hr _ hk

theorem take_length_sub (taken rest : List α) :
    (taken ++ rest).take ((taken ++ rest).length - rest.length) = taken := by
  rw [List.length_append, Nat.add_sub_cancel, List.take_left]

theorem take_length_sub_dropWhile (p : α → Bool) (s : List α) :
    s.take (s.length - (s.dropWhile p).length) = s.takeWhile p := by
  have h := take_length_sub (s.takeWhile p) (s.dropWhile p)
  rwa [List.takeWhile_append_dropWhile] at h

/-- An optional character is skipped if the rest of the expression then matches. -/
theorem opt_andThen {result : Captures α} (h : k (skip p s) m = some result) :
    (opt p).andThen k s m = some result := by
  have hk : (k (skip p s) m).isSome = true := by rw [h, Option.isSome_some]
  rw [opt_eq_of_isSome hk, h]

/-- A captured class takes the longest run if the rest of the expression then matches. -/
theorem group_many_andThen {n : ℕ} {result : Captures α}
    (h : k (s.dropWhile p) (Function.update m n (s.takeWhile p)) = some result) :
    (group n (many p)).andThen k s m = some result := by
  rw [← take_length_sub_dropWhile] at h
  rw [group_eq (s.dropWhile p) fun _ hk ↦ many_eq_of_isSome hk]
  · exact h
  · rw [h, Option.isSome_some]

end Regex

/-! ## The longest run of a class -/

variable {p : α → Bool} {run rest : List α}

theorem takeWhile_append_of_stop (hrun : ∀ c ∈ run, p c = true)
    (hrest : ∀ c ∈ rest.head?, p c = false) : (run ++ rest).takeWhile p = run := by
  rw [List.takeWhile_append_of_pos hrun]
  cases rest with
  | nil => rw [List.takeWhile_nil, List.append_nil]
  | cons c rest =>
    rw [List.takeWhile_cons_of_neg (by simp [hrest c rfl]), List.append_nil]

theorem dropWhile_append_of_stop (hrun : ∀ c ∈ run, p c = true)
    (hrest : ∀ c ∈ rest.head?, p c = false) : (run ++ rest).dropWhile p = rest := by
  rw [List.dropWhile_append_of_pos hrun]
  cases rest with
  | nil => rfl
  | cons c rest => rw [List.dropWhile_cons_of_neg (by simp [hrest c rfl])]

end Text

end BoostConnector
