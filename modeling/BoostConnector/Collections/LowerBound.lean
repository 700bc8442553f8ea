import Mathlib.Data.List.TakeWhile
import Mathlib.Data.List.InsertIdx
import Mathlib.Order.Lattice

/-!
# Binary search

`std::lower_bound` on a sequence: the position of the first element that does not come before the
value looked for. The search halves a window of the sequence and looks at its middle element only,
so that the result means something only if the elements that come before the value stand in front
of the others (`lowerBound_append`). A sequence sorted by the comparison is split that way.
-/

namespace BoostConnector

namespace Collections

variable {α : Type*}

/-- The loop of `std::lower_bound`, on the `len` elements from `first` on. -/
def lowerBoundFrom (before : α → Bool) (l : List α) (first len : ℕ) : ℕ :=
  if len = 0 then first
  else
    let half := len / 2
    let middle := first + half
    if l[middle]?.any before then lowerBoundFrom before l (middle + 1) (len - half - 1)
    else lowerBoundFrom before l first half
termination_by len
decreasing_by all_goals omega

def lowerBound (before : α → Bool) (l : List α) : ℕ := lowerBoundFrom before l 0 l.length

/-- The window always holds the border between the two parts. -/
theorem lowerBoundFrom_eq {before : α → Bool} {l : List α} {border : ℕ}
    (hborder : ∀ i a, l[i]? = some a → (before a = true ↔ i < border)) {first len : ℕ}
    (hfirst : first ≤ border) (hlast : border ≤ first + len) (hlen : first + len ≤ l.length) :
    lowerBoundFrom before l first len = border := by
  induction len using Nat.strong_induction_on generalizing first with
  | _ len ih =>
    rw [lowerBoundFrom]
    by_cases hempty : len = 0
    · rw [if_pos hempty]
      omega
    · rw [if_neg hempty]
      have hmiddle : first + len / 2 < l.length := by omega
      have hside := hborder _ _ (List.getElem?_eq_getElem hmiddle)
      simp only [List.getElem?_eq_getElem hmiddle, Option.any_some]
      by_cases hbefore : before l[first + len / 2] = true
      · rw [if_pos hbefore]
        have hlt := hside.mp hbefore
        apply ih <;> omega
      · rw [if_neg hbefore]
        have hge := mt hside.mpr hbefore
        apply ih <;> omega

/-- **The search finds the border** of a sequence that is split by the comparison. -/
theorem lowerBound_append {before : α → Bool} {l₁ l₂ : List α} (h₁ : ∀ a ∈ l₁, before a = true)
    (h₂ : ∀ a ∈ l₂, before a = false) : lowerBound before (l₁ ++ l₂) = l₁.length := by
  apply lowerBoundFrom_eq
  · intro i a ha
    by_cases hi : i < l₁.length
    · rw [List.getElem?_append_left hi] at ha
      exact iff_of_true (h₁ a (List.mem_of_getElem? ha)) hi
    · rw [List.getElem?_append_right (not_lt.mp hi)] at ha
      exact iff_of_false (by simp [h₂ a (List.mem_of_getElem? ha)]) hi
  · exact Nat.zero_le _
  · simp
  · simp

theorem insertIdx_border (l₁ l₂ : List α) (a : α) :
    (l₁ ++ l₂).insertIdx l₁.length a = l₁ ++ a :: l₂ := by
  induction l₁ with
  | nil => rfl
  | cons b l₁ ih =>
    rw [List.cons_append, List.length_cons, List.insertIdx_succ_cons, ih, List.cons_append]

example : lowerBound (fun n ↦ decide (n > 5)) [9, 7, 5, 2] = 2 := by decide +kernel

end Collections

end BoostConnector
