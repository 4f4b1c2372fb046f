/-!
# Sets of code points given as ranges

* `inRanges n table` — membership of `n` in an ascending table of closed ranges.
* `isAscending` — the order the tables keep, which is what lets the search stop early.
* `inRanges_iff` — on an ascending table the search finds `n` exactly when a range holds it.
-/

namespace RSource

/-- Whether a range of the table holds `n`. The ranges ascend, so the search stops at the first
one that starts above `n`. -/
def inRanges (n : Nat) : List (Nat × Nat) → Bool
  | [] => false
  | (lo, hi) :: rest => if n < lo then false else if n ≤ hi then true else inRanges n rest

/-- The ranges follow one another upwards, and none starts below `least`. -/
def isAscending (least : Nat) : List (Nat × Nat) → Bool
  | [] => true
  | (lo, hi) :: rest => decide (least ≤ lo) && decide (lo ≤ hi) && isAscending (hi + 1) rest

/-- Every range of an ascending table starts at `least` or above. -/
theorem le_of_mem_of_isAscending {least : Nat} {table : List (Nat × Nat)}
    (h : isAscending least table = true) : ∀ r ∈ table, least ≤ r.1 := by
  induction table generalizing least with
  | nil => intro r hr; cases hr
  | cons p rest ih =>
      obtain ⟨lo, hi⟩ := p
      simp only [isAscending, Bool.and_eq_true, decide_eq_true_eq] at h
      intro r hr
      cases hr with
      | head => exact h.1.1
      | tail _ hr =>
          have := ih h.2 r hr
          omega

/-- On an ascending table the search finds `n` exactly when a range holds it. -/
theorem inRanges_iff {least : Nat} {table : List (Nat × Nat)} (h : isAscending least table = true)
    (n : Nat) : inRanges n table = true ↔ ∃ r ∈ table, r.1 ≤ n ∧ n ≤ r.2 := by
  induction table generalizing least with
  | nil => simp [inRanges]
  | cons p rest ih =>
      obtain ⟨lo, hi⟩ := p
      simp only [isAscending, Bool.and_eq_true, decide_eq_true_eq] at h
      have later := le_of_mem_of_isAscending h.2
      rw [inRanges]
      split
      · rename_i below
        simp only [Bool.false_eq_true, List.mem_cons, exists_eq_or_imp, false_iff, not_or,
          not_exists, not_and]
        refine ⟨fun _ => by omega, fun r hr hle => ?_⟩
        have := later r hr
        omega
      · split
        · simp only [List.mem_cons, exists_eq_or_imp, true_iff]
          exact Or.inl ⟨by omega, by omega⟩
        · rw [ih h.2]
          simp only [List.mem_cons, exists_eq_or_imp]
          constructor
          · exact Or.inr
          · rintro (⟨_, _⟩ | hr)
            · omega
            · exact hr

end RSource
