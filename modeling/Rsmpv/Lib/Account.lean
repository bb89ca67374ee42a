import Mathlib.Data.List.Nodup

/-!
# Accounts of Names

A counter hands out the names `0, 1, …`, and every name is used up once. `Accounted next
held spent` is the conservation law: each name below `next` is held or spent, in one place
and once. The rules keep the law while a name is made (`mint`) and while some are used up
(`spend`); the consequences are read off the balance of a single name.
-/

/-- Every name below `next` is held or spent, and none of them twice. -/
def Accounted (next : ℕ) (held spent : List ℕ) : Prop :=
  ∀ n, held.count n + spent.count n = if n < next then 1 else 0

/-- What a counter has handed out, one name later. -/
theorem handedOut_succ (next n : ℕ) :
    (if n < next + 1 then 1 else 0) = (if n < next then 1 else 0) + [next].count n := by
  rw [List.count_singleton]
  by_cases h : n = next
  · subst h
    simp
  · have hiff : n < next + 1 ↔ n < next := by omega
    simp [hiff, Ne.symm h]

namespace Accounted

variable {next n : ℕ} {held held' spent l : List ℕ}

/-- Before anything was handed out. -/
theorem empty : Accounted 0 [] [] := by
  intro n
  simp

/-! ### The rules -/

/-- In what order the names are held does not matter. -/
theorem perm (h : Accounted next held spent) (hp : held.Perm held') :
    Accounted next held' spent := by
  intro n
  rw [← hp.count_eq n]
  exact h n

/-- A new name is held. -/
theorem mint (h : Accounted next held spent) : Accounted (next + 1) (next :: held) spent := by
  intro n
  have hn := h n
  rw [List.count_cons]
  rcases Nat.lt_trichotomy n next with hlt | rfl | hgt
  · have hne : (next == n) = false := by simp; omega
    simp only [hne, hlt, Nat.lt_succ_of_lt hlt, if_true, Bool.false_eq_true, if_false] at hn ⊢
    omega
  · simp at hn ⊢
    omega
  · have hne : (next == n) = false := by simp; omega
    have h1 : ¬ n < next := by omega
    have h2 : ¬ n < next + 1 := by omega
    simp only [hne, h1, h2, Bool.false_eq_true, if_false] at hn ⊢
    omega

/-- Held names are used up. -/
theorem spend (h : Accounted next (l ++ held) spent) : Accounted next held (spent ++ l) := by
  intro n
  have hn := h n
  rw [List.count_append] at hn ⊢
  omega

/-! ### The balance of one name -/

/-- What is held was handed out. -/
theorem lt_of_held (h : Accounted next held spent) (hn : n ∈ held) : n < next := by
  have hb := h n
  have hpos := List.count_pos_iff.mpr hn
  by_contra hlt
  rw [if_neg hlt] at hb
  omega

/-- What was spent was handed out. -/
theorem lt_of_spent (h : Accounted next held spent) (hn : n ∈ spent) : n < next := by
  have hb := h n
  have hpos := List.count_pos_iff.mpr hn
  by_contra hlt
  rw [if_neg hlt] at hb
  omega

/-- What is held has not been used up. -/
theorem not_spent (h : Accounted next held spent) (hn : n ∈ held) : n ∉ spent := by
  intro hs
  have hb := h n
  have h1 := List.count_pos_iff.mpr hn
  have h2 := List.count_pos_iff.mpr hs
  split at hb <;> omega

/-- Nothing is held twice. -/
theorem nodup (h : Accounted next held spent) : held.Nodup := by
  rw [List.nodup_iff_count_le_one]
  intro n
  have hb := h n
  split at hb <;> omega

/-- Nothing was spent twice. -/
theorem nodup_spent (h : Accounted next held spent) : spent.Nodup := by
  rw [List.nodup_iff_count_le_one]
  intro n
  have hb := h n
  split at hb <;> omega

/-- A name that was handed out has been used up exactly once, unless it is held. -/
theorem count_spent (h : Accounted next held spent) (hn : n < next) :
    spent.count n = if n ∈ held then 0 else 1 := by
  have hb := h n
  rw [if_pos hn] at hb
  by_cases hmem : n ∈ held
  · have hpos := List.count_pos_iff.mpr hmem
    rw [if_pos hmem]
    omega
  · have hzero := List.count_eq_zero.mpr hmem
    rw [if_neg hmem]
    omega

end Accounted
