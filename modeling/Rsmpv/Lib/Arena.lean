import Mathlib.Data.Finset.Card
import Mathlib.Data.Finset.Range
import Mathlib.Data.List.Forall2
import Mathlib.Data.List.Induction
import Mathlib.Data.Nat.Notation
import Mathlib.Order.Monotone.Basic

/-!
# Arenas

An arena is a list of allocations of one kind; an address is a position in it. Allocating
appends, so an arena only ever grows at its end (`<+:`) and what was read at an address is
read there ever after. The module also has the reading loop: `mapM` over the positions of
an array, in a reader that can fail. What is read through addresses that lead to further
addresses is nested no deeper than there are addresses (`good_of_good`).
-/

namespace Arena

variable {α β γ : Type*}

/-- What is read at an address stays there when the arena grows. -/
theorem read_of_grown {l l' : List α} {i : ℕ} {a : α} (hread : l[i]? = some a)
    (hgrown : l <+: l') : l'[i]? = some a := by
  obtain ⟨hlt, rfl⟩ := List.getElem?_eq_some_iff.mp hread
  exact List.prefix_iff_getElem?.mp hgrown i hlt

/-- An allocation is read back at the address it was given. -/
theorem read_allocated (l : List α) (a : α) : (l ++ [a])[l.length]? = some a := by
  simp

/-- What is read after an allocation was there before, or is the allocation. -/
theorem read_append_singleton {l : List α} {a b : α} {i : ℕ} (h : (l ++ [a])[i]? = some b) :
    l[i]? = some b ∨ i = l.length ∧ a = b := by
  obtain hlt | hge := Nat.lt_or_ge i l.length
  · exact .inl (by rwa [List.getElem?_append_left hlt] at h)
  · have hi : i < (l ++ [a]).length := (List.getElem?_eq_some_iff.mp h).1
    rw [List.length_append, List.length_singleton] at hi
    obtain rfl : i = l.length := by omega
    exact .inr ⟨rfl, by simpa using h⟩

section Loops

variable {f g : ℕ → Option β}

/-- A reading loop that finds the entries of `l` one by one returns `l`. -/
theorem mapM_range {l : List β} (h : ∀ i a, l[i]? = some a → f i = some a) :
    (List.range l.length).mapM f = some l := by
  induction l using List.reverseRecOn with
  | nil => rfl
  | append_singleton l a ih =>
      have hinit : (List.range l.length).mapM f = some l := by
        refine ih fun i b hb => h i b ?_
        exact read_of_grown hb (List.prefix_append l [a])
      have hlast : f l.length = some a := h l.length a (read_allocated l a)
      rw [List.length_append, List.length_singleton, List.range_succ, List.mapM_append,
        hinit]
      simp [hlast]

/-- A reading loop that returned `l` found its entries one by one. -/
theorem read_of_mapM_range {n : ℕ} {l : List β} (h : (List.range n).mapM f = some l) :
    l.length = n ∧ ∀ i b, l[i]? = some b → f i = some b := by
  induction n generalizing l with
  | zero =>
      obtain rfl : l = [] := by simpa using h.symm
      exact ⟨rfl, fun i b hb => by simp at hb⟩
  | succ n ih =>
      rw [List.range_succ, List.mapM_append] at h
      obtain ⟨l', hl', h'⟩ := Option.bind_eq_some_iff.mp h
      obtain ⟨last, hlast, hl⟩ := Option.bind_eq_some_iff.mp h'
      obtain ⟨b, hb, hlast'⟩ := Option.bind_eq_some_iff.mp hlast
      obtain rfl : [b] = last := Option.some.inj hlast'
      obtain rfl := Option.some.inj hl
      obtain ⟨rfl, hread⟩ := ih hl'
      refine ⟨by simp, fun i c hc => ?_⟩
      obtain hold | ⟨rfl, rfl⟩ := read_append_singleton hc
      · exact hread i c hold
      · exact hb

/-- A reading loop that returned returns the same when every read that succeeded still
does. -/
theorem mapM_mono {is : List ℕ} {l : List β} (hfg : ∀ i b, f i = some b → g i = some b)
    (h : is.mapM f = some l) : is.mapM g = some l := by
  induction is generalizing l with
  | nil => simpa using h
  | cons i is ih =>
      rw [List.mapM_cons] at h ⊢
      obtain ⟨b, hb, h'⟩ := Option.bind_eq_some_iff.mp h
      obtain ⟨bs, hbs, hl⟩ := Option.bind_eq_some_iff.mp h'
      rw [hfg i b hb]
      simp only [Option.bind_eq_bind, Option.bind_some]
      rw [ih hbs]
      exact hl

end Loops

/-- Entries found one by one make a list. -/
theorem exists_list {R : ℕ → β → Prop} {n : ℕ} (h : ∀ i < n, ∃ b, R i b) :
    ∃ l : List β, l.length = n ∧ ∀ i b, l[i]? = some b → R i b := by
  induction n with
  | zero => exact ⟨[], rfl, fun i b hb => by simp at hb⟩
  | succ n ih =>
      obtain ⟨l, rfl, hl⟩ := ih fun i hi => h i (by omega)
      obtain ⟨b, hb⟩ := h l.length (by omega)
      refine ⟨l ++ [b], by simp, fun i c hc => ?_⟩
      obtain hold | ⟨rfl, rfl⟩ := read_append_singleton hc
      · exact hl i c hold
      · exact hb

/-- Finitely many bounds have a common one. -/
theorem exists_bound {Q : ℕ → ℕ → Prop} {n : ℕ} (hmono : ∀ i f f', f ≤ f' → Q i f → Q i f')
    (h : ∀ i < n, ∃ f, Q i f) : ∃ f, ∀ i < n, Q i f := by
  induction n with
  | zero => exact ⟨0, fun i hi => absurd hi (Nat.not_lt_zero i)⟩
  | succ n ih =>
      obtain ⟨f, hf⟩ := ih fun i hi => h i (by omega)
      obtain ⟨f', hf'⟩ := h n (by omega)
      refine ⟨max f f', fun i hi => ?_⟩
      obtain hlt | rfl := Nat.lt_succ_iff_lt_or_eq.mp hi
      · exact hmono i f _ (le_max_left f f') (hf i hlt)
      · exact hmono i f' _ (le_max_right f f') hf'

/-- Position by position, related lists have related entries. -/
theorem read_of_forall₂ {R : α → β → Prop} {l : List α} {l' : List β}
    (h : List.Forall₂ R l l') {i : ℕ} {b : β} (hb : l'[i]? = some b) :
    ∃ a, l[i]? = some a ∧ R a b := by
  induction h generalizing i with
  | nil => simp at hb
  | @cons a b' l l' hab _ ih =>
      cases i with
      | zero =>
          obtain rfl : b' = b := by simpa using hb
          exact ⟨a, rfl, hab⟩
      | succ i => exact ih (by simpa using hb)

/-! ### Depth -/

section Depth

variable {good : ℕ → ℕ → Prop} {n : ℕ}

open Classical in
/-- The addresses good at depth `f`. -/
noncomputable def goodSet (good : ℕ → ℕ → Prop) (n f : ℕ) : Finset ℕ :=
  (Finset.range n).filter (good f)

/-- Being good is bounded by the number of addresses. Depth by depth more of `n` addresses
become good, and a depth that adds none is followed by none that does, so depth `n` has
them all. -/
theorem good_of_good {f a : ℕ} (hmono : ∀ f a, good f a → good (f + 1) a)
    (hrange : ∀ f a, good f a → a < n)
    (hstep : ∀ f, (∀ a, good (f + 1) a → good f a) → ∀ a, good (f + 2) a → good (f + 1) a)
    (h : good f a) : good n a := by
  have hmem : ∀ f a, a ∈ goodSet good n f ↔ good f a := by
    intro f a
    simp only [goodSet, Finset.mem_filter, Finset.mem_range, and_iff_right_iff_imp]
    exact hrange f a
  have hsub : ∀ f, goodSet good n f ⊆ goodSet good n (f + 1) := by
    intro f a ha
    exact (hmem _ _).mpr (hmono f a ((hmem _ _).mp ha))
  have hgrow : Monotone (goodSet good n) := monotone_nat_of_le_succ hsub
  have hstable : (goodSet good n (max f n)).card = (goodSet good n n).card := by
    refine Nat.stabilises_of_monotone (f := fun f => (goodSet good n f).card)
      (fun f f' hle => Finset.card_le_card (hgrow hle)) (fun f => ?_) (fun f hcard => ?_)
      (le_max_right f n)
    · have hbound : goodSet good n f ⊆ Finset.range n := fun a ha =>
        Finset.mem_range.mpr (hrange f a ((hmem f a).mp ha))
      simpa using Finset.card_le_card hbound
    · have heq := Finset.eq_of_subset_of_card_le (hsub f) hcard.ge
      have hback : ∀ a, good (f + 1) a → good f a := by
        intro a ha
        rw [← hmem, heq, hmem]
        exact ha
      refine congrArg Finset.card (Finset.Subset.antisymm (hsub _) fun a ha => ?_)
      exact (hmem _ _).mpr (hstep f hback a ((hmem _ _).mp ha))
  have heq := Finset.eq_of_subset_of_card_le (hgrow (le_max_right f n)) hstable.le
  have hbig : a ∈ goodSet good n (max f n) := hgrow (le_max_left f n) ((hmem _ _).mpr h)
  rw [← heq] at hbig
  exact (hmem _ _).mp hbig

end Depth
end Arena
