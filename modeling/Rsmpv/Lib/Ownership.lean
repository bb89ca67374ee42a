import Mathlib.Algebra.BigOperators.Group.Finset.Piecewise
import Mathlib.Algebra.GroupWithZero.Nat
import Rsmpv.Lib.ThreadPool

/-!
# Programs that Own Memory

A `Proc` is a procedure over a heap it shares with others: it allocates, reads and frees
cells, and asks an environment, which may look at the memory a question points to and may
answer with cells of its own. Any number of threads run such procedures over one heap, one
operation at a time, and an address may be used again once its cell was freed.

`Safe` is what has to be shown of one procedure on its own, over the cells it owns: it reads
and frees only these, a deallocator fits its cell, and what a question points to is there.
The rule of the module (`reachable_sound`) is that this is enough: when every procedure
is safe over the empty heap, then in every interleaving the heap is divided among the running
threads, so nobody faults and nobody disturbs anybody else, whatever the others do. What a
procedure returns, and which questions it asked for it, is as shown of it alone.

## Main results

* `Safe.bind`, `Safe.mono`: the sequence rule and the rule of consequence.
* `safe_alloc`, `safe_read`, `safe_free`, `safe_ask`: one rule for each operation, and
  `safe_scoped` for a cell that is dropped at the end of its function.
* `Move.divided`: one step keeps the division of the heap; `reachable_sound`: every run
  does.
* `Sound.not_faulty`, `Sound.no_leak`: what is read off the division.
* `exists_return`: a thread that runs alone comes to the end of its procedure.
* `exchanges_run`: the exchanges, in their order, are a run of the environment.
-/

namespace Ownership

/-! ### Heaps -/

/-- The contents of the allocated addresses. -/
abbrev Heap (C : Type) := ℕ → Option C

namespace Heap

variable {C : Type} {h h' δ : Heap C} {p p' : ℕ} {c : C}

/-- The heap with nothing in it. -/
def empty : Heap C := fun _ => none

/-- The heap with one cell. -/
def single (p : ℕ) (c : C) : Heap C := fun p' => if p' = p then some c else none

/-- The cells of both; no address is allocated in both where this is used. -/
def add (h h' : Heap C) : Heap C := fun p => (h p).or (h' p)

/-- The heap without the cell at one address. -/
def erase (h : Heap C) (p : ℕ) : Heap C := fun p' => if p' = p then none else h p'

/-- The cells of a list. -/
def ofList (l : List (ℕ × C)) : Heap C := fun p => l.lookup p

/-- No address of `h` is allocated in `h'`. -/
def Apart (h h' : Heap C) : Prop := ∀ p, (h p).isSome → h' p = none

/-- Nothing is allocated from some address on. -/
def Bounded (h : Heap C) : Prop := ∃ n, ∀ p, n ≤ p → h p = none

/-- `h'` has all the cells of `h`. -/
def Sub (h h' : Heap C) : Prop := ∀ p c, h p = some c → h' p = some c

/-- A cell is at its address. -/
theorem single_self (p : ℕ) (c : C) : single p c p = some c := if_pos rfl

/-- No other address has it. -/
theorem single_of_ne (hne : p' ≠ p) : single p c p' = none := if_neg hne

/-- What was erased is gone. -/
theorem erase_self (h : Heap C) (p : ℕ) : h.erase p p = none := if_pos rfl

/-- Everything else is still there. -/
theorem erase_of_ne (hne : p' ≠ p) : h.erase p p' = h p' := if_neg hne

/-- In a sum the first heap is read first. -/
theorem add_of_some (hc : h p = some c) : h.add h' p = some c := by
  simp [add, hc]

/-- Where the first heap has nothing, the second is read. -/
theorem add_of_none (hn : h p = none) : h.add h' p = h' p := by
  simp [add, hn]

/-- What is read of a sum is in one of the two. -/
theorem add_eq_some (ha : h.add h' p = some c) : h p = some c ∨ h p = none ∧ h' p = some c := by
  cases hc : h p with
  | none => exact .inr ⟨rfl, by rw [← ha, add_of_none hc]⟩
  | some c' => exact .inl (by rw [← ha, add_of_some hc])

/-- The empty heap adds nothing. -/
@[simp] theorem add_empty (h : Heap C) : h.add empty = h := by
  funext p
  simp [add, empty]

/-- Heaps that are apart can be added in either order. -/
theorem add_comm (hh : h.Apart h') : h.add h' = h'.add h := by
  funext p
  cases hc : h p with
  | none => cases hc' : h' p <;> simp [add, hc, hc']
  | some c => rw [add_of_some hc, add_of_none (hh p (by simp [hc])), hc]

/-- The empty heap is apart from every other. -/
theorem apart_empty (h : Heap C) : h.Apart empty := fun _ _ => rfl

/-- Being apart is symmetric. -/
theorem Apart.symm (hh : h.Apart h') : h'.Apart h := by
  intro p hp
  cases hc : h p with
  | none => rfl
  | some c => rw [hh p (by simp [hc])] at hp; cases hp

/-- A heap is apart from a cell at a free address. -/
theorem apart_single (hn : h p = none) (c : C) : h.Apart (single p c) := by
  intro p' hp'
  refine single_of_ne fun hp => ?_
  rw [hp, hn] at hp'
  cases hp'

/-- The address of a cell that a heap is apart from is free in it. -/
theorem Apart.eq_none (hh : h.Apart (single p c)) : h p = none := by
  cases hc : h p with
  | none => rfl
  | some c' =>
      have hsingle := hh p (by simp [hc])
      rw [single_self] at hsingle
      cases hsingle

/-- A part of a heap is apart from what the whole is apart from. -/
theorem Apart.of_sub (hh : h'.Apart δ) (hsub : h.Sub h') : h.Apart δ := by
  intro p hp
  obtain ⟨c, hc⟩ := Option.isSome_iff_exists.mp hp
  exact hh p (by simp [hsub p c hc])

/-- The cells that were added, without the ones that were there. -/
theorem add_of_apart (hh : h.Apart δ) (hc : δ p = some c) : h.add δ p = some c := by
  rw [add_comm hh, add_of_some hc]

/-- Erasing leaves a part. -/
theorem erase_sub (h : Heap C) (p : ℕ) : (h.erase p).Sub h := by
  intro p' c hc
  by_cases hp : p' = p
  · rw [hp, erase_self] at hc
    cases hc
  · rw [erase_of_ne hp] at hc
    exact hc

/-- A heap is part of each sum that begins with it. -/
theorem sub_add (h h' : Heap C) : h.Sub (h.add h') := fun _ _ hc => add_of_some hc

/-- A heap made from a list has the addresses of the list. -/
theorem ofList_eq_none {l : List (ℕ × C)} : ofList l p = none ↔ p ∉ l.map Prod.fst := by
  rw [ofList, List.lookup_eq_none_iff]
  simp only [List.mem_map, not_exists, not_and]
  constructor
  · intro h e he hp
    have hne := h e he
    rw [hp] at hne
    simp at hne
  · intro h e he
    exact bne_iff_ne.mpr fun hp => h e he hp.symm

/-- One more cell at the end of the list. -/
theorem ofList_snoc (l : List (ℕ × C)) (p : ℕ) (c : C) :
    ofList (l ++ [(p, c)]) = (ofList l).add (single p c) := by
  funext p'
  rw [ofList, List.lookup_append, add, ofList]
  by_cases hpp : p' = p
  · rw [hpp, single_self]
    simp
  · rw [single_of_ne hpp]
    simp [List.lookup_cons, beq_false_of_ne hpp]

/-- The first cell of a list that was added is taken away again. -/
theorem erase_add_ofList {l : List (ℕ × C)} (hn : h p = none) (hp : p ∉ l.map Prod.fst) :
    (h.add (ofList ((p, c) :: l))).erase p = h.add (ofList l) := by
  funext p'
  by_cases hpp : p' = p
  · rw [hpp, erase_self, add_of_none hn, ofList_eq_none.mpr hp]
  · rw [erase_of_ne hpp, add, add, ofList, ofList, List.lookup_cons, beq_false_of_ne hpp]

/-- A cell that was added is taken away again. -/
theorem erase_add_single (hn : h p = none) (c : C) : (h.add (single p c)).erase p = h := by
  funext p'
  by_cases hp : p' = p
  · rw [hp, erase_self, hn]
  · rw [erase_of_ne hp, add, single_of_ne hp, Option.or_none]

/-- The empty heap takes up no addresses. -/
theorem bounded_empty : (empty : Heap C).Bounded := ⟨0, fun _ _ => rfl⟩

/-- One cell takes up one address. -/
theorem bounded_single (p : ℕ) (c : C) : (single p c).Bounded :=
  ⟨p + 1, fun p' hp' => single_of_ne (by omega)⟩

/-- Two bounded heaps have a bounded sum. -/
theorem Bounded.add (hh : h.Bounded) (hh' : h'.Bounded) : (h.add h').Bounded := by
  obtain ⟨n, hn⟩ := hh
  obtain ⟨n', hn'⟩ := hh'
  exact ⟨max n n', fun p hp => by
    rw [add_of_none (hn p (by omega)), hn' p (by omega)]⟩

/-- A bounded heap stays bounded when a cell is erased. -/
theorem Bounded.erase (hh : h.Bounded) (p : ℕ) : (h.erase p).Bounded := by
  obtain ⟨n, hn⟩ := hh
  refine ⟨n, fun p' hp' => ?_⟩
  by_cases hp : p' = p
  · rw [hp, erase_self]
  · rw [erase_of_ne hp, hn p' hp']

end Heap

/-! ### Procedures -/

/-- A procedure that returns an `α`: it asks questions `Q`, which are answered by `R`, of an
environment, and its heap has cells `C`, which are freed by deallocators `K`. `fault` is
undefined behaviour. -/
inductive Proc (Q R C K α : Type) where
  | ret (a : α)
  | alloc (c : C) (next : ℕ → Proc Q R C K α)
  | read (p : ℕ) (next : C → Proc Q R C K α)
  | free (k : K) (p : ℕ) (next : Proc Q R C K α)
  | ask (q : Q) (next : R → Proc Q R C K α)
  | fault

namespace Proc

variable {Q R C K α β : Type}

/-- One procedure after the other. -/
def bind : Proc Q R C K α → (α → Proc Q R C K β) → Proc Q R C K β
  | ret a, f => f a
  | alloc c next, f => alloc c fun p => (next p).bind f
  | read p next, f => read p fun c => (next c).bind f
  | free k p next, f => free k p (next.bind f)
  | ask q next, f => ask q fun r => (next r).bind f
  | fault, _ => fault

instance : Monad (Proc Q R C K) where
  pure := ret
  bind := bind

end Proc

/-- What passes between a procedure and its environment. A question is a pointer structure:
in a heap, the environment reads it as a `V`, and it needs the memory for nothing else.
Its answer is a `W`, conveyed by an `R` and cells it hands over. -/
structure Interface (Q R C K V W : Type) where
  /-- What a question reads as, if it can be read. -/
  view : Heap C → Q → Option V
  view_mono : ∀ {h h' : Heap C} {q : Q} {v : V}, h.Sub h' → view h q = some v →
    view h' q = some v
  /-- The answers the environment may give. -/
  allowed : V → W → Prop
  conveys : W → R → Heap C → Prop
  /-- The cells a deallocator may be called with. -/
  releases : K → C → Prop

section

variable {Q R C K V W α β : Type}

/-- **Safety** of a procedure that owns the cells of `h` and has had the exchanges `l`: it
stays within these cells, and ends as `post` says, with what it then owns. -/
def Safe (I : Interface Q R C K V W) :
    Proc Q R C K α → List (V × W) → Heap C → (α → List (V × W) → Heap C → Prop) → Prop
  | .ret a, l, h, post => post a l h
  | .alloc c next, l, h, post =>
    ∀ p, h p = none → Safe I (next p) l (h.add (.single p c)) post
  | .read p next, l, h, post => ∃ c, h p = some c ∧ Safe I (next c) l h post
  | .free k p next, l, h, post =>
    ∃ c, h p = some c ∧ I.releases k c ∧ Safe I next l (h.erase p) post
  | .ask q next, l, h, post => ∃ v, I.view h q = some v ∧
    ∀ w r δ, I.allowed v w → I.conveys w r δ → h.Apart δ →
      Safe I (next r) (l ++ [(v, w)]) (h.add δ) post
  | .fault, _, _, _ => False

variable {I : Interface Q R C K V W} {m : Proc Q R C K α} {f : α → Proc Q R C K β}
  {l : List (V × W)} {h : Heap C}

/-- The rule of consequence. -/
theorem Safe.mono {post post' : α → List (V × W) → Heap C → Prop} (hm : Safe I m l h post)
    (himp : ∀ a l h, post a l h → post' a l h) : Safe I m l h post' := by
  induction m generalizing l h with
  | ret a => exact himp a l h hm
  | alloc c next ih => exact fun p hp => ih p (hm p hp)
  | read p next ih =>
      obtain ⟨c, hc, hrest⟩ := hm
      exact ⟨c, hc, ih c hrest⟩
  | free k p next ih =>
      obtain ⟨c, hc, hk, hrest⟩ := hm
      exact ⟨c, hc, hk, ih hrest⟩
  | ask q next ih =>
      obtain ⟨v, hv, hrest⟩ := hm
      exact ⟨v, hv, fun w r δ hw hr hδ => ih r (hrest w r δ hw hr hδ)⟩
  | fault => exact hm

/-- The sequence rule. -/
theorem Safe.bind {mid : α → List (V × W) → Heap C → Prop}
    {post : β → List (V × W) → Heap C → Prop} (hm : Safe I m l h mid)
    (hf : ∀ a l h, mid a l h → Safe I (f a) l h post) : Safe I (m >>= f) l h post := by
  change Safe I (m.bind f) l h post
  induction m generalizing l h with
  | ret a => exact hf a l h hm
  | alloc c next ih => exact fun p hp => ih p (hm p hp)
  | read p next ih =>
      obtain ⟨c, hc, hrest⟩ := hm
      exact ⟨c, hc, ih c hrest⟩
  | free k p next ih =>
      obtain ⟨c, hc, hk, hrest⟩ := hm
      exact ⟨c, hc, hk, ih hrest⟩
  | ask q next ih =>
      obtain ⟨v, hv, hrest⟩ := hm
      exact ⟨v, hv, fun w r δ hw hr hδ => ih r (hrest w r δ hw hr hδ)⟩
  | fault => exact hm

/-- An allocation, at whichever address it is. -/
theorem safe_alloc {c : C} {f : ℕ → Proc Q R C K α} {post : α → List (V × W) → Heap C → Prop}
    (hf : ∀ p, h p = none → Safe I (f p) l (h.add (.single p c)) post) :
    Safe I (.alloc c .ret >>= f) l h post :=
  fun p hp => hf p hp

/-- A cell that is read. -/
theorem safe_read {p : ℕ} {c : C} {next : C → Proc Q R C K α}
    {post : α → List (V × W) → Heap C → Prop} (hc : h p = some c)
    (hrest : Safe I (next c) l h post) : Safe I (.read p next) l h post :=
  ⟨c, hc, hrest⟩

/-- A cell that is freed, by a deallocator that fits it. -/
theorem safe_free {k : K} {p : ℕ} {c : C} {f : Unit → Proc Q R C K α}
    {post : α → List (V × W) → Heap C → Prop} (hc : h p = some c) (hk : I.releases k c)
    (hrest : Safe I (f ()) l (h.erase p) post) : Safe I (.free k p (.ret ()) >>= f) l h post :=
  ⟨c, hc, hk, hrest⟩

/-- A cell for the time of a procedure that gives back what it acquires. -/
theorem safe_scoped {c : C} {k : K} (hk : I.releases k c) {body : ℕ → Proc Q R C K α}
    {P : α → List (V × W) → Prop}
    (hbody : ∀ p, h p = none → Safe I (body p) l (h.add (.single p c))
      fun a l' h' => h' = h.add (.single p c) ∧ P a l') :
    Safe I (do
      let p ← .alloc c .ret
      let a ← body p
      .free k p (.ret ())
      pure a) l h fun a l' h' => h' = h ∧ P a l' := by
  refine safe_alloc fun p hp => Safe.bind (hbody p hp) fun a l' h' ha => ?_
  obtain ⟨rfl, ha⟩ := ha
  have hcell : h.add (.single p c) p = some c := by
    rw [Heap.add_of_none hp, Heap.single_self]
  exact safe_free hcell hk ⟨Heap.erase_add_single hp c, ha⟩

/-- A question that can be read, whatever is answered. -/
theorem safe_ask {q : Q} {v : V} {f : R → Proc Q R C K α}
    {post : α → List (V × W) → Heap C → Prop} (hv : I.view h q = some v)
    (hf : ∀ w r δ, I.allowed v w → I.conveys w r δ → h.Apart δ →
      Safe I (f r) (l ++ [(v, w)]) (h.add δ) post) : Safe I (.ask q .ret >>= f) l h post :=
  ⟨v, hv, fun w r δ hw hr hδ => hf w r δ hw hr hδ⟩

end

/-! ### Dividing a heap among threads -/

section Divided

variable {T C : Type} {own : T → Heap C} {h δ : Heap C} {t u : T} {p : ℕ} {c : C}

/-- Every cell of the heap is owned by one thread. -/
structure Divided (own : T → Heap C) (h : Heap C) : Prop where
  apart : ∀ t u, t ≠ u → (own t).Apart (own u)
  cover : ∀ p c, h p = some c ↔ ∃ t, own t p = some c

/-- What a thread owns is part of the heap. -/
theorem Divided.sub (hd : Divided own h) (t : T) : (own t).Sub h :=
  fun p c hc => (hd.cover p c).mpr ⟨t, hc⟩

/-- A heap nobody owns anything of is empty. -/
theorem Divided.eq_empty (hd : Divided own h) (hown : ∀ t, own t = .empty) : h = .empty := by
  funext p
  cases hc : h p with
  | none => rfl
  | some c =>
      obtain ⟨t, ht⟩ := (hd.cover p c).mp hc
      rw [hown t] at ht
      cases ht

/-- At first the heap is empty, and nobody owns anything. -/
theorem Divided.init : Divided (fun _ : T => Heap.empty) (.empty : Heap C) where
  apart _ _ _ := Heap.apart_empty _
  cover p c := by simp [Heap.empty]

variable [DecidableEq T]

/-- A thread is handed new cells. -/
theorem Divided.grow (hd : Divided own h) (hδ : h.Apart δ) :
    Divided (Function.update own t ((own t).add δ)) (h.add δ) := by
  have fresh : ∀ u, (own u).Apart δ := fun u => hδ.of_sub (hd.sub u)
  have other : ∀ u, u ≠ t → ((own t).add δ).Apart (own u) := by
    intro u hu p hp
    obtain ⟨c, hc⟩ := Option.isSome_iff_exists.mp hp
    obtain ht | ⟨-, hc⟩ := Heap.add_eq_some hc
    · exact hd.apart t u (Ne.symm hu) p (by simp [ht])
    · exact (fresh u).symm p (by simp [hc])
  refine ⟨fun u v huv => ?_, fun p c => ?_⟩
  · by_cases hu : u = t
    · subst hu
      rw [Function.update_self, Function.update_of_ne (Ne.symm huv)]
      exact other v (Ne.symm huv)
    · rw [Function.update_of_ne hu]
      by_cases hv : v = t
      · subst hv
        rw [Function.update_self]
        exact (other u hu).symm
      · rw [Function.update_of_ne hv]
        exact hd.apart u v huv
  · constructor
    · intro hc
      obtain hc | ⟨-, hc⟩ := Heap.add_eq_some hc
      · obtain ⟨u, hu⟩ := (hd.cover p c).mp hc
        by_cases hut : u = t
        · subst hut
          exact ⟨u, by rw [Function.update_self]; exact Heap.add_of_some hu⟩
        · exact ⟨u, by rw [Function.update_of_ne hut]; exact hu⟩
      · exact ⟨t, by rw [Function.update_self]; exact Heap.add_of_apart (fresh t) hc⟩
    · rintro ⟨u, hu⟩
      by_cases hut : u = t
      · subst hut
        rw [Function.update_self] at hu
        obtain hu | ⟨-, hu⟩ := Heap.add_eq_some hu
        · exact Heap.add_of_some (hd.sub u p c hu)
        · exact Heap.add_of_apart hδ hu
      · rw [Function.update_of_ne hut] at hu
        exact Heap.add_of_some (hd.sub u p c hu)

/-- A thread frees a cell of its own. -/
theorem Divided.shrink (hd : Divided own h) (hc : own t p = some c) :
    Divided (Function.update own t ((own t).erase p)) (h.erase p) := by
  have mine : ∀ u, u ≠ t → own u p = none :=
    fun u hu => hd.apart t u (Ne.symm hu) p (by simp [hc])
  have less : ∀ u p' c', Function.update own t ((own t).erase p) u p' = some c' ↔
      p' ≠ p ∧ own u p' = some c' := by
    intro u p' c'
    by_cases hp : p' = p
    · subst hp
      by_cases hu : u = t
      · subst hu
        simp [Heap.erase_self]
      · simp [Function.update_of_ne hu, mine u hu]
    · by_cases hu : u = t
      · subst hu
        simp [Heap.erase_of_ne hp, hp]
      · simp [Function.update_of_ne hu, hp]
  refine ⟨fun u v huv p' hp' => ?_, fun p' c' => ?_⟩
  · obtain ⟨c', hc'⟩ := Option.isSome_iff_exists.mp hp'
    have hv := hd.apart u v huv p' (by simp [((less u p' c').mp hc').2])
    cases hn : Function.update own t ((own t).erase p) v p' with
    | none => rfl
    | some c'' =>
        have hc'' := ((less v p' c'').mp hn).2
        rw [hv] at hc''
        cases hc''
  · simp only [less]
    by_cases hp : p' = p
    · subst hp
      simp [Heap.erase_self]
    · simp [Heap.erase_of_ne hp, hp, hd.cover p' c']

end Divided

/-! ### Threads that run procedures -/

section Threads

variable {Q R C K V W σ T J : Type} {Res : J → Type}

/-- A thread between its jobs, or in one: what is left to do, and what it has asked. -/
inductive ThreadPc (Q R C K V W : Type) {J : Type} (Res : J → Type) where
  | idle
  | running (j : J) (m : Proc Q R C K (Res j)) (log : List (V × W))

/-- A job that was done. -/
structure Done (T V W : Type) {J : Type} (Res : J → Type) where
  thread : T
  job : J
  result : Res job
  log : List (V × W)

/-- The heap and the environment, with the record of all exchanges and of the jobs done. -/
structure Shared (C V W σ T : Type) {J : Type} (Res : J → Type) where
  heap : Heap C
  env : σ
  exchanges : List (T × V × W)
  done : List (Done T V W Res)

/-- The next operation is undefined behaviour. -/
def Proc.Faulty {α : Type} (I : Interface Q R C K V W) (h : Heap C) : Proc Q R C K α → Prop
  | .ret _ | .alloc _ _ => False
  | .read p _ => h p = none
  | .free k p _ => ∀ c, h p = some c → ¬ I.releases k c
  | .ask q _ => I.view h q = none
  | .fault => True

/-- One step of thread `t`, where `prog` is the code of each job and the environment answers
by `env`. Where the next operation is undefined behaviour there is none. -/
inductive Move (I : Interface Q R C K V W) (env : Lts σ (V × W))
    (prog : (j : J) → Proc Q R C K (Res j))
    (s : Pool T (Shared C V W σ T Res) (ThreadPc Q R C K V W Res)) (t : T) :
    Shared C V W σ T Res → ThreadPc Q R C K V W Res → Prop
  | start (j : J) : s.pc t = .idle → Move I env prog s t s.shared (.running j (prog j) [])
  | alloc {j : J} {c : C} {next : ℕ → Proc Q R C K (Res j)} {l : List (V × W)} {p : ℕ} :
      s.pc t = .running j (.alloc c next) l → s.shared.heap p = none →
      Move I env prog s t { s.shared with heap := s.shared.heap.add (.single p c) }
        (.running j (next p) l)
  | read {j : J} {p : ℕ} {next : C → Proc Q R C K (Res j)} {l : List (V × W)} {c : C} :
      s.pc t = .running j (.read p next) l → s.shared.heap p = some c →
      Move I env prog s t s.shared (.running j (next c) l)
  | free {j : J} {k : K} {p : ℕ} {next : Proc Q R C K (Res j)} {l : List (V × W)} {c : C} :
      s.pc t = .running j (.free k p next) l → s.shared.heap p = some c → I.releases k c →
      Move I env prog s t { s.shared with heap := s.shared.heap.erase p } (.running j next l)
  | ask {j : J} {q : Q} {next : R → Proc Q R C K (Res j)} {l : List (V × W)} {v : V} {w : W}
      {r : R} {δ : Heap C} {e : σ} :
      s.pc t = .running j (.ask q next) l → I.view s.shared.heap q = some v →
      env.step s.shared.env (v, w) e → I.conveys w r δ → s.shared.heap.Apart δ →
      Move I env prog s t
        { s.shared with
          heap := s.shared.heap.add δ
          env := e
          exchanges := s.shared.exchanges ++ [(t, v, w)] }
        (.running j (next r) (l ++ [(v, w)]))
  | finish {j : J} {a : Res j} {l : List (V × W)} : s.pc t = .running j (.ret a) l →
      Move I env prog s t
        { s.shared with done := s.shared.done ++ [⟨t, j, a, l⟩] } .idle

/-- The threads over an empty heap, all of them idle. -/
def jobSystem [DecidableEq T] (I : Interface Q R C K V W) (env : Lts σ (V × W))
    (prog : (j : J) → Proc Q R C K (Res j)) :
    Lts (Pool T (Shared C V W σ T Res) (ThreadPc Q R C K V W Res)) T :=
  Pool.system (fun s => env.init s.shared.env ∧ s.shared.heap = .empty ∧
    s.shared.exchanges = [] ∧ s.shared.done = [] ∧ ∀ t, s.pc t = .idle) (Move I env prog)

/-- A procedure ends with nothing left, and as specified. -/
def Ends (post : (j : J) → Res j → List (V × W) → Prop) (j : J) :
    Res j → List (V × W) → Heap C → Prop :=
  fun a l h => h = .empty ∧ post j a l

/-- What a thread owns, by where it is. -/
def ThreadPc.Owns (I : Interface Q R C K V W) (post : (j : J) → Res j → List (V × W) → Prop)
    (h : Heap C) : ThreadPc Q R C K V W Res → Prop
  | .idle => h = .empty
  | .running j m l => Safe I m l h (Ends post j)

/-- The exchanges of the job a thread is in. -/
def ThreadPc.log : ThreadPc Q R C K V W Res → List (V × W)
  | .idle => []
  | .running _ _ l => l

variable {I : Interface Q R C K V W} {env : Lts σ (V × W)}
  {prog : (j : J) → Proc Q R C K (Res j)} {post : (j : J) → Res j → List (V × W) → Prop}
  {s : Pool T (Shared C V W σ T Res) (ThreadPc Q R C K V W Res)} {t : T}
  {sh : Shared C V W σ T Res} {p : ThreadPc Q R C K V W Res}

/-- **One step keeps the division**: the thread that steps owns what it should, over its own
part of the heap, and the other parts are as they were. -/
theorem Move.divided [DecidableEq T] (hjobs : ∀ j, Safe I (prog j) [] .empty (Ends post j))
    (henv : ∀ e v w e', env.step e (v, w) e' → I.allowed v w) {own : T → Heap C}
    (hd : Divided own s.shared.heap) (howns : (s.pc t).Owns I post (own t))
    (hmove : Move I env prog s t sh p) :
    ∃ h, Divided (Function.update own t h) sh.heap ∧ p.Owns I post h := by
  cases hmove with
  | start j hpc =>
      rw [hpc] at howns
      refine ⟨own t, by rw [Function.update_eq_self]; exact hd, ?_⟩
      rw [show own t = .empty from howns]
      exact hjobs j
  | @alloc j c next l p hpc hp =>
      rw [hpc] at howns
      refine ⟨_, hd.grow (Heap.apart_single hp c), howns p ?_⟩
      cases hc : own t p with
      | none => rfl
      | some c' => rw [hd.sub t p c' hc] at hp; cases hp
  | read hpc hp =>
      rw [hpc] at howns
      obtain ⟨c', hc', hrest⟩ := howns
      obtain rfl := Option.some.inj (hp.symm.trans (hd.sub t _ _ hc'))
      exact ⟨own t, by rw [Function.update_eq_self]; exact hd, hrest⟩
  | free hpc _ _ =>
      rw [hpc] at howns
      obtain ⟨c', hc', -, hrest⟩ := howns
      exact ⟨_, hd.shrink hc', hrest⟩
  | ask hpc hview hstep hconveys hδ =>
      rw [hpc] at howns
      obtain ⟨v', hv', hrest⟩ := howns
      obtain rfl := Option.some.inj (hview.symm.trans (I.view_mono (hd.sub t) hv'))
      exact ⟨_, hd.grow hδ, hrest _ _ _ (henv _ _ _ _ hstep) hconveys (hδ.of_sub (hd.sub t))⟩
  | finish hpc =>
      rw [hpc] at howns
      exact ⟨own t, by rw [Function.update_eq_self]; exact hd, howns.1⟩

/-- A safe procedure has no undefined behaviour in a heap that has its cells. -/
theorem Safe.not_faulty {α : Type} {m : Proc Q R C K α} {l : List (V × W)} {h h' : Heap C}
    {post : α → List (V × W) → Heap C → Prop} (hm : Safe I m l h post) (hsub : h.Sub h') :
    ¬ m.Faulty I h' := by
  intro hfault
  cases m with
  | ret a | alloc c next => exact hfault
  | read p next =>
      obtain ⟨c, hc, -⟩ := hm
      rw [Proc.Faulty, hsub p c hc] at hfault
      cases hfault
  | free k p next =>
      obtain ⟨c, hc, hk, -⟩ := hm
      exact hfault c (hsub p c hc) hk
  | ask q next =>
      obtain ⟨v, hv, -⟩ := hm
      rw [Proc.Faulty, I.view_mono hsub hv] at hfault
      cases hfault
  | fault => exact hm

/-- What holds of a pool whose jobs are safe. -/
structure Sound [DecidableEq T] (I : Interface Q R C K V W)
    (post : (j : J) → Res j → List (V × W) → Prop)
    (s : Pool T (Shared C V W σ T Res) (ThreadPc Q R C K V W Res)) : Prop where
  divided : ∃ own : T → Heap C, Divided own s.shared.heap ∧ ∀ t, (s.pc t).Owns I post (own t)
  done : ∀ d ∈ s.shared.done, post d.job d.result d.log
  logs : ∀ t, (s.shared.exchanges.filter (·.1 = t)).map Prod.snd =
    (s.shared.done.filter (·.thread = t)).flatMap Done.log ++ (s.pc t).log

variable [DecidableEq T]

/-- One step keeps the record. -/
theorem Move.logs (hmove : Move I env prog s t sh p)
    (hlogs : ∀ u, (s.shared.exchanges.filter (·.1 = u)).map Prod.snd =
      (s.shared.done.filter (·.thread = u)).flatMap Done.log ++ (s.pc u).log) (u : T) :
    (sh.exchanges.filter (·.1 = u)).map Prod.snd =
      (sh.done.filter (·.thread = u)).flatMap Done.log ++
        ((s.move t sh p).pc u).log := by
  have hu := hlogs u
  by_cases hut : u = t
  · subst hut
    rw [Pool.move_pc, Function.update_self]
    cases hmove with
    | start j hpc | alloc hpc _ | read hpc _ | free hpc _ _ =>
        rw [hpc] at hu
        exact hu
    | ask hpc _ _ _ _ =>
        rw [hpc] at hu
        simp only [ThreadPc.log] at hu ⊢
        simp [hu]
    | finish hpc =>
        rw [hpc] at hu
        simp only [ThreadPc.log] at hu ⊢
        simp [hu]
  · rw [Pool.move_pc, Function.update_of_ne hut]
    cases hmove with
    | start j hpc | alloc hpc _ | read hpc _ | free hpc _ _ => exact hu
    | ask _ _ _ _ _ =>
        have hne : ¬ t = u := fun h => hut h.symm
        simp [hne, hu]
    | finish _ =>
        have hne : ¬ t = u := fun h => hut h.symm
        simp [hne, hu]

/-- **Local safety is enough.** If every job is safe on its own, then in every interleaving
the heap is divided among the running threads, and every job that is done ended as
specified, after the exchanges it was found to have. -/
theorem reachable_sound (hjobs : ∀ j, Safe I (prog j) [] .empty (Ends post j))
    (henv : ∀ e v w e', env.step e (v, w) e' → I.allowed v w)
    (h : (jobSystem I env prog).Reachable s) : Sound I post s := by
  refine h.invariant (I := Sound I post) ?_ ?_
  · rintro s ⟨-, hheap, hex, hdone, hidle⟩
    refine ⟨⟨fun _ => .empty, by rw [hheap]; exact .init, fun t => ?_⟩, ?_, fun t => ?_⟩
    · rw [hidle t]
      rfl
    · simp [hdone]
    · rw [hidle t, hex, hdone]
      rfl
  · rintro s t s' hs ⟨sh, p, hmove, rfl⟩
    obtain ⟨own, hd, howns⟩ := hs.divided
    obtain ⟨h', hd', hp⟩ := hmove.divided hjobs henv hd (howns t)
    refine ⟨⟨_, hd', fun u => ?_⟩, fun d hd => ?_, hmove.logs hs.logs⟩
    · by_cases hu : u = t
      · subst hu
        rw [Pool.move_pc, Function.update_self, Function.update_self]
        exact hp
      · rw [Pool.move_pc, Function.update_of_ne hu, Function.update_of_ne hu]
        exact howns u
    · cases hmove with
      | @finish j a l hpc =>
          obtain hold | hnew := List.mem_append.mp hd
          · exact hs.done d hold
          · obtain rfl := List.mem_singleton.mp hnew
            have ht := howns t
            rw [hpc] at ht
            exact ht.2
      | _ => exact hs.done d hd

/-- Nobody's next operation is undefined behaviour. -/
theorem Sound.not_faulty (hs : Sound I post s) {j : J} {m : Proc Q R C K (Res j)}
    {l : List (V × W)} (hpc : s.pc t = .running j m l) : ¬ m.Faulty I s.shared.heap := by
  obtain ⟨own, hd, howns⟩ := hs.divided
  have ht := howns t
  rw [hpc] at ht
  exact ht.not_faulty (hd.sub t)

/-- When all threads are idle, every cell has been freed. -/
theorem Sound.no_leak (hs : Sound I post s) (hidle : ∀ t, s.pc t = .idle) :
    s.shared.heap = .empty := by
  obtain ⟨own, hd, howns⟩ := hs.divided
  refine hd.eq_empty fun t => ?_
  have ht := howns t
  rw [hidle t] at ht
  exact ht

/-- Only finitely many addresses are ever in use. -/
theorem reachable_bounded (hconveys : ∀ w r δ, I.conveys w r δ → δ.Bounded)
    (h : (jobSystem I env prog).Reachable s) : s.shared.heap.Bounded := by
  refine h.invariant (I := fun s => s.shared.heap.Bounded) ?_ ?_
  · rintro s ⟨-, hheap, -⟩
    rw [hheap]
    exact Heap.bounded_empty
  · rintro s t s' hs ⟨sh, p, hmove, rfl⟩
    cases hmove with
    | alloc _ _ => exact hs.add (Heap.bounded_single _ _)
    | free _ _ _ => exact hs.erase _
    | ask _ _ _ hr _ => exact hs.add (hconveys _ _ _ hr)
    | _ => exact hs

/-- The environment answers every question, and can do so in unused memory. -/
def Answering (I : Interface Q R C K V W) (env : Lts σ (V × W)) : Prop :=
  ∀ e v, ∃ w e', env.step e (v, w) e' ∧
    ∀ n, ∃ r δ, I.conveys w r δ ∧ ∀ p < n, δ p = none

/-- Thread `t` comes to the end of its job `j` when it runs alone from here. -/
def Returns (I : Interface Q R C K V W) (env : Lts σ (V × W))
    (prog : (j : J) → Proc Q R C K (Res j))
    (s : Pool T (Shared C V W σ T Res) (ThreadPc Q R C K V W Res)) (t : T) (j : J) : Prop :=
  ∃ k s' r l, (jobSystem I env prog).Run s (List.replicate k t) s' ∧ s'.pc t = .idle ∧
    s'.shared.done = s.shared.done ++ [⟨t, j, r, l⟩] ∧ ∀ u, u ≠ t → s'.pc u = s.pc u

/-- One step on the way. -/
theorem Returns.step (hmove : Move I env prog s t sh p) (hdone : sh.done = s.shared.done) {j : J}
    (h : Returns I env prog (s.move t sh p) t j) : Returns I env prog s t j := by
  obtain ⟨k, s', r, l, hrun, hidle, hdone', hother⟩ := h
  refine ⟨k + 1, s', r, l, .cons ⟨sh, p, hmove, rfl⟩ hrun, hidle, ?_, fun u hu => ?_⟩
  · rw [hdone', Pool.move_shared, hdone]
  · rw [hother u hu, Pool.move_pc, Function.update_of_ne hu]

/-- **Every job returns**: whatever the others have done so far, a thread that runs alone from
there comes to the end of its job. -/
theorem exists_return (hjobs : ∀ j, Safe I (prog j) [] .empty (Ends post j))
    (henv : ∀ e v w e', env.step e (v, w) e' → I.allowed v w)
    (hconveys : ∀ w r δ, I.conveys w r δ → δ.Bounded) (hanswering : Answering I env) {j : J}
    {m : Proc Q R C K (Res j)} {l : List (V × W)} (h : (jobSystem I env prog).Reachable s)
    (hpc : s.pc t = .running j m l) : Returns I env prog s t j := by
  induction m generalizing s l with
  | ret a =>
      refine ⟨1, _, a, l, .cons ⟨_, _, .finish hpc, rfl⟩ .nil, ?_, rfl, fun u hu => ?_⟩
      · rw [Pool.move_pc, Function.update_self]
      · rw [Pool.move_pc, Function.update_of_ne hu]
  | alloc c next ih =>
      obtain ⟨n, hn⟩ := reachable_bounded hconveys h
      have hmove : Move I env prog s t _ _ := .alloc hpc (hn n le_rfl)
      exact .step hmove rfl (ih n (h.of_step ⟨_, _, hmove, rfl⟩) (Function.update_self _ _ _))
  | read p next ih =>
      have hsafe := (reachable_sound hjobs henv h).not_faulty hpc
      obtain ⟨c, hc⟩ := Option.ne_none_iff_exists'.mp hsafe
      have hmove : Move I env prog s t _ _ := .read hpc hc
      exact .step hmove rfl (ih c (h.of_step ⟨_, _, hmove, rfl⟩) (Function.update_self _ _ _))
  | free k p next ih =>
      have hsafe := (reachable_sound hjobs henv h).not_faulty hpc
      simp only [Proc.Faulty, not_forall, not_not] at hsafe
      obtain ⟨c, hc, hk⟩ := hsafe
      have hmove : Move I env prog s t _ _ := .free hpc hc hk
      exact .step hmove rfl (ih (h.of_step ⟨_, _, hmove, rfl⟩) (Function.update_self _ _ _))
  | ask q next ih =>
      have hsafe := (reachable_sound hjobs henv h).not_faulty hpc
      obtain ⟨v, hv⟩ := Option.ne_none_iff_exists'.mp hsafe
      obtain ⟨w, e', hstep, hhand⟩ := hanswering s.shared.env v
      obtain ⟨n, hn⟩ := reachable_bounded hconveys h
      obtain ⟨r, δ, hr, hδ⟩ := hhand n
      have hapart : s.shared.heap.Apart δ := by
        intro p hp
        refine hδ p (Nat.lt_of_not_le fun hle => ?_)
        rw [hn p hle] at hp
        cases hp
      have hmove : Move I env prog s t _ _ := .ask hpc hv hstep hr hapart
      exact .step hmove rfl (ih r (h.of_step ⟨_, _, hmove, rfl⟩) (Function.update_self _ _ _))
  | fault => exact absurd trivial ((reachable_sound hjobs henv h).not_faulty hpc)

/-- The exchanges, in their order, are a run of the environment. -/
theorem exchanges_run (h : (jobSystem I env prog).Reachable s) :
    ∃ e, env.init e ∧ env.Run e (s.shared.exchanges.map Prod.snd) s.shared.env := by
  refine h.invariant (I := fun s => ∃ e, env.init e ∧
    env.Run e (s.shared.exchanges.map Prod.snd) s.shared.env) ?_ ?_
  · rintro s ⟨henv, -, hex, -, -⟩
    exact ⟨_, henv, by rw [hex]; exact .nil⟩
  · rintro s t s' ⟨e, he, hrun⟩ ⟨sh, p, hmove, rfl⟩
    refine ⟨e, he, ?_⟩
    cases hmove with
    | ask _ _ hstep _ _ =>
        rw [Pool.move_shared, List.map_append]
        exact hrun.snoc hstep
    | _ => exact hrun

/-- A sum over a list, thread by thread. -/
theorem sum_threads [Fintype T] {α : Type} (key : α → T) (g : α → ℕ) (l : List α) :
    (l.map g).sum = ∑ u, ((l.filter (key · = u)).map g).sum := by
  induction l with
  | nil => simp
  | cons x l ih =>
      have hcons : ∀ u, (((x :: l).filter (key · = u)).map g).sum =
          (if key x = u then g x else 0) + ((l.filter (key · = u)).map g).sum := by
        intro u
        by_cases hx : key x = u <;> simp [hx]
      simp only [hcons, Finset.sum_add_distrib, Finset.sum_ite_eq, Finset.mem_univ, if_true]
      rw [List.map_cons, List.sum_cons, ih]

/-- What is counted over all exchanges is counted over the jobs that are done and those that
are running. -/
theorem Sound.sum_exchanges [Fintype T] (hs : Sound I post s) (f : V × W → ℕ) :
    (s.shared.exchanges.map fun x => f x.2).sum =
      (s.shared.done.map fun d => (d.log.map f).sum).sum +
        ∑ u, ((s.pc u).log.map f).sum := by
  rw [sum_threads Prod.fst, sum_threads Done.thread, ← Finset.sum_add_distrib]
  refine Finset.sum_congr rfl fun u _ => ?_
  have hlog := congrArg (fun l => (l.map f).sum) (hs.logs u)
  simpa [List.flatMap_def, List.map_flatten, List.sum_flatten, Function.comp_def] using hlog

end Threads

end Ownership
