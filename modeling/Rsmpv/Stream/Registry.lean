import Rsmpv.Lib.Account
import Rsmpv.Lib.ThreadPool
import Rsmpv.Lifetime.World

/-!
# The Protocol Registry under Concurrency

`Mpv::register_protocol` takes `&self`: any number of threads register protocols on one player,
while the threads of libmpv open streams of the protocols that are registered already. libmpv
holds a bare pointer to each open function. The code hands it over first
(`mpv_stream_cb_add_ro`) and pushes the `EscapedBox` to the registry of the player afterwards,
so for a moment libmpv may call an open function that only a local variable owns. When the
player is dropped nobody borrows it any more; its `Drop` body terminates the core, and only
then are the fields dropped, the registry among them.

Each thread is at one control point, and one step performs one statement. An open function may
run on any number of threads at once. Its destructor returns or panics: a panic in a failed
registration unwinds to the caller; one in the registry is kept while the rest of the `Vec` is
dropped, and a second one aborts the process.

## Main results

* `RegistryMove.balance`, `registry_conserved`: an open function that was made is with a
  thread, in the registry or released, and in one of these places only.
* `registry_oneDropper`: at most one thread drops the player.
* `RegistryMove.good`, `RegistryMove.knows`, `registry_good`: what holds at all times, and
  what each thread knows at its control point.
* `open_fns_outlive_calls`: an open function is there whenever libmpv calls it, and released
  after the core was terminated.
-/

namespace Rsmpv

/-- An open function, in the box whose address libmpv is given. -/
abbrev OpenFn := ℕ

/-- Where a thread is in `register_protocol`. -/
inductive RegisterPc
  | cstring (protocol : String) (openFn : OpenFn)
  | add (protocol : List UInt8) (openFn : OpenFn)
  | fail (openFn : OpenFn) (e : Error)
  | lock (openFn : OpenFn)
  | push (openFn : OpenFn)
  | unlock (openFn : OpenFn)

/-- Where a thread is in the drop of the player. `release` has the rest of the registry;
`panicking` records that a destructor has unwound. -/
inductive PlayerDropPc
  | terminate
  | release (rest : List OpenFn) (panicking : Bool)
  | destructor (rest : List OpenFn) (panicking : Bool)

/-- The control point of a thread. `opening` is a thread of libmpv inside
`open_trampoline`. -/
inductive RegistryPc
  | idle
  | register (p : RegisterPc)
  | opening (openFn : OpenFn)
  | dropping (p : PlayerDropPc)

/-- What the threads share: libmpv's table of protocols with their user data, the mutex of the
registry and what it protects, and the record of what was released and returned. -/
structure RegistryShared (T : Type*) where
  next : OpenFn := 0
  protocols : List (List UInt8 × OpenFn) := []
  registryLock : Option T := none
  registry : List OpenFn := []
  dropBegun : Bool := false
  terminated : Bool := false
  dropped : Bool := false
  aborted : Bool := false
  released : List OpenFn := []
  results : List (OpenFn × Except Error Unit) := []

/-- A registry and the threads that use it. -/
abbrev RegistryState (T : Type*) := Pool T (RegistryShared T) RegistryPc

/-- A thread that borrows the player. -/
def RegistryPc.borrows : RegistryPc → Bool
  | .register _ => true
  | _ => false

/-- `RegistryMove s t sh p`: thread `t` of `s` can step to the shared memory `sh` and the control
point `p`. -/
inductive RegistryMove {T : Type*} (s : RegistryState T) (t : T) :
    RegistryShared T → RegistryPc → Prop
  /-- A call of `register_protocol` with a new open function. -/
  | call (protocol : String) : s.pc t = .idle → s.shared.dropBegun = false →
      RegistryMove s t { s.shared with next := s.shared.next + 1 }
        (.register (.cstring protocol s.shared.next))
  | cstring {protocol : String} {f : OpenFn} {bytes : List UInt8} :
      s.pc t = .register (.cstring protocol f) → cstr protocol = .ok bytes →
      RegistryMove s t s.shared (.register (.add bytes f))
  | interiorNul {protocol : String} {f : OpenFn} {e : Error} :
      s.pc t = .register (.cstring protocol f) → cstr protocol = .error e →
      RegistryMove s t s.shared (.register (.fail f e))
  /-- `mpv_stream_cb_add_ro` accepts a protocol that it does not have yet. -/
  | accepted {protocol : List UInt8} {f : OpenFn} {code ok : CInt} :
      s.pc t = .register (.add protocol f) → check code = .ok ok →
      protocol ∉ s.shared.protocols.map Prod.fst →
      RegistryMove s t { s.shared with protocols := s.shared.protocols ++ [(protocol, f)] }
        (.register (.lock f))
  | refused {protocol : List UInt8} {f : OpenFn} {code : CInt} {e : Error} :
      s.pc t = .register (.add protocol f) → check code = .error e →
      RegistryMove s t s.shared (.register (.fail f e))
  /-- The `?` drops the open function, and returns unless its destructor unwinds. -/
  | fail {f : OpenFn} {e : Error} (panics : Bool) : s.pc t = .register (.fail f e) →
      RegistryMove s t { s.shared with
          released := s.shared.released ++ [f]
          results := s.shared.results ++ if panics then [] else [(f, .error e)] } .idle
  | lock {f : OpenFn} : s.pc t = .register (.lock f) → s.shared.registryLock = none →
      RegistryMove s t { s.shared with registryLock := some t } (.register (.push f))
  | push {f : OpenFn} : s.pc t = .register (.push f) →
      RegistryMove s t { s.shared with registry := s.shared.registry ++ [f] }
        (.register (.unlock f))
  | unlock {f : OpenFn} : s.pc t = .register (.unlock f) →
      RegistryMove s t { s.shared with
          registryLock := none
          results := s.shared.results ++ [(f, .ok ())] } .idle
  /-- libmpv opens a stream of a protocol it has, until it is terminated. -/
  | open {protocol : List UInt8} {f : OpenFn} : s.pc t = .idle →
      (protocol, f) ∈ s.shared.protocols → s.shared.terminated = false →
      RegistryMove s t s.shared (.opening f)
  /-- The trampoline returns, also when the open function panicked. -/
  | opened {f : OpenFn} : s.pc t = .opening f → RegistryMove s t s.shared .idle
  /-- The owner drops the player: no borrow exists. -/
  | drop : s.pc t = .idle → s.shared.dropBegun = false → (∀ u, (s.pc u).borrows = false) →
      RegistryMove s t { s.shared with dropBegun := true } (.dropping .terminate)
  /-- `mpv_terminate_destroy` returns when no thread of libmpv is in a callback any more. The
  rest of the `Drop` body, which releases the wakeup closure, may unwind. -/
  | terminate (panics : Bool) : s.pc t = .dropping .terminate →
      (∀ u f, s.pc u ≠ .opening f) →
      RegistryMove s t { s.shared with terminated := true, registry := [] }
        (.dropping (.release s.shared.registry panics))
  | release {f : OpenFn} {rest : List OpenFn} {panicking : Bool} :
      s.pc t = .dropping (.release (f :: rest) panicking) →
      RegistryMove s t { s.shared with released := s.shared.released ++ [f] }
        (.dropping (.destructor rest panicking))
  | returned {rest : List OpenFn} {panicking : Bool} :
      s.pc t = .dropping (.destructor rest panicking) →
      RegistryMove s t s.shared (.dropping (.release rest panicking))
  | unwound {rest : List OpenFn} : s.pc t = .dropping (.destructor rest false) →
      RegistryMove s t s.shared (.dropping (.release rest true))
  | abort {rest : List OpenFn} : s.pc t = .dropping (.destructor rest true) →
      RegistryMove s t { s.shared with aborted := true } (.dropping (.destructor rest true))
  | dropped {panicking : Bool} : s.pc t = .dropping (.release [] panicking) →
      RegistryMove s t { s.shared with dropped := true } .idle

/-- A player without protocols; a step needs a live process. -/
def registrySystem (T : Type*) [DecidableEq T] : Lts (RegistryState T) T :=
  Pool.system (fun s => s = ⟨{}, fun _ => .idle⟩)
    fun s t sh p => s.shared.aborted = false ∧ RegistryMove s t sh p

/-! ### Who owns an open function -/

/-- The open functions that a thread owns. -/
def RegistryPc.owned : RegistryPc → List OpenFn
  | .register (.cstring _ f) | .register (.add _ f) | .register (.fail f _)
  | .register (.lock f) | .register (.push f) => [f]
  | .dropping (.release rest _) | .dropping (.destructor rest _) => rest
  | _ => []

variable {T : Type*} {s : RegistryState T} {t : T} {sh : RegistryShared T} {p : RegistryPc}

/-- Every open function has one owner: a thread, the registry, or nobody after its
release. -/
def RegistryState.Conserved [Fintype T] (s : RegistryState T) : Prop :=
  ∀ f, (∑ u, (s.pc u).owned.count f) + s.shared.registry.count f + s.shared.released.count f =
    if f < s.shared.next then 1 else 0

/-- One step keeps the balance of the thread that takes it. -/
theorem RegistryMove.balance (h : RegistryMove s t sh p) (f : OpenFn) :
    p.owned.count f + sh.registry.count f + sh.released.count f +
        (if f < s.shared.next then 1 else 0) =
      (s.pc t).owned.count f + s.shared.registry.count f + s.shared.released.count f +
        if f < sh.next then 1 else 0 := by
  cases h with
  | call protocol e _ =>
      rw [e, handedOut_succ]
      simp only [RegistryPc.owned, List.count_nil]
      omega
  | cstring e _ | interiorNul e _ | accepted e _ _ | refused e _ | lock e _ | unlock e
  | «open» e _ _ | opened e | drop e _ _ | returned e | unwound e | abort e | dropped e =>
      simp only [e, RegistryPc.owned]
  | fail panics e | push e =>
      rw [e]
      simp only [RegistryPc.owned, List.count_append, List.count_nil]
      omega
  | terminate panics e _ =>
      rw [e]
      simp only [RegistryPc.owned, List.count_nil, Nat.add_zero, Nat.zero_add]
  | @release g rest panicking e =>
      rw [e]
      simp only [RegistryPc.owned, List.count_append, List.count_cons, List.count_nil]
      omega

section Conserved

variable [Fintype T]

/-- The balance of a reachable state. -/
theorem registry_conserved [DecidableEq T] (h : (registrySystem T).Reachable s) :
    s.Conserved := by
  refine h.invariant (I := RegistryState.Conserved) ?_ ?_
  · rintro s rfl f
    simp [RegistryPc.owned]
  · rintro s t s' hs ⟨sh, p, ⟨-, hmove⟩, rfl⟩ f
    have hsum := Pool.ledger (fun q : RegistryPc => q.owned.count f) s.pc t p
    have hold := hs f
    have hbalance := hmove.balance f
    change (∑ u, (Function.update s.pc t p u).owned.count f) + sh.registry.count f +
      sh.released.count f = if f < sh.next then 1 else 0
    omega

namespace RegistryState.Conserved

variable {f : OpenFn}

/-- The open functions that a thread has were made. -/
theorem lt_next (hs : s.Conserved) (hf : f ∈ (s.pc t).owned) : f < s.shared.next := by
  by_contra hlt
  have hpos := List.count_pos_iff.mpr hf
  have hle := Pool.le_sum (fun q : RegistryPc => q.owned.count f) s.pc t
  have hbalance := hs f
  rw [if_neg hlt] at hbalance
  omega

/-- What a thread owns has not been released. -/
theorem not_released (hs : s.Conserved) (hf : f ∈ (s.pc t).owned) : f ∉ s.shared.released := by
  intro hreleased
  have hpos := List.count_pos_iff.mpr hf
  have hpos' := List.count_pos_iff.mpr hreleased
  have hle := Pool.le_sum (fun q : RegistryPc => q.owned.count f) s.pc t
  have hbalance := hs f
  split at hbalance <;> omega

/-- No two threads own one open function. -/
theorem owner_unique [DecidableEq T] (hs : s.Conserved) {u : T} (ht : f ∈ (s.pc t).owned)
    (hu : f ∈ (s.pc u).owned) : u = t := by
  by_contra hne
  have hpos := List.count_pos_iff.mpr ht
  have hpos' := List.count_pos_iff.mpr hu
  have hpair : ∑ w ∈ {t, u}, (s.pc w).owned.count f ≤ ∑ w, (s.pc w).owned.count f :=
    Finset.sum_le_sum_of_subset (Finset.subset_univ _)
  rw [Finset.sum_pair (Ne.symm hne)] at hpair
  have hbalance := hs f
  split at hbalance <;> omega

/-- No open function is released twice. -/
theorem nodup_released (hs : s.Conserved) : s.shared.released.Nodup := by
  rw [List.nodup_iff_count_le_one]
  intro f
  have hbalance := hs f
  split at hbalance <;> omega

end RegistryState.Conserved

end Conserved

/-! ### One owner drops the player -/

/-- The thread that drops the player is the only one. -/
def RegistryState.OneDropper (s : RegistryState T) : Prop :=
  ∀ t p, s.pc t = .dropping p → s.shared.dropBegun = true ∧
    ∀ u q, s.pc u = .dropping q → u = t

/-- Only `drop` begins a drop, and it is never undone. -/
theorem RegistryMove.dropping (h : RegistryMove s t sh p) :
    (s.shared.dropBegun = true → sh.dropBegun = true) ∧
    ∀ q, p = .dropping q → (∃ q', s.pc t = .dropping q') ∨
      (s.shared.dropBegun = false ∧ sh.dropBegun = true) := by
  cases h with
  | drop e hnot _ => exact ⟨fun _ => rfl, fun q _ => .inr ⟨hnot, rfl⟩⟩
  | terminate panics e _ | release e | returned e | unwound e | abort e =>
      exact ⟨id, fun q _ => .inl ⟨_, e⟩⟩
  | _ => exact ⟨id, nofun⟩

/-- In every reachable state at most one thread drops the owner. -/
theorem registry_oneDropper [DecidableEq T] (h : (registrySystem T).Reachable s) :
    s.OneDropper := by
  refine h.invariant (I := RegistryState.OneDropper) ?_ ?_
  · rintro s rfl t p ht
    cases ht
  · rintro s t s' hs ⟨sh, p, ⟨-, hmove⟩, rfl⟩
    obtain ⟨hkeeps, hbegins⟩ := hmove.dropping
    -- Before the step a dropping thread is `t`, or `t` does not begin a drop.
    have before : ∀ {u q}, (s.move t sh p).pc u = .dropping q →
        (∃ q', s.pc u = .dropping q') ∨ (u = t ∧ s.shared.dropBegun = false ∧
          sh.dropBegun = true) := by
      intro u q hu
      by_cases hut : u = t
      · subst hut
        rw [Pool.move_pc, Function.update_self] at hu
        exact (hbegins q hu).imp_right fun hb => ⟨rfl, hb⟩
      · rw [Pool.move_pc, Function.update_of_ne hut] at hu
        exact .inl ⟨q, hu⟩
    intro u q hu
    rcases before hu with ⟨q₁, hu₁⟩ | ⟨rfl, hnot, hnow⟩
    · obtain ⟨hbegun, honly⟩ := hs u q₁ hu₁
      refine ⟨hkeeps hbegun, fun w q' hw => ?_⟩
      rcases before hw with ⟨q₂, hw₂⟩ | ⟨-, hnot, -⟩
      · exact honly w q₂ hw₂
      · rw [hbegun] at hnot
        cases hnot
    · refine ⟨hnow, fun w q' hw => ?_⟩
      rcases before hw with ⟨q₂, hw₂⟩ | ⟨rfl, -, -⟩
      · rw [(hs w q₂ hw₂).1] at hnot
        cases hnot
      · rfl

/-! ### What libmpv may call -/

/-- The open functions that libmpv holds. -/
def RegistryShared.registered (sh : RegistryShared T) : List OpenFn := sh.protocols.map Prod.snd

/-- What holds of the shared memory at all times. -/
structure RegistryShared.Good (sh : RegistryShared T) : Prop where
  names : (sh.protocols.map Prod.fst).Nodup
  data : sh.registered.Nodup
  known : ∀ f ∈ sh.registered, f < sh.next
  alive : sh.terminated = false → ∀ f ∈ sh.registered, f ∉ sh.released
  accepted : ∀ f, (f, .ok ()) ∈ sh.results → f ∈ sh.registered
  refused : ∀ f e, (f, .error e) ∈ sh.results → f ∉ sh.registered ∧ f ∈ sh.released
  ended : sh.terminated = true → sh.dropBegun = true ∧ sh.registry = []
  gone : sh.dropped = true → sh.terminated = true

/-- What a thread knows: whether libmpv has the open function it works on, and how far the drop
of the player has come. -/
def RegistryPc.Knows (sh : RegistryShared T) : RegistryPc → Prop
  | .idle => True
  | .register (.cstring _ f) | .register (.add _ f) | .register (.fail f _) =>
    sh.dropBegun = false ∧ f ∉ sh.registered
  | .register (.lock f) | .register (.push f) | .register (.unlock f) =>
    sh.dropBegun = false ∧ f ∈ sh.registered
  | .opening f => sh.terminated = false ∧ f ∈ sh.registered
  | .dropping .terminate => sh.dropBegun = true ∧ sh.terminated = false ∧ sh.dropped = false
  | .dropping _ => sh.terminated = true ∧ sh.dropped = false

/-- A borrow knows that no drop has begun. -/
theorem RegistryPc.Knows.dropBegun {q : RegisterPc} (h : (RegistryPc.register q).Knows sh) :
    sh.dropBegun = false := by
  cases q <;> exact h.1

/-- Without its drop the player is not terminated. -/
theorem RegistryShared.Good.terminated (hG : sh.Good) (h : sh.dropBegun = false) :
    sh.terminated = false := by
  by_contra hterminated
  rw [Bool.not_eq_false] at hterminated
  rw [(hG.ended hterminated).1] at h
  cases h

/-- What a thread knows stays true when only what it does not speak of changes. -/
theorem RegistryPc.Knows.congr {sh' : RegistryShared T} (h : p.Knows sh)
    (hdrop : sh'.dropBegun = sh.dropBegun) (hterminated : sh'.terminated = sh.terminated)
    (hdropped : sh'.dropped = sh.dropped) (hregistered : sh'.registered = sh.registered) :
    p.Knows sh' := by
  unfold RegistryPc.Knows at h ⊢
  rw [hdrop, hterminated, hdropped, hregistered]
  exact h

/-- An open function is registered under some protocol. -/
theorem mem_registered {f : OpenFn} :
    f ∈ sh.registered ↔ ∃ protocol, (protocol, f) ∈ sh.protocols := by
  simp [RegistryShared.registered]

/-- A failed registration releases its open function. -/
theorem RegistryShared.Good.fail {f : OpenFn} {e : Error} (hG : s.shared.Good)
    (hnew : f ∉ s.shared.registered) (panics : Bool) :
    RegistryShared.Good { s.shared with
      released := s.shared.released ++ [f]
      results := s.shared.results ++ if panics then [] else [(f, .error e)] } := by
  have hresult : ∀ r, r ∈ s.shared.results ++ (if panics then [] else [(f, .error e)]) →
      r ∈ s.shared.results ∨ r = (f, .error e) := by
    intro r hr
    cases panics with
    | false => simpa using hr
    | true => exact .inl (by simpa using hr)
  refine ⟨hG.names, hG.data, hG.known, ?_, ?_, ?_, hG.ended, hG.gone⟩
  · intro hterminated g hg hreleased
    rcases List.mem_append.mp hreleased with h | h
    · exact hG.alive hterminated g hg h
    · rw [List.mem_singleton.mp h] at hg
      exact hnew hg
  · intro g hg
    rcases hresult _ hg with h | h
    · exact hG.accepted g h
    · cases h
  · intro g e' hg
    rcases hresult _ hg with h | h
    · exact ⟨(hG.refused g e' h).1, List.mem_append_left _ (hG.refused g e' h).2⟩
    · obtain ⟨rfl, -⟩ := Prod.mk.inj h
      exact ⟨hnew, List.mem_append_right _ (List.mem_singleton_self g)⟩

/-- A thread that knows a new open function is its owner. -/
theorem RegistryPc.Knows.accept {protocol : List UInt8} {f : OpenFn} (hL : p.Knows s.shared)
    (hf : f ∉ p.owned) :
    p.Knows { s.shared with protocols := s.shared.protocols ++ [(protocol, f)] } := by
  have hgrows : ∀ g, g ∈ s.shared.registered → g ∈ RegistryShared.registered
      { s.shared with protocols := s.shared.protocols ++ [(protocol, f)] } := by
    intro g hg
    rw [RegistryShared.registered, List.map_append]
    exact List.mem_append_left _ hg
  have hnew : ∀ g, g ≠ f → g ∉ s.shared.registered → g ∉ RegistryShared.registered
      { s.shared with protocols := s.shared.protocols ++ [(protocol, f)] } := by
    intro g hne hg hmem
    rw [RegistryShared.registered, List.map_append] at hmem
    rcases List.mem_append.mp hmem with h | h
    · exact hg h
    · exact hne (List.mem_singleton.mp h)
  cases p with
  | idle => trivial
  | opening g => exact ⟨hL.1, hgrows g hL.2⟩
  | dropping q => cases q <;> exact hL
  | register q =>
      cases q with
      | cstring _ g | add _ g | fail g _ =>
          refine ⟨hL.1, hnew g (fun heq => ?_) hL.2⟩
          exact hf (List.mem_singleton.mpr heq.symm)
      | lock g | push g | unlock g => exact ⟨hL.1, hgrows g hL.2⟩

section Steps

variable [Fintype T]

/-- A protocol is accepted. -/
theorem RegistryShared.Good.accept {protocol : List UInt8} {f : OpenFn} (hG : s.shared.Good)
    (hs : s.Conserved) (hf : f ∈ (s.pc t).owned) (hnew : f ∉ s.shared.registered)
    (hname : protocol ∉ s.shared.protocols.map Prod.fst) :
    RegistryShared.Good
      { s.shared with protocols := s.shared.protocols ++ [(protocol, f)] } := by
  have hregistered : RegistryShared.registered
      { s.shared with protocols := s.shared.protocols ++ [(protocol, f)] } =
      s.shared.registered ++ [f] := List.map_append ..
  have hmem : ∀ g, g ∈ s.shared.registered ++ [f] → g ∈ s.shared.registered ∨ g = f := by
    intro g hg
    simpa using hg
  refine ⟨?_, ?_, ?_, ?_, ?_, ?_, hG.ended, hG.gone⟩
  · rw [List.map_append]
    refine hG.names.append (List.nodup_singleton _) fun name h h' => ?_
    rw [List.mem_singleton.mp h'] at h
    exact hname h
  · rw [hregistered]
    refine hG.data.append (List.nodup_singleton _) fun g h h' => ?_
    rw [List.mem_singleton.mp h'] at h
    exact hnew h
  · intro g hg
    rw [hregistered] at hg
    rcases hmem g hg with h | rfl
    · exact hG.known g h
    · exact hs.lt_next hf
  · intro hterminated g hg
    rw [hregistered] at hg
    rcases hmem g hg with h | rfl
    · exact hG.alive hterminated g h
    · exact hs.not_released hf
  · intro g hg
    rw [hregistered]
    exact List.mem_append_left _ (hG.accepted g hg)
  · intro g e hg
    obtain ⟨hnot, hreleased⟩ := hG.refused g e hg
    rw [hregistered]
    refine ⟨fun h => ?_, hreleased⟩
    rcases hmem g h with h | rfl
    · exact hnot h
    · exact hs.not_released hf hreleased

/-- **The step lemma.** A step keeps what holds at all times, and what its own thread
knows. -/
theorem RegistryMove.good (hs : s.Conserved) (hG : s.shared.Good)
    (hL : (s.pc t).Knows s.shared) (h : RegistryMove s t sh p) : sh.Good ∧ p.Knows sh := by
  cases h with
  | call protocol e hdrop =>
      refine ⟨⟨hG.names, hG.data, fun f hf => Nat.lt_succ_of_lt (hG.known f hf), hG.alive,
        hG.accepted, hG.refused, hG.ended, hG.gone⟩, hdrop, fun hnext => ?_⟩
      exact absurd (hG.known _ hnext) (Nat.lt_irrefl _)
  | cstring e _ | interiorNul e _ | refused e _ =>
      rw [e] at hL
      exact ⟨hG, hL⟩
  | @accepted protocol f code ok e _ hname =>
      rw [e] at hL
      have howned : f ∈ (s.pc t).owned := by
        rw [e]
        exact List.mem_singleton_self f
      refine ⟨hG.accept hs howned hL.2 hname, hL.1, mem_registered.mpr ⟨protocol, ?_⟩⟩
      exact List.mem_append_right _ (List.mem_singleton_self _)
  | fail panics e =>
      rw [e] at hL
      exact ⟨hG.fail hL.2 panics, trivial⟩
  | lock e _ =>
      rw [e] at hL
      exact ⟨⟨hG.names, hG.data, hG.known, hG.alive, hG.accepted, hG.refused, hG.ended,
        hG.gone⟩, hL⟩
  | push e =>
      rw [e] at hL
      refine ⟨⟨hG.names, hG.data, hG.known, hG.alive, hG.accepted, hG.refused,
        fun hterminated => ?_, hG.gone⟩, hL⟩
      exact absurd ((hG.terminated hL.1).symm.trans hterminated) Bool.false_ne_true
  | unlock e =>
      rw [e] at hL
      refine ⟨⟨hG.names, hG.data, hG.known, hG.alive, fun f hf => ?_, fun f e hf => ?_, hG.ended,
        hG.gone⟩, trivial⟩
      · rcases List.mem_append.mp hf with h | h
        · exact hG.accepted f h
        · obtain ⟨rfl, -⟩ := Prod.mk.inj (List.mem_singleton.mp h)
          exact hL.2
      · rcases List.mem_append.mp hf with h | h
        · exact hG.refused f e h
        · cases List.mem_singleton.mp h
  | @«open» protocol f e hmem hterminated =>
      exact ⟨hG, hterminated, mem_registered.mpr ⟨protocol, hmem⟩⟩
  | opened e => exact ⟨hG, trivial⟩
  | drop e hnot _ =>
      have hterminated := hG.terminated hnot
      have hdropped : s.shared.dropped = false := by
        by_contra hdropped
        rw [Bool.not_eq_false] at hdropped
        rw [hG.gone hdropped] at hterminated
        cases hterminated
      exact ⟨⟨hG.names, hG.data, hG.known, hG.alive, hG.accepted, hG.refused,
        fun h => ⟨rfl, (hG.ended h).2⟩, hG.gone⟩, rfl, hterminated, hdropped⟩
  | terminate panics e _ =>
      rw [e] at hL
      exact ⟨⟨hG.names, hG.data, hG.known, nofun, hG.accepted, hG.refused,
        fun _ => ⟨hL.1, rfl⟩, fun _ => rfl⟩, rfl, hL.2.2⟩
  | release e =>
      rw [e] at hL
      refine ⟨⟨hG.names, hG.data, hG.known, fun hterminated => ?_, hG.accepted,
        fun f e hf => ?_, hG.ended, hG.gone⟩, hL⟩
      · rw [hL.1] at hterminated
        cases hterminated
      · exact ⟨(hG.refused f e hf).1, List.mem_append_left _ (hG.refused f e hf).2⟩
  | returned e | unwound e =>
      rw [e] at hL
      exact ⟨hG, hL⟩
  | abort e =>
      rw [e] at hL
      exact ⟨⟨hG.names, hG.data, hG.known, hG.alive, hG.accepted, hG.refused, hG.ended,
        hG.gone⟩, hL⟩
  | dropped e =>
      rw [e] at hL
      exact ⟨⟨hG.names, hG.data, hG.known, hG.alive, hG.accepted, hG.refused, hG.ended,
        fun _ => hL.1⟩, trivial⟩

variable [DecidableEq T]

/-- A step keeps what the other threads know. -/
theorem RegistryMove.knows (hs : s.Conserved) (hone : s.OneDropper) {u : T} (hne : u ≠ t)
    (hL : (s.pc u).Knows s.shared) (h : RegistryMove s t sh p) : (s.pc u).Knows sh := by
  cases h with
  | @accepted protocol f code ok e _ _ =>
      refine hL.accept fun hf => hne ?_
      refine (hs.owner_unique ?_ hf)
      rw [e]
      exact List.mem_singleton_self f
  | drop e hnot hborrows =>
      have hborrow := hborrows u
      cases hu : s.pc u with
      | idle => trivial
      | opening f =>
          rw [hu] at hL
          exact hL
      | dropping q =>
          rw [(hone u q hu).1] at hnot
          cases hnot
      | register q =>
          rw [hu] at hborrow
          cases hborrow
  | terminate panics e hclosed =>
      cases hu : s.pc u with
      | idle => trivial
      | opening f => exact absurd hu (hclosed u f)
      | dropping q => exact absurd ((hone t _ e).2 u q hu) hne
      | register q =>
          rw [hu] at hL
          exact absurd hL.dropBegun (by rw [(hone t _ e).1]; decide)
  | dropped e =>
      cases hu : s.pc u with
      | dropping q => exact absurd ((hone t _ e).2 u q hu) hne
      | idle => trivial
      | opening f =>
          rw [hu] at hL
          exact hL
      | register q =>
          rw [hu] at hL
          cases q <;> exact hL
  | _ => exact hL.congr rfl rfl rfl rfl

/-- The run lemma. -/
theorem registry_good (h : (registrySystem T).Reachable s) :
    s.shared.Good ∧ ∀ u, (s.pc u).Knows s.shared := by
  refine Pool.reachable_assertions (G := RegistryShared.Good)
    (L := fun sh _ p => RegistryPc.Knows sh p)
    (K := fun s : RegistryState T => s.Conserved ∧ s.OneDropper)
    (fun s hs => ⟨registry_conserved hs, registry_oneDropper hs⟩) ?_ ?_ ?_ h
  · rintro s rfl
    refine ⟨⟨List.nodup_nil, List.nodup_nil, nofun, nofun, nofun, nofun, nofun, nofun⟩,
      fun _ => trivial⟩
  · rintro s t sh p ⟨hs, -⟩ hG hL ⟨-, hmove⟩
    exact hmove.good hs hG (hL t)
  · rintro s t sh p u ⟨hs, hone⟩ - hL ⟨-, hmove⟩ hne
    exact hmove.knows hs hone hne (hL u)

end Steps

/-- **Open functions outlive their calls.** In every interleaving of registrations, streams that
are opened and the drop of the player: an open function that runs has not been released, nor has
one that libmpv may still call; none is released twice; a registration that returned is with
libmpv if it succeeded, and released, without libmpv having it, if it failed; and when the player
has been dropped every open function was released. -/
theorem open_fns_outlive_calls (T : Type*) [Fintype T] [DecidableEq T] (s : RegistryState T)
    (h : (registrySystem T).Reachable s) :
    (∀ t f, s.pc t = .opening f → f ∉ s.shared.released) ∧
    (s.shared.terminated = false → ∀ protocol f, (protocol, f) ∈ s.shared.protocols →
      f ∉ s.shared.released) ∧
    s.shared.released.Nodup ∧
    (∀ f, (f, .ok ()) ∈ s.shared.results → ∃ protocol, (protocol, f) ∈ s.shared.protocols) ∧
    (∀ f e, (f, .error e) ∈ s.shared.results →
      f ∈ s.shared.released ∧ ∀ protocol, (protocol, f) ∉ s.shared.protocols) ∧
    (s.shared.dropped = true → ∀ f, f < s.shared.next → f ∈ s.shared.released) := by
  obtain ⟨hG, hL⟩ := registry_good h
  have hs := registry_conserved h
  refine ⟨fun t f ht => ?_, fun hterminated protocol f hf => ?_, hs.nodup_released,
    fun f hf => mem_registered.mp (hG.accepted f hf), fun f e hf => ?_, fun hdropped f hf => ?_⟩
  · have hopening := hL t
    rw [ht] at hopening
    exact hG.alive hopening.1 f hopening.2
  · exact hG.alive hterminated f (mem_registered.mpr ⟨protocol, hf⟩)
  · obtain ⟨hnot, hreleased⟩ := hG.refused f e hf
    exact ⟨hreleased, fun protocol hmem => hnot (mem_registered.mpr ⟨protocol, hmem⟩)⟩
  · obtain ⟨hbegun, hregistry⟩ := hG.ended (hG.gone hdropped)
    have howned : ∀ u, (s.pc u).owned = [] := by
      intro u
      have hu := hL u
      cases hp : s.pc u with
      | idle | opening g => rfl
      | register q =>
          rw [hp] at hu
          exact absurd (hu.dropBegun.symm.trans hbegun) Bool.false_ne_true
      | dropping q =>
          rw [hp] at hu
          cases q with
          | terminate => exact absurd (hu.2.2.symm.trans hdropped) Bool.false_ne_true
          | release rest _ | destructor rest _ =>
              exact absurd (hu.2.symm.trans hdropped) Bool.false_ne_true
    have hcount := hs f
    rw [if_pos hf, hregistry] at hcount
    simp only [howned, List.count_nil, Finset.sum_const_zero, Nat.zero_add] at hcount
    exact List.count_pos_iff.mp (hcount ▸ Nat.one_pos)

/-- A stream is opened while the open function is not yet in the registry. -/
theorem open_fn_called_early : ∃ s : RegistryState (Fin 2),
    s.pc 0 = .register (.lock 0) ∧ s.pc 1 = .opening 0 ∧ s.shared.registry = [] ∧
      0 ∉ s.shared.released := by
  have start := Lts.Reachable.of_init (M := registrySystem (Fin 2)) rfl
  have called := start.of_step (a := 0) ⟨_, _, ⟨rfl, .call "demo" rfl rfl⟩, rfl⟩
  have named := called.of_step (a := 0) ⟨_, _, ⟨rfl, .cstring rfl rfl⟩, rfl⟩
  have added := named.of_step (a := 0)
    ⟨_, _, ⟨rfl, .accepted rfl (check_of_nonneg (le_refl 0)) (by decide)⟩, rfl⟩
  have opening := added.of_step (a := 1)
    ⟨_, _, ⟨rfl, .open rfl (List.mem_singleton_self _) rfl⟩, rfl⟩
  exact ⟨_, rfl, rfl, rfl, (open_fns_outlive_calls (Fin 2) _ opening).1 1 0 rfl⟩

end Rsmpv
