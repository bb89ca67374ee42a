import Rsmpv.Lib.Account
import Rsmpv.Lib.Trace
import Rsmpv.Lifetime.Handles

/-!
# Accounts of Handles and Closures

The invariant `Accounts` is a set of accounts over the trace. Every handle libmpv made is
owned by a value that is alive or has been destroyed, once; every closure is held — in a
slot, in a registry, or by the code that runs (`hand`) — or has been released, once. Each
thing the wrapper does to the world keeps it (`Accounts.call` to `Accounts.release`), and
so do the compositions of these that the methods are (`Accounts.stored`,
`Accounts.cleared`, `Accounts.dropped`), whichever destructors panic on the way.

## Conventions

The accounts are kept in two lists, in the sense of `Rsmpv.Lib.Account`: the handles that
values own and those that were destroyed, the closures that are held and those that were
released. The code that runs is an owner like the others: a closure that was taken out of a
slot and not dropped yet is in `hand`. A destructor that panics has begun, so the closure
counts as released, and the code after it runs on the unwinding path or not at all. What an
event must be like given the trace before it is `Lawful`.
-/

namespace Rsmpv

/-! ### What libmpv and the closures may expect of a trace -/

/-- Each event in the light of the events before it: no call on a destroyed handle; a
destroy call directly after the wakeup callback was unregistered and taken out of its
slot, of the kind that fits the handle, and for a player after those of its clients; a
closure released once, and one that serves as a protocol only after its player was
terminated. -/
structure Lawful (past : List Ev) (e : Ev) : Prop where
  alive : ∀ h, e.handle = some h → h ∉ past.filterMap Ev.destroyed
  unregistered : ∀ h, e.destroyed = some h →
    ∃ before slot, past = before ++ [.clearWakeup h, .take slot]
  terminate : ∀ h, e = .terminateDestroy h → .create (some h) ∈ past
  detach : ∀ c, e = .destroy c → ∃ core, .createClient core (some c) ∈ past
  clients : ∀ h c, e = .terminateDestroy h → .createClient h (some c) ∈ past →
    .destroy c ∈ past
  once : ∀ fn, e = .release fn → .release fn ∉ past
  protocols : ∀ fn h, e = .release fn → .addProtocol h fn true ∈ past →
    .terminateDestroy h ∈ past

/-- A call that destroys and releases nothing is lawful on a handle that is open. -/
theorem Lawful.of_plain {past : List Ev} {e : Ev}
    (alive : ∀ h, e.handle = some h → h ∉ past.filterMap Ev.destroyed)
    (hd : e.destroyed = none) (hr : e.released = none) : Lawful past e where
  alive := alive
  unregistered a ha := absurd (hd.symm.trans ha) nofun
  terminate a ha := by subst ha; cases hd
  detach a ha := by subst ha; cases hd
  clients a c ha := by subst ha; cases hd
  once fn hfn := by subst hfn; cases hr
  protocols fn a hfn := by subst hfn; cases hr

/-- When the release of a closure is lawful. -/
theorem Lawful.of_release {past : List Ev} {fn : ℕ} (once : .release fn ∉ past)
    (protocols : ∀ a, .addProtocol a fn true ∈ past → .terminateDestroy a ∈ past) :
    Lawful past (.release fn) where
  alive := nofun
  unregistered := nofun
  terminate := nofun
  detach := nofun
  clients := nofun
  once _ hf := Ev.release.inj hf ▸ once
  protocols _ a hf := Ev.release.inj hf ▸ protocols a

namespace Value

/-- The event that opened a value opened its handle. -/
theorem opening_opened (v : Value) : v.opening.opened = some v.raw := by
  cases v <;> rfl

/-- It destroyed nothing. -/
theorem opening_destroyed (v : Value) : v.opening.destroyed = none := by
  cases v <;> rfl

/-- It released nothing. -/
theorem opening_released (v : Value) : v.opening.released = none := by
  cases v <;> rfl

/-- It registered no protocol. -/
theorem opening_ne_addProtocol (v : Value) (a fn : ℕ) : v.opening ≠ .addProtocol a fn true := by
  cases v <;> nofun

/-- A value that was opened by creating a client is that client. -/
theorem eq_client_of_opening {v : Value} {a c : ℕ} (h : v.opening = .createClient a (some c)) :
    ∃ u, v = .client u ∧ u.core = a ∧ u.inner.raw = c := by
  cases v with
  | client u =>
      injection h with h₁ h₂
      exact ⟨u, rfl, h₁, Option.some.inj h₂⟩
  | builder b | mpv m => cases h

/-- The event that destroys a value destroys its handle. -/
theorem destroying_destroyed (v : Value) : v.destroying.destroyed = some v.raw := by
  cases v <;> rfl

/-- It opens nothing. -/
theorem destroying_opened (v : Value) : v.destroying.opened = none := by
  cases v <;> rfl

/-- It releases nothing. -/
theorem destroying_released (v : Value) : v.destroying.released = none := by
  cases v <;> rfl

/-- It is a call on the handle. -/
theorem destroying_handle (v : Value) : v.destroying.handle = some v.raw := by
  cases v <;> rfl

/-- Only the owners that `mpv_create` made a handle for terminate a player. -/
theorem opening_of_terminates {v : Value} {a : ℕ} (h : v.destroying = .terminateDestroy a) :
    v.raw = a ∧ v.opening = .create (some a) := by
  cases v with
  | builder b | mpv m =>
      injection h with h
      exact ⟨h, congrArg (fun a => Ev.create (some a)) h⟩
  | client c => cases h

/-- What is destroyed as a client was created as one. -/
theorem opening_of_destroys {v : Value} {c : ℕ} (h : v.destroying = .destroy c) :
    ∃ a, v.opening = .createClient a (some c) := by
  cases v with
  | client u =>
      injection h with h
      exact ⟨u.core, congrArg (fun c => Ev.createClient u.core (some c)) h⟩
  | builder b | mpv m => cases h

end Value

/-- The closures that a trace releases are those of its releases. -/
theorem mem_released_iff {fn : ℕ} {tr : List Ev} :
    fn ∈ tr.filterMap Ev.released ↔ .release fn ∈ tr := by
  rw [List.mem_filterMap]
  constructor
  · rintro ⟨e, he, hfn⟩
    cases e with
    | release fn' =>
        obtain rfl := Option.some.inj hfn
        exact he
    | _ => cases hfn
  · exact fun h => ⟨_, h, rfl⟩

/-- The accounts of a world in which `values` are alive and the running code holds the
closures in `hand`. -/
structure Accounts (w : World) (values : List Value) (hand : List BoxedFn) : Prop where
  handles : Accounted w.nextHandle (values.map Value.raw) (w.trace.filterMap Ev.destroyed)
  opened : Accounted w.nextHandle [] (w.trace.filterMap Ev.opened)
  slots : (values.map Value.slot).Nodup
  allocated : ∀ v ∈ values, v.slot < w.nextSlot
  openings : ∀ v ∈ values, v.opening ∈ w.trace
  clients : ∀ h c, .createClient h (some c) ∈ w.trace →
    (∃ u, Value.client u ∈ values ∧ u.core = h ∧ u.inner.raw = c) ∨ .destroy c ∈ w.trace
  closures : Accounted w.nextFn
    ((heldBy Value.slot Value.protocols w.slots values ++ hand).map BoxedFn.id)
    (w.trace.filterMap Ev.released)
  registered : ∀ h fn, .addProtocol h fn true ∈ w.trace →
    (∃ m, Value.mpv m ∈ values ∧ m.inner.raw = h ∧ fn ∈ m.protocols.map BoxedFn.id) ∨
    .terminateDestroy h ∈ w.trace ∧
      (fn ∈ hand.map BoxedFn.id ∨ fn ∈ w.trace.filterMap Ev.released)
  armed : ∀ fn ∈ heldBy Value.slot Value.protocols w.slots values ++ hand,
    fn.panics = true → fn.id ∈ w.armed
  lawful : Trace.Every Lawful w.trace

namespace Accounts

variable {w : World} {values values' : List Value} {hand : List BoxedFn} {v : Value}

/-- Before anything was opened. -/
theorem init : Accounts {} [] [] where
  handles := Accounted.empty
  opened := Accounted.empty
  slots := List.nodup_nil
  allocated := nofun
  openings := nofun
  clients := nofun
  closures := Accounted.empty
  registered := nofun
  armed := nofun
  lawful := Trace.every_nil

/-- The order of the values does not matter. -/
theorem perm (h : Accounts w values hand) (hp : values.Perm values') : Accounts w values' hand where
  handles := h.handles.perm (hp.map _)
  opened := h.opened
  slots := (hp.map _).nodup_iff.mp h.slots
  allocated v hv := h.allocated v (hp.mem_iff.mpr hv)
  openings v hv := h.openings v (hp.mem_iff.mpr hv)
  clients a c hc := (h.clients a c hc).imp_left fun ⟨u, hu, he⟩ => ⟨u, hp.mem_iff.mp hu, he⟩
  closures := h.closures.perm (((hp.flatMap_right _).append_right _).map _)
  registered a fn ha :=
    (h.registered a fn ha).imp_left fun ⟨m, hm, he⟩ => ⟨m, hp.mem_iff.mp hm, he⟩
  armed fn hfn := h.armed fn (((hp.flatMap_right _).append_right hand).mem_iff.mpr hfn)
  lawful := h.lawful

/-- A plain event. -/
theorem call {e : Ev} (h : Accounts w values hand) (he : PlainEv e (values.map Value.raw)) :
    Accounts (w.log [e]) values hand where
  handles := by
    rw [World.log_trace, Trace.filterMap_snoc_none he.destroyed]
    exact h.handles
  opened := by
    rw [World.log_trace, Trace.filterMap_snoc_none he.opened]
    exact h.opened
  slots := h.slots
  allocated := h.allocated
  openings v hv := List.mem_append_left _ (h.openings v hv)
  clients a c hc := by
    rcases List.mem_append.mp hc with hc | hc
    · exact (h.clients a c hc).imp_right (List.mem_append_left _)
    · have ho := he.opened
      rw [← List.mem_singleton.mp hc] at ho
      cases ho
  closures := by
    rw [World.log_trace, Trace.filterMap_snoc_none he.released]
    exact h.closures
  registered a fn ha := by
    rcases List.mem_append.mp ha with ha | ha
    · refine (h.registered a fn ha).imp_right fun ⟨ht, hf⟩ =>
        ⟨List.mem_append_left _ ht, hf.imp_right fun hf => ?_⟩
      exact List.filterMap_append ▸ List.mem_append_left _ hf
    · exact absurd (List.mem_singleton.mp ha).symm (he.registers a fn)
  armed := h.armed
  lawful := by
    refine Trace.every_snoc.mpr ⟨h.lawful, .of_plain ?_ he.destroyed he.released⟩
    exact fun a ha => h.handles.not_spent (he.handle a ha)

/-- A value gets a fresh handle and a fresh slot. -/
theorem opening (h : Accounts w values hand) (v : Value) (hraw : v.raw = w.nextHandle)
    (hslot : v.slot = w.nextSlot) (hprot : v.protocols = [])
    (hh : ∀ a, v.opening.handle = some a → a ∈ values.map Value.raw) :
    Accounts ({ w with nextHandle := w.nextHandle + 1 }.log [v.opening]).newSlot
      (v :: values) hand := by
  have hfresh : w.nextSlot ∉ values.map Value.slot := by
    intro hmem
    obtain ⟨u, hu, he⟩ := List.mem_map.mp hmem
    exact absurd (h.allocated u hu) (by omega)
  have hheld : heldBy Value.slot Value.protocols (Function.update w.slots w.nextSlot {})
      (v :: values) = heldBy Value.slot Value.protocols w.slots values := by
    rw [heldBy_new hslot hfresh, hprot, List.nil_append]
  exact {
    handles := by
      change Accounted _ _ ((w.trace ++ [v.opening]).filterMap Ev.destroyed)
      rw [Trace.filterMap_snoc_none v.opening_destroyed, List.map_cons, hraw]
      exact h.handles.mint
    opened := by
      change Accounted _ _ ((w.trace ++ [v.opening]).filterMap Ev.opened)
      rw [Trace.filterMap_snoc_some v.opening_opened, hraw]
      exact h.opened.mint.spend (l := [w.nextHandle])
    slots := by
      rw [List.map_cons, hslot]
      exact List.nodup_cons.mpr ⟨hfresh, h.slots⟩
    allocated := fun u hu => by
      rcases List.mem_cons.mp hu with rfl | hu
      · exact hslot ▸ Nat.lt_succ_self _
      · exact Nat.lt_succ_of_lt (h.allocated u hu)
    openings := fun u hu => by
      rcases List.mem_cons.mp hu with rfl | hu
      · exact List.mem_append_right _ (List.mem_singleton_self _)
      · exact List.mem_append_left _ (h.openings u hu)
    clients := fun a c hc => by
      rcases List.mem_append.mp hc with hc | hc
      · exact (h.clients a c hc).imp (fun ⟨u, hu, he⟩ => ⟨u, List.mem_cons_of_mem _ hu, he⟩)
          (List.mem_append_left _)
      · obtain ⟨u, rfl, hu⟩ := v.eq_client_of_opening (List.mem_singleton.mp hc).symm
        exact .inl ⟨u, List.mem_cons_self, hu⟩
    closures := by
      change Accounted _ ((heldBy Value.slot Value.protocols
        (Function.update w.slots w.nextSlot {}) (v :: values) ++ hand).map BoxedFn.id)
        ((w.trace ++ [v.opening]).filterMap Ev.released)
      rw [Trace.filterMap_snoc_none v.opening_released, hheld]
      exact h.closures
    registered := fun a fn ha => by
      rcases List.mem_append.mp ha with ha | ha
      · refine (h.registered a fn ha).imp (fun ⟨m, hm, he⟩ => ⟨m, List.mem_cons_of_mem _ hm, he⟩)
          fun ⟨ht, hf⟩ => ⟨List.mem_append_left _ ht, hf.imp_right fun hr => ?_⟩
        exact List.filterMap_append ▸ List.mem_append_left _ hr
      · exact absurd (List.mem_singleton.mp ha).symm (v.opening_ne_addProtocol a fn)
    armed := fun fn hfn => h.armed fn (hheld ▸ hfn)
    lawful := by
      refine Trace.every_snoc.mpr ⟨h.lawful, .of_plain ?_ v.opening_destroyed
        v.opening_released⟩
      exact fun a ha => h.handles.not_spent (hh a ha) }

/-- The user makes a closure, which the running code holds. -/
theorem mint (h : Accounts w values hand) (panics : Bool) :
    Accounts (w.newFn panics) values (⟨w.nextFn, panics⟩ :: hand) where
  handles := h.handles
  opened := h.opened
  slots := h.slots
  allocated := h.allocated
  openings := h.openings
  clients := h.clients
  closures := by
    refine h.closures.mint.perm ?_
    simpa [World.newFn] using List.perm_middle.symm
  registered a fn ha := (h.registered a fn ha).imp_right fun ⟨ht, hf⟩ =>
    ⟨ht, hf.imp_left (List.mem_cons_of_mem _)⟩
  armed := World.newFn_armed h.armed
  lawful := h.lawful

/-- A closure that serves as a protocol was made before. -/
theorem registered_lt (h : Accounts w values hand) {a fn : ℕ}
    (ha : .addProtocol a fn true ∈ w.trace) : fn < w.nextFn := by
  rcases h.registered a fn ha with ⟨m, hm, -, hfn⟩ | ⟨-, hfn | hfn⟩
  · obtain ⟨f, hf, rfl⟩ := List.mem_map.mp hfn
    exact h.closures.lt_of_held
      (List.mem_map_of_mem (List.mem_append_left _ (mem_heldBy hm hf)))
  · obtain ⟨f, hf, rfl⟩ := List.mem_map.mp hfn
    exact h.closures.lt_of_held (List.mem_map_of_mem (List.mem_append_right _ hf))
  · exact h.closures.lt_of_spent hfn

/-- The content of a slot is exchanged: what goes in was in the hands of the running code,
which then holds what comes out. -/
theorem swap (cell : SlotCell) (hand : List BoxedFn)
    (h : Accounts w (v :: values) (cell.content.toList ++ hand))
    (hnew : ∀ fn ∈ cell.content, ∀ a, .addProtocol a fn.id true ∉ w.trace) :
    Accounts (w.setSlot v.slot cell) (v :: values)
      ((w.slots v.slot).content.toList ++ hand) := by
  have hperm := heldBy_swap Value.protocols w.slots cell hand
    (List.nodup_cons.mp h.slots).1
  exact {
    handles := h.handles
    opened := h.opened
    slots := h.slots
    allocated := h.allocated
    openings := h.openings
    clients := h.clients
    closures := h.closures.perm (hperm.map BoxedFn.id)
    registered := fun a fn ha => by
      refine (h.registered a fn ha).imp_right fun ⟨ht, hf⟩ => ⟨ht, hf.imp_left fun hf => ?_⟩
      rw [List.map_append] at hf ⊢
      refine List.mem_append_right _ ((List.mem_append.mp hf).resolve_left fun hin => ?_)
      obtain ⟨f, hmem, rfl⟩ := List.mem_map.mp hin
      exact hnew f (Option.mem_toList.mp hmem) a ha
    armed := fun fn hfn => h.armed fn (hperm.mem_iff.mpr hfn)
    lawful := h.lawful }

/-- A closure is made and registered as a protocol. -/
theorem register {m : Mpv} (h : Accounts w (.mpv m :: values) hand) (panics : Bool) :
    Accounts ((w.newFn panics).log [.addProtocol m.inner.raw w.nextFn true])
      (.mpv { m with protocols := m.protocols ++ [⟨w.nextFn, panics⟩] } :: values) hand := by
  have hmint := h.mint panics
  have hperm : (heldBy Value.slot Value.protocols w.slots (.mpv m :: values) ++
        ⟨w.nextFn, panics⟩ :: hand).Perm
      (heldBy Value.slot Value.protocols w.slots
        (.mpv { m with protocols := m.protocols ++ [⟨w.nextFn, panics⟩] } :: values) ++
        hand) := by
    rw [List.perm_iff_count]
    intro fn
    simp only [heldBy_cons, Value.protocols, Value.slot, Value.inner, List.count_append,
      List.count_cons, List.count_nil]
    omega
  exact {
    handles := by
      rw [World.log_trace, Trace.filterMap_snoc_none rfl]
      exact h.handles
    opened := by
      rw [World.log_trace, Trace.filterMap_snoc_none rfl]
      exact h.opened
    slots := h.slots
    allocated := fun v hv => by
      rcases List.mem_cons.mp hv with rfl | hv
      · exact h.allocated (.mpv m) List.mem_cons_self
      · exact h.allocated v (List.mem_cons_of_mem _ hv)
    openings := fun v hv => by
      refine List.mem_append_left _ ?_
      rcases List.mem_cons.mp hv with rfl | hv
      · exact h.openings (.mpv m) List.mem_cons_self
      · exact h.openings v (List.mem_cons_of_mem _ hv)
    clients := fun a c hc => by
      have hc : Ev.createClient a (some c) ∈ w.trace :=
        (List.mem_append.mp hc).resolve_right (by simp)
      refine (h.clients a c hc).imp (fun ⟨u, hu, he⟩ => ⟨u, ?_, he⟩) (List.mem_append_left _)
      exact List.mem_cons_of_mem _ ((List.mem_cons.mp hu).resolve_left nofun)
    closures := by
      rw [World.log_trace, Trace.filterMap_snoc_none rfl]
      exact hmint.closures.perm (hperm.map BoxedFn.id)
    registered := fun a fn ha => by
      rcases List.mem_append.mp ha with ha | ha
      · refine (h.registered a fn ha).imp (fun ⟨m', hm', he, hfn⟩ => ?_) fun ⟨ht, hf⟩ =>
          ⟨List.mem_append_left _ ht, hf.imp_right fun hr => ?_⟩
        · rcases List.mem_cons.mp hm' with hm' | hm'
          · obtain rfl := Value.mpv.inj hm'
            refine ⟨_, List.mem_cons_self, he, ?_⟩
            rw [List.map_append]
            exact List.mem_append_left _ hfn
          · exact ⟨m', List.mem_cons_of_mem _ hm', he, hfn⟩
        · exact List.filterMap_append ▸ List.mem_append_left _ hr
      · injection List.mem_singleton.mp ha with ha hfn
        exact .inl ⟨_, List.mem_cons_self, ha.symm, by simp [hfn]⟩
    armed := fun fn hfn => hmint.armed fn (hperm.mem_iff.mpr hfn)
    lawful := by
      refine Trace.every_snoc.mpr ⟨h.lawful, .of_plain (fun a ha => ?_) rfl rfl⟩
      obtain rfl := Option.some.inj ha
      exact h.handles.not_spent List.mem_cons_self }

/-- The destroy call of a value is lawful after its callback was unregistered and taken out
of its slot, when no client borrows the value. -/
theorem lawful_destroying (h : Accounts w (v :: values) hand)
    (htr : ∃ before, w.trace = before ++ [.clearWakeup v.raw, .take v.slot])
    (hfree : ∀ u, Value.client u ∈ values → u.core ≠ v.raw) : Lawful w.trace v.destroying := by
  have hopen : v.opening ∈ w.trace := h.openings v List.mem_cons_self
  have hnone : ∀ fn, v.destroying ≠ .release fn := fun fn hfn => by
    have hr := v.destroying_released
    rw [hfn] at hr
    cases hr
  exact {
    alive := fun a ha => by
      obtain rfl := Option.some.inj (v.destroying_handle.symm.trans ha)
      exact h.handles.not_spent List.mem_cons_self
    unregistered := fun a ha => by
      obtain rfl := Option.some.inj (v.destroying_destroyed.symm.trans ha)
      obtain ⟨before, htr⟩ := htr
      exact ⟨before, v.slot, htr⟩
    terminate := fun a ha => (Value.opening_of_terminates ha).2 ▸ hopen
    detach := fun c hc => by
      obtain ⟨a, ha⟩ := Value.opening_of_destroys hc
      exact ⟨a, ha ▸ hopen⟩
    clients := fun a c ha hc => by
      obtain ⟨hraw, -⟩ := Value.opening_of_terminates ha
      rcases h.clients a c hc with ⟨u, hu, hcore, -⟩ | hd
      · rcases List.mem_cons.mp hu with rfl | hu
        · cases ha
        · exact absurd (hcore.trans hraw.symm) (hfree u hu)
      · exact hd
    once := fun fn hfn => absurd hfn (hnone fn)
    protocols := fun fn a hfn => absurd hfn (hnone fn) }

/-- A value is destroyed after its callback was unregistered and taken out of its slot; the
running code holds the open functions it owned. -/
theorem destroy (h : Accounts w (v :: values) hand)
    (htr : ∃ before, w.trace = before ++ [.clearWakeup v.raw, .take v.slot])
    (hempty : (w.slots v.slot).content = none)
    (hfree : ∀ u, Value.client u ∈ values → u.core ≠ v.raw) :
    Accounts (w.log [v.destroying]) values (v.protocols ++ hand) := by
  have hperm : (heldBy Value.slot Value.protocols w.slots (v :: values) ++ hand).Perm
      (heldBy Value.slot Value.protocols w.slots values ++ (v.protocols ++ hand)) :=
    heldBy_leave values hand hempty
  exact {
    handles := by
      rw [World.log_trace, Trace.filterMap_snoc_some v.destroying_destroyed]
      exact h.handles.spend (l := [v.raw])
    opened := by
      rw [World.log_trace, Trace.filterMap_snoc_none v.destroying_opened]
      exact h.opened
    slots := (List.nodup_cons.mp h.slots).2
    allocated := fun u hu => h.allocated u (List.mem_cons_of_mem _ hu)
    openings := fun u hu => List.mem_append_left _ (h.openings u (List.mem_cons_of_mem _ hu))
    clients := fun a c hc => by
      have hc : Ev.createClient a (some c) ∈ w.trace := by
        refine (List.mem_append.mp hc).resolve_right fun hc => ?_
        have ho := v.destroying_opened
        rw [← List.mem_singleton.mp hc] at ho
        cases ho
      rcases h.clients a c hc with ⟨u, hu, ha, hr⟩ | hd
      · rcases List.mem_cons.mp hu with rfl | hu
        · exact .inr (List.mem_append_right _ (by simp [Value.destroying, hr]))
        · exact .inl ⟨u, hu, ha, hr⟩
      · exact .inr (List.mem_append_left _ hd)
    closures := by
      rw [World.log_trace, Trace.filterMap_snoc_none v.destroying_released]
      exact h.closures.perm (hperm.map BoxedFn.id)
    registered := fun a fn ha => by
      have ha : Ev.addProtocol a fn true ∈ w.trace := by
        refine (List.mem_append.mp ha).resolve_right fun ha => ?_
        have hd := v.destroying_destroyed
        rw [← List.mem_singleton.mp ha] at hd
        cases hd
      rcases h.registered a fn ha with ⟨m, hm, hr, hfn⟩ | ⟨ht, hf⟩
      · rcases List.mem_cons.mp hm with rfl | hm
        · refine .inr ⟨List.mem_append_right _ (by simp [Value.destroying, hr]), .inl ?_⟩
          rw [List.map_append]
          exact List.mem_append_left _ hfn
        · exact .inl ⟨m, hm, hr, hfn⟩
      · refine .inr ⟨List.mem_append_left _ ht, hf.imp (fun hf => ?_) fun hf => ?_⟩
        · rw [List.map_append]
          exact List.mem_append_right _ hf
        · exact List.filterMap_append ▸ List.mem_append_left _ hf
    armed := fun fn hfn => h.armed fn (hperm.mem_iff.mpr hfn)
    lawful := Trace.every_snoc.mpr ⟨h.lawful, h.lawful_destroying htr hfree⟩ }

/-- The running code drops a closure. -/
theorem releaseOne {fn : BoxedFn} (h : Accounts w values (fn :: hand)) :
    Accounts (w.log [.release fn.id]) values hand := by
  have hperm : (heldBy Value.slot Value.protocols w.slots values ++ fn :: hand).Perm
      (fn :: (heldBy Value.slot Value.protocols w.slots values ++ hand)) := List.perm_middle
  have hheld : fn.id ∈
      (heldBy Value.slot Value.protocols w.slots values ++ fn :: hand).map BoxedFn.id :=
    List.mem_map_of_mem (by simp)
  exact {
    handles := by
      rw [World.log_trace, Trace.filterMap_snoc_none rfl]
      exact h.handles
    opened := by
      rw [World.log_trace, Trace.filterMap_snoc_none rfl]
      exact h.opened
    slots := h.slots
    allocated := h.allocated
    openings := fun v hv => List.mem_append_left _ (h.openings v hv)
    clients := fun a c hc => by
      have hc : Ev.createClient a (some c) ∈ w.trace := by simpa [World.log] using hc
      exact (h.clients a c hc).imp_right (List.mem_append_left _)
    closures := by
      rw [World.log_trace, Trace.filterMap_snoc_some (f := Ev.released) (a := fn.id) rfl]
      exact (h.closures.perm (hperm.map BoxedFn.id)).spend (l := [fn.id])
    registered := fun a f ha => by
      have ha : Ev.addProtocol a f true ∈ w.trace := by simpa [World.log] using ha
      refine (h.registered a f ha).imp_right fun hend =>
        ⟨List.mem_append_left _ hend.1, ?_⟩
      have hf := hend.2
      have hsplit : f = fn.id ∨ f ∈ hand.map BoxedFn.id ∨
          f ∈ w.trace.filterMap Ev.released := by simpa [or_assoc] using hf
      rcases hsplit with rfl | hf | hf
      · exact .inr (by simp [World.log, Ev.released])
      · exact .inl hf
      · exact .inr (List.filterMap_append ▸ List.mem_append_left _ hf)
    armed := fun f hf => h.armed f (hperm.mem_iff.mpr (List.mem_cons_of_mem _ hf))
    lawful := by
      refine Trace.every_snoc.mpr ⟨h.lawful, .of_release (fun hr => ?_) fun a ha => ?_⟩
      · exact h.closures.not_spent hheld (mem_released_iff.mpr hr)
      · rcases h.registered a fn.id ha with ⟨m, hm, -, hmem⟩ | ⟨ht, -⟩
        · obtain ⟨f, hf, he⟩ := List.mem_map.mp hmem
          exact absurd he (ne_of_mem_heldBy h.closures.nodup hm hf)
        · exact ht }

/-- The running code drops closures. -/
theorem release {fns : List BoxedFn} (h : Accounts w values (fns ++ hand)) :
    Accounts (w.log (releases fns)) values hand := by
  induction fns generalizing w with
  | nil => simpa [releases, World.log] using h
  | cons fn fns ih =>
      have hrest := ih (w := w.log [.release fn.id]) h.releaseOne
      rwa [World.log_log] at hrest

/-- The running code holds the same closures in another order. -/
theorem perm_hand {hand' : List BoxedFn} (h : Accounts w values hand)
    (hp : hand.Perm hand') : Accounts w values hand' where
  handles := h.handles
  opened := h.opened
  slots := h.slots
  allocated := h.allocated
  openings := h.openings
  clients := h.clients
  closures := h.closures.perm ((hp.append_left _).map _)
  registered a fn ha := (h.registered a fn ha).imp_right fun ⟨ht, hf⟩ =>
    ⟨ht, hf.imp_left (hp.map _).mem_iff.mp⟩
  armed fn hfn := h.armed fn ((hp.append_left _).mem_iff.mpr hfn)
  lawful := h.lawful

/-- `build` moves the handle of a builder into a player. -/
theorem built {b : Builder} (h : Accounts w (.builder b :: values) hand) :
    Accounts w (.mpv { inner := b.inner } :: values) hand where
  handles := h.handles
  opened := h.opened
  slots := h.slots
  allocated v hv := by
    rcases List.mem_cons.mp hv with rfl | hv
    · exact h.allocated (.builder b) List.mem_cons_self
    · exact h.allocated v (List.mem_cons_of_mem _ hv)
  openings v hv := by
    rcases List.mem_cons.mp hv with rfl | hv
    · exact h.openings (.builder b) List.mem_cons_self
    · exact h.openings v (List.mem_cons_of_mem _ hv)
  clients a c hc := (h.clients a c hc).imp_left fun ⟨u, hu, he⟩ =>
    ⟨u, List.mem_cons_of_mem _ ((List.mem_cons.mp hu).resolve_left nofun), he⟩
  closures := h.closures
  registered a fn ha := (h.registered a fn ha).imp_left fun ⟨m, hm, he⟩ =>
    ⟨m, List.mem_cons_of_mem _ ((List.mem_cons.mp hm).resolve_left nofun), he⟩
  armed := h.armed
  lawful := h.lawful

/-! ### What the methods do to the accounts -/

/-- A plain event of the first value. -/
theorem call_head {e : Ev} (h : Accounts w (v :: values) hand) (he : PlainEv e [v.raw]) :
    Accounts (w.log [e]) (v :: values) hand :=
  h.call (he.mono fun _ ha => List.mem_singleton.mp ha ▸ List.mem_cons_self)

/-- Plain events of the first value. -/
theorem calls {l : List Ev} (h : Accounts w (v :: values) hand)
    (hl : ∀ e ∈ l, PlainEv e [v.raw]) : Accounts (w.log l) (v :: values) hand := by
  induction l generalizing w with
  | nil => rwa [World.log_nil]
  | cons e l ih =>
      have hrest := ih (h.call_head (hl e List.mem_cons_self)) fun e' he' =>
        hl e' (List.mem_cons_of_mem _ he')
      rwa [World.log_log] at hrest

/-- A new callback is set. -/
theorem stored (h : Accounts w (v :: values) []) (panics : Bool) :
    Accounts ((w.newFn panics).stored v.slot ⟨w.nextFn, panics⟩ (.setWakeup v.raw v.slot))
      (v :: values) [] := by
  have hswap := swap ⟨some ⟨w.nextFn, panics⟩, true⟩ [] (h.mint panics) fun fn hfn a ha => by
    obtain rfl := Option.some.inj hfn
    exact absurd (h.registered_lt ha) (Nat.lt_irrefl _)
  have hstore := hswap.call_head (e := .store v.slot w.nextFn) ⟨rfl, rfl, rfl, nofun, nofun⟩
  have hset := hstore.call_head (e := .setWakeup v.raw v.slot) (.of_handle rfl rfl rfl nofun rfl)
  have hrel := hset.release
  rwa [World.log_log, World.log_log] at hrel

/-- The wakeup callback is unregistered and taken out of its slot. -/
theorem unregistered (h : Accounts w (v :: values) []) :
    Accounts ((w.setSlot v.slot ⟨none, (w.slots v.slot).leaked⟩).log
      [.clearWakeup v.raw, .take v.slot]) (v :: values) (w.slots v.slot).content.toList := by
  have hclear := h.call_head (e := .clearWakeup v.raw) (.of_handle rfl rfl rfl nofun rfl)
  have htake := hclear.call_head (e := .take v.slot) ⟨rfl, rfl, rfl, nofun, nofun⟩
  have hswap := swap ⟨none, (w.slots v.slot).leaked⟩ [] htake nofun
  rw [List.append_nil, World.log_log] at hswap
  exact hswap

/-- The callback is cleared. -/
theorem cleared (h : Accounts w (v :: values) []) :
    Accounts (w.tornDown v.slot (.clearWakeup v.raw) []) (v :: values) [] := by
  have hhand := h.unregistered.perm_hand (.of_eq (List.append_nil _).symm)
  have hrel := hhand.release
  rwa [World.log_log] at hrel

/-- A value is dropped. -/
theorem dropped (h : Accounts w (v :: values) [])
    (hfree : ∀ u, Value.client u ∈ values → u.core ≠ v.raw) :
    Accounts (w.dropped v) values [] := by
  have hdestroy := h.unregistered.destroy ⟨w.trace, rfl⟩ (by simp) hfree
  have hperm : (v.protocols ++ (w.slots v.slot).content.toList).Perm
      (v.closures w.slots ++ []) := by
    rw [List.append_nil]
    exact List.perm_append_comm
  have hrel := (hdestroy.perm_hand hperm).release
  rwa [World.log_log, World.log_log] at hrel

end Accounts

end Rsmpv
