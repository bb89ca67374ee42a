import Rsmpv.Lib.Account
import Rsmpv.Lib.Trace
import Rsmpv.Lifetime.Accounts
import Rsmpv.Lifetime.Render

/-!
# Accounts of Render Contexts

The accounts of a world with render contexts on one player `m`, whoever holds the core. A
context libmpv made is owned by a value that has not been dropped — alive or leaked — or
has been freed, once; a closure is held, in a slot, next to a context or by the code that
runs, or was forgotten, or has been released, once. The rules follow the steps of the
methods, like those of the accounts of handles.
-/

namespace Rsmpv

/-- Each event in the light of the events before it: no call on a freed context; a context
freed directly after its update callback was unregistered and taken out of the slot it was
registered with; a closure released once, and one that resolves OpenGL functions only after
its context was freed. -/
structure RenderLawful (past : List Ev) (e : Ev) : Prop where
  alive : ∀ r, e.context = some r → r ∉ past.filterMap Ev.contextFreed
  unregistered : ∀ r, e = .freeContext r →
    ∃ before slot, past = before ++ [.clearUpdate r, .take slot] ∧
      ∀ slot', .setUpdate r slot' ∈ past → slot' = slot
  once : ∀ fn, e = .release fn → .release fn ∉ past
  loader : ∀ fn h r, e = .release fn → .createContext h (some fn) (.context r) ∈ past →
    .freeContext r ∈ past

/-- An event that is no creation, no registration, no release, and a call only on a context
of `owned`, which it does not free. -/
structure PlainRender (e : Ev) (owned : List ℕ) : Prop where
  freed : e.contextFreed = none
  released : e.released = none
  creates : ∀ h gpa result, e ≠ .createContext h gpa result
  registers : ∀ r slot, e ≠ .setUpdate r slot
  context : ∀ r, e.context = some r → r ∈ owned

namespace PlainRender

variable {e : Ev} {owned : List ℕ}

/-- A plain event creates no context. -/
theorem contextCreated (h : PlainRender e owned) : e.contextCreated = none := by
  cases e with
  | createContext a gpa result => exact absurd rfl (h.creates a gpa result)
  | _ => rfl

/-- It forgets none. -/
theorem forgotten (h : PlainRender e owned) : e.forgotten = none := by
  cases e with
  | createContext a gpa result => exact absurd rfl (h.creates a gpa result)
  | _ => rfl

/-- A call of `mpv_render_context_update`. -/
theorem update (r : ℕ) : PlainRender (.update r) [r] :=
  ⟨rfl, rfl, nofun, nofun, fun _ ha => List.mem_singleton.mpr (Option.some.inj ha).symm⟩

/-- A call of `mpv_render_context_render`. -/
theorem render (r : ℕ) : PlainRender (.render r) [r] :=
  ⟨rfl, rfl, nofun, nofun, fun _ ha => List.mem_singleton.mpr (Option.some.inj ha).symm⟩

end PlainRender

/-- A call that frees and releases nothing is lawful on a context that is not freed. -/
theorem RenderLawful.of_plain {past : List Ev} {e : Ev}
    (alive : ∀ r, e.context = some r → r ∉ past.filterMap Ev.contextFreed)
    (hf : e.contextFreed = none) (hr : e.released = none) : RenderLawful past e where
  alive := alive
  unregistered r he := by subst he; cases hf
  once fn he := by subst he; cases hr
  loader fn h r he := by subst he; cases hr

/-- When the release of a closure is lawful. -/
theorem RenderLawful.of_release {past : List Ev} {fn : ℕ} (once : .release fn ∉ past)
    (loader : ∀ h r, .createContext h (some fn) (.context r) ∈ past → .freeContext r ∈ past) :
    RenderLawful past (.release fn) where
  alive := nofun
  unregistered := nofun
  once _ hf := Ev.release.inj hf ▸ once
  loader _ h r hf := Ev.release.inj hf ▸ loader h r

/-- The player is terminated after all contexts that were made on it were freed. -/
def TerminatedLast (past : List Ev) (e : Ev) : Prop :=
  ∀ a, e = .terminateDestroy a → ∀ b gpa r, .createContext b gpa (.context r) ∈ past →
    .freeContext r ∈ past

/-- An event that destroys nothing terminates no player. -/
theorem TerminatedLast.of_lives {past : List Ev} {e : Ev} (h : e.destroyed = none) :
    TerminatedLast past e := by
  intro a ha
  subst ha
  cases h

/-- Releasing closures destroys nothing. -/
theorem destroyed_of_mem_releases {fns : List BoxedFn} {e : Ev} (h : e ∈ releases fns) :
    e.destroyed = none := by
  obtain ⟨fn, -, rfl⟩ := List.mem_map.mp h
  rfl

/-- Events that destroy nothing change nothing of the order. -/
theorem TerminatedLast.every_append {tr l : List Ev} (hl : ∀ e ∈ l, e.destroyed = none) :
    Trace.Every TerminatedLast (tr ++ l) ↔ Trace.Every TerminatedLast tr := by
  refine ⟨fun h => Trace.Every.of_append h, fun h => Trace.every_append h ?_⟩
  intro past e future hsplit
  exact .of_lives (hl e (hsplit ▸ List.mem_append_right _ List.mem_cons_self))

/-- So do events before the releases of closures. -/
theorem TerminatedLast.every_append_releases {tr l : List Ev} {fns : List BoxedFn}
    (hl : ∀ e ∈ l, e.destroyed = none) :
    Trace.Every TerminatedLast (tr ++ (l ++ releases fns)) ↔ Trace.Every TerminatedLast tr := by
  refine every_append fun e he => ?_
  rcases List.mem_append.mp he with he | he
  · exact hl e he
  · exact destroyed_of_mem_releases he

/-- The `get_proc_address` closure of a context. -/
def RenderInner.loader (r : RenderInner) : List BoxedFn := r.getProcAddress.toList

/-- The accounts of a world in which `contexts` are owned and the running code holds the
closures in `hand`. -/
structure RenderAccounts (m : Mpv) (w : World) (contexts : List RenderInner)
    (hand : List BoxedFn) : Prop where
  freed : Accounted w.nextContext (contexts.map RenderInner.raw)
    (w.trace.filterMap Ev.contextFreed)
  created : Accounted w.nextContext [] (w.trace.filterMap Ev.contextCreated)
  slots : (m.inner.wakeupSlot :: contexts.map RenderInner.updateSlot).Nodup
  allocated : ∀ i ∈ m.inner.wakeupSlot :: contexts.map RenderInner.updateSlot, i < w.nextSlot
  player : (Value.mpv m).closures w.slots = []
  registered : ∀ r slot, .setUpdate r slot ∈ w.trace →
    r < w.nextContext ∧ ∀ c ∈ contexts, c.raw = r → slot = c.updateSlot
  closures : Accounted w.nextFn
    ((heldBy RenderInner.updateSlot RenderInner.loader w.slots contexts ++ hand).map
      BoxedFn.id ++ w.trace.filterMap Ev.forgotten) (w.trace.filterMap Ev.released)
  loaders : ∀ h fn r, .createContext h (some fn) (.context r) ∈ w.trace →
    (∃ c ∈ contexts, c.raw = r ∧ fn ∈ c.loader.map BoxedFn.id) ∨ .freeContext r ∈ w.trace
  failed : ∀ h fn, .createContext h (some fn) .failed ∈ w.trace →
    fn ∈ hand.map BoxedFn.id ∨ fn ∈ w.trace.filterMap Ev.released
  armed : ∀ fn ∈ heldBy RenderInner.updateSlot RenderInner.loader w.slots contexts ++ hand,
    fn.panics = true → fn.id ∈ w.armed
  lawful : Trace.Every RenderLawful w.trace

namespace RenderAccounts

variable {m : Mpv} {w : World} {contexts contexts' : List RenderInner}
  {hand hand' : List BoxedFn} {c : RenderInner}

/-- The order of the contexts does not matter. -/
theorem perm (h : RenderAccounts m w contexts hand) (hp : contexts.Perm contexts') :
    RenderAccounts m w contexts' hand where
  freed := h.freed.perm (hp.map _)
  created := h.created
  slots := ((hp.map _).cons _).nodup_iff.mp h.slots
  allocated i hi := h.allocated i (((hp.map _).cons _).mem_iff.mpr hi)
  player := h.player
  registered r slot hr := (h.registered r slot hr).imp_right fun hs c hc =>
    hs c (hp.mem_iff.mpr hc)
  closures := h.closures.perm ((((hp.flatMap_right _).append_right _).map _).append_right _)
  loaders a fn r hr := (h.loaders a fn r hr).imp_left fun ⟨c, hc, he⟩ =>
    ⟨c, hp.mem_iff.mp hc, he⟩
  failed := h.failed
  armed fn hfn := h.armed fn (((hp.flatMap_right _).append_right hand).mem_iff.mpr hfn)
  lawful := h.lawful

/-- The strong count has no part in the accounts. -/
theorem strong (h : RenderAccounts m w contexts hand) (n : ℕ) :
    RenderAccounts m { w with strong := n } contexts hand where
  freed := h.freed
  created := h.created
  slots := h.slots
  allocated := h.allocated
  player := h.player
  registered := h.registered
  closures := h.closures
  loaders := h.loaders
  failed := h.failed
  armed := h.armed
  lawful := h.lawful

/-- What a trace keeps of closures when an event is appended that releases none. -/
theorem failed_snoc {e : Ev} (h : RenderAccounts m w contexts hand) {a fn : ℕ}
    (ha : .createContext a (some fn) .failed ∈ w.trace) :
    fn ∈ hand.map BoxedFn.id ∨ fn ∈ (w.trace ++ [e]).filterMap Ev.released :=
  (h.failed a fn ha).imp_right fun hr => List.filterMap_append ▸ List.mem_append_left _ hr

/-- A plain event. -/
theorem call {e : Ev} (h : RenderAccounts m w contexts hand)
    (he : PlainRender e (contexts.map RenderInner.raw)) :
    RenderAccounts m (w.log [e]) contexts hand where
  freed := by
    rw [World.log_trace, Trace.filterMap_snoc_none he.freed]
    exact h.freed
  created := by
    rw [World.log_trace, Trace.filterMap_snoc_none he.contextCreated]
    exact h.created
  slots := h.slots
  allocated := h.allocated
  player := h.player
  registered r slot hr := by
    rcases List.mem_append.mp hr with hr | hr
    · exact h.registered r slot hr
    · exact absurd (List.mem_singleton.mp hr).symm (he.registers r slot)
  closures := by
    rw [World.log_trace, Trace.filterMap_snoc_none he.forgotten,
      Trace.filterMap_snoc_none he.released]
    exact h.closures
  loaders a fn r hr := by
    rcases List.mem_append.mp hr with hr | hr
    · exact (h.loaders a fn r hr).imp_right (List.mem_append_left _)
    · exact absurd (List.mem_singleton.mp hr).symm (he.creates a _ _)
  failed a fn ha := by
    rcases List.mem_append.mp ha with ha | ha
    · exact h.failed_snoc ha
    · exact absurd (List.mem_singleton.mp ha).symm (he.creates a _ _)
  armed := h.armed
  lawful := by
    refine Trace.every_snoc.mpr ⟨h.lawful, .of_plain ?_ he.freed he.released⟩
    exact fun r hr => h.freed.not_spent (he.context r hr)

/-- The user makes a closure, which the running code holds. -/
theorem mint (h : RenderAccounts m w contexts hand) (panics : Bool) :
    RenderAccounts m (w.newFn panics) contexts (⟨w.nextFn, panics⟩ :: hand) where
  freed := h.freed
  created := h.created
  slots := h.slots
  allocated := h.allocated
  player := h.player
  registered := h.registered
  closures := by
    refine h.closures.mint.perm ?_
    simpa [World.newFn] using List.perm_middle.symm
  loaders := h.loaders
  failed a fn ha := (h.failed a fn ha).imp_left (List.mem_cons_of_mem _)
  armed := World.newFn_armed h.armed
  lawful := h.lawful

/-- A closure whose creation failed was made before. -/
theorem failed_lt (h : RenderAccounts m w contexts hand) {a fn : ℕ}
    (ha : .createContext a (some fn) .failed ∈ w.trace) : fn < w.nextFn := by
  rcases h.failed a fn ha with hf | hf
  · refine h.closures.lt_of_held (List.mem_append_left _ ?_)
    rw [List.map_append]
    exact List.mem_append_right _ hf
  · exact h.closures.lt_of_spent hf

/-- An event that creates a context, or fails to. -/
theorem lawful_create (h : RenderAccounts m w contexts hand) (a : ℕ) (gpa : Option ℕ)
    (result : ContextResult) :
    Trace.Every RenderLawful (w.trace ++ [.createContext a gpa result]) :=
  Trace.every_snoc.mpr ⟨h.lawful, .of_plain nofun rfl rfl⟩

/-- A closure of the running code whose creation failed is not the one for the next. -/
theorem failed_rest {gpa : Option BoxedFn} {a fn : ℕ}
    (hnew : ∀ fn ∈ gpa, ∀ a, .createContext a (some fn.id) .failed ∉ w.trace)
    (ha : .createContext a (some fn) .failed ∈ w.trace)
    (hf : fn ∈ (gpa.toList ++ hand).map BoxedFn.id) : fn ∈ hand.map BoxedFn.id := by
  rw [List.map_append] at hf
  refine (List.mem_append.mp hf).resolve_left fun hin => ?_
  obtain ⟨f, hmem, rfl⟩ := List.mem_map.mp hin
  exact hnew f (Option.mem_toList.mp hmem) a ha

/-- A context is made with the closure the running code holds for it. -/
theorem create {gpa : Option BoxedFn} (h : RenderAccounts m w contexts (gpa.toList ++ hand))
    (hnew : ∀ fn ∈ gpa, ∀ a, .createContext a (some fn.id) .failed ∉ w.trace) (a : ℕ) :
    RenderAccounts m (w.contextCreated a gpa) (⟨w.nextContext, gpa, w.nextSlot⟩ :: contexts)
      hand := by
  have hfresh : w.nextSlot ∉ m.inner.wakeupSlot :: contexts.map RenderInner.updateSlot :=
    fun hmem => Nat.lt_irrefl _ (h.allocated _ hmem)
  have hheld : heldBy RenderInner.updateSlot RenderInner.loader
      (Function.update w.slots w.nextSlot {}) (⟨w.nextContext, gpa, w.nextSlot⟩ :: contexts) =
      gpa.toList ++ heldBy RenderInner.updateSlot RenderInner.loader w.slots contexts :=
    heldBy_new rfl fun hmem => hfresh (List.mem_cons_of_mem _ hmem)
  have hperm : (heldBy RenderInner.updateSlot RenderInner.loader w.slots contexts ++
      (gpa.toList ++ hand)).Perm (gpa.toList ++
        heldBy RenderInner.updateSlot RenderInner.loader w.slots contexts ++ hand) := by
    rw [List.append_assoc]
    exact List.perm_append_comm_assoc _ _ _
  exact {
    freed := by
      change Accounted _ _ ((w.trace ++ [_]).filterMap Ev.contextFreed)
      rw [Trace.filterMap_snoc_none rfl]
      exact h.freed.mint
    created := by
      change Accounted _ _ ((w.trace ++ [_]).filterMap Ev.contextCreated)
      rw [Trace.filterMap_snoc_some (f := Ev.contextCreated) rfl]
      exact h.created.mint.spend (l := [w.nextContext])
    slots := (List.Perm.swap _ _ _).nodup_iff.mp (List.nodup_cons.mpr ⟨hfresh, h.slots⟩)
    allocated := fun i hi => by
      have hi : i = w.nextSlot ∨
          i ∈ m.inner.wakeupSlot :: contexts.map RenderInner.updateSlot := by
        simpa [or_left_comm] using hi
      rcases hi with rfl | hi
      · exact Nat.lt_succ_self _
      · exact Nat.lt_succ_of_lt (h.allocated i hi)
    player := by
      have hne : (Value.mpv m).slot ≠ w.nextSlot := fun he =>
        hfresh (he ▸ List.mem_cons_self)
      have hclosures := h.player
      rw [Value.closures] at hclosures ⊢
      change ((Function.update w.slots w.nextSlot {}) (Value.mpv m).slot).content.toList ++ _ =
        []
      rwa [Function.update_of_ne hne]
    registered := fun r slot hr => by
      have hr : Ev.setUpdate r slot ∈ w.trace := (List.mem_append.mp hr).resolve_right (by simp)
      obtain ⟨hlt, hslot⟩ := h.registered r slot hr
      refine ⟨Nat.lt_succ_of_lt hlt, fun c hc he => ?_⟩
      rcases List.mem_cons.mp hc with rfl | hc
      · exact absurd he (Nat.ne_of_gt hlt)
      · exact hslot c hc he
    closures := by
      change Accounted _ ((heldBy RenderInner.updateSlot RenderInner.loader
        (Function.update w.slots w.nextSlot {}) _ ++ hand).map BoxedFn.id ++
          (w.trace ++ [_]).filterMap Ev.forgotten) ((w.trace ++ [_]).filterMap Ev.released)
      rw [Trace.filterMap_snoc_none rfl, Trace.filterMap_snoc_none rfl, hheld]
      exact h.closures.perm ((hperm.map _).append_right _)
    loaders := fun a fn r hr => by
      rcases List.mem_append.mp hr with hr | hr
      · exact (h.loaders a fn r hr).imp (fun ⟨c, hc, he⟩ => ⟨c, List.mem_cons_of_mem _ hc, he⟩)
          (List.mem_append_left _)
      · injection List.mem_singleton.mp hr with _ hgpa hctx
        injection hctx with hctx
        obtain ⟨f, hf, rfl⟩ := Option.map_eq_some_iff.mp hgpa.symm
        refine .inl ⟨_, List.mem_cons_self, hctx.symm, ?_⟩
        exact List.mem_map_of_mem (Option.mem_toList.mpr hf)
    failed := fun a fn ha => by
      have ha : Ev.createContext a (some fn) .failed ∈ w.trace :=
        (List.mem_append.mp ha).resolve_right (by simp)
      exact (h.failed_snoc ha).imp_left fun hf => failed_rest hnew ha hf
    armed := fun fn hfn => h.armed fn (hperm.mem_iff.mpr (hheld ▸ hfn))
    lawful := h.lawful_create _ _ _ }

/-- The creation of a context fails; the running code still holds the closure for it. -/
theorem fail {gpa : Option BoxedFn} (h : RenderAccounts m w contexts (gpa.toList ++ hand))
    (a : ℕ) : RenderAccounts m (w.log [.createContext a (gpa.map BoxedFn.id) .failed]) contexts
      (gpa.toList ++ hand) where
  freed := by
    rw [World.log_trace, Trace.filterMap_snoc_none rfl]
    exact h.freed
  created := by
    rw [World.log_trace, Trace.filterMap_snoc_none rfl]
    exact h.created
  slots := h.slots
  allocated := h.allocated
  player := h.player
  registered r slot hr := h.registered r slot ((List.mem_append.mp hr).resolve_right (by simp))
  closures := by
    rw [World.log_trace, Trace.filterMap_snoc_none rfl, Trace.filterMap_snoc_none rfl]
    exact h.closures
  loaders a fn r hr := (h.loaders a fn r ((List.mem_append.mp hr).resolve_right
    (by simp))).imp_right (List.mem_append_left _)
  failed a fn ha := by
    rcases List.mem_append.mp ha with ha | ha
    · exact h.failed_snoc ha
    · injection List.mem_singleton.mp ha with _ hgpa
      obtain ⟨f, hf, rfl⟩ := Option.map_eq_some_iff.mp hgpa.symm
      exact .inl (List.mem_map_of_mem (List.mem_append_left _ (Option.mem_toList.mpr hf)))
  armed := h.armed
  lawful := h.lawful_create _ _ _

/-- The creation of a context succeeds without one; the closure for it is forgotten. -/
theorem null {gpa : Option BoxedFn} (h : RenderAccounts m w contexts (gpa.toList ++ hand))
    (hnew : ∀ fn ∈ gpa, ∀ a, .createContext a (some fn.id) .failed ∉ w.trace) (a : ℕ) :
    RenderAccounts m (w.log [.createContext a (gpa.map BoxedFn.id) .null]) contexts hand where
  freed := by
    rw [World.log_trace, Trace.filterMap_snoc_none rfl]
    exact h.freed
  created := by
    rw [World.log_trace, Trace.filterMap_snoc_none rfl]
    exact h.created
  slots := h.slots
  allocated := h.allocated
  player := h.player
  registered r slot hr := h.registered r slot ((List.mem_append.mp hr).resolve_right (by simp))
  closures := by
    have hforgotten : (w.trace ++ [Ev.createContext a (gpa.map BoxedFn.id) .null]).filterMap
        Ev.forgotten = w.trace.filterMap Ev.forgotten ++ (gpa.map BoxedFn.id).toList := by
      cases gpa <;> simp [Ev.forgotten]
    rw [World.log_trace, World.log_slots, hforgotten, Trace.filterMap_snoc_none rfl]
    refine h.closures.perm ?_
    rw [List.perm_iff_count]
    intro n
    simp only [List.map_append, List.count_append, Option.toList_map]
    omega
  loaders a fn r hr := (h.loaders a fn r ((List.mem_append.mp hr).resolve_right
    (by simp))).imp_right (List.mem_append_left _)
  failed a fn ha := by
    have ha : Ev.createContext a (some fn) .failed ∈ w.trace :=
      (List.mem_append.mp ha).resolve_right (by simp)
    exact (h.failed_snoc ha).imp_left fun hf => failed_rest hnew ha hf
  armed fn hfn := h.armed fn (by
    rcases List.mem_append.mp hfn with hfn | hfn
    · exact List.mem_append_left _ hfn
    · exact List.mem_append_right _ (List.mem_append_right _ hfn))
  lawful := h.lawful_create _ _ _

/-- The content of an update slot is exchanged: what goes in was in the hands of the running
code, which then holds what comes out. -/
theorem swap (cell : SlotCell) (hand : List BoxedFn)
    (h : RenderAccounts m w (c :: contexts) (cell.content.toList ++ hand))
    (hnew : ∀ fn ∈ cell.content, ∀ a, .createContext a (some fn.id) .failed ∉ w.trace) :
    RenderAccounts m (w.setSlot c.updateSlot cell) (c :: contexts)
      ((w.slots c.updateSlot).content.toList ++ hand) := by
  obtain ⟨hplayer, hslots⟩ := List.nodup_cons.mp h.slots
  have hperm := heldBy_swap RenderInner.loader w.slots cell hand (List.nodup_cons.mp hslots).1
  exact {
    freed := h.freed
    created := h.created
    slots := h.slots
    allocated := h.allocated
    player := by
      have hne : (Value.mpv m).slot ≠ c.updateSlot := fun he =>
        hplayer (List.mem_cons.mpr (.inl he))
      have hclosures := h.player
      rw [Value.closures] at hclosures ⊢
      rwa [World.setSlot_slots, Function.update_of_ne hne]
    registered := h.registered
    closures := h.closures.perm ((hperm.map BoxedFn.id).append_right _)
    loaders := h.loaders
    failed := fun a fn ha => by
      refine (h.failed a fn ha).imp_left fun hf => ?_
      rw [List.map_append]
      exact List.mem_append_right _ (failed_rest hnew ha hf)
    armed := fun fn hfn => h.armed fn (hperm.mem_iff.mpr hfn)
    lawful := h.lawful }

/-- The slot of a context is registered with libmpv. -/
theorem register (h : RenderAccounts m w (c :: contexts) hand) :
    RenderAccounts m (w.log [.setUpdate c.raw c.updateSlot]) (c :: contexts) hand where
  freed := by
    rw [World.log_trace, Trace.filterMap_snoc_none rfl]
    exact h.freed
  created := by
    rw [World.log_trace, Trace.filterMap_snoc_none rfl]
    exact h.created
  slots := h.slots
  allocated := h.allocated
  player := h.player
  registered r slot hr := by
    rcases List.mem_append.mp hr with hr | hr
    · exact h.registered r slot hr
    · injection List.mem_singleton.mp hr with hraw hslot
      subst hraw hslot
      refine ⟨h.freed.lt_of_held List.mem_cons_self, fun c' hc' he => ?_⟩
      rcases List.mem_cons.mp hc' with rfl | hc'
      · rfl
      · have hnodup := (List.nodup_cons.mp h.freed.nodup).1
        exact absurd (he ▸ List.mem_map_of_mem hc') hnodup
  closures := by
    rw [World.log_trace, Trace.filterMap_snoc_none rfl, Trace.filterMap_snoc_none rfl]
    exact h.closures
  loaders a fn r hr := (h.loaders a fn r ((List.mem_append.mp hr).resolve_right
    (by simp))).imp_right (List.mem_append_left _)
  failed a fn ha := h.failed_snoc ((List.mem_append.mp ha).resolve_right (by simp))
  armed := h.armed
  lawful := by
    refine Trace.every_snoc.mpr ⟨h.lawful, .of_plain (fun r hr => ?_) rfl rfl⟩
    obtain rfl := Option.some.inj hr
    exact h.freed.not_spent List.mem_cons_self

/-- A context may be freed after its callback was unregistered and taken out of its slot. -/
theorem lawful_free (h : RenderAccounts m w (c :: contexts) hand)
    (htr : ∃ before, w.trace = before ++ [.clearUpdate c.raw, .take c.updateSlot]) :
    RenderLawful w.trace (.freeContext c.raw) where
  alive r hr := by
    obtain rfl := Option.some.inj hr
    exact h.freed.not_spent List.mem_cons_self
  unregistered r hr := by
    obtain rfl := Ev.freeContext.inj hr
    obtain ⟨before, htr⟩ := htr
    refine ⟨before, c.updateSlot, htr, fun slot' hs => ?_⟩
    exact (h.registered _ slot' hs).2 c List.mem_cons_self rfl
  once := nofun
  loader := nofun

/-- A context is freed after its callback was unregistered and taken out of its slot; the
running code holds its closure. -/
theorem free (h : RenderAccounts m w (c :: contexts) hand)
    (htr : ∃ before, w.trace = before ++ [.clearUpdate c.raw, .take c.updateSlot])
    (hempty : (w.slots c.updateSlot).content = none) :
    RenderAccounts m (w.log [.freeContext c.raw]) contexts (c.loader ++ hand) := by
  have hperm : (heldBy RenderInner.updateSlot RenderInner.loader w.slots (c :: contexts) ++
      hand).Perm (heldBy RenderInner.updateSlot RenderInner.loader w.slots contexts ++
        (c.loader ++ hand)) := heldBy_leave contexts hand hempty
  exact {
    freed := by
      rw [World.log_trace, Trace.filterMap_snoc_some (f := Ev.contextFreed) rfl]
      exact h.freed.spend (l := [c.raw])
    created := by
      rw [World.log_trace, Trace.filterMap_snoc_none rfl]
      exact h.created
    slots := h.slots.sublist ((List.sublist_cons_self _ _).cons_cons _)
    allocated := fun i hi => h.allocated i (by
      rcases List.mem_cons.mp hi with rfl | hi
      · exact List.mem_cons_self
      · exact List.mem_cons_of_mem _ (List.mem_cons_of_mem _ hi))
    player := h.player
    registered := fun r slot hr => by
      have hr : Ev.setUpdate r slot ∈ w.trace := (List.mem_append.mp hr).resolve_right (by simp)
      exact (h.registered r slot hr).imp_right fun hs c' hc' => hs c' (List.mem_cons_of_mem _ hc')
    closures := by
      rw [World.log_trace, Trace.filterMap_snoc_none rfl, Trace.filterMap_snoc_none rfl]
      exact h.closures.perm ((hperm.map _).append_right _)
    loaders := fun a fn r hr => by
      have hr : Ev.createContext a (some fn) (.context r) ∈ w.trace :=
        (List.mem_append.mp hr).resolve_right (by simp)
      rcases h.loaders a fn r hr with ⟨c', hc', hraw, hfn⟩ | hf
      · rcases List.mem_cons.mp hc' with rfl | hc'
        · exact .inr (List.mem_append_right _ (by simp [hraw]))
        · exact .inl ⟨c', hc', hraw, hfn⟩
      · exact .inr (List.mem_append_left _ hf)
    failed := fun a fn ha => by
      have ha : Ev.createContext a (some fn) .failed ∈ w.trace :=
        (List.mem_append.mp ha).resolve_right (by simp)
      refine (h.failed_snoc ha).imp_left fun hf => ?_
      rw [List.map_append]
      exact List.mem_append_right _ hf
    armed := fun fn hfn => h.armed fn (hperm.mem_iff.mpr hfn)
    lawful := Trace.every_snoc.mpr ⟨h.lawful, h.lawful_free htr⟩ }

/-- The running code drops a closure. -/
theorem releaseOne {fn : BoxedFn} (h : RenderAccounts m w contexts (fn :: hand)) :
    RenderAccounts m (w.log [.release fn.id]) contexts hand := by
  have hperm : (heldBy RenderInner.updateSlot RenderInner.loader w.slots contexts ++
      fn :: hand).Perm (fn ::
        (heldBy RenderInner.updateSlot RenderInner.loader w.slots contexts ++ hand)) :=
    List.perm_middle
  have hheld : fn.id ∈ (heldBy RenderInner.updateSlot RenderInner.loader w.slots contexts ++
      fn :: hand).map BoxedFn.id ++ w.trace.filterMap Ev.forgotten :=
    List.mem_append_left _ (List.mem_map_of_mem (by simp))
  exact {
    freed := by
      rw [World.log_trace, Trace.filterMap_snoc_none rfl]
      exact h.freed
    created := by
      rw [World.log_trace, Trace.filterMap_snoc_none rfl]
      exact h.created
    slots := h.slots
    allocated := h.allocated
    player := h.player
    registered := fun r slot hr =>
      h.registered r slot ((List.mem_append.mp hr).resolve_right (by simp))
    closures := by
      rw [World.log_trace, Trace.filterMap_snoc_none rfl,
        Trace.filterMap_snoc_some (f := Ev.released) (a := fn.id) rfl]
      exact (h.closures.perm ((hperm.map BoxedFn.id).append_right _)).spend (l := [fn.id])
    loaders := fun a f r hr => (h.loaders a f r ((List.mem_append.mp hr).resolve_right
      (by simp))).imp_right (List.mem_append_left _)
    failed := fun a f ha => by
      rcases h.failed a f ((List.mem_append.mp ha).resolve_right (by simp)) with hf | hf
      · rcases List.mem_cons.mp hf with rfl | hf
        · exact .inr (by simp [Ev.released])
        · exact .inl hf
      · exact .inr (List.filterMap_append ▸ List.mem_append_left _ hf)
    armed := fun f hf => h.armed f (hperm.mem_iff.mpr (List.mem_cons_of_mem _ hf))
    lawful := by
      refine Trace.every_snoc.mpr ⟨h.lawful, .of_release (fun hr => ?_) fun a r hr => ?_⟩
      · exact h.closures.not_spent hheld (mem_released_iff.mpr hr)
      · rcases h.loaders a fn.id r hr with ⟨c, hc, -, hmem⟩ | hfree
        · obtain ⟨f, hf, he⟩ := List.mem_map.mp hmem
          have hnodup := (List.nodup_append.mp h.closures.nodup).1
          exact absurd he (ne_of_mem_heldBy hnodup hc hf)
        · exact hfree }

/-- The running code drops closures. -/
theorem release {fns : List BoxedFn} (h : RenderAccounts m w contexts (fns ++ hand)) :
    RenderAccounts m (w.log (releases fns)) contexts hand := by
  induction fns generalizing w with
  | nil => simpa [releases, World.log] using h
  | cons fn fns ih =>
      have hrest := ih (w := w.log [.release fn.id]) h.releaseOne
      rwa [World.log_log] at hrest

/-- The slot of the player is emptied. -/
theorem playerSlot (h : RenderAccounts m w contexts hand) (leaked : Bool) :
    RenderAccounts m (w.setSlot m.inner.wakeupSlot ⟨none, leaked⟩) contexts hand := by
  have hheld : heldBy RenderInner.updateSlot RenderInner.loader
      (Function.update w.slots m.inner.wakeupSlot ⟨none, leaked⟩) contexts =
        heldBy RenderInner.updateSlot RenderInner.loader w.slots contexts :=
    heldBy_update (List.nodup_cons.mp h.slots).1
  exact {
    freed := h.freed
    created := h.created
    slots := h.slots
    allocated := h.allocated
    player := by
      have hclosures := h.player
      rw [Value.closures, List.append_eq_nil_iff] at hclosures
      rw [Value.closures, World.setSlot_slots, hclosures.2]
      simp [Value.slot, Value.inner]
    registered := h.registered
    closures := by
      rw [World.setSlot_slots, hheld]
      exact h.closures
    loaders := h.loaders
    failed := h.failed
    armed := fun fn hfn => h.armed fn (by rwa [World.setSlot_slots, hheld] at hfn)
    lawful := h.lawful }

/-- The running code holds the same closures in another order. -/
theorem perm_hand (h : RenderAccounts m w contexts hand) (hp : hand.Perm hand') :
    RenderAccounts m w contexts hand' where
  freed := h.freed
  created := h.created
  slots := h.slots
  allocated := h.allocated
  player := h.player
  registered := h.registered
  closures := h.closures.perm (((hp.append_left _).map _).append_right _)
  loaders := h.loaders
  failed a fn ha := (h.failed a fn ha).imp_left (hp.map _).mem_iff.mp
  armed fn hfn := h.armed fn ((hp.append_left _).mem_iff.mpr hfn)
  lawful := h.lawful

/-! ### What the methods do to the accounts -/

/-- A plain event of the first context. -/
theorem call_head {e : Ev} (h : RenderAccounts m w (c :: contexts) hand)
    (he : PlainRender e [c.raw]) : RenderAccounts m (w.log [e]) (c :: contexts) hand :=
  h.call { he with
    context := fun r hr => List.mem_singleton.mp (he.context r hr) ▸ List.mem_cons_self }

/-- A new update callback is set. -/
theorem stored (h : RenderAccounts m w (c :: contexts) []) (panics : Bool) :
    RenderAccounts m
      ((w.newFn panics).stored c.updateSlot ⟨w.nextFn, panics⟩ (.setUpdate c.raw c.updateSlot))
      (c :: contexts) [] := by
  have hswap := swap ⟨some ⟨w.nextFn, panics⟩, true⟩ [] (h.mint panics) fun fn hfn a ha => by
    obtain rfl := Option.some.inj hfn
    exact absurd (h.failed_lt ha) (Nat.lt_irrefl _)
  have hstore := hswap.call_head (e := .store c.updateSlot w.nextFn)
    ⟨rfl, rfl, nofun, nofun, nofun⟩
  have hrel := hstore.register.release
  rwa [World.log_log, World.log_log] at hrel

/-- The update callback is unregistered and taken out of its slot. -/
theorem unregistered (h : RenderAccounts m w (c :: contexts) []) :
    RenderAccounts m ((w.setSlot c.updateSlot ⟨none, (w.slots c.updateSlot).leaked⟩).log
      [.clearUpdate c.raw, .take c.updateSlot]) (c :: contexts)
      (w.slots c.updateSlot).content.toList := by
  have hclear := h.call_head (e := .clearUpdate c.raw)
    ⟨rfl, rfl, nofun, nofun, fun r hr => by simpa [Ev.context] using hr.symm⟩
  have htake := hclear.call_head (e := .take c.updateSlot) ⟨rfl, rfl, nofun, nofun, nofun⟩
  have hswap := swap ⟨none, (w.slots c.updateSlot).leaked⟩ [] htake nofun
  rw [List.append_nil, World.log_log] at hswap
  exact hswap

/-- The update callback is cleared. -/
theorem cleared (h : RenderAccounts m w (c :: contexts) []) :
    RenderAccounts m (w.tornDown c.updateSlot (.clearUpdate c.raw) []) (c :: contexts) [] := by
  have hhand := h.unregistered.perm_hand (.of_eq (List.append_nil _).symm)
  have hrel := hhand.release
  rwa [World.log_log] at hrel

/-- A context is dropped. -/
theorem dropped (h : RenderAccounts m w (c :: contexts) []) :
    RenderAccounts m (w.freed c) contexts [] := by
  have hfree := h.unregistered.free ⟨w.trace, rfl⟩ (by simp)
  have hperm : (c.loader ++ (w.slots c.updateSlot).content.toList).Perm
      (c.closures w.slots ++ []) := by
    rw [List.append_nil]
    exact List.perm_append_comm
  have hrel := (hfree.perm_hand hperm).release
  rwa [World.log_log, World.log_log] at hrel

/-- The closure for a context is made. -/
theorem loaded (h : RenderAccounts m w contexts []) (gpa : Option Bool) :
    RenderAccounts m (w.newGetProcAddress gpa) contexts ((w.getProcAddress gpa).toList ++ []) ∧
      ∀ fn ∈ w.getProcAddress gpa, ∀ a,
        .createContext a (some fn.id) .failed ∉ (w.newGetProcAddress gpa).trace := by
  cases gpa with
  | none => exact ⟨h, nofun⟩
  | some panics =>
      refine ⟨h.mint panics, fun fn hfn a ha => ?_⟩
      obtain rfl := Option.some.inj hfn
      exact absurd (h.failed_lt ha) (Nat.lt_irrefl _)

/-- The player is dropped. -/
theorem playerDropped (h : RenderAccounts m w contexts []) :
    RenderAccounts m (w.dropped (.mpv m)) contexts [] := by
  have hslot := h.playerSlot (w.slots m.inner.wakeupSlot).leaked
  have hclear := hslot.call (e := .clearWakeup m.inner.raw) ⟨rfl, rfl, nofun, nofun, nofun⟩
  have htake := hclear.call (e := .take m.inner.wakeupSlot) ⟨rfl, rfl, nofun, nofun, nofun⟩
  have hend := htake.call (e := .terminateDestroy m.inner.raw) ⟨rfl, rfl, nofun, nofun, nofun⟩
  rw [World.log_log, World.log_log] at hend
  have hevents : (Value.mpv m).dropEvents w.slots = [.clearWakeup m.inner.raw,
      .take m.inner.wakeupSlot, .terminateDestroy m.inner.raw] := by
    rw [Value.dropEvents, h.player]
    rfl
  rw [World.dropped, hevents]
  exact hend

/-- An `Arc` of the player is dropped. -/
theorem arcDropped (h : RenderAccounts m w contexts []) :
    RenderAccounts m (w.arcDropped m) contexts [] := by
  rw [World.arcDropped]
  split
  · exact (h.strong _).playerDropped
  · exact h.strong _

/-- The closures of one context that panic are among all that do. -/
theorem panicCount_le (h : RenderAccounts m w (c :: contexts) []) :
    panicCount (c.closures w.slots) ≤ w.armed.length := by
  have hall := (List.nodup_append.mp h.closures.nodup).1
  rw [List.append_nil, heldBy_cons, List.map_append] at hall
  refine panicCount_le_length (List.nodup_append.mp hall).1 fun fn hfn => h.armed fn ?_
  rw [List.append_nil, heldBy_cons]
  exact List.mem_append_left _ hfn

/-- When no context is owned, all that were made have been freed. -/
theorem all_freed (h : RenderAccounts m w [] hand) {a : ℕ} {gpa : Option ℕ} {r : ℕ}
    (hr : .createContext a gpa (.context r) ∈ w.trace) : .freeContext r ∈ w.trace := by
  have hlt : r < w.nextContext :=
    h.created.lt_of_spent (List.mem_filterMap.mpr ⟨_, hr, rfl⟩)
  have hcount := h.freed.count_spent hlt
  simp only [List.map_nil, List.not_mem_nil, if_false] at hcount
  obtain ⟨e, he, hfreed⟩ := List.mem_filterMap.mp (List.count_pos_iff.mp (hcount ▸ Nat.one_pos))
  cases e with
  | freeContext r' =>
      obtain rfl := Option.some.inj hfreed
      exact he
  | _ => cases hfreed

/-- A context that is owned was made and has not been freed. -/
theorem created_not_freed (h : RenderAccounts m w contexts hand) (hc : c ∈ contexts) :
    (∃ a gpa, .createContext a gpa (.context c.raw) ∈ w.trace) ∧
      .freeContext c.raw ∉ w.trace := by
  have hraw : c.raw ∈ contexts.map RenderInner.raw := List.mem_map_of_mem hc
  constructor
  · have hcount := h.created.count_spent (h.freed.lt_of_held hraw)
    rw [if_neg List.not_mem_nil] at hcount
    obtain ⟨e, he, hcreated⟩ :=
      List.mem_filterMap.mp (List.count_pos_iff.mp (hcount ▸ Nat.one_pos))
    match e with
    | .createContext a gpa (.context r) =>
        obtain rfl := Option.some.inj hcreated
        exact ⟨a, gpa, he⟩
  · intro hfree
    exact h.freed.not_spent hraw (List.mem_filterMap.mpr ⟨_, hfree, rfl⟩)

end RenderAccounts

end Rsmpv
