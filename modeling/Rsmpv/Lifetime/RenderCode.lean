import Rsmpv.Lifetime.Contexts

/-!
# Client Code over Render Contexts

Client code that holds one player and any number of render contexts on it, in the two forms
of `CoreRef`: the player itself with contexts that borrow it, or `Arc`s of the player with
contexts that own one. Any value may be leaked with `mem::forget`, which ends a borrow like
every other move of the value does.

What a borrow rules out is here: the player is not moved, dropped or leaked while a context
that is alive borrows it. `renderStep_effect` says once what an operation can do, and
`renderRun_accounts` that the accounts of `RenderAccounts` hold in every run, of the
contexts that are alive and the leaked ones together.
-/

namespace Rsmpv

/-- `CoreRef`: how a render context holds its player. -/
inductive CoreRef
  | borrow
  | arc
  deriving DecidableEq

/-- What the client code holds: the player or an `Arc` of it, and render contexts. -/
inductive RenderValue
  | core
  | context (r : RenderInner)
  deriving DecidableEq

/-- The renderer of a context. -/
def RenderValue.inner : RenderValue → Option RenderInner
  | core => none
  | context r => some r

/-- The renderers among values. -/
def contextsOf (values : List RenderValue) : List RenderInner :=
  values.filterMap RenderValue.inner

/-- An operation of the client code on the values it holds, with what libmpv answers. -/
inductive RenderOp
  | clone (i : ℕ)
  | create (i : ℕ) (getProcAddress : Option Bool) (code : CInt) (null : Bool)
  | setUpdateCallback (i : ℕ) (panics : Bool)
  | clearUpdateCallback (i : ℕ)
  | update (i flags : ℕ)
  | render (i : ℕ) (status : Option CInt)
  | move (i : ℕ)
  | drop (i : ℕ)
  | forget (i : ℕ)

/-- The operation hands over an update closure whose destructor panics. -/
def RenderOp.updatePanics : RenderOp → Bool
  | setUpdateCallback _ panics => panics
  | _ => false

/-- The operation hands over a `get_proc_address` whose destructor panics. -/
def RenderOp.loaderPanics : RenderOp → Bool
  | create _ (some panics) _ _ => panics
  | _ => false

/-- The player that `Mpv::new` makes first. -/
def newPlayer : Mpv := { inner := ⟨0, 0⟩ }

/-- The world in which the player is new, in an `Arc` or not. -/
def playerWorld (k : CoreRef) : World :=
  { ({} : World).opened .create |>.log [.mpvInitialize 0] with
    strong := match k with | .borrow => 0 | .arc => 1 }

/-- The player was created and initialized. -/
@[simp] theorem playerWorld_trace (k : CoreRef) :
    (playerWorld k).trace = [.create (some 0), .mpvInitialize 0] := rfl

example : Mpv.new true 0 {} = (.ret (.ok newPlayer), playerWorld .borrow) := rfl

namespace CoreRef

/-- The drop of the core reference of a context. -/
def dropRef : CoreRef → Comp Unit
  | borrow => pure ()
  | arc => dropArc newPlayer

/-- The drop of the player or of an `Arc` of it. -/
def dropCore : CoreRef → Comp Unit
  | borrow => newPlayer.drop
  | arc => dropArc newPlayer

/-- The world after the core reference of a context was dropped. -/
def refDropped : CoreRef → World → World
  | borrow, w => w
  | arc, w => w.arcDropped newPlayer

/-- The world after the player or an `Arc` of it was dropped. -/
def coreDropped : CoreRef → World → World
  | borrow, w => w.dropped (.mpv newPlayer)
  | arc, w => w.arcDropped newPlayer

end CoreRef

namespace ClientCode

/-- Move a value out of the list, which the borrow checker refuses of a player that is
borrowed. -/
def consumeValue (k : CoreRef) (s : ClientCode RenderValue) (i : ℕ) :
    Option (RenderValue × List RenderValue) :=
  match s.take i with
  | some (.core, rest) =>
    if k = .borrow ∧ contextsOf rest ≠ [] then none else some (.core, rest)
  | other => other

/-- Take a core reference for a new context: a borrow of the player, or an `Arc` that moves.
What is left are the values the client code still has. -/
def takeRef (k : CoreRef) (s : ClientCode RenderValue) (i : ℕ) : Option (List RenderValue) :=
  match k, s.take i with
  | .borrow, some (.core, _) => some s.values
  | .arc, some (.core, rest) => some rest
  | _, _ => none

/-- One operation. What the types do not allow has no effect. -/
def renderStep (k : CoreRef) (s : ClientCode RenderValue) (op : RenderOp) :
    ClientCode RenderValue :=
  if s.aborted then s
  else
    match op with
    | .clone i =>
      match k, s.values[i]? with
      | .arc, some _ => s.finish cloneArc (fun _ => .core :: s.values) s.values
      | _, _ => s
    | .create i getProcAddress code null =>
      match s.takeRef k i with
      | some kept =>
        s.finish (newGetProcAddress getProcAddress >>= fun gpa =>
          newRenderContext newPlayer k.dropRef gpa code null) (returned .context kept kept) kept
      | none => s
    | .setUpdateCallback i panics =>
      match s.values[i]? with
      | some (.context r) =>
        s.finish (BoxedFn.new panics >>= r.setUpdateCallback) (fun _ => s.values) s.values
      | _ => s
    | .clearUpdateCallback i =>
      match s.values[i]? with
      | some (.context r) => s.finish r.clearUpdateCallback (fun _ => s.values) s.values
      | _ => s
    | .update i flags =>
      match s.values[i]? with
      | some (.context r) => s.finish (r.update flags) (fun _ => s.values) s.values
      | _ => s
    | .render i status =>
      match s.values[i]? with
      | some (.context r) => s.finish (r.render status) (fun _ => s.values) s.values
      | _ => s
    | .move i =>
      match s.consumeValue k i with
      | some (v, rest) => { s with values := v :: rest }
      | none => s
    | .drop i =>
      match s.consumeValue k i with
      | some (.core, rest) => s.finish k.dropCore (fun _ => rest) rest
      | some (.context r, rest) =>
        s.finish (dropRenderContext r k.dropRef) (fun _ => rest) rest
      | none => s
    | .forget i =>
      match s.consumeValue k i with
      | some (v, rest) => { s with values := rest, leaked := v :: s.leaked }
      | none => s

/-- A run of client code over a new player. -/
def renderRun (k : CoreRef) (ops : List RenderOp) : ClientCode RenderValue :=
  ops.foldl (renderStep k) { world := playerWorld k, values := [.core] }

/-- A run with one more operation. -/
theorem renderRun_snoc (k : CoreRef) (ops : List RenderOp) (op : RenderOp) :
    renderRun k (ops ++ [op]) = (renderRun k ops).renderStep k op := by
  simp [renderRun]

/-! ### What an operation can do -/

/-- The values that are left when a new context takes its core reference. -/
def RefTaken (values : List RenderValue) : CoreRef → List RenderValue → Prop
  | .borrow, kept => kept = values
  | .arc, kept => values.Perm (.core :: kept)

/-- What an operation can do. -/
inductive RenderEffect (k : CoreRef) (s : ClientCode RenderValue) :
    RenderOp → ClientCode RenderValue → Prop
  | idle {op : RenderOp} : RenderEffect k s op ⟨s.world, s.values, s.leaked, false⟩
  | moved {op : RenderOp} {values : List RenderValue} (perm : s.values.Perm values) :
      RenderEffect k s op ⟨s.world, values, s.leaked, false⟩
  | cloned {op : RenderOp} (shared : k = .arc) (held : s.values ≠ []) :
      RenderEffect k s op ⟨{ s.world with strong := s.world.strong + 1 }, .core :: s.values,
        s.leaked, false⟩
  | called {op : RenderOp} {c : RenderInner} {rest : List RenderValue} {e : Ev}
      (perm : s.values.Perm (.context c :: rest)) (plain : PlainRender e [c.raw])
      (lives : e.destroyed = none) :
      RenderEffect k s op ⟨s.world.log [e], s.values, s.leaked, false⟩
  | created {i : ℕ} {gpa : Option Bool} {code : CInt} {null : Bool} {kept : List RenderValue}
      (taken : RefTaken s.values k kept) :
      RenderEffect k s (.create i gpa code null)
        ⟨(s.world.newGetProcAddress gpa).contextCreated 0 (s.world.getProcAddress gpa),
          .context ⟨s.world.nextContext, s.world.getProcAddress gpa, s.world.nextSlot⟩ :: kept,
          s.leaked, false⟩
  | failed {i : ℕ} {gpa : Option Bool} {code : CInt} {null : Bool} {kept : List RenderValue}
      (taken : RefTaken s.values k kept) :
      RenderEffect k s (.create i gpa code null)
        ⟨k.refDropped ((s.world.newGetProcAddress gpa).log
          ([.createContext 0 ((s.world.getProcAddress gpa).map BoxedFn.id) .failed] ++
            releases (s.world.getProcAddress gpa).toList)), kept, s.leaked, false⟩
  | null {i : ℕ} {gpa : Option Bool} {code : CInt} {null : Bool} {kept : List RenderValue}
      (taken : RefTaken s.values k kept) :
      RenderEffect k s (.create i gpa code null)
        ⟨k.refDropped ((s.world.newGetProcAddress gpa).log
          [.createContext 0 ((s.world.getProcAddress gpa).map BoxedFn.id) .null]), kept,
          s.leaked, false⟩
  | stored {i : ℕ} {panics : Bool} {c : RenderInner} {rest : List RenderValue}
      (perm : s.values.Perm (.context c :: rest)) :
      RenderEffect k s (.setUpdateCallback i panics)
        ⟨(s.world.newFn panics).stored c.updateSlot ⟨s.world.nextFn, panics⟩
          (.setUpdate c.raw c.updateSlot), s.values, s.leaked, false⟩
  | cleared {op : RenderOp} {c : RenderInner} {rest : List RenderValue}
      (perm : s.values.Perm (.context c :: rest)) :
      RenderEffect k s op
        ⟨s.world.tornDown c.updateSlot (.clearUpdate c.raw) [], s.values, s.leaked, false⟩
  | contextDropped {op : RenderOp} {c : RenderInner} {rest : List RenderValue}
      (perm : s.values.Perm (.context c :: rest)) :
      RenderEffect k s op ⟨k.refDropped (s.world.freed c), rest, s.leaked, false⟩
  | contextAborted {op : RenderOp} {c : RenderInner} {rest : List RenderValue}
      (perm : s.values.Perm (.context c :: rest))
      (two : 2 ≤ panicCount (c.closures s.world.slots)) :
      RenderEffect k s op ⟨s.world.freed c, rest, s.leaked, true⟩
  | coreDropped {i : ℕ} {rest : List RenderValue} (get : s.values[i]? = some .core)
      (perm : s.values.Perm (.core :: rest)) (free : k = .borrow → contextsOf rest = []) :
      RenderEffect k s (.drop i) ⟨k.coreDropped s.world, rest, s.leaked, false⟩
  | forgot {i : ℕ} {v : RenderValue} {rest : List RenderValue}
      (get : s.values[i]? = some v) (perm : s.values.Perm (v :: rest)) :
      RenderEffect k s (.forget i) ⟨s.world, rest, v :: s.leaked, false⟩

variable {k : CoreRef} {s : ClientCode RenderValue}

/-- A value that was moved out was in the list; a player that is borrowed has no contexts left. -/
theorem consumeValue_eq_some {i : ℕ} {v : RenderValue} {rest : List RenderValue}
    (h : s.consumeValue k i = some (v, rest)) :
    s.values[i]? = some v ∧ s.values.Perm (v :: rest) ∧
      (v = .core → k = .borrow → contextsOf rest = []) := by
  rw [consumeValue] at h
  split at h
  next rest' htake =>
    split at h
    next => cases h
    next hfree =>
      obtain ⟨rfl, rfl⟩ := Prod.mk.inj (Option.some.inj h)
      obtain ⟨get, perm⟩ := take_eq_some htake
      refine ⟨get, perm, fun _ hk => ?_⟩
      exact Decidable.not_not.mp fun hne => hfree ⟨hk, hne⟩
  next other hother =>
    obtain ⟨get, perm⟩ := take_eq_some h
    refine ⟨get, perm, fun hv => ?_⟩
    subst hv
    exact absurd h (hother rest)

/-- A core reference was taken: a borrow takes nothing, an `Arc` one of the values. -/
theorem takeRef_eq_some {i : ℕ} {kept : List RenderValue} (h : s.takeRef k i = some kept) :
    RefTaken s.values k kept := by
  unfold takeRef at h
  split at h
  next => exact (Option.some.inj h).symm
  next htake =>
    obtain rfl := Option.some.inj h
    exact (take_eq_some htake).2
  next => cases h

/-- The renderers that have not been freed: those that are alive, and the leaked ones. -/
def owned (s : ClientCode RenderValue) : List RenderInner := contextsOf (s.values ++ s.leaked)

/-- Moving a context out leaves the others. -/
theorem owned_perm {c : RenderInner} {rest : List RenderValue}
    (perm : s.values.Perm (.context c :: rest)) :
    s.owned.Perm (c :: contextsOf (rest ++ s.leaked)) :=
  (perm.append_right s.leaked).filterMap _

/-- Moving a core reference out leaves all contexts. -/
theorem owned_perm_core {rest : List RenderValue} (perm : s.values.Perm (.core :: rest)) :
    s.owned.Perm (contextsOf (rest ++ s.leaked)) :=
  (perm.append_right s.leaked).filterMap _

/-- Taking a core reference leaves all contexts. -/
theorem owned_taken {kept : List RenderValue} (taken : RefTaken s.values k kept) :
    s.owned.Perm (contextsOf (kept ++ s.leaked)) := by
  cases k with
  | borrow =>
      obtain rfl := taken
      exact .refl _
  | arc => exact owned_perm_core taken

end ClientCode

namespace CoreRef

variable {w : World} {contexts : List RenderInner} (k : CoreRef)

/-- Dropping the core reference of a context returns. -/
theorem dropRef_apply (h : RenderAccounts newPlayer w contexts []) :
    k.dropRef w = (.ret (), k.refDropped w) := by
  cases k with
  | borrow => rfl
  | arc => exact dropArc_apply h.player

/-- Dropping the player or an `Arc` of it returns. -/
theorem dropCore_apply (h : RenderAccounts newPlayer w contexts []) :
    k.dropCore w = (.ret (), k.coreDropped w) := by
  cases k with
  | borrow =>
      have hdrop := (Value.mpv newPlayer).drop_apply w
      rw [h.player] at hdrop
      exact hdrop
  | arc => exact dropArc_apply h.player

/-- Dropping the core reference of a context leaves the accounts of the contexts as they are. -/
theorem refDropped_accounts (h : RenderAccounts newPlayer w contexts []) :
    RenderAccounts newPlayer (k.refDropped w) contexts [] := by
  cases k with
  | borrow => exact h
  | arc => exact h.arcDropped

/-- So does dropping the player or an `Arc` of it. -/
theorem coreDropped_accounts (h : RenderAccounts newPlayer w contexts []) :
    RenderAccounts newPlayer (k.coreDropped w) contexts [] := by
  cases k with
  | borrow => exact h.playerDropped
  | arc => exact h.arcDropped

end CoreRef

namespace RenderAccounts

variable {w : World} {contexts : List RenderInner}

/-- The world in which a creation failed. -/
theorem creationFailed (h : RenderAccounts newPlayer w contexts []) (gpa : Option Bool) :
    RenderAccounts newPlayer ((w.newGetProcAddress gpa).log
      ([.createContext 0 ((w.getProcAddress gpa).map BoxedFn.id) .failed] ++
        releases (w.getProcAddress gpa).toList)) contexts [] := by
  have hrel := ((h.loaded gpa).1.fail 0).release
  rwa [World.log_log] at hrel

/-- The world in which a creation succeeded without a context. -/
theorem creationNull (h : RenderAccounts newPlayer w contexts []) (gpa : Option Bool) :
    RenderAccounts newPlayer ((w.newGetProcAddress gpa).log
      [.createContext 0 ((w.getProcAddress gpa).map BoxedFn.id) .null]) contexts [] := by
  obtain ⟨hloaded, hnew⟩ := h.loaded gpa
  exact hloaded.null hnew 0

end RenderAccounts

namespace ClientCode

variable {k : CoreRef} {s s' : ClientCode RenderValue}

/-- Creating a context. -/
theorem effect_create {kept : List RenderValue} (taken : RefTaken s.values k kept)
    (h : RenderAccounts newPlayer s.world s.owned []) (i : ℕ) (gpa : Option Bool) (code : CInt)
    (null : Bool) :
    RenderEffect k s (.create i gpa code null)
      (s.finish (newGetProcAddress gpa >>= fun gpa =>
        newRenderContext newPlayer k.dropRef gpa code null) (returned .context kept kept)
        kept) := by
  rw [finish_bind (newGetProcAddress_apply _ _)]
  by_cases hcode : 0 ≤ code
  · cases null with
    | false =>
        rw [finish_newRenderContext hcode]
        have hcreated : RenderEffect k s (.create i gpa code false) _ := .created taken
        cases gpa <;> exact hcreated
    | true =>
        rw [finish_newRenderContext_null hcode (k.dropRef_apply (h.creationNull gpa))]
        exact .null taken
  · rw [finish_newRenderContext_failed (Int.not_le.mp hcode)
      (k.dropRef_apply (h.creationFailed gpa))]
    exact .failed taken

/-- Dropping a context: the free, the closure, and last the core reference. -/
theorem effect_dropContext {c : RenderInner} {rest : List RenderValue}
    (perm : s.values.Perm (.context c :: rest))
    (h : RenderAccounts newPlayer s.world s.owned []) (op : RenderOp) :
    RenderEffect k s op (s.finish (dropRenderContext c k.dropRef) (fun _ => rest) rest) := by
  by_cases htwo : 2 ≤ panicCount (c.closures s.world.slots)
  · rw [finish_dropRenderContext_abort htwo]
    exact .contextAborted perm htwo
  · have hdropped := (h.perm (owned_perm perm)).dropped
    rw [finish_dropRenderContext (by omega) (k.dropRef_apply hdropped)]
    exact .contextDropped perm

/-- **What an operation can do.** -/
theorem renderStep_effect (op : RenderOp) (halive : s.aborted = false)
    (h : RenderAccounts newPlayer s.world s.owned []) :
    RenderEffect k s op (s.renderStep k op) := by
  have hidle : ∀ op, RenderEffect k s op s := by
    intro op
    have hs : RenderEffect k s op ⟨s.world, s.values, s.leaked, false⟩ := .idle
    rwa [← halive] at hs
  have hone : ∀ c : Option BoxedFn, decide (2 ≤ panicCount c.toList) = false := by
    intro c
    have hle := panicCount_toList_le_one c
    exact decide_eq_false (by omega)
  unfold renderStep
  rw [if_neg (by simp [halive])]
  cases op with
  | clone i =>
      dsimp only
      split
      next v hget =>
        exact .cloned rfl fun hnil => by simp [hnil] at hget
      next => exact hidle _
  | create i gpa code null =>
      dsimp only
      split
      next kept htake => exact effect_create (takeRef_eq_some htake) h i gpa code null
      next => exact hidle _
  | setUpdateCallback i panics =>
      dsimp only
      split
      next r hget =>
        rw [finish_bind (BoxedFn.new_apply _ _),
          finish_ofPanics (RenderInner.setUpdateCallback_apply _ _ _), hone]
        exact .stored (perm_of_getElem? hget)
      next => exact hidle _
  | clearUpdateCallback i =>
      dsimp only
      split
      next r hget =>
        rw [finish_ofPanics (RenderInner.clearUpdateCallback_apply _ _), hone]
        exact .cleared (perm_of_getElem? hget)
      next => exact hidle _
  | update i flags =>
      dsimp only
      split
      next r hget =>
        exact .called (perm_of_getElem? hget) (.update r.raw) rfl
      next => exact hidle _
  | render i status =>
      dsimp only
      split
      next r hget =>
        cases status with
        | none => exact .idle
        | some code =>
            exact .called (perm_of_getElem? hget) (.render r.raw) rfl
      next => exact hidle _
  | move i =>
      dsimp only
      split
      next v rest hc =>
        obtain ⟨-, perm, -⟩ := consumeValue_eq_some hc
        rw [halive]
        exact .moved perm
      next => exact hidle _
  | drop i =>
      dsimp only
      split
      next rest hc =>
        obtain ⟨get, perm, free⟩ := consumeValue_eq_some hc
        rw [finish_ret (k.dropCore_apply h)]
        exact .coreDropped get perm (free rfl)
      next r rest hc =>
        obtain ⟨-, perm, -⟩ := consumeValue_eq_some hc
        exact effect_dropContext perm h _
      next => exact hidle _
  | forget i =>
      dsimp only
      split
      next v rest hc =>
        obtain ⟨get, perm, -⟩ := consumeValue_eq_some hc
        rw [halive]
        exact .forgot get perm
      next => exact hidle _

/-- **Every operation keeps the accounts.** -/
theorem RenderEffect.accounts {op : RenderOp} (he : RenderEffect k s op s')
    (h : RenderAccounts newPlayer s.world s.owned []) :
    RenderAccounts newPlayer s'.world s'.owned [] := by
  cases he with
  | idle => exact h
  | moved perm => exact h.perm ((perm.append_right s.leaked).filterMap _)
  | cloned shared held => exact h.strong _
  | called perm plain lives =>
      exact ((h.perm (owned_perm perm)).call_head plain).perm (owned_perm perm).symm
  | @created i gpa code null kept taken =>
      obtain ⟨hloaded, hnew⟩ := (h.perm (owned_taken taken)).loaded gpa
      have hcreated := hloaded.create hnew 0
      cases gpa <;> exact hcreated
  | @failed i gpa code null kept taken =>
      exact k.refDropped_accounts ((h.perm (owned_taken taken)).creationFailed gpa)
  | @null i gpa code null kept taken =>
      exact k.refDropped_accounts ((h.perm (owned_taken taken)).creationNull gpa)
  | stored perm => exact ((h.perm (owned_perm perm)).stored _).perm (owned_perm perm).symm
  | cleared perm => exact (h.perm (owned_perm perm)).cleared.perm (owned_perm perm).symm
  | contextDropped perm => exact k.refDropped_accounts (h.perm (owned_perm perm)).dropped
  | contextAborted perm two => exact (h.perm (owned_perm perm)).dropped
  | coreDropped get perm free => exact k.coreDropped_accounts (h.perm (owned_perm_core perm))
  | @forgot i v rest get perm =>
      refine h.perm (((perm.append_right s.leaked).trans ?_).filterMap _)
      exact List.perm_middle.symm

/-- An aborted process does nothing. -/
theorem renderStep_of_aborted (op : RenderOp) (h : s.aborted = true) :
    s.renderStep k op = s := by
  unfold renderStep
  exact if_pos h

/-- The accounts of a new player. -/
theorem playerWorld_accounts : RenderAccounts newPlayer (playerWorld k) [] [] where
  freed := Accounted.empty
  created := Accounted.empty
  slots := List.nodup_singleton _
  allocated i hi := by
    obtain rfl := List.mem_singleton.mp hi
    exact Nat.one_pos
  player := rfl
  registered r slot hr := by simp at hr
  closures := Accounted.empty
  loaders a fn r hr := by simp at hr
  failed a fn ha := by simp at ha
  armed := nofun
  lawful := by
    have hcreate : Trace.Every RenderLawful ([] ++ [.create (some 0)]) :=
      Trace.every_snoc.mpr ⟨Trace.every_nil, .of_plain nofun rfl rfl⟩
    exact Trace.every_snoc.mpr ⟨hcreate, .of_plain nofun rfl rfl⟩

/-- What holds of every run. -/
theorem renderRun_accounts (ops : List RenderOp) :
    RenderAccounts newPlayer (renderRun k ops).world (renderRun k ops).owned [] := by
  induction ops using List.reverseRecOn with
  | nil => exact playerWorld_accounts
  | append_singleton ops op ih =>
      rw [renderRun_snoc]
      cases ha : (renderRun k ops).aborted with
      | true => rwa [renderStep_of_aborted op ha]
      | false => exact (renderStep_effect op ha ih).accounts ih

end ClientCode

end Rsmpv
