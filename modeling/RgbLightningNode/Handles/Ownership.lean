import RgbLightningNode.Handles.Isolation

/-!
# Who owns a native object

The thread of an environment knows the wrapper it works on. This makes every step a sequence of
effects whose conditions hold, and gives the ownership rules for nodes and signers.
-/

namespace RgbLightningNode.Handles
open Transition

variable {w : ℕ}

namespace Addon

variable {s s' : Addon w} {env a : ℕ} {kind : HandleKind} {wr : Wrapper w}

theorem find_spec {p : ℕ → Bool} (h : s.handles.find? p = some a) : a ∈ s.handles ∧ p a = true :=
  ⟨List.mem_of_find?_eq_some h, List.find?_some h⟩

theorem ownsHandle_spec (h : s.ownsHandle env a kind = true) :
    a ∈ s.handles ∧ ∃ wr, s.Holds env kind a wr := by
  simp only [ownsHandle, Option.any_eq_true, Bool.and_eq_true, beq_iff_eq] at h
  obtain ⟨b, hb, wr, hwr, henv, hkind⟩ := h
  obtain ⟨hmem, hba⟩ := find_spec hb
  obtain rfl : b = a := by simpa using hba
  exact ⟨hmem, wr, hwr, henv, hkind⟩

theorem findFinalizerHandle_spec {data : ℕ} {hint : BitVec w}
    (h : s.findFinalizerHandle env data hint kind = some a) :
    a = data ∧ a ∈ s.handles ∧ ∃ wr, s.Holds env kind a wr ∧ wr.id = hint := by
  obtain ⟨hmem, hp⟩ := find_spec h
  simp only [Bool.and_eq_true, beq_iff_eq, Option.any_eq_true] at hp
  obtain ⟨hdata, wr, hwr, ⟨hid, henv⟩, hkind⟩ := hp
  exact ⟨hdata, hmem, wr, ⟨hwr, henv, hkind⟩, hid⟩

theorem findTeardownHandle_spec {id : BitVec w} (h : s.findTeardownHandle id kind = some a) :
    a ∈ s.handles ∧ ∃ wr, s.heap a = some wr ∧ wr.id = id ∧ wr.kind = kind := by
  obtain ⟨hmem, hp⟩ := find_spec h
  simp only [Option.any_eq_true, Bool.and_eq_true, beq_iff_eq] at hp
  obtain ⟨wr, hwr, hid, hkind⟩ := hp
  exact ⟨hmem, wr, hwr, hid, hkind⟩

theorem unwrapRef_spec {data : Option ℕ} (h : s.unwrapRef env kind data = some a) :
    a ∈ s.handles ∧ ∃ wr, s.Holds env kind a wr := by
  simp only [unwrapRef, Option.filter_eq_some_iff] at h
  exact ownsHandle_spec h.2

theorem requireSdkNode_spec {data : Option ℕ} (h : s.requireSdkNode env data = .ok a) :
    a ∈ s.handles ∧ ∃ wr, s.Holds env .node a wr ∧ wr.freed = false ∧
      wr.shutdownAttempted = false := by
  cases data with
  | none => cases h
  | some b =>
    simp only [requireSdkNode] at h
    split at h
    next howns =>
      split at h
      · cases h
      next hopen =>
        cases h
        obtain ⟨hmem, wr, hwr⟩ := ownsHandle_spec howns
        simp only [hwr.own, Option.any_some, Bool.or_eq_true, not_or, Bool.not_eq_true] at hopen
        exact ⟨hmem, wr, hwr, hopen.1.1, hopen.1.2⟩
    · cases h

theorem requireSigner_spec {data : Option ℕ} (h : s.requireSigner env data = .ok a) :
    a ∈ s.handles ∧ ∃ wr, s.Holds env .signer a wr ∧ wr.freed = false := by
  cases data with
  | none => cases h
  | some b =>
    simp only [requireSigner] at h
    split at h
    next howns =>
      split at h
      · cases h
      next hopen =>
        cases h
        obtain ⟨hmem, wr, hwr⟩ := ownsHandle_spec howns
        simp only [hwr.own, Option.any_some, Bool.or_eq_true, not_or, Bool.not_eq_true] at hopen
        exact ⟨hmem, wr, hwr, hopen.1⟩
    · cases h

theorem error_threw {data : Option ℕ} {e : Event w} (h : s.requireSdkNode env data = .error e) :
    ∃ code message, e = .threw code message := by
  cases data with
  | none =>
    cases h
    exact ⟨_, _, rfl⟩
  | some b =>
    simp only [requireSdkNode] at h
    split at h
    · split at h <;> cases h
      exact ⟨_, _, rfl⟩
    · cases h
      exact ⟨_, _, rfl⟩

theorem signer_error_threw {data : Option ℕ} {e : Event w}
    (h : s.requireSigner env data = .error e) : ∃ code message, e = .threw code message := by
  cases data with
  | none =>
    cases h
    exact ⟨_, _, rfl⟩
  | some b =>
    simp only [requireSigner] at h
    split at h
    · split at h <;> cases h
      exact ⟨_, _, rfl⟩
    · cases h
      exact ⟨_, _, rfl⟩

/-- A teardown callback finds only a wrapper of its own environment. -/
theorem Sound.holds_of_callback (hs : s.Sound) {cb : Callback w} (hcb : cb ∈ s.callbacks)
    (h : s.findTeardownHandle cb.id cb.kind = some a) :
    a ∈ s.handles ∧ ∃ wr, s.Holds cb.env cb.kind a wr ∧ wr.id = cb.id := by
  obtain ⟨hmem, wr, hwr, hid, hkind⟩ := findTeardownHandle_spec h
  exact ⟨hmem, wr, ⟨hwr, (hs.callbacks hcb).2 hmem hwr hid, hkind⟩, hid⟩

end Addon

/-- The signer whose teardown callback is running. -/
def Scan.Sound (env : ℕ) (s : Addon w) (sc : Scan w) : Prop :=
  sc.env = env ∧ sc.signer ∈ s.handles ∧ ∃ wr, s.Holds env .signer sc.signer wr

/-- What `shutdown_and_free_sdk_node` may assume of its callers. -/
def NodeCaller.Sound (env : ℕ) (s : Addon w) (a : ℕ) (wr : Wrapper w) : NodeCaller w → Prop
  | .wrap _ => a ∉ s.handles ∧ s.Unhanded wr
  | .scan sc => a ∈ s.handles ∧ sc.Sound env s
  | _ => a ∈ s.handles

def NodeCaller.ScanSound (env : ℕ) (s : Addon w) : NodeCaller w → Prop
  | .scan sc => sc.Sound env s
  | _ => True

/-- What the thread of `env` knows of the wrapper it works on. -/
def Control.Sound (env : ℕ) (s : Addon w) : Control w → Prop
  | .idle => True
  | .registerNode a => ∃ wr, s.Holds env .node a wr ∧ a ∉ s.handles ∧ wr.freed = false ∧
      s.Unhanded wr
  | .addNodeCallback a | .createNodeExternal a | .rollbackNode a _ =>
    ∃ wr, s.Holds env .node a wr ∧ a ∈ s.handles ∧ wr.freed = false ∧ s.Unhanded wr
  | .stopNode a caller | .nodeStopped a caller =>
    ∃ wr, s.Holds env .node a wr ∧ caller.Sound env s a wr
  | .freeNode a caller => ∃ wr, s.Holds env .node a wr ∧ caller.Sound env s a wr ∧
      wr.freed = false ∧ wr.shutdownAttempted = true
  | .unregisterNode a caller => ∃ wr, s.Holds env .node a wr ∧ caller.ScanSound env s ∧
      wr.freed = true
  | .releaseNode a caller => ∃ wr, s.Holds env .node a wr ∧ a ∉ s.handles ∧
      (wr.freed = true ∨ s.Unhanded wr) ∧ caller.ScanSound env s
  | .shutdownNode a => ∃ wr, s.Holds env .node a wr ∧ wr.freed = false
  | .call targets => ∀ a ∈ targets, ∃ wr, s.heap a = some wr ∧ wr.env = env ∧ wr.freed = false
  | .registerSigner a => ∃ wr, s.Holds env .signer a wr ∧ a ∉ s.handles ∧ wr.freed = false ∧
      s.Unhanded wr
  | .addSignerCallback a | .createSignerExternal a | .rollbackSigner a _ =>
    ∃ wr, s.Holds env .signer a wr ∧ a ∈ s.handles ∧ wr.freed = false ∧ s.Unhanded wr
  | .discardSigner a _ => ∃ wr, s.Holds env .signer a wr ∧ a ∉ s.handles ∧ wr.freed = false ∧
      s.Unhanded wr
  | .shutdownSigner a => ∃ wr, s.Holds env .signer a wr ∧ wr.freed = false
  | .freeSigner a _ => ∃ wr, s.Holds env .signer a wr ∧ a ∈ s.handles
  | .unregisterSigner a _ => ∃ wr, s.Holds env .signer a wr ∧ wr.freed = true
  | .releaseSigner a _ => ∃ wr, s.Holds env .signer a wr ∧ a ∉ s.handles ∧ wr.freed = true
  | .scan sc => sc.Sound env s
  | .attempt sc id => sc.Sound env s ∧ ∃ a wr, a ∈ s.handles ∧ s.Holds env .node a wr ∧ wr.id = id
  | .revoke sc => sc.env = env ∧ sc.signer ∈ s.handles ∧
      ∃ wr, s.Holds env .signer sc.signer wr ∧ wr.freed = false

variable {s s' : Addon w} {env a : ℕ} {kind : HandleKind} {wr : Wrapper w} {c c' : Control w}

theorem Addon.Holds.undisturbed (h : s.Holds env kind a wr) (hs : Undisturbed (InEnv env) s s') :
    s'.Holds env kind a wr :=
  ⟨(hs.heap h.env).mpr h.own, h.env, h.kind⟩

theorem Addon.Holds.mem_iff (h : s.Holds env kind a wr) (hs : Undisturbed (InEnv env) s s') :
    a ∈ s'.handles ↔ a ∈ s.handles :=
  hs.handles h.own h.env

theorem Addon.Holds.unhanded (h : s.Holds env kind a wr) (hs : Undisturbed (InEnv env) s s')
    (hu : s.Unhanded wr) : s'.Unhanded wr := by
  intro env' kind o ho
  rw [hs.log h.own h.env ho rfl]
  exact hu env' kind o ho

theorem Scan.Sound.undisturbed {sc : Scan w} (h : sc.Sound env s)
    (hs : Undisturbed (InEnv env) s s') :
    sc.Sound env s' := by
  obtain ⟨henv, hmem, wr, hwr⟩ := h
  exact ⟨henv, (hwr.mem_iff hs).mpr hmem, wr, hwr.undisturbed hs⟩

theorem NodeCaller.ScanSound.undisturbed {caller : NodeCaller w} (h : caller.ScanSound env s)
    (hs : Undisturbed (InEnv env) s s') : caller.ScanSound env s' := by
  cases caller with
  | scan sc => exact Scan.Sound.undisturbed h hs
  | _ => trivial

theorem NodeCaller.Sound.undisturbed {caller : NodeCaller w} (hwr : s.Holds env kind a wr)
    (h : caller.Sound env s a wr) (hs : Undisturbed (InEnv env) s s') :
    caller.Sound env s' a wr := by
  cases caller with
  | wrap failure => exact ⟨(hwr.mem_iff hs).not.mpr h.1, hwr.unhanded hs h.2⟩
  | scan sc => exact ⟨(hwr.mem_iff hs).mpr h.1, h.2.undisturbed hs⟩
  | _ => exact (hwr.mem_iff hs).mpr h

theorem Control.Sound.undisturbed (h : c.Sound env s) (hs : Undisturbed (InEnv env) s s') :
    c.Sound env s' := by
  cases c with
  | idle => trivial
  | registerNode | registerSigner | discardSigner =>
    obtain ⟨wr, hwr, hmem, hlive, hunhanded⟩ := h
    exact ⟨wr, hwr.undisturbed hs, (hwr.mem_iff hs).not.mpr hmem, hlive, hwr.unhanded hs hunhanded⟩
  | addNodeCallback | createNodeExternal | rollbackNode
  | addSignerCallback | createSignerExternal | rollbackSigner =>
    obtain ⟨wr, hwr, hmem, hlive, hunhanded⟩ := h
    exact ⟨wr, hwr.undisturbed hs, (hwr.mem_iff hs).mpr hmem, hlive, hwr.unhanded hs hunhanded⟩
  | stopNode | nodeStopped =>
    obtain ⟨wr, hwr, hcaller⟩ := h
    exact ⟨wr, hwr.undisturbed hs, hcaller.undisturbed hwr hs⟩
  | freeNode =>
    obtain ⟨wr, hwr, hcaller, hflags⟩ := h
    exact ⟨wr, hwr.undisturbed hs, hcaller.undisturbed hwr hs, hflags⟩
  | unregisterNode =>
    obtain ⟨wr, hwr, hscan, hfreed⟩ := h
    exact ⟨wr, hwr.undisturbed hs, hscan.undisturbed hs, hfreed⟩
  | releaseNode =>
    obtain ⟨wr, hwr, hmem, hdone, hscan⟩ := h
    exact ⟨wr, hwr.undisturbed hs, (hwr.mem_iff hs).not.mpr hmem, hdone.imp_right (hwr.unhanded hs),
      hscan.undisturbed hs⟩
  | shutdownNode | shutdownSigner | unregisterSigner =>
    obtain ⟨wr, hwr, hflag⟩ := h
    exact ⟨wr, hwr.undisturbed hs, hflag⟩
  | call targets =>
    intro a ha
    obtain ⟨wr, hwr, henv, hlive⟩ := h a ha
    exact ⟨wr, (hs.heap henv).mpr hwr, henv, hlive⟩
  | freeSigner =>
    obtain ⟨wr, hwr, hmem⟩ := h
    exact ⟨wr, hwr.undisturbed hs, (hwr.mem_iff hs).mpr hmem⟩
  | releaseSigner =>
    obtain ⟨wr, hwr, hmem, hfreed⟩ := h
    exact ⟨wr, hwr.undisturbed hs, (hwr.mem_iff hs).not.mpr hmem, hfreed⟩
  | scan sc => exact Scan.Sound.undisturbed h hs
  | attempt sc id =>
    obtain ⟨hscan, a, wr, hmem, hwr, hid⟩ := h
    exact ⟨hscan.undisturbed hs, a, wr, (hwr.mem_iff hs).mpr hmem, hwr.undisturbed hs, hid⟩
  | revoke sc =>
    obtain ⟨henv, hmem, wr, hwr, hlive⟩ := h
    exact ⟨henv, (hwr.mem_iff hs).mpr hmem, wr, hwr.undisturbed hs, hlive⟩

/-- A new wrapper holds an object nobody has seen. -/
theorem holds_allocate (hs : s.Sound) (free : s.heap a = none) :
    let s' := { s with created := s.created + 1 }.write a
      ⟨env, kind, 0, some s.created, false, false, false⟩
    ∃ wr, s'.Holds env kind a wr ∧ a ∉ s'.handles ∧ wr.freed = false ∧ s'.Unhanded wr := by
  refine ⟨_, ⟨Addon.write_heap_self .., rfl, rfl⟩, fun hmem => ?_, rfl, ?_⟩
  · obtain ⟨wr, hwr⟩ := hs.live hmem
    rw [free] at hwr
    cases hwr
  · rintro env' kind' o ⟨⟩ hhanded
    exact (hs.events hhanded rfl).false

theorem holds_removeCallback (hwr : s.Holds env kind a wr) :
    ∃ wr', (s.removeCallback a wr).Holds env kind a wr' ∧ wr'.freed = wr.freed ∧
      (s.removeCallback a wr).handles = s.handles := by
  unfold Addon.removeCallback
  split
  · exact ⟨{ wr with teardownRegistered := false }, ⟨Addon.write_heap_self .., hwr.env, hwr.kind⟩,
      rfl, rfl⟩
  · exact ⟨wr, hwr, rfl, rfl⟩

theorem effects_removeCallback (hwr : s.Holds env kind a wr) :
    Effects env s (s.removeCallback a wr) := by
  unfold Addon.removeCallback
  split
  · exact .single (.flag hwr.own hwr.env false _ fun _ h => .inl (List.mem_of_mem_erase h))
  · exact .refl

theorem call_sound {a b : ℕ} {wa wb : Wrapper w} {ka kb : HandleKind} (ha : s.Holds env ka a wa)
    (hb : s.Holds env kb b wb) (hla : wa.freed = false) (hlb : wb.freed = false) :
    (Control.call [a, b]).Sound env s := by
  intro x hx
  rcases List.mem_pair.mp hx with rfl | rfl
  · exact ⟨wa, ha.own, ha.env, hla⟩
  · exact ⟨wb, hb.own, hb.env, hlb⟩

/-- The first step of every operation. -/
theorem begin_sound {action : Action w} (h : Control.begin env s action = some (s', c'))
    (hs : s.Sound) : Effects env s s' ∧ c'.Sound env s' := by
  cases action with
  | wrapSdkNode address =>
    cases address with
    | none =>
      cases h
      exact ⟨.tail (.single (.lose .node)) (.throw _ _), trivial⟩
    | some a =>
      simp only [Control.begin, Option.ite_none_right_eq_some, Option.some.injEq,
        Prod.mk.injEq] at h
      obtain ⟨hfree, rfl, rfl⟩ := h
      exact ⟨.single (.allocate .node hfree), holds_allocate hs hfree⟩
  | wrapSigner address =>
    cases address with
    | none =>
      cases h
      exact ⟨.tail (.single (.lose .signer)) (.throw _ _), trivial⟩
    | some a =>
      simp only [Control.begin, Option.ite_none_right_eq_some, Option.some.injEq,
        Prod.mk.injEq] at h
      obtain ⟨hfree, rfl, rfl⟩ := h
      exact ⟨.single (.allocate .signer hfree), holds_allocate hs hfree⟩
  | nodeCall data =>
    simp only [Control.begin] at h
    split at h
    next e he =>
      cases h
      obtain ⟨code, message, rfl⟩ := Addon.error_threw he
      exact ⟨.single (.throw _ _), trivial⟩
    next a ha =>
      cases h
      obtain ⟨_, wr, hwr, hlive, _⟩ := Addon.requireSdkNode_spec ha
      exact ⟨.refl, by simpa [Control.Sound] using ⟨wr, hwr.own, hwr.env, hlive⟩⟩
  | signerCall data =>
    simp only [Control.begin] at h
    split at h
    next e he =>
      cases h
      obtain ⟨code, message, rfl⟩ := Addon.signer_error_threw he
      exact ⟨.single (.throw _ _), trivial⟩
    next a ha =>
      cases h
      obtain ⟨_, wr, hwr, hlive⟩ := Addon.requireSigner_spec ha
      exact ⟨.refl, by simpa [Control.Sound] using ⟨wr, hwr.own, hwr.env, hlive⟩⟩
  | nodeSignerCall node signer =>
    simp only [Control.begin] at h
    split at h
    next e he =>
      cases h
      obtain ⟨code, message, rfl⟩ := Addon.error_threw he
      exact ⟨.single (.throw _ _), trivial⟩
    next a ha =>
      split at h
      next e he =>
        cases h
        obtain ⟨code, message, rfl⟩ := Addon.signer_error_threw he
        exact ⟨.single (.throw _ _), trivial⟩
      next b hb =>
        cases h
        obtain ⟨_, wa, hwa, hla, _⟩ := Addon.requireSdkNode_spec ha
        obtain ⟨_, wb, hwb, hlb⟩ := Addon.requireSigner_spec hb
        exact ⟨.refl, call_sound hwa hwb hla hlb⟩
  | sdkNodeShutdown data =>
    simp only [Control.begin] at h
    split at h
    next =>
      cases h
      exact ⟨.single (.throw _ _), trivial⟩
    next a ha =>
      obtain ⟨_, wr, hwr⟩ := Addon.unwrapRef_spec ha
      simp only [hwr.own, Option.any_some] at h
      split at h
      next =>
        cases h
        exact ⟨.single (.throw _ _), trivial⟩
      next hopen =>
        simp only [Bool.or_eq_true, not_or, Bool.not_eq_true] at hopen
        split at h <;> cases h
        · exact ⟨.refl, trivial⟩
        · exact ⟨.refl, wr, hwr, hopen.1⟩
  | sdkNodeDestroy data =>
    simp only [Control.begin] at h
    split at h
    next =>
      cases h
      exact ⟨.single (.throw _ _), trivial⟩
    next a ha =>
      obtain ⟨hmem, wr, hwr⟩ := Addon.unwrapRef_spec ha
      split at h <;> cases h
      · exact ⟨.refl, trivial⟩
      · exact ⟨.refl, wr, hwr, hmem⟩
  | signerShutdown data =>
    simp only [Control.begin] at h
    split at h
    next e he =>
      cases h
      obtain ⟨code, message, rfl⟩ := Addon.signer_error_threw he
      exact ⟨.single (.throw _ _), trivial⟩
    next a ha =>
      cases h
      obtain ⟨_, wr, hwr, hlive⟩ := Addon.requireSigner_spec ha
      exact ⟨.refl, wr, hwr, hlive⟩
  | signerDestroy data =>
    simp only [Control.begin] at h
    split at h
    next =>
      cases h
      exact ⟨.single (.throw _ _), trivial⟩
    next a ha =>
      cases h
      obtain ⟨hmem, wr, hwr⟩ := Addon.unwrapRef_spec ha
      exact ⟨.refl, wr, hwr, hmem⟩
  | sdkNodeDestructor data hint =>
    simp only [Control.begin] at h
    split at h
    next =>
      cases h
      exact ⟨.refl, trivial⟩
    next a ha =>
      cases h
      obtain ⟨_, hmem, wr, hwr, _⟩ := Addon.findFinalizerHandle_spec ha
      exact ⟨.refl, wr, hwr, hmem⟩
  | signerDestructor data hint =>
    simp only [Control.begin] at h
    split at h
    next =>
      cases h
      exact ⟨.refl, trivial⟩
    next a ha =>
      obtain ⟨_, hmem, wr, hwr, _⟩ := Addon.findFinalizerHandle_spec ha
      simp only [hwr.own, Option.map_some, Option.some.injEq, Prod.mk.injEq] at h
      obtain ⟨rfl, rfl⟩ := h
      obtain ⟨wr', hwr', _, hhandles⟩ := holds_removeCallback hwr
      exact ⟨effects_removeCallback hwr, wr', hwr', hhandles ▸ hmem⟩
  | teardown cb =>
    simp only [Control.begin, Option.ite_none_right_eq_some] at h
    obtain ⟨⟨hcb, rfl⟩, h⟩ := h
    have herase : Effect cb.env s { s with callbacks := s.callbacks.erase cb } :=
      .callbacks _ fun _ h => List.mem_of_mem_erase h
    split at h
    next =>
      cases h
      exact ⟨.single herase, trivial⟩
    next a ha =>
      obtain ⟨hmem, wr, hwr, _⟩ := hs.holds_of_callback hcb ha
      simp only [hwr.own, Option.map_some, Option.some.injEq, Prod.mk.injEq] at h
      obtain ⟨rfl, rfl⟩ := h
      have hflag := Effect.flag (s := { s with callbacks := s.callbacks.erase cb }) hwr.own hwr.env
        false (s.callbacks.erase cb) fun _ => .inl
      refine ⟨.tail (.single herase) hflag, ?_⟩
      have hwr' : ({ s with callbacks := s.callbacks.erase cb }.write a
          { wr with teardownRegistered := false }).Holds cb.env cb.kind a
          { wr with teardownRegistered := false } :=
        ⟨Addon.write_heap_self .., hwr.env, hwr.kind⟩
      cases hkind : cb.kind with
      | node => exact ⟨_, hkind ▸ hwr', hmem⟩
      | signer => exact ⟨hwr.env, hmem, _, hkind ▸ hwr'⟩
  | resume ok => cases h

theorem Addon.Holds.register (hwr : s.Holds env kind a wr) :
    (s.register a wr).Holds env kind a { wr with id := s.nextHandleId } :=
  ⟨Function.update_self .., hwr.env, hwr.kind⟩

theorem Addon.Unhanded.register (h : s.Unhanded wr) (id : BitVec w) :
    (s.register a wr).Unhanded { wr with id } := by
  intro env kind o ho hhanded
  exact h env kind o ho (by simpa [Addon.register] using hhanded)

/-- Registration succeeds while identities are left. -/
theorem registerHandle_sound (hwr : s.Holds env kind a wr) (hmem : a ∉ s.handles)
    (hlive : wr.freed = false) (hunhanded : s.Unhanded wr)
    (h : s.registerHandle a wr = some s') : Effects env s s' ∧
      ∃ wr', s'.Holds env kind a wr' ∧ a ∈ s'.handles ∧ wr'.freed = wr.freed ∧ s'.Unhanded wr' := by
  simp only [Addon.registerHandle, Option.ite_none_left_eq_some, Option.some.injEq] at h
  obtain ⟨hnext, rfl⟩ := h
  exact ⟨.single (.register hwr.own hwr.env hlive hmem hnext), _, hwr.register,
    List.mem_cons_self, rfl, hunhanded.register _⟩

/-- A callback is added for a registered wrapper. -/
theorem addCallback_sound (hwr : s.Holds env kind a wr) (hmem : a ∈ s.handles)
    (hlive : wr.freed = false) (hunhanded : s.Unhanded wr) :
    let s' := { s.write a { wr with teardownRegistered := true } with
      callbacks := ⟨env, kind, wr.id⟩ :: s.callbacks }
    Effects env s s' ∧ ∃ wr', s'.Holds env kind a wr' ∧ a ∈ s'.handles ∧ wr'.freed = false ∧
      s'.Unhanded wr' := by
  refine ⟨.single (.flag hwr.own hwr.env true _ fun cb hcb => ?_), _,
    ⟨Addon.write_heap_self .., hwr.env, hwr.kind⟩, hmem, hlive, hunhanded⟩
  rcases List.mem_cons.mp hcb with rfl | hcb
  · exact .inr ⟨hmem, rfl, rfl⟩
  · exact .inl hcb

theorem wrapNode_sound {ok : Bool} (h : c.wrapNode env s ok = some (s', c')) (hs : s.Sound)
    (hc : c.Sound env s) : Effects env s s' ∧ c'.Sound env s' := by
  cases c with
  | registerNode a =>
    obtain ⟨wr, hwr, hmem, hlive, hunhanded⟩ := hc
    simp only [Control.wrapNode, hwr.own, Option.map_some, Option.some.injEq] at h
    split at h
    next =>
      cases h
      exact ⟨.refl, wr, hwr, hmem, hunhanded⟩
    next t hregister =>
      cases h
      obtain ⟨heffects, wr', hwr', hmem', hfreed, hunhanded'⟩ :=
        registerHandle_sound hwr hmem hlive hunhanded hregister
      exact ⟨heffects, wr', hwr', hmem', hfreed.trans hlive, hunhanded'⟩
  | addNodeCallback a =>
    obtain ⟨wr, hwr, hmem, hlive, hunhanded⟩ := hc
    simp only [Control.wrapNode, hwr.own, Option.map_some, Option.some.injEq] at h
    split at h <;> cases h
    · exact addCallback_sound hwr hmem hlive hunhanded
    · exact ⟨.refl, wr, hwr, hmem, hlive, hunhanded⟩
  | createNodeExternal a =>
    obtain ⟨wr, hwr, hmem, hlive, hunhanded⟩ := hc
    simp only [Control.wrapNode, hwr.own, Option.map_some, Option.some.injEq] at h
    split at h <;> cases h
    · exact ⟨.single (.hand hwr.own hwr.env hlive hmem), trivial⟩
    · refine ⟨.single (.callbacks _ fun _ h => List.mem_of_mem_erase h), wr, ?_⟩
      exact ⟨⟨hwr.own, hwr.env, hwr.kind⟩, hmem, hlive, hunhanded⟩
  | rollbackNode a failure =>
    obtain ⟨wr, hwr, hmem, hlive, hunhanded⟩ := hc
    cases h
    refine ⟨.single (.unregister hwr.own hwr.env (.inr hunhanded)), wr, ?_⟩
    exact ⟨⟨hwr.own, hwr.env, hwr.kind⟩, hs.nodup.not_mem_erase, hunhanded⟩
  | _ => cases h

theorem wrapSigner_sound {ok : Bool} (h : c.wrapSigner env s ok = some (s', c')) (hs : s.Sound)
    (hc : c.Sound env s) : Effects env s s' ∧ c'.Sound env s' := by
  cases c with
  | registerSigner a =>
    obtain ⟨wr, hwr, hmem, hlive, hunhanded⟩ := hc
    simp only [Control.wrapSigner, hwr.own, Option.map_some, Option.some.injEq] at h
    split at h
    next =>
      cases h
      exact ⟨.refl, wr, hwr, hmem, hlive, hunhanded⟩
    next t hregister =>
      cases h
      obtain ⟨heffects, wr', hwr', hmem', hfreed, hunhanded'⟩ :=
        registerHandle_sound hwr hmem hlive hunhanded hregister
      exact ⟨heffects, wr', hwr', hmem', hfreed.trans hlive, hunhanded'⟩
  | addSignerCallback a =>
    obtain ⟨wr, hwr, hmem, hlive, hunhanded⟩ := hc
    simp only [Control.wrapSigner, hwr.own, Option.map_some, Option.some.injEq] at h
    split at h <;> cases h
    · exact addCallback_sound hwr hmem hlive hunhanded
    · exact ⟨.refl, wr, hwr, hmem, hlive, hunhanded⟩
  | createSignerExternal a =>
    obtain ⟨wr, hwr, hmem, hlive, hunhanded⟩ := hc
    simp only [Control.wrapSigner, hwr.own, Option.map_some, Option.some.injEq] at h
    split at h <;> cases h
    · exact ⟨.single (.hand hwr.own hwr.env hlive hmem), trivial⟩
    · refine ⟨.single (.callbacks _ fun _ h => List.mem_of_mem_erase h), wr, ?_⟩
      exact ⟨⟨hwr.own, hwr.env, hwr.kind⟩, hmem, hlive, hunhanded⟩
  | rollbackSigner a failure =>
    obtain ⟨wr, hwr, hmem, hlive, hunhanded⟩ := hc
    cases h
    refine ⟨.single (.unregister hwr.own hwr.env (.inr hunhanded)), wr, ?_⟩
    exact ⟨⟨hwr.own, hwr.env, hwr.kind⟩, hs.nodup.not_mem_erase, hlive, hunhanded⟩
  | discardSigner a failure =>
    obtain ⟨wr, hwr, hmem, hlive, hunhanded⟩ := hc
    simp only [Control.wrapSigner, hwr.own, Option.map_some, Option.some.injEq,
      Prod.mk.injEq] at h
    obtain ⟨rfl, rfl⟩ := h
    have hdiscard := Effect.discard hwr.own hwr.env hlive hwr.kind hmem hunhanded
    refine ⟨.tail (.single hdiscard) ?_, trivial⟩
    cases failure <;> exact .throw _ _
  | _ => cases h

/-- The signer of a scan is another wrapper than the node being stopped. -/
theorem Scan.Sound.ne {sc : Scan w} (h : sc.Sound env s) (hwr : s.Holds env .node a wr) :
    sc.signer ≠ a := by
  rintro rfl
  obtain ⟨_, _, wr', hwr'⟩ := h
  obtain rfl : wr' = wr := Option.some.inj (hwr'.own.symm.trans hwr.own)
  cases hwr'.kind.symm.trans hwr.kind

theorem Scan.Sound.write {sc : Scan w} (h : sc.Sound env s) (hwr : s.Holds env .node a wr)
    (wr' : Wrapper w) : sc.Sound env (s.write a wr') := by
  have hne := h.ne hwr
  obtain ⟨henv, hmem, wr'', hwr''⟩ := h
  exact ⟨henv, hmem, wr'', (Addon.write_heap_of_ne _ _ hne).trans hwr''.own, hwr''.env, hwr''.kind⟩

theorem Scan.Sound.record {sc : Scan w} {e : Event w} (h : sc.Sound env s) :
    sc.Sound env (s.record e) := by
  obtain ⟨henv, hmem, wr, hwr⟩ := h
  exact ⟨henv, hmem, wr, hwr.own, hwr.env, hwr.kind⟩

theorem Scan.Sound.unregister {sc : Scan w} (h : sc.Sound env s) (hwr : s.Holds env .node a wr) :
    sc.Sound env (s.unregisterHandle a) := by
  have hne := h.ne hwr
  obtain ⟨henv, hmem, wr', hwr'⟩ := h
  exact ⟨henv, (List.mem_erase_of_ne hne).mpr hmem, wr', hwr'.own, hwr'.env, hwr'.kind⟩

theorem Scan.Sound.release {sc : Scan w} (h : sc.Sound env s) (hwr : s.Holds env .node a wr) :
    sc.Sound env (s.release a) := by
  have hne := h.ne hwr
  obtain ⟨henv, hmem, wr', hwr'⟩ := h
  exact ⟨henv, hmem, wr', (Addon.release_heap_of_ne _ hne).trans hwr'.own, hwr'.env, hwr'.kind⟩

theorem Addon.Unhanded.record {e : Event w} (h : s.Unhanded wr)
    (he : ∀ env kind o, e ≠ .handed env kind o) :
    (s.record e).Unhanded wr := by
  intro env kind o ho hhanded
  rcases List.mem_cons.mp hhanded with hhanded | hhanded
  · exact he _ _ _ hhanded.symm
  · exact h env kind o ho hhanded

/-- Neither a native call nor a change of the node's flags takes anything from the caller. -/
theorem NodeCaller.Sound.write {caller : NodeCaller w} {wr' : Wrapper w} {e : Event w}
    (h : caller.Sound env s a wr) (hwr : s.Holds env .node a wr)
    (hobject : ∀ o, wr'.object = some o → wr.object = some o)
    (he : ∀ env kind o, e ≠ .handed env kind o) :
    caller.Sound env ((s.write a wr').record e) a wr' := by
  cases caller with
  | wrap failure =>
    refine ⟨h.1, ?_⟩
    intro env' kind o ho
    exact h.2.record he env' kind o (hobject o ho)
  | scan sc => exact ⟨h.1, (h.2.write hwr wr').record⟩
  | _ => exact h

theorem stopNode_sound {caller : NodeCaller w} {ok : Bool} (hwr : s.Holds env .node a wr)
    (hcaller : caller.Sound env s a wr)
    (h : (Control.stopNode a caller).stopNodes s ok = some (s', c')) :
    Effects env s s' ∧ c'.Sound env s' := by
  simp only [Control.stopNodes, hwr.own, Option.map_some, Option.some.injEq] at h
  by_cases hfreed : wr.freed = true
  · rw [if_pos hfreed] at h
    cases h
    exact ⟨.refl, wr, hwr, hcaller⟩
  rw [if_neg hfreed] at h
  have hlive := eq_false_of_ne_true hfreed
  by_cases hattempted : wr.shutdownAttempted = true
  · rw [if_pos hattempted] at h
    cases h
    exact ⟨.refl, wr, hwr, hcaller, hlive, hattempted⟩
  rw [if_neg hattempted] at h
  split at h <;> cases h
  · refine ⟨.single (.stop hwr.own hwr.env hlive), { wr with shutdownAttempted := true }, ?_⟩
    exact ⟨⟨Addon.write_heap_self .., hwr.env, hwr.kind⟩, hcaller.write hwr (fun _ h => h) nofun,
      hlive, rfl⟩
  · refine ⟨.single (.fail hwr.own hwr.env hlive), wr, ⟨hwr.own, hwr.env, hwr.kind⟩, ?_⟩
    cases caller with
    | wrap failure => exact ⟨hcaller.1, hcaller.2.record nofun⟩
    | scan sc => exact ⟨hcaller.1, hcaller.2.record⟩
    | _ => exact hcaller

theorem nodeStopped_sound {caller : NodeCaller w} {ok : Bool} (hwr : s.Holds env .node a wr)
    (hcaller : caller.Sound env s a wr)
    (h : (Control.nodeStopped a caller).stopNodes s ok = some (s', c')) :
    Effects env s s' ∧ c'.Sound env s' := by
  simp only [Control.stopNodes, hwr.own, Option.map_some, Option.some.injEq] at h
  cases caller with
  | wrap failure =>
    cases h
    exact ⟨.refl, wr, hwr, hcaller.1, .inr hcaller.2, trivial⟩
  | teardown =>
    simp only at h
    split at h <;> cases h
    next hfreed => exact ⟨.refl, wr, hwr, trivial, hfreed⟩
    next => exact ⟨.refl, trivial⟩
  | finalizer =>
    simp only at h
    split at h <;> cases h
    next hfreed =>
      obtain ⟨wr', hwr', hsame, _⟩ := holds_removeCallback hwr
      exact ⟨effects_removeCallback hwr, wr', hwr', trivial, hsame.trans hfreed⟩
    next => exact ⟨.refl, trivial⟩
  | destroy =>
    simp only at h
    split at h <;> cases h
    · exact ⟨.refl, trivial⟩
    · exact ⟨.single (.throw _ _), trivial⟩
  | scan sc =>
    simp only at h
    split at h <;> cases h
    next hfreed => exact ⟨.refl, wr, hwr, hcaller.2, hfreed⟩
    next => exact ⟨.refl, hcaller.2⟩

theorem stopNodes_sound {ok : Bool} (h : c.stopNodes s ok = some (s', c')) (hs : s.Sound)
    (hc : c.Sound env s) : Effects env s s' ∧ c'.Sound env s' := by
  cases c with
  | stopNode a caller =>
    obtain ⟨wr, hwr, hcaller⟩ := hc
    exact stopNode_sound hwr hcaller h
  | freeNode a caller =>
    obtain ⟨wr, hwr, hcaller, hlive, hattempted⟩ := hc
    simp only [Control.stopNodes, hwr.own, Option.map_some, Option.some.injEq,
      Prod.mk.injEq] at h
    obtain ⟨rfl, rfl⟩ := h
    refine ⟨.single (.free hwr.own hwr.env hlive fun _ => hattempted),
      { wr with object := none, freed := true }, ?_⟩
    exact ⟨⟨Addon.write_heap_self .., hwr.env, hwr.kind⟩, hcaller.write hwr nofun nofun⟩
  | nodeStopped a caller =>
    obtain ⟨wr, hwr, hcaller⟩ := hc
    exact nodeStopped_sound hwr hcaller h
  | unregisterNode a caller =>
    obtain ⟨wr, hwr, hscan, hfreed⟩ := hc
    cases h
    refine ⟨.single (.unregister hwr.own hwr.env (.inl hfreed)), wr,
      ⟨hwr.own, hwr.env, hwr.kind⟩, hs.nodup.not_mem_erase, .inl hfreed, ?_⟩
    cases caller with
    | scan sc => exact Scan.Sound.unregister hscan hwr
    | _ => trivial
  | releaseNode a caller =>
    obtain ⟨wr, hwr, hmem, hdone, hscan⟩ := hc
    have hrelease := Effect.release hwr.own hwr.env hmem hdone
    cases caller with
    | wrap failure =>
      cases h
      refine ⟨.tail (.single hrelease) ?_, trivial⟩
      cases failure <;> exact .throw _ _
    | scan sc =>
      cases h
      exact ⟨.single hrelease, Scan.Sound.release hscan hwr⟩
    | teardown | finalizer | destroy =>
      cases h
      exact ⟨.single hrelease, trivial⟩
  | shutdownNode a =>
    obtain ⟨wr, hwr, hlive⟩ := hc
    simp only [Control.stopNodes, hwr.own, Option.map_some, Option.some.injEq] at h
    split at h <;> cases h
    · exact ⟨.single (.stop hwr.own hwr.env hlive), trivial⟩
    · exact ⟨.single (.fail hwr.own hwr.env hlive), trivial⟩
  | _ => cases h

theorem effects_call {targets : List ℕ} (h : (Control.call targets).Sound env s) :
    Effects env s
      (targets.foldl (fun s a => s.record (.called ((s.heap a).bind (·.object)))) s) := by
  induction targets generalizing s with
  | nil => exact .refl
  | cons a targets ih =>
    obtain ⟨wr, hwr, henv, hlive⟩ := h a List.mem_cons_self
    have hcall : Effect env s (s.record (.called ((s.heap a).bind (·.object)))) := by
      rw [hwr]
      exact .call hwr henv hlive
    refine .head hcall (ih fun b hb => ?_)
    exact h b (List.mem_cons_of_mem _ hb)

theorem callNative_sound {ok : Bool} (h : c.callNative s ok = some (s', c'))
    (hc : c.Sound env s) : Effects env s s' ∧ c'.Sound env s' := by
  cases c with
  | call targets =>
    simp only [Control.callNative] at h
    split at h <;> cases h
    · exact ⟨effects_call hc, trivial⟩
    · exact ⟨.refl, trivial⟩
  | shutdownSigner a =>
    obtain ⟨wr, hwr, hlive⟩ := hc
    simp only [Control.callNative, hwr.own, Option.map_some, Option.some.injEq,
      Prod.mk.injEq] at h
    obtain ⟨rfl, rfl⟩ := h
    exact ⟨.single (.revoke hwr.own hwr.env hlive ok), trivial⟩
  | _ => cases h

theorem freeSigners_sound (h : c.freeSigners s = some (s', c')) (hs : s.Sound)
    (hc : c.Sound env s) : Effects env s s' ∧ c'.Sound env s' := by
  cases c with
  | freeSigner a caller =>
    obtain ⟨wr, hwr, hmem⟩ := hc
    simp only [Control.freeSigners, hwr.own, Option.map_some, Option.some.injEq,
      Prod.mk.injEq] at h
    obtain ⟨rfl, rfl⟩ := h
    by_cases hfreed : wr.freed = true
    · rw [if_pos hfreed]
      refine ⟨.refl, ?_⟩
      cases caller with
      | destroy => trivial
      | _ => exact ⟨wr, hwr, hfreed⟩
    · rw [if_neg hfreed]
      have hfree := Effect.free hwr.own hwr.env (eq_false_of_ne_true hfreed) fun hnode => by
        cases hwr.kind.symm.trans hnode
      refine ⟨.single hfree, ?_⟩
      cases caller with
      | destroy => trivial
      | _ =>
        exact ⟨{ wr with object := none, freed := true },
          ⟨Addon.write_heap_self .., hwr.env, hwr.kind⟩, rfl⟩
  | unregisterSigner a caller =>
    obtain ⟨wr, hwr, hfreed⟩ := hc
    cases h
    exact ⟨.single (.unregister hwr.own hwr.env (.inl hfreed)), wr,
      ⟨hwr.own, hwr.env, hwr.kind⟩, hs.nodup.not_mem_erase, hfreed⟩
  | releaseSigner a caller =>
    obtain ⟨wr, hwr, hmem, hfreed⟩ := hc
    cases h
    exact ⟨.single (.release hwr.own hwr.env hmem (.inl hfreed)), trivial⟩
  | _ => cases h

theorem scanNodes_sound {ok : Bool} (h : c.scanNodes s ok = some (s', c')) (hs : s.Sound)
    (hc : c.Sound env s) : Effects env s s' ∧ c'.Sound env s' := by
  cases c with
  | scan sc =>
    obtain ⟨henv, hmem, wr, hwr⟩ := hc
    simp only [Control.scanNodes, hwr.own, Option.map_some] at h
    by_cases hnone : s.nextNode sc.env sc.cursor = 0
    · rw [if_pos hnone] at h
      split at h
      · cases h
        by_cases hfreed : wr.freed = true
        · rw [if_pos hfreed]
          exact ⟨.refl, wr, hwr, hfreed⟩
        · rw [if_neg hfreed]
          exact ⟨.refl, henv, hmem, wr, hwr, eq_false_of_ne_true hfreed⟩
      · cases h
        exact ⟨.refl, trivial⟩
    · rw [if_neg hnone] at h
      cases h
      obtain ⟨hid, _⟩ := s.nextNode_mem hnone
      obtain ⟨a, wa, ha, hwa, hae, hak, hai⟩ := s.mem_nodeIds.mp hid
      exact ⟨.refl, ⟨henv, hmem, wr, hwr⟩, a, wa, ha, ⟨hwa, hae.trans henv, hak⟩, hai⟩
  | attempt sc id =>
    obtain ⟨hscan, b, wb, hb, hwb, hid⟩ := hc
    simp only [Control.scanNodes] at h
    split at h
    next =>
      cases h
      exact ⟨.refl, hscan⟩
    next a ha =>
      cases h
      obtain ⟨hmem, wr, hwr, hid', _⟩ := Addon.findTeardownHandle_spec ha
      obtain rfl : a = b := hs.distinct hmem hb hwr hwb.own (hid'.trans hid.symm)
      exact ⟨.refl, wb, hwb, hb, hscan⟩
  | revoke sc =>
    obtain ⟨henv, hmem, wr, hwr, hlive⟩ := hc
    simp only [Control.scanNodes, hwr.own, Option.map_some, Option.some.injEq,
      Prod.mk.injEq] at h
    obtain ⟨rfl, rfl⟩ := h
    refine ⟨.single (.revoke hwr.own hwr.env hlive ok), ?_⟩
    split
    · exact ⟨wr, ⟨hwr.own, hwr.env, hwr.kind⟩, hmem⟩
    · trivial
  | _ => cases h

/-- Every step of a thread is a sequence of effects, and the thread keeps track of its wrapper. -/
theorem next_sound {action : Action w} (h : c.next env action s = some (s', c')) (hs : s.Sound)
    (hc : c.Sound env s) : Effects env s s' ∧ c'.Sound env s' := by
  unfold Control.next at h
  split at h
  · exact begin_sound h hs
  · cases action with
    | resume ok =>
      simp only [Option.or_eq_some_iff] at h
      rcases h with h | ⟨_, h | ⟨_, h | ⟨_, h | ⟨_, h | ⟨_, h⟩⟩⟩⟩⟩
      · exact wrapNode_sound h hs hc
      · exact stopNodes_sound h hs hc
      · exact callNative_sound h hc
      · exact wrapSigner_sound h hs hc
      · exact freeSigners_sound h hs hc
      · exact scanNodes_sound h hs hc
    | _ => cases h

theorem program_preserves :
    (program w).Preserves Program.Unrestricted Addon.Sound Control.Sound where
  shared _ hs h := (next_sound h hs.shared (hs.control _)).1.sound hs.shared
  own _ hs h := (next_sound h hs.shared (hs.control _)).2
  other _ hs hj h := by
    have heffects := (next_sound h hs.shared (hs.control _)).1
    exact (hs.control _).undisturbed (heffects.undisturbed hs.shared hj)
  environment {_ event _} _ _ _ := nomatch event

end RgbLightningNode.Handles
