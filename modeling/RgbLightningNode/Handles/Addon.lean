import RgbLightningNode.Handles.Registry
import RgbLightningNode.Transition.Threads

/-!
# The addon's handle operations

Each environment runs its JavaScript calls, finalizers and teardown callbacks on one thread. A step
is a section under the registry's mutex or one native call with the thread's own writes to the
wrapper it works on; other environments may step in between.
-/

namespace RgbLightningNode.Handles
open Transition

variable {w : ℕ}

/-- The local variables of `signer_teardown` and of `shutdown_environment_nodes` inside it. The node
identities found at the start and the attempts made so far are kept for the record. -/
structure Scan (w : ℕ) where
  signer : ℕ
  env : ℕ
  cursor : BitVec w
  stopped : Bool
  start : List (BitVec w)
  attempts : List (BitVec w × Bool)
  deriving DecidableEq, Repr

inductive WrapFailure where
  | exhausted
  | callback
  | createExternal
  deriving DecidableEq, Repr

/-- Who called `shutdown_and_free_sdk_node`. -/
inductive NodeCaller (w : ℕ) where
  | teardown
  | finalizer
  | wrap (failure : WrapFailure)
  | destroy
  | scan (scan : Scan w)
  deriving DecidableEq, Repr

/-- On whose behalf a signer is freed. -/
inductive SignerCaller (w : ℕ) where
  | finalizer
  | destroy
  | teardown (scan : Scan w)
  deriving DecidableEq, Repr

/-- What the thread of an environment does next; addresses are those of wrappers. -/
inductive Control (w : ℕ) where
  | idle
  | registerNode (a : ℕ)
  | addNodeCallback (a : ℕ)
  | createNodeExternal (a : ℕ)
  | rollbackNode (a : ℕ) (failure : WrapFailure)
  | stopNode (a : ℕ) (caller : NodeCaller w)
  | freeNode (a : ℕ) (caller : NodeCaller w)
  | nodeStopped (a : ℕ) (caller : NodeCaller w)
  | unregisterNode (a : ℕ) (caller : NodeCaller w)
  | releaseNode (a : ℕ) (caller : NodeCaller w)
  | shutdownNode (a : ℕ)
  | call (targets : List ℕ)
  | registerSigner (a : ℕ)
  | addSignerCallback (a : ℕ)
  | createSignerExternal (a : ℕ)
  | rollbackSigner (a : ℕ) (failure : WrapFailure)
  | discardSigner (a : ℕ) (failure : WrapFailure)
  | shutdownSigner (a : ℕ)
  | freeSigner (a : ℕ) (caller : SignerCaller w)
  | unregisterSigner (a : ℕ) (caller : SignerCaller w)
  | releaseSigner (a : ℕ) (caller : SignerCaller w)
  | scan (scan : Scan w)
  | attempt (scan : Scan w) (id : BitVec w)
  | revoke (scan : Scan w)
  deriving DecidableEq, Repr

/-- A JavaScript value passed as a handle is `none` unless it is an external. -/
inductive Action (w : ℕ) where
  | wrapSdkNode (address : Option ℕ)
  | wrapSigner (address : Option ℕ)
  | nodeCall (data : Option ℕ)
  | signerCall (data : Option ℕ)
  | nodeSignerCall (node signer : Option ℕ)
  | sdkNodeShutdown (data : Option ℕ)
  | sdkNodeDestroy (data : Option ℕ)
  | signerShutdown (data : Option ℕ)
  | signerDestroy (data : Option ℕ)
  | sdkNodeDestructor (data : ℕ) (hint : BitVec w)
  | signerDestructor (data : ℕ) (hint : BitVec w)
  | teardown (callback : Callback w)
  | resume (ok : Bool)
  deriving DecidableEq, Repr

def WrapFailure.nodeError : WrapFailure → Event w
  | .exhausted => .threw (some "ERR_RLN_ALLOCATION") "Native handle identities exhausted"
  | .callback => .threw none "Unable to register rgb-lightning-node teardown"
  | .createExternal => .threw none "Unable to create rgb-lightning-node handle"

def WrapFailure.signerError : WrapFailure → Event w
  | .exhausted => .threw (some "ERR_RLN_ALLOCATION") "Native handle identities exhausted"
  | .callback => .threw none "Unable to register native signer teardown"
  | .createExternal => .threw (some "ERR_RLN_ALLOCATION") "Unable to create signer handle"

namespace Addon

variable (s : Addon w)

/-- `require_sdk_node`, or the error it throws. -/
def requireSdkNode (env : ℕ) : Option ℕ → Except (Event w) ℕ
  | none => .error (.threw (some "ERR_RLN_NODE_CLOSED") "RGB Lightning node handle is unavailable")
  | some a =>
    if s.ownsHandle env a .node then
      if (s.heap a).any fun wr => wr.freed || wr.shutdownAttempted || wr.object.isNone then
        .error (.threw (some "ERR_RLN_NODE_CLOSED") "RGB Lightning node is already closed")
      else .ok a
    else .error (.threw (some "ERR_RLN_NODE_CLOSED") "RGB Lightning node handle is unavailable")

/-- `require_signer`, or the error it throws. -/
def requireSigner (env : ℕ) : Option ℕ → Except (Event w) ℕ
  | none =>
    .error (.threw (some "ERR_RLN_SIGNER_CLOSED") "RGB Lightning signer handle is unavailable")
  | some a =>
    if s.ownsHandle env a .signer then
      if (s.heap a).any fun wr => wr.freed || wr.object.isNone then
        .error (.threw (some "ERR_RLN_SIGNER_CLOSED") "RGB Lightning signer is already closed")
      else .ok a
    else .error (.threw (some "ERR_RLN_SIGNER_CLOSED") "RGB Lightning signer handle is unavailable")

/-- `unwrap_sdk_node_ref` and `unwrap_signer_ref`. -/
def unwrapRef (env : ℕ) (kind : HandleKind) (data : Option ℕ) : Option ℕ :=
  data.filter fun a => s.ownsHandle env a kind

/-- Both frees end with a null pointer in the wrapper. -/
def freeObject (a : ℕ) (wr : Wrapper w) : Addon w :=
  (s.write a { wr with object := none, freed := true }).record (.freed wr.kind wr.object)

/-- `js_remove_teardown_callback` when a callback is registered. -/
def removeCallback (a : ℕ) (wr : Wrapper w) : Addon w :=
  if wr.teardownRegistered then
    { s.write a { wr with teardownRegistered := false } with
      callbacks := s.callbacks.erase ⟨wr.env, wr.kind, wr.id⟩ }
  else s

end Addon

namespace Control

/-- The first step of a call, a finalizer or a teardown callback. -/
def begin (env : ℕ) (s : Addon w) : Action w → Option (Addon w × Control w)
  | .wrapSdkNode none =>
    some ({ s with created := s.created + 1 }.record (.freed .node (some s.created)) |>.record
      (.threw (some "ERR_RLN_ALLOCATION") "Unable to allocate node handle"), .idle)
  | .wrapSdkNode (some a) =>
    if s.heap a = none then
      some ({ s with created := s.created + 1 }.write a
        ⟨env, .node, 0, some s.created, false, false, false⟩, .registerNode a)
    else none
  | .wrapSigner none =>
    some ({ s with created := s.created + 1 }.record (.freed .signer (some s.created)) |>.record
      (.threw (some "ERR_RLN_ALLOCATION") "Unable to allocate signer handle"), .idle)
  | .wrapSigner (some a) =>
    if s.heap a = none then
      some ({ s with created := s.created + 1 }.write a
        ⟨env, .signer, 0, some s.created, false, false, false⟩, .registerSigner a)
    else none
  | .nodeCall data =>
    match s.requireSdkNode env data with
    | .error e => some (s.record e, .idle)
    | .ok a => some (s, .call [a])
  | .signerCall data =>
    match s.requireSigner env data with
    | .error e => some (s.record e, .idle)
    | .ok a => some (s, .call [a])
  | .nodeSignerCall node signer =>
    match s.requireSdkNode env node with
    | .error e => some (s.record e, .idle)
    | .ok a =>
      match s.requireSigner env signer with
      | .error e => some (s.record e, .idle)
      | .ok b => some (s, .call [a, b])
  | .sdkNodeShutdown data =>
    match s.unwrapRef env .node data with
    | none => some (s.record
        (.threw (some "ERR_RLN_NODE_CLOSED") "RGB Lightning node is already closed"), .idle)
    | some a =>
      if (s.heap a).any fun wr => wr.freed || wr.object.isNone then
        some (s.record
          (.threw (some "ERR_RLN_NODE_CLOSED") "RGB Lightning node is already closed"), .idle)
      else if (s.heap a).any (·.shutdownAttempted) then some (s, .idle)
      else some (s, .shutdownNode a)
  | .sdkNodeDestroy data =>
    match s.unwrapRef env .node data with
    | none => some (s.record
        (.threw (some "ERR_RLN_NODE_CLOSED") "RGB Lightning node handle is unavailable"), .idle)
    | some a => if (s.heap a).any (·.freed) then some (s, .idle) else some (s, .stopNode a .destroy)
  | .signerShutdown data =>
    match s.requireSigner env data with
    | .error e => some (s.record e, .idle)
    | .ok a => some (s, .shutdownSigner a)
  | .signerDestroy data =>
    match s.unwrapRef env .signer data with
    | none => some (s.record
        (.threw (some "ERR_RLN_SIGNER_CLOSED") "Native signer handle is unavailable"), .idle)
    | some a => some (s, .freeSigner a .destroy)
  | .sdkNodeDestructor data hint =>
    match s.findFinalizerHandle env data hint .node with
    | none => some (s, .idle)
    | some a => some (s, .stopNode a .finalizer)
  | .signerDestructor data hint =>
    match s.findFinalizerHandle env data hint .signer with
    | none => some (s, .idle)
    | some a => (s.heap a).map fun wr => (s.removeCallback a wr, .freeSigner a .finalizer)
  | .teardown callback =>
    if callback ∈ s.callbacks ∧ callback.env = env then
      let s := { s with callbacks := s.callbacks.erase callback }
      match s.findTeardownHandle callback.id callback.kind with
      | none => some (s, .idle)
      | some a => (s.heap a).map fun wr =>
          (s.write a { wr with teardownRegistered := false },
            match callback.kind with
            | .node => .stopNode a .teardown
            | .signer => .scan ⟨a, wr.env, 0, true, s.nodeIds wr.env, []⟩)
    else none
  | .resume _ => none

/-- `wrap_sdk_node` after the allocation; `ok` is the outcome of the libjs call, if one is made. -/
def wrapNode (env : ℕ) (s : Addon w) (ok : Bool) : Control w → Option (Addon w × Control w)
  | .registerNode a => (s.heap a).map fun wr =>
      match s.registerHandle a wr with
      | none => (s, .stopNode a (.wrap .exhausted))
      | some s => (s, .addNodeCallback a)
  | .addNodeCallback a => (s.heap a).map fun wr =>
      if ok then
        ({ s.write a { wr with teardownRegistered := true } with
            callbacks := ⟨env, .node, wr.id⟩ :: s.callbacks }, .createNodeExternal a)
      else (s, .rollbackNode a .callback)
  | .createNodeExternal a => (s.heap a).map fun wr =>
      if ok then (s.record (.handed wr.env wr.kind wr.object), .idle)
      else ({ s with callbacks := s.callbacks.erase ⟨env, .node, wr.id⟩ },
        .rollbackNode a .createExternal)
  | .rollbackNode a failure => some (s.unregisterHandle a, .stopNode a (.wrap failure))
  | _ => none

/-- `shutdown_and_free_sdk_node` and what its callers do after it. -/
def stopNodes (s : Addon w) (ok : Bool) : Control w → Option (Addon w × Control w)
  | .stopNode a caller => (s.heap a).map fun wr =>
      if wr.freed then (s, .nodeStopped a caller)
      else if wr.shutdownAttempted then (s, .freeNode a caller)
      else if ok then
        ((s.write a { wr with shutdownAttempted := true }).record (.nodeStopped wr.object true),
          .freeNode a caller)
      else (s.record (.nodeStopped wr.object false), .nodeStopped a caller)
  | .freeNode a caller => (s.heap a).map fun wr => (s.freeObject a wr, .nodeStopped a caller)
  | .nodeStopped a caller => (s.heap a).map fun wr =>
      match caller with
      | .wrap _ => (s, .releaseNode a caller)
      | .teardown => if wr.freed then (s, .unregisterNode a caller) else (s, .idle)
      | .finalizer =>
        if wr.freed then (s.removeCallback a wr, .unregisterNode a caller) else (s, .idle)
      | .destroy =>
        if wr.freed then (s, .idle)
        else (s.record (.threw (some "ERR_RLN_SHUTDOWN")
          "Node shutdown failed; handle retained for retry"), .idle)
      | .scan sc =>
        let sc := { sc with attempts := (wr.id, wr.freed) :: sc.attempts }
        if wr.freed then (s, .unregisterNode a (.scan sc))
        else (s, .scan { sc with stopped := false })
  | .unregisterNode a caller => some (s.unregisterHandle a, .releaseNode a caller)
  | .releaseNode a caller =>
    match caller with
    | .wrap failure => some ((s.release a).record failure.nodeError, .idle)
    | .scan sc => some (s.release a, .scan sc)
    | _ => some (s.release a, .idle)
  | .shutdownNode a => (s.heap a).map fun wr =>
      if ok then
        ((s.write a { wr with shutdownAttempted := true }).record (.nodeStopped wr.object true),
          .idle)
      else (s.record (.nodeStopped wr.object false), .idle)
  | _ => none

/-- The other `rln_*` functions, called unless an argument cannot be converted; each handle passed
is a native object received. -/
def callNative (s : Addon w) (ok : Bool) : Control w → Option (Addon w × Control w)
  | .call targets =>
    if ok then
      some (targets.foldl (fun s a => s.record (.called ((s.heap a).bind (·.object)))) s, .idle)
    else some (s, .idle)
  | .shutdownSigner a => (s.heap a).map fun wr => (s.record (.signerStopped wr.object ok), .idle)
  | _ => none

/-- `wrap_signer` after the allocation. -/
def wrapSigner (env : ℕ) (s : Addon w) (ok : Bool) : Control w → Option (Addon w × Control w)
  | .registerSigner a => (s.heap a).map fun wr =>
      match s.registerHandle a wr with
      | none => (s, .discardSigner a .exhausted)
      | some s => (s, .addSignerCallback a)
  | .addSignerCallback a => (s.heap a).map fun wr =>
      if ok then
        ({ s.write a { wr with teardownRegistered := true } with
            callbacks := ⟨env, .signer, wr.id⟩ :: s.callbacks }, .createSignerExternal a)
      else (s, .rollbackSigner a .callback)
  | .createSignerExternal a => (s.heap a).map fun wr =>
      if ok then (s.record (.handed wr.env wr.kind wr.object), .idle)
      else ({ s with callbacks := s.callbacks.erase ⟨env, .signer, wr.id⟩ },
        .rollbackSigner a .createExternal)
  | .rollbackSigner a failure => some (s.unregisterHandle a, .discardSigner a failure)
  | .discardSigner a failure => (s.heap a).map fun wr =>
      ((s.release a).record (.freed .signer wr.object) |>.record failure.signerError, .idle)
  | _ => none

/-- The end of `signer_destructor`, `signer_teardown` and `fn_native_external_signer_destroy`. -/
def freeSigners (s : Addon w) : Control w → Option (Addon w × Control w)
  | .freeSigner a caller => (s.heap a).map fun wr =>
      (if wr.freed then s else s.freeObject a wr,
        match caller with
        | .destroy => .idle
        | _ => .unregisterSigner a caller)
  | .unregisterSigner a caller => some (s.unregisterHandle a, .releaseSigner a caller)
  | .releaseSigner a _ => some (s.release a, .idle)
  | _ => none

/-- `shutdown_environment_nodes` and the revocation that follows it in `signer_teardown`. -/
def scanNodes (s : Addon w) (ok : Bool) : Control w → Option (Addon w × Control w)
  | .scan sc =>
    let id := s.nextNode sc.env sc.cursor
    if id = 0 then
      if sc.stopped then
        (s.heap sc.signer).map fun wr =>
          (s, if wr.freed then .unregisterSigner sc.signer (.teardown sc) else .revoke sc)
      else some (s, .idle)
    else some (s, .attempt { sc with cursor := id } id)
  | .attempt sc id =>
    match s.findTeardownHandle id .node with
    | none => some (s, .scan sc)
    | some a => some (s, .stopNode a (.scan sc))
  | .revoke sc => (s.heap sc.signer).map fun wr =>
      (s.record (.signerStopped wr.object ok),
        if ok then .freeSigner sc.signer (.teardown sc) else .idle)
  | _ => none

def next (env : ℕ) (action : Action w) (s : Addon w) :
    Control w → Option (Addon w × Control w)
  | .idle => begin env s action
  | c =>
    match action with
    | .resume ok => (c.wrapNode env s ok).or <| (c.stopNodes s ok).or <| (c.callNative s ok).or <|
        (c.wrapSigner env s ok).or <| (c.freeSigners s).or (c.scanNodes s ok)
    | _ => none

end Control

abbrev System (w : ℕ) := Threads ℕ (Addon w) (Control w)

abbrev Label (w : ℕ) := Move ℕ (Action w) Empty

def program (w : ℕ) : Program ℕ (Addon w) (Control w) (Action w) Empty where
  next env action s c := c.next env action s
  environment event _ := nomatch event

/-- The process before the addon was used. -/
def initial (w : ℕ) : System w where
  shared := ⟨fun _ => none, [], 1, [], 0, []⟩
  control _ := .idle

end RgbLightningNode.Handles
