import RgbLightningNode.Signer.Attachment

/-!
# The signer attachment protocol

Whoever holds the lock of the attachment finds the token and the attachment as it left them, so what
was checked under the lock still holds when the attachment is published or bound.
-/

namespace RgbLightningNode.Signer.Attachment
open Transition

variable {S H U K B I : Type} {f : Bootstraps U K B I} {i j : ℕ} {s s' : AppState S H U K B}
  {c c' d : Control S H U K B}

/-- The events that give the node a signer. -/
def Event.Attaches : Event S H U K B → Prop
  | .published _ _ _ | .bound _ _ => True
  | _ => False

/-- A signer has reported a record with the identity of the attachment. -/
def Reported (f : Bootstraps U K B I) (log : List (Event S H U K B)) (signer : S)
    (attachment : ExternalSignerAttachment S H B) : Prop :=
  ∃ bootstrap, .reported signer bootstrap ∈ log ∧
    f.keySourceIdentity (f.keySourceFromUniffiBootstrap bootstrap) =
      f.bootstrapIdentity attachment.bootstrap

/-- What is known of the shared state. -/
structure AppState.Sound (f : Bootstraps U K B I) (s : AppState S H U K B) : Prop where
  running : s.cancelled = false → ∀ i, .cancelled i ∉ s.log
  terminal : ∀ later i earlier, s.log = later ++ .cancelled i :: earlier → ∀ e ∈ later, ¬e.Attaches
  expected : ∀ i attachment expected, .published i attachment expected ∈ s.log →
    .attaching i attachment.transport expected ∈ s.log ∧
      f.keySourceIdentity expected = f.bootstrapIdentity attachment.bootstrap
  bound : ∀ attachment signer, s.attached = some attachment →
    attachment.messageSigner = some signer → Reported f s.log signer attachment

/-- What a caller that is about to publish has checked. -/
def Expected (f : Bootstraps U K B I) (i : ℕ) (s : AppState S H U K B)
    (host : ExternalSignerHost S H) (expected : K) (bootstrap : B) : Prop :=
  .attaching i host expected ∈ s.log ∧ f.keySourceIdentity expected = f.bootstrapIdentity bootstrap

namespace Control

/-- What caller `i` knows. -/
def Known (f : Bootstraps U K B I) (i : ℕ) (s : AppState S H U K B) : Control S H U K B → Prop
  | .idle | .learning _ | .relocking _ | .detachLocking | .marking | .returned _ | .panicked =>
    s.lock ≠ some i
  | .checking host expected | .bootstrapping host expected =>
    s.lock ≠ some i ∧ .attaching i host expected ∈ s.log
  | .locking host expected bootstrap => s.lock ≠ some i ∧ Expected f i s host expected bootstrap
  | .rechecking host expected bootstrap => s.lock = some i ∧ Expected f i s host expected bootstrap
  | .publishing host expected bootstrap =>
    s.lock = some i ∧ s.cancelled = false ∧ Expected f i s host expected bootstrap
  | .unlocking _ | .bindChecking _ | .leaving _ | .unwinding | .detaching | .cancelling =>
    s.lock = some i
  | .examining _ | .reporting _ => s.lock = some i ∧ s.cancelled = false
  | .validating signer bootstrap =>
    s.lock = some i ∧ s.cancelled = false ∧ .reported signer bootstrap ∈ s.log
  | .binding signer => s.lock = some i ∧ s.cancelled = false ∧
      ∀ attachment, s.attached = some attachment → Reported f s.log signer attachment

/-- Callers of which nothing is known but that they do not hold the lock. -/
def Outside : Control S H U K B → Prop
  | .idle | .learning _ | .relocking _ | .detachLocking | .marking | .returned _ | .panicked => True
  | _ => False

/-- Callers of which nothing is known but that they hold the lock. -/
def Inside : Control S H U K B → Prop
  | .unlocking _ | .bindChecking _ | .leaving _ | .unwinding | .detaching | .cancelling => True
  | _ => False

theorem Outside.known (h : c.Outside) : c.Known f i s ↔ s.lock ≠ some i := by
  cases c <;> first | exact Iff.rfl | exact h.elim

theorem Inside.known (h : c.Inside) : c.Known f i s ↔ s.lock = some i := by
  cases c <;> first | exact Iff.rfl | exact h.elim

end Control

/-- The steps of one caller. -/
inductive Advance (f : Bootstraps U K B I) (i : ℕ) (s : AppState S H U K B) :
    Control S H U K B → AppState S H U K B → Control S H U K B → Prop where
  | stop {c c' : Control S H U K B} (free : c.Known f i s → s.lock ≠ some i)
      (after : c'.Outside) : Advance f i s c s c'
  | attach {host expected} : Advance f i s .idle
      (s.record (.attaching i host expected)) (.checking host expected)
  | learn {signer bootstrap} : Advance f i s (.learning signer)
      ((s.record (.reported signer bootstrap)).record
        (.attaching i (.native signer) (f.keySourceFromUniffiBootstrap bootstrap)))
      (.checking (.native signer) (f.keySourceFromUniffiBootstrap bootstrap))
  | check {host expected} : Advance f i s (.checking host expected) s (.bootstrapping host expected)
  | answer {host expected bootstrap}
      (valid : f.keySourceIdentity expected = f.bootstrapIdentity bootstrap) :
      Advance f i s (.bootstrapping host expected) s (.locking host expected bootstrap)
  | lock {host expected bootstrap} (free : s.lock = none) :
      Advance f i s (.locking host expected bootstrap) { s with lock := some i }
        (.rechecking host expected bootstrap)
  | enter {c c' : Control S H U K B} (free : s.lock = none) (after : c'.Inside) :
      Advance f i s c { s with lock := some i } c'
  | recheck {host expected bootstrap} (running : s.cancelled = false) :
      Advance f i s (.rechecking host expected bootstrap) s (.publishing host expected bootstrap)
  | refuse {c c' : Control S H U K B} (held : c.Known f i s → s.lock = some i) (after : c'.Inside) :
      Advance f i s c s c'
  | publish {host expected bootstrap} : Advance f i s (.publishing host expected bootstrap)
      ({ s with attached := some ⟨bootstrap, host, none⟩ }.record
        (.published i ⟨bootstrap, host, none⟩ expected)) (.unlocking host)
  | unlock {c c' : Control S H U K B} (held : c.Known f i s → s.lock = some i)
    (after : c'.Outside) :
      Advance f i s c { s with lock := none } c'
  | bindCheck {signer} (running : s.cancelled = false) :
      Advance f i s (.bindChecking signer) s (.examining signer)
  | examine {signer} : Advance f i s (.examining signer) s (.reporting signer)
  | report {signer bootstrap} : Advance f i s (.reporting signer)
      (s.record (.reported signer bootstrap)) (.validating signer bootstrap)
  | validate {signer bootstrap attachment} (attached : s.attached = some attachment)
      (valid : f.keySourceIdentity (f.keySourceFromUniffiBootstrap bootstrap) =
        f.bootstrapIdentity attachment.bootstrap) :
      Advance f i s (.validating signer bootstrap) s (.binding signer)
  | bind {signer attachment} (attached : s.attached = some attachment) :
      Advance f i s (.binding signer)
        ({ s with attached := some { attachment with messageSigner := some signer } }.record
          (.bound i signer)) (.leaving (.ok ()))
  | detach : Advance f i s .detaching ({ s with attached := none }.record (.detached i))
      (.leaving (.ok ()))
  | cancel : Advance f i s .cancelling ({ s with cancelled := true }.record (.cancelled i))
      (.leaving (.ok ()))

section Steps

variable [DecidableEq I] {action : Action S H U K B} {answer : Answer U B}

theorem acquire_spec {c : Control S H U K B}
    (h : (s.acquire i).map (fun s => (s, c)) = some (s', c')) :
    s.lock = none ∧ s' = { s with lock := some i } ∧ c' = c := by
  obtain ⟨u, hacquire, heq⟩ := Option.map_eq_some_iff.mp h
  unfold AppState.acquire at hacquire
  split at hacquire
  next hfree =>
    cases hacquire
    cases heq
    exact ⟨hfree, rfl, rfl⟩
  next => cases hacquire

theorem attachHost_advance (h : c.attachHost f i s answer = some (s', c')) :
    Advance f i s c s' c' := by
  unfold Control.attachHost at h
  split at h
  · split at h <;> cases h
    · exact .stop And.left trivial
    · exact .check
  · split at h
    next hvalid =>
      cases h
      exact .answer (of_decide_eq_true hvalid)
    next =>
      cases h
      exact .stop And.left trivial
  · cases h
    exact .stop And.left trivial
  · cases h
    exact .stop And.left trivial
  · obtain ⟨hfree, rfl, rfl⟩ := acquire_spec h
    exact .lock hfree
  · split at h
    next =>
      cases h
      exact .refuse And.left trivial
    next hrunning =>
      cases h
      exact .recheck (eq_false_of_ne_true hrunning)
  · cases h
    exact .publish
  · cases h
    exact .unlock id trivial
  · cases h
    exact .unlock id trivial
  · cases h

theorem attachNative_advance (h : c.attachNative f i s answer = some (s', c')) :
    Advance f i s c s' c' := by
  unfold Control.attachNative at h
  split at h
  · cases h
    exact .learn
  · cases h
    exact .stop id trivial
  · cases h
    exact .stop id trivial
  · obtain ⟨hfree, rfl, rfl⟩ := acquire_spec h
    exact .enter hfree trivial
  · split at h
    next =>
      cases h
      exact .refuse id trivial
    next hrunning =>
      cases h
      exact .bindCheck (eq_false_of_ne_true hrunning)
  · split at h <;> cases h
    · exact .refuse And.left trivial
    · exact .examine
  · cases h
    exact .report
  · cases h
    exact .refuse And.left trivial
  · cases h
    exact .refuse And.left trivial
  · obtain ⟨attachment, hattached, h⟩ := Option.map_eq_some_iff.mp h
    split at h
    next hvalid =>
      cases h
      exact .validate hattached (of_decide_eq_true hvalid)
    next =>
      cases h
      exact .refuse And.left trivial
  · obtain ⟨attachment, hattached, h⟩ := Option.map_eq_some_iff.mp h
    cases h
    exact .bind hattached
  · cases h
    exact .unlock id trivial
  · cases h

omit [DecidableEq I] in
theorem takeAway_advance (h : c.takeAway i s answer = some (s', c')) : Advance f i s c s' c' := by
  unfold Control.takeAway at h
  split at h
  · obtain ⟨hfree, rfl, rfl⟩ := acquire_spec h
    exact .enter hfree trivial
  · cases h
    exact .detach
  · obtain ⟨hfree, rfl, rfl⟩ := acquire_spec h
    exact .enter hfree trivial
  · cases h
    exact .cancel
  · cases h
    exact .unlock id trivial
  · cases h

theorem next_advance (h : c.next f i action s = some (s', c')) : Advance f i s c s' c' := by
  unfold Control.next at h
  split at h
  · cases h
    exact .attach
  · cases h
    exact .stop id trivial
  · cases h
    exact .stop id trivial
  · cases h
    exact .stop id trivial
  · rename_i answer
    cases hhost : c.attachHost f i s answer with
    | some r =>
      rw [hhost] at h
      cases h
      exact attachHost_advance hhost
    | none =>
      cases hnative : c.attachNative f i s answer with
      | some r =>
        rw [hhost, hnative] at h
        cases h
        exact attachNative_advance hnative
      | none =>
        rw [hhost, hnative] at h
        exact takeAway_advance h
  · cases h

end Steps

/-! ### Steps of the same and of other callers -/

/-- What a caller relies on while another caller takes a step. -/
structure Undisturbed (i : ℕ) (s s' : AppState S H U K B) : Prop where
  holder : s'.lock = some i ↔ s.lock = some i
  kept : s.lock = some i → s'.cancelled = s.cancelled ∧ s'.attached = s.attached
  log : s.log <:+ s'.log

theorem Reported.mono {log log' : List (Event S H U K B)} {signer : S}
    {attachment : ExternalSignerAttachment S H B} (h : Reported f log signer attachment)
    (hlog : log <:+ log') : Reported f log' signer attachment := by
  obtain ⟨bootstrap, hmem, hvalid⟩ := h
  exact ⟨bootstrap, hlog.subset hmem, hvalid⟩

theorem Control.Known.undisturbed (h : c.Known f i s) (hs : Undisturbed i s s') :
    c.Known f i s' := by
  have hfree : s.lock ≠ some i → s'.lock ≠ some i := hs.holder.not.mpr
  have hheld : s.lock = some i → s'.lock = some i := hs.holder.mpr
  have hmem {e : Event S H U K B} (he : e ∈ s.log) : e ∈ s'.log := hs.log.subset he
  have hrunning (hl : s.lock = some i) (hc : s.cancelled = false) : s'.cancelled = false :=
    (hs.kept hl).1.trans hc
  cases c with
  | checking host expected => exact ⟨hfree h.1, hmem h.2⟩
  | bootstrapping host expected => exact ⟨hfree h.1, hmem h.2⟩
  | locking host expected bootstrap => exact ⟨hfree h.1, hmem h.2.1, h.2.2⟩
  | rechecking host expected bootstrap => exact ⟨hheld h.1, hmem h.2.1, h.2.2⟩
  | publishing host expected bootstrap =>
    exact ⟨hheld h.1, hrunning h.1 h.2.1, hmem h.2.2.1, h.2.2.2⟩
  | unlocking host => exact hheld h
  | bindChecking signer => exact hheld h
  | leaving result => exact hheld h
  | unwinding => exact hheld h
  | detaching => exact hheld h
  | cancelling => exact hheld h
  | examining signer => exact ⟨hheld h.1, hrunning h.1 h.2⟩
  | reporting signer => exact ⟨hheld h.1, hrunning h.1 h.2⟩
  | validating signer bootstrap => exact ⟨hheld h.1, hrunning h.1 h.2.1, hmem h.2.2⟩
  | binding signer =>
    refine ⟨hheld h.1, hrunning h.1 h.2.1, fun attachment hattached => ?_⟩
    rw [(hs.kept h.1).2] at hattached
    exact (h.2.2 attachment hattached).mono hs.log
  | _ => exact hfree h

/-- An event that attaches nothing and does not cancel. -/
theorem AppState.Sound.record (h : s.Sound f) (e : Event S H U K B)
    (hcancelled : ∀ i, e ≠ .cancelled i) (hattaches : ¬e.Attaches) : (s.record e).Sound f where
  running hrunning i hmem := by
    rcases List.mem_cons.mp hmem with heq | hmem
    · exact hcancelled i heq.symm
    · exact h.running hrunning i hmem
  terminal later i earlier hlog e' he' := by
    rcases List.cons_eq_append_iff.mp hlog with ⟨rfl, _⟩ | ⟨later', rfl, hlog'⟩
    · cases he'
    · rcases List.mem_cons.mp he' with rfl | he'
      · exact hattaches
      · exact h.terminal later' i earlier hlog' e' he'
  expected i attachment expected hmem := by
    rcases List.mem_cons.mp hmem with rfl | hmem
    · exact absurd trivial hattaches
    · obtain ⟨hasked, hvalid⟩ := h.expected i attachment expected hmem
      exact ⟨List.mem_cons_of_mem _ hasked, hvalid⟩
  bound attachment signer hattached hsigner :=
    (h.bound attachment signer hattached hsigner).mono (List.suffix_cons _ _)

/-- Attaching, which only a node that runs does. -/
theorem AppState.Sound.attach {attachment : ExternalSignerAttachment S H B} {e : Event S H U K B}
    (h : s.Sound f) (hrunning : s.cancelled = false) (hcancelled : ∀ i, e ≠ .cancelled i)
    (hexpected : ∀ i attachment expected, e = .published i attachment expected →
      .attaching i attachment.transport expected ∈ s.log ∧
        f.keySourceIdentity expected = f.bootstrapIdentity attachment.bootstrap)
    (hbound : ∀ signer, attachment.messageSigner = some signer →
      Reported f s.log signer attachment) :
    ({ s with attached := some attachment }.record e).Sound f := by
  have hnone (i : ℕ) : .cancelled i ∉ e :: s.log := by
    intro hmem
    rcases List.mem_cons.mp hmem with heq | hmem
    · exact hcancelled i heq.symm
    · exact h.running hrunning i hmem
  refine ⟨fun _ => hnone, fun later i earlier hlog => ?_, fun i attachment' expected hmem => ?_, ?_⟩
  · have hmem : .cancelled i ∈ e :: s.log := by
      rw [show e :: s.log = _ from hlog]
      simp
    exact absurd hmem (hnone i)
  · rcases List.mem_cons.mp hmem with heq | hmem
    · obtain ⟨hasked, hvalid⟩ := hexpected i attachment' expected heq.symm
      exact ⟨List.mem_cons_of_mem _ hasked, hvalid⟩
    · obtain ⟨hasked, hvalid⟩ := h.expected i attachment' expected hmem
      exact ⟨List.mem_cons_of_mem _ hasked, hvalid⟩
  · rintro _ signer ⟨⟩ hsigner
    exact (hbound signer hsigner).mono (List.suffix_cons _ _)

theorem AppState.Sound.cancel (h : s.Sound f) :
    ({ s with cancelled := true }.record (.cancelled i)).Sound f where
  running hrunning := by cases hrunning
  terminal later i' earlier hlog e' he' := by
    rcases List.cons_eq_append_iff.mp hlog with ⟨rfl, _⟩ | ⟨later', rfl, hlog'⟩
    · cases he'
    · rcases List.mem_cons.mp he' with rfl | he'
      · exact id
      · exact h.terminal later' i' earlier hlog' e' he'
  expected i' attachment expected hmem := by
    rcases List.mem_cons.mp hmem with heq | hmem
    · cases heq
    · obtain ⟨hasked, hvalid⟩ := h.expected i' attachment expected hmem
      exact ⟨List.mem_cons_of_mem _ hasked, hvalid⟩
  bound attachment signer hattached hsigner :=
    (h.bound attachment signer hattached hsigner).mono (List.suffix_cons _ _)

namespace Advance

theorem shared (h : Advance f i s c s' c') (hs : s.Sound f) (hc : c.Known f i s) : s'.Sound f := by
  cases h with
  | attach => exact hs.record _ nofun id
  | @learn signer bootstrap =>
    have hreported := hs.record (.reported signer bootstrap) nofun id
    exact hreported.record _ nofun id
  | lock free => exact ⟨hs.running, hs.terminal, hs.expected, hs.bound⟩
  | enter free after => exact ⟨hs.running, hs.terminal, hs.expected, hs.bound⟩
  | unlock held after => exact ⟨hs.running, hs.terminal, hs.expected, hs.bound⟩
  | publish =>
    refine hs.attach hc.2.1 nofun (fun i' attachment expected heq => ?_) nofun
    cases heq
    exact hc.2.2
  | report => exact hs.record _ nofun id
  | @bind signer attachment attached =>
    refine hs.attach hc.2.1 nofun nofun fun signer' heq => ?_
    cases heq
    exact hc.2.2 attachment attached
  | detach =>
    have hnone : AppState.Sound f { s with attached := none } :=
      ⟨hs.running, hs.terminal, hs.expected, nofun⟩
    exact hnone.record _ nofun id
  | cancel => exact hs.cancel
  | _ => exact hs

theorem own (h : Advance f i s c s' c') (hc : c.Known f i s) : c'.Known f i s' := by
  cases h with
  | stop free after => exact after.known.mpr (free hc)
  | attach => exact ⟨hc, List.mem_cons_self⟩
  | learn => exact ⟨hc, List.mem_cons_self⟩
  | check => exact hc
  | answer valid => exact ⟨hc.1, hc.2, valid⟩
  | lock free => exact ⟨rfl, hc.2⟩
  | enter free after => exact after.known.mpr rfl
  | recheck running => exact ⟨hc.1, running, hc.2⟩
  | refuse held after => exact after.known.mpr (held hc)
  | publish => exact hc.1
  | unlock held after => exact after.known.mpr nofun
  | bindCheck running => exact ⟨hc, running⟩
  | examine => exact hc
  | report => exact ⟨hc.1, hc.2, List.mem_cons_self⟩
  | validate attached valid =>
    refine ⟨hc.1, hc.2.1, fun attachment' hattached => ?_⟩
    obtain rfl := Option.some.inj (attached.symm.trans hattached)
    exact ⟨_, hc.2.2, valid⟩
  | bind attached => exact hc.1
  | detach => exact hc
  | cancel => exact hc

/-- The attachment and the token change only under the lock. -/
theorem undisturbed (h : Advance f i s c s' c') (hc : c.Known f i s) (hj : j ≠ i) :
    Undisturbed j s s' := by
  have hother : s.lock = some i → s.lock ≠ some j := by
    intro hi hj'
    exact hj (Option.some.inj (hj'.symm.trans hi))
  have hquiet : Undisturbed j s s := ⟨Iff.rfl, fun _ => ⟨rfl, rfl⟩, List.suffix_rfl⟩
  cases h with
  | attach => exact ⟨Iff.rfl, fun _ => ⟨rfl, rfl⟩, List.suffix_cons _ _⟩
  | learn => exact ⟨Iff.rfl, fun _ => ⟨rfl, rfl⟩, List.suffix_append [_, _] _⟩
  | lock free =>
    refine ⟨iff_of_false ?_ ?_, fun _ => ⟨rfl, rfl⟩, List.suffix_rfl⟩
    · exact fun hi => hj (Option.some.inj hi).symm
    · simp [free]
  | enter free after =>
    refine ⟨iff_of_false ?_ ?_, fun _ => ⟨rfl, rfl⟩, List.suffix_rfl⟩
    · exact fun hi => hj (Option.some.inj hi).symm
    · simp [free]
  | publish => exact ⟨Iff.rfl, fun h => absurd h (hother hc.1), List.suffix_cons _ _⟩
  | unlock held after =>
    exact ⟨iff_of_false nofun (hother (held hc)), fun _ => ⟨rfl, rfl⟩, List.suffix_rfl⟩
  | report => exact ⟨Iff.rfl, fun _ => ⟨rfl, rfl⟩, List.suffix_cons _ _⟩
  | bind attached => exact ⟨Iff.rfl, fun h => absurd h (hother hc.1), List.suffix_cons _ _⟩
  | detach => exact ⟨Iff.rfl, fun h => absurd h (hother hc), List.suffix_cons _ _⟩
  | cancel => exact ⟨Iff.rfl, fun h => absurd h (hother hc), List.suffix_cons _ _⟩
  | _ => exact hquiet

end Advance

/-! ### Runs -/

section Runs

variable [DecidableEq I]

theorem program_preserves : (program S H f).Preserves Program.Unrestricted (AppState.Sound f)
    (Control.Known f) where
  shared _ hs hnext := (next_advance hnext).shared hs.shared (hs.control _)
  own _ hs hnext := (next_advance hnext).own (hs.control _)
  other _ hs hj hnext := (hs.control _).undisturbed
    ((next_advance hnext).undisturbed (hs.control _) hj)
  environment {_ event} := event.elim

omit [DecidableEq I] in
theorem holds_init :
    Program.Holds (AppState.Sound f) (Control.Known f) (init : System S H U K B) where
  shared := by
    refine ⟨fun _ => nofun, fun later i earlier hlog => ?_, nofun, nofun⟩
    have hlength := congrArg List.length hlog
    simp [init] at hlength
  control i := nofun

/-- Over every interleaving of attachments, detachments and shutdowns: nothing is published or bound
after the token was cancelled; what is published has the identity its caller expected; and a bound
signer has reported the identity of the attachment it is bound to, which is its only identity when
it always reports the same. -/
theorem attachment_protocol {labels : List (Label S H U K B)} {t : System S H U K B}
    (hrun : Trace ((program S H f).Step Program.Unrestricted) init labels t) :
    (∀ later i earlier, t.shared.log = later ++ .cancelled i :: earlier →
      ∀ e ∈ later, ¬e.Attaches) ∧
    (∀ i attachment expected, .published i attachment expected ∈ t.shared.log →
      .attaching i attachment.transport expected ∈ t.shared.log ∧
        f.keySourceIdentity expected = f.bootstrapIdentity attachment.bootstrap) ∧
    ∀ attachment signer, t.shared.attached = some attachment →
      attachment.messageSigner = some signer → Reported f t.shared.log signer attachment ∧
        ∀ identity, (∀ bootstrap, .reported signer bootstrap ∈ t.shared.log →
            f.keySourceIdentity (f.keySourceFromUniffiBootstrap bootstrap) = identity) →
          f.bootstrapIdentity attachment.bootstrap = identity := by
  have hsound := (program_preserves.trace hrun holds_init).shared
  refine ⟨hsound.terminal, hsound.expected, fun attachment signer hattached hsigner => ?_⟩
  obtain ⟨bootstrap, hmem, hvalid⟩ := hsound.bound attachment signer hattached hsigner
  refine ⟨⟨bootstrap, hmem, hvalid⟩, fun identity hidentity => ?_⟩
  exact hvalid.symm.trans (hidentity bootstrap hmem)

end Runs

/-! A native signer is attached; before it is bound another host with the same identity replaces the
attachment, and a third attachment is still waiting for its bootstrap when the node is shut down. -/

def sampleBootstraps : Bootstraps ℕ ℕ ℕ ℕ := ⟨id, id, id, fun _ => shutDown⟩

def sampleReply (i : ℕ) (answer : Answer ℕ ℕ) : Label String Unit ℕ ℕ ℕ :=
  .thread i (.resume answer)

def sampleAttach (i identity : ℕ) : List (Label String Unit ℕ ℕ ℕ) :=
  [sampleReply i .ready, sampleReply i (.transport (.ok identity)), sampleReply i .ready,
    sampleReply i .ready, sampleReply i .ready, sampleReply i .ready]

def sampleLabels : List (Label String Unit ℕ ℕ ℕ) :=
  [.thread 0 (.attachNative "signer"), sampleReply 0 (.bootstrap (.ok 7))] ++ sampleAttach 0 7 ++
  [.thread 1 (.attachHost () 7)] ++ sampleAttach 1 7 ++
  [.thread 2 (.attachHost () 8), sampleReply 2 .ready] ++
  [sampleReply 0 .ready, sampleReply 0 .ready, sampleReply 0 .ready,
    sampleReply 0 (.bootstrap (.ok 7)), sampleReply 0 .ready, sampleReply 0 .ready,
    sampleReply 0 .ready] ++
  [.thread 3 .shutdown, sampleReply 3 .ready, sampleReply 3 .ready, sampleReply 3 .ready] ++
  [sampleReply 2 (.transport (.ok 8)), sampleReply 2 .ready, sampleReply 2 .ready,
    sampleReply 2 .ready]

theorem attachment_protocol_sample : ∃ t : System String Unit ℕ ℕ ℕ,
    t.control 2 = .returned (.error shutDown) ∧
    t.shared.attached = some ⟨7, .generic (), some "signer"⟩ ∧
    Reported sampleBootstraps t.shared.log "signer" ⟨7, .generic (), some "signer"⟩ := by
  obtain ⟨t, hrun, hreturned, hattached⟩ : ∃ t : System String Unit ℕ ℕ ℕ,
      (program String Unit sampleBootstraps).run init sampleLabels = some t ∧
      t.control 2 = .returned (.error shutDown) ∧
      t.shared.attached = some ⟨7, .generic (), some "signer"⟩ := ⟨_, rfl, rfl, rfl⟩
  have hprotocol := attachment_protocol (Program.trace_of_run hrun)
  exact ⟨t, hreturned, hattached, (hprotocol.2.2 _ "signer" hattached rfl).1⟩

end RgbLightningNode.Signer.Attachment
