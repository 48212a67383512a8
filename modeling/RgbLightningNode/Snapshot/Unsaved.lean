import RgbLightningNode.Snapshot.History

/-!
# No unsaved wallet state is reported as saved

The in-memory flag and the durable marker together cover every admitted change that no stored
receipt accounts for. The marker alone covers it across a crash, unless its write was refused.
-/

namespace RgbLightningNode.Snapshot
open Faulty FileSystem Transition

variable {W V : Type}

/-! ### What the log says about the wallet -/

def lastUpload : List (Event W) → Option W
  | [] => none
  | .uploadAcknowledged _ _ contents :: _ => some contents
  | _ :: rest => lastUpload rest

/-- The contents carried by the last upload whose receipt was stored. -/
def lastReceipted : List (Event W) → Option W
  | [] => none
  | .receiptStored :: rest => lastUpload rest
  | _ :: rest => lastReceipted rest

def changeAdmitted : List (Event W) → Bool
  | [] => false
  | .changeAdmitted :: _ => true
  | _ :: rest => changeAdmitted rest

/-- The last attempt to write a marker was refused, and nothing was saved since. -/
def markerLost : List (Event W) → Bool
  | [] => false
  | .markerRefused :: _ => true
  | .markerWritten :: _ | .intentCleared :: _ => false
  | _ :: rest => markerLost rest

/-- The archive accounts for the wallet, or there is nothing to account for. -/
def Saved (w : World W) : Prop :=
  lastReceipted w.log = some w.wallet ∨ changeAdmitted w.log = false

def Event.keepsSaved : Event W → Bool
  | .receiptStored | .changeAdmitted => false
  | _ => true

theorem Event.keepsSaved_of_ofUpload {e : Event W} (h : e.ofUpload = true) :
    e.keepsSaved = true := by
  cases e <;> simp_all [Event.ofUpload, Event.keepsSaved]

theorem Event.keepsSaved_of_ofPreference {e : Event W} (h : e.ofPreference = true) :
    e.keepsSaved = true := by
  cases e <;> simp_all [Event.ofPreference, Event.keepsSaved]

theorem markerLost_append {new log : List (Event W)}
    (hnew : ∀ e ∈ new, Event.ofPreference e = true) :
    markerLost (new ++ log) = markerLost log := by
  induction new with
  | nil => rfl
  | cons e new ih =>
    have hrest := ih fun e he => hnew e (by simp [he])
    have he : e.ofPreference = true := hnew e (by simp)
    cases e <;> simp_all [Event.ofPreference, markerLost]

theorem Saved.congr {w w' : World W} (new : List (Event W)) (hsaved : Saved w)
    (hwallet : w'.wallet = w.wallet) (hlog : w'.log = new ++ w.log)
    (hnew : ∀ e ∈ new, Event.keepsSaved e = true) : Saved w' := by
  have hsame : ∀ new : List (Event W), (∀ e ∈ new, Event.keepsSaved e = true) →
      lastReceipted (new ++ w.log) = lastReceipted w.log ∧
        changeAdmitted (new ++ w.log) = changeAdmitted w.log := by
    intro new
    induction new with
    | nil => exact fun _ => ⟨rfl, rfl⟩
    | cons e new ih =>
      intro h
      have hrest := ih fun e he => h e (by simp [he])
      have he : e.keepsSaved = true := h e (by simp)
      cases e <;> simp_all [Event.keepsSaved, lastReceipted, changeAdmitted]
  unfold Saved
  rw [hlog, hwallet, (hsame new hnew).1, (hsame new hnew).2]
  exact hsaved

/-! ### The invariant -/

namespace SnapshotPolicy

variable {p : SnapshotPolicy} {serde : Serde} {w w' w₁ : World W}

def Marked (p : SnapshotPolicy) (w : World W) : Prop := w.tree.node p.pendingPath ≠ none

/-- What holds between two calls of one process. -/
structure Sound (p : SnapshotPolicy) (w : World W) : Prop where
  pending : Saved w ∨ p.IsPending w
  recoverable : Saved w ∨ p.Marked w ∨ markerLost w.log = true

theorem marked_of_look (h : w.tree.look p.pendingPath = .file marker) : p.Marked w := by
  obtain ⟨attr, hnode⟩ := Tree.look_eq_file.mp h
  simp [Marked, hnode]

theorem Marked.congr (h : p.Marked w)
    (hlook : w'.tree.look p.pendingPath = w.tree.look p.pendingPath) : p.Marked w' := by
  intro hnone
  exact h (Tree.look_eq_absent.mp (hlook.symm.trans (Tree.look_eq_absent.mpr hnone)))

theorem Stored.saved (h : p.Stored serde w w') (hwallet : w'.wallet = w.wallet) : Saved w' := by
  obtain ⟨_, r, _, hlog⟩ := h
  refine Or.inl ?_
  rw [hlog, hwallet]
  simp [lastReceipted, lastUpload, confirmation]

/-- A backup attempt keeps what was saved and what was marked. -/
theorem BackupEnd.sound (h : p.BackupEnd serde w w') (hs : p.Sound w) : p.Sound w' := by
  obtain ⟨hattempted, hunstored | hstored⟩ := h
  · obtain ⟨hunsaved, hpending, ⟨new, hlog, hnew⟩, _⟩ := hunstored
    have hsaved : Saved w → Saved w' := fun h =>
      h.congr new hattempted.wallet hlog fun e he => Event.keepsSaved_of_ofUpload (hnew e he)
    rcases hpending with hmarker | ⟨hlook, hsame⟩
    · have hmarked := marked_of_look hmarker
      exact ⟨Or.inr (Or.inr hmarked), Or.inr (Or.inl hmarked)⟩
    · have hkeep : p.Marked w → p.Marked w' := fun h => h.congr hlook
      refine ⟨hs.pending.imp hsaved (Or.imp (hunsaved ▸ ·) hkeep), ?_⟩
      rw [hsame]
      exact hs.recoverable.imp hsaved (Or.imp hkeep id)
  · have hsaved := hstored.saved hattempted.wallet
    exact ⟨Or.inl hsaved, Or.inl hsaved⟩

theorem PreferenceOnly.saved (h : p.PreferenceOnly w w') (hs : Saved w) : Saved w' := by
  obtain ⟨_, hwallet, _, new, hlog, hnew⟩ := h
  exact hs.congr new hwallet hlog fun e he => Event.keepsSaved_of_ofPreference (hnew e he)

theorem PreferenceOnly.marked (h : p.PreferenceOnly w w') (hm : p.Marked w) : p.Marked w' :=
  hm.congr (h.tree.look p.pending_notMem.1)

theorem PreferenceOnly.markerLost (h : p.PreferenceOnly w w') :
    markerLost w'.log = Snapshot.markerLost w.log := by
  obtain ⟨_, _, _, new, hlog, hnew⟩ := h
  rw [hlog, markerLost_append hnew]

/-- A commit touches neither the marker nor the account of what was saved. -/
theorem Committed.sound {enabled : Bool} {o : Outcome APIError Unit}
    (h : p.Committed serde enabled w o w') (hs : p.Sound w) : p.Sound w' := by
  obtain ⟨honly, hunsaved⟩ := h.preferenceOnly
  refine ⟨hs.pending.imp honly.saved (Or.imp (hunsaved ▸ ·) honly.marked), ?_⟩
  rw [honly.markerLost]
  exact hs.recoverable.imp honly.saved (Or.imp honly.marked id)

/-- What holds while a guard is held and until it is dropped. -/
structure Announced (p : SnapshotPolicy) (w : World W) : Prop where
  unsaved : w.flags.unsaved = true
  recoverable : Saved w ∨ p.Marked w ∨ Snapshot.markerLost w.log = true

theorem Announced.sound (h : p.Announced w) : p.Sound w :=
  ⟨Or.inr (Or.inl h.unsaved), h.recoverable⟩

theorem Armed.recoverable (h : p.Armed w w') : p.Marked w' ∨ Snapshot.markerLost w'.log = true := by
  obtain ⟨t, _, ⟨hlook, rfl⟩ | ⟨_, rfl⟩⟩ := h
  · exact Or.inl (marked_of_look hlook)
  · exact Or.inr rfl

theorem HalfArmed.sound (h : p.HalfArmed w w') (hs : p.Sound w) : p.Sound w' := by
  obtain ⟨t, _, hlook, rfl⟩ := h
  refine ⟨Or.inr (Or.inl rfl), ?_⟩
  have hkeep : p.Marked w →
      p.Marked { w with tree := t, flags := { w.flags with unsaved := true } } := by
    intro h
    rcases hlook with hsame | hmarker
    · exact h.congr hsame
    · exact marked_of_look hmarker
  exact hs.recoverable.imp id (Or.imp hkeep id)

variable [DecidableEq V] {view : W → V} {guard : RgbWalletGuard V}

/-- A guard whose body changed the wallet can only be dropped with its change announced; one that
takes its intent back has found the wallet saved. -/
theorem sound_of_ended {body : Outcome APIError Unit} (h : Ended serde view p guard body w₁ w')
    (hs : p.Announced w₁) (hunchanged : ∀ panicking, body ≠ .died →
      guard.Unchanged view panicking w₁ → Saved w₁) : p.Sound w' := by
  rcases h with ⟨_, rfl⟩ | ⟨hbody, panicking, o, _, ⟨hunch, rfl⟩ | ⟨w₂, hw₂, hend⟩⟩
  · exact hs.sound
  · have hsaved : Saved (cleared p w₁) :=
      (hunchanged _ hbody hunch).congr [.intentCleared] rfl rfl (by simp [Event.keepsSaved])
    exact ⟨Or.inl hsaved, Or.inl hsaved⟩
  · have hsound : p.Sound w₂ := by
      rcases hw₂ with rfl | ⟨hunch, rfl⟩
      · exact hs.sound
      · have hsaved : Saved (unmarked p w₁) := hunchanged _ hbody hunch
        exact ⟨Or.inl hsaved, Or.inl hsaved⟩
    rcases hend with rfl | ⟨_, _, _, _, hbackup⟩
    · exact hsound
    · exact hbackup.sound hsound

theorem Armed.unsaved (h : p.Armed w w') : w'.flags.unsaved = true := by
  obtain ⟨t, _, ⟨_, rfl⟩ | ⟨_, rfl⟩⟩ := h <;> rfl

theorem Armed.saved (h : p.Armed w w') (hs : Saved w) : Saved w' := by
  obtain ⟨t, _, ⟨_, rfl⟩ | ⟨_, rfl⟩⟩ := h
  · exact hs.congr [.markerWritten] rfl rfl (by simp [Event.keepsSaved])
  · exact hs.congr [.markerRefused] rfl rfl (by simp [Event.keepsSaved])

theorem Armed.changed (h : p.Armed w w₁) (found : W) :
    p.Announced { w₁ with wallet := found, log := .changeAdmitted :: w₁.log } :=
  ⟨h.unsaved, Or.inr h.recoverable⟩

theorem mutated_sound (h : Mutated serde view p w w') (hs : p.Sound w) : p.Sound w' := by
  rcases h with hhalf | ⟨w₁, found, body, harmed, hend⟩
  · exact hhalf.sound hs
  · refine sound_of_ended hend (harmed.changed found) fun panicking _ hunch => ?_
    obtain ⟨_, hnone⟩ := hunch
    simp at hnone

/-- A sync whose compared views tell every change of the wallet apart. -/
theorem synced_sound {contents : W} (h : Synced serde view p contents w w') (hs : p.Sound w)
    (hfaithful : view contents = view w.wallet → contents = w.wallet) : p.Sound w' := by
  rcases h with rfl | hhalf | ⟨w₁, w₂, before, pending, body, harmed, hpending, hbefore, hw₂, hend⟩
  · exact hs
  · exact hhalf.sound hs
  have hclear : pending = false → Saved w := fun h => hs.pending.resolve_right (hpending h)
  rcases hw₂ with ⟨_, rfl⟩ | ⟨hdiffer, found, hfound, rfl⟩
  · refine sound_of_ended hend ⟨harmed.unsaved, Or.inr harmed.recoverable⟩ fun _ _ hunch => ?_
    obtain ⟨_, hguard⟩ := hunch
    obtain ⟨_, rfl⟩ : before = some (view w₂.wallet) ∧ pending = false := by simpa using hguard
    exact harmed.saved (hclear rfl)
  · refine sound_of_ended hend (harmed.changed found) fun _ hbody hunch => ?_
    obtain ⟨_, hguard⟩ := hunch
    obtain ⟨hviews, _⟩ : before = some (view found) ∧ pending = false := by simpa using hguard
    obtain rfl := hfound hbody
    exact absurd (hfaithful (hbefore _ hviews)) hdiffer

theorem toggled_sound {enabled : Bool} {o : Outcome APIError Unit}
    (h : Toggled serde p enabled w o w') (hs : p.Sound w) : p.Sound w' := by
  rcases h with ⟨_, _, _, hbackup⟩ | ⟨w₁, hcommit, ⟨_, rfl⟩ | ⟨_, _, _, hbacked⟩⟩
  · exact hbackup.sound hs
  · exact hcommit.sound hs
  · exact hcommit.sound (hbacked.backupEnd.sound hs)

/-- A load starts from what the files tell. -/
theorem load_sound {initial : Bool} {o : Outcome APIError Unit}
    (h : p.Loaded serde initial w o w') (hs : Saved w ∨ p.Marked w) :
    p.Sound w' ∧ (Saved w' ∨ p.Marked w') := by
  have hfiles : ∀ {v : World W}, (Saved v ∨ p.Marked v) → p.Sound v := fun h =>
    ⟨h.imp id Or.inr, h.imp id Or.inl⟩
  have hopened : ∀ enabled, Saved (opened w enabled) ∨ p.Marked (opened w enabled) := fun enabled =>
    hs.imp (fun h => h.congr [.loaded] rfl rfl (by simp [Event.keepsSaved])) id
  rcases h with ⟨rfl, _⟩ | ⟨enabled, _, ⟨rfl, _⟩ | hcommit⟩
  · exact ⟨hfiles hs, hs⟩
  · exact ⟨hfiles (hopened enabled), hopened enabled⟩
  · have honly := hcommit.preferenceOnly.1
    have hw' := (hopened enabled).imp honly.saved honly.marked
    exact ⟨hfiles hw', hw'⟩

/-- What holds of a scope whether or not a process has it open. -/
def Kept (p : SnapshotPolicy) (s : Host W) : Prop :=
  if s.live then p.Sound s.world else Saved s.world ∨ p.Marked s.world

variable [DecidableEq W]

/-- A history step under the two assumptions of the policy: the compared views tell every synced
change apart, and no process ends while the marker of its changes could not be written. -/
structure Admitted (serde : Serde) (view : W → V) (p : SnapshotPolicy) (s : Host W)
    (label : Label W) (t : Host W) : Prop where
  step : Step serde view p s label t
  faithful : ∀ contents answer, label = .call (.sync false contents) answer →
    view contents = view s.world.wallet → contents = s.world.wallet
  remembered : t.live = false → Snapshot.markerLost t.world.log = false

theorem call_sound (c : Call W) (hfaithful : ∀ contents, c = .sync false contents →
    view contents = view w.wallet → contents = w.wallet) (hs : p.Sound w) :
    Holds (c.run serde view p) w (fun _ w' => p.Sound w') := by
  cases c with
  | mutate contents => exact (mutate_spec contents).mono fun _ _ h => mutated_sound h hs
  | sync skipSync contents =>
    refine (sync_spec skipSync contents).mono ?_
    rintro o w' (⟨_, rfl⟩ | ⟨rfl, h⟩)
    · exact hs
    · exact synced_sound h hs (hfaithful contents rfl)
  | read => exact (readonly_spec (Or.inl rfl)).mono fun _ _ h => h ▸ hs
  | backup => exact backup_call_spec.mono fun _ _ h => h.sound hs
  | setEnabled enabled => exact (setEnabled_spec enabled).mono fun _ _ h => toggled_sound h hs
  | metadata => exact (readonly_spec (Or.inr (Or.inl rfl))).mono fun _ _ h => h ▸ hs
  | status => exact (readonly_spec (Or.inr (Or.inr rfl))).mono fun _ _ h => h ▸ hs
  | startup =>
    refine startup_spec.mono ?_
    rintro o w' (rfl | ⟨_, h⟩)
    · exact hs
    · exact h.sound hs

theorem Kept.step {s t : Host W} {label : Label W} (h : p.Kept s)
    (hstep : Admitted serde view p s label t) : p.Kept t := by
  obtain ⟨hstep, hfaithful, hremembered⟩ := hstep
  have hdead : ∀ {v : World W}, Snapshot.markerLost v.log = false → p.Sound v →
      Saved v ∨ p.Marked v := by
    intro v hlost hsound
    exact hsound.recoverable.imp id fun h => h.resolve_right (by simp [hlost])
  cases hstep with
  | @call w c ds =>
    have hs : p.Sound w := by simpa [Kept] using h
    have hsound := @call_sound W V p serde w _ view _ c (fun contents hc =>
      hfaithful contents _ (by rw [hc])) hs ds
    unfold Kept
    split
    · exact hsound
    · rename_i hlive
      exact hdead (hremembered (by simpa using hlive)) hsound
  | @load w initial ds =>
    have hs : Saved w ∨ p.Marked w := by simpa [Kept] using h
    have hloaded := load_sound (p.load_spec serde w initial ds) hs
    unfold Kept
    split
    · exact hloaded.1
    · exact hloaded.2
  | @stop w =>
    have hs : p.Sound w := by simpa [Kept] using h
    simpa [Kept] using hdead (hremembered rfl) hs

/-- However calls, failures, panics, process ends and loads follow each other, a scope that reports
nothing pending is saved: the wallet is what the last receipted upload carried, or no change was
ever admitted. -/
theorem pending_false_saved {s t : Host W} {labels : List (Label W)}
    (hfresh : s.live = false ∧ s.world.log = [])
    (hrun : Trace (Admitted serde view p) s labels t) (hlive : t.live = true) (ds : Schedule)
    (hpending : (p.pending t.world ds).1 = .ok false) :
    lastReceipted t.world.log = some t.world.wallet ∨ changeAdmitted t.world.log = false := by
  have hstart : p.Kept s := by
    simp [Kept, hfresh.1, Saved, hfresh.2, changeAdmitted]
  have hkept : p.Kept t := hrun.invariant (fun h hstep => h.step hstep) hstart
  have hsound : p.Sound t.world := by simpa [Kept, hlive] using hkept
  refine hsound.pending.resolve_right fun hunsaved => ?_
  have hspec := (p.pending_spec t.world ds).2
  rw [hpending] at hspec
  exact absurd (hspec hunsaved) (by simp)

theorem pending_false_saved_sample : sampleChanged.wallet = 7 ∧
    (lastReceipted sampleChanged.log = some sampleChanged.wallet ∨
      changeAdmitted sampleChanged.log = false) := by
  have hload : Admitted jsonSerde id sample ⟨sampleStart, false⟩ (.load true (.ok ()))
      ⟨sampleLoaded, true⟩ := ⟨.loaded sample_load, nofun, nofun⟩
  have hmutate : Admitted jsonSerde id sample ⟨sampleLoaded, true⟩ (.call (.mutate 7) (.ok ()))
      ⟨sampleChanged, true⟩ := ⟨.called sample_change nofun, nofun, nofun⟩
  exact ⟨by decide, pending_false_saved ⟨rfl, rfl⟩ ((Trace.single hload).snoc hmutate) rfl []
    (by decide)⟩

end SnapshotPolicy

end RgbLightningNode.Snapshot
