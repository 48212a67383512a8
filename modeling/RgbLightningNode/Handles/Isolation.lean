import RgbLightningNode.Handles.Effects

/-!
# What a step leaves alone

No effect of an environment disturbs the wrappers of another one: their fields, their registration
and the history of their objects stay as they are.
-/

namespace RgbLightningNode.Handles

variable {w : ℕ}

/-- The wrappers of one environment. -/
def InEnv (env : ℕ) (_ : ℕ) (wr : Wrapper w) : Prop := wr.env = env

/-- Some wrappers, their registration and what happened to their objects stay as they are. -/
structure Undisturbed (p : ℕ → Wrapper w → Prop) (s s' : Addon w) : Prop where
  heap : ∀ {a wr}, p a wr → (s'.heap a = some wr ↔ s.heap a = some wr)
  handles : ∀ {a wr}, s.heap a = some wr → p a wr → (a ∈ s'.handles ↔ a ∈ s.handles)
  history : ∀ {a wr o}, s.heap a = some wr → p a wr → wr.object = some o →
    s'.history o = s.history o

variable {s s' : Addon w} {env a : ℕ} {wr wr' : Wrapper w} {e : Event w}
  {p : ℕ → Wrapper w → Prop}

namespace Undisturbed

theorem refl : Undisturbed p s s :=
  ⟨fun _ => Iff.rfl, fun _ _ => Iff.rfl, fun _ _ _ => rfl⟩

theorem trans {t : Addon w} (h : Undisturbed p s s') (h' : Undisturbed p s' t) :
    Undisturbed p s t where
  heap hp := (h'.heap hp).trans (h.heap hp)
  handles hwr hp := (h'.handles ((h.heap hp).mpr hwr) hp).trans (h.handles hwr hp)
  history hwr hp ho := (h'.history ((h.heap hp).mpr hwr) hp ho).trans (h.history hwr hp ho)

theorem log (h : Undisturbed p s s') {o : ℕ} (own : s.heap a = some wr) (hp : p a wr)
    (ho : wr.object = some o) (he : e.object = some o) : e ∈ s'.log ↔ e ∈ s.log := by
  have hmem : e ∈ s'.history o ↔ e ∈ s.history o := by rw [h.history own hp ho]
  simpa only [Addon.mem_history, he, and_true] using hmem

theorem of_same (hheap : s'.heap = s.heap) (hhandles : s'.handles = s.handles)
    (hlog : s'.log = s.log) : Undisturbed p s s' :=
  ⟨fun _ => by rw [hheap], fun _ _ => by rw [hhandles],
    fun _ _ _ => by rw [Addon.history, hlog, Addon.history]⟩

theorem write (wr' : Wrapper w) (own : s.heap a = some wr) (hp : ¬p a wr) (hp' : ¬p a wr') :
    Undisturbed p s (s.write a wr') := by
  refine ⟨fun {b wb} hb => ?_, fun _ _ => Iff.rfl, fun _ _ _ => rfl⟩
  by_cases hba : b = a
  · subst hba
    have hne (wr'' : Wrapper w) (h : ¬p b wr'') : ¬some wr'' = some wb := by
      rintro ⟨⟩
      exact h hb
    rw [Addon.write_heap_self, own]
    exact iff_of_false (hne _ hp') (hne _ hp)
  · rw [Addon.write_heap_of_ne _ _ hba]

theorem release (own : s.heap a = some wr) (hp : ¬p a wr) : Undisturbed p s (s.release a) := by
  refine ⟨fun {b wb} hb => ?_, fun _ _ => Iff.rfl, fun _ _ _ => rfl⟩
  by_cases hba : b = a
  · subst hba
    rw [Addon.release_heap_self, own]
    refine iff_of_false nofun ?_
    rintro ⟨⟩
    exact hp hb
  · rw [Addon.release_heap_of_ne _ hba]

theorem unregister (own : s.heap a = some wr) (hp : ¬p a wr) :
    Undisturbed p s (s.unregisterHandle a) := by
  refine ⟨fun _ => Iff.rfl, fun {b wb} hb hpb => ?_, fun _ _ _ => rfl⟩
  apply List.mem_erase_of_ne
  rintro rfl
  obtain rfl : wb = wr := Option.some.inj (hb.symm.trans own)
  exact hp hpb

/-- An event about another wrapper's object. -/
theorem record (hs : s.Sound) (own : s.heap a = some wr) (hp : ¬p a wr)
    (he : e.object = wr.object) : Undisturbed p s (s.record e) := by
  refine ⟨fun _ => Iff.rfl, fun _ _ => Iff.rfl, fun {b wb o} hb hpb ho => ?_⟩
  apply Addon.history_record
  intro he'
  have hba : b = a := hs.objects hb own ho (he.symm.trans he')
  subst hba
  obtain rfl : wb = wr := Option.some.inj (hb.symm.trans own)
  exact hp hpb

/-- An event about an object that is in no wrapper, or about none. -/
theorem record_other (he : ∀ {b wb o}, s.heap b = some wb → wb.object = some o →
    e.object ≠ some o) : Undisturbed p s (s.record e) :=
  ⟨fun _ => Iff.rfl, fun _ _ => Iff.rfl, fun hb _ ho => Addon.history_record (he hb ho)⟩

theorem throw {code : Option String} {message : String} :
    Undisturbed p s (s.record (.threw code message)) :=
  .record_other fun _ _ => nofun

end Undisturbed

/-- No effect of one environment disturbs another. -/
theorem Effect.undisturbed {other : ℕ} (h : Effect env s s') (hs : s.Sound) (hne : other ≠ env) :
    Undisturbed (InEnv other) s s' := by
  cases h with
  | @allocate a kind free =>
    refine ⟨fun {b wb} hb => ?_, fun _ _ => Iff.rfl, fun _ _ _ => rfl⟩
    by_cases hba : b = a
    · subst hba
      rw [Addon.write_heap_self, free]
      refine iff_of_false ?_ nofun
      rintro ⟨⟩
      exact hne hb.symm
    · rw [Addon.write_heap_of_ne _ _ hba]
  | lose kind =>
    have hgrow : Undisturbed (InEnv other) s { s with created := s.created + 1 } :=
      .of_same rfl rfl rfl
    refine hgrow.trans (.record_other fun hb ho => ?_)
    rintro ⟨⟩
    exact ((hs.wrapper hb).created ho).false
  | @register a wr own henv live new next =>
    have hwr : ¬InEnv other a wr := fun h => hne (h.symm.trans henv)
    refine (Undisturbed.record (e := .registered wr.object s.nextHandleId) hs own hwr rfl).trans ?_
    have hwrite : Undisturbed (InEnv other) (s.record (.registered wr.object s.nextHandleId))
        ((s.record (.registered wr.object s.nextHandleId)).write a
          { wr with id := s.nextHandleId }) := .write _ own hwr hwr
    refine hwrite.trans ?_
    refine ⟨fun _ => Iff.rfl, fun {b wb} hb hpb => ?_, fun _ _ _ => rfl⟩
    refine List.mem_cons.trans (or_iff_right ?_)
    rintro rfl
    rw [Addon.write_heap_self] at hb
    cases hb
    exact hwr hpb
  | @flag a wr own henv value callbacks hcallbacks =>
    have hwr : ¬InEnv other a wr := fun h => hne (h.symm.trans henv)
    refine (Undisturbed.write { wr with teardownRegistered := value } own hwr hwr).trans ?_
    exact .of_same rfl rfl rfl
  | callbacks callbacks hcallbacks => exact .of_same rfl rfl rfl
  | hand own henv live registered =>
    exact .record hs own (fun h => hne (h.symm.trans henv)) rfl
  | unregister own henv done => exact .unregister own fun h => hne (h.symm.trans henv)
  | @stop a wr own henv live =>
    have hwr : ¬InEnv other a wr := fun h => hne (h.symm.trans henv)
    refine (Undisturbed.record (e := .nodeStopped wr.object true) hs own hwr rfl).trans ?_
    exact .write { wr with shutdownAttempted := true } own hwr hwr
  | fail own henv live => exact .record hs own (fun h => hne (h.symm.trans henv)) rfl
  | @free a wr own henv live stopped =>
    have hwr : ¬InEnv other a wr := fun h => hne (h.symm.trans henv)
    refine (Undisturbed.record (e := .freed wr.kind wr.object) hs own hwr rfl).trans ?_
    exact .write { wr with object := none, freed := true } own hwr hwr
  | release own henv gone done => exact .release own fun h => hne (h.symm.trans henv)
  | @discard a wr own henv live kind gone unhanded =>
    have hwr : ¬InEnv other a wr := fun h => hne (h.symm.trans henv)
    refine (Undisturbed.record (e := .freed .signer wr.object) hs own hwr rfl).trans ?_
    exact Undisturbed.release own hwr
  | call own henv live => exact .record hs own (fun h => hne (h.symm.trans henv)) rfl
  | revoke own henv live ok => exact .record hs own (fun h => hne (h.symm.trans henv)) rfl
  | throw code message => exact .throw

theorem Effects.undisturbed {other : ℕ} (h : Effects env s s') (hs : s.Sound)
    (hne : other ≠ env) : Undisturbed (InEnv other) s s' := by
  induction h with
  | refl => exact .refl
  | tail before last ih => exact ih.trans (last.undisturbed (Effects.sound before hs) hne)

end RgbLightningNode.Handles
