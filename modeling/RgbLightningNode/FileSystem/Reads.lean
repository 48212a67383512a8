import Mathlib.Data.List.Basic
import RgbLightningNode.FileSystem.Tree

/-!
# What has been read is read again

A check of a tree is a function of the tree that may fail. Where everything that was there is there
still, outside of some places, a check that looks at nothing in these places succeeds as before.
-/

namespace RgbLightningNode.FileSystem

variable {ε α β γ : Type} {t u v : Tree}

/-- What is there outside of `S` in the first tree is there in the second. -/
def Tree.KeptOff (S : Set Path) (t u : Tree) : Prop :=
  ∀ q, q ∉ S → t.node q ≠ none → u.node q = t.node q

theorem Tree.KeptOff.refl (S : Set Path) (t : Tree) : t.KeptOff S t := fun _ _ _ => rfl

theorem Tree.KeptOff.trans {S : Set Path} (h : t.KeptOff S u) (h' : u.KeptOff S v) :
    t.KeptOff S v := by
  intro q hq hnode
  have hfirst := h q hq hnode
  rw [h' q hq (by rwa [hfirst]), hfirst]

/-- What the view says of the first tree, it says of the second. -/
def Stays (t u : Tree) (view : Tree → Except ε α) : Prop := ∀ a, view t = .ok a → view u = .ok a

theorem stays_const (result : Except ε α) : Stays t u fun _ => result := fun _ h => h

/-- The rest has to stay only where the first part has succeeded. -/
theorem stays_bind {view : Tree → Except ε α} {next : α → Tree → Except ε β} (h : Stays t u view)
    (hnext : ∀ a, view t = .ok a → Stays t u (next a)) :
    Stays t u fun t => view t >>= fun a => next a t := by
  intro b hb
  cases hview : view t with
  | error e =>
    change (view t >>= fun a => next a t) = _ at hb
    rw [hview] at hb
    cases hb
  | ok a =>
    change (view t >>= fun a => next a t) = _ at hb
    rw [hview] at hb
    change (view u >>= fun a => next a u) = _
    rw [h a hview]
    exact hnext a hview b hb

theorem stays_forM {view : γ → Tree → Except ε PUnit} {xs : List γ}
    (h : ∀ x ∈ xs, Stays t u (view x)) : Stays t u fun t => xs.forM fun x => view x t := by
  induction xs with
  | nil => exact stays_const _
  | cons x xs ih =>
    change Stays t u fun t => view x t >>= fun _ => xs.forM fun x => view x t
    refine stays_bind (h x List.mem_cons_self) ?_
    exact fun _ _ => ih fun y hy => h y (List.mem_cons_of_mem x hy)

theorem stays_mapM {view : γ → Tree → Except ε α} {xs : List γ}
    (h : ∀ x ∈ xs, Stays t u (view x)) : Stays t u fun t => xs.mapM fun x => view x t := by
  induction xs with
  | nil => exact stays_const _
  | cons x xs ih =>
    simp only [List.mapM_cons]
    refine stays_bind (h x List.mem_cons_self) fun a _ => ?_
    exact stays_bind (ih fun y hy => h y (List.mem_cons_of_mem x hy)) fun _ _ => stays_const _

end RgbLightningNode.FileSystem
