import PrplHypervisor.Lib.Runs
import Mathlib.Data.List.Basic

/-! Components that take their actions in turn.  A step of the system is an action of at most one
component, its label, and leaves every other component as it is; so over a whole run a component is
what its own actions have made of it, whatever the others did in between. -/

namespace Lib.Interleaving

open Lib.Runs

variable {σ ε ι α μ : Type*} [DecidableEq ι]

/-- The actions of the component `i`, in order. -/
def own (i : ι) (labels : List (ι × α)) : List α :=
  labels.filterMap fun x => if x.1 = i then some x.2 else none

/-- The labels of the steps of a run. -/
def labels (step : σ → ε → Option σ) (label : σ → ε → Option (ι × α)) : σ → List ε → List (ι × α)
  | _, [] => []
  | s, e :: es =>
    match step s e with
    | none => []
    | some t => (label s e).toList ++ labels step label t es

/-- What an action of some component, or of none, makes of the component `i`. -/
def actAt (act : μ → α → μ) (i : ι) (x : Option (ι × α)) (m : μ) : μ :=
  (own i x.toList).foldl act m

@[simp] theorem actAt_none (act : μ → α → μ) (i : ι) (m : μ) : actAt act i none m = m := rfl

@[simp] theorem actAt_self (act : μ → α → μ) (i : ι) (a : α) (m : μ) :
    actAt act i (some (i, a)) m = act m a := by
  simp [actAt, own]

theorem actAt_of_ne (act : μ → α → μ) {i j : ι} (h : j ≠ i) (a : α) (m : μ) :
    actAt act i (some (j, a)) m = m := by
  simp [actAt, own, h]

end Lib.Interleaving
