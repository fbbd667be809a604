import Mathlib.Algebra.Order.Ring.Abs
import Mathlib.Logic.Function.Basic
import Mathlib.Tactic.Linarith
import Mathlib.Tactic.Ring

/-! Stride scheduling by remainders.  Every client has a period; the active client with the least
remainder is picked, starts its period over, and the other active clients give up that remainder.
For a client that is always active, the time given up so far and its remainder make up a whole
number of periods, one more than it was picked, so the picks of two such clients are in inverse
proportion to their periods. -/

namespace Lib.Stride

variable {ι : Type*}

/-- What is left of each client's period, and how often it was picked. -/
structure Ledger (ι : Type*) where
  rem : ι → Nat
  picks : ι → Nat

variable {period : ι → Nat} {clients steady : Set ι} {s t : Ledger ι} {time : Nat} {v w : ι}

/-- `t` is the ledger after the client `v` was picked in `s` among the clients in `active`. -/
structure Picks (period : ι → Nat) (active : Set ι) (s : Ledger ι) (v : ι) (t : Ledger ι) :
    Prop where
  least : ∀ w ∈ active, s.rem v ≤ s.rem w
  restart : t.rem v = period v
  charge : ∀ w ∈ active, w ≠ v → t.rem w = s.rem w - s.rem v
  rest : ∀ w, w ∉ active → w ≠ v → t.rem w = s.rem w
  count : t.picks v = s.picks v + 1
  others : ∀ w, w ≠ v → t.picks w = s.picks w

/-- No remainder exceeds its period, and `time` was given up by each client that has always been
active. -/
structure Balanced (period : ι → Nat) (clients steady : Set ι) (time : Nat) (s : Ledger ι) :
    Prop where
  rem_le : ∀ v ∈ clients, s.rem v ≤ period v
  periods : ∀ v ∈ steady, time + s.rem v = (s.picks v + 1) * period v

theorem Balanced.start (hrem : ∀ v ∈ clients, s.rem v = period v) (hpicks : ∀ v, s.picks v = 0)
    (hsteady : steady ⊆ clients) : Balanced period clients steady 0 s where
  rem_le := fun v hv => (hrem v hv).le
  periods := fun v hv => by
    rw [hrem v (hsteady hv), hpicks v]
    ring

/-- A pick adds its remainder to the time that was given up. -/
theorem Balanced.pick {active : Set ι} (h : Balanced period clients steady time s)
    (hpick : Picks period active s v t) (hv : v ∈ clients) (hsteady : steady ⊆ active) :
    Balanced period clients steady (time + s.rem v) t := by
  constructor
  · intro w hw
    by_cases hwv : w = v
    · rw [hwv, hpick.restart]
    · by_cases hactive : w ∈ active
      · rw [hpick.charge w hactive hwv]
        exact (Nat.sub_le _ _).trans (h.rem_le w hw)
      · rw [hpick.rest w hactive hwv]
        exact h.rem_le w hw
  · intro w hw
    by_cases hwv : w = v
    · subst hwv
      rw [hpick.restart, hpick.count, h.periods w hw]
      ring
    · have hleast := hpick.least w (hsteady hw)
      rw [hpick.charge w (hsteady hw) hwv, hpick.others w hwv, ← h.periods w hw]
      omega

/-- The picks of two clients that have always been active are in inverse proportion to their
periods, up to one period. -/
theorem Balanced.share (h : Balanced period clients steady time s) (hsteady : steady ⊆ clients)
    (hv : v ∈ steady) (hw : w ∈ steady) :
    |(s.picks v * period v : Int) - s.picks w * period w| ≤ max (period v : Int) (period w) := by
  have htime_v : (time + s.rem v : Int) = (s.picks v + 1) * period v := by
    exact_mod_cast h.periods v hv
  have htime_w : (time + s.rem w : Int) = (s.picks w + 1) * period w := by
    exact_mod_cast h.periods w hw
  have hrem_v : (s.rem v : Int) ≤ period v := by exact_mod_cast h.rem_le v (hsteady hv)
  have hrem_w : (s.rem w : Int) ≤ period w := by exact_mod_cast h.rem_le w (hsteady hw)
  have hmax_v := le_max_left (period v : Int) (period w)
  have hmax_w := le_max_right (period v : Int) (period w)
  rw [abs_le]
  constructor
  · linarith
  · linarith

/-- From the ledger `s₀` on, `time` was given up by each steady client: its remainder went down by
that much, but for a period at each pick. -/
def Elapsed (period : ι → Nat) (steady : Set ι) (s₀ : Ledger ι) (time : Nat) (s : Ledger ι) :
    Prop :=
  ∀ v ∈ steady, time + s.rem v + s₀.picks v * period v = s₀.rem v + s.picks v * period v

theorem Elapsed.start (period : ι → Nat) (steady : Set ι) (s : Ledger ι) :
    Elapsed period steady s 0 s := fun v _ => by rw [Nat.zero_add]

theorem Elapsed.pick {s₀ : Ledger ι} {active : Set ι} (h : Elapsed period steady s₀ time s)
    (hpick : Picks period active s v t) (hsteady : steady ⊆ active) :
    Elapsed period steady s₀ (time + s.rem v) t := by
  intro w hw
  have hperiods := h w hw
  by_cases hwv : w = v
  · subst hwv
    rw [hpick.restart, hpick.count, Nat.add_mul, Nat.one_mul]
    omega
  · have hleast := hpick.least w (hsteady hw)
    rw [hpick.charge w (hsteady hw) hwv, hpick.others w hwv]
    omega

/-- While `w` is not picked, the periods of `v` but for one fit in what `w` had left. -/
theorem Elapsed.picks_le {s₀ : Ledger ι} (h : Elapsed period steady s₀ time s) (hv : v ∈ steady)
    (hw : w ∈ steady) (hrem : s.rem v ≤ period v) (hsame : s.picks w = s₀.picks w) :
    s.picks v * period v ≤ (s₀.picks v + 1) * period v + s₀.rem w := by
  have hperiods_v := h v hv
  have hperiods_w := h w hw
  rw [hsame] at hperiods_w
  rw [Nat.add_mul, Nat.one_mul]
  omega

end Lib.Stride
