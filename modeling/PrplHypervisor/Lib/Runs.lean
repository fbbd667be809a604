import Mathlib.Logic.Function.Basic

/-! Runs of a system that takes one event at a time.  A step is a partial function: `none` is a
step without a defined outcome.  The invariant rule carries a property of states along a run, and
the guarded rule does so for the runs whose steps all meet a condition on the state and the event
they start from. -/

namespace Lib.Runs

variable {σ ε : Type*} {step : σ → ε → Option σ}

/-- The state after the events `es` from `s`, if every step on the way is defined. -/
def run (step : σ → ε → Option σ) : σ → List ε → Option σ
  | s, [] => some s
  | s, e :: es => (step s e).bind fun t => run step t es

@[simp] theorem run_nil (s : σ) : run step s [] = some s := rfl

theorem run_cons (s : σ) (e : ε) (es : List ε) :
    run step s (e :: es) = (step s e).bind fun t => run step t es := rfl

theorem exists_of_run_cons {s u : σ} {e : ε} {es : List ε} (h : run step s (e :: es) = some u) :
    ∃ t, step s e = some t ∧ run step t es = some u := by
  rw [run_cons, Option.bind_eq_some_iff] at h
  exact h

theorem run_cons_of_step {s t u : σ} {e : ε} {es : List ε} (hstep : step s e = some t)
    (hrun : run step t es = some u) : run step s (e :: es) = some u := by
  rw [run_cons, hstep]
  exact hrun

theorem run_append (s : σ) (es es' : List ε) :
    run step s (es ++ es') = (run step s es).bind fun t => run step t es' := by
  induction es generalizing s with
  | nil => rfl
  | cons e es ih =>
    rw [List.cons_append, run_cons, run_cons, Option.bind_assoc]
    exact Option.bind_congr fun t _ => ih t

/-- Every step of the run of `es` from `s` starts from a state and an event that meet `guard`. -/
def Guarded (step : σ → ε → Option σ) (guard : σ → ε → Prop) : σ → List ε → Prop
  | _, [] => True
  | s, e :: es => guard s e ∧ ∀ t, step s e = some t → Guarded step guard t es

instance Guarded.decidable (step : σ → ε → Option σ) (guard : σ → ε → Prop)
    [∀ s e, Decidable (guard s e)] : (s : σ) → (es : List ε) → Decidable (Guarded step guard s es)
  | _, [] => isTrue trivial
  | s, e :: es =>
    match h : step s e with
    | none => decidable_of_iff (guard s e) (by simp [Guarded, h])
    | some t =>
      have := Guarded.decidable step guard t es
      decidable_of_iff (guard s e ∧ Guarded step guard t es) (by simp [Guarded, h])

theorem guarded_of_mem {guard : σ → ε → Prop} {s : σ} {es : List ε}
    (h : ∀ s, ∀ e ∈ es, guard s e) : Guarded step guard s es := by
  induction es generalizing s with
  | nil => trivial
  | cons e es ih =>
    exact ⟨h s e List.mem_cons_self, fun t _ => ih fun s f hf => h s f (List.mem_cons_of_mem _ hf)⟩

/-- The guard of a step in the middle of a run. -/
theorem Guarded.after {guard : σ → ε → Prop} {s t : σ} {e : ε} {es pre post : List ε}
    (h : Guarded step guard s es) (hrun : run step s pre = some t) (hes : es = pre ++ e :: post) :
    guard t e := by
  induction pre generalizing s es with
  | nil =>
    obtain rfl := Option.some.inj hrun
    obtain rfl := hes
    exact h.1
  | cons f pre ih =>
    obtain rfl := hes
    obtain ⟨u, hu, hrest⟩ := exists_of_run_cons hrun
    exact ih (h.2 u hu) hrest rfl

/-- A run is defined when every step is defined from the states that have the invariant. -/
theorem run_defined {P : σ → Prop} {s : σ} {es : List ε}
    (hstep : ∀ s e, e ∈ es → P s → ∃ t, step s e = some t ∧ P t) (hs : P s) :
    ∃ t, run step s es = some t ∧ P t := by
  induction es generalizing s with
  | nil => exact ⟨s, rfl, hs⟩
  | cons e es ih =>
    obtain ⟨u, hu, hP⟩ := hstep s e List.mem_cons_self hs
    obtain ⟨t, ht, hPt⟩ := ih (fun s f hf => hstep s f (List.mem_cons_of_mem _ hf)) hP
    exact ⟨t, run_cons_of_step hu ht, hPt⟩

/-- The invariant rule: what every defined step keeps holds after a defined run. -/
theorem run_invariant {P : σ → Prop} {s t : σ} {es : List ε}
    (hstep : ∀ s e t, P s → step s e = some t → P t) (hs : P s) (hrun : run step s es = some t) :
    P t := by
  induction es generalizing s with
  | nil => exact Option.some.inj hrun ▸ hs
  | cons e es ih =>
    obtain ⟨u, hu, hrest⟩ := exists_of_run_cons hrun
    exact ih (hstep s e u hs hu) hrest

/-- The refinement rule: when each step of a system is matched by a step of another one, each run is
matched by a run. -/
theorem run_refines {τ : Type*} {step' : τ → ε → Option τ} {R : σ → τ → Prop}
    (hstep : ∀ s e s' t, R s t → step s e = some s' → ∃ t', step' t e = some t' ∧ R s' t')
    {s s' : σ} {t : τ} {es : List ε} (hR : R s t) (hrun : run step s es = some s') :
    ∃ t', run step' t es = some t' ∧ R s' t' := by
  induction es generalizing s t with
  | nil =>
    obtain rfl := Option.some.inj hrun
    exact ⟨t, rfl, hR⟩
  | cons e es ih =>
    obtain ⟨u, hu, hrest⟩ := exists_of_run_cons hrun
    obtain ⟨v, hv, hRv⟩ := hstep s e u t hR hu
    obtain ⟨t', ht', hR'⟩ := ih hRv hrest
    exact ⟨t', run_cons_of_step hv ht', hR'⟩

/-- The invariant rule for guarded runs: a step that meets the guard is defined and keeps the
property. -/
theorem run_guarded {P : σ → Prop} {guard : σ → ε → Prop}
    (hstep : ∀ s e, P s → guard s e → ∃ t, step s e = some t ∧ P t) {s : σ} {es : List ε}
    (hs : P s) (hguard : Guarded step guard s es) : ∃ t, run step s es = some t ∧ P t := by
  induction es generalizing s with
  | nil => exact ⟨s, rfl, hs⟩
  | cons e es ih =>
    obtain ⟨u, hu, hP⟩ := hstep s e hs hguard.1
    obtain ⟨t, ht, hPt⟩ := ih hP (hguard.2 u hu)
    exact ⟨t, run_cons_of_step hu ht, hPt⟩

/-- With an invariant, the steps that meet a guard meet every condition that follows from it. -/
theorem guarded_of_guarded {I : σ → Prop} {guard safe : σ → ε → Prop} {s : σ} {es : List ε}
    (hstep : ∀ s e, I s → guard s e → safe s e ∧ ∃ t, step s e = some t ∧ I t) (hs : I s)
    (hguard : Guarded step guard s es) : Guarded step safe s es := by
  induction es generalizing s with
  | nil => trivial
  | cons e es ih =>
    obtain ⟨hsafe, u, hu, hI⟩ := hstep s e hs hguard.1
    refine ⟨hsafe, fun t ht => ?_⟩
    obtain rfl := Option.some.inj (hu.symm.trans ht)
    exact ih hI (hguard.2 u hu)

/-- A property that a step keeps exactly when it meets the guard holds at the end of a run exactly
when every step meets it. -/
theorem run_guarded_iff {I P : σ → Prop} {guard : σ → ε → Prop} {s t : σ} {es : List ε}
    (hstep : ∀ s e t, e ∈ es → I s → step s e = some t → I t ∧ (P t ↔ P s ∧ guard s e))
    (hs : I s) (hrun : run step s es = some t) : P t ↔ P s ∧ Guarded step guard s es := by
  induction es generalizing s with
  | nil =>
    obtain rfl := Option.some.inj hrun
    exact (and_iff_left trivial).symm
  | cons e es ih =>
    obtain ⟨u, hu, hrest⟩ := exists_of_run_cons hrun
    obtain ⟨hI, hP⟩ := hstep s e u List.mem_cons_self hs hu
    rw [ih (fun s f t hf => hstep s f t (List.mem_cons_of_mem _ hf)) hI hrest, hP, and_assoc]
    refine and_congr_right fun _ => and_congr_right fun _ => ?_
    exact ⟨fun h v hv => Option.some.inj (hu.symm.trans hv) ▸ h, fun h => h u hu⟩

/-- A property that holds until an event ends it holds after a run without such an event. -/
theorem run_keeps {I P : σ → Prop} {ends : ε → Prop} {s t : σ} {es : List ε}
    (hstep : ∀ s e t, I s → step s e = some t → I t ∧ (P s → ¬ends e → P t)) (hs : I s) (hP : P s)
    (hends : ∀ e ∈ es, ¬ends e) (hrun : run step s es = some t) : P t := by
  induction es generalizing s with
  | nil =>
    obtain rfl := Option.some.inj hrun
    exact hP
  | cons e es ih =>
    obtain ⟨u, hu, hrest⟩ := exists_of_run_cons hrun
    obtain ⟨hI, hkeep⟩ := hstep s e u hs hu
    exact ih hI (hkeep hP (hends e List.mem_cons_self))
      (fun f hf => hends f (List.mem_cons_of_mem e hf)) hrest

/-- A property that only certain steps bring about either held before the run or was brought about
by such a step of it. -/
theorem run_starts {I P : σ → Prop} {starts : σ → ε → Prop} {s t : σ} {es : List ε}
    (hstep : ∀ s e t, I s → step s e = some t → I t ∧ (P t → P s ∨ starts s e)) (hs : I s)
    (hrun : run step s es = some t) (hP : P t) :
    P s ∨ ∃ pre e post u, es = pre ++ e :: post ∧ run step s pre = some u ∧ starts u e := by
  induction es generalizing s with
  | nil =>
    obtain rfl := Option.some.inj hrun
    exact Or.inl hP
  | cons e es ih =>
    obtain ⟨u, hu, hrest⟩ := exists_of_run_cons hrun
    obtain ⟨hI, hstart⟩ := hstep s e u hs hu
    rcases ih hI hrest with hPu | ⟨pre, f, post, w, rfl, hpre, hf⟩
    · rcases hstart hPu with hPs | hnow
      · exact Or.inl hPs
      · exact Or.inr ⟨[], e, es, s, rfl, rfl, hnow⟩
    · exact Or.inr ⟨e :: pre, f, post, w, rfl, run_cons_of_step hu hpre, hf⟩

/-- Every state of the run of `es` from `s`, the first one included, has the property `P`. -/
def Always (step : σ → ε → Option σ) (P : σ → Prop) : σ → List ε → Prop
  | s, [] => P s
  | s, e :: es => P s ∧ ∀ t, step s e = some t → Always step P t es

theorem Always.start {P : σ → Prop} {s : σ} {es : List ε} (h : Always step P s es) : P s := by
  cases es with
  | nil => exact h
  | cons e es => exact h.1

/-- A property of every state of a run is one of the state after each part of its events. -/
theorem always_iff {P : σ → Prop} {s : σ} {es : List ε} :
    Always step P s es ↔
      ∀ pre post t, es = pre ++ post → run step s pre = some t → P t := by
  induction es generalizing s with
  | nil =>
    constructor
    · rintro hs pre post t hsplit hrun
      obtain ⟨rfl, -⟩ := List.append_eq_nil_iff.mp hsplit.symm
      obtain rfl := Option.some.inj hrun
      exact hs
    · exact fun hall => hall [] [] s rfl rfl
  | cons e es ih =>
    constructor
    · rintro ⟨hs, hrest⟩ pre post t hsplit hrun
      cases pre with
      | nil =>
        obtain rfl := Option.some.inj hrun
        exact hs
      | cons f pre =>
        obtain ⟨rfl, htail⟩ := List.cons.inj hsplit
        obtain ⟨u, hu, hrun⟩ := exists_of_run_cons hrun
        exact ih.mp (hrest u hu) pre post t htail hrun
    · intro hall
      refine ⟨hall [] (e :: es) s rfl rfl, fun u hu => ih.mpr fun pre post t hsplit hrun => ?_⟩
      exact hall (e :: pre) post t (congrArg (e :: ·) hsplit) (run_cons_of_step hu hrun)

/-- What every step that meets the guard keeps holds all along a guarded run. -/
theorem always_of_guarded {P : σ → Prop} {guard : σ → ε → Prop}
    (hstep : ∀ s e t, P s → guard s e → step s e = some t → P t) {s : σ} {es : List ε} (hs : P s)
    (hguard : Guarded step guard s es) : Always step P s es := by
  induction es generalizing s with
  | nil => exact hs
  | cons e es ih => exact ⟨hs, fun t ht => ih (hstep s e t hs hguard.1 ht) (hguard.2 t ht)⟩

theorem Always.mono {P Q : σ → Prop} (h : ∀ s, P s → Q s) {s : σ} {es : List ε}
    (hall : Always step P s es) : Always step Q s es := by
  rw [always_iff] at hall ⊢
  intro pre post t hsplit hrun
  exact h t (hall pre post t hsplit hrun)

/-- A property that a step keeps exactly when it meets the guard holds all along a run exactly when
every step meets it. -/
theorem always_guarded_iff {I P : σ → Prop} {guard : σ → ε → Prop} {s : σ} {es : List ε}
    (hstep : ∀ s e, I s → P s → ∃ t, step s e = some t ∧ I t ∧ (P t ↔ guard s e)) (hs : I s)
    (hP : P s) : Always step P s es ↔ Guarded step guard s es := by
  induction es generalizing s with
  | nil => exact iff_of_true hP trivial
  | cons e es ih =>
    obtain ⟨t, ht, hI, hiff⟩ := hstep s e hs hP
    have honly : ∀ Q : σ → Prop, (∀ u, step s e = some u → Q u) ↔ Q t := by
      intro Q
      exact ⟨fun hall => hall t ht, fun hQ u hu => Option.some.inj (ht.symm.trans hu) ▸ hQ⟩
    rw [Always, Guarded, honly (Always step P · es), honly (Guarded step guard · es), ← hiff]
    constructor
    · rintro ⟨-, hrest⟩
      have hPt : P t := hrest.start
      exact ⟨hPt, (ih hI hPt).mp hrest⟩
    · rintro ⟨hPt, hrest⟩
      exact ⟨hP, (ih hI hPt).mpr hrest⟩

/-- A guard that says of a step what it starts from and what it leads to says of a run that every
step of it starts so and every state of it is as it should be. -/
theorem guarded_and_always_iff {I P : σ → Prop} {starts guard : σ → ε → Prop} {s : σ} {es : List ε}
    (hinv : ∀ s e t, I s → P s → starts s e → step s e = some t → I t)
    (hguard : ∀ s e, I s → P s → (guard s e ↔ starts s e ∧ ∀ t, step s e = some t → P t))
    (hs : I s) (hP : P s) :
    Guarded step starts s es ∧ Always step P s es ↔ Guarded step guard s es := by
  induction es generalizing s with
  | nil => exact iff_of_true ⟨trivial, hP⟩ trivial
  | cons e es ih =>
    constructor
    · rintro ⟨⟨hstart, hrest⟩, -, halways⟩
      have hnext : ∀ t, step s e = some t → P t := fun t ht => (halways t ht).start
      refine ⟨(hguard s e hs hP).mpr ⟨hstart, hnext⟩, fun t ht => ?_⟩
      exact (ih (hinv s e t hs hP hstart ht) (hnext t ht)).mp ⟨hrest t ht, halways t ht⟩
    · rintro ⟨hg, hrest⟩
      obtain ⟨hstart, hnext⟩ := (hguard s e hs hP).mp hg
      have hafter : ∀ t, step s e = some t → Guarded step starts t es ∧ Always step P t es :=
        fun t ht => (ih (hinv s e t hs hP hstart ht) (hnext t ht)).mpr (hrest t ht)
      exact ⟨⟨hstart, fun t ht => (hafter t ht).1⟩, hP, fun t ht => (hafter t ht).2⟩

end Lib.Runs
