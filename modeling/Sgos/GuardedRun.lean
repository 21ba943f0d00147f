import Mathlib.Data.List.Basic

/-!
# Runs of an event-driven system

A system is a step function `step : σ → ε → σ`; a run folds it over a list of events. `Guarded`
says that every event of a run is issued in a state where it is allowed. An invariant of the
allowed steps holds at the end of every guarded run, and so, prefixes of guarded runs being
guarded, in every state such a run reaches.
-/
namespace Sgos.GuardedRun
variable {σ ε : Type*}

/-- The state after a list of events. -/
def run (step : σ → ε → σ) (s : σ) (es : List ε) : σ := es.foldl step s

/-- Every event is allowed in the state it is issued in. -/
def Guarded (step : σ → ε → σ) (ok : σ → ε → Prop) : σ → List ε → Prop
  | _, [] => True
  | s, e :: es => ok s e ∧ Guarded step ok (step s e) es

variable {step : σ → ε → σ} {ok : σ → ε → Prop}

instance Guarded.decidable [∀ s e, Decidable (ok s e)] :
    ∀ (s : σ) (es : List ε), Decidable (Guarded step ok s es)
  | _, [] => .isTrue trivial
  | s, e :: es => @instDecidableAnd _ _ _ (decidable (step s e) es)

@[simp] theorem run_nil (s : σ) : run step s [] = s := rfl

@[simp] theorem run_cons (s : σ) (e : ε) (es : List ε) :
    run step s (e :: es) = run step (step s e) es := rfl

theorem run_append (s : σ) (es fs : List ε) :
    run step s (es ++ fs) = run step (run step s es) fs := by
  simp [run, List.foldl_append]

theorem guarded_append (s : σ) (es fs : List ε) :
    Guarded step ok s (es ++ fs) ↔
      Guarded step ok s es ∧ Guarded step ok (run step s es) fs := by
  induction es generalizing s with
  | nil => simp [Guarded]
  | cons e es ih => simp only [List.cons_append, Guarded, ih, run_cons, and_assoc]

theorem guarded_and {law : σ → ε → Prop} (s : σ) (es : List ε) :
    Guarded step (fun s e => ok s e ∧ law s e) s es ↔
      Guarded step ok s es ∧ Guarded step law s es := by
  induction es generalizing s with
  | nil => simp [Guarded]
  | cons e es ih => simp only [Guarded, ih, and_and_and_comm]

/-- A guard that does not look at the state. -/
theorem guarded_of_forall {p : ε → Prop} {es : List ε} (h : ∀ e ∈ es, p e) (s : σ) :
    Guarded step (fun _ e => p e) s es := by
  induction es generalizing s with
  | nil => trivial
  | cons e es ih => exact ⟨h e (by simp), ih (fun f hf => h f (by simp [hf])) _⟩

/-- An invariant that allowed events preserve holds after every guarded run. -/
theorem Guarded.invariant {s : σ} {es : List ε} (h : Guarded step ok s es) (inv : σ → Prop)
    (hstep : ∀ s e, inv s → ok s e → inv (step s e)) (hs : inv s) :
    inv (run step s es) := by
  induction es generalizing s with
  | nil => exact hs
  | cons e es ih => exact ih h.2 (hstep s e hs h.1)

/-- When an invariant makes a law hold of every allowed event, the law holds of every event of a
guarded run. -/
theorem Guarded.law {law : σ → ε → Prop} {s : σ} {es : List ε} (h : Guarded step ok s es)
    (inv : σ → Prop) (hstep : ∀ s e, inv s → ok s e → law s e ∧ inv (step s e)) (hs : inv s) :
    Guarded step law s es := by
  induction es generalizing s with
  | nil => trivial
  | cons e es ih =>
    obtain ⟨hlaw, hinv⟩ := hstep s e hs h.1
    exact ⟨hlaw, ih h.2 hinv⟩

/-- Without guards, an invariant of every step holds after every run. -/
theorem run_invariant (inv : σ → Prop) (hstep : ∀ s e, inv s → inv (step s e)) {s : σ}
    (hs : inv s) (es : List ε) : inv (run step s es) := by
  induction es generalizing s with
  | nil => exact hs
  | cons e es ih => exact ih (hstep s e hs)

/-- When a step leads to a good state exactly if it is taken in a good state that allows it, a run
ends in a good state exactly if every step was allowed. -/
theorem Guarded.good_iff {proper : σ → ε → Prop} {s : σ} {es : List ε}
    (h : Guarded step proper s es) (inv good : σ → Prop)
    (hinv : ∀ s e, inv s → proper s e → inv (step s e))
    (hgood : ∀ s e, inv s → proper s e → (good (step s e) ↔ good s ∧ ok s e)) (hs : inv s) :
    good (run step s es) ↔ good s ∧ Guarded step ok s es := by
  induction es generalizing s with
  | nil => simp [Guarded]
  | cons e es ih =>
    rw [run_cons, ih h.2 (hinv s e hs h.1), hgood s e hs h.1, Guarded, and_assoc]

/-- When a proper step that is allowed keeps an invariant, and a proper step leads to a good state
exactly if it is allowed, all states of a run are good exactly if every step is allowed. -/
theorem Guarded.forall_prefix_iff {proper : σ → ε → Prop} {s : σ} {es : List ε}
    (h : Guarded step proper s es) (inv good : σ → Prop)
    (hinv : ∀ s e, inv s → proper s e → ok s e → inv (step s e))
    (hgood : ∀ s e, inv s → proper s e → (good (step s e) ↔ ok s e)) (hs : inv s) (h0 : good s) :
    (∀ fs, fs <+: es → good (run step s fs)) ↔ Guarded step ok s es := by
  induction es generalizing s with
  | nil =>
    refine ⟨fun _ => trivial, fun _ fs hfs => ?_⟩
    rw [List.prefix_nil.mp hfs]
    exact h0
  | cons e es ih =>
    obtain ⟨hproper, hrest⟩ := h
    constructor
    · intro hall
      have hstep := hall [e] (List.prefix_append [e] es)
      have hok := (hgood s e hs hproper).mp hstep
      refine ⟨hok, (ih hrest (hinv s e hs hproper hok) hstep).mp fun fs hfs => ?_⟩
      exact hall (e :: fs) (List.cons_prefix_cons.mpr ⟨rfl, hfs⟩)
    · rintro ⟨hok, hoks⟩ fs hfs
      cases fs with
      | nil => exact h0
      | cons f fs =>
        obtain ⟨rfl, hrestfs⟩ := List.cons_prefix_cons.mp hfs
        have hnext := ih hrest (hinv s f hs hproper hok) ((hgood s f hs hproper).mpr hok)
        exact hnext.mpr hoks fs hrestfs

/-- The same when every event is proper. -/
theorem forall_prefix_iff (inv good : σ → Prop)
    (hinv : ∀ s e, inv s → ok s e → inv (step s e))
    (hgood : ∀ s e, inv s → (good (step s e) ↔ ok s e)) {s : σ} (hs : inv s) (h0 : good s)
    (es : List ε) : (∀ fs, fs <+: es → good (run step s fs)) ↔ Guarded step ok s es :=
  (guarded_of_forall (p := fun _ => True) (fun _ _ => trivial) s).forall_prefix_iff inv good
    (fun s e h _ => hinv s e h) (fun s e h _ => hgood s e h) hs h0

/-! ## Systems with outputs -/

section Outputs
variable {τ ρ : Type*} {out : σ → ε → ρ × σ} {out' : τ → ε → ρ × τ}

/-- The outputs of a run, one for each event. -/
def outputs (out : σ → ε → ρ × σ) : σ → List ε → List ρ
  | _, [] => []
  | s, e :: es => (out s e).1 :: outputs out (out s e).2 es

/-- The transitions alone. -/
def next (out : σ → ε → ρ × σ) (s : σ) (e : ε) : σ := (out s e).2

/-- Two systems whose allowed events have equal outputs and keep a relation have equal outputs
over every allowed run. -/
theorem Guarded.simulation {s : σ} {t : τ} {es : List ε} (h : Guarded (next out) ok s es)
    (R : σ → τ → Prop)
    (hstep : ∀ s t e, R s t → ok s e → (out s e).1 = (out' t e).1 ∧ R (out s e).2 (out' t e).2)
    (hst : R s t) :
    outputs out s es = outputs out' t es ∧ R (run (next out) s es) (run (next out') t es) := by
  induction es generalizing s t with
  | nil => exact ⟨rfl, hst⟩
  | cons e es ih =>
    obtain ⟨hout, hnext⟩ := hstep s t e hst h.1
    obtain ⟨houts, hrun⟩ := ih h.2 hnext
    refine ⟨?_, hrun⟩
    rw [outputs, outputs, hout]
    exact congrArg _ houts

/-- When every step keeps a relation, two systems have equal outputs over a run exactly if each
of its events is one they answer alike. -/
theorem outputs_eq_iff {s : σ} {t : τ} (es : List ε) (R : σ → τ → Prop)
    (hnext : ∀ s t e, R s t → R (out s e).2 (out' t e).2)
    (hout : ∀ s t e, R s t → ((out s e).1 = (out' t e).1 ↔ ok s e)) (hst : R s t) :
    outputs out s es = outputs out' t es ↔ Guarded (next out) ok s es := by
  induction es generalizing s t with
  | nil => simp [outputs, Guarded]
  | cons e es ih =>
    rw [outputs, outputs, List.cons.injEq, hout s t e hst, ih (hnext s t e hst), Guarded, next]

end Outputs

end Sgos.GuardedRun
