import Mathlib.Data.List.Basic

/-!
# What a fallible computation with a state gives

A computation of `StateT σ Option` gives a value with some property if it returns one from every
state, and fails if it returns from none. The two rules for sequences are those of a program logic
for total correctness.
-/
namespace Sgos.Outcome
variable {σ α β : Type} {x : StateT σ Option α} {f : α → StateT σ Option β} {P Q : α → Prop}
  {R : β → Prop}

/-- From every state the computation returns a value with the property. -/
def Gives (x : StateT σ Option α) (P : α → Prop) : Prop := ∀ s, ∃ a t, x s = some (a, t) ∧ P a

/-- It returns from no state. -/
def Fails (x : StateT σ Option α) : Prop := ∀ s, x s = none

/-- A value that may be missing. -/
def ofOption (x : Option α) : StateT σ Option α := fun s => x.map fun a => (a, s)

theorem bind_apply (x : StateT σ Option α) (f : α → StateT σ Option β) (s : σ) :
    (x >>= f) s = (x s).bind fun r => f r.1 r.2 := rfl

theorem gives_pure {a : α} (h : P a) : Gives (pure a : StateT σ Option α) P :=
  fun s => ⟨a, s, rfl, h⟩

theorem gives_ofOption {o : Option α} {a : α} (ho : o = some a) (h : P a) :
    Gives (ofOption o : StateT σ Option α) P := fun s => ⟨a, s, by rw [ofOption, ho]; rfl, h⟩

theorem fails_ofOption {o : Option α} (ho : o = none) : Fails (ofOption o : StateT σ Option α) := by
  intro s
  rw [ofOption, ho]
  rfl

theorem Gives.mono (h : Gives x P) (himp : ∀ a, P a → Q a) : Gives x Q := by
  intro s
  obtain ⟨a, t, ha, hP⟩ := h s
  exact ⟨a, t, ha, himp a hP⟩

/-- One computation after another. -/
theorem Gives.bind (h : Gives x P) (hf : ∀ a, P a → Gives (f a) R) : Gives (x >>= f) R := by
  intro s
  obtain ⟨a, t, ha, hP⟩ := h s
  obtain ⟨b, u, hb, hR⟩ := hf a hP t
  refine ⟨b, u, ?_, hR⟩
  rw [bind_apply, ha, Option.bind_some]
  exact hb

theorem Fails.bind (h : Fails x) : Fails (x >>= f) := by
  intro s
  rw [bind_apply, h s, Option.bind_none]

theorem bind_fails (hf : ∀ a, Fails (f a)) : Fails (x >>= f) := by
  intro s
  rw [bind_apply]
  cases x s with
  | none => rfl
  | some r => exact hf r.1 r.2

theorem Gives.bind_fails (h : Gives x P) (hf : ∀ a, P a → Fails (f a)) : Fails (x >>= f) := by
  intro s
  obtain ⟨a, t, ha, hP⟩ := h s
  rw [bind_apply, ha, Option.bind_some]
  exact hf a hP t

/-- A computation has one value from a state. -/
theorem Gives.and (h : Gives x P) (h' : Gives x Q) : Gives x fun a => P a ∧ Q a := by
  intro s
  obtain ⟨a, t, ha, hP⟩ := h s
  obtain ⟨a', t', ha', hQ⟩ := h' s
  rw [ha] at ha'
  cases ha'
  exact ⟨a, t, ha, hP, hQ⟩

theorem Gives.exists [Inhabited σ] (h : Gives x P) : ∃ a, P a := by
  obtain ⟨a, -, -, hP⟩ := h default
  exact ⟨a, hP⟩

theorem Fails.not_gives [Inhabited σ] (h : Fails x) : ¬Gives x P := by
  intro hg
  obtain ⟨a, t, ha, -⟩ := hg default
  rw [h default] at ha
  cases ha

end Sgos.Outcome
