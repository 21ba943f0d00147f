import Mathlib.Logic.Function.Basic
import Mathlib.Tactic.SplitIfs

/-!
# Slots that share frames

A view gives for each slot the frame it maps and whether it may be written. It is isolated when no
frame is mapped by two slots of which one may be written, so that a write through one slot changes
no frame that another one maps.
-/
namespace Sgos.SharedSlots
variable {ι φ α : Type*}

/-- Two slots may hold these values at the same time. -/
def Compatible (o o' : Option (φ × Bool)) : Prop :=
  ∀ f a b, o = some (f, a) → o' = some (f, b) → a = false ∧ b = false

/-- Slots share a frame only if neither may be written. -/
def Isolated (v : ι → Option (φ × Bool)) : Prop := ∀ x y, x ≠ y → Compatible (v x) (v y)

lemma Compatible.symm {o o' : Option (φ × Bool)} (h : Compatible o o') : Compatible o' o :=
  fun f a b ha hb => (h f b a hb ha).symm

lemma compatible_none (o : Option (φ × Bool)) : Compatible none o := fun _ _ _ h => by cases h

/-- Read-only slots may share any frame. -/
lemma compatible_readOnly (f g : φ) : Compatible (some (f, false)) (some (g, false)) := by
  intro x a b ha hb
  rw [← (Prod.mk.inj (Option.some.inj ha)).2, ← (Prod.mk.inj (Option.some.inj hb)).2]
  exact ⟨rfl, rfl⟩

/-- A frame that a slot does not map goes with it. -/
lemma compatible_of_unused {f : φ} {w : Bool} {o : Option (φ × Bool)}
    (h : ∀ b, o ≠ some (f, b)) : Compatible (some (f, w)) o := by
  intro x a b ha hb
  rw [← (Prod.mk.inj (Option.some.inj ha)).1] at hb
  exact absurd hb (h b)

variable {v : ι → Option (φ × Bool)} {x y : ι} {o o' : Option (φ × Bool)}

section Updates
variable [DecidableEq ι]

/-- One slot gets a value that goes with all others. -/
theorem Isolated.update (h : Isolated v) (ho : ∀ z, z ≠ x → Compatible o (v z)) :
    Isolated (Function.update v x o) := by
  intro y z hyz
  rw [Function.update_apply, Function.update_apply]
  split_ifs with hy hz hz
  · exact absurd (hy.trans hz.symm) hyz
  · exact ho z hz
  · exact (ho y hy).symm
  · exact h y z hyz

/-- Two slots get values that go with each other and with all others; the state in between need not
be isolated. -/
theorem Isolated.exchange (h : Isolated v) (ho : ∀ z, z ≠ x → z ≠ y → Compatible o (v z))
    (ho' : ∀ z, z ≠ x → z ≠ y → Compatible o' (v z)) (hoo' : x ≠ y → Compatible o o') :
    Isolated (Function.update (Function.update v x o) y o') := by
  have hother : ∀ z, z ≠ y → Compatible o' (Function.update v x o z) := by
    intro z hz
    rw [Function.update_apply]
    split_ifs with hx
    · exact (hoo' (hx ▸ hz)).symm
    · exact ho' z hx hz
  intro a b hab
  rw [Function.update_apply, Function.update_apply (Function.update v x o)]
  split_ifs with ha hb hb
  · exact absurd (ha.trans hb.symm) hab
  · exact hother b hb
  · exact (hother a ha).symm
  · rw [Function.update_apply, Function.update_apply]
    split_ifs with ha' hb' hb'
    · exact absurd (ha'.trans hb'.symm) hab
    · exact ho b hb' hb
    · exact (ho a ha' ha).symm
    · exact h a b hab

/-- A slot shares its frame with another one, which loses what it held; both become read-only. -/
theorem Isolated.share (h : Isolated v) {f : φ} {w : Bool} (hx : v x = some (f, w)) :
    Isolated (Function.update (Function.update v y (some (f, false))) x (some (f, false))) := by
  have hgo : ∀ z, z ≠ x → Compatible (some (f, false)) (v z) := by
    intro z hz g a b ha hb
    obtain ⟨rfl, rfl⟩ := Prod.mk.inj (Option.some.inj ha)
    exact ⟨rfl, (h x z hz.symm f w b hx hb).2⟩
  exact h.exchange (fun z _ hz => hgo z hz) (fun z _ hz => hgo z hz)
    fun _ => compatible_readOnly f f

end Updates

/-- What is read through a slot. -/
def contents (m : φ → α) (o : Option (φ × Bool)) : Option α := o.map fun p => m p.1

end Sgos.SharedSlots
