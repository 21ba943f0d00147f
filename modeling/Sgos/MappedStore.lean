import Mathlib.Data.Option.Basic
import Mathlib.Logic.Function.Basic
import Mathlib.Logic.Nontrivial.Defs
import Mathlib.Tactic.Common

/-!
# Stores through a map of addresses

The values of a run are stored one after another, each at the location that its address is mapped
to. Several addresses may have one location.
-/
namespace Sgos.MappedStore

variable {L V : Type*}

section Store
variable [DecidableEq L]

/-- A value is dropped where its address has no location. -/
def put (m : L → V) (x : Option L) (v : V) : L → V := x.elim m fun l => Function.update m l v

/-- The first `n` values, in order. -/
def store (loc : ℕ → Option L) (v : ℕ → V) : ℕ → (L → V) → L → V
  | 0, m => m
  | n + 1, m => put (store loc v n m) (loc n) (v n)

lemma put_some (m : L → V) (l : L) (v : V) : put m (some l) v = Function.update m l v := rfl

lemma put_of_ne (m : L → V) {x : Option L} {l : L} (v : V) (h : x ≠ some l) :
    put m x v l = m l := by
  cases x with
  | none => rfl
  | some l' => exact Function.update_of_ne (fun he => h (congrArg some he.symm)) v m

variable {loc : ℕ → Option L} {v : ℕ → V}

lemma store_congr {v' : ℕ → V} {n : ℕ} {m : L → V} (h : ∀ i < n, v i = v' i) :
    store loc v n m = store loc v' n m := by
  induction n with
  | zero => rfl
  | succ n ih =>
    unfold store
    rw [ih fun i hi => h i (by omega), h n (by omega)]

/-- Two runs one behind the other are one run. -/
lemma store_add (a b : ℕ) (m : L → V) :
    store loc v (a + b) m =
      store (fun i => loc (a + i)) (fun i => v (a + i)) b (store loc v a m) := by
  induction b with
  | zero => rfl
  | succ b ih =>
    unfold store
    rw [← ih]
    rfl

/-- A location holds what it held before, or one of the values that go there. -/
lemma store_cases (loc : ℕ → Option L) (v : ℕ → V) (n : ℕ) (m : L → V) (l : L) :
    ((∀ i < n, loc i ≠ some l) ∧ store loc v n m l = m l) ∨
      ∃ i < n, loc i = some l ∧ store loc v n m l = v i := by
  induction n with
  | zero => exact .inl ⟨fun i hi => by omega, rfl⟩
  | succ n ih =>
    by_cases hlast : loc n = some l
    · refine .inr ⟨n, by omega, hlast, ?_⟩
      rw [store, hlast, put_some, Function.update_self]
    · have hkeep : store loc v (n + 1) m l = store loc v n m l := put_of_ne _ _ hlast
      rw [hkeep]
      rcases ih with ⟨hnone, he⟩ | ⟨i, hi, hloc, he⟩
      · refine .inl ⟨fun i hi => ?_, he⟩
        by_cases hin : i = n
        · rwa [hin]
        · exact hnone i (by omega)
      · exact .inr ⟨i, by omega, hloc, he⟩

/-- Every value reaches its destination, whatever the values are, exactly if it goes there and no
two values go to one location. -/
theorem received_iff [Nontrivial V] (loc dest : ℕ → Option L) (n : ℕ) :
    (∀ (m : L → V) (v : ℕ → V), ∀ i < n, ∃ l, dest i = some l ∧ store loc v n m l = v i) ↔
      (∀ i < n, ∃ l, dest i = some l ∧ loc i = some l) ∧
        ∀ i < n, ∀ j < n, loc i = loc j → i = j := by
  obtain ⟨a, b, hab⟩ := exists_pair_ne V
  constructor
  · intro h
    -- one value differs from all others and from what was there
    have hown : ∀ i < n, ∃ l, dest i = some l ∧ loc i = some l := by
      intro i hi
      obtain ⟨l, hdest, he⟩ := h (fun _ => a) (Function.update (fun _ => a) i b) i hi
      rw [Function.update_self] at he
      refine ⟨l, hdest, ?_⟩
      rcases store_cases loc (Function.update (fun _ => a) i b) n (fun _ => a) l with
        ⟨-, hm⟩ | ⟨j, -, hloc, hv⟩
      · exact absurd (hm.symm.trans he) hab
      · by_cases hji : j = i
        · rwa [← hji]
        · rw [Function.update_of_ne hji] at hv
          exact absurd (hv.symm.trans he) hab
    refine ⟨hown, fun i hi j hj hij => ?_⟩
    by_contra hne
    obtain ⟨l, hl, hloc⟩ := hown i hi
    obtain ⟨l', hl', hloc'⟩ := hown j hj
    have hll : l = l' := Option.some.inj (hloc.symm.trans (hij.trans hloc'))
    obtain ⟨x, hx, hxi⟩ := h (fun _ => a) (Function.update (fun _ => a) i b) i hi
    obtain ⟨y, hy, hyj⟩ := h (fun _ => a) (Function.update (fun _ => a) i b) j hj
    have hxy : x = y := Option.some.inj (hx.symm.trans (hl.trans (hll ▸ hl'.symm.trans hy)))
    rw [hxy, hyj, Function.update_self, Function.update_of_ne (Ne.symm hne)] at hxi
    exact hab hxi
  · rintro ⟨hown, hinj⟩ m v i hi
    obtain ⟨l, hdest, hloc⟩ := hown i hi
    refine ⟨l, hdest, ?_⟩
    rcases store_cases loc v n m l with ⟨hnone, -⟩ | ⟨j, hj, hlocj, he⟩
    · exact absurd hloc (hnone i hi)
    · rw [he, hinj i hi j hj (hloc.trans hlocj.symm)]

end Store

/-- A location is read, whatever the memory holds, exactly if it is the one to be read. -/
theorem taken_iff [Nontrivial V] (x : Option L) (l : L) (d : V) :
    (∀ m : L → V, x.elim d m = m l) ↔ x = some l := by
  classical
  obtain ⟨a, b, hab⟩ := exists_pair_ne V
  constructor
  · intro h
    cases x with
    | none =>
      have ha := h fun _ => a
      have hb := h fun _ => b
      exact absurd (ha.symm.trans hb) hab
    | some l' =>
      by_contra hne
      have hl := h (Function.update (fun _ => a) l b)
      have hl' : l' ≠ l := fun he => hne (congrArg some he)
      rw [Option.elim_some, Function.update_of_ne hl', Function.update_self] at hl
      exact hab hl
  · rintro rfl m
    rfl

end Sgos.MappedStore
