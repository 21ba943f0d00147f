import Sgos.GuardedRun
import Sgos.UserPages

/-!
# The search for a free frame

A search goes once round the counted frames, beginning at `page_it`, which may point one past the
last frame. It finds the first free frame in this order, and none only if there is none.
-/
namespace Sgos.Paging
open GuardedRun

/-- The first `bitmap_size` counters are cleared. -/
def mmInitializePhysicalMemoryManagement (s : State) (bitmapSize memSize : UInt32) : State :=
  { s with
    pageRef := fun f => if f.val < bitmapSize.toNat then 0 else s.pageRef f
    totalPages := memSize.toNat / 4096
    pageIt := pageFront }

namespace FrameSearch

/-- Calls after the initialisation. Any address may be freed. -/
inductive Event
  | get
  | free (addr : UInt32)

def step (s : State) : Event → State
  | .get => (mmGetPhysicalPage s).2
  | .free addr => mmFreePhysicalPage s (frameOf addr)

/-- The word that `MmGetPhysicalPage` returns. -/
def returned : Option Frame → UInt32
  | none => 0
  | some f => addrOf f

/-- The place of a frame in the cyclic order that begins at `page_it`. -/
def turn (s : State) (f : Frame) : ℕ :=
  if s.pageIt ≤ f.val then f.val - s.pageIt
  else s.totalPages - s.pageIt + (f.val - pageFront)

/-- The bounds of `page_it`. -/
structure Cursor (s : State) : Prop where
  front : pageFront ≤ s.pageIt
  last : s.pageIt ≤ max pageFront s.totalPages

/-- What a search that returns `addr` and leaves `s'` has done. -/
structure Searched (s : State) (addr : UInt32) (s' : State) : Prop where
  zero_iff : addr = 0 ↔ ∀ f, s.Managed f → s.pageRef f ≠ 0
  first : addr ≠ 0 → ∃ f, s.Managed f ∧ s.pageRef f = 0 ∧ addr = addrOf f ∧
    (∀ g, s.Managed g → s.pageRef g = 0 → turn s f ≤ turn s g) ∧
    s'.pageRef = Function.update s.pageRef f 1
  unchanged : addr = 0 → s'.pageRef = s.pageRef

/-! ## One search -/

lemma searchFree_first {pageRef : Frame → UInt8} {n i : ℕ} {f : Frame}
    (h : searchFree pageRef n i = some f) :
    ∀ g : Frame, i ≤ g.val → g.val < f.val → pageRef g ≠ 0 := by
  induction n generalizing i with
  | zero => cases h
  | succ n ih =>
    intro g hle hlt
    rw [searchFree] at h
    split_ifs at h with hi hfree
    · obtain rfl := Option.some.inj h
      exact absurd hlt (Nat.not_lt.mpr hle)
    · by_cases hg : g.val = i
      · obtain rfl : g = ⟨i, hi⟩ := Fin.ext hg
        exact hfree
      · exact ih h g (by omega) hlt

lemma address_ne_zero {s : State} {f : Frame} (hf : s.Managed f) : addrOf f ≠ 0 := by
  intro h0
  have hframe : frameOf (addrOf f) = frameOf 0 := congrArg frameOf h0
  rw [frameOf_addrOf] at hframe
  have hlow : pageFront ≤ f.val := hf.1
  rw [hframe] at hlow
  exact absurd hlow (by decide)

section Search
variable {s s' : State} {f : Frame}

/-- A frame that is found is free, and no free frame comes before it. -/
lemma get_some (hs : Cursor s) (h : mmGetPhysicalPage s = (some f, s')) :
    s.Managed f ∧ s.pageRef f = 0 ∧
      (∀ g, s.Managed g → s.pageRef g = 0 → turn s f ≤ turn s g) ∧
      s' = { s with pageRef := Function.update s.pageRef f 1, pageIt := f.val + 1 } := by
  have hit : max s.pageIt pageFront = s.pageIt := max_eq_left hs.front
  have hfront := hs.front
  have hset : ∀ g : Frame, s.pageRef g = 0 →
      { s.setRef g (s.pageRef g + 1) with pageIt := g.val + 1 } =
        { s with pageRef := Function.update s.pageRef g 1, pageIt := g.val + 1 } := fun g hg => by
    rw [hg]
    rfl
  rw [mmGetPhysicalPage] at h
  split_ifs at h with hfull
  · cases congrArg Prod.fst h
  dsimp only at h
  rw [hit] at h
  cases hfirst : searchFree s.pageRef (s.totalPages - s.pageIt) s.pageIt with
  | some g =>
    rw [hfirst] at h
    obtain ⟨hz, hle, hlt⟩ := searchFree_spec hfirst
    obtain ⟨rfl, rfl⟩ := Prod.mk.inj h |>.imp Option.some.inj id
    refine ⟨⟨by omega, by omega⟩, hz, fun k hk hfree => ?_, hset g hz⟩
    -- a free frame from the cursor on cannot come before the first
    have hbefore : s.pageIt ≤ k.val → g.val ≤ k.val := fun hk' =>
      Nat.le_of_not_lt fun hlt' => searchFree_first hfirst k hk' hlt' hfree
    unfold turn
    split_ifs <;> omega
  | none =>
    rw [hfirst] at h
    have hrest := searchFree_none hfirst
    cases hsecond : searchFree s.pageRef (s.pageIt - pageFront) pageFront with
    | some g =>
      rw [hsecond] at h
      obtain ⟨hz, hle, hlt⟩ := searchFree_spec hsecond
      obtain ⟨rfl, rfl⟩ := Prod.mk.inj h |>.imp Option.some.inj id
      have hlast := hs.last
      refine ⟨⟨hle, by omega⟩, hz, fun k hk hfree => ?_, hset g hz⟩
      -- the frames from the cursor on are all in use
      have hwrap : k.val < s.pageIt := Nat.lt_of_not_le fun hk' =>
        hrest k hk' (by have := hk.2; omega) hfree
      have hbefore : g.val ≤ k.val :=
        Nat.le_of_not_lt fun hlt' => searchFree_first hsecond k hk.1 hlt' hfree
      unfold turn
      split_ifs <;> omega
    | none =>
      rw [hsecond] at h
      cases congrArg Prod.fst h

/-- No frame is found only if none is free. -/
lemma get_none (hs : Cursor s) (h : mmGetPhysicalPage s = (none, s')) :
    NoFrame s ∧ s' = s := by
  have hit : max s.pageIt pageFront = s.pageIt := max_eq_left hs.front
  rw [mmGetPhysicalPage] at h
  split_ifs at h with hfull
  · obtain rfl := congrArg Prod.snd h
    refine ⟨fun g hg => ?_, rfl⟩
    obtain ⟨hlow, hhigh⟩ := hg
    omega
  dsimp only at h
  rw [hit] at h
  cases hfirst : searchFree s.pageRef (s.totalPages - s.pageIt) s.pageIt with
  | some g =>
    rw [hfirst] at h
    cases congrArg Prod.fst h
  | none =>
    rw [hfirst] at h
    cases hsecond : searchFree s.pageRef (s.pageIt - pageFront) pageFront with
    | some g =>
      rw [hsecond] at h
      cases congrArg Prod.fst h
    | none =>
      rw [hsecond] at h
      obtain rfl := congrArg Prod.snd h
      refine ⟨fun g hg => ?_, rfl⟩
      obtain ⟨hlow, hhigh⟩ := hg
      by_cases hle : s.pageIt ≤ g.val
      · exact searchFree_none hfirst g hle (by omega)
      · exact searchFree_none hsecond g hlow (by omega)

lemma searched (hs : Cursor s) :
    Searched s (returned (mmGetPhysicalPage s).1) (mmGetPhysicalPage s).2 := by
  rcases hget : mmGetPhysicalPage s with ⟨r, s'⟩
  cases r with
  | none =>
    obtain ⟨hno, rfl⟩ := get_none hs hget
    exact ⟨⟨fun _ => hno, fun _ => rfl⟩, fun h => absurd rfl h, fun _ => rfl⟩
  | some f =>
    obtain ⟨hm, hfree, hfirst, rfl⟩ := get_some hs hget
    have hne : addrOf f ≠ 0 := address_ne_zero hm
    exact ⟨⟨fun h => absurd h hne, fun hno => absurd hfree (hno f hm)⟩,
      fun _ => ⟨f, hm, hfree, rfl, hfirst, rfl⟩, fun h => absurd h hne⟩

/-! ## Runs -/

lemma free_cursor (hs : Cursor s) (g : Frame) : Cursor (mmFreePhysicalPage s g) := by
  unfold mmFreePhysicalPage
  split_ifs
  · exact ⟨hs.front, hs.last⟩
  · exact hs

lemma get_cursor (hs : Cursor s) : Cursor (mmGetPhysicalPage s).2 := by
  rcases hget : mmGetPhysicalPage s with ⟨r, s'⟩
  cases r with
  | none =>
    obtain ⟨-, rfl⟩ := get_none hs hget
    exact hs
  | some f =>
    obtain ⟨hm, -, -, rfl⟩ := get_some hs hget
    exact ⟨Nat.le_succ_of_le hm.1, le_max_of_le_right hm.2⟩

lemma step_cursor (hs : Cursor s) (e : Event) : Cursor (step s e) := by
  cases e with
  | get => exact get_cursor hs
  | free addr => exact free_cursor hs _

/-- No call changes the number of frames. -/
lemma step_totalPages (hs : Cursor s) (e : Event) : (step s e).totalPages = s.totalPages := by
  cases e with
  | get =>
    rw [step]
    rcases hget : mmGetPhysicalPage s with ⟨r, s'⟩
    cases r with
    | none =>
      obtain ⟨-, rfl⟩ := get_none hs hget
      rfl
    | some f =>
      obtain ⟨-, -, -, rfl⟩ := get_some hs hget
      rfl
  | free addr =>
    rw [step, mmFreePhysicalPage]
    split_ifs <;> rfl

end Search

/-- After any calls `page_it` is in its bounds, and the next search finds the first free frame
unless there is none. -/
theorem searched_of_run (s : State) (bitmapSize memSize : UInt32) (es : List Event) :
    let r := run step (mmInitializePhysicalMemoryManagement s bitmapSize memSize) es
    r.totalPages = memSize.toNat / 4096 ∧
      pageFront ≤ r.pageIt ∧ r.pageIt ≤ max pageFront r.totalPages ∧
      Searched r (returned (mmGetPhysicalPage r).1) (mmGetPhysicalPage r).2 := by
  have hrun := run_invariant (fun r : State => r.totalPages = memSize.toNat / 4096 ∧ Cursor r)
    (fun r e h => ⟨(step_totalPages h.2 e).trans h.1, step_cursor h.2 e⟩)
    (s := mmInitializePhysicalMemoryManagement s bitmapSize memSize)
    ⟨rfl, le_rfl, le_max_left _ _⟩ es
  obtain ⟨htotal, hcursor⟩ := hrun
  exact ⟨htotal, hcursor.front, hcursor.last, searched hcursor⟩

end FrameSearch

end Sgos.Paging
