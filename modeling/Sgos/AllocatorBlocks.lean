import Mathlib.Data.List.Chain
import Sgos.Allocator
import Sgos.Tiling

/-!
# Blocks and buckets

What the allocator's helpers do to the tiling of the arena and to the buckets of free blocks.
-/
namespace Sgos.Allocator
open LinkedChain Tiling

lemma calcHashIndex_lt (v : Variant) (k : UInt32) :
    calcHashIndex v.maxHashEntry k < v.maxHashEntry := by
  have htwo := v.two_le
  rw [calcHashIndex_eq_log]
  omega

/-! ## Fields -/

lemma isFreeNode_makeFree (s : Heap) (nod x : Ptr) :
    isFreeNode (makeFree s nod) x = (decide (x = nod) || isFreeNode s x) := by
  by_cases hx : x = nod
  · subst hx
    have hbit : (s.nodeAttribute x ||| FREE_NODE) &&& FREE_NODE = FREE_NODE := by
      refine UInt32.toBitVec_inj.mp (BitVec.eq_of_getLsbD_eq fun i hi => ?_)
      simp only [UInt32.toBitVec_and, UInt32.toBitVec_or, BitVec.getLsbD_and, BitVec.getLsbD_or]
      cases (s.nodeAttribute x).toBitVec.getLsbD i <;> simp
    simp only [isFreeNode, makeFree, Function.update_self, hbit]
    rfl
  · simp [isFreeNode, makeFree, hx]

lemma isFreeNode_makeOccupied (s : Heap) (nod x : Ptr) :
    isFreeNode (makeOccupied s nod) x = (!decide (x = nod) && isFreeNode s x) := by
  by_cases hx : x = nod
  · subst hx
    have hbit : s.nodeAttribute x &&& ~~~FREE_NODE &&& FREE_NODE = 0 := by
      rw [UInt32.and_assoc, UInt32.not_and_self, UInt32.and_zero]
    simp [isFreeNode, makeOccupied, hbit]
  · simp [isFreeNode, makeOccupied, hx]

/-- The descriptors agree in all that does not concern the buckets. -/
structure SameBlocks (s s' : Heap) : Prop where
  next : s'.next = s.next
  prev : s'.prev = s.prev
  firstNode : s'.firstNode = s.firstNode
  size : s'.size = s.size

lemma hashAppend_same (s : Heap) (x : Ptr) (k : ℕ) : SameBlocks s (hashAppend s x k) :=
  ⟨rfl, rfl, rfl, rfl⟩

lemma hashDelete_same (s : Heap) (x : Ptr) (k : ℕ) : SameBlocks s (hashDelete s x k) := by
  rw [hashDelete]
  constructor <;> split <;> split <;> rfl

lemma hashDelete_nodeAttribute (s : Heap) (x : Ptr) (k : ℕ) :
    (hashDelete s x k).nodeAttribute = s.nodeAttribute := by
  rw [hashDelete]
  split <;> split <;> rfl

/-- A deletion from a bucket, as the two link maps see it. -/
lemma hashDelete_links {s : Heap} {x : Ptr} (h : s.hashPrev x ≠ some x) (k : ℕ) :
    (hashDelete s x k).hashNext = unlinkNext s.hashNext s.hashPrev x ∧
      (hashDelete s x k).hashPrev = unlinkPrev s.hashNext s.hashPrev x ∧
      (hashDelete s x k).freeTable =
        Function.update s.freeTable k (unlinkEnd s.hashPrev s.hashNext x (s.freeTable k)) := by
  rw [hashDelete]
  cases hp : s.hashPrev x with
  | none =>
    simp only [unlinkNext, unlinkPrev, unlinkEnd, hp]
    cases s.hashNext x <;> exact ⟨rfl, rfl, rfl⟩
  | some p =>
    have hne : x ≠ p := fun he => h (hp.trans (congrArg some he.symm))
    simp only [unlinkNext, unlinkPrev, unlinkEnd, hp, Function.update_of_ne hne,
      Function.update_eq_self]
    cases s.hashNext x <;> exact ⟨rfl, rfl, rfl⟩

/-! ## Buckets -/

def hashIndex (v : Variant) (s : Heap) (x : Ptr) : ℕ :=
  calcHashIndex v.maxHashEntry (s.size x + SIZEOF_NODE)

/-- The nodes of `B` are in the buckets of their sizes, and no other nodes are. -/
structure Binned (v : Variant) (s : Heap) (buckets : ℕ → List Ptr) (B : Ptr → Prop) : Prop where
  chain : ∀ j < v.maxHashEntry, Chain s.hashNext s.hashPrev (s.freeTable j) (buckets j)
  mem : ∀ j < v.maxHashEntry, ∀ x, x ∈ buckets j ↔ B x ∧ hashIndex v s x = j

section Binned
variable {v : Variant} {s s' : Heap} {buckets : ℕ → List Ptr} {B B' : Ptr → Prop} {x : Ptr}

lemma Binned.congr (h : Binned v s buckets B) (hn : s'.hashNext = s.hashNext)
    (hp : s'.hashPrev = s.hashPrev) (ht : s'.freeTable = s.freeTable)
    (hsize : ∀ x, B x → s'.size x = s.size x) (hB : ∀ x, B' x ↔ B x) :
    Binned v s' buckets B' where
  chain j hj := by
    rw [hn, hp, ht]
    exact h.chain j hj
  mem j hj x := by
    rw [h.mem j hj, hB]
    refine and_congr_right fun hx => ?_
    rw [hashIndex, hashIndex, hsize x hx]

lemma Binned.delete (h : Binned v s buckets B) (hx : B x) :
    ∃ buckets', Binned v (hashDelete s x (hashIndex v s x)) buckets' fun y => B y ∧ y ≠ x := by
  have hk := calcHashIndex_lt v (s.size x + SIZEOF_NODE)
  rw [← hashIndex] at hk
  have hmem := (h.mem _ hk x).mpr ⟨hx, rfl⟩
  have hself : s.hashPrev x ≠ some x := fun he => (h.chain _ hk).prev_ne hmem he rfl
  obtain ⟨hnext, hprev, htable⟩ := hashDelete_links hself (hashIndex v s x)
  have hsize := (hashDelete_same s x (hashIndex v s x)).size
  generalize hashDelete s x (hashIndex v s x) = s1 at *
  have hindex : hashIndex v s1 = hashIndex v s := by
    funext y
    rw [hashIndex, hashIndex, hsize]
  refine ⟨Function.update buckets (hashIndex v s x) ((buckets (hashIndex v s x)).erase x), ?_, ?_⟩
  · intro j hj
    rw [hnext, hprev, htable]
    by_cases hjk : j = hashIndex v s x
    · rw [hjk, Function.update_self, Function.update_self]
      exact (h.chain _ hk).unlink hmem
    · rw [Function.update_of_ne hjk, Function.update_of_ne hjk]
      have hother : ∀ y ∈ buckets j, y ∉ buckets (hashIndex v s x) := fun y hy hyk =>
        hjk (((h.mem j hj y).mp hy).2.symm.trans ((h.mem _ hk y).mp hyk).2)
      exact (h.chain j hj).congr
        (fun y hy => (h.chain _ hk).unlinkNext_of_not_mem hmem (hother y hy))
        (fun y hy => (h.chain _ hk).unlinkPrev_of_not_mem hmem (hother y hy))
  · intro j hj y
    rw [hindex]
    by_cases hjk : j = hashIndex v s x
    · subst hjk
      rw [Function.update_self, (h.chain _ hk).nodup.mem_erase_iff, h.mem _ hk]
      tauto
    · rw [Function.update_of_ne hjk, h.mem j hj]
      constructor
      · rintro ⟨hy, hyj⟩
        exact ⟨⟨hy, fun he => hjk (by rw [← hyj, he])⟩, hyj⟩
      · rintro ⟨⟨hy, -⟩, hyj⟩
        exact ⟨hy, hyj⟩

lemma Binned.append (h : Binned v s buckets B) (hx : ¬ B x) :
    ∃ buckets', Binned v (hashAppend s x (hashIndex v s x)) buckets' fun y => B y ∨ y = x := by
  have hk := calcHashIndex_lt v (s.size x + SIZEOF_NODE)
  rw [← hashIndex] at hk
  have hnot : ∀ j < v.maxHashEntry, x ∉ buckets j := fun j hj hm => hx ((h.mem j hj x).mp hm).1
  have hnext : (hashAppend s x (hashIndex v s x)).hashNext =
      linkNext s.hashNext none x (s.freeTable (hashIndex v s x)) := rfl
  have hprev : (hashAppend s x (hashIndex v s x)).hashPrev =
      linkPrev s.hashPrev none x (s.freeTable (hashIndex v s x)) := by
    rw [hashAppend]
    cases s.freeTable (hashIndex v s x) <;> rfl
  have htable : (hashAppend s x (hashIndex v s x)).freeTable =
      Function.update s.freeTable (hashIndex v s x) (some x) := rfl
  have hsize := (hashAppend_same s x (hashIndex v s x)).size
  generalize hashAppend s x (hashIndex v s x) = s1 at *
  have hindex : hashIndex v s1 = hashIndex v s := by
    funext y
    rw [hashIndex, hashIndex, hsize]
  have hchain := h.chain _ hk
  have hhead := hchain.head_eq
  refine ⟨Function.update buckets (hashIndex v s x) (x :: buckets (hashIndex v s x)), ?_, ?_⟩
  · intro j hj
    rw [hnext, hprev, htable]
    by_cases hjk : j = hashIndex v s x
    · rw [hjk, Function.update_self, Function.update_self, hhead]
      exact hchain.link_head (hnot _ hk)
    · rw [Function.update_of_ne hjk, Function.update_of_ne hjk]
      refine (h.chain j hj).congr (fun y hy => ?_) (fun y hy => ?_)
      · exact linkNext_of_ne (fun he => hnot j hj (he ▸ hy)) (by simp)
      · refine linkPrev_of_ne (fun he => hnot j hj (he ▸ hy)) fun he => ?_
        have hyk := List.mem_of_head? (hhead.symm.trans he)
        exact hjk (((h.mem j hj y).mp hy).2.symm.trans ((h.mem _ hk y).mp hyk).2)
  · intro j hj y
    rw [hindex]
    by_cases hjk : j = hashIndex v s x
    · subst hjk
      rw [Function.update_self, List.mem_cons, h.mem _ hk]
      constructor
      · rintro (rfl | ⟨hy, hyj⟩)
        · exact ⟨.inr rfl, rfl⟩
        · exact ⟨.inl hy, hyj⟩
      · rintro ⟨hy | rfl, hyj⟩
        · exact .inr ⟨hy, hyj⟩
        · exact .inl rfl
    · rw [Function.update_of_ne hjk, h.mem j hj]
      constructor
      · rintro ⟨hy, hyj⟩
        exact ⟨.inl hy, hyj⟩
      · rintro ⟨hy | rfl, hyj⟩
        · exact ⟨hy, hyj⟩
        · exact absurd hyj.symm hjk

end Binned

/-! ## The arena -/

/-- An arena inside the address space whose size maps to the last bucket. -/
structure Arena (v : Variant) where
  base : Ptr
  size : UInt32
  base_ne : base ≠ 0
  end_le : base.toNat + size.toNat ≤ addressSpace
  last : calcHashIndex v.maxHashEntry size = v.maxHashEntry - 1

lemma Arena.le_size {v : Variant} (a : Arena v) : 64 ≤ a.size.toNat := by
  have htwo := v.two_le
  have hlast := a.last
  rw [calcHashIndex_eq_log] at hlast
  have hlog : 1 ≤ Nat.log 2 (a.size.toNat / 32) := by omega
  have hpow := (Nat.le_log_iff_pow_le Nat.one_lt_two (fun h0 => by simp [h0] at hlog)).mp hlog
  omega

/-- The bytes of a block, its descriptor included. -/
def span (s : Heap) (x : Ptr) : ℕ := SIZEOF_NODE.toNat + (s.size x).toNat

/-- The linked descriptors tile the arena in the order of their addresses. -/
structure Layout {v : Variant} (a : Arena v) (s : Heap) (nodes : List Ptr) : Prop where
  chain : Chain s.next s.prev s.firstNode nodes
  tiles : Tiles UInt32.toNat (span s) a.base.toNat nodes (a.base.toNat + a.size.toNat)

section Layout
variable {v : Variant} {a : Arena v} {s s' : Heap} {nodes pre post : List Ptr} {x y : Ptr}

lemma Layout.congr (h : Layout a s nodes) (hs : SameBlocks s s') : Layout a s' nodes where
  chain := by
    rw [hs.next, hs.prev, hs.firstNode]
    exact h.chain
  tiles := h.tiles.congr fun x _ => by rw [span, span, hs.size]

lemma Layout.bounds (h : Layout a s nodes) (hx : x ∈ nodes) :
    a.base.toNat ≤ x.toNat ∧
      x.toNat + SIZEOF_NODE.toNat + (s.size x).toNat ≤ a.base.toNat + a.size.toNat ∧
      x.toNat + SIZEOF_NODE.toNat + (s.size x).toNat ≤ addressSpace := by
  obtain ⟨hlow, hhigh⟩ := h.tiles.bounds hx
  have hend := a.end_le
  simp only [span] at hhigh
  exact ⟨hlow, by omega, by omega⟩

lemma Layout.pos (h : Layout a s nodes) (hx : x ∈ nodes) : 0 < x.toNat := by
  have hlow := (h.bounds hx).1
  have hbase : a.base.toNat ≠ 0 := fun h0 => a.base_ne (UInt32.toNat_inj.mp h0)
  omega

/-- The block behind takes part in the size, which does not wrap. -/
lemma Layout.merged_size (h : Layout a s (pre ++ x :: y :: post)) :
    (s.size x + (s.size y + SIZEOF_NODE)).toNat = (s.size x).toNat + span s y := by
  obtain ⟨m, -, hx, hy, hpost⟩ := (tiles_append pre (x :: y :: post)).mp h.tiles
  have hle := hpost.le
  have hend := a.end_le
  have hsizeof : SIZEOF_NODE.toNat = 24 := rfl
  simp only [span] at hy hle ⊢
  have hsum : (s.size y + SIZEOF_NODE).toNat = (s.size y).toNat + SIZEOF_NODE.toNat :=
    toNat_add_of_lt (by omega)
  rw [toNat_add_of_lt (by omega), hsum]
  omega

lemma Layout.merge (h : Layout a s (pre ++ x :: y :: post))
    (hnext : s'.next = Function.update s.next x (s.next y))
    (hprev : s'.prev = match s.next y with
      | some n => Function.update s.prev n (some x)
      | none => s.prev)
    (hfirst : s'.firstNode = s.firstNode)
    (hsize : s'.size = Function.update s.size x (s.size x + (s.size y + SIZEOF_NODE))) :
    Layout a s' (pre ++ x :: post) := by
  have hnd := h.chain.nodup
  have hsplit : pre ++ x :: y :: post = (pre ++ [x]) ++ y :: post := by simp
  have hpy : s.prev y = some x := by
    have hprev := (hsplit ▸ h.chain).prev_eq
    simpa using hprev
  constructor
  · have hchain := h.chain.unlink (x := y) (by simp)
    have hy : y ∉ pre ++ [x] := fun hm =>
      (List.nodup_append'.mp (hsplit ▸ hnd)).2.2 hm List.mem_cons_self
    rw [hsplit, List.erase_append_right _ hy, List.erase_cons_head, unlinkNext, unlinkPrev,
      unlinkEnd, hpy] at hchain
    rw [hnext, hprev, hfirst]
    cases hn : s.next y <;> simpa [hn] using hchain
  · refine h.tiles.merge (fun z hz => ?_) ?_
    · have hne : z ≠ x := by
        rintro rfl
        rw [List.nodup_middle, List.nodup_cons] at hnd
        exact hnd.1 (by
          rcases List.mem_append.mp hz with hz | hz
          · exact List.mem_append_left _ hz
          · exact List.mem_append_right _ (List.mem_cons_of_mem y hz))
      rw [span, span, hsize, Function.update_of_ne hne]
    · rw [span, span, hsize, Function.update_self, h.merged_size, Nat.add_assoc]

/-- The descriptor of the new block lies inside the old block. -/
lemma Layout.split (h : Layout a s (pre ++ x :: post)) {siz : UInt32}
    (hsiz : siz.toNat + 32 ≤ (s.size x).toNat) (hy : y = x + (siz + SIZEOF_NODE))
    (hnext : s'.next = Function.update (Function.update s.next y (s.next x)) x (some y))
    (hprev : s'.prev = Function.update (match s.next x with
      | some n => Function.update s.prev n (some y)
      | none => s.prev) y (some x))
    (hfirst : s'.firstNode = s.firstNode)
    (hsize : s'.size =
      Function.update (Function.update s.size y (s.size x - siz - SIZEOF_NODE)) x siz) :
    y ∉ pre ++ x :: post ∧ Layout a s' (pre ++ x :: y :: post) := by
  have hmem : x ∈ pre ++ x :: post := by simp
  obtain ⟨hlow, -, hend⟩ := h.bounds hmem
  have hsizeof : SIZEOF_NODE.toNat = 24 := rfl
  have hm : (siz + SIZEOF_NODE).toNat = siz.toNat + SIZEOF_NODE.toNat :=
    toNat_add_of_lt (by omega)
  have hpos : y.toNat = x.toNat + SIZEOF_NODE.toNat + siz.toNat := by
    rw [hy, toNat_add_of_lt (by omega), hm]
    omega
  have hyx : y ≠ x := fun he => by
    rw [he] at hpos
    omega
  have hynot : y ∉ pre ++ x :: post := fun hym => by
    have happart := h.tiles.apart hmem hym hyx
    simp only [span] at happart
    omega
  have hrest : (s.size x - siz - SIZEOF_NODE).toNat =
      (s.size x).toNat - siz.toNat - SIZEOF_NODE.toNat := by
    have hsub : (s.size x - siz).toNat = (s.size x).toNat - siz.toNat :=
      toNat_sub_of_le (by omega)
    rw [toNat_sub_of_le (by omega), hsub]
  refine ⟨hynot, ?_, ?_⟩
  · have hsplit : Chain s.next s.prev s.firstNode ((pre ++ [x]) ++ post) := by
      simpa using h.chain
    have hchain := hsplit.link (show y ∉ (pre ++ [x]) ++ post by simpa using hynot)
    have hnx : s.next x = post.head? := h.chain.next_eq
    simp only [List.getLast?_append, List.getLast?_singleton, Option.some_or, ← hnx, linkEnd,
      List.append_assoc, List.singleton_append] at hchain
    have hlink : s'.prev = linkPrev s.prev (some x) y (s.next x) := by
      rw [hprev]
      cases hn : s.next x with
      | none => rfl
      | some n =>
        have hne : n ≠ y := by
          rintro rfl
          exact hynot (by simp [List.mem_of_head? (hnx.symm.trans hn)])
        exact Function.update_comm hne _ _ _
    rw [hnext, hlink, hfirst]
    exact hchain
  · refine h.tiles.split (fun z hz => ?_) ?_ ?_
    · have hnd := h.chain.nodup
      rw [List.nodup_middle, List.nodup_cons] at hnd
      have hzx : z ≠ x := fun he => hnd.1 (he ▸ hz)
      have hzy : z ≠ y := by
        rintro rfl
        exact hynot (by
          rcases List.mem_append.mp hz with hz | hz
          · exact List.mem_append_left _ hz
          · exact List.mem_append_right _ (List.mem_cons_of_mem x hz))
      rw [span, span, hsize, Function.update_of_ne hzx, Function.update_of_ne hzy]
    · rw [hpos, span, hsize, Function.update_self, Nat.add_assoc]
    · rw [span, span, span, hsize, Function.update_self, Function.update_of_ne hyx,
        Function.update_self, hrest]
      omega

end Layout

end Sgos.Allocator
