import Sgos.AllocatorBlocks

/-!
# The heap invariant

`Shape` is what holds of the heap between calls. While a block is being freed, it is free but in
no bucket, and its neighbours may be free: `Loose`. Allocation goes from `Shape` to `Shape` by
taking a block and splitting it; freeing goes through `Loose`, once for each merge.
-/
namespace Sgos.Allocator
open LinkedChain Tiling

/-- No two neighbours in address order are free. -/
def Quiet (s : Heap) (nodes : List Ptr) : Prop :=
  nodes.IsChain fun x y => ¬ (isFreeNode s x = true ∧ isFreeNode s y = true)

/-- The arena is tiled, and its occupied blocks are the live ones, each as long as requested. -/
structure Blocks {v : Variant} (a : Arena v) (s : Heap) (live : Ptr → Option UInt32)
    (nodes : List Ptr) : Prop extends Layout a s nodes where
  owned : ∀ x ∈ nodes, isFreeNode s x = false →
    ∃ n, live (x + SIZEOF_NODE) = some n ∧ 0 < n.toNat ∧ n.toNat ≤ (s.size x).toNat
  lived : ∀ p n, live p = some n → ∃ x ∈ nodes, isFreeNode s x = false ∧ p = x + SIZEOF_NODE

structure Shape {v : Variant} (a : Arena v) (s : Heap) (live : Ptr → Option UInt32)
    (nodes : List Ptr) (buckets : ℕ → List Ptr) : Prop extends Blocks a s live nodes where
  binned : Binned v s buckets fun x => x ∈ nodes ∧ isFreeNode s x = true
  quiet : Quiet s nodes

/-- The block `cur` is being freed. -/
structure Loose {v : Variant} (a : Arena v) (s : Heap) (live : Ptr → Option UInt32)
    (pre : List Ptr) (cur : Ptr) (post : List Ptr) (buckets : ℕ → List Ptr) : Prop
    extends Blocks a s live (pre ++ cur :: post) where
  free : isFreeNode s cur = true
  binned : Binned v s buckets fun x => x ∈ pre ++ post ∧ isFreeNode s x = true
  quietPre : Quiet s pre
  quietPost : Quiet s post

section Steps
variable {v : Variant} {a : Arena v} {s s' : Heap} {live : Ptr → Option UInt32}
  {nodes pre post : List Ptr} {buckets : ℕ → List Ptr} {x y cur : Ptr}

lemma Quiet.congr (h : Quiet s nodes)
    (hfree : ∀ x ∈ nodes, isFreeNode s' x = true → isFreeNode s x = true) : Quiet s' nodes :=
  List.IsChain.imp_of_mem_imp
    (fun x y hx hy hxy hfr => hxy ⟨hfree x hx hfr.1, hfree y hy hfr.2⟩) h

lemma isFreeNode_congr (h : s'.nodeAttribute = s.nodeAttribute) (x : Ptr) :
    isFreeNode s' x = isFreeNode s x := by
  rw [isFreeNode, isFreeNode, h]

/-- An occupied node is not a free one. -/
lemma ne_of_free (hx : isFreeNode s x = true) (hy : isFreeNode s y = false) : y ≠ x := by
  rintro rfl
  rw [hx] at hy
  cases hy

/-! ## Allocation -/

/-- A free block is taken out of its bucket and occupied. -/
lemma Shape.take (h : Shape a s live nodes buckets) (hx : x ∈ nodes)
    (hfree : isFreeNode s x = true) {n : UInt32} (hpos : 0 < n.toNat)
    (hn : n.toNat ≤ (s.size x).toNat) :
    ∃ buckets', Shape a (makeOccupied (hashDelete s x (hashIndex v s x)) x)
      (Function.update live (x + SIZEOF_NODE) (some n)) nodes buckets' := by
  obtain ⟨buckets', hb⟩ := h.binned.delete ⟨hx, hfree⟩
  have hsame := hashDelete_same s x (hashIndex v s x)
  have hattr := hashDelete_nodeAttribute s x (hashIndex v s x)
  generalize hashDelete s x (hashIndex v s x) = s1 at *
  have hocc : ∀ y, isFreeNode (makeOccupied s1 x) y = (!decide (y = x) && isFreeNode s y) := by
    intro y
    rw [isFreeNode_makeOccupied, isFreeNode_congr hattr]
  refine ⟨buckets', ⟨⟨h.toLayout.congr ⟨hsame.1, hsame.2, hsame.3, hsame.4⟩, fun y hy hyo => ?_,
    fun p m hp => ?_⟩, ?_, ?_⟩⟩
  · have hsize : (makeOccupied s1 x).size = s.size := hsame.size
    rw [hsize]
    by_cases hyx : y = x
    · exact ⟨n, by rw [hyx, Function.update_self], hpos, hyx ▸ hn⟩
    · rw [hocc, decide_eq_false hyx, Bool.not_false, Bool.true_and] at hyo
      rw [Function.update_of_ne fun he => hyx (UInt32.add_left_inj _ |>.mp he)]
      exact h.owned y hy hyo
  · by_cases hpx : p = x + SIZEOF_NODE
    · exact ⟨x, hx, by rw [hocc, decide_eq_true rfl]; rfl, hpx⟩
    · rw [Function.update_of_ne hpx] at hp
      obtain ⟨y, hy, hyo, rfl⟩ := h.lived p m hp
      exact ⟨y, hy, by rw [hocc, hyo, Bool.and_false], rfl⟩
  · refine hb.congr rfl rfl rfl (fun _ _ => rfl) fun y => ?_
    rw [hocc, Bool.and_eq_true, Bool.not_eq_true', decide_eq_false_iff_not]
    tauto
  · refine h.quiet.congr fun y _ hy => ?_
    rw [hocc, Bool.and_eq_true] at hy
    exact hy.2

/-- The fields after the links of `splitNode` are set, before the new block enters its bucket. -/
lemma splitNode_eq (v : Variant) (s : Heap) (x : Ptr) (siz m rest : UInt32) :
    ∃ s1 : Heap, splitNode v s x siz m rest =
        makeFree (hashAppend s1 (x + m) (calcHashIndex v.maxHashEntry rest)) (x + m) ∧
      s1.next = Function.update (Function.update s.next (x + m) (s.next x)) x (some (x + m)) ∧
      s1.prev = Function.update (match s.next x with
        | some n => Function.update s.prev n (some (x + m))
        | none => s.prev) (x + m) (some x) ∧
      s1.firstNode = s.firstNode ∧
      s1.size = Function.update (Function.update s.size (x + m) (rest - SIZEOF_NODE)) x siz ∧
      s1.nodeAttribute = s.nodeAttribute ∧ s1.hashNext = s.hashNext ∧
      s1.hashPrev = s.hashPrev ∧ s1.freeTable = s.freeTable := by
  rw [splitNode]
  simp only [Function.update_self]
  refine ⟨_, rfl, ?_⟩
  cases s.next x <;> exact ⟨rfl, rfl, rfl, rfl, rfl, rfl, rfl, rfl⟩

/-- The end of an occupied block becomes a free one. -/
lemma Shape.split (h : Shape a s live (pre ++ x :: post) buckets) (hocc : isFreeNode s x = false)
    (hnext : ∀ y, post.head? = some y → isFreeNode s y = false) {siz n : UInt32}
    (hsiz : siz.toNat + 32 ≤ (s.size x).toNat) (hlive : live (x + SIZEOF_NODE) = some n)
    (hn : n.toNat ≤ siz.toNat) :
    ∃ nodes' buckets', Shape a (splitNode v s x siz (siz + SIZEOF_NODE) (s.size x - siz)) live
      nodes' buckets' := by
  obtain ⟨s1, heq, hn1, hp1, hf1, hs1, ha1, hhn1, hhp1, ht1⟩ :=
    splitNode_eq v s x siz (siz + SIZEOF_NODE) (s.size x - siz)
  rw [heq]
  generalize hy : x + (siz + SIZEOF_NODE) = y at *
  obtain ⟨hynot, hlayout⟩ := h.toLayout.split hsiz hy.symm hn1 hp1 hf1 hs1
  have hyx : y ≠ x := fun he => hynot (by simp [he])
  have hindex : calcHashIndex v.maxHashEntry (s.size x - siz) = hashIndex v s1 y := by
    rw [hashIndex, hs1, Function.update_of_ne hyx, Function.update_self, UInt32.sub_add_cancel]
  have hsize : ∀ z ∈ pre ++ x :: post, z ≠ x → s1.size z = s.size z := fun z hz hzx => by
    have hzy : z ≠ y := fun he => hynot (he ▸ hz)
    rw [hs1, Function.update_of_ne hzx, Function.update_of_ne hzy]
  have hb1 : Binned v s1 buckets fun z => z ∈ pre ++ x :: post ∧ isFreeNode s z = true :=
    h.binned.congr hhn1 hhp1 ht1 (fun z hz => hsize z hz.1 (ne_of_free hz.2 hocc).symm)
      fun _ => Iff.rfl
  obtain ⟨buckets', hb⟩ := hb1.append fun hm => hynot hm.1
  rw [hindex]
  have hsame := hashAppend_same s1 y (hashIndex v s1 y)
  have hfree : ∀ z, isFreeNode (makeFree (hashAppend s1 y (hashIndex v s1 y)) y) z =
      (decide (z = y) || isFreeNode s z) := fun z => by
    rw [isFreeNode_makeFree]
    exact congrArg _ (isFreeNode_congr ha1 z)
  have hmem : ∀ z, z ∈ pre ++ x :: y :: post ↔ z ∈ pre ++ x :: post ∨ z = y := fun z => by
    simp only [List.mem_append, List.mem_cons]
    tauto
  refine ⟨pre ++ x :: y :: post, buckets',
    ⟨⟨hlayout.congr ⟨rfl, rfl, rfl, rfl⟩, fun z hz hzo => ?_, fun p m hp => ?_⟩, ?_, ?_⟩⟩
  · rw [hfree, Bool.or_eq_false_iff, decide_eq_false_iff_not] at hzo
    have hz := ((hmem z).mp hz).resolve_right hzo.1
    obtain ⟨m, hm, hpos, hle⟩ := h.owned z hz hzo.2
    refine ⟨m, hm, hpos, ?_⟩
    change m.toNat ≤ (s1.size z).toNat
    by_cases hzx : z = x
    · subst hzx
      obtain rfl := Option.some.inj (hm.symm.trans hlive)
      rw [hs1, Function.update_self]
      exact hn
    · rw [hsize z hz hzx]
      exact hle
  · obtain ⟨z, hz, hzo, rfl⟩ := h.lived p m hp
    have hzy : z ≠ y := fun he => hynot (he ▸ hz)
    refine ⟨z, (hmem z).mpr (.inl hz), ?_, rfl⟩
    rw [hfree, hzo, decide_eq_false hzy]
    rfl
  · refine hb.congr rfl rfl rfl (fun _ _ => rfl) fun z => ?_
    rw [hmem, hfree, Bool.or_eq_true, decide_eq_true_iff]
    constructor
    · rintro ⟨hz | hz, rfl | hzf⟩
      · exact absurd hz hynot
      · exact .inl ⟨hz, hzf⟩
      · exact .inr rfl
      · exact .inr hz
    · rintro (⟨hz, hzf⟩ | rfl)
      · exact ⟨.inl hz, .inr hzf⟩
      · exact ⟨.inr rfl, .inl rfl⟩
  · obtain ⟨hpre, hpost, -⟩ := List.isChain_append.mp h.quiet
    have hold : ∀ z ∈ pre ++ x :: post, isFreeNode (makeFree (hashAppend s1 y (hashIndex v s1 y)) y)
        z = isFreeNode s z := fun z hz => by
      have hzy : z ≠ y := fun he => hynot (he ▸ hz)
      rw [hfree, decide_eq_false hzy, Bool.false_or]
    have hx : ¬ isFreeNode (makeFree (hashAppend s1 y (hashIndex v s1 y)) y) x = true := by
      simp [hold x (by simp), hocc]
    refine List.isChain_append.mpr ⟨?_, ?_, ?_⟩
    · exact Quiet.congr hpre fun z hz hzf => by rwa [hold z (by simp [hz])] at hzf
    · refine List.isChain_cons_cons.mpr ⟨fun hfr => hx hfr.1, List.isChain_cons.mpr ⟨?_, ?_⟩⟩
      · intro z hz hfr
        have hzo := hnext z hz
        rw [← hold z (by simp [List.mem_of_head? hz]), hfr.2] at hzo
        cases hzo
      · exact Quiet.congr hpost.tail fun z hz hzf => by
          rwa [hold z (by simp [show z ∈ post from hz])] at hzf
    · intro z _ w hw hfr
      obtain rfl := Option.some.inj hw
      exact hx hfr.2

/-! ## Freeing -/

lemma Layout.not_mem (h : Layout a s (pre ++ x :: post)) : x ∉ pre ++ post := by
  have hnd := h.chain.nodup
  rw [List.nodup_middle, List.nodup_cons] at hnd
  exact hnd.1

/-- An occupied block becomes free and is not live any more. -/
lemma Shape.open (h : Shape a s live (pre ++ x :: post) buckets) (hocc : isFreeNode s x = false) :
    Loose a (makeFree s x) (Function.update live (x + SIZEOF_NODE) none) pre x post buckets := by
  have hfree := isFreeNode_makeFree s x
  have hnot := h.toLayout.not_mem
  have hold : ∀ z ∈ pre ++ post, isFreeNode (makeFree s x) z = true → isFreeNode s z = true := by
    intro z hz hzf
    have hzx : z ≠ x := fun he => hnot (he ▸ hz)
    rwa [hfree, decide_eq_false hzx, Bool.false_or] at hzf
  obtain ⟨hpre, hpost, -⟩ := List.isChain_append.mp h.quiet
  refine ⟨⟨h.toLayout.congr ⟨rfl, rfl, rfl, rfl⟩, fun z hz hzo => ?_, fun p n hp => ?_⟩, ?_, ?_,
    ?_, ?_⟩
  · rw [hfree, Bool.or_eq_false_iff, decide_eq_false_iff_not] at hzo
    have hne : z + SIZEOF_NODE ≠ x + SIZEOF_NODE := fun he =>
      hzo.1 ((UInt32.add_left_inj _).mp he)
    rw [Function.update_of_ne hne]
    exact h.owned z hz hzo.2
  · have hpx : p ≠ x + SIZEOF_NODE := by
      rintro rfl
      rw [Function.update_self] at hp
      cases hp
    rw [Function.update_of_ne hpx] at hp
    obtain ⟨z, hz, hzo, rfl⟩ := h.lived p n hp
    have hzx : z ≠ x := fun he => hpx (by rw [he])
    exact ⟨z, hz, by rw [hfree, hzo, decide_eq_false hzx]; rfl, rfl⟩
  · rw [hfree, decide_eq_true rfl, Bool.true_or]
  · refine h.binned.congr rfl rfl rfl (fun _ _ => rfl) fun z => ?_
    rw [hfree, Bool.or_eq_true, decide_eq_true_iff]
    constructor
    · rintro ⟨hz, hzf⟩
      have hzx : z ≠ x := fun he => hnot (he ▸ hz)
      refine ⟨?_, hzf.resolve_left hzx⟩
      rcases List.mem_append.mp hz with hz | hz <;> simp [hz]
    · rintro ⟨hz, hzf⟩
      have hzx := (ne_of_free hzf hocc).symm
      simp only [List.mem_append, List.mem_cons] at hz ⊢
      tauto
  · exact Quiet.congr hpre fun z hz => hold z (List.mem_append_left _ hz)
  · exact Quiet.congr hpost.tail fun z hz => hold z (List.mem_append_right _ hz)

/-- The fields after a merge. -/
lemma merge_eq (v : Variant) (s : Heap) (x y c : Ptr) :
    (merge v s x y c).next = Function.update s.next x (s.next y) ∧
      ((merge v s x y c).prev = match s.next y with
        | some n => Function.update s.prev n (some x)
        | none => s.prev) ∧
      (merge v s x y c).firstNode = s.firstNode ∧
      (merge v s x y c).size = Function.update s.size x (s.size x + (s.size y + SIZEOF_NODE)) ∧
      (merge v s x y c).nodeAttribute = s.nodeAttribute ∧
      (merge v s x y c).hashNext = (hashDelete s c (hashIndex v s c)).hashNext ∧
      (merge v s x y c).hashPrev = (hashDelete s c (hashIndex v s c)).hashPrev ∧
      (merge v s x y c).freeTable = (hashDelete s c (hashIndex v s c)).freeTable := by
  obtain ⟨hn, hp, hf, hs⟩ := hashDelete_same s c (hashIndex v s c)
  have ha := hashDelete_nodeAttribute s c (hashIndex v s c)
  rw [merge, ← hashIndex]
  generalize hashDelete s c (hashIndex v s c) = s1 at *
  simp only [Function.update_self, hn, hp, hf, hs, ha]
  cases s.next y <;> exact ⟨rfl, rfl, rfl, rfl, rfl, rfl, rfl, rfl⟩

/-- Two free neighbours are merged. -/
lemma Blocks.merge (h : Blocks a s live (pre ++ x :: y :: post)) (hx : isFreeNode s x = true)
    (hy : isFreeNode s y = true) (c : Ptr) :
    Blocks a (merge v s x y c) live (pre ++ x :: post) := by
  obtain ⟨hn, hp, hf, hs, ha, -⟩ := merge_eq v s x y c
  generalize Allocator.merge v s x y c = s1 at *
  refine ⟨h.toLayout.merge hn hp hf hs, fun z hz hzo => ?_, fun p n hlive => ?_⟩
  · rw [isFreeNode_congr ha] at hzo
    have hmem : z ∈ pre ++ x :: y :: post := by
      simp only [List.mem_append, List.mem_cons] at hz ⊢
      tauto
    rw [hs, Function.update_of_ne (ne_of_free hx hzo)]
    exact h.owned z hmem hzo
  · obtain ⟨z, hz, hzo, rfl⟩ := h.lived p n hlive
    have hzy := ne_of_free hy hzo
    refine ⟨z, ?_, (isFreeNode_congr ha z).trans hzo, rfl⟩
    simp only [List.mem_append, List.mem_cons] at hz ⊢
    tauto

/-- The one that was in a bucket has left it. -/
lemma Binned.merge {l r : List Ptr} {c : Ptr}
    (h : Binned v s buckets fun z => z ∈ l ++ c :: r ∧ isFreeNode s z = true)
    (hc : isFreeNode s c = true) (hcnot : c ∉ l ++ r) (hx : x ∉ l ++ r) (y : Ptr) :
    ∃ buckets', Binned v (merge v s x y c) buckets' fun z =>
      z ∈ l ++ r ∧ isFreeNode (merge v s x y c) z = true := by
  obtain ⟨buckets', hb⟩ := h.delete ⟨by simp, hc⟩
  obtain ⟨-, -, -, hs, ha, hn, hp, ht⟩ := merge_eq v s x y c
  have hmem : ∀ z, z ∈ l ++ r ↔ z ∈ l ++ c :: r ∧ z ≠ c := fun z => by
    constructor
    · intro hz
      refine ⟨?_, fun he => hcnot (he ▸ hz)⟩
      simp only [List.mem_append, List.mem_cons] at hz ⊢
      tauto
    · rintro ⟨hz, hne⟩
      simp only [List.mem_append, List.mem_cons] at hz ⊢
      tauto
  refine ⟨buckets', hb.congr hn hp ht (fun z hz => ?_) fun z => ?_⟩
  · have hzx : z ≠ x := by
      rintro rfl
      exact hx ((hmem z).mpr ⟨hz.1.1, hz.2⟩)
    rw [hs, Function.update_of_ne hzx, (hashDelete_same s c _).size]
  · rw [isFreeNode_congr ha, hmem]
    tauto

lemma Quiet.merge (h : Quiet s nodes) (x y c : Ptr) : Quiet (merge v s x y c) nodes :=
  h.congr fun z _ hz => by
    obtain ⟨-, -, -, -, ha, -⟩ := merge_eq v s x y c
    rwa [isFreeNode_congr ha] at hz

/-- After the first merge, the block before is occupied: it was so before, or it took in `cur`. -/
lemma Loose.mergePrev (h : Loose a s live pre cur post buckets) :
    ∃ pre' buckets', Loose a (mergePrev v s cur).2 live pre' (mergePrev v s cur).1 post buckets' ∧
      (∀ z, pre'.getLast? = some z → isFreeNode (mergePrev v s cur).2 z = false) ∧
      (pre' = pre ∧ mergePrev v s cur = (cur, s) ∨
        ∃ p, pre = pre' ++ [p] ∧ isFreeNode s p = true ∧
          mergePrev v s cur = (p, Allocator.merge v s p cur p)) := by
  have hprev : s.prev cur = pre.getLast? := h.chain.prev_eq
  rw [Allocator.mergePrev, hprev]
  cases hl : pre.getLast? with
  | none => exact ⟨pre, buckets, h, (fun z hz => by rw [hl] at hz; cases hz), .inl ⟨rfl, rfl⟩⟩
  | some p =>
    dsimp only
    split_ifs with hp
    · obtain ⟨pre', rfl⟩ := List.getLast?_eq_some_iff.mp hl
      have hblocks : Blocks a s live (pre' ++ p :: cur :: post) := by simpa using h.toBlocks
      have hnot : p ∉ pre' ++ post := fun hm => hblocks.toLayout.not_mem (by
        rcases List.mem_append.mp hm with hm | hm <;> simp [hm])
      have hbinned := h.binned
      simp only [List.append_assoc, List.singleton_append] at hbinned
      obtain ⟨buckets', hb⟩ := hbinned.merge hp hnot hnot cur
      obtain ⟨hpre, -, hlink⟩ := List.isChain_append.mp h.quietPre
      obtain ⟨-, -, -, -, ha, -⟩ := merge_eq v s p cur p
      refine ⟨pre', buckets', ⟨hblocks.merge hp h.free p, ?_, hb, Quiet.merge hpre _ _ _,
        h.quietPost.merge _ _ _⟩, fun z hz => ?_, .inr ⟨p, rfl, hp, rfl⟩⟩
      · rw [isFreeNode_congr ha, hp]
      · have hz := hlink z hz p rfl
        rw [isFreeNode_congr ha]
        simpa [hp] using hz
    · refine ⟨pre, buckets, h, fun z hz => ?_, .inl ⟨rfl, rfl⟩⟩
      rw [hl] at hz
      obtain rfl := Option.some.inj hz
      simpa using hp

/-- After the second merge, the block behind is occupied as well. -/
lemma Loose.mergeNext (h : Loose a s live pre cur post buckets)
    (hpre : ∀ z, pre.getLast? = some z → isFreeNode s z = false) :
    ∃ post' buckets', Loose a (mergeNext v s cur) live pre cur post' buckets' ∧
      (∀ z, pre.getLast? = some z → isFreeNode (mergeNext v s cur) z = false) ∧
      (∀ z, post'.head? = some z → isFreeNode (mergeNext v s cur) z = false) ∧
      (post' = post ∧ mergeNext v s cur = s ∨
        ∃ n, post = n :: post' ∧ isFreeNode s n = true ∧
          mergeNext v s cur = Allocator.merge v s cur n n) := by
  have hnext : s.next cur = post.head? := h.chain.next_eq
  rw [Allocator.mergeNext, hnext]
  cases post with
  | nil => exact ⟨[], buckets, h, hpre, nofun, .inl ⟨rfl, rfl⟩⟩
  | cons n post =>
    dsimp only [List.head?_cons]
    split_ifs with hn
    · have hsplit : pre ++ cur :: n :: post = (pre ++ [cur]) ++ n :: post := by simp
      have hnot : n ∉ pre ++ post := fun hm => (hsplit ▸ h.toLayout).not_mem (by
        rcases List.mem_append.mp hm with hm | hm <;> simp [hm])
      have hcur : cur ∉ pre ++ post := fun hm => h.toLayout.not_mem (by
        rcases List.mem_append.mp hm with hm | hm <;> simp [hm])
      obtain ⟨buckets', hb⟩ := h.binned.merge hn hnot hcur n
      obtain ⟨-, -, -, -, ha, -⟩ := merge_eq v s cur n n
      obtain ⟨hlink, hpost⟩ := List.isChain_cons.mp h.quietPost
      refine ⟨post, buckets', ⟨h.toBlocks.merge h.free hn n, ?_, hb, h.quietPre.merge _ _ _,
        Quiet.merge hpost _ _ _⟩, fun z hz => ?_, fun z hz => ?_, .inr ⟨n, rfl, hn, rfl⟩⟩
      · rw [isFreeNode_congr ha, h.free]
      · rw [isFreeNode_congr ha, hpre z hz]
      · have hz := hlink z hz
        rw [isFreeNode_congr ha]
        simpa [hn] using hz
    · refine ⟨n :: post, buckets, h, hpre, fun z hz => ?_, .inl ⟨rfl, rfl⟩⟩
      obtain rfl := Option.some.inj hz
      simpa using hn

/-- Between occupied neighbours the free block enters its bucket. -/
lemma Loose.close (h : Loose a s live pre cur post buckets)
    (hpre : ∀ z, pre.getLast? = some z → isFreeNode s z = false)
    (hpost : ∀ z, post.head? = some z → isFreeNode s z = false) :
    ∃ buckets', Shape a (hashAppend s cur (hashIndex v s cur)) live (pre ++ cur :: post)
      buckets' := by
  have hnot := h.toLayout.not_mem
  obtain ⟨buckets', hb⟩ := h.binned.append fun hm => hnot hm.1
  have hfree : ∀ z, isFreeNode (hashAppend s cur (hashIndex v s cur)) z = isFreeNode s z :=
    fun _ => rfl
  refine ⟨buckets', ⟨⟨h.toLayout.congr (hashAppend_same _ _ _), h.owned, h.lived⟩, ?_, ?_⟩⟩
  · refine hb.congr rfl rfl rfl (fun _ _ => rfl) fun z => ?_
    rw [hfree]
    constructor
    · rintro ⟨hz, hzf⟩
      by_cases hzc : z = cur
      · exact .inr hzc
      · refine .inl ⟨?_, hzf⟩
        simp only [List.mem_append, List.mem_cons] at hz ⊢
        tauto
    · rintro (⟨hz, hzf⟩ | rfl)
      · refine ⟨?_, hzf⟩
        rcases List.mem_append.mp hz with hz | hz <;> simp [hz]
      · exact ⟨by simp, h.free⟩
  · refine List.isChain_append.mpr ⟨h.quietPre, List.isChain_cons.mpr ⟨?_, h.quietPost⟩, ?_⟩
    · intro z hz hfr
      have hzo := hpost z hz
      exact absurd (hfr.2.symm.trans hzo) (by decide)
    · intro z hz w _ hfr
      have hzo := hpre z hz
      exact absurd (hfr.1.symm.trans hzo) (by decide)

/-- Freeing an occupied block keeps the heap in shape. -/
theorem Shape.coalesce (h : Shape a s live nodes buckets) (hx : x ∈ nodes)
    (hocc : isFreeNode s x = false) :
    ∃ nodes' buckets', Shape a (coalesce v (makeFree s x) x)
      (Function.update live (x + SIZEOF_NODE) none) nodes' buckets' := by
  obtain ⟨pre, post, rfl⟩ := List.append_of_mem hx
  obtain ⟨pre', buckets1, hloose1, hpre1, -⟩ := (h.open hocc).mergePrev
  obtain ⟨post', buckets2, hloose2, hpre2, hpost2, -⟩ := hloose1.mergeNext hpre1
  obtain ⟨buckets3, hshape⟩ := hloose2.close hpre2 hpost2
  exact ⟨_, buckets3, hshape⟩

/-! ## The search -/

/-- What the search returns is a free block of the bucket, long enough. -/
lemma Shape.searchTable (h : Shape a s live nodes buckets) {siz : UInt32} {i j : ℕ}
    (hfound : searchTable v.maxHashEntry s siz i = some (j, x)) :
    x ∈ nodes ∧ isFreeNode s x = true ∧ hashIndex v s x = j ∧ siz.toNat ≤ (s.size x).toNat := by
  obtain ⟨k, hk, hmap⟩ := List.exists_of_findSome?_eq_some hfound
  obtain ⟨y, hy, hpair⟩ := Option.map_eq_some_iff.mp hmap
  obtain ⟨rfl, rfl⟩ := Prod.mk.inj hpair
  have hlt : k < v.maxHashEntry := by
    have hrange := List.mem_range'_1.mp hk
    omega
  have hchain := h.binned.chain k hlt
  rw [searchBucket, hchain.head_eq, search_eq_find hchain.linked (nodup_length_le hchain.nodup)]
    at hy
  obtain ⟨⟨hmem, hfree⟩, hindex⟩ := (h.binned.mem k hlt y).mp (List.mem_of_find?_eq_some hy)
  have hsize := List.find?_some (p := fun nod => decide (siz ≤ s.size nod)) hy
  exact ⟨hmem, hfree, hindex, UInt32.le_iff_toNat_le.mp (of_decide_eq_true hsize)⟩

/-- Allocation keeps the heap in shape; without a block nothing happens. -/
theorem Shape.allocate (h : Shape a s live nodes buckets) {siz n : UInt32} (hpos : 0 < n.toNat)
    (hn : n.toNat ≤ siz.toNat) :
    (Allocator.allocate v s siz = (none, s)) ∨
      ∃ x nodes' buckets', (Allocator.allocate v s siz).1 = some (x + SIZEOF_NODE) ∧
        live (x + SIZEOF_NODE) = none ∧
        Shape a (Allocator.allocate v s siz).2
          (Function.update live (x + SIZEOF_NODE) (some n)) nodes' buckets' := by
  rw [Allocator.allocate]
  cases hfound : Allocator.searchTable v.maxHashEntry s siz
      (calcHashIndex v.maxHashEntry (siz + SIZEOF_NODE)) with
  | none => exact .inl rfl
  | some found =>
    obtain ⟨j, x⟩ := found
    obtain ⟨hx, hfree, rfl, hsiz⟩ := h.searchTable hfound
    obtain ⟨buckets', htaken⟩ := h.take hx hfree hpos (hn.trans hsiz)
    have hnew : live (x + SIZEOF_NODE) = none := by
      cases hl : live (x + SIZEOF_NODE) with
      | none => rfl
      | some m =>
        obtain ⟨y, -, hyo, hxy⟩ := h.lived _ m hl
        obtain rfl := (UInt32.add_left_inj _).mp hxy
        exact absurd rfl (ne_of_free hfree hyo)
    refine .inr ⟨x, ?_⟩
    dsimp only
    rw [v.rest_eq]
    split_ifs with hsplits
    · obtain ⟨pre, post, rfl⟩ := List.append_of_mem hx
      have hle := v.le_of_splits _ hsplits
      rw [toNat_sub_of_le hsiz] at hle
      have hsize := (hashDelete_same s x (hashIndex v s x)).size
      have hattr := hashDelete_nodeAttribute s x (hashIndex v s x)
      have hocc : ∀ y, isFreeNode (makeOccupied (hashDelete s x (hashIndex v s x)) x) y =
          (!decide (y = x) && isFreeNode s y) := fun y => by
        rw [isFreeNode_makeOccupied, isFreeNode_congr hattr]
      have hnext : ∀ y, post.head? = some y →
          isFreeNode (makeOccupied (hashDelete s x (hashIndex v s x)) x) y = false := by
        intro y hy
        have hlink := (List.isChain_cons.mp (List.isChain_append.mp h.quiet).2.1).1 y hy
        rw [hocc]
        simp only [hfree, true_and, Bool.not_eq_true] at hlink
        rw [hlink, Bool.and_false]
      have hsame : (makeOccupied (hashDelete s x (hashIndex v s x)) x).size = s.size := hsize
      have hlive : (Function.update live (x + SIZEOF_NODE) (some n)) (x + SIZEOF_NODE) = some n :=
        Function.update_self _ _ _
      have hroom : siz.toNat + 32 ≤
          ((makeOccupied (hashDelete s x (hashIndex v s x)) x).size x).toNat := by
        rw [hsame]
        omega
      obtain ⟨nodes'', buckets'', hshape⟩ := htaken.split
        (by rw [hocc, decide_eq_true rfl]; rfl) hnext hroom hlive hn
      rw [hsame] at hshape
      exact ⟨nodes'', buckets'', rfl, hnew, hshape⟩
    · exact ⟨nodes, buckets', rfl, hnew, htaken⟩

/-- One free block over the whole arena is in shape. -/
theorem initBlock_shape (a : Arena v) (s : Heap) :
    ∃ buckets, Shape a (initBlock v s a.base a.size) (fun _ => none) [a.base] buckets := by
  have hsize := a.le_size
  have hsizeof : SIZEOF_NODE.toNat = 24 := rfl
  have hrest : (a.size - SIZEOF_NODE).toNat = a.size.toNat - SIZEOF_NODE.toNat :=
    toNat_sub_of_le (by omega)
  -- the allocator is cleared before its one node enters a bucket
  let s1 : Heap := { s with
    freeTable := fun _ => none
    firstNode := none
    prev := Function.update s.prev a.base none
    next := Function.update s.next a.base none
    size := Function.update s.size a.base (a.size - SIZEOF_NODE) }
  have hempty : Binned v s1 (fun _ => []) fun _ => False :=
    ⟨fun _ _ => Chain.nil, fun _ _ _ => by simp⟩
  obtain ⟨buckets, hb⟩ := hempty.append (x := a.base) not_false
  have hindex : hashIndex v s1 a.base = v.maxHashEntry - 1 := by
    have hwhole : s1.size a.base = a.size - SIZEOF_NODE := Function.update_self _ _ _
    rw [hashIndex, hwhole, UInt32.sub_add_cancel, a.last]
  have hinit : initBlock v s a.base a.size =
      { makeFree (hashAppend s1 a.base (hashIndex v s1 a.base)) a.base with
        firstNode := some a.base } := by
    rw [hindex]
    rfl
  have hfree : ∀ x, isFreeNode (initBlock v s a.base a.size) x =
      (decide (x = a.base) || isFreeNode s x) := isFreeNode_makeFree _ _
  refine ⟨buckets, ⟨⟨⟨?_, ?_⟩, fun x hx hxo => ?_, fun _ _ hp => by cases hp⟩, ?_, List.isChain_singleton _⟩⟩
  · exact ⟨rfl, List.nodup_singleton _, Function.update_self _ _ _, Function.update_self _ _ _,
      trivial⟩
  · refine ⟨rfl, ?_⟩
    change _ + (_ + (Function.update s.size a.base (a.size - SIZEOF_NODE) a.base).toNat) = _
    rw [Function.update_self, hrest]
    omega
  · obtain rfl := List.mem_singleton.mp hx
    rw [hfree, decide_eq_true rfl] at hxo
    cases hxo
  · refine hb.congr (by rw [hinit]; rfl) (by rw [hinit]; rfl) (by rw [hinit]; rfl)
      (fun _ _ => by rw [hinit]; rfl) fun x => ?_
    rw [hfree, List.mem_singleton]
    constructor
    · exact fun hx => .inr hx.1
    · rintro (hx | rfl)
      · exact hx.elim
      · exact ⟨rfl, by rw [decide_eq_true rfl, Bool.true_or]⟩

end Steps

end Sgos.Allocator
