import Sgos.AllocatorRuns

/-!
# Which descriptors the allocators write

Freeing a block writes descriptors of the heap only, and allocating one writes descriptors of the
heap before or after it. What freeing makes of the block, of its neighbours and of the buckets.
-/
namespace Sgos.Allocator
open LinkedChain Tiling

/-- The descriptor at an address. -/
def readNode (s : Heap) (p : Ptr) : Node where
  prev := s.prev p
  next := s.next p
  hashPrev := s.hashPrev p
  hashNext := s.hashNext p
  nodeAttribute := s.nodeAttribute p
  size := s.size p

/-- All descriptors outside of `B` stay as they are. -/
def Within (s s' : Heap) (B : Ptr → Prop) : Prop := ∀ z, ¬ B z → readNode s' z = readNode s z

section Within
variable {v : Variant} {a : Arena v} {s s' s'' : Heap} {B C : Ptr → Prop} {x y : Ptr}
  {live : Ptr → Option UInt32} {nodes pre post : List Ptr} {buckets : ℕ → List Ptr}

lemma Within.refl (s : Heap) (B : Ptr → Prop) : Within s s B := fun _ _ => rfl

lemma Within.mono (h : Within s s' B) (hsub : ∀ z, B z → C z) : Within s s' C :=
  fun z hz => h z fun hb => hz (hsub z hb)

lemma Within.trans (h : Within s s' B) (h' : Within s' s'' B) : Within s s'' B :=
  fun z hz => (h' z hz).trans (h z hz)

lemma within_of_fields (h : ∀ z, ¬ B z → s'.prev z = s.prev z ∧ s'.next z = s.next z ∧
    s'.hashPrev z = s.hashPrev z ∧ s'.hashNext z = s.hashNext z ∧
    s'.nodeAttribute z = s.nodeAttribute z ∧ s'.size z = s.size z) : Within s s' B := by
  intro z hz
  obtain ⟨hp, hn, hhp, hhn, ha, hs⟩ := h z hz
  simp only [readNode, hp, hn, hhp, hhn, ha, hs]

lemma makeFree_within (s : Heap) (x : Ptr) : Within s (makeFree s x) (· = x) :=
  within_of_fields fun _ hz => ⟨rfl, rfl, rfl, rfl, Function.update_of_ne hz _ _, rfl⟩

lemma makeOccupied_within (s : Heap) (x : Ptr) : Within s (makeOccupied s x) (· = x) :=
  within_of_fields fun _ hz => ⟨rfl, rfl, rfl, rfl, Function.update_of_ne hz _ _, rfl⟩

/-- The neighbours in a bucket are free nodes. -/
lemma Binned.hashDelete_within (h : Binned v s buckets B) (hx : B x) :
    Within s (hashDelete s x (hashIndex v s x)) B := by
  have hk : hashIndex v s x < v.maxHashEntry := calcHashIndex_lt v _
  have hchain := h.chain _ hk
  have hmem := (h.mem _ hk x).mpr ⟨hx, rfl⟩
  have hself : s.hashPrev x ≠ some x := fun he => hchain.prev_ne hmem he rfl
  obtain ⟨hnext, hprev, -⟩ := hashDelete_links hself (hashIndex v s x)
  obtain ⟨hn, hp, -, hs⟩ := hashDelete_same s x (hashIndex v s x)
  have ha := hashDelete_nodeAttribute s x (hashIndex v s x)
  refine within_of_fields fun z hz => ?_
  have hznot : z ∉ buckets (hashIndex v s x) := fun hm => hz ((h.mem _ hk z).mp hm).1
  rw [hn, hp, hs, ha, hnext, hprev]
  exact ⟨rfl, rfl, hchain.unlinkPrev_of_not_mem hmem hznot,
    hchain.unlinkNext_of_not_mem hmem hznot, rfl, rfl⟩

lemma Binned.of_head (h : Binned v s buckets B) {j : ℕ} (hj : j < v.maxHashEntry)
    (hy : s.freeTable j = some y) : B y :=
  ((h.mem j hj y).mp (List.mem_of_head? ((h.chain j hj).head_eq.symm.trans hy))).1

/-- A node that enters a bucket is linked to the head of the bucket. -/
lemma hashAppend_within {j : ℕ} (hhead : ∀ y, s.freeTable j = some y → B y) (x : Ptr) :
    Within s (hashAppend s x j) fun z => B z ∨ z = x := by
  refine within_of_fields fun z hz => ?_
  obtain ⟨hzB, hzx⟩ := not_or.mp hz
  refine ⟨rfl, rfl, ?_, Function.update_of_ne hzx _ _, rfl, rfl⟩
  rw [hashAppend]
  cases hl : s.freeTable j with
  | none => exact Function.update_of_ne hzx _ _
  | some y =>
    have hzy : z ≠ y := fun he => hzB (he ▸ hhead y hl)
    simp only [Function.update_of_ne hzy, Function.update_of_ne hzx]

/-- A merge writes its two nodes, the one behind them, and the neighbours in the bucket. -/
lemma Layout.merge_within (h : Layout a s (pre ++ x :: y :: post))
    (hb : Binned v s buckets B) {c : Ptr} (hc : B c) (hB : ∀ z, B z → z ∈ pre ++ x :: y :: post) :
    Within s (Allocator.merge v s x y c) (· ∈ pre ++ x :: y :: post) := by
  obtain ⟨hn, hp, -, hs, ha, hhn, hhp, -⟩ := merge_eq v s x y c
  have hdelete := (hb.hashDelete_within hc).mono hB
  refine within_of_fields fun z hz => ?_
  have hzx : z ≠ x := fun he => hz (by simp [he])
  have hnode := hdelete z hz
  simp only [readNode, Node.mk.injEq] at hnode
  rw [hn, hp, hs, ha, hhn, hhp]
  refine ⟨?_, Function.update_of_ne hzx _ _, hnode.2.2.1, hnode.2.2.2.1, rfl,
    Function.update_of_ne hzx _ _⟩
  cases hny : s.next y with
  | none => rfl
  | some n =>
    have hzn : z ≠ n := by
      rintro rfl
      exact hz (h.chain.linked.next_mem (by simp) hny)
    exact Function.update_of_ne hzn _ _

/-! ## Freeing -/

/-- The bytes of an occupied block and of the free block behind it. -/
def room (s : Heap) (x : Ptr) : UInt32 :=
  match s.next x with
  | some n => if isFreeNode s n then s.size x + (s.size n + SIZEOF_NODE) else s.size x
  | none => s.size x

/-- The free block behind `x`, which freeing `x` joins to it. -/
def Absorbs (s : Heap) (x z : Ptr) : Prop := s.next x = some z ∧ isFreeNode s z = true

/-- The block before `x` is free and takes `x` in. -/
def Absorbed (s : Heap) (x : Ptr) : Prop := ∃ y, s.prev x = some y ∧ isFreeNode s y = true

/-- What freeing `x` leaves when the block before it is occupied. -/
structure Kept (v : Variant) (s s' : Heap) (x : Ptr) (nodes nodes' : List Ptr) : Prop where
  mem : x ∈ nodes'
  others : ∀ z, z ≠ x → (z ∈ nodes' ↔ z ∈ nodes ∧ ¬ Absorbs s x z)
  size_eq : s'.size x = room s x
  size_other : ∀ z, z ≠ x → s'.size z = s.size z
  table : s'.freeTable (hashIndex v s' x) = some x

/-- What freeing `x` leaves. -/
structure Freed (v : Variant) (s s' : Heap) (x : Ptr) (nodes nodes' : List Ptr) : Prop where
  sub : ∀ z ∈ nodes', z ∈ nodes
  within : Within s s' (· ∈ nodes)
  free : ∀ z, isFreeNode s' z = (decide (z = x) || isFreeNode s z)
  absorbed : Absorbed s x → x ∉ nodes'
  kept : ¬ Absorbed s x → Kept v s s' x nodes nodes'

lemma hashIndex_lt (v : Variant) (s : Heap) (x : Ptr) : hashIndex v s x < v.maxHashEntry :=
  calcHashIndex_lt v _

lemma Layout.prev_eq (h : Layout a s (pre ++ x :: post)) : s.prev x = pre.getLast? :=
  h.chain.prev_eq

lemma Layout.next_eq (h : Layout a s (pre ++ x :: post)) : s.next x = post.head? :=
  h.chain.next_eq

/-- The second merge and the bucket that the block enters. -/
lemma mergeNext_close (h : Loose a s live pre x post buckets)
    (hpre : ∀ z, pre.getLast? = some z → isFreeNode s z = false) :
    ∃ post' buckets', Shape a (hashAppend (mergeNext v s x) x (hashIndex v (mergeNext v s x) x))
        live (pre ++ x :: post') buckets' ∧
      Within s (hashAppend (mergeNext v s x) x (hashIndex v (mergeNext v s x) x))
        (· ∈ pre ++ x :: post) ∧
      (mergeNext v s x).nodeAttribute = s.nodeAttribute ∧
      (post' = post ∧ (∀ z, post.head? = some z → isFreeNode s z = false) ∧
          (mergeNext v s x).size = s.size ∨
        ∃ n, post = n :: post' ∧ isFreeNode s n = true ∧ (mergeNext v s x).size =
          Function.update s.size x (s.size x + (s.size n + SIZEOF_NODE))) := by
  obtain ⟨post', buckets', hloose, hpre', hpost', hcase⟩ := h.mergeNext hpre
  obtain ⟨buckets'', hshape⟩ := hloose.close hpre' hpost'
  refine ⟨post', buckets'', hshape, ?_⟩
  have happend := hashAppend_within
    (fun _ => hloose.binned.of_head (hashIndex_lt v (mergeNext v s x) x)) x
  rcases hcase with ⟨rfl, hm⟩ | ⟨n, rfl, hn, hm⟩
  · rw [hm] at happend hpost' ⊢
    refine ⟨happend.mono ?_, rfl, .inl ⟨rfl, hpost', rfl⟩⟩
    rintro z (⟨hz, -⟩ | rfl)
    · rcases List.mem_append.mp hz with hz | hz <;> simp [hz]
    · simp
  · obtain ⟨-, -, -, hs, ha, -⟩ := merge_eq v s x n n
    have hmerge := h.toLayout.merge_within h.binned ⟨by simp, hn⟩ fun z hz => by
      rcases List.mem_append.mp hz.1 with hz | hz
      · simp [hz]
      · exact List.mem_append_right _ (List.mem_cons_of_mem _ hz)
    rw [hm] at happend ⊢
    refine ⟨hmerge.trans (happend.mono ?_), ha, .inr ⟨n, rfl, hn, hs⟩⟩
    rintro z (⟨hz, -⟩ | rfl)
    · rcases List.mem_append.mp hz with hz | hz <;> simp [hz]
    · simp

/-- The block before is occupied: the block stays and may take in the one behind. -/
lemma mergeNext_kept (h : Shape a s live (pre ++ x :: post) buckets)
    {s0 s2 : Heap} {post' : List Ptr} (hsize : s0.size = s.size)
    (hbehind : ∀ z, post.head? = some z → isFreeNode s0 z = isFreeNode s z)
    (hcase : post' = post ∧ (∀ z, post.head? = some z → isFreeNode s0 z = false) ∧
          s2.size = s0.size ∨
        ∃ n, post = n :: post' ∧ isFreeNode s0 n = true ∧ s2.size =
          Function.update s0.size x (s0.size x + (s0.size n + SIZEOF_NODE))) :
    Kept v s (hashAppend s2 x (hashIndex v s2 x)) x (pre ++ x :: post) (pre ++ x :: post') := by
  have hnext : s.next x = post.head? := h.toLayout.next_eq
  have htable : (hashAppend s2 x (hashIndex v s2 x)).freeTable (hashIndex v s2 x) = some x :=
    Function.update_self ..
  rcases hcase with ⟨rfl, hocc, hs⟩ | ⟨n, rfl, hn, hs⟩
  · have hstill : ∀ z, ¬ Absorbs s x z := by
      rintro z ⟨hz, hzf⟩
      rw [hnext] at hz
      rw [← hbehind z hz, hocc z hz] at hzf
      cases hzf
    refine ⟨by simp, fun z _ => ⟨fun hz => ⟨hz, hstill z⟩, And.left⟩, ?_, fun z _ => ?_, htable⟩
    · change s2.size x = _
      rw [hs, hsize, room, hnext]
      cases hp : post'.head? with
      | none => rfl
      | some n =>
        have hnf : isFreeNode s n = false := (hbehind n hp).symm.trans (hocc n hp)
        simp only [hnf, Bool.false_eq_true, if_false]
    · change s2.size z = _
      rw [hs, hsize]
  · have hnf : isFreeNode s n = true := (hbehind n rfl).symm.trans hn
    have hnd := h.toLayout.chain.nodup
    have hnot : n ∉ pre ++ x :: post' := by
      have hsplit : pre ++ x :: n :: post' = (pre ++ [x]) ++ n :: post' := by simp
      rw [hsplit, List.nodup_middle, List.nodup_cons] at hnd
      simpa using hnd.1
    refine ⟨by simp, fun z hzx => ⟨fun hz => ⟨?_, ?_⟩, ?_⟩, ?_, fun z hzx => ?_, htable⟩
    · rcases List.mem_append.mp hz with hz | hz
      · exact List.mem_append_left _ hz
      · simp [(List.mem_cons.mp hz).resolve_left hzx]
    · rintro ⟨hzn, -⟩
      obtain rfl := Option.some.inj (hnext.symm.trans hzn)
      exact hnot hz
    · rintro ⟨hz, hzn⟩
      have hne : z ≠ n := fun he => hzn ⟨hnext.trans (congrArg some he.symm), he ▸ hnf⟩
      simp only [List.mem_append, List.mem_cons] at hz ⊢
      tauto
    · change s2.size x = _
      rw [hs, Function.update_self, hsize, room, hnext, List.head?_cons]
      simp only [hnf, if_true]
    · change s2.size z = _
      rw [hs, Function.update_of_ne hzx, hsize]

/-- Freeing keeps the heap in shape, and what it does to the block depends on its neighbours. -/
theorem coalesce_freed (h : Shape a s live nodes buckets) (hx : x ∈ nodes)
    (hocc : isFreeNode s x = false) :
    ∃ nodes' buckets', Shape a (coalesce v (makeFree s x) x)
        (Function.update live (x + SIZEOF_NODE) none) nodes' buckets' ∧
      Freed v s (coalesce v (makeFree s x) x) x nodes nodes' := by
  obtain ⟨pre, post, rfl⟩ := List.append_of_mem hx
  have hnot := h.toLayout.not_mem
  have hloose := h.open hocc
  have hopen : ∀ z, isFreeNode (makeFree s x) z = (decide (z = x) || isFreeNode s z) :=
    isFreeNode_makeFree s x
  have hbefore : ∀ z, pre.getLast? = some z → isFreeNode (makeFree s x) z = isFreeNode s z := by
    intro z hz
    have hzx : z ≠ x := fun he => hnot (by simp [← he, List.mem_of_getLast? hz])
    rw [hopen, decide_eq_false hzx, Bool.false_or]
  have hbehind : ∀ z, post.head? = some z → isFreeNode (makeFree s x) z = isFreeNode s z := by
    intro z hz
    have hzx : z ≠ x := fun he => hnot (by simp [← he, List.mem_of_head? hz])
    rw [hopen, decide_eq_false hzx, Bool.false_or]
  have hfirst : Within s (makeFree s x) (· ∈ pre ++ x :: post) :=
    (makeFree_within s x).mono fun z hz => by simp [hz]
  obtain ⟨pre', buckets1, hloose1, hpre1, hcase⟩ := hloose.mergePrev
  rw [coalesce]
  rcases hcase with ⟨rfl, hm⟩ | ⟨p, rfl, hp, hm⟩
  · rw [hm] at hloose1 hpre1
    rw [hm]
    dsimp only at hloose1 hpre1 ⊢
    obtain ⟨post', buckets2, hshape, hwithin, hattr, hcase⟩ := mergeNext_close hloose1 hpre1
    rw [← hashIndex]
    refine ⟨_, buckets2, hshape, ?_, hfirst.trans hwithin, fun z => ?_, ?_, fun _ =>
      mergeNext_kept h (show (makeFree s x).size = s.size from rfl) hbehind hcase⟩
    · intro z hz
      rcases hcase with ⟨rfl, -⟩ | ⟨n, rfl, -⟩
      · exact hz
      · simp only [List.mem_append, List.mem_cons] at hz ⊢
        tauto
    · exact (isFreeNode_congr hattr z).trans (hopen z)
    · rintro ⟨y, hy, hyf⟩
      rw [h.toLayout.prev_eq] at hy
      rw [← hbefore y hy, hpre1 y hy] at hyf
      cases hyf
  · rw [hm] at hloose1 hpre1
    rw [hm]
    dsimp only at hloose1 hpre1 ⊢
    obtain ⟨post', buckets2, hshape, hwithin, hattr, hcase⟩ := mergeNext_close hloose1 hpre1
    rw [← hashIndex]
    have hsub : ∀ z, z ∈ pre' ++ p :: post' → z ∈ pre' ++ p :: post := by
      intro z hz
      rcases hcase with ⟨rfl, -⟩ | ⟨n, rfl, -⟩
      · exact hz
      · simp only [List.mem_append, List.mem_cons] at hz ⊢
        tauto
    have hsub' : ∀ z, z ∈ pre' ++ p :: post → z ∈ pre' ++ [p] ++ x :: post := by
      intro z hz
      simp only [List.mem_append, List.mem_cons] at hz ⊢
      tauto
    have hlayout : Layout a (makeFree s x) (pre' ++ p :: x :: post) := by
      simpa using hloose.toLayout
    have hmerge := hlayout.merge_within hloose.binned
      ⟨by simp, hp⟩ fun z hz => by
        have hz := hz.1
        simp only [List.mem_append, List.mem_cons] at hz ⊢
        tauto
    have hmerge' : Within (makeFree s x) (merge v (makeFree s x) p x p)
        (· ∈ pre' ++ [p] ++ x :: post) := hmerge.mono fun z hz => by simpa using hz
    obtain ⟨-, -, -, -, ha, -⟩ := merge_eq v (makeFree s x) p x p
    refine ⟨_, buckets2, hshape, fun z hz => hsub' z (hsub z hz),
      (hfirst.trans hmerge').trans (hwithin.mono hsub'), fun z => ?_, fun _ hx' => ?_,
      fun hnone => absurd ⟨p, ?_, ?_⟩ hnone⟩
    · exact ((isFreeNode_congr hattr z).trans (isFreeNode_congr ha z)).trans (hopen z)
    · have hx' := hsub x hx'
      simp only [List.mem_append, List.mem_cons] at hx' hnot
      tauto
    · rw [h.toLayout.prev_eq, List.getLast?_concat]
    · rw [← hbefore p List.getLast?_concat]
      exact hp

/-! ## Allocating -/

/-- Splitting a block writes its descriptor, the new one behind it, the one behind that, and the
head of a bucket. -/
lemma splitNode_within (h : Layout a s nodes) (hb : Binned v s buckets B)
    (hB : ∀ z, B z → z ∈ nodes) (hx : x ∈ nodes) (siz m rest : UInt32) :
    Within s (splitNode v s x siz m rest) (fun z => z ∈ nodes ∨ z = x + m) ∧
      (splitNode v s x siz m rest).next x = some (x + m) := by
  obtain ⟨s1, heq, hn1, hp1, -, hs1, ha1, hhn1, hhp1, ht1⟩ := splitNode_eq v s x siz m rest
  have hlinks : Within s s1 (fun z => z ∈ nodes ∨ z = x + m) := by
    refine within_of_fields fun z hz => ?_
    obtain ⟨hznot, hzm⟩ := not_or.mp hz
    have hzx : z ≠ x := fun he => hznot (he ▸ hx)
    rw [hn1, hp1, hs1, ha1, hhn1, hhp1, Function.update_of_ne hzx, Function.update_of_ne hzm,
      Function.update_of_ne hzm, Function.update_of_ne hzx, Function.update_of_ne hzm]
    refine ⟨?_, rfl, rfl, rfl, rfl, rfl⟩
    cases hny : s.next x with
    | none => rfl
    | some n =>
      have hzn : z ≠ n := by
        rintro rfl
        exact hznot (h.chain.linked.next_mem hx hny)
      exact Function.update_of_ne hzn _ _
  have happend := hashAppend_within (s := s1) (j := calcHashIndex v.maxHashEntry rest)
    (fun y hy => hB y (hb.of_head (calcHashIndex_lt v rest) (ht1 ▸ hy))) (x + m)
  rw [heq]
  refine ⟨(hlinks.trans happend).trans ((makeFree_within _ _).mono fun z hz => .inr hz), ?_⟩
  change s1.next x = _
  rw [hn1, Function.update_self]

/-- Allocating writes descriptors of the heap before or after it. -/
theorem Shape.allocate_within (h : Shape a s live nodes buckets) {siz : UInt32} {q : Ptr}
    {live' : Ptr → Option UInt32} {nodes' : List Ptr} {buckets' : ℕ → List Ptr}
    (hq : (Allocator.allocate v s siz).1 = some q) (hlive : (live' q).isSome)
    (h' : Shape a (Allocator.allocate v s siz).2 live' nodes' buckets') :
    Within s (Allocator.allocate v s siz).2 (fun z => z ∈ nodes ∨ z ∈ nodes') := by
  obtain ⟨n, hn⟩ := Option.isSome_iff_exists.mp hlive
  obtain ⟨y, hy, -, hqy⟩ := h'.lived q n hn
  rw [Allocator.allocate] at hq h' ⊢
  cases hfound : Allocator.searchTable v.maxHashEntry s siz
      (calcHashIndex v.maxHashEntry (siz + SIZEOF_NODE)) with
  | none => exact Within.refl s _
  | some found =>
    obtain ⟨j, x⟩ := found
    rw [hfound] at hq h'
    dsimp only at hq h' ⊢
    obtain ⟨hx, hfree, rfl, -⟩ := h.searchTable hfound
    obtain rfl : y = x := (UInt32.add_left_inj _).mp (hqy.symm.trans (Option.some.inj hq).symm)
    have hdelete := (h.binned.hashDelete_within ⟨hx, hfree⟩).mono fun z hz => hz.1
    have htake : Within s (makeOccupied (hashDelete s y (hashIndex v s y)) y) (· ∈ nodes) :=
      hdelete.trans ((makeOccupied_within _ _).mono fun z hz => hz ▸ hx)
    obtain ⟨buckets1, hb⟩ := h.binned.delete ⟨hx, hfree⟩
    have hsame := hashDelete_same s y (hashIndex v s y)
    have hlayout : Layout a (makeOccupied (hashDelete s y (hashIndex v s y)) y) nodes :=
      h.toLayout.congr ⟨hsame.1, hsame.2, hsame.3, hsame.4⟩
    have hbinned : Binned v (makeOccupied (hashDelete s y (hashIndex v s y)) y) buckets1 _ :=
      hb.congr rfl rfl rfl (fun _ _ => rfl) fun _ => Iff.rfl
    split_ifs at h' ⊢
    · obtain ⟨hsplit, hnext⟩ := splitNode_within hlayout hbinned (fun z hz => hz.1.1) hx siz
        (siz + SIZEOF_NODE) (v.rest (s.size y) siz)
      have hmem := h'.chain.linked.next_mem hy hnext
      refine (htake.mono fun z hz => .inl hz).trans (hsplit.mono ?_)
      rintro z (hz | rfl)
      · exact .inl hz
      · exact .inr hmem
    · exact htake.mono fun z hz => .inl hz

end Within

end Sgos.Allocator
