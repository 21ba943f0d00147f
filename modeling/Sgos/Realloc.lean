import Sgos.AllocatorCompleteness
import Sgos.AllocatorWrites

/-!
# Reallocation

`mm_realloc` of the kernel and `realloc` of the user library free the block and allocate another
one; nothing is copied. The contents survive exactly if the search comes back to the block that was
just freed.
-/
namespace Sgos.Allocator
open LinkedChain Tiling GuardedRun

def mmRealloc (s : Heap) (p : Option Ptr) (siz : UInt32) : Option Ptr × Heap :=
  mmAlloc (mmFree s p).2 siz

/-- `none` is a call that does not return. -/
def realloc (s : Library) (mem : Option Ptr) (p : Option Ptr) (siz : UInt32) :
    Option (Option Ptr × Library) := do
  let s ← free s p
  malloc s mem siz

/-! ## The law of reallocation -/

/-- An occupied block of at least `n` bytes. -/
def LiveBlock (s : Heap) (p : Ptr) (n : UInt32) : Prop :=
  ∃ x, Reaches s.next s.firstNode x ∧ isFreeNode s x = false ∧ p = x + SIZEOF_NODE ∧ n ≤ s.size x

/-- The bytes outside of the descriptors that were written. -/
def SameBytes (s s' : Heap) (bytes bytes' : ℕ → UInt8) : Prop :=
  ∀ z, (∀ x, readNode s' x ≠ readNode s x → z < x.toNat ∨ x.toNat + SIZEOF_NODE.toNat ≤ z) →
    bytes' z = bytes z

/-- The first `n` bytes at `q` are what those at `p` were. -/
def Holds (bytes bytes' : ℕ → UInt8) (p q : Ptr) (n : ℕ) : Prop :=
  ∀ i < n, bytes' (q.toNat + i) = bytes (p.toNat + i)

/-- The heap `s'` after a reallocation of the block `p` of `n` bytes that returned `q`: the block
has the new size and the old contents, or it is as it was. All other blocks are as they were. -/
def Keeps (s : Heap) (live : Ptr → Option UInt32) (p : Ptr) (n siz : UInt32) (q : Option Ptr)
    (s' : Heap) : Prop :=
  ∀ bytes bytes', SameBytes s s' bytes bytes' →
    (∀ r m, live r = some m → r ≠ p → LiveBlock s' r m ∧ Holds bytes bytes' r r m.toNat) ∧
    match q with
    | some q => LiveBlock s' q siz ∧ Holds bytes bytes' p q (min n.toNat siz.toNat)
    | none => LiveBlock s' p n ∧ Holds bytes bytes' p p n.toNat

/-- The block before `x` is occupied, `x` and a free block behind it are long enough, and no other
free block that is long enough is in a lower bucket than these two together. -/
structure InPlace (v : Variant) (s : Heap) (x : Ptr) (siz : UInt32) : Prop where
  prev : ¬ Absorbed s x
  fits : siz ≤ room s x
  first : ∀ y, Reaches s.next s.firstNode y → isFreeNode s y = true → ¬ Absorbs s x y →
    siz ≤ s.size y →
      calcHashIndex v.maxHashEntry (room s x + SIZEOF_NODE) ≤ hashIndex v s y

/-! ## The search after a block was freed -/
section Search
variable {v : Variant} {a : Arena v} {s : Heap} {live : Ptr → Option UInt32} {nodes : List Ptr}
  {buckets : ℕ → List Ptr} {x y : Ptr} {siz : UInt32}

/-- The buckets that are searched, up to one of them and behind it. -/
lemma range'_split {i k m : ℕ} (hi : i ≤ k) (hk : k < m) :
    List.range' i (m - i) = List.range' i (k - i) ++ k :: List.range' (k + 1) (m - 1 - k) := by
  obtain ⟨d, rfl⟩ := Nat.exists_eq_add_of_le hi
  rw [← List.range'_succ, Nat.add_sub_cancel_left, List.range'_append_1]
  congr 1
  omega

lemma Shape.searchBucket_eq (h : Shape a s live nodes buckets) (siz : UInt32) {j : ℕ}
    (hj : j < v.maxHashEntry) :
    searchBucket s siz j = (buckets j).find? fun nod => siz ≤ s.size nod := by
  have hchain := h.binned.chain j hj
  rw [searchBucket, hchain.head_eq, search_eq_find hchain.linked (nodup_length_le hchain.nodup)]

/-- A free block at the head of its bucket is the one that is found if it is long enough and no
lower bucket has a block that is. -/
lemma Shape.searchTable_head (h : Shape a s live nodes buckets) (hx : x ∈ nodes)
    (htable : s.freeTable (hashIndex v s x) = some x) (hsiz : siz ≤ s.size x)
    (hfirst : ∀ y ∈ nodes, isFreeNode s y = true → siz ≤ s.size y →
      hashIndex v s x ≤ hashIndex v s y) :
    Allocator.searchTable v.maxHashEntry s siz (calcHashIndex v.maxHashEntry (siz + SIZEOF_NODE)) =
      some (hashIndex v s x, x) := by
  have hlt := hashIndex_lt v s x
  have hhead : searchBucket s siz (hashIndex v s x) = some x := by
    have hchain := h.binned.chain _ hlt
    rw [h.searchBucket_eq siz hlt]
    obtain ⟨rest, hrest⟩ := List.head?_eq_some_iff.mp (hchain.head_eq.symm.trans htable)
    simp only [hrest, List.find?_cons, decide_eq_true hsiz]
  rw [Allocator.searchTable, range'_split (h.toLayout.index_le hx hsiz) hlt]
  refine List.findSome?_eq_some_iff.mpr ⟨_, _, _, rfl, ?_, fun j hj => ?_⟩
  · rw [hhead, Option.map_some]
  · have hj := List.mem_range'_1.mp hj
    have hjlt : j < v.maxHashEntry := by omega
    rw [Option.map_eq_none_iff, h.searchBucket_eq siz hjlt, List.find?_eq_none]
    intro y hy hysiz
    obtain ⟨⟨hmem, hfree⟩, rfl⟩ := (h.binned.mem j hjlt y).mp hy
    have hle := hfirst y hmem hfree (of_decide_eq_true hysiz)
    omega

/-- No block that is long enough is in a lower bucket than the one that is found. -/
lemma Shape.searchTable_least (h : Shape a s live nodes buckets) {j : ℕ}
    (hfound : Allocator.searchTable v.maxHashEntry s siz
      (calcHashIndex v.maxHashEntry (siz + SIZEOF_NODE)) = some (j, x))
    (hy : y ∈ nodes) (hfree : isFreeNode s y = true) (hsiz : siz ≤ s.size y) :
    j ≤ hashIndex v s y := by
  by_contra hlt
  obtain ⟨before, k, behind, hrange, hk, hnone⟩ := List.findSome?_eq_some_iff.mp hfound
  obtain ⟨z, -, hpair⟩ := Option.map_eq_some_iff.mp hk
  obtain ⟨rfl, rfl⟩ := Prod.mk.inj hpair
  have hkmem := List.mem_range'_1.mp (hrange ▸ (by simp : k ∈ before ++ k :: behind))
  have hymem : hashIndex v s y ∈ before ++ k :: behind := by
    rw [← hrange]
    have hle := h.toLayout.index_le hy hsiz
    exact List.mem_range'_1.mpr ⟨hle, by omega⟩
  have hbefore : hashIndex v s y ∈ before := by
    have hsorted := hrange ▸ List.pairwise_lt_range' (s := calcHashIndex v.maxHashEntry
      (siz + SIZEOF_NODE)) (n := v.maxHashEntry - calcHashIndex v.maxHashEntry
        (siz + SIZEOF_NODE))
    have hbehind := (List.pairwise_cons.mp (List.pairwise_append.mp hsorted).2.1).1
    rcases List.mem_append.mp hymem with hm | hm
    · exact hm
    · rcases List.mem_cons.mp hm with he | hm
      · omega
      · have := hbehind _ hm
        omega
  have hbucket := Option.map_eq_none_iff.mp (hnone _ hbefore)
  have hmem := (h.binned.mem _ (hashIndex_lt v s y) y).mpr ⟨⟨hy, hfree⟩, rfl⟩
  exact UInt32.not_le.mpr (h.searchBucket_none (hashIndex_lt v s y) hbucket hmem) hsiz

end Search


/-! ## One reallocation -/
section Call
variable {v : Variant} {a : Arena v} {s s' : Heap} {live live' : Ptr → Option UInt32}
  {nodes nodes' : List Ptr} {buckets : ℕ → List Ptr} {x p q : Ptr} {n siz m : UInt32}

/-- The bytes of a block are in no descriptor. -/
lemma Layout.clear (h : Layout a s nodes) (hx : x ∈ nodes) {z : ℕ}
    (hlow : x.toNat + SIZEOF_NODE.toNat ≤ z)
    (hhigh : z < x.toNat + SIZEOF_NODE.toNat + (s.size x).toNat) :
    ∀ y ∈ nodes, z < y.toNat ∨ y.toNat + SIZEOF_NODE.toNat ≤ z := by
  intro y hy
  by_cases hyx : y = x
  · subst hyx
    exact .inr hlow
  · have happart := h.tiles.apart hx hy hyx
    simp only [span] at happart
    omega

/-- A block that is live before and after keeps the bytes it has in both heaps. -/
lemma Blocks.holds (h : Blocks a s live nodes) (h' : Blocks a s' live' nodes')
    (hwithin : Within s s' fun z => z ∈ nodes ∨ z ∈ nodes') {bytes bytes' : ℕ → UInt8}
    (hsame : SameBytes s s' bytes bytes') (hp : live p = some n) (hp' : live' p = some m) {k : ℕ}
    (hk : k ≤ n.toNat) (hkm : k ≤ m.toNat) : Holds bytes bytes' p p k := by
  obtain ⟨x, hx, rfl, hpos, hle⟩ := h.block hp
  obtain ⟨y, hy, hxy, -, hle'⟩ := h'.block hp'
  obtain rfl := (UInt32.add_left_inj _).mp hxy
  intro i hi
  refine hsame _ fun z hz => ?_
  have hmem : z ∈ nodes ∨ z ∈ nodes' := by
    by_contra hnot
    exact hz (hwithin z hnot)
  rcases hmem with hz | hz
  · exact h.toLayout.clear hx (by omega) (by omega) z hz
  · exact h'.toLayout.clear hy (by omega) (by omega) z hz

lemma Blocks.liveBlock (h : Blocks a s live nodes) (hp : live p = some n) : LiveBlock s p n := by
  obtain ⟨x, hx, hocc, rfl⟩ := h.lived p n hp
  obtain ⟨m, hm, -, hle⟩ := h.owned x hx hocc
  obtain rfl := Option.some.inj (hm.symm.trans hp)
  exact ⟨x, h.chain.reaches_iff.mpr hx, hocc, rfl, UInt32.le_iff_toNat_le.mpr hle⟩

/-- The search after the block at `x` was freed finds it again exactly if it stays in place. -/
lemma inPlace_iff (h : Shape a s live nodes buckets) {buckets' : ℕ → List Ptr}
    (h' : Shape a s' live' nodes' buckets') (hx : x ∈ nodes)
    (hocc : isFreeNode s x = false) (hfreed : Freed v s s' x nodes nodes') :
    InPlace v s x siz ↔ (allocate v s' siz).1 = some (x + SIZEOF_NODE) := by
  have hfree : isFreeNode s' x = true := by rw [hfreed.free, decide_eq_true rfl, Bool.true_or]
  constructor
  · intro hin
    have hkept := hfreed.kept hin.prev
    have hindex : hashIndex v s' x = calcHashIndex v.maxHashEntry (room s x + SIZEOF_NODE) := by
      rw [hashIndex, hkept.size_eq]
    have hfound : searchTable v.maxHashEntry s' siz
        (calcHashIndex v.maxHashEntry (siz + SIZEOF_NODE)) = some (hashIndex v s' x, x) := by
      refine h'.searchTable_head hkept.mem hkept.table (hkept.size_eq.symm ▸ hin.fits) ?_
      intro y hy hyfree hysiz
      by_cases hyx : y = x
      · rw [hyx]
      · obtain ⟨hynodes, hnot⟩ := (hkept.others y hyx).mp hy
        rw [hfreed.free, decide_eq_false hyx, Bool.false_or] at hyfree
        rw [hkept.size_other y hyx] at hysiz
        have hle := hin.first y (h.chain.reaches_iff.mpr hynodes) hyfree hnot hysiz
        rwa [hindex, hashIndex, hkept.size_other y hyx, ← hashIndex]
    rw [allocate, hfound]
  · intro hq
    rw [allocate] at hq
    cases hfound : searchTable v.maxHashEntry s' siz
        (calcHashIndex v.maxHashEntry (siz + SIZEOF_NODE)) with
    | none =>
      rw [hfound] at hq
      cases hq
    | some found =>
      obtain ⟨j, y⟩ := found
      rw [hfound] at hq
      obtain rfl : y = x := (UInt32.add_left_inj _).mp (Option.some.inj hq)
      obtain ⟨hmem, -, rfl, hsiz⟩ := h'.searchTable hfound
      have hprev : ¬ Absorbed s y := fun habs => hfreed.absorbed habs hmem
      have hkept := hfreed.kept hprev
      rw [hkept.size_eq] at hsiz
      refine ⟨hprev, UInt32.le_iff_toNat_le.mpr hsiz, fun z hz hzfree hnot hzsiz => ?_⟩
      have hzy : z ≠ y := (ne_of_free hzfree hocc).symm
      have hznodes := (hkept.others z hzy).mpr ⟨h.chain.reaches_iff.mp hz, hnot⟩
      have hle := h'.searchTable_least hfound hznodes
        (by rw [hfreed.free, hzfree, Bool.or_true]) (by rwa [hkept.size_other z hzy])
      rwa [hashIndex, hkept.size_eq, hashIndex, hkept.size_other z hzy, ← hashIndex] at hle

/-- The block at `x` is free, if it is still there. -/
lemma Freed.not_liveBlock (h : Freed v s s' x nodes nodes') :
    ¬ LiveBlock s' (x + SIZEOF_NODE) n := by
  rintro ⟨z, hz, hzocc, hxz, -⟩
  obtain rfl := (UInt32.add_left_inj _).mp hxz
  rw [h.free, decide_eq_true rfl] at hzocc
  cases hzocc

/-- Freeing a live block and allocating another one keeps the contents exactly if the block stays
in place. -/
lemma keeps_iff (h : Shape a s live nodes buckets) (hp : live p = some n) (hsiz : siz ≠ 0)
    (hle : siz.toNat ≤ m.toNat) :
    let r := allocate v (coalesce v (makeFree s (p - SIZEOF_NODE)) (p - SIZEOF_NODE)) m
    Keeps s live p n siz r.1 r.2 ↔ InPlace v s (p - SIZEOF_NODE) m := by
  obtain ⟨x, hx, hocc, rfl⟩ := h.lived p n hp
  obtain ⟨n', hn', hnpos, -⟩ := h.owned x hx hocc
  obtain rfl := Option.some.inj (hn'.symm.trans hp)
  rw [UInt32.add_sub_cancel]
  obtain ⟨nodes1, buckets1, h1, hfreed⟩ := coalesce_freed h hx hocc
  generalize coalesce v (makeFree s x) x = s1 at h1 hfreed ⊢
  have hpos : 0 < siz.toNat := Nat.pos_of_ne_zero fun h0 => hsiz (UInt32.toNat_inj.mp h0)
  have hother : ∀ r k, live r = some k → r ≠ x + SIZEOF_NODE →
      Function.update live (x + SIZEOF_NODE) none r = some k := fun r k hr hne => by
    rw [Function.update_of_ne hne, hr]
  dsimp only
  rw [inPlace_iff h h1 hx hocc hfreed]
  rcases h1.allocate hpos hle with hnone | ⟨y, nodes2, buckets2, hq, hnew, h2⟩
  · rw [hnone]
    refine ⟨fun hkeeps => ?_, nofun⟩
    -- the block that was to be kept is free
    obtain ⟨-, hlive, -⟩ := hkeeps (fun _ => 0) (fun _ => 0) fun _ _ => rfl
    exact absurd hlive hfreed.not_liveBlock
  · have hwithin : Within s (allocate v s1 m).2 fun z => z ∈ nodes ∨ z ∈ nodes2 := by
      refine (hfreed.within.mono fun z hz => .inl hz).trans ?_
      refine (h1.allocate_within hq (by rw [Function.update_self]; rfl) h2).mono ?_
      rintro z (hz | hz)
      · exact .inl (hfreed.sub z hz)
      · exact .inr hz
    generalize allocate v s1 m = r at hq h2 hwithin ⊢
    obtain ⟨q, s2⟩ := r
    dsimp only at hq h2 hwithin ⊢
    subst hq
    constructor
    · intro hkeeps
      -- contents that tell the old place from all others
      obtain ⟨-, -, hholds⟩ := hkeeps (fun z => if z = (x + SIZEOF_NODE).toNat then 1 else 0)
        (fun z => if z = (x + SIZEOF_NODE).toNat then 1 else 0) fun _ _ => rfl
      have hbyte := hholds 0 (by omega)
      simp only [Nat.add_zero, if_true] at hbyte
      by_contra hne
      rw [if_neg fun he => hne (congrArg some (UInt32.toNat_inj.mp he))] at hbyte
      exact absurd hbyte (by decide)
    · intro hy
      obtain rfl := (UInt32.add_left_inj _).mp (Option.some.inj hy)
      intro bytes bytes' hsame
      have hself : Function.update (Function.update live (y + SIZEOF_NODE) none)
          (y + SIZEOF_NODE) (some siz) (y + SIZEOF_NODE) = some siz := Function.update_self ..
      refine ⟨fun r k hr hne => ?_, h2.liveBlock hself, h.holds h2.toBlocks hwithin hsame hp hself
        (Nat.min_le_left _ _) (Nat.min_le_right _ _)⟩
      have hr' : Function.update (Function.update live (y + SIZEOF_NODE) none)
          (y + SIZEOF_NODE) (some siz) r = some k := by
        rw [Function.update_of_ne hne, hother r k hr hne]
      exact ⟨h2.liveBlock hr', h.holds h2.toBlocks hwithin hsame hr hr' le_rfl le_rfl⟩

/-- A reallocation to no bytes frees the block. -/
lemma not_keeps_zero (h : Shape a s live nodes buckets) (hp : live p = some n) :
    ¬ Keeps s live p n 0 none (coalesce v (makeFree s (p - SIZEOF_NODE)) (p - SIZEOF_NODE)) := by
  obtain ⟨x, hx, hocc, rfl⟩ := h.lived p n hp
  rw [UInt32.add_sub_cancel]
  obtain ⟨nodes1, buckets1, h1, hfreed⟩ := coalesce_freed h hx hocc
  intro hkeeps
  obtain ⟨-, hlive, -⟩ := hkeeps (fun _ => 0) (fun _ => 0) fun _ _ => rfl
  exact hfreed.not_liveBlock hlive

end Call

/-! ## Reallocation in every state of the heap -/
section Runs

/-- The kernel's reallocation in a heap that is in shape. -/
lemma mmRealloc_keeps_iff {a : Arena kernelVariant} {s : Heap} {live : Ptr → Option UInt32}
    (h : Lawful a s live) {p : Ptr} {n : UInt32} (hp : live p = some n) (siz : UInt32) :
    Keeps s live p n siz (mmRealloc s (some p) siz).1 (mmRealloc s (some p) siz).2 ↔
      siz ≠ 0 ∧ InPlace kernelVariant s (p - SIZEOF_NODE) siz := by
  have hocc := (h.free (show (live p).isSome by rw [hp]; rfl)).1
  obtain ⟨nodes, buckets, hshape⟩ := h
  have hfree : (mmFree s (some p)).2 =
      coalesce kernelVariant (makeFree s (p - SIZEOF_NODE)) (p - SIZEOF_NODE) := by
    simp only [mmFree, hocc, Bool.false_eq_true, if_false]
  rw [mmRealloc, hfree, mmAlloc]
  by_cases hsiz : siz = 0
  · rw [if_pos hsiz]
    subst hsiz
    exact ⟨fun hkeeps => absurd hkeeps (not_keeps_zero hshape hp), fun hne => absurd rfl hne.1⟩
  · have hone := keeps_iff hshape hp hsiz le_rfl
    rw [if_neg hsiz]
    exact ⟨fun hkeeps => ⟨hsiz, hone.mp hkeeps⟩, fun hin => hone.mpr hin.2⟩

/-- The library's reallocation between two calls; it asks for at least eight bytes. -/
lemma realloc_keeps_iff {s : LibraryState} (h : LibraryLawful s) (mem : Option Ptr) {p : Ptr}
    {n : UInt32} (hp : s.live p = some n) (siz : UInt32) :
    ∃ q t, realloc s.library mem (some p) siz = some (q, t) ∧
      (Keeps s.library.heap s.live p n siz q t.heap ↔ siz ≠ 0 ∧
        InPlace libraryVariant s.library.heap (p - SIZEOF_NODE) (if siz < 8 then 8 else siz)) := by
  rcases h with ⟨-, hnone⟩ | ⟨hmutex, b, hlaw⟩
  · rw [hnone] at hp
    cases hp
  obtain ⟨hocc, hlaw'⟩ := hlaw.free (show (s.live p).isSome by rw [hp]; rfl)
  have hfirst := hlaw'.firstNode
  obtain ⟨nodes, buckets, hshape⟩ := hlaw
  have hfree : free s.library (some p) = some ⟨coalesce libraryVariant
      (makeFree s.library.heap (p - SIZEOF_NODE)) (p - SIZEOF_NODE), 1⟩ := by
    simp only [free, hocc, Bool.false_eq_true, if_false, lock, hmutex]
    rfl
  rw [realloc, hfree, Option.bind_eq_bind, Option.bind_some]
  by_cases hsiz : siz = 0
  · subst hsiz
    exact ⟨none, _, rfl, fun hkeeps => absurd hkeeps (not_keeps_zero hshape hp),
      fun hne => absurd rfl hne.1⟩
  · have hle : siz.toNat ≤ (if siz < 8 then 8 else siz : UInt32).toNat := by
      split_ifs with hlt
      · exact Nat.le_of_lt (UInt32.lt_iff_toNat_lt.mp hlt)
      · exact Nat.le_refl _
    have hone := keeps_iff hshape hp hsiz hle
    exact ⟨_, _, malloc_of_init rfl hfirst mem hsiz, fun hkeeps => ⟨hsiz, hone.mp hkeeps⟩,
      fun hin => hone.mpr hin.2⟩

/-- In every state of either heap, a reallocation of a live block keeps what it has to keep exactly
if it asks for some bytes and the block stays in place. -/
theorem realloc_iff_inPlace (a : Arena kernelVariant) (s : Heap) {cs : List Call}
    (hok : Guarded call CallOk (start a s) cs) {ls : List LibraryEvent}
    (hlok : Guarded libraryStep LibraryStepOk (libraryStart s) ls) :
    (∀ p n siz, (run call (start a s) cs).live p = some n →
      (Keeps (run call (start a s) cs).heap (run call (start a s) cs).live p n siz
          (mmRealloc (run call (start a s) cs).heap (some p) siz).1
          (mmRealloc (run call (start a s) cs).heap (some p) siz).2 ↔
        siz ≠ 0 ∧ InPlace kernelVariant (run call (start a s) cs).heap (p - SIZEOF_NODE) siz)) ∧
    ∀ mem p n siz, (run libraryStep (libraryStart s) ls).live p = some n →
      ∃ q t, realloc (run libraryStep (libraryStart s) ls).library mem (some p) siz =
          some (q, t) ∧
        (Keeps (run libraryStep (libraryStart s) ls).library.heap
            (run libraryStep (libraryStart s) ls).live p n siz q t.heap ↔
          siz ≠ 0 ∧ InPlace libraryVariant (run libraryStep (libraryStart s) ls).library.heap
            (p - SIZEOF_NODE) (if siz < 8 then 8 else siz)) := by
  obtain ⟨first, hfirst⟩ := initBlock_shape a s
  have hlaw := hok.invariant (fun s => Lawful a s.heap s.live) (call_lawful a) ⟨_, first, hfirst⟩
  have hlibrary := hlok.invariant LibraryLawful libraryStep_lawful (.inl ⟨rfl, fun _ => rfl⟩)
  exact ⟨fun p n siz hp => mmRealloc_keeps_iff hlaw hp siz,
    fun mem p n siz hp => realloc_keeps_iff hlibrary mem hp siz⟩

/-- Two blocks in either heap, of which the kernel's first one is freed. -/
theorem realloc_iff_inPlace_twoBlocks :
    (∀ p n siz, (run call (start kernelArena zeroHeap)
        [.alloc 100, .alloc 1, .free (some 0xC0400018)]).live p = some n →
      (Keeps (run call (start kernelArena zeroHeap)
            [.alloc 100, .alloc 1, .free (some 0xC0400018)]).heap
          (run call (start kernelArena zeroHeap)
            [.alloc 100, .alloc 1, .free (some 0xC0400018)]).live p n siz
          (mmRealloc (run call (start kernelArena zeroHeap)
            [.alloc 100, .alloc 1, .free (some 0xC0400018)]).heap (some p) siz).1
          (mmRealloc (run call (start kernelArena zeroHeap)
            [.alloc 100, .alloc 1, .free (some 0xC0400018)]).heap (some p) siz).2 ↔
        siz ≠ 0 ∧ InPlace kernelVariant (run call (start kernelArena zeroHeap)
          [.alloc 100, .alloc 1, .free (some 0xC0400018)]).heap (p - SIZEOF_NODE) siz)) ∧
    ∀ mem p n siz, (run libraryStep (libraryStart zeroHeap)
        [.malloc (some ⟨0x10000000, by decide⟩) 3, .malloc none 64]).live p = some n →
      ∃ q t, realloc (run libraryStep (libraryStart zeroHeap)
          [.malloc (some ⟨0x10000000, by decide⟩) 3, .malloc none 64]).library mem (some p) siz =
            some (q, t) ∧
        (Keeps (run libraryStep (libraryStart zeroHeap)
              [.malloc (some ⟨0x10000000, by decide⟩) 3, .malloc none 64]).library.heap
            (run libraryStep (libraryStart zeroHeap)
              [.malloc (some ⟨0x10000000, by decide⟩) 3, .malloc none 64]).live p n siz q t.heap ↔
          siz ≠ 0 ∧ InPlace libraryVariant (run libraryStep (libraryStart zeroHeap)
            [.malloc (some ⟨0x10000000, by decide⟩) 3, .malloc none 64]).library.heap
            (p - SIZEOF_NODE) (if siz < 8 then 8 else siz)) :=
  realloc_iff_inPlace kernelArena zeroHeap (by
    refine ⟨trivial, trivial, .inl ?_, trivial⟩
    decide +kernel) ⟨trivial, trivial, trivial⟩

/-- The second of two blocks moves into the first one, which was freed. -/
theorem not_mmRealloc_keeps :
    ¬ ∀ (a : Arena kernelVariant) (s : Heap) (cs : List Call),
      Guarded call CallOk (start a s) cs → ∀ p n siz, (run call (start a s) cs).live p = some n →
        Keeps (run call (start a s) cs).heap (run call (start a s) cs).live p n siz
          (mmRealloc (run call (start a s) cs).heap (some p) siz).1
          (mmRealloc (run call (start a s) cs).heap (some p) siz).2 := by
  intro h
  have hok : Guarded call CallOk (start kernelArena zeroHeap)
      [.alloc 100, .alloc 1, .free (some 0xC0400018)] := by
    refine ⟨trivial, trivial, .inl ?_, trivial⟩
    decide +kernel
  obtain ⟨first, hfirst⟩ := initBlock_shape kernelArena zeroHeap
  have hlaw := hok.invariant (fun s => Lawful kernelArena s.heap s.live) (call_lawful kernelArena)
    ⟨_, first, hfirst⟩
  have hlive : (run call (start kernelArena zeroHeap)
      [.alloc 100, .alloc 1, .free (some 0xC0400018)]).live 0xC0400094 = some 1 := by
    decide +kernel
  have hkeeps := h kernelArena zeroHeap _ hok 0xC0400094 1 1 hlive
  exact ((mmRealloc_keeps_iff hlaw hlive 1).mp hkeeps).2.prev
    ⟨0xC0400000, by decide +kernel, by decide +kernel⟩

end Runs

end Sgos.Allocator
