import Sgos.BlockCacheLists
import Sgos.WriteBackCache

/-!
# Coherence of the block cache

The buffers with a device are a write-back cache of the devices. In a run that reaches none of the
defects, whoever gets a buffer gets what was stored last for the block, and no write is issued for
a buffer without a device.
-/
namespace Sgos.BlockCache
open LinkedChain WriteBackCache GuardedRun

variable {Data : Type*}

/-- The buffers as copies of blocks. -/
def cache (devs : Ptr → Device) (m : State Data) : Cache Ptr (Device × UInt32) Data where
  tag p := (m.device p).map fun dev => cell devs m dev p
  data := m.data
  dirty := m.dirty
  disk := m.disk

/-- The number of holders of a buffer. -/
def holders (held : List Holder) (buf : Ptr) : ℕ := held.countP fun h => h.buf = buf

/-- The lists, the tags, the counts and the contents fit together. `v` is the value of each
block. -/
structure Inv (devs : Ptr → Device) (s : System Data) (xs : Option Ptr → List Ptr)
    (v : Device × UInt32 → Data) : Prop where
  links : Links s.mem xs
  device_eq : ∀ dev, ∀ p ∈ xs (some dev), s.mem.device p = some dev
  tagged : ∀ p dev, s.mem.device p = some dev → p ∈ xs none ∨ p ∈ xs (some dev)
  block_lt : ∀ p dev, s.mem.device p = some dev → s.mem.block p < 536870912
  stamped : ∀ p, s.mem.dirty p = true → s.mem.device p ≠ none
  coherent : Coherent (cache devs s.mem) v
  value_eq : ∀ dev block, block < 536870912 → v (devs dev, BLOCK_TO_SECTOR block) =
    (s.latest (dev, block)).getD (s.mem.disk (devs dev, BLOCK_TO_SECTOR block))
  held_mem : ∀ h ∈ s.held, h.buf ∈ xs (some h.dev) ∧ s.mem.block h.buf = h.block
  reference_eq : ∀ dev, ∀ p ∈ xs (some dev), (s.mem.reference p).toNat = holders s.held p
  reference_pos : ∀ dev, ∀ p ∈ xs (some dev), 0 < holders s.held p
  reference_free : ∀ p ∈ xs none, s.mem.reference p = 0

lemma BLOCK_TO_SECTOR_inj {a b : UInt32} (ha : a < 536870912) (hb : b < 536870912)
    (h : BLOCK_TO_SECTOR a = BLOCK_TO_SECTOR b) : a = b := by
  have hnat := congrArg UInt32.toNat h
  rw [UInt32.lt_iff_toNat_lt] at ha hb
  simp only [BLOCK_TO_SECTOR, UInt32.toNat_mul, UInt32.reduceToNat] at hnat ha hb
  apply UInt32.toNat_inj.mp
  omega

variable {devs : Ptr → Device} {s : System Data} {xs : Option Ptr → List Ptr}
  {v : Device × UInt32 → Data} {dev buf : Ptr} {block : UInt32}

lemma Links.findHeld_eq {m : State Data} (h : Links m xs) (dev : Ptr) (block : UInt32) :
    findHeld m dev block = (xs (some dev)).find? (fun p => m.block p = block) := by
  have hchain := h.attached dev
  rw [findHeld, hchain.head_eq]
  exact search_eq_find hchain.linked (nodup_length_le hchain.nodup)

lemma Links.findFree_eq {m : State Data} (h : Links m xs) (dev : Ptr) (block : UInt32) :
    findFree m dev block = (xs none).reverse.find?
      (fun p => m.device p = some dev ∧ m.block p = block) := by
  have hchain := h.free
  rw [findFree, h.tail_eq, ← List.head?_reverse]
  exact search_eq_find hchain.linked.reverse
    (nodup_length_le (List.nodup_reverse.mpr hchain.nodup))

namespace Inv

lemma tag_eq (hdev : s.mem.device buf = some dev) :
    (cache devs s.mem).tag buf = some (devs dev, BLOCK_TO_SECTOR (s.mem.block buf)) := by
  simp [cache, hdev, cell]

/-- A buffer for the block has its value. -/
lemma data_eq (h : Inv devs s xs v) (hdev : s.mem.device buf = some dev) :
    s.mem.data buf = v (devs dev, BLOCK_TO_SECTOR (s.mem.block buf)) :=
  h.coherent.data_eq buf _ (tag_eq hdev)

/-- A block that is found nowhere has no copy. -/
lemma no_copy (h : Inv devs s xs v) (hdevs : Function.Injective devs) (hblock : block < 536870912)
    (hheld : findHeld s.mem dev block = none) (hfree : findFree s.mem dev block = none) (q : Ptr) :
    (cache devs s.mem).tag q ≠ some (devs dev, BLOCK_TO_SECTOR block) := by
  intro hq
  rw [h.links.findHeld_eq, List.find?_eq_none] at hheld
  rw [h.links.findFree_eq, List.find?_eq_none] at hfree
  obtain ⟨d, hd, hcell⟩ := Option.map_eq_some_iff.mp hq
  obtain ⟨hdd, hsector⟩ := Prod.mk.inj hcell
  obtain rfl := hdevs hdd
  have hb := BLOCK_TO_SECTOR_inj (h.block_lt q d hd) hblock hsector
  rcases h.tagged q d hd with hmem | hmem
  · exact hfree q (List.mem_reverse.mpr hmem) (by simp [hd, hb])
  · exact hheld q hmem (by simp [hb])

lemma not_held (h : Inv devs s xs v) (hbuf : buf ∈ xs none) : holders s.held buf = 0 := by
  rw [holders, List.countP_eq_zero]
  intro k hk hkb
  rw [decide_eq_true_iff] at hkb
  have hmem := (h.held_mem k hk).1
  rw [hkb] at hmem
  cases h.links.family.apart _ _ _ hmem hbuf

/-- The copy in `buf` is written to its device and is clean. -/
lemma writeBack (h : Inv devs s xs v) (hdevs : Function.Injective devs)
    (hdev : s.mem.device buf = some dev) :
    Inv devs { s with mem := { s.mem with
      dirty := Function.update s.mem.dirty buf false
      disk := Function.update s.mem.disk (cell devs s.mem dev buf) (s.mem.data buf) } } xs v where
  links := h.links.of_eq rfl rfl rfl rfl rfl
  device_eq := h.device_eq
  tagged := h.tagged
  block_lt := h.block_lt
  stamped p hp := by
    have hne : p ≠ buf := by
      rintro rfl
      simp at hp
    exact h.stamped p (by simpa [hne] using hp)
  coherent := h.coherent.writeBack (tag_eq hdev)
  value_eq d b hb := by
    have hval := h.value_eq d b hb
    change v _ = (s.latest (d, b)).getD (Function.update s.mem.disk _ _ _)
    by_cases hk : (devs d, BLOCK_TO_SECTOR b) = cell devs s.mem dev buf
    · have hdata : s.mem.data buf = v (devs d, BLOCK_TO_SECTOR b) := by
        rw [h.data_eq hdev, hk]
        rfl
      rw [← hk, Function.update_self, hdata]
      cases hl : s.latest (d, b) with
      | none => rfl
      | some x => simpa [hl] using hval
    · rwa [Function.update_of_ne hk]
  held_mem := h.held_mem
  reference_eq := h.reference_eq
  reference_pos := h.reference_pos
  reference_free := h.reference_free

variable (dev) in
/-- A clean free buffer takes the contents of a block that has no copy. -/
lemma refill (h : Inv devs s xs v) (hbuf : buf ∈ xs none) (hclean : s.mem.dirty buf = false)
    (hblock : block < 536870912)
    (hno : ∀ q, (cache devs s.mem).tag q ≠ some (devs dev, BLOCK_TO_SECTOR block)) :
    Inv devs { s with mem := { s.mem with
      block := Function.update s.mem.block buf block
      device := Function.update s.mem.device buf (some dev)
      reference := Function.update s.mem.reference buf 0
      dirty := Function.update s.mem.dirty buf false
      data := Function.update s.mem.data buf
        (s.mem.disk (devs dev, BLOCK_TO_SECTOR block)) } } xs v := by
  have hout : ∀ d, ∀ p ∈ xs (some d), p ≠ buf := by
    rintro d p hp rfl
    cases h.links.family.apart _ _ _ hp hbuf
  have hcache : cache devs { s.mem with
      block := Function.update s.mem.block buf block
      device := Function.update s.mem.device buf (some dev)
      reference := Function.update s.mem.reference buf 0
      dirty := Function.update s.mem.dirty buf false
      data := Function.update s.mem.data buf
        (s.mem.disk (devs dev, BLOCK_TO_SECTOR block)) } =
      { cache devs s.mem with
        tag := Function.update (Function.update (cache devs s.mem).tag buf none) buf
          (some (devs dev, BLOCK_TO_SECTOR block))
        data := Function.update s.mem.data buf (s.mem.disk (devs dev, BLOCK_TO_SECTOR block))
        dirty := Function.update s.mem.dirty buf false } := by
    simp only [cache, Cache.mk.injEq, and_true]
    funext p
    by_cases hp : p = buf
    · simp [hp, cell]
    · simp [hp, cell]
  exact
    { links := h.links.of_eq rfl rfl rfl rfl rfl
      device_eq := fun d p hp => by simpa [hout d p hp] using h.device_eq d p hp
      tagged := fun p d hd => by
        by_cases hp : p = buf
        · exact .inl (hp ▸ hbuf)
        · exact h.tagged p d (by simpa [hp] using hd)
      block_lt := fun p d hd => by
        by_cases hp : p = buf
        · simpa [hp] using hblock
        · simpa [hp] using h.block_lt p d (by simpa [hp] using hd)
      stamped := fun p hd => by
        by_cases hp : p = buf
        · simp [hp]
        · simpa [hp] using h.stamped p (by simpa [hp] using hd)
      coherent := by
        rw [hcache]
        refine (h.coherent.drop fun _ _ => hclean).fill (by simp) (fun q => ?_) false
        by_cases hq : q = buf
        · simp [hq]
        · simpa [hq] using hno q
      value_eq := h.value_eq
      held_mem := fun k hk => by
        obtain ⟨hmem, heq⟩ := h.held_mem k hk
        exact ⟨hmem, by simpa [hout _ _ hmem] using heq⟩
      reference_eq := fun d p hp => by simpa [hout d p hp] using h.reference_eq d p hp
      reference_pos := h.reference_pos
      reference_free := fun p hp => by
        by_cases hpb : p = buf
        · simp [hpb]
        · simpa [hpb] using h.reference_free p hp }

/-- A buffer that is held gets one more holder. -/
lemma share (h : Inv devs s xs v) (hbuf : buf ∈ xs (some dev)) (hblock : s.mem.block buf = block)
    (hmax : s.mem.reference buf ≠ 65535) :
    Inv devs { s with
      mem := s.mem.setReference buf (s.mem.reference buf + 1)
      held := ⟨buf, dev, block⟩ :: s.held } xs v where
  links := h.links.of_eq rfl rfl rfl rfl rfl
  device_eq := h.device_eq
  tagged := h.tagged
  block_lt := h.block_lt
  stamped := h.stamped
  coherent := h.coherent
  value_eq := h.value_eq
  held_mem k hk := by
    rcases List.mem_cons.mp hk with rfl | hk
    · exact ⟨hbuf, hblock⟩
    · exact h.held_mem k hk
  reference_eq d p hp := by
    have href := h.reference_eq d p hp
    by_cases hpb : p = buf
    · subst hpb
      have hlt : (s.mem.reference p).toNat ≠ 65535 := fun he => hmax (UInt16.toNat_inj.mp he)
      have hbound := (s.mem.reference p).toNat_lt
      simp only [State.setReference, Function.update_self, UInt16.toNat_add, UInt16.reduceToNat,
        holders, List.countP_cons, decide_true, if_true] at href ⊢
      omega
    · simpa [State.setReference, hpb, holders, List.countP_cons, Ne.symm hpb] using href
  reference_pos d p hp := by
    have hpos := h.reference_pos d p hp
    simp only [holders, List.countP_cons] at hpos ⊢
    omega
  reference_free p hp := by
    have hpb : p ≠ buf := by
      rintro rfl
      cases h.links.family.apart _ _ _ hbuf hp
    simpa [State.setReference, hpb] using h.reference_free p hp

/-- A free buffer that has the block moves to the list of its device. -/
lemma hold (h : Inv devs s xs v) (hbuf : buf ∈ xs none) (hdev : s.mem.device buf = some dev)
    (hblock : s.mem.block buf = block) :
    ∃ ys, Inv devs { s with
      mem := attach (unlinkFree s.mem buf) dev buf
      held := ⟨buf, dev, block⟩ :: s.held } ys v := by
  have hnd := h.links.free.nodup
  have hlinks := unlinkFree_links h.links hbuf
  have hzero := h.not_held hbuf
  have hapart : ∀ d, buf ∉ xs (some d) := fun d hd => by
    cases h.links.family.apart _ _ _ hd hbuf
  have hout : ∀ i, buf ∉ Function.update xs none ((xs none).erase buf) i := by
    intro i
    cases i with
    | none => simpa using hnd.not_mem_erase
    | some d => simpa using hapart d
  obtain ⟨ys, hys⟩ : ∃ ys, ys = Function.update (Function.update xs none ((xs none).erase buf))
      (some dev) (buf :: xs (some dev)) := ⟨_, rfl⟩
  have hfree : ys none = (xs none).erase buf := by simp [hys]
  have hown : ys (some dev) = buf :: xs (some dev) := by simp [hys]
  have hother : ∀ d, d ≠ dev → ys (some d) = xs (some d) := fun d hd => by simp [hys, hd]
  have hmem : ∀ d p, p ∈ ys (some d) → p = buf ∧ d = dev ∨ p ≠ buf ∧ p ∈ xs (some d) := by
    intro d p hp
    by_cases hd : d = dev
    · subst hd
      rw [hown] at hp
      rcases List.mem_cons.mp hp with rfl | hp
      · exact .inl ⟨rfl, rfl⟩
      · exact .inr ⟨fun he => hapart d (he ▸ hp), hp⟩
    · rw [hother d hd] at hp
      exact .inr ⟨fun he => hapart d (he ▸ hp), hp⟩
  have hsub : ∀ d p, p ∈ xs (some d) → p ∈ ys (some d) := by
    intro d p hp
    by_cases hd : d = dev
    · subst hd
      rw [hown]
      exact List.mem_cons_of_mem _ hp
    · rwa [hother d hd]
  refine ⟨ys, ?_⟩
  rw [attach_eq hlinks (hout (some dev))]
  exact
    { links := by
        have hnew : Links (linkDevice (unlinkFree s.mem buf) dev buf) _ :=
          linkDevice_links hlinks hout
        rw [Function.update_of_ne (by simp), ← hys] at hnew
        exact hnew.of_eq rfl rfl rfl rfl rfl
      device_eq := fun d p hp => by
        rcases hmem d p hp with ⟨rfl, rfl⟩ | ⟨-, hp⟩
        · exact hdev
        · exact h.device_eq d p hp
      tagged := fun p d hd => by
        by_cases hpb : p = buf
        · subst hpb
          obtain rfl := Option.some.inj (hdev.symm.trans hd)
          exact .inr (hown ▸ List.mem_cons_self)
        · rcases h.tagged p d hd with hp | hp
          · exact .inl (hfree ▸ (List.mem_erase_of_ne hpb).mpr hp)
          · exact .inr (hsub d p hp)
      block_lt := h.block_lt
      stamped := h.stamped
      coherent := h.coherent
      value_eq := h.value_eq
      held_mem := fun k hk => by
        rcases List.mem_cons.mp hk with rfl | hk
        · exact ⟨hown ▸ List.mem_cons_self, hblock⟩
        · obtain ⟨hp, heq⟩ := h.held_mem k hk
          exact ⟨hsub _ _ hp, heq⟩
      reference_eq := fun d p hp => by
        have hcount : holders (⟨buf, dev, block⟩ :: s.held) p =
            holders s.held p + if buf = p then 1 else 0 := by
          simp [holders, List.countP_cons]
        rcases hmem d p hp with ⟨rfl, rfl⟩ | ⟨hpb, hp⟩
        · rw [hcount, hzero]
          simp [State.setReference, linkDevice, unlinkFree, h.reference_free p hbuf]
        · rw [hcount, if_neg (Ne.symm hpb)]
          simpa [State.setReference, linkDevice, unlinkFree, hpb] using h.reference_eq d p hp
      reference_pos := fun d p hp => by
        rcases hmem d p hp with ⟨rfl, rfl⟩ | ⟨hpb, hp⟩
        · simp [holders]
        · have hpos := h.reference_pos d p hp
          simp only [holders, List.countP_cons] at hpos ⊢
          omega
      reference_free := fun p hp => by
        rw [hfree] at hp
        have hpb : p ≠ buf := by
          rintro rfl
          exact hnd.not_mem_erase hp
        simpa [State.setReference, linkDevice, unlinkFree, hpb] using
          h.reference_free p (List.mem_of_mem_erase hp) }

/-- A holder stores to its buffer. -/
lemma store (h : Inv devs s xs v) (hdevs : Function.Injective devs) {k : Holder} (hk : k ∈ s.held)
    (d : Data) :
    Inv devs { s with
      mem := { s.mem with
        data := Function.update s.mem.data k.buf d
        dirty := Function.update s.mem.dirty k.buf true }
      latest := Function.update s.latest (k.dev, k.block) (some d) } xs
      (Function.update v (devs k.dev, BLOCK_TO_SECTOR k.block) d) := by
  obtain ⟨hmem, hblock⟩ := h.held_mem k hk
  have hdev := h.device_eq k.dev k.buf hmem
  have htag : (cache devs s.mem).tag k.buf = some (devs k.dev, BLOCK_TO_SECTOR k.block) := by
    rw [← hblock]
    exact tag_eq hdev
  exact
    { links := h.links.of_eq rfl rfl rfl rfl rfl
      device_eq := h.device_eq
      tagged := h.tagged
      block_lt := h.block_lt
      stamped := fun p hp => by
        by_cases hpk : p = k.buf
        · subst hpk
          simp [hdev]
        · exact h.stamped p (by simpa [hpk] using hp)
      coherent := h.coherent.store htag
      value_eq := fun e b hb => by
        have hval := h.value_eq e b hb
        by_cases heq : (e, b) = (k.dev, k.block)
        · obtain ⟨rfl, rfl⟩ := Prod.mk.inj heq
          simp
        · have hne : (devs e, BLOCK_TO_SECTOR b) ≠ (devs k.dev, BLOCK_TO_SECTOR k.block) := by
            intro he
            obtain ⟨hd, hs⟩ := Prod.mk.inj he
            have hkb : k.block < 536870912 := hblock ▸ h.block_lt k.buf k.dev hdev
            exact heq (by rw [hdevs hd, BLOCK_TO_SECTOR_inj hb hkb hs])
          simpa [hne, heq] using hval
      held_mem := h.held_mem
      reference_eq := h.reference_eq
      reference_pos := h.reference_pos
      reference_free := h.reference_free }

lemma holders_erase {k : Holder} {held : List Holder} (hk : k ∈ held) (p : Ptr) :
    holders (held.erase k) p = holders held p - if k.buf = p then 1 else 0 := by
  simp [holders, List.countP_erase, hk]

/-- A holder gives its buffer back while others keep theirs. -/
lemma put_shared (h : Inv devs s xs v) {k : Holder} (hk : k ∈ s.held)
    (hmore : 1 < holders s.held k.buf) :
    Inv devs { s with
      mem := s.mem.setReference k.buf (s.mem.reference k.buf - 1)
      held := s.held.erase k } xs v := by
  obtain ⟨hmem, -⟩ := h.held_mem k hk
  exact
    { links := h.links.of_eq rfl rfl rfl rfl rfl
      device_eq := h.device_eq
      tagged := h.tagged
      block_lt := h.block_lt
      stamped := h.stamped
      coherent := h.coherent
      value_eq := h.value_eq
      held_mem := fun k' hk' => h.held_mem k' (List.mem_of_mem_erase hk')
      reference_eq := fun d p hp => by
        have href := h.reference_eq d p hp
        rw [holders_erase hk]
        by_cases hpk : p = k.buf
        · subst hpk
          have hone : (1 : UInt16) ≤ s.mem.reference k.buf := by
            rw [UInt16.le_iff_toNat_le, href]
            exact hmore.le
          simp only [State.setReference, Function.update_self, if_true]
          rw [UInt16.toNat_sub_of_le _ _ hone, href]
          rfl
        · simpa [State.setReference, hpk, Ne.symm hpk] using href
      reference_pos := fun d p hp => by
        have hpos := h.reference_pos d p hp
        rw [holders_erase hk]
        by_cases hpk : k.buf = p
        · subst hpk
          rw [if_pos rfl]
          omega
        · rwa [if_neg hpk, Nat.sub_zero]
      reference_free := fun p hp => by
        have hpk : p ≠ k.buf := by
          rintro rfl
          cases h.links.family.apart _ _ _ hmem hp
        simpa [State.setReference, hpk] using h.reference_free p hp }

/-- The last holder gives its buffer back: it moves to the free list. -/
lemma put_last (h : Inv devs s xs v) {k : Holder} (hk : k ∈ s.held)
    (hlast : holders s.held k.buf = 1) :
    ∃ ys, Inv devs { s with
      mem := freebufPut (unlinkDevice (s.mem.setReference k.buf (s.mem.reference k.buf - 1))
        k.dev k.buf) k.buf
      held := s.held.erase k } ys v := by
  obtain ⟨hmem, -⟩ := h.held_mem k hk
  have hnd := (h.links.attached k.dev).nodup
  have hmem₀ : Links (s.mem.setReference k.buf (s.mem.reference k.buf - 1)) xs :=
    h.links.of_eq rfl rfl rfl rfl rfl
  have hlinks := unlinkDevice_links hmem₀ hmem
  have hapart : ∀ i, i ≠ some k.dev → k.buf ∉ xs i := fun i hi hmi =>
    hi (h.links.family.apart _ _ _ hmi hmem)
  have hout : ∀ i, k.buf ∉ Function.update xs (some k.dev) ((xs (some k.dev)).erase k.buf) i := by
    intro i
    by_cases hi : i = some k.dev
    · subst hi
      simpa using hnd.not_mem_erase
    · simpa [hi] using hapart i hi
  obtain ⟨ys, hys⟩ : ∃ ys, ys = Function.update
      (Function.update xs (some k.dev) ((xs (some k.dev)).erase k.buf)) none
      (xs none ++ [k.buf]) := ⟨_, rfl⟩
  have hfree : ys none = xs none ++ [k.buf] := by simp [hys]
  have hown : ∀ d p, p ∈ ys (some d) ↔ p ≠ k.buf ∧ p ∈ xs (some d) := by
    intro d p
    by_cases hd : d = k.dev
    · subst hd
      simp [hys, hnd.mem_erase_iff]
    · simp only [hys, ne_eq, reduceCtorEq, not_false_eq_true, Function.update_of_ne,
        Option.some.injEq, hd]
      refine ⟨fun hp => ⟨?_, hp⟩, And.right⟩
      rintro rfl
      exact hapart (some d) (by simpa using hd) hp
  have hgone : ∀ k' ∈ s.held.erase k, k'.buf ≠ k.buf := by
    intro k' hk' he
    have hcount := holders_erase hk k.buf
    rw [hlast, if_pos rfl, holders, List.countP_eq_zero] at hcount
    exact hcount k' hk' (by simpa using he)
  have hkeep : ∀ p, p ≠ k.buf → holders (s.held.erase k) p = holders s.held p := by
    intro p hp
    rw [holders_erase hk, if_neg (Ne.symm hp), Nat.sub_zero]
  refine ⟨ys, ?_⟩
  rw [freebufPut_eq hlinks (hout none)]
  exact
    { links := by
        have hnew := linkFree_links hlinks hout
        rw [Function.update_of_ne (by simp), ← hys] at hnew
        exact hnew
      device_eq := fun d p hp => h.device_eq d p ((hown d p).mp hp).2
      tagged := fun p d hd => by
        rw [hfree, hown]
        by_cases hpk : p = k.buf
        · simp [hpk]
        · rcases h.tagged p d hd with hp | hp
          · exact .inl (by simp [hp])
          · exact .inr ⟨hpk, hp⟩
      block_lt := h.block_lt
      stamped := h.stamped
      coherent := h.coherent
      value_eq := h.value_eq
      held_mem := fun k' hk' => by
        obtain ⟨hp, heq⟩ := h.held_mem k' (List.mem_of_mem_erase hk')
        exact ⟨(hown _ _).mpr ⟨hgone k' hk', hp⟩, heq⟩
      reference_eq := fun d p hp => by
        obtain ⟨hpk, hp⟩ := (hown d p).mp hp
        rw [hkeep p hpk]
        simpa [linkFree, unlinkDevice, State.setReference, hpk] using h.reference_eq d p hp
      reference_pos := fun d p hp => by
        obtain ⟨hpk, hp⟩ := (hown d p).mp hp
        rw [hkeep p hpk]
        exact h.reference_pos d p hp
      reference_free := fun p hp => by
        rw [hfree] at hp
        by_cases hpk : p = k.buf
        · subst hpk
          have href : s.mem.reference k.buf = 1 := by
            apply UInt16.toNat_inj.mp
            rw [h.reference_eq k.dev k.buf hmem, hlast]
            rfl
          simp [linkFree, unlinkDevice, State.setReference, href]
        · have hpx : p ∈ xs none := by simpa [hpk] using hp
          simpa [linkFree, unlinkDevice, State.setReference, hpk] using h.reference_free p hpx }

/-- The device of a clean free buffer is forgotten. -/
lemma forget (h : Inv devs s xs v) (hbuf : buf ∈ xs none) (hclean : s.mem.dirty buf = false) :
    Inv devs { s with mem := s.mem.setDevice buf none } xs v where
  links := h.links.of_eq rfl rfl rfl rfl rfl
  device_eq d p hp := by
    have hpb : p ≠ buf := by
      rintro rfl
      cases h.links.family.apart _ _ _ hp hbuf
    simpa [State.setDevice, hpb] using h.device_eq d p hp
  tagged p d hd := by
    by_cases hpb : p = buf
    · exact .inl (hpb ▸ hbuf)
    · exact h.tagged p d (by simpa [State.setDevice, hpb] using hd)
  block_lt p d hd := by
    have hpb : p ≠ buf := by
      rintro rfl
      simp [State.setDevice] at hd
    exact h.block_lt p d (by simpa [State.setDevice, hpb] using hd)
  stamped p hp := by
    have hpb : p ≠ buf := by
      rintro rfl
      simp [State.setDevice, hclean] at hp
    simpa [State.setDevice, hpb] using h.stamped p hp
  coherent := by
    have hcache : cache devs (s.mem.setDevice buf none) =
        { cache devs s.mem with tag := Function.update (cache devs s.mem).tag buf none } := by
      simp only [cache, State.setDevice, Cache.mk.injEq, and_true]
      funext p
      by_cases hpb : p = buf <;> simp [hpb, cell]
    rw [hcache]
    exact h.coherent.drop fun _ _ => hclean
  value_eq := h.value_eq
  held_mem := h.held_mem
  reference_eq := h.reference_eq
  reference_pos := h.reference_pos
  reference_free := h.reference_free

end Inv

/-! ## The operations -/

/-- A put by a holder succeeds. -/
lemma Inv.put (h : Inv devs s xs v) {k : Holder} (hk : k ∈ s.held) :
    ∃ mem ys, bufferPut s.mem k.buf = some mem ∧
      Inv devs { s with mem, held := s.held.erase k } ys v := by
  obtain ⟨hmem, -⟩ := h.held_mem k hk
  have href := h.reference_eq k.dev k.buf hmem
  have hpos := h.reference_pos k.dev k.buf hmem
  have hdev := h.device_eq k.dev k.buf hmem
  have hlinks : Links (s.mem.setReference k.buf (s.mem.reference k.buf - 1)) xs :=
    h.links.of_eq rfl rfl rfl rfl rfl
  by_cases hlast : holders s.held k.buf = 1
  · have hone : s.mem.reference k.buf = 1 := by
      apply UInt16.toNat_inj.mp
      rw [href, hlast]
      rfl
    obtain ⟨ys, hys⟩ := h.put_last hk hlast
    refine ⟨_, ys, ?_, hys⟩
    have hzero : (s.mem.setReference k.buf (s.mem.reference k.buf - 1)).reference k.buf = 0 := by
      simp [State.setReference, hone]
    simp only [bufferPut]
    rw [if_pos hzero, chainDelete_eq hlinks hmem hdev, Option.map_some]
  · refine ⟨_, xs, ?_, h.put_shared hk (by omega)⟩
    have hne : (s.mem.setReference k.buf (s.mem.reference k.buf - 1)).reference k.buf ≠ 0 := by
      simp only [State.setReference, Function.update_self]
      intro hz
      have hone : (1 : UInt16) ≤ s.mem.reference k.buf := by
        rw [UInt16.le_iff_toNat_le, href]
        exact hpos
      have hnat := congrArg UInt16.toNat hz
      rw [UInt16.toNat_sub_of_le _ _ hone, href] at hnat
      simp only [UInt16.reduceToNat] at hnat
      omega
    simp only [bufferPut]
    rw [if_neg hne]

lemma syncBuffer_clean (devs : Ptr → Device) (reply : Ptr → Reply Data) {m : State Data}
    (hclean : m.dirty buf = false) :
    syncBuffer devs reply m buf = m ∨ syncBuffer devs reply m buf = m.setDevice buf none := by
  cases hd : m.device buf with
  | none => exact .inl (by simp only [syncBuffer, hd])
  | some dev =>
    right
    simp only [syncBuffer, hd, hclean]
    rfl

lemma Inv.sync_list (reply : Ptr → Reply Data) (ps : List Ptr) :
    ∀ s : System Data, Inv devs s xs v → (∀ p ∈ ps, p ∈ xs none ∧ s.mem.dirty p = false) →
      Inv devs { s with mem := ps.foldl (syncBuffer devs reply) s.mem } xs v := by
  induction ps with
  | nil => exact fun s h _ => h
  | cons p ps ih =>
    intro s h hps
    obtain ⟨hp, hclean⟩ := hps p List.mem_cons_self
    have hrest : ∀ q ∈ ps, q ∈ xs none ∧ s.mem.dirty q = false := fun q hq =>
      hps q (List.mem_cons_of_mem _ hq)
    rw [List.foldl_cons]
    rcases syncBuffer_clean devs reply hclean with he | he
    · rw [he]
      exact ih s h hrest
    · rw [he]
      exact ih { s with mem := s.mem.setDevice p none } (h.forget hp hclean) hrest

/-- With clean free buffers, `buffer_sync` only forgets what they contain. -/
lemma Inv.sync (h : Inv devs s xs v) (reply : Ptr → Reply Data)
    (hclean : search s.mem.next s.mem.dirty addressSpace s.mem.freebufHead = none) :
    Inv devs { s with mem := bufferSync devs s.mem reply } xs v := by
  have hchain := h.links.free
  have hlen := nodup_length_le hchain.nodup
  rw [hchain.head_eq, search_eq_find hchain.linked hlen, List.find?_eq_none] at hclean
  have hall : ∀ p ∈ xs none, p ∈ xs none ∧ s.mem.dirty p = false := fun p hp =>
    ⟨hp, by simpa using hclean p hp⟩
  have hwalk : bufferSync devs s.mem reply = (xs none).foldl (syncBuffer devs reply) s.mem := by
    rw [bufferSync, hchain.head_eq, walk_eq_walkList hchain.linked hlen]
    rcases walkList_cases (fun _ _ => false) (syncBuffer devs reply) s.mem (xs none) with
      ⟨_, _, _, _, hstop, _⟩ | he
    · cases hstop
    · rw [he]
  rw [hwalk]
  exact h.sync_list reply (xs none) s hall

lemma eq_ok_of_isOk {r : Reply Data} (h : r.isOk = true) : r = .ok := by
  cases r with
  | ok => rfl
  | failed _ => cases h

/-- The buffer that is reused is written if it is dirty, and read. -/
lemma bufferGet_miss {fs : List Ptr} (h : Inv devs s xs v) (hfs : xs none = buf :: fs)
    (hheld : findHeld s.mem dev block = none) (hfree : findFree s.mem dev block = none)
    {write : Reply Data} (hwrite : s.mem.dirty buf = true → write.isOk = true) :
    ∃ disk, bufferGet devs s.mem dev block write .ok = some (some buf,
        attach (unlinkFree { s.mem with
          block := Function.update s.mem.block buf block
          device := Function.update s.mem.device buf (some dev)
          reference := Function.update s.mem.reference buf 0
          dirty := Function.update s.mem.dirty buf false
          data := Function.update s.mem.data buf (disk (devs dev, BLOCK_TO_SECTOR block))
          disk } buf) dev buf) ∧
      (s.mem.dirty buf = false → disk = s.mem.disk) ∧
      (s.mem.dirty buf = true → ∃ d, s.mem.device buf = some d ∧
        disk = Function.update s.mem.disk (cell devs s.mem d buf) (s.mem.data buf)) := by
  have hget := freebufGet_eq h.links hfs
  cases hdirty : s.mem.dirty buf with
  | false =>
    refine ⟨s.mem.disk, ?_, fun _ => rfl, by simp⟩
    simp only [bufferGet, hheld, hfree, hget]
    simp [unlinkFree, hdirty, readBlock, cell, State.setDevice, State.setReference, Reply.contents]
  | true =>
    obtain ⟨d, hd⟩ := Option.ne_none_iff_exists'.mp (h.stamped buf hdirty)
    obtain rfl := eq_ok_of_isOk (hwrite hdirty)
    refine ⟨Function.update s.mem.disk (cell devs s.mem d buf) (s.mem.data buf), ?_,
      by simp, fun _ => ⟨d, hd, rfl⟩⟩
    simp only [bufferGet, hheld, hfree, hget]
    simp [unlinkFree, hdirty, hd, writeBlock, readBlock, cell, State.setDevice,
      State.setReference, Reply.contents]

/-- A get that reaches no defect keeps the invariant; a buffer it returns has a new holder. -/
lemma Inv.get (h : Inv devs s xs v) (hdevs : Function.Injective devs) {write read : Reply Data}
    (hok : getOk s.mem dev block write read) :
    ∃ result mem ys, bufferGet devs s.mem dev block write read = some (result, mem) ∧
      Inv devs { s with
        mem
        held := (result.map fun buf => ⟨buf, dev, block⟩).toList ++ s.held } ys v := by
  rw [getOk, Bool.and_eq_true, decide_eq_true_eq] at hok
  obtain ⟨hblock, hok⟩ := hok
  cases hheld : findHeld s.mem dev block with
  | some p =>
    have hfind := hheld
    rw [h.links.findHeld_eq] at hfind
    have hp := List.mem_of_find?_eq_some hfind
    have hpb := List.find?_some hfind
    refine ⟨some p, _, xs, ?_, h.share hp (by simpa using hpb) (by simpa [hheld] using hok)⟩
    simp only [bufferGet, hheld]
  | none =>
    cases hfree : findFree s.mem dev block with
    | some p =>
      have hfind := hfree
      rw [h.links.findFree_eq] at hfind
      have hp := List.mem_reverse.mp (List.mem_of_find?_eq_some hfind)
      obtain ⟨hdev, hpb⟩ : s.mem.device p = some dev ∧ s.mem.block p = block := by
        simpa using List.find?_some hfind
      obtain ⟨ys, hys⟩ := h.hold hp hdev hpb
      refine ⟨some p, _, ys, ?_, hys⟩
      simp only [bufferGet, hheld, hfree, freebufRemove_eq h.links hp]
    | none =>
      cases hfs : xs none with
      | nil =>
        refine ⟨none, s.mem, xs, ?_, h⟩
        simp only [bufferGet, hheld, hfree, freebufGet_nil h.links hfs]
      | cons p fs =>
        have hp : p ∈ xs none := by simp [hfs]
        have hhead : s.mem.freebufHead = some p := by
          rw [h.links.free.head_eq, hfs, List.head?_cons]
        obtain ⟨hclean, hread⟩ : (s.mem.dirty p = false ∨ write.isOk = true) ∧
            read.isOk = true := by
          simpa [hheld, hfree, hhead] using hok
        have hwrite : s.mem.dirty p = true → write.isOk = true := fun hd =>
          hclean.resolve_left (by simp [hd])
        obtain rfl := eq_ok_of_isOk hread
        obtain ⟨disk, hget, hclean, hdirty⟩ := bufferGet_miss h hfs hheld hfree hwrite
        have hno := h.no_copy hdevs hblock hheld hfree
        -- after the write the reused buffer is clean
        have hrefill : Inv devs { s with mem := { s.mem with
            block := Function.update s.mem.block p block
            device := Function.update s.mem.device p (some dev)
            reference := Function.update s.mem.reference p 0
            dirty := Function.update s.mem.dirty p false
            data := Function.update s.mem.data p (disk (devs dev, BLOCK_TO_SECTOR block))
            disk } } xs v := by
          cases hd : s.mem.dirty p with
          | false =>
            obtain rfl := hclean hd
            exact h.refill dev hp hd hblock hno
          | true =>
            obtain ⟨d, hdev, rfl⟩ := hdirty hd
            have hnew := (h.writeBack hdevs hdev).refill dev hp (by simp) hblock hno
            simpa using hnew
        have hdev : Function.update s.mem.device p (some dev) p = some dev :=
          Function.update_self ..
        have hpb : Function.update s.mem.block p block p = block := Function.update_self ..
        obtain ⟨ys, hys⟩ := hrefill.hold hp hdev hpb
        exact ⟨some p, _, ys, hget, hys⟩

/-! ## Runs -/

/-- The system at the end of `buffer_init`. -/
def System.init (data : Ptr → Data) (disk : Device × UInt32 → Data) (bufs : List Ptr) :
    System Data :=
  ⟨bufferInit data disk bufs, [], fun _ => none⟩

lemma bufferInit_links (data : Ptr → Data) (disk : Device × UInt32 → Data) {bufs : List Ptr}
    (hnd : bufs.Nodup) :
    ∃ xs, Links (bufferInit data disk bufs) xs ∧ xs none = bufs ∧ (∀ dev, xs (some dev) = []) ∧
      SameContents (State.cleared data disk) (bufferInit data disk bufs) := by
  induction bufs using List.reverseRecOn with
  | nil =>
    refine ⟨fun _ => [], ⟨?_, rfl⟩, rfl, fun _ => rfl, ⟨rfl, rfl, rfl, rfl, rfl, rfl⟩⟩
    have hhead : (State.cleared data disk).head = fun _ => none := by
      funext i
      cases i <;> rfl
    change Family _ _ (State.cleared data disk).head _
    rw [hhead]
    exact family_nil
  | append_singleton bufs buf ih =>
    obtain ⟨hnd', -, hdis⟩ := List.nodup_append'.mp hnd
    obtain ⟨xs, hlinks, hfree, hown, hsame⟩ := ih hnd'
    have hbuf : ∀ i, buf ∉ xs i := by
      intro i
      cases i with
      | none =>
        rw [hfree]
        exact fun hm => hdis hm (List.mem_singleton_self buf)
      | some d => simp [hown d]
    have hput : bufferInit data disk (bufs ++ [buf]) = linkFree (bufferInit data disk bufs) buf := by
      rw [← freebufPut_eq hlinks (hbuf none)]
      simp [bufferInit, List.foldl_append]
    rw [hput]
    refine ⟨_, linkFree_links hlinks hbuf, by simp [hfree], fun d => by simp [hown d],
      hsame.trans (linkFree_contents _ _)⟩

/-- After `buffer_init` nothing is cached, and the values are those of the devices. -/
lemma init_inv (devs : Ptr → Device) (data : Ptr → Data) (disk : Device × UInt32 → Data)
    {bufs : List Ptr} (hnd : bufs.Nodup) :
    ∃ xs, Inv devs (System.init data disk bufs) xs disk := by
  obtain ⟨xs, hlinks, hfree, hown, hsame⟩ := bufferInit_links data disk hnd
  have hdevice : (bufferInit data disk bufs).device = fun _ => none := hsame.device
  have hcache : cache devs (bufferInit data disk bufs) =
      ⟨fun _ => none, data, fun _ => false, disk⟩ := by
    simp [cache, hdevice, hsame.data, hsame.dirty, hsame.disk, State.cleared]
  refine ⟨xs, ?_⟩
  exact
    { links := hlinks
      device_eq := fun d p hp => by simp [hown d] at hp
      tagged := fun p d hd => by simp [System.init, hdevice] at hd
      block_lt := fun p d hd => by simp [System.init, hdevice] at hd
      stamped := fun p hp => by simp [System.init, hsame.dirty, State.cleared] at hp
      coherent := by
        change Coherent (cache devs (bufferInit data disk bufs)) disk
        rw [hcache]
        exact coherent_empty _ _ _
      value_eq := fun d b _ => by simp [System.init, hsame.disk, State.cleared]
      held_mem := fun k hk => by simp [System.init] at hk
      reference_eq := fun d p hp => by simp [hown d] at hp
      reference_pos := fun d p hp => by simp [hown d] at hp
      reference_free := fun p _ => by simp [System.init, hsame.reference, State.cleared] }

/-- One operation that reaches no defect: the law holds of it, and the invariant after it. -/
lemma Inv.step (h : Inv devs s xs v) (hdevs : Function.Injective devs) {op : Op Data}
    (hproper : Proper s op) (hok : StepOk s op) :
    Law devs s op ∧ ∃ ys w, Inv devs (step devs s op) ys w := by
  cases op with
  | get dev block write read =>
    have hlt : block < 536870912 := by
      change getOk _ _ _ _ _ = true at hok
      rw [getOk, Bool.and_eq_true, decide_eq_true_eq] at hok
      exact hok.1
    obtain ⟨result, mem, ys, hget, hinv⟩ := h.get hdevs hok
    constructor
    · refine ⟨result, mem, hget, ?_⟩
      rintro buf rfl
      obtain ⟨hmem, hblock⟩ := hinv.held_mem ⟨buf, dev, block⟩ (by simp)
      have hdata := hinv.data_eq (hinv.device_eq dev buf hmem)
      rw [hblock, hinv.value_eq dev block hlt] at hdata
      exact hdata
    · refine ⟨ys, v, ?_⟩
      cases result <;> simpa [BlockCache.step, hget] using hinv
  | store k d => exact ⟨trivial, xs, _, h.store hdevs hproper d⟩
  | put k =>
    obtain ⟨mem, ys, hput, hinv⟩ := h.put hproper
    refine ⟨trivial, ys, v, ?_⟩
    simpa [BlockCache.step, hput] using hinv
  | sync reply => exact ⟨trivial, xs, v, h.sync reply hok⟩

/-- In every run that reaches none of the defects, every buffer that is got has what was stored
last for its block, or else what the device has, and no write is issued without a device. -/
theorem run_coherent (hdevs : Function.Injective devs) (data : Ptr → Data)
    (disk : Device × UInt32 → Data) {bufs : List Ptr} (hnd : bufs.Nodup) {ops : List (Op Data)}
    (hok : Guarded (step devs) (fun s op => Proper s op ∧ StepOk s op)
      (System.init data disk bufs) ops) :
    Guarded (step devs) (Law devs) (System.init data disk bufs) ops := by
  obtain ⟨xs, hinit⟩ := init_inv devs data disk hnd
  refine hok.law (fun s => ∃ xs v, Inv devs s xs v) ?_ ⟨xs, disk, hinit⟩
  rintro s op ⟨xs, v, h⟩ ⟨hproper, hstep⟩
  exact h.step hdevs hproper hstep

/-- A block is stored, evicted and got again. -/
def evicted : List (Op UInt8) :=
  [.get 1 5 .ok .ok, .store ⟨16, 1, 5⟩ 9, .put ⟨16, 1, 5⟩, .get 1 6 .ok .ok, .put ⟨32, 1, 6⟩,
    .get 1 7 .ok .ok, .put ⟨16, 1, 7⟩, .get 1 5 .ok .ok]

lemma address_injective : Function.Injective fun p : Ptr => Device.mk p 0 :=
  fun _ _ h => (Device.mk.inj h).1

theorem run_coherent_evicted :
    Guarded (step fun p => ⟨p, 0⟩) (Law fun p => ⟨p, 0⟩)
      (System.init (fun _ => 0) (fun _ => 0) [16, 32]) evicted :=
  run_coherent address_injective _ _ (by decide) (by decide +kernel)

/-- A read fails and leaves 7 in the buffer, which stays on the free list as a copy of the
block. -/
theorem run_not_coherent : ¬ ∀ (devs : Ptr → Device) (data : Ptr → UInt8)
    (disk : Device × UInt32 → UInt8) (bufs : List Ptr) (ops : List (Op UInt8)),
    Function.Injective devs → bufs.Nodup →
    Guarded (step devs) Proper (System.init data disk bufs) ops →
    Guarded (step devs) (Law devs) (System.init data disk bufs) ops := by
  intro h
  have hlaw := h (fun p => ⟨p, 0⟩) (fun _ => 0) (fun _ => 0) [16]
    [.get 1 5 .ok (.failed 7), .get 1 5 .ok .ok] address_injective (by decide) (by decide +kernel)
  revert hlaw
  decide +kernel

end Sgos.BlockCache
