import Sgos.BlockCacheLaw

/-!
# The places of the buffers

Whatever the devices reply, every buffer stays on one of the lists of `apps/fs/buffer.cpp`: with its
device while it is held, with the free buffers otherwise.
-/
namespace Sgos.BlockCache
open LinkedChain GuardedRun

variable {Data : Type*}

/-- Every buffer is on one list, on that of its device if it is referred to, and no two buffers
stand for the same block of a device. -/
structure InPlace (bufs : List Ptr) (m : State Data) (xs : Option Ptr → List Ptr) : Prop where
  links : Links m xs
  mem_bufs : ∀ i, ∀ p ∈ xs i, p ∈ bufs
  one_list : ∀ p ∈ bufs, ∃! i, p ∈ xs i
  held_iff : ∀ p ∈ bufs, (∃ dev, m.device p = some dev ∧ p ∈ xs (some dev)) ↔ 0 < m.reference p
  identity : ∀ p ∈ bufs, ∀ q ∈ bufs, m.device p ≠ none → m.device p = m.device q →
    m.block p = m.block q → p = q

/-- No buffer has more holders than its count can tell. -/
def Countable (s : System Data) : Prop := ∀ h ∈ s.held, holders s.held h.buf < 65536

instance (s : System Data) : Decidable (Countable s) :=
  inferInstanceAs (Decidable (∀ h ∈ s.held, _))

/-! ## Moves -/

/-- The lists `ys` are the lists `xs` with `buf` moved to the list `j`. -/
def Moved (xs ys : Option Ptr → List Ptr) (buf : Ptr) (j : Option Ptr) : Prop :=
  ∀ i p, p ∈ ys i ↔ p = buf ∧ i = j ∨ p ≠ buf ∧ p ∈ xs i

variable {m : State Data} {xs : Option Ptr → List Ptr} {buf dev : Ptr} {i j : Option Ptr}

/-- A buffer that left its list is on no list. -/
lemma Links.gone (h : Links m xs) (hbuf : buf ∈ xs i) (k : Option Ptr) :
    buf ∉ Function.update xs i ((xs i).erase buf) k := by
  exact fun hmem => ((h.family.mem_unlink hbuf k buf).mp hmem).1 rfl

/-- It left its list and entered another at one of its ends. -/
lemma Links.moved (h : Links m xs) (hbuf : buf ∈ xs i) {l : List Ptr}
    (hl : ∀ p, p ∈ l ↔ p = buf ∨ p ∈ Function.update xs i ((xs i).erase buf) j) :
    Moved xs (Function.update (Function.update xs i ((xs i).erase buf)) j l) buf j := by
  have hleft := h.family.mem_unlink hbuf
  intro k p
  by_cases hk : k = j
  · subst hk
    rw [Function.update_self, hl, hleft]
    simp
  · rw [Function.update_of_ne hk, hleft]
    simp [hk]

/-- From the free buffers to a device. -/
lemma Links.hold (h : Links m xs) (hbuf : buf ∈ xs none) (dev : Ptr) :
    ∃ ys, Moved xs ys buf (some dev) ∧ Links (attach (unlinkFree m buf) dev buf) ys := by
  have hlinks := unlinkFree_links h hbuf
  have hout := h.gone hbuf
  refine ⟨_, h.moved hbuf (l := buf :: Function.update xs none ((xs none).erase buf) (some dev))
    fun p => List.mem_cons, ?_⟩
  rw [attach_eq hlinks (hout _)]
  exact (linkDevice_links hlinks hout).of_eq rfl rfl rfl rfl rfl

/-- From the head of the free buffers to their tail. -/
lemma Links.requeue (h : Links m xs) (hbuf : buf ∈ xs none) :
    ∃ ys, Moved xs ys buf none ∧ Links (freebufPut (unlinkFree m buf) buf) ys := by
  have hlinks := unlinkFree_links h hbuf
  have hout := h.gone hbuf
  refine ⟨_, h.moved hbuf (l := Function.update xs none ((xs none).erase buf) none ++ [buf])
    fun p => by rw [List.mem_append, List.mem_singleton, or_comm], ?_⟩
  rw [freebufPut_eq hlinks (hout _)]
  exact linkFree_links hlinks hout

/-- From a device to the free buffers. -/
lemma Links.giveBack (h : Links m xs) (hbuf : buf ∈ xs (some dev)) :
    ∃ ys, Moved xs ys buf none ∧ Links (freebufPut (unlinkDevice m dev buf) buf) ys := by
  have hlinks := unlinkDevice_links h hbuf
  have hout := h.gone hbuf
  refine ⟨_, h.moved hbuf
    (l := Function.update xs (some dev) ((xs (some dev)).erase buf) none ++ [buf])
    fun p => by rw [List.mem_append, List.mem_singleton, or_comm], ?_⟩
  rw [freebufPut_eq hlinks (hout _)]
  exact linkFree_links hlinks hout

/-! ## Places and holders -/

/-- The lists, the counts and the holders fit together. -/
structure Placed (bufs : List Ptr) (s : System Data) (xs : Option Ptr → List Ptr) : Prop where
  links : Links s.mem xs
  mem_iff : ∀ p, p ∈ bufs ↔ ∃ i, p ∈ xs i
  device_eq : ∀ dev, ∀ p ∈ xs (some dev), s.mem.device p = some dev
  identity : ∀ p ∈ bufs, ∀ q ∈ bufs, s.mem.device p ≠ none → s.mem.device p = s.mem.device q →
    s.mem.block p = s.mem.block q → p = q
  held_mem : ∀ h ∈ s.held, h.buf ∈ xs (some h.dev)
  reference_eq : ∀ p ∈ bufs, (s.mem.reference p).toNat = holders s.held p
  free_iff : ∀ p ∈ bufs, p ∈ xs none ↔ holders s.held p = 0

variable {bufs : List Ptr} {s : System Data} {devs : Ptr → Device} {block : UInt32}

lemma UInt16.pos_iff (n : UInt16) : 0 < n ↔ n.toNat ≠ 0 := by
  rw [UInt16.lt_iff_toNat_lt]
  exact Nat.pos_iff_ne_zero

namespace Placed

lemma mem (h : Placed bufs s xs) (hbuf : buf ∈ xs i) : buf ∈ bufs := (h.mem_iff buf).mpr ⟨i, hbuf⟩

lemma inPlace (h : Placed bufs s xs) : InPlace bufs s.mem xs where
  links := h.links
  mem_bufs i p hp := h.mem hp
  one_list p hp := by
    obtain ⟨i, hi⟩ := (h.mem_iff p).mp hp
    exact ⟨i, hi, fun j hj => h.links.family.apart j i p hj hi⟩
  held_iff p hp := by
    rw [UInt16.pos_iff, h.reference_eq p hp]
    constructor
    · rintro ⟨dev, -, hmem⟩ hzero
      cases h.links.family.apart _ _ _ hmem ((h.free_iff p hp).mpr hzero)
    · intro hpos
      obtain ⟨i, hi⟩ := (h.mem_iff p).mp hp
      cases i with
      | none => exact absurd ((h.free_iff p hp).mp hi) hpos
      | some dev => exact ⟨dev, h.device_eq dev p hi, hi⟩
  identity := h.identity

/-- A buffer that is free is not on the list of a device. -/
lemma free_ne (h : Placed bufs s xs) (hbuf : buf ∈ xs none) {p : Ptr} (hp : p ∈ xs (some dev)) :
    p ≠ buf := by
  rintro rfl
  cases h.links.family.apart _ _ _ hp hbuf

/-- A buffer moves and its holders change with it. -/
lemma move (h : Placed bufs s xs) (hbuf : buf ∈ bufs) {ys : Option Ptr → List Ptr}
    (hmoved : Moved xs ys buf j) {m : State Data} (hlinks : Links m ys)
    (hdevice : m.device = s.mem.device) (hblock : m.block = s.mem.block)
    (hown : ∀ dev, j = some dev → s.mem.device buf = some dev) {held : List Holder}
    (hheld : ∀ k ∈ held, k.buf = buf ∧ some k.dev = j ∨ k.buf ≠ buf ∧ k ∈ s.held)
    (hcount : ∀ p, p ≠ buf → holders held p = holders s.held p)
    (href : ∀ p, p ≠ buf → m.reference p = s.mem.reference p)
    (hbufref : (m.reference buf).toNat = holders held buf)
    (hfree : j = none ↔ holders held buf = 0) :
    Placed bufs { s with mem := m, held } ys where
  links := hlinks
  mem_iff p := by
    rw [h.mem_iff]
    by_cases hp : p = buf
    · subst hp
      exact ⟨fun _ => ⟨j, (hmoved j p).mpr (.inl ⟨rfl, rfl⟩)⟩, fun _ => (h.mem_iff p).mp hbuf⟩
    · exact exists_congr fun i => by rw [hmoved]; simp [hp]
  device_eq dev p hp := by
    rw [hdevice]
    rcases (hmoved _ _).mp hp with ⟨rfl, hj⟩ | ⟨-, hp⟩
    · exact hown dev hj.symm
    · exact h.device_eq dev p hp
  identity := by
    rw [hdevice, hblock]
    exact h.identity
  held_mem k hk := by
    rw [hmoved]
    rcases hheld k hk with ⟨he, hj⟩ | ⟨hne, hk⟩
    · exact .inl ⟨he, hj⟩
    · exact .inr ⟨hne, h.held_mem k hk⟩
  reference_eq p hp := by
    by_cases hpb : p = buf
    · rw [hpb]
      exact hbufref
    · rw [href p hpb, hcount p hpb]
      exact h.reference_eq p hp
  free_iff p hp := by
    rw [hmoved]
    by_cases hpb : p = buf
    · subst hpb
      simpa [eq_comm] using hfree
    · rw [hcount p hpb, ← h.free_iff p hp]
      simp [hpb]

/-- What a free buffer contains and stands for changes. -/
lemma refill (h : Placed bufs s xs) (hbuf : buf ∈ xs none) {m : State Data} (hlinks : Links m xs)
    (hdevice : ∀ p, p ≠ buf → m.device p = s.mem.device p)
    (hblock : ∀ p, p ≠ buf → m.block p = s.mem.block p)
    (href : ∀ p, p ≠ buf → m.reference p = s.mem.reference p) (hzero : m.reference buf = 0)
    (hnew : ∀ dev, m.device buf = some dev → ∀ q ∈ bufs, q ≠ buf → s.mem.device q = some dev →
      s.mem.block q ≠ m.block buf) : Placed bufs { s with mem := m } xs where
  links := hlinks
  mem_iff := h.mem_iff
  device_eq dev p hp := by
    rw [hdevice p (h.free_ne hbuf hp)]
    exact h.device_eq dev p hp
  identity p hp q hq hsome hdev hsame := by
    by_cases hpb : p = buf
    · by_cases hqb : q = buf
      · rw [hpb, hqb]
      · subst hpb
        obtain ⟨dev, hd⟩ := Option.ne_none_iff_exists'.mp hsome
        rw [hdevice q hqb, hd] at hdev
        rw [hblock q hqb] at hsame
        exact absurd hsame.symm (hnew dev hd q hq hqb hdev.symm)
    · by_cases hqb : q = buf
      · subst hqb
        rw [hdevice p hpb] at hsome hdev
        rw [hblock p hpb] at hsame
        obtain ⟨dev, hd⟩ := Option.ne_none_iff_exists'.mp hsome
        exact absurd hsame (hnew dev (hdev.symm.trans hd) p hp hpb hd)
      · rw [hdevice p hpb] at hsome hdev
        rw [hblock p hpb, hblock q hqb] at hsame
        rw [hdevice q hqb] at hdev
        exact h.identity p hp q hq hsome hdev hsame
  held_mem := h.held_mem
  reference_eq p hp := by
    by_cases hpb : p = buf
    · subst hpb
      change (m.reference p).toNat = _
      rw [hzero, (h.free_iff p hp).mp hbuf]
      rfl
    · rw [← h.reference_eq p hp]
      exact congrArg UInt16.toNat (href p hpb)
  free_iff := h.free_iff

/-- A buffer that is found on the list of its device has one more holder. -/
lemma share (h : Placed bufs s xs) (hbuf : buf ∈ xs (some dev))
    (hmax : holders s.held buf + 1 < 65536) :
    Placed bufs { s with
      mem := s.mem.setReference buf (s.mem.reference buf + 1)
      held := ⟨buf, dev, block⟩ :: s.held } xs where
  links := h.links.of_eq rfl rfl rfl rfl rfl
  mem_iff := h.mem_iff
  device_eq := h.device_eq
  identity := h.identity
  held_mem k hk := by
    rcases List.mem_cons.mp hk with rfl | hk
    · exact hbuf
    · exact h.held_mem k hk
  reference_eq p hp := by
    have href := h.reference_eq p hp
    by_cases hpb : p = buf
    · subst hpb
      simp only [State.setReference, Function.update_self, UInt16.toNat_add, UInt16.reduceToNat,
        holders, List.countP_cons, decide_true, if_true] at href hmax ⊢
      omega
    · simpa [State.setReference, hpb, holders, List.countP_cons, Ne.symm hpb] using href
  free_iff p hp := by
    by_cases hpb : p = buf
    · subst hpb
      refine ⟨fun hfree => ?_, fun hzero => ?_⟩
      · exact absurd rfl (h.free_ne hfree hbuf)
      · simp [holders] at hzero
    · simpa [holders, List.countP_cons, Ne.symm hpb] using h.free_iff p hp

/-- A free buffer that has the block goes to its device. -/
lemma hold (h : Placed bufs s xs) (hbuf : buf ∈ xs none) (hdev : s.mem.device buf = some dev) :
    ∃ ys, Placed bufs { s with
      mem := attach (unlinkFree s.mem buf) dev buf
      held := ⟨buf, dev, block⟩ :: s.held } ys := by
  obtain ⟨ys, hmoved, hlinks⟩ := h.links.hold hbuf dev
  have hzero := (h.free_iff buf (h.mem hbuf)).mp hbuf
  have href := h.reference_eq buf (h.mem hbuf)
  have hout : ∀ i, buf ∉ Function.update xs none ((xs none).erase buf) i := h.links.gone hbuf
  have hattach := attach_eq (unlinkFree_links h.links hbuf) (hout (some dev))
  rw [hattach] at hlinks ⊢
  refine ⟨ys, h.move (h.mem hbuf) hmoved hlinks rfl rfl ?_ ?_ ?_ ?_ ?_ ?_⟩
  · intro d hd
    rwa [← Option.some.inj hd]
  · intro k hk
    rcases List.mem_cons.mp hk with rfl | hk
    · exact .inl ⟨rfl, rfl⟩
    · exact .inr ⟨h.free_ne hbuf (h.held_mem k hk), hk⟩
  · intro p hp
    simp [holders, Ne.symm hp]
  · intro p hp
    simp [State.setReference, linkDevice, unlinkFree, hp]
  · rw [hzero] at href
    simp only [holders] at hzero
    simp [State.setReference, linkDevice, unlinkFree, holders, UInt16.toNat_add, href, hzero]
  · simp [holders]

/-- A free buffer goes to the tail of the free buffers. -/
lemma requeue (h : Placed bufs s xs) (hbuf : buf ∈ xs none) :
    ∃ ys, Placed bufs { s with mem := freebufPut (unlinkFree s.mem buf) buf } ys := by
  obtain ⟨ys, hmoved, hlinks⟩ := h.links.requeue hbuf
  have hzero := (h.free_iff buf (h.mem hbuf)).mp hbuf
  rw [freebufPut_eq (unlinkFree_links h.links hbuf) (h.links.gone hbuf none)] at hlinks ⊢
  refine ⟨ys, h.move (h.mem hbuf) hmoved hlinks rfl rfl (fun d hd => ?_) ?_ (fun _ _ => rfl)
    (fun _ _ => rfl) (h.reference_eq buf (h.mem hbuf)) (by simp [hzero])⟩
  · cases hd
  · exact fun k hk => .inr ⟨h.free_ne hbuf (h.held_mem k hk), hk⟩

/-- A holder gives its buffer back while others keep theirs. -/
lemma put_shared (h : Placed bufs s xs) {k : Holder} (hk : k ∈ s.held)
    (hmore : 1 < holders s.held k.buf) :
    Placed bufs { s with
      mem := s.mem.setReference k.buf (s.mem.reference k.buf - 1)
      held := s.held.erase k } xs where
  links := h.links.of_eq rfl rfl rfl rfl rfl
  mem_iff := h.mem_iff
  device_eq := h.device_eq
  identity := h.identity
  held_mem k' hk' := h.held_mem k' (List.mem_of_mem_erase hk')
  reference_eq p hp := by
    have href := h.reference_eq p hp
    rw [Inv.holders_erase hk]
    by_cases hpk : p = k.buf
    · subst hpk
      have hone : (1 : UInt16) ≤ s.mem.reference k.buf := by
        rw [UInt16.le_iff_toNat_le, href]
        exact hmore.le
      simp only [State.setReference, Function.update_self, if_true]
      rw [UInt16.toNat_sub_of_le _ _ hone, href]
      rfl
    · simpa [State.setReference, hpk, Ne.symm hpk] using href
  free_iff p hp := by
    rw [h.free_iff p hp, Inv.holders_erase hk]
    by_cases hpk : k.buf = p
    · subst hpk
      rw [if_pos rfl]
      omega
    · rw [if_neg hpk, Nat.sub_zero]

/-- The last holder gives its buffer back. -/
lemma put_last (h : Placed bufs s xs) {k : Holder} (hk : k ∈ s.held)
    (hlast : holders s.held k.buf = 1) :
    ∃ ys, Placed bufs { s with
      mem := freebufPut (unlinkDevice (s.mem.setReference k.buf (s.mem.reference k.buf - 1))
        k.dev k.buf) k.buf
      held := s.held.erase k } ys := by
  have hmem := h.held_mem k hk
  have hlinks₀ : Links (s.mem.setReference k.buf (s.mem.reference k.buf - 1)) xs :=
    h.links.of_eq rfl rfl rfl rfl rfl
  obtain ⟨ys, hmoved, hlinks⟩ := hlinks₀.giveBack hmem
  have hgone : holders (s.held.erase k) k.buf = 0 := by
    rw [Inv.holders_erase hk, hlast, if_pos rfl]
  have hone : s.mem.reference k.buf = 1 := by
    apply UInt16.toNat_inj.mp
    rw [h.reference_eq k.buf (h.mem hmem), hlast]
    rfl
  rw [freebufPut_eq (unlinkDevice_links hlinks₀ hmem) (hlinks₀.gone hmem none)] at hlinks ⊢
  refine ⟨ys, h.move (h.mem hmem) hmoved hlinks rfl rfl (fun d hd => ?_) ?_ ?_ ?_ ?_ ?_⟩
  · cases hd
  · intro k' hk'
    refine .inr ⟨fun he => ?_, List.mem_of_mem_erase hk'⟩
    rw [holders, List.countP_eq_zero] at hgone
    exact hgone k' hk' (by simpa using he)
  · intro p hp
    rw [Inv.holders_erase hk, if_neg (Ne.symm hp), Nat.sub_zero]
  · intro p hp
    simp [linkFree, unlinkDevice, State.setReference, hp]
  · rw [hgone]
    simp [linkFree, unlinkDevice, State.setReference, hone]
  · simp [hgone]

/-! ## The operations -/

/-- A block that is found nowhere belongs to no buffer. -/
lemma not_found (h : Placed bufs s xs) (hheld : findHeld s.mem dev block = none)
    (hfree : findFree s.mem dev block = none) {q : Ptr} (hq : q ∈ bufs)
    (hdev : s.mem.device q = some dev) : s.mem.block q ≠ block := by
  intro hblock
  rw [h.links.findHeld_eq, List.find?_eq_none] at hheld
  rw [h.links.findFree_eq, List.find?_eq_none] at hfree
  obtain ⟨i, hi⟩ := (h.mem_iff q).mp hq
  cases i with
  | none => exact hfree q (List.mem_reverse.mpr hi) (by simp [hdev, hblock])
  | some d =>
    obtain rfl := Option.some.inj ((h.device_eq d q hi).symm.trans hdev)
    exact hheld q hi (by simp [hblock])

/-- The free buffer `buf` after it got a new block, and what `read` left there. -/
def reuse (devs : Ptr → Device) (m : State Data) (disk : Device × UInt32 → Data) (dev buf : Ptr)
    (block : UInt32) (read : Reply Data) : State Data :=
  { m with
    block := Function.update m.block buf block
    device := Function.update m.device buf (some dev)
    reference := Function.update m.reference buf 0
    dirty := Function.update m.dirty buf false
    data := Function.update m.data buf (read.contents (disk (devs dev, BLOCK_TO_SECTOR block)))
    disk }

variable (devs) in
/-- Without a copy of the block, the first free buffer is reused, unless its old contents have
nowhere to go. -/
lemma bufferGet_reuse {fs : List Ptr} (h : Links m xs) (hfs : xs none = buf :: fs)
    (hheld : findHeld m dev block = none) (hfree : findFree m dev block = none)
    (write read : Reply Data) :
    bufferGet devs m dev block write read = none ∨
      ∃ disk, bufferGet devs m dev block write read = some (match read with
        | .ok => (some buf, attach (unlinkFree (reuse devs m disk dev buf block read) buf) dev buf)
        | .failed _ =>
            (none, freebufPut (unlinkFree (reuse devs m disk dev buf block read) buf) buf)) := by
  have hget := freebufGet_eq h hfs
  simp only [bufferGet, hheld, hfree, hget]
  by_cases hdirty : m.dirty buf = true
  · cases hdev : m.device buf with
    | none =>
      left
      simp [unlinkFree, hdirty, writeBlock, hdev]
    | some d =>
      right
      refine ⟨Function.update m.disk (cell devs m d buf) (write.contents (m.data buf)), ?_⟩
      cases read <;>
        simp [unlinkFree, hdirty, hdev, writeBlock, readBlock, cell, State.setDevice,
          State.setReference, reuse]
  · right
    refine ⟨m.disk, ?_⟩
    cases read <;>
      simp [unlinkFree, hdirty, readBlock, cell, State.setDevice, State.setReference, reuse]

/-- A buffer that is got has a new holder. -/
lemma get (h : Placed bufs s xs) {write read : Reply Data}
    (hmax : Countable (step devs s (.get dev block write read))) :
    ∃ ys, Placed bufs (step devs s (.get dev block write read)) ys := by
  cases hheld : findHeld s.mem dev block with
  | some buf =>
    have hget : bufferGet devs s.mem dev block write read =
        some (some buf, s.mem.setReference buf (s.mem.reference buf + 1)) := by
      simp only [bufferGet, hheld]
    rw [h.links.findHeld_eq] at hheld
    simp only [step, hget] at hmax ⊢
    refine ⟨xs, h.share (List.mem_of_find?_eq_some hheld) ?_⟩
    simpa [holders] using hmax ⟨buf, dev, block⟩ List.mem_cons_self
  | none =>
    cases hfree : findFree s.mem dev block with
    | some buf =>
      have hfind := hfree
      rw [h.links.findFree_eq] at hfind
      have hmem := List.mem_reverse.mp (List.mem_of_find?_eq_some hfind)
      have hfound := List.find?_some hfind
      rw [decide_eq_true_eq] at hfound
      have hget : bufferGet devs s.mem dev block write read =
          some (some buf, attach (unlinkFree s.mem buf) dev buf) := by
        simp only [bufferGet, hheld, hfree, freebufRemove_eq h.links hmem]
      simp only [step, hget]
      exact h.hold hmem hfound.1
    | none =>
      cases hfs : xs none with
      | nil =>
        have hget : bufferGet devs s.mem dev block write read = some (none, s.mem) := by
          simp only [bufferGet, hheld, hfree, freebufGet_nil h.links hfs]
        simp only [step, hget]
        exact ⟨xs, h⟩
      | cons buf fs =>
        have hmem : buf ∈ xs none := by simp [hfs]
        rcases bufferGet_reuse devs h.links hfs hheld hfree write read with
          hget | ⟨disk, hget⟩
        · simp only [step, hget]
          exact ⟨xs, h⟩
        · have hnew : Placed bufs { s with mem := reuse devs s.mem disk dev buf block read } xs := by
            refine h.refill hmem (h.links.of_eq rfl rfl rfl rfl rfl) ?_ ?_ ?_ ?_ ?_
            · exact fun p hp => Function.update_of_ne hp ..
            · exact fun p hp => Function.update_of_ne hp ..
            · exact fun p hp => Function.update_of_ne hp ..
            · exact Function.update_self ..
            · intro d hd q hq _ hdev
              have hdd : d = dev := by simpa [reuse, eq_comm] using hd
              subst hdd
              simpa [reuse] using h.not_found hheld hfree hq hdev
          simp only [step, hget]
          cases read with
          | ok => exact hnew.hold hmem (Function.update_self ..)
          | failed left => exact hnew.requeue hmem

/-- A put by a holder succeeds. -/
lemma put (h : Placed bufs s xs) {k : Holder} (hk : k ∈ s.held) :
    ∃ ys, Placed bufs (step devs s (.put k)) ys := by
  have hmem := h.held_mem k hk
  have href := h.reference_eq k.buf (h.mem hmem)
  have hpos : 0 < holders s.held k.buf := List.countP_pos_iff.mpr ⟨k, hk, by simp⟩
  have hlinks : Links (s.mem.setReference k.buf (s.mem.reference k.buf - 1)) xs :=
    h.links.of_eq rfl rfl rfl rfl rfl
  have hone : (1 : UInt16) ≤ s.mem.reference k.buf := by
    rw [UInt16.le_iff_toNat_le, href]
    exact hpos
  have hleft := UInt16.toNat_sub_of_le _ _ hone
  rw [href] at hleft
  by_cases hlast : holders s.held k.buf = 1
  · have hput : bufferPut s.mem k.buf = some (freebufPut (unlinkDevice
        (s.mem.setReference k.buf (s.mem.reference k.buf - 1)) k.dev k.buf) k.buf) := by
      have hzero : (s.mem.setReference k.buf (s.mem.reference k.buf - 1)).reference k.buf = 0 := by
        apply UInt16.toNat_inj.mp
        simp only [State.setReference, Function.update_self, hleft, hlast]
        rfl
      simp only [bufferPut]
      rw [if_pos hzero, chainDelete_eq hlinks hmem (h.device_eq k.dev k.buf hmem),
        Option.map_some]
    simp only [step, hput]
    exact h.put_last hk hlast
  · have hput : bufferPut s.mem k.buf =
        some (s.mem.setReference k.buf (s.mem.reference k.buf - 1)) := by
      have hne : (s.mem.setReference k.buf (s.mem.reference k.buf - 1)).reference k.buf ≠ 0 := by
        simp only [State.setReference, Function.update_self]
        intro hz
        simp only [hz, UInt16.reduceToNat] at hleft
        omega
      simp only [bufferPut]
      rw [if_neg hne]
    simp only [step, hput]
    exact ⟨xs, h.put_shared hk (by omega)⟩

/-- `buffer_sync` takes the device of a free buffer away. -/
lemma forget (h : Placed bufs s xs) (reply : Ptr → Reply Data) (hbuf : buf ∈ xs none) :
    Placed bufs { s with mem := syncBuffer devs reply s.mem buf } xs := by
  have hzero : s.mem.reference buf = 0 := by
    apply UInt16.toNat_inj.mp
    rw [h.reference_eq buf (h.mem hbuf), (h.free_iff buf (h.mem hbuf)).mp hbuf]
    rfl
  have hsync : syncBuffer devs reply s.mem buf = s.mem ∨
      ∃ disk, syncBuffer devs reply s.mem buf = { s.mem.setDevice buf none with disk } := by
    cases hdev : s.mem.device buf with
    | none => exact .inl (by simp only [syncBuffer, hdev])
    | some d =>
      right
      cases hdirty : s.mem.dirty buf with
      | false => exact ⟨s.mem.disk, by simp [syncBuffer, hdev, hdirty, State.setDevice]⟩
      | true =>
        refine ⟨Function.update s.mem.disk (cell devs s.mem d buf)
          ((reply buf).contents (s.mem.data buf)), ?_⟩
        simp [syncBuffer, hdev, hdirty, writeBlock, State.setDevice]
  rcases hsync with hsync | ⟨disk, hsync⟩
  · rw [hsync]
    exact h
  · rw [hsync]
    refine h.refill hbuf (h.links.of_eq rfl rfl rfl rfl rfl) ?_ (fun _ _ => rfl) (fun _ _ => rfl)
      hzero ?_
    · exact fun p hp => Function.update_of_ne hp ..
    · intro d hd
      simp [State.setDevice] at hd

lemma forget_list (reply : Ptr → Reply Data) (ps : List Ptr) :
    ∀ s : System Data, Placed bufs s xs → (∀ p ∈ ps, p ∈ xs none) →
      Placed bufs { s with mem := ps.foldl (syncBuffer devs reply) s.mem } xs := by
  induction ps with
  | nil => exact fun s h _ => h
  | cons p ps ih =>
    intro s h hps
    rw [List.foldl_cons]
    exact ih { s with mem := syncBuffer devs reply s.mem p }
      (h.forget reply (hps p List.mem_cons_self)) fun q hq => hps q (List.mem_cons_of_mem _ hq)

/-- The walk along the free list meets each free buffer. -/
lemma sync (h : Placed bufs s xs) (reply : Ptr → Reply Data) :
    Placed bufs (step devs s (.sync reply)) xs := by
  have hchain := h.links.free
  have hwalk : bufferSync devs s.mem reply = (xs none).foldl (syncBuffer devs reply) s.mem := by
    rw [bufferSync, hchain.head_eq,
      walk_eq_walkList hchain.linked (nodup_length_le hchain.nodup)]
    rcases walkList_cases (fun _ _ => false) (syncBuffer devs reply) s.mem (xs none) with
      ⟨_, _, _, _, hstop, _⟩ | he
    · cases hstop
    · rw [he]
  simp only [step, hwalk]
  exact forget_list reply (xs none) s h fun _ hp => hp

end Placed

/-! ## Runs -/

/-- After `buffer_init` all buffers are free. -/
lemma init_placed (data : Ptr → Data) (disk : Device × UInt32 → Data) (hnd : bufs.Nodup) :
    ∃ xs, Placed bufs (System.init data disk bufs) xs := by
  obtain ⟨xs, hlinks, hfree, hown, hsame⟩ := bufferInit_links data disk hnd
  have hdevice : (bufferInit data disk bufs).device = fun _ => none := hsame.device
  have href : (bufferInit data disk bufs).reference = fun _ => 0 := hsame.reference
  refine ⟨xs, ?_⟩
  exact
    { links := hlinks
      mem_iff := fun p => by
        refine ⟨fun hp => ⟨none, hfree ▸ hp⟩, ?_⟩
        rintro ⟨i, hi⟩
        cases i with
        | none => exact hfree ▸ hi
        | some dev => simp [hown dev] at hi
      device_eq := fun dev p hp => by simp [hown dev] at hp
      identity := fun p _ q _ hp => by simp [System.init, hdevice] at hp
      held_mem := fun k hk => by simp [System.init] at hk
      reference_eq := fun p _ => by simp [System.init, href, holders]
      free_iff := fun p hp => by simp [System.init, hfree, hp, holders] }

lemma Placed.step (h : Placed bufs s xs) {op : Op Data} (hproper : Proper s op)
    (hmax : Countable (step devs s op)) : ∃ ys, Placed bufs (step devs s op) ys := by
  cases op with
  | get dev block write read => exact h.get hmax
  | store k d =>
    exact ⟨xs, h.links.of_eq rfl rfl rfl rfl rfl, h.mem_iff, h.device_eq, h.identity, h.held_mem,
      h.reference_eq, h.free_iff⟩
  | put k => exact h.put hproper
  | sync reply => exact ⟨xs, h.sync reply⟩

/-- In every state that a run reaches, whatever the devices reply, the lists are well formed and
every buffer is in its place. A get that would write to no device changes nothing. -/
theorem buffers_inPlace (devs : Ptr → Device) (data : Ptr → Data) (disk : Device × UInt32 → Data)
    {bufs : List Ptr} (hnd : bufs.Nodup) {ops : List (Op Data)}
    (hok : Guarded (step devs) (fun s op => Proper s op ∧ Countable (step devs s op))
      (System.init data disk bufs) ops) :
    ∃ xs, InPlace bufs (run (step devs) (System.init data disk bufs) ops).mem xs := by
  have hstep : ∀ (s : System Data) op, (∃ xs, Placed bufs s xs) →
      Proper s op ∧ Countable (step devs s op) → ∃ xs, Placed bufs (step devs s op) xs := by
    intro s op hs hop
    obtain ⟨xs, h⟩ := hs
    exact h.step hop.1 hop.2
  obtain ⟨xs, hplaced⟩ := hok.invariant (fun s => ∃ xs, Placed bufs s xs) hstep
    (init_placed data disk hnd)
  exact ⟨xs, hplaced.inPlace⟩

/-- A read fails, the block is found with the free buffers, shared, given back and reused. -/
def reused : List (Op UInt8) :=
  [.get 1 5 .ok (.failed 7), .get 1 5 .ok .ok, .get 1 5 .ok .ok, .store ⟨16, 1, 5⟩ 9,
    .put ⟨16, 1, 5⟩, .put ⟨16, 1, 5⟩, .sync fun _ => .ok, .get 2 5 .ok .ok]

theorem buffers_inPlace_reused :
    ∃ xs, InPlace [16, 32] (run (step fun p => ⟨p, 0⟩)
      (System.init (fun _ => 0) (fun _ => 0) [16, 32]) reused).mem xs :=
  buffers_inPlace (fun p => ⟨p, 0⟩) _ _ (by decide) (by decide +kernel)

end Sgos.BlockCache
