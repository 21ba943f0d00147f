import Sgos.BlockCache
import Sgos.ChainFamily

/-!
# The buffer lists

The free list and the lists of the devices are a family of chains. Each list operation of
`apps/fs/buffer.cpp` moves one buffer and leaves the contents of all buffers alone.
-/
namespace Sgos.BlockCache
open LinkedChain

variable {Data : Type*}

/-- The first buffer of the free list, `none`, or of the list of a device. -/
def State.head (s : State Data) : Option Ptr → Option Ptr
  | none => s.freebufHead
  | some dev => s.firstBuffer dev

/-- The free list holds the buffers `xs none`, the device `dev` the buffers `xs (some dev)`. -/
structure Links (s : State Data) (xs : Option Ptr → List Ptr) : Prop where
  family : Family s.next s.prev s.head xs
  tail_eq : s.freebufTail = (xs none).getLast?

/-- The two states differ at most in their lists. -/
structure SameContents (s s' : State Data) : Prop where
  device : s'.device = s.device
  block : s'.block = s.block
  data : s'.data = s.data
  dirty : s'.dirty = s.dirty
  reference : s'.reference = s.reference
  disk : s'.disk = s.disk

lemma SameContents.trans {s t u : State Data} (h : SameContents s t) (h' : SameContents t u) :
    SameContents s u :=
  ⟨h'.device.trans h.device, h'.block.trans h.block, h'.data.trans h.data, h'.dirty.trans h.dirty,
    h'.reference.trans h.reference, h'.disk.trans h.disk⟩

variable {s : State Data} {xs : Option Ptr → List Ptr} {buf dev : Ptr}

lemma Links.free (h : Links s xs) : Chain s.next s.prev s.freebufHead (xs none) :=
  h.family.chain none

lemma Links.attached (h : Links s xs) (dev : Ptr) :
    Chain s.next s.prev (s.firstBuffer dev) (xs (some dev)) :=
  h.family.chain (some dev)

/-- Lists that are linked alike. -/
lemma Links.of_eq {s' : State Data} (h : Links s xs) (hnext : s'.next = s.next)
    (hprev : s'.prev = s.prev) (hhead : s'.freebufHead = s.freebufHead)
    (htail : s'.freebufTail = s.freebufTail) (hfirst : s'.firstBuffer = s.firstBuffer) :
    Links s' xs := by
  have hheads : s'.head = s.head := by
    funext i
    cases i <;> simp [State.head, hhead, hfirst]
  refine ⟨?_, htail.trans h.tail_eq⟩
  rw [hnext, hprev, hheads]
  exact h.family

lemma head_update_free (s : State Data) (x : Option Ptr) (next prev : Ptr → Option Ptr)
    (tail : Option Ptr) :
    ({ s with next, prev, freebufHead := x, freebufTail := tail } : State Data).head =
      Function.update s.head none x := by
  funext i
  cases i <;> simp [State.head]

lemma head_update_device (s : State Data) (dev : Ptr) (x : Option Ptr)
    (next prev : Ptr → Option Ptr) :
    ({ s with next, prev, firstBuffer := Function.update s.firstBuffer dev x } : State Data).head =
      Function.update s.head (some dev) x := by
  funext i
  cases i with
  | none => simp [State.head]
  | some d => by_cases hd : d = dev <;> simp [State.head, hd]

/-- The state after `buf` left the free list. -/
def unlinkFree (s : State Data) (buf : Ptr) : State Data :=
  { s with
    next := unlinkNext s.next s.prev buf
    prev := unlinkPrev s.next s.prev buf
    freebufHead := unlinkEnd s.prev s.next buf s.freebufHead
    freebufTail := unlinkEnd s.next s.prev buf s.freebufTail }

lemma unlinkFree_links (h : Links s xs) (hbuf : buf ∈ xs none) :
    Links (unlinkFree s buf) (Function.update xs none ((xs none).erase buf)) where
  family := by
    rw [unlinkFree, head_update_free]
    exact h.family.unlink hbuf
  tail_eq := by
    rw [Function.update_self, unlinkFree, h.tail_eq]
    exact h.free.unlink_last hbuf

lemma freebufRemove_eq (h : Links s xs) (hbuf : buf ∈ xs none) :
    freebufRemove s buf = unlinkFree s buf := by
  cases hn : s.next buf with
  | none =>
    cases hp : s.prev buf <;>
      simp [freebufRemove, unlinkFree, unlinkNext, unlinkPrev, unlinkEnd, hn, hp, State.setNext]
  | some n =>
    have hne : n ≠ buf := h.free.next_ne hbuf hn
    cases hp : s.prev buf <;>
      simp [freebufRemove, unlinkFree, unlinkNext, unlinkPrev, unlinkEnd, hn, hp, State.setNext,
        State.setPrev, hne.symm]

/-- The buffer that is reused is the first of the free list. -/
lemma freebufGet_eq {fs : List Ptr} (h : Links s xs) (hfs : xs none = buf :: fs) :
    freebufGet s = (some buf, unlinkFree s buf) := by
  have hhead : s.freebufHead = some buf := by rw [h.free.head_eq, hfs, List.head?_cons]
  have hprev : s.prev buf = none := by
    have hchain := h.free
    rw [hfs] at hchain
    exact hchain.linked.1
  cases hn : s.next buf <;>
    simp [freebufGet, unlinkFree, unlinkNext, unlinkPrev, unlinkEnd, hhead, hprev, hn,
      State.setPrev]

lemma freebufGet_nil (h : Links s xs) (hfs : xs none = []) : freebufGet s = (none, s) := by
  have hhead : s.freebufHead = none := by rw [h.free.head_eq, hfs, List.head?_nil]
  rw [freebufGet, hhead]

/-- The state after `buf` became the last of the free list. -/
def linkFree (s : State Data) (buf : Ptr) : State Data :=
  { s with
    next := linkNext s.next s.freebufTail buf none
    prev := linkPrev s.prev s.freebufTail buf none
    freebufHead := linkEnd s.freebufTail buf s.freebufHead
    freebufTail := some buf }

lemma linkFree_links (h : Links s xs) (hbuf : ∀ i, buf ∉ xs i) :
    Links (linkFree s buf) (Function.update xs none (xs none ++ [buf])) where
  family := by
    rw [linkFree, head_update_free, h.tail_eq]
    exact h.family.link (List.append_nil (xs none)).symm hbuf
  tail_eq := by simp [linkFree]

lemma linkFree_contents (s : State Data) (buf : Ptr) : SameContents s (linkFree s buf) :=
  ⟨rfl, rfl, rfl, rfl, rfl, rfl⟩

lemma freebufPut_eq (h : Links s xs) (hbuf : buf ∉ xs none) : freebufPut s buf = linkFree s buf := by
  have hhead := h.free.head_eq
  have htail := h.tail_eq
  cases hl : (xs none).getLast? with
  | none =>
    rw [List.getLast?_eq_none_iff.mp hl, List.head?_nil] at hhead
    rw [hl] at htail
    simp [freebufPut, linkFree, linkNext, linkPrev, linkEnd, hhead, htail, State.setNext,
      State.setPrev]
  | some t =>
    have hmem : t ∈ xs none := List.mem_of_getLast? hl
    have hne : t ≠ buf := fun he => hbuf (he ▸ hmem)
    obtain ⟨first, hfirst⟩ : ∃ first, (xs none).head? = some first := by
      cases hxs : xs none with
      | nil => simp [hxs] at hmem
      | cons y ys => exact ⟨y, rfl⟩
    rw [hl] at htail
    rw [hfirst] at hhead
    simp [freebufPut, linkFree, linkNext, linkPrev, linkEnd, hhead, htail, State.setNext,
      State.setPrev, Function.update_comm hne]

/-- The state after `buf` became the first of the list of a device. -/
def linkDevice (s : State Data) (dev buf : Ptr) : State Data :=
  { s with
    next := linkNext s.next none buf (s.firstBuffer dev)
    prev := linkPrev s.prev none buf (s.firstBuffer dev)
    firstBuffer := Function.update s.firstBuffer dev (some buf) }

lemma linkDevice_links (h : Links s xs) (hbuf : ∀ i, buf ∉ xs i) :
    Links (linkDevice s dev buf) (Function.update xs (some dev) (buf :: xs (some dev))) where
  family := by
    rw [linkDevice, head_update_device, (h.attached dev).head_eq]
    exact h.family.link (List.nil_append (xs (some dev))).symm hbuf
  tail_eq := by simpa [linkDevice] using h.tail_eq

lemma attach_eq (h : Links s xs) (hbuf : buf ∉ xs (some dev)) :
    attach s dev buf = (linkDevice s dev buf).setReference buf (s.reference buf + 1) := by
  cases hf : s.firstBuffer dev with
  | none =>
    simp [attach, linkDevice, linkNext, linkPrev, hf, State.setNext, State.setPrev, State.setFirst,
      State.setReference]
  | some first =>
    have hmem : first ∈ xs (some dev) := by
      apply List.mem_of_head?
      rw [← (h.attached dev).head_eq, hf]
    have hne : first ≠ buf := fun he => hbuf (he ▸ hmem)
    simp [attach, linkDevice, linkNext, linkPrev, hf, State.setNext, State.setPrev, State.setFirst,
      State.setReference, Function.update_comm hne]

/-- The state after `buf` left the list of a device. -/
def unlinkDevice (s : State Data) (dev buf : Ptr) : State Data :=
  { s with
    next := unlinkNext s.next s.prev buf
    prev := unlinkPrev s.next s.prev buf
    firstBuffer :=
      Function.update s.firstBuffer dev (unlinkEnd s.prev s.next buf (s.firstBuffer dev)) }

lemma unlinkDevice_links (h : Links s xs) (hbuf : buf ∈ xs (some dev)) :
    Links (unlinkDevice s dev buf)
      (Function.update xs (some dev) ((xs (some dev)).erase buf)) where
  family := by
    rw [unlinkDevice, head_update_device]
    exact h.family.unlink hbuf
  tail_eq := by simpa [unlinkDevice] using h.tail_eq

lemma chainDelete_eq (h : Links s xs) (hbuf : buf ∈ xs (some dev))
    (hdev : s.device buf = some dev) : chainDelete s buf = some (unlinkDevice s dev buf) := by
  cases hp : s.prev buf with
  | none =>
    cases hn : s.next buf <;>
      simp [chainDelete, unlinkDevice, unlinkNext, unlinkPrev, unlinkEnd, hn, hp, hdev,
        State.setPrev, State.setFirst]
  | some p =>
    have hne : p ≠ buf := (h.attached dev).prev_ne hbuf hp
    cases hn : s.next buf <;>
      simp [chainDelete, unlinkDevice, unlinkNext, unlinkPrev, unlinkEnd, hn, hp, State.setNext,
        State.setPrev, hne.symm]

end Sgos.BlockCache
