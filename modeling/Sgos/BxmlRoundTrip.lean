import Sgos.BxmlBuild
import Sgos.BxmlParse

/-!
# The round trip of BXML documents

Parsing what `bxml_build` wrote gives the mirror image of the tree: every list of attributes and
every list of children comes back in the opposite order. The round trip is the identity exactly
on the trees that are their own mirror image.
-/
namespace Sgos.Bxml
open ByteBuffer

variable {malloc : ℕ → Bool} (parseXmlNode : State → List UInt8 → Option State)

/-- A binary document is parsed to the mirror image of its tree. -/
theorem bxmlParse_eq (hmalloc : ∀ n, malloc n = true) (version : UInt16) (flag : UInt8) {t : Tree}
    (ht : t.Bounded) (hsize : t.size < 2147483648) (rest : List UInt8) :
    ∃ s root, bxmlParse malloc parseXmlNode (encodeHeader version flag ++ t.encode ++ rest) =
        some s ∧ s.xml.version = version ∧ s.xml.flag = flag ∧ s.xml.nodeRoot = some root ∧
      RepTree s.node root t.mirror := by
  have hlen : BXML_HEADER_SIZE + t.encode.length < 2147483648 := hsize
  have hdepth := t.forest.depth_le
  obtain ⟨hname, hla, hlc, hba, hbc, -⟩ := ht
  have henc : t.encode.length = 8 + t.name.length + t.value.length +
      (t.attrs.encode.length + t.children.encode.length) := by
    simp [Tree.encode, Tree.forest, Forest.encode]
  change 8 * t.forest.depth ≤ t.encode.length at hdepth
  simp only [Tree.forest, Forest.depth] at hdepth
  obtain ⟨mem, hmem⟩ : ∃ mem, mem = encodeHeader version flag ++ t.encode ++ rest := ⟨_, rfl⟩
  have hmemLen : t.encode.length < mem.length := by
    simp only [hmem, List.length_append, length_encodeHeader, BXML_HEADER_SIZE]
    omega
  obtain ⟨depth, hd⟩ : ∃ d, mem.length = d + 1 := ⟨mem.length - 1, by omega⟩
  have hattrs : Parses malloc depth t.attrs := parses hmalloc _ hba (by omega) (by omega)
  have hchildren : Parses malloc depth t.children := parses hmalloc _ hbc (by omega) (by omega)
  -- the header
  have hmagic : readNat 4 mem = some (BXML_MAGIC, littleEndian 2 version.toNat ++
      (littleEndian 1 flag.toNat ++ (List.replicate 9 0 ++ (t.encode ++ rest)))) := by
    simp only [hmem, encodeHeader, List.append_assoc]
    exact readNat_append 4 _ _ (by decide)
  have hversion (p : List UInt8) :
      readNat 2 (littleEndian 2 version.toNat ++ p) = some (version.toNat, p) :=
    readNat_append 2 _ _ version.toNat_lt
  have hflag (p : List UInt8) : readNat 1 (littleEndian 1 flag.toNat ++ p) = some (flag.toNat, p) :=
    readNat_append 1 _ _ flag.toNat_lt
  have hbody : read BXML_HEADER_SIZE mem = some (encodeHeader version flag, t.encode ++ rest) := by
    rw [hmem, List.append_assoc, ← length_encodeHeader version flag]
    exact read_append _ _
  -- the root
  have hnew : Function.update (fun _ => none) 1 (some zeroNode) 1 = some zeroNode :=
    Function.update_self ..
  obtain ⟨s, n, hfill, hg, hholds, -, -, hrepa, hrepc⟩ :=
    fillNode_eq hmalloc hattrs hchildren hname (show t.value.length + 1 < 2 ^ 32 by omega) hla hlc
      (s := ⟨⟨some 1, some 1, version, flag, 0⟩,
        Function.update (fun _ => none) 1 (some zeroNode), 2⟩)
      rfl (by simp) (Nat.lt_succ_self 1) hnew rfl rfl rest
  obtain ⟨pre, hn⟩ := hg.node_eq
  have hroot : parseBxmlNode malloc mem.length .node
      ⟨⟨none, none, version, flag, 0⟩, fun _ => none, 1⟩ (t.encode ++ rest) =
        some (s, some rest) := by
    rw [hd]
    simpa [parseBxmlNode, createChildnode, createFirst, createNode, safeMalloc_eq hmalloc,
      State.setNode, State.setCur, Tree.encode, Tree.forest] using hfill
  refine ⟨s.setCur s.xml.nodeRoot, 1, ?_, ?_⟩
  · rw [← hmem, bxmlParse, safeMalloc_eq hmalloc]
    simp [hmagic, hversion, hflag, hbody, hroot]
  · simp only [State.setCur, hg.xml_eq, true_and]
    exact ⟨_, hn, ⟨hholds.name_eq, hholds.value_eq⟩, hrepa.mono (Set.subset_univ _),
      hrepc.mono (Set.subset_univ _)⟩

/-- A document with a tree of the format's limits and a buffer with room for its bytes. -/
structure Fits (s : State) (t : Tree) (depth : ℕ) (mem : List UInt8) (memSize : ℕ) : Prop where
  root : ∃ root, s.xml.nodeRoot = some root ∧ RepTree s.node root t
  bounded : t.Bounded
  depth_le : t.forest.depth ≤ depth
  size_le : t.size ≤ memSize
  memSize_le : memSize ≤ mem.length
  memSize_lt : memSize < 2147483648

/-- Parsing what `bxml_build` writes to `mem` yields the version, the flag and the tree of the
document. -/
def RoundTrips (malloc : ℕ → Bool) (parseXmlNode : State → List UInt8 → Option State) (s : State)
    (t : Tree) (depth : ℕ) (mem : List UInt8) (memSize : ℕ) : Prop :=
  ∃ mem' len s' root, bxmlBuild s.node depth s.xml mem memSize = some (mem', len) ∧
    bxmlParse malloc parseXmlNode mem' = some s' ∧ s'.xml.version = s.xml.version ∧
    s'.xml.flag = s.xml.flag ∧ s'.xml.nodeRoot = some root ∧ RepTree s'.node root t

variable {s : State} {t : Tree} {depth memSize : ℕ} {mem : List UInt8}

/-- The document that comes back has the mirror image of the tree. -/
lemma roundTrip_mirror (hmalloc : ∀ n, malloc n = true) (h : Fits s t depth mem memSize) :
    ∃ mem' len s' root, bxmlBuild s.node depth s.xml mem memSize = some (mem', len) ∧
      bxmlParse malloc parseXmlNode mem' = some s' ∧ s'.xml.version = s.xml.version ∧
      s'.xml.flag = s.xml.flag ∧ s'.xml.nodeRoot = some root ∧ RepTree s'.node root t.mirror := by
  obtain ⟨root, hroot, hrep⟩ := h.root
  have hbuild := bxmlBuild_eq hroot hrep h.bounded h.depth_le h.memSize_le h.size_le h.memSize_lt
  obtain ⟨s', root', hparse, hs'⟩ := bxmlParse_eq parseXmlNode hmalloc
    s.xml.version s.xml.flag h.bounded (Nat.lt_of_le_of_lt h.size_le h.memSize_lt)
    (List.replicate (memSize - t.size) 0 ++ mem.drop memSize)
  exact ⟨_, _, s', root', hbuild, hparse, hs'⟩

variable {parseXmlNode} in
lemma RoundTrips.mirror_eq (h : RoundTrips malloc parseXmlNode s t depth mem memSize)
    (hmalloc : ∀ n, malloc n = true) (hfits : Fits s t depth mem memSize) : t.mirror = t := by
  obtain ⟨mem₁, len₁, s₁, root₁, hbuild, hparse, -, -, hroot, hrep⟩ := h
  obtain ⟨mem₂, len₂, s₂, root₂, hbuild', hparse', -, -, hroot', hrep'⟩ :=
    roundTrip_mirror parseXmlNode hmalloc hfits
  obtain ⟨rfl, -⟩ := Prod.mk.inj (Option.some.inj (hbuild.symm.trans hbuild'))
  obtain rfl := Option.some.inj (hparse.symm.trans hparse')
  obtain rfl := Option.some.inj (hroot.symm.trans hroot')
  exact hrep'.unique hrep

variable {parseXmlNode} in
/-- The round trip is the identity exactly on the trees whose lists of attributes and of children
read the same in both directions. -/
theorem roundTrips_iff (hmalloc : ∀ n, malloc n = true) (h : Fits s t depth mem memSize) :
    RoundTrips malloc parseXmlNode s t depth mem memSize ↔ t.mirror = t := by
  constructor
  · intro hround
    exact hround.mirror_eq hmalloc h
  · intro hmirror
    have hround := roundTrip_mirror parseXmlNode hmalloc h
    rwa [hmirror] at hround

/-- A root `a` with two children. -/
def siblings (x y : UInt8) : State :=
  { xml := ⟨some 1, none, 1, 0, 0⟩
    node := fun p => match p with
      | 1 => some { zeroNode with nodeChild := some 2, nameLen := 1, name := some [97, 0] }
      | 2 => some { zeroNode with
          nodeNext := some 3, nodeParent := some 1, nameLen := 1, name := some [x, 0] }
      | 3 => some { zeroNode with
          nodePre := some 2, nodeParent := some 1, nameLen := 1, name := some [y, 0] }
      | _ => none
    requests := 4 }

def siblingsTree (x y : UInt8) : Tree :=
  ⟨[97], [], .nil, .node [x] [] .nil .nil (.node [y] [] .nil .nil .nil)⟩

lemma siblings_fits (x y : UInt8) :
    Fits (siblings x y) (siblingsTree x y) 2 (List.replicate 64 0) 64 where
  root := ⟨1, rfl, _, rfl, ⟨rfl, rfl⟩, rfl, 2, _, rfl, trivial, rfl, ⟨rfl, rfl⟩, rfl, rfl,
    3, _, rfl, trivial, rfl, ⟨rfl, rfl⟩, rfl, rfl, rfl⟩
  bounded := by simp [siblingsTree, Tree.Bounded, Tree.forest, Forest.Bounded, Forest.length]
  depth_le := by simp [siblingsTree, Tree.forest, Forest.depth]
  size_le := by simp [siblingsTree, Tree.size, Tree.encode, Tree.forest, Forest.encode,
    BXML_HEADER_SIZE]
  memSize_le := le_rfl
  memSize_lt := by decide

theorem roundTrips_iff_twins :
    RoundTrips (fun _ => true) (fun _ _ => none) (siblings 98 98) (siblingsTree 98 98) 2
        (List.replicate 64 0) 64 ↔ (siblingsTree 98 98).mirror = siblingsTree 98 98 :=
  roundTrips_iff (fun _ => rfl) (siblings_fits 98 98)

/-- The children `b`, `c` come back in the order `c`, `b`. -/
theorem not_roundTrips :
    ¬ ∀ (malloc : ℕ → Bool) (parseXmlNode : State → List UInt8 → Option State) (s : State)
      (t : Tree) (depth : ℕ) (mem : List UInt8) (memSize : ℕ), (∀ n, malloc n = true) →
      Fits s t depth mem memSize → RoundTrips malloc parseXmlNode s t depth mem memSize := by
  intro h
  have hround := h (fun _ => true) (fun _ _ => none) (siblings 98 99) (siblingsTree 98 99) 2
    (List.replicate 64 0) 64 (fun _ => rfl) (siblings_fits 98 99)
  have hmirror := hround.mirror_eq (fun _ => rfl) (siblings_fits 98 99)
  exact absurd hmirror (by decide)

end Sgos.Bxml
