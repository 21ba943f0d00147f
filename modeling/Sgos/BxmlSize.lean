import Sgos.BxmlRoundTrip

/-!
# The size of a BXML document

`bxml_buffer_size` counts the bytes of a document by a recursion of its own. The count is the
length of what `bxml_build` writes; in a shorter buffer `bxml_build` runs out of room at some node
and returns an error, and it never writes behind its buffer.
-/
namespace Sgos.Bxml
open ByteBuffer

/-! ## `calc_node_size` and `bxml_buffer_size` -/
section Size
variable (node : ℕ → Option BXML_NODE)

/-- Add the sizes of the siblings from `p` on to `len`; `bound` bounds the number of siblings. -/
def addSizes (size : ℕ → Option UInt32) : ℕ → Option ℕ → UInt32 → Option UInt32
  | _, none, len => some len
  | 0, some _, _ => none
  | bound + 1, some p, len => do
    let ret ← size p
    let n ← node p
    addSizes size bound n.nodeNext (len + ret)

/-- `fuel` bounds the nesting of calls and the lists of siblings. -/
def calcNodeSize : ℕ → ℕ → Option UInt32
  | 0, _ => none
  | fuel + 1, nod => do
    let n ← node nod
    let len := 8 + n.nameLen.toUInt32 + n.valueLen
    let len ← addSizes node (calcNodeSize fuel) fuel n.nodeAttr len
    addSizes node (calcNodeSize fuel) fuel n.nodeChild len

def bxmlBufferSize (fuel : ℕ) (xml : BXML_DATA) : Option UInt32 := do
  let root ← xml.nodeRoot
  let size ← calcNodeSize node fuel root
  some (UInt32.ofNat BXML_HEADER_SIZE + size)

end Size

variable {node : ℕ → Option BXML_NODE}

/-! ## The count is the length of the encoding -/

/-- Each sibling takes at least eight bytes. -/
lemma Forest.length_le (f : Forest) : 8 * f.length ≤ f.encode.length := by
  induction f with
  | nil => simp [length]
  | node name value attrs children next iha ihc ihn =>
    simp only [length, encode, List.length_append, length_encodeFields]
    omega

/-- The loop over the siblings at `p` adds the size of the forest they represent. -/
def Counts (node : ℕ → Option BXML_NODE) (fuel : ℕ) (f : Forest) : Prop :=
  ∀ (bound : ℕ) (p : Option ℕ) (len : UInt32), Rep node p f → f.length ≤ bound →
    addSizes node (calcNodeSize node fuel) bound p len = some (len + .ofNat f.encode.length)

lemma calcNodeSize_eq {fuel a : ℕ} {n : BXML_NODE} {name value : List UInt8}
    {attrs children : Forest} (hattrs : Counts node fuel attrs)
    (hchildren : Counts node fuel children) (hn : node a = some n) (hholds : n.Holds name value)
    (hra : Rep node n.nodeAttr attrs) (hrc : Rep node n.nodeChild children)
    (hla : attrs.length ≤ fuel) (hlc : children.length ≤ fuel) :
    calcNodeSize node (fuel + 1) a =
      some (.ofNat (Forest.node name value attrs children .nil).encode.length) := by
  have hname : UInt32.ofNat name.length = n.nameLen.toUInt32 := by
    rw [bytesAt_length hholds.name_eq, UInt32.ofNat_uInt8ToNat]
  have hvalue : UInt32.ofNat value.length = n.valueLen := by
    rw [bytesAt_length hholds.value_eq, UInt32.ofNat_toNat]
  have ha := hattrs fuel n.nodeAttr (8 + n.nameLen.toUInt32 + n.valueLen) hra hla
  have hc := hchildren fuel n.nodeChild
    (8 + n.nameLen.toUInt32 + n.valueLen + .ofNat attrs.encode.length) hrc hlc
  simp only [calcNodeSize, hn, Option.bind_eq_bind, Option.bind_some, ha, hc, Option.some.injEq,
    Forest.encode, List.append_nil, List.length_append, length_encodeFields, UInt32.ofNat_add,
    hname, hvalue, ← UInt32.add_assoc]
  rfl

/-- By induction on the forest; the fuel of a call is that of its siblings. -/
lemma counts (f : Forest) {fuel : ℕ} (hfuel : f.encode.length ≤ fuel) : Counts node fuel f := by
  induction f generalizing fuel with
  | nil =>
    intro bound p len hrep _
    obtain rfl : p = none := hrep
    cases bound <;> simp [addSizes, Forest.encode]
  | node name value attrs children next iha ihc ihn =>
    intro bound p len hrep hbound
    obtain ⟨a, n, rfl, -, hn, hholds, hra, hrc, hrn⟩ := hrep
    have hla := attrs.length_le
    have hlc := children.length_le
    simp only [Forest.encode, List.length_append, length_encodeFields] at hfuel
    rw [Forest.length] at hbound
    obtain ⟨fuel, rfl⟩ : ∃ d, fuel = d + 1 := ⟨fuel - 1, by omega⟩
    obtain ⟨bound, rfl⟩ : ∃ b, bound = b + 1 := ⟨bound - 1, by omega⟩
    have hattrs : Counts node fuel attrs := iha (by omega)
    have hchildren : Counts node fuel children := ihc (by omega)
    have hone := calcNodeSize_eq hattrs hchildren hn hholds hra hrc (by omega) (by omega)
    have hrest := ihn (show next.encode.length ≤ fuel + 1 by omega) bound n.nodeNext
      (len + .ofNat (Forest.node name value attrs children .nil).encode.length) hrn (by omega)
    have hsplit : (Forest.node name value attrs children next).encode.length =
        (Forest.node name value attrs children .nil).encode.length + next.encode.length := by
      simp [Forest.encode, Nat.add_assoc]
    simp only [addSizes, hone, hn, Option.bind_eq_bind, Option.bind_some]
    rw [hrest, hsplit, UInt32.ofNat_add, UInt32.add_assoc]

/-- The buffer size of a document is the size of the tree at its root. -/
theorem bxmlBufferSize_eq {fuel root : ℕ} {xml : BXML_DATA} {t : Tree}
    (hroot : xml.nodeRoot = some root) (hrep : RepTree node root t) (hfuel : t.size ≤ fuel) :
    bxmlBufferSize node fuel xml = some (.ofNat t.size) := by
  obtain ⟨n, hn, hholds, hra, hrc⟩ := hrep
  have hla := t.attrs.length_le
  have hlc := t.children.length_le
  have hsize : t.size = BXML_HEADER_SIZE +
      (Forest.node t.name t.value t.attrs t.children .nil).encode.length := rfl
  simp only [hsize, Forest.encode, List.append_nil, List.length_append, length_encodeFields]
    at hfuel
  obtain ⟨fuel, rfl⟩ : ∃ d, fuel = d + 1 := ⟨fuel - 1, by omega⟩
  have hattrs : Counts node fuel t.attrs := counts _ (by omega)
  have hchildren : Counts node fuel t.children := counts _ (by omega)
  have hone := calcNodeSize_eq hattrs hchildren hn hholds hra hrc (by omega) (by omega)
  simp only [bxmlBufferSize, hroot, hone, Option.bind_eq_bind, Option.bind_some, hsize,
    UInt32.ofNat_add]


/-! ## Buffers that are too short -/

lemma toInt32_neg {z : ℤ} (h0 : z < 0) (h : -2147483648 ≤ z) : toInt32 z < 0 := by
  have hz : toInt32 z = z := by
    unfold toInt32
    apply Int.bmod_eq_of_le <;> omega
  omega

/-- A buffer splits behind its first `k` bytes. -/
lemma exists_append {k : ℕ} {old : List UInt8} (h : k ≤ old.length) :
    ∃ front room, old = front ++ room ∧ front.length = k :=
  ⟨old.take k, old.drop k, (List.take_append_drop k old).symm, List.length_take_of_le h⟩

/-- When the buffer ends inside of the forest, the loop over the siblings at `p` returns an error
and leaves what follows the buffer alone. -/
def Overruns (node : ℕ → Option BXML_NODE) (depth : ℕ) (f : Forest) : Prop :=
  ∀ (bound : ℕ) (p : Option ℕ) (pre old tail : List UInt8) (q : ℕ), Rep node p f →
    f.length ≤ bound → pre.length = q → old.length < f.encode.length →
    f.encode.length < 2147483648 →
    ∃ new q' ret, buildNodes node (buildBxmlNode node depth) bound p (pre ++ (old ++ tail)) q
        old.length = some (new ++ tail, q', ret) ∧
      ret < 0 ∧ new.length = pre.length + old.length

/-- One node that does not fit: its fields, its attributes or its children end the buffer. -/
lemma buildBxmlNode_short {depth a : ℕ} {n : BXML_NODE} {name value : List UInt8}
    {attrs children : Forest} (hattrs : Builds node depth attrs)
    (hattrs' : Overruns node depth attrs) (hchildren : Overruns node depth children)
    (hn : node a = some n) (hholds : n.Holds name value) (hra : Rep node n.nodeAttr attrs)
    (hrc : Rep node n.nodeChild children) (hla : attrs.length ≤ 255)
    (hlc : children.length ≤ 65535) (pre old tail : List UInt8) {q : ℕ} (hq : pre.length = q)
    (hshort : old.length < (Forest.node name value attrs children .nil).encode.length)
    (hint : (Forest.node name value attrs children .nil).encode.length < 2147483648) :
    ∃ new ret, buildBxmlNode node (depth + 1) a (pre ++ (old ++ tail)) q old.length =
        some (new ++ tail, ret) ∧ ret < 0 ∧ new.length = pre.length + old.length := by
  have hname := bytesAt_length hholds.name_eq
  have hvalue := bytesAt_length hholds.value_eq
  simp only [Forest.encode, List.append_nil, List.length_append, length_encodeFields]
    at hshort hint
  simp only [buildBxmlNode, hn, Option.bind_eq_bind, Option.bind_some,
    countNodes_eq hra (show attrs.length ≤ 256 by omega),
    countNodes_eq hrc (show children.length ≤ 65536 by omega)]
  by_cases hfields : old.length < 8 + name.length + value.length
  · rw [if_pos (toInt32_neg (by omega) (by omega)), ← List.append_assoc]
    exact ⟨pre ++ old, _, rfl, by decide, List.length_append⟩
  · obtain ⟨fields, room, rfl, hlen⟩ := exists_append (not_lt.mp hfields)
    simp only [List.length_append] at hshort ⊢
    have hwrap : toInt32 ((fields.length + room.length : ℕ) - 8 - n.nameLen.toNat -
        n.valueLen.toNat) = room.length := by
      rw [toInt32_of_lt (by omega) (by omega)]
      omega
    have hwrite := writeNode_eq hholds attrs.length children.length hq
      (show 8 + name.length + value.length ≤ (fields ++ room ++ tail).length by simp; omega)
    rw [List.append_assoc fields, List.drop_left' hlen] at hwrite
    rw [hwrap, if_neg (by omega), List.append_assoc fields, hwrite, Option.bind_some]
    obtain ⟨pre', hpre'⟩ :
      ∃ pre', pre ++ encodeFields name value attrs.length children.length = pre' := ⟨_, rfl⟩
    have hq' : pre'.length = q + (8 + name.length + value.length) := by simp [← hpre', hq]
    rw [hpre']
    by_cases ha : room.length < attrs.encode.length
    · obtain ⟨new, q', ret, hbuild, hret, hnew⟩ :=
        hattrs' 256 n.nodeAttr pre' room tail _ hra (by omega) hq' ha (by omega)
      rw [hbuild, Option.bind_some, if_pos hret]
      exact ⟨new, ret, rfl, hret, by omega⟩
    · obtain ⟨first, room, rfl, hlen'⟩ := exists_append (not_lt.mp ha)
      simp only [List.length_append] at hshort ⊢
      have hbuild := hattrs 256 n.nodeAttr pre' (first ++ (room ++ tail)) _
        (first.length + room.length : ℕ) hra (by omega) hq' (by simp; omega) (by omega) (by omega)
      rw [List.drop_left' hlen'] at hbuild
      rw [List.append_assoc first, hbuild, Option.bind_some]
      dsimp only
      rw [if_neg (by omega)]
      have hroom : ((first.length + room.length : ℕ) : ℤ) - attrs.encode.length =
          room.length := by omega
      obtain ⟨new, q', ret, hbuild, hret, hnew⟩ :=
        hchildren 65536 n.nodeChild (pre' ++ attrs.encode) room tail
          (q + (8 + name.length + value.length) + attrs.encode.length) hrc (by omega)
          (by simp [hq']) (by omega) (by omega)
      rw [hroom, hbuild]
      refine ⟨new, ret, rfl, hret, ?_⟩
      rw [List.length_append] at hnew
      omega

/-- A list of siblings that does not fit is reported, by induction on the forest. -/
lemma overruns (f : Forest) (hf : f.Bounded) {depth : ℕ} (hdepth : f.depth ≤ depth) :
    Overruns node depth f := by
  induction f generalizing depth with
  | nil =>
    intro bound p pre old tail q _ _ _ hshort _
    exact absurd hshort (Nat.not_lt_zero _)
  | node name value attrs children next iha ihc ihn =>
    intro bound p pre old tail q hrep hbound hq hshort hint
    obtain ⟨-, hla, hlc, hba, hbc, hbn⟩ := hf
    obtain ⟨a, n, rfl, -, hn, hholds, hra, hrc, hrn⟩ := hrep
    simp only [Forest.depth] at hdepth
    obtain ⟨depth, rfl⟩ : ∃ d, depth = d + 1 := ⟨depth - 1, by omega⟩
    rw [Forest.length] at hbound
    obtain ⟨bound, rfl⟩ : ∃ b, bound = b + 1 := ⟨bound - 1, by omega⟩
    have hsplit : (Forest.node name value attrs children next).encode.length =
        (Forest.node name value attrs children .nil).encode.length + next.encode.length := by
      simp [Forest.encode, Nat.add_assoc]
    have hattrs : Builds node depth attrs := builds _ hba (by omega)
    have hchildren : Builds node depth children := builds _ hbc (by omega)
    by_cases hone : old.length < (Forest.node name value attrs children .nil).encode.length
    · obtain ⟨new, ret, hbuild, hret, hnew⟩ := buildBxmlNode_short hattrs (iha hba (by omega))
        (ihc hbc (by omega)) hn hholds hra hrc hla hlc pre old tail hq hone (by omega)
      refine ⟨new, q, ret, ?_, hret, hnew⟩
      simp only [buildNodes, hbuild, Option.bind_eq_bind, Option.bind_some, if_pos hret]
    · obtain ⟨first, room, rfl, hlen⟩ := exists_append (not_lt.mp hone)
      rw [List.length_append] at hshort
      have hbuild := buildBxmlNode_eq hattrs hchildren hn hholds hra hrc hla hlc pre
        (first ++ (room ++ tail)) (first ++ room).length hq (by simp; omega) (by simp; omega)
        (by simp; omega)
      have hroom : ((first ++ room).length : ℤ) -
          (Forest.node name value attrs children .nil).encode.length = room.length := by
        simp
        omega
      rw [List.drop_left' hlen, hroom] at hbuild
      have hpos : ((q : ℤ) + ((first ++ room).length - (room.length : ℤ))).toNat =
          q + (Forest.node name value attrs children .nil).encode.length := by
        simp
        omega
      obtain ⟨new, q', ret, hrest, hret, hnew⟩ :=
        ihn hbn (by omega : next.depth ≤ depth + 1) bound n.nodeNext
          (pre ++ (Forest.node name value attrs children .nil).encode) room tail
          (q + (Forest.node name value attrs children .nil).encode.length) hrn (by omega)
          (by simp [hq]) (by omega) (by omega)
      refine ⟨new, q', ret, ?_, hret, ?_⟩
      · simp only [buildNodes, List.append_assoc first, hbuild, hn, Option.bind_eq_bind,
          Option.bind_some, hpos]
        rw [if_neg (by omega), hrest]
      · rw [hnew, List.length_append, List.length_append]
        omega


/-- In a buffer that is too short, `bxml_build` returns an error and leaves what follows the
buffer alone. -/
theorem bxmlBuild_short {depth root memSize : ℕ} {xml : BXML_DATA} {mem : List UInt8} {t : Tree}
    (hroot : xml.nodeRoot = some root) (hrep : RepTree node root t) (ht : t.Bounded)
    (hdepth : t.forest.depth ≤ depth) (hmem : memSize ≤ mem.length) (hsize : memSize < t.size)
    (hint : t.size < 2147483648) :
    ∃ new ret, bxmlBuild node depth xml mem memSize = some (new ++ mem.drop memSize, ret) ∧
      ret < 0 ∧ new.length = memSize := by
  obtain ⟨n, hn, hholds, hra, hrc⟩ := hrep
  obtain ⟨-, hla, hlc, hba, hbc, -⟩ := ht
  simp only [Tree.forest, Forest.depth] at hdepth
  obtain ⟨depth, rfl⟩ : ∃ d, depth = d + 1 := ⟨depth - 1, by omega⟩
  have hclear := write_start mem (List.replicate memSize 0) (by simpa using hmem)
  rw [List.length_replicate] at hclear
  simp only [bxmlBuild, hclear, hroot, Option.bind_eq_bind, Option.bind_some]
  by_cases hheader : memSize < BXML_HEADER_SIZE
  · rw [if_pos hheader]
    exact ⟨_, _, rfl, by decide, List.length_replicate⟩
  · obtain ⟨k, rfl⟩ : ∃ k, memSize = BXML_HEADER_SIZE + k := ⟨memSize - BXML_HEADER_SIZE, by omega⟩
    have hwrite : writeHeader xml (List.replicate (BXML_HEADER_SIZE + k) 0 ++
        mem.drop (BXML_HEADER_SIZE + k)) = some (encodeHeader xml.version xml.flag ++
          (List.replicate k 0 ++ mem.drop (BXML_HEADER_SIZE + k))) := by
      rw [writeHeader_eq xml _ (by simp; omega), drop_replicate_zero]
      simp only [encodeHeader, List.append_assoc]
    have hbody : t.size = BXML_HEADER_SIZE +
        (Forest.node t.name t.value t.attrs t.children .nil).encode.length := rfl
    have hattrs : Builds node depth t.attrs := builds _ hba (by omega)
    obtain ⟨new, ret, hbuild, hret, hnew⟩ := buildBxmlNode_short hattrs
      (overruns _ hba (by omega)) (overruns _ hbc (by omega)) hn hholds hra hrc hla hlc
      (encodeHeader xml.version xml.flag) (List.replicate k 0) (mem.drop (BXML_HEADER_SIZE + k))
      (length_encodeHeader ..) (by simp; omega) (by omega)
    have hroom : ((BXML_HEADER_SIZE + k : ℕ) : ℤ) - (BXML_HEADER_SIZE : ℕ) =
        (List.replicate k (0 : UInt8)).length := by
      rw [List.length_replicate]
      omega
    rw [if_neg hheader, hwrite, Option.bind_some, hroom, hbuild, Option.bind_some, if_pos hret]
    refine ⟨new, ret, rfl, hret, ?_⟩
    rw [hnew, length_encodeHeader, List.length_replicate]

/-! ## The size is exact -/

/-- A document with a tree of the format's limits. -/
structure Document (s : State) (t : Tree) : Prop where
  root : ∃ root, s.xml.nodeRoot = some root ∧ RepTree s.node root t
  bounded : t.Bounded
  size_lt : t.size < 2147483648

/-- `bxml_build` needs exactly `bxml_buffer_size` bytes: with them it returns their number, with
less it returns an error, and either way the bytes behind the buffer stay as they are. -/
theorem bxmlBuild_bufferSize {s : State} {t : Tree} {fuel memSize : ℕ} {mem : List UInt8}
    (hdoc : Document s t) (hfuel : t.size ≤ fuel) (hmem : memSize ≤ mem.length)
    (hint : memSize < 2147483648) :
    ∃ size new ret, bxmlBufferSize s.node fuel s.xml = some size ∧
      bxmlBuild s.node fuel s.xml mem memSize = some (new ++ mem.drop memSize, ret) ∧
      new.length = memSize ∧ (size.toNat ≤ memSize → ret = size.toNat) ∧
      (memSize < size.toNat → ret < 0) := by
  obtain ⟨root, hroot, hrep⟩ := hdoc.root
  have hsize := bxmlBufferSize_eq hroot hrep hfuel
  have hlt := hdoc.size_lt
  have htoNat : (UInt32.ofNat t.size).toNat = t.size := UInt32.toNat_ofNat_of_lt' (hlt.trans (by decide))
  have hdepth : t.forest.depth ≤ fuel := by
    have hle := t.forest.depth_le
    have hdef : t.size = BXML_HEADER_SIZE + t.forest.encode.length := rfl
    omega
  by_cases hfit : t.size ≤ memSize
  · have hbuild := bxmlBuild_eq hroot hrep hdoc.bounded hdepth hmem hfit hint
    rw [← List.append_assoc] at hbuild
    refine ⟨_, _, _, hsize, hbuild, ?_, fun _ => by rw [htoNat], fun hshort => by omega⟩
    simp only [List.length_append, length_encodeHeader, List.length_replicate]
    rw [show BXML_HEADER_SIZE + t.encode.length = t.size from rfl]
    omega
  · obtain ⟨new, ret, hbuild, hret, hnew⟩ :=
      bxmlBuild_short hroot hrep hdoc.bounded hdepth hmem (not_le.mp hfit) hlt
    exact ⟨_, new, ret, hsize, hbuild, hnew, fun hle => by omega, fun _ => hret⟩

/-- A root with two children needs 43 bytes, one more than there are. -/
theorem bxmlBuild_bufferSize_siblings :
    ∃ size new ret, bxmlBufferSize (siblings 98 99).node 43 (siblings 98 99).xml = some size ∧
      bxmlBuild (siblings 98 99).node 43 (siblings 98 99).xml (List.replicate 42 7) 42 =
        some (new ++ (List.replicate 42 7).drop 42, ret) ∧
      new.length = 42 ∧ (size.toNat ≤ 42 → ret = size.toNat) ∧ (42 < size.toNat → ret < 0) :=
  bxmlBuild_bufferSize
    ⟨(siblings_fits 98 99).root, (siblings_fits 98 99).bounded, by decide⟩ (by decide) (by decide)
    (by decide)

end Sgos.Bxml
