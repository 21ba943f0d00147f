import Sgos.BxmlTree

/-!
# What the binary encoder writes

`build_bxml_node` writes the byte format of the tree that its node represents, and leaves the rest
of the buffer alone, whenever the buffer has room for it.
-/
namespace Sgos.Bxml
open ByteBuffer

variable {node : ℕ → Option BXML_NODE}

lemma countNodes_eq {region : Set ℕ} {f : Forest} {p : Option ℕ} {bound : ℕ}
    (h : RepIn node region p f) (hlen : f.length ≤ bound) :
    countNodes node bound p = some f.length := by
  induction f generalizing p bound with
  | nil =>
    obtain rfl : p = none := h
    cases bound <;> rfl
  | node name value attrs children next iha ihc ihn =>
    obtain ⟨a, n, rfl, -, hn, -, -, -, hnext⟩ := h
    rw [Forest.length] at hlen
    obtain ⟨bound, rfl⟩ : ∃ b, bound = b + 1 := ⟨bound - 1, by omega⟩
    simp [countNodes, hn, ihn hnext (Nat.le_of_succ_le_succ hlen), Forest.length]

/-- The fields of a node are written one behind the other. -/
lemma writeNode_eq {n : BXML_NODE} {name value : List UInt8} (hn : n.Holds name value)
    (attrCount childCount : ℕ) {pre old : List UInt8} {q : ℕ} (hq : pre.length = q)
    (hfit : 8 + name.length + value.length ≤ old.length) :
    writeNode n attrCount childCount (pre ++ old) q =
      some (pre ++ encodeFields name value attrCount childCount ++
          old.drop (8 + name.length + value.length),
        q + (8 + name.length + value.length)) := by
  have hnameLen := bytesAt_length hn.name_eq
  have hvalueLen := bytesAt_length hn.value_eq
  have hname := hn.name_eq
  have hvalue := hn.value_eq
  rw [← hnameLen] at hname
  rw [← hvalueLen] at hvalue
  subst hq
  simp only [writeNode, ← hnameLen, ← hvalueLen, hname, hvalue, Option.bind_eq_bind,
    Option.bind_some]
  -- each write starts where the one before it ended
  rw [write_front rfl _ _ (by simp only [length_littleEndian]; omega), Option.bind_some,
    write_front (by simp) _ _ (by simp only [List.length_drop, length_littleEndian]; omega),
    Option.bind_some,
    write_front (by simp; omega) _ _
      (by simp only [List.length_drop, length_littleEndian]; omega), Option.bind_some,
    write_front (by simp; omega) _ _
      (by simp only [List.length_drop, length_littleEndian]; omega), Option.bind_some,
    write_front (by simp; omega) _ _
      (by simp only [List.length_drop, length_littleEndian]; omega), Option.bind_some,
    write_front (by simp; omega) _ _
      (by simp only [List.length_drop, length_littleEndian]; omega), Option.bind_some]
  simp only [encodeFields, List.drop_drop, length_littleEndian, List.append_assoc,
    Option.some.injEq, Prod.mk.injEq, List.append_cancel_left_eq]
  constructor
  · congr 1
    omega
  · omega

/-- The loop over the list of siblings at `p` writes the forest it represents. -/
def Builds (node : ℕ → Option BXML_NODE) (depth : ℕ) (f : Forest) : Prop :=
  ∀ (bound : ℕ) (p : Option ℕ) (pre old : List UInt8) (q : ℕ) (len : ℤ), Rep node p f →
    f.length ≤ bound → pre.length = q → f.encode.length ≤ old.length →
    (f.encode.length : ℤ) ≤ len → len < 2147483648 →
    buildNodes node (buildBxmlNode node depth) bound p (pre ++ old) q len =
      some (pre ++ f.encode ++ old.drop f.encode.length, q + f.encode.length,
        len - f.encode.length)

lemma toInt32_of_lt {z : ℤ} (h0 : 0 ≤ z) (h : z < 2147483648) : toInt32 z = z := by
  unfold toInt32
  apply Int.bmod_eq_of_le <;> omega

/-- One node, given that the loops over its attributes and its children are right. -/
lemma buildBxmlNode_eq {depth a : ℕ} {n : BXML_NODE} {name value : List UInt8}
    {attrs children : Forest} (hattrs : Builds node depth attrs)
    (hchildren : Builds node depth children) (hn : node a = some n) (hholds : n.Holds name value)
    (hra : Rep node n.nodeAttr attrs) (hrc : Rep node n.nodeChild children)
    (hla : attrs.length ≤ 255) (hlc : children.length ≤ 65535) (pre old : List UInt8) {q : ℕ}
    (len : ℤ) (hq : pre.length = q)
    (hfit : (Forest.node name value attrs children .nil).encode.length ≤ old.length)
    (hlen : ((Forest.node name value attrs children .nil).encode.length : ℤ) ≤ len)
    (hint : len < 2147483648) :
    buildBxmlNode node (depth + 1) a (pre ++ old) q len =
      some (pre ++ (Forest.node name value attrs children .nil).encode ++
          old.drop (Forest.node name value attrs children .nil).encode.length,
        len - (Forest.node name value attrs children .nil).encode.length) := by
  have hname := bytesAt_length hholds.name_eq
  have hvalue := bytesAt_length hholds.value_eq
  simp only [Forest.encode, List.append_nil, List.length_append, length_encodeFields] at hfit hlen ⊢
  push_cast at hlen
  have hwrap : toInt32 (len - 8 - n.nameLen.toNat - n.valueLen.toNat) =
      len - 8 - name.length - value.length := by
    rw [← hname, ← hvalue]
    apply toInt32_of_lt <;> omega
  have hfields := writeNode_eq hholds attrs.length children.length hq
    (show 8 + name.length + value.length ≤ old.length by omega)
  have ha := hattrs 256 n.nodeAttr _ (old.drop (8 + name.length + value.length))
    (q + (8 + name.length + value.length)) (len - 8 - name.length - value.length) hra (by omega)
    (show (pre ++ encodeFields name value attrs.length children.length).length = _ by simp [hq])
    (by simp only [List.length_drop]; omega) (by omega) (by omega)
  have hc := hchildren 65536 n.nodeChild _
    ((old.drop (8 + name.length + value.length)).drop attrs.encode.length)
    (q + (8 + name.length + value.length) + attrs.encode.length)
    (len - 8 - name.length - value.length - attrs.encode.length) hrc (by omega)
    (show (pre ++ encodeFields name value attrs.length children.length ++ attrs.encode).length = _
      by simp [hq, Nat.add_assoc])
    (by simp only [List.length_drop]; omega) (by omega) (by omega)
  simp only [buildBxmlNode, hn, hwrap, Option.bind_eq_bind, Option.bind_some,
    countNodes_eq hra (show attrs.length ≤ 256 by omega),
    countNodes_eq hrc (show children.length ≤ 65536 by omega), hfields, ha, hc]
  rw [if_neg (by omega), if_neg (by omega)]
  simp only [List.drop_drop, List.append_assoc, Option.some.injEq, Prod.mk.injEq,
    List.append_cancel_left_eq]
  constructor
  · congr 1
    omega
  · push_cast
    omega

/-- Every list of siblings that represents a forest is written, by induction on the forest. -/
lemma builds (f : Forest) (hf : f.Bounded) {depth : ℕ} (hdepth : f.depth ≤ depth) :
    Builds node depth f := by
  induction f generalizing depth with
  | nil =>
    intro bound p pre old q len hrep _ _ _ _ _
    obtain rfl : p = none := hrep
    cases bound <;> simp [buildNodes, Forest.encode]
  | node name value attrs children next iha ihc ihn =>
    intro bound p pre old q len hrep hbound hq hfit hlen hint
    obtain ⟨-, hla, hlc, hba, hbc, hbn⟩ := hf
    obtain ⟨a, n, rfl, -, hn, hholds, hra, hrc, hrn⟩ := hrep
    simp only [Forest.depth] at hdepth
    obtain ⟨depth, rfl⟩ : ∃ d, depth = d + 1 := ⟨depth - 1, by omega⟩
    rw [Forest.length] at hbound
    obtain ⟨bound, rfl⟩ : ∃ b, bound = b + 1 := ⟨bound - 1, by omega⟩
    have hsplit : (Forest.node name value attrs children next).encode =
        (Forest.node name value attrs children .nil).encode ++ next.encode := by
      simp [Forest.encode]
    rw [hsplit, List.length_append] at hfit hlen
    push_cast at hlen
    have hattrs : Builds node depth attrs := iha hba (by omega)
    have hchildren : Builds node depth children := ihc hbc (by omega)
    have hone := buildBxmlNode_eq hattrs hchildren hn hholds hra hrc hla hlc pre old len hq
      (by omega) (by omega) hint
    have hrest := ihn hbn (by omega : next.depth ≤ depth + 1) bound n.nodeNext _
      (old.drop (Forest.node name value attrs children .nil).encode.length)
      (q + (Forest.node name value attrs children .nil).encode.length)
      (len - (Forest.node name value attrs children .nil).encode.length) hrn (by omega)
      (show (pre ++ (Forest.node name value attrs children .nil).encode).length = _ by simp [hq])
      (by simp only [List.length_drop]; omega) (by omega) (by omega)
    have hpos : ((q : ℤ) + (len - (len -
        ((Forest.node name value attrs children .nil).encode.length : ℤ)))).toNat =
          q + (Forest.node name value attrs children .nil).encode.length := by omega
    simp only [buildNodes, hone, Option.bind_eq_bind, Option.bind_some, hn, hpos]
    rw [if_neg (by omega), hrest, hsplit]
    simp only [List.drop_drop, List.append_assoc, List.length_append, Option.some.injEq,
      Prod.mk.injEq, true_and]
    push_cast
    omega

/-- The header: magic, version, flag and the reserved bytes. -/
def encodeHeader (version : UInt16) (flag : UInt8) : List UInt8 :=
  littleEndian 4 BXML_MAGIC ++ (littleEndian 2 version.toNat ++ (littleEndian 1 flag.toNat ++
    List.replicate 9 0))

@[simp] lemma length_encodeHeader (version : UInt16) (flag : UInt8) :
    (encodeHeader version flag).length = BXML_HEADER_SIZE := rfl

lemma writeHeader_eq (xml : BXML_DATA) (old : List UInt8) (hfit : BXML_HEADER_SIZE ≤ old.length) :
    writeHeader xml old =
      some (littleEndian 4 BXML_MAGIC ++ littleEndian 2 xml.version.toNat ++
        littleEndian 1 xml.flag.toNat ++ old.drop 7) := by
  have h16 : BXML_HEADER_SIZE = 16 := rfl
  simp only [writeHeader, Option.bind_eq_bind]
  rw [write_start _ _ (by simp only [length_littleEndian]; omega), Option.bind_some,
    write_front (by simp) _ _ (by simp only [List.length_drop, length_littleEndian]; omega),
    Option.bind_some,
    write_front (by simp) _ _ (by simp only [List.length_drop, length_littleEndian]; omega)]
  simp only [List.drop_drop, length_littleEndian]

/-- Over zeros, the fields leave the reserved bytes of the header clear. -/
lemma drop_replicate_zero (k : ℕ) (rest : List UInt8) :
    (List.replicate (BXML_HEADER_SIZE + k) 0 ++ rest).drop 7 =
      List.replicate 9 0 ++ (List.replicate k 0 ++ rest) := by
  rw [show BXML_HEADER_SIZE + k = 7 + (9 + k) by simp only [BXML_HEADER_SIZE]; omega,
    List.replicate_add, List.append_assoc, List.drop_left' List.length_replicate,
    List.replicate_add, List.append_assoc]

/-- In a buffer with room for it, `bxml_build` writes the document and clears the rest. -/
theorem bxmlBuild_eq {depth root memSize : ℕ} {xml : BXML_DATA} {mem : List UInt8} {t : Tree}
    (hroot : xml.nodeRoot = some root) (hrep : RepTree node root t) (ht : t.Bounded)
    (hdepth : t.forest.depth ≤ depth) (hmem : memSize ≤ mem.length) (hsize : t.size ≤ memSize)
    (hint : memSize < 2147483648) :
    bxmlBuild node depth xml mem memSize =
      some (encodeHeader xml.version xml.flag ++ t.encode ++
        (List.replicate (memSize - t.size) 0 ++ mem.drop memSize), (t.size : ℤ)) := by
  obtain ⟨n, hn, hholds, hra, hrc⟩ := hrep
  obtain ⟨-, hla, hlc, hba, hbc, -⟩ := ht
  simp only [Tree.forest, Forest.depth] at hdepth
  obtain ⟨depth, rfl⟩ : ∃ d, depth = d + 1 := ⟨depth - 1, by omega⟩
  obtain ⟨k, rfl⟩ : ∃ k, memSize = t.size + k := ⟨memSize - t.size, by omega⟩
  have hsum : t.size + k = BXML_HEADER_SIZE + (t.encode.length + k) := Nat.add_assoc ..
  have hclear := write_start mem (List.replicate (t.size + k) 0) (by simpa using hmem)
  rw [List.length_replicate] at hclear
  have hheader : writeHeader xml (List.replicate (t.size + k) 0 ++ mem.drop (t.size + k)) =
      some (encodeHeader xml.version xml.flag ++
        (List.replicate (t.encode.length + k) 0 ++ mem.drop (t.size + k))) := by
    rw [writeHeader_eq xml _ (by simp; omega), hsum, drop_replicate_zero]
    simp only [encodeHeader, List.append_assoc]
  have hattrs : Builds node depth t.attrs := builds _ hba (by omega)
  have hchildren : Builds node depth t.children := builds _ hbc (by omega)
  have hbody : (Forest.node t.name t.value t.attrs t.children .nil).encode = t.encode := rfl
  have hnode := buildBxmlNode_eq hattrs hchildren hn hholds hra hrc hla hlc
    (encodeHeader xml.version xml.flag)
    (List.replicate (t.encode.length + k) 0 ++ mem.drop (t.size + k))
    ((t.size + k : ℕ) - BXML_HEADER_SIZE : ℤ) (length_encodeHeader ..)
    (by rw [hbody]; simp; omega) (by rw [hbody]; omega) (by omega)
  have hrest : (List.replicate (t.encode.length + k) (0 : UInt8) ++ mem.drop (t.size + k)).drop
      t.encode.length = List.replicate k 0 ++ mem.drop (t.size + k) := by
    rw [List.replicate_add, List.append_assoc, List.drop_left' List.length_replicate]
  rw [hbody, hrest] at hnode
  simp only [bxmlBuild, hclear, hheader, hroot, hnode, Option.bind_eq_bind, Option.bind_some]
  rw [if_neg (by omega), if_neg (by omega), Nat.add_sub_cancel_left]
  simp only [Option.some.injEq, Prod.mk.injEq, true_and]
  omega

end Sgos.Bxml
