import Sgos.XmlTree
import Sgos.BxmlBuild

/-!
# What the XML printer writes

A buffer with room for it ends up with the text of the elements, and the count of the bytes that
are left is exact at every step.
-/
namespace Sgos.Xml
open ByteBuffer CString Bxml

/-- The bytes of a buffer that a text leaves. -/
def left (size : ℕ) (t : List UInt8) : ℤ := size - t.length

variable {size q : ℕ} {tail t : List UInt8}

lemma left_pos (h : t.length < size) : 0 < left size t := by
  unfold left
  omega

/-- The count after a piece of `k` characters. -/
lemma left_append {piece : List UInt8} {k : ℕ} (hk : piece.length = k)
    (hfit : (t ++ piece).length < size) (hsize : size < 2147483648) :
    toInt32 (left size t - k) = left size (t ++ piece) := by
  rw [List.length_append] at hfit
  unfold left
  rw [List.length_append, hk]
  rw [toInt32_of_lt] <;> push_cast <;> omega

lemma indent_holding {level : ℕ} (hzero : (0 : UInt8) ∉ t) (hq : q ≤ t.length)
    (hfit : (t ++ List.replicate level tab).length < size) :
    indent level (holding size tail t) q =
      some (holding size tail (t ++ List.replicate level tab)) := by
  induction level generalizing t with
  | zero => simp [indent]
  | succ level ih =>
    simp only [List.length_append, List.length_replicate] at hfit
    have hcat := @strcat_holding size q tail t hzero hq [tab] (by simp; omega)
    have htab : (0 : UInt8) ∉ t ++ [tab] := by
      rw [List.mem_append, List.mem_singleton, not_or]
      exact ⟨hzero, by decide⟩
    rw [indent, hcat, Option.bind_eq_bind, Option.bind_some,
      ih htab (by simp; omega) (by simp; omega), List.replicate_succ, List.append_assoc]
    rfl

lemma printBehind_holding (hzero : (0 : UInt8) ∉ t) (hq : q ≤ t.length) {piece : List UInt8}
    (hfit : (t ++ piece).length < size) :
    printBehind (holding size tail t) q piece = some (holding size tail (t ++ piece)) := by
  have hlen : t.length < size := by
    rw [List.length_append] at hfit
    omega
  rw [printBehind, cstring_holding hzero hq hlen, Option.bind_eq_bind, Option.bind_some,
    sprintf_holding hq hfit]

lemma stringEnd_holding (hzero : (0 : UInt8) ∉ t) (hq : q ≤ t.length) (hfit : t.length < size) :
    stringEnd (holding size tail t) q = some t.length := by
  rw [stringEnd, cstring_holding hzero hq hfit, Option.map_some, List.length_drop]
  congr 1
  omega

variable {node : ℕ → Option BXML_NODE}

/-- The name of a node with terminated strings. -/
lemma nodeName_eq {a : ℕ} {n : BXML_NODE} {name value : List UInt8} (ha : a ∈ stringNodes node)
    (hn : node a = some n) (hholds : n.Holds name value) (hname : IsName name) :
    ∃ block, n.name = some block ∧ cstring block = some name := by
  have hlen := bytesAt_length hholds.name_eq
  have hpos : n.nameLen.toNat ≠ 0 := by
    rw [← hlen, ne_eq, List.length_eq_zero_iff]
    exact hname.1
  cases hblock : n.name with
  | none =>
    have hnone := hholds.name_eq
    rw [hblock, bytesAt, if_neg hpos] at hnone
    cases hnone
  | some block =>
    exact ⟨block, rfl, cstring_of_terminated (ha n hn).1 hholds.name_eq hname.zero_notMem hblock⟩

/-- The value of such a node, unless the pointer is null. -/
lemma nodeValue_eq {a : ℕ} {n : BXML_NODE} {name value : List UInt8} (ha : a ∈ stringNodes node)
    (hn : node a = some n) (hholds : n.Holds name value) (hvalue : ∀ c ∈ value, Plain c) :
    n.value = none ∧ value = [] ∨ ∃ block, n.value = some block ∧ cstring block = some value := by
  have hzero : (0 : UInt8) ∉ value := fun hc => (hvalue 0 hc).1 rfl
  cases hblock : n.value with
  | none =>
    left
    have hnone := hholds.value_eq
    rw [hblock, bytesAt] at hnone
    split at hnone
    · exact ⟨rfl, (Option.some.inj hnone).symm⟩
    · cases hnone
  | some block =>
    right
    exact ⟨block, rfl, cstring_of_terminated (ha n hn).2 hholds.value_eq hzero hblock⟩

lemma buildAttributes_eq {attrs : List (List UInt8 × List UInt8)} {p : Option ℕ} {bound : ℕ}
    (hrep : RepIn node (stringNodes node) p (attrForest attrs))
    (hattrs : ∀ attr ∈ attrs, IsAttribute attr) (hbound : attrs.length ≤ bound)
    (hsize : size < 2147483648) (hzero : (0 : UInt8) ∉ t) (hq : q ≤ t.length)
    (hfit : (t ++ attrsText attrs).length < size) :
    buildAttributes node bound p (holding size tail t) q (left size t) =
      some (holding size tail (t ++ attrsText attrs), left size (t ++ attrsText attrs)) := by
  induction attrs generalizing p bound t with
  | nil =>
    obtain rfl : p = none := hrep
    cases bound <;> simp [buildAttributes, attrsText]
  | cons attr attrs ih =>
    obtain ⟨name, value⟩ := attr
    obtain ⟨a, n, rfl, ha, hn, hholds, -, -, hnext⟩ := hrep
    obtain ⟨hattr, hattrs⟩ := List.forall_mem_cons.mp hattrs
    obtain ⟨hname, hne, hplain⟩ := hattr
    obtain ⟨bound, rfl⟩ : ∃ b, bound = b + 1 := by
      rw [List.length_cons] at hbound
      exact ⟨bound - 1, by omega⟩
    obtain ⟨block, hblock, hcstr⟩ := nodeName_eq ha hn hholds hname
    obtain ⟨-, rfl⟩ | ⟨block', hblock', hcstr'⟩ := nodeValue_eq ha hn hholds hplain
    · exact absurd rfl hne
    obtain ⟨piece, hpiece⟩ :
      ∃ piece, piece = space :: name ++ [equals, quote] ++ value ++ [quote] := ⟨_, rfl⟩
    have hsplit : t ++ attrsText ((name, value) :: attrs) = t ++ piece ++ attrsText attrs := by
      rw [attrsText_cons, hpiece]
      simp only [List.append_assoc]
    rw [hsplit] at hfit ⊢
    have hfit' : (t ++ piece).length < size := by
      rw [List.length_append] at hfit
      omega
    have hk : piece.length = name.length + n.valueLen.toNat + 4 := by
      rw [hpiece, ← bytesAt_length hholds.value_eq]
      simp
      omega
    have hlen := left_append hk hfit' hsize
    have hpos := left_pos hfit'
    have hprint := @printBehind_holding size q tail t hzero hq piece hfit'
    have hzero' : (0 : UInt8) ∉ t ++ piece := by
      have hsub := @zero_notMem_attrsText [(name, value)] (by
        simpa using ⟨hname, hne, hplain⟩)
      rw [attrsText_cons, ← hpiece] at hsub
      simpa [hzero, attrsText] using hsub
    have hq' : q ≤ (t ++ piece).length := by
      rw [List.length_append]
      omega
    rw [buildAttributes]
    simp only [hn, hblock, hcstr, hblock', formatString, hcstr', hlen, hpos, if_true,
      Option.bind_eq_bind, Option.bind_some, ← hpiece, hprint]
    exact ih hnext hattrs (Nat.le_of_succ_le_succ hbound) hzero' hq' hfit

lemma buildClose_holding (hzero : (0 : UInt8) ∉ t) (hq : q ≤ t.length) {name : List UInt8}
    (hfit : (t ++ closeText name).length < size) :
    buildClose (holding size tail t) q name = some (holding size tail (t ++ closeText name)) :=
  printBehind_holding hzero hq hfit

lemma length_closeText (name : List UInt8) : (closeText name).length = name.length + 4 := by
  simp only [closeText, List.length_append, List.length_cons, List.length_nil]
  omega

/-- `>`, the value and the closing tag, or the end of a short tag. -/
lemma buildLeaf_eq {a : ℕ} {n : BXML_NODE} {name value : List UInt8}
    {attrs : List (List UInt8 × List UInt8)} (ha : a ∈ stringNodes node) (hn : node a = some n)
    (hholds : n.Holds name value) (hvalue : ∀ c ∈ value, Plain c) (hattr : n.nodeAttr = none ↔ attrs = [])
    (hsize : size < 2147483648) (hzero : (0 : UInt8) ∉ t) (hq : q ≤ t.length)
    (hfit : (t ++ Elements.leafText name value attrs).length < size) :
    buildLeaf n name (holding size tail t) q (left size t) =
      some (holding size tail (t ++ Elements.leafText name value attrs),
        left size (t ++ Elements.leafText name value attrs)) := by
  have hlen := bytesAt_length hholds.value_eq
  have hlong : 0 < n.valueLen ↔ value ≠ [] := by
    rw [UInt32.lt_iff_toNat_lt, ← hlen, ne_eq, ← List.length_eq_zero_iff]
    exact Nat.pos_iff_ne_zero
  by_cases hcond : attrs = [] ∨ value ≠ []
  · rw [Elements.leafText, if_pos hcond] at hfit ⊢
    have hsplit : t ++ (greater :: value ++ closeText name) =
        t ++ [greater] ++ value ++ closeText name := by
      simp only [List.append_assoc, List.cons_append, List.nil_append]
    rw [hsplit] at hfit ⊢
    have hfit₂ : (t ++ [greater] ++ value).length < size := by
      rw [List.length_append] at hfit
      omega
    have hfit₁ : (t ++ [greater]).length < size := by
      rw [List.length_append] at hfit₂
      omega
    have hzero₁ : (0 : UInt8) ∉ t ++ [greater] := by
      rw [List.mem_append, List.mem_singleton, not_or]
      exact ⟨hzero, by decide⟩
    have hzero₂ : (0 : UInt8) ∉ t ++ [greater] ++ value := by
      rw [List.mem_append, not_or]
      exact ⟨hzero₁, fun hc => (hvalue 0 hc).1 rfl⟩
    have hq₁ : q ≤ (t ++ [greater]).length := by
      rw [List.length_append]
      omega
    have hq₂ : q ≤ (t ++ [greater] ++ value).length := by
      rw [List.length_append]
      omega
    have hleft₁ : toInt32 (left size t - 1) = left size (t ++ [greater]) :=
      @left_append size t [greater] 1 rfl hfit₁ hsize
    have hleft₂ := left_append hlen hfit₂ hsize
    have hleft₃ := left_append (length_closeText name) hfit hsize
    have hput : buildValue n (holding size tail (t ++ [greater])) q
        (left size (t ++ [greater] ++ value)) =
          some (holding size tail (t ++ [greater] ++ value)) := by
      obtain ⟨hnone, rfl⟩ | ⟨block, hblock, hcstr⟩ := nodeValue_eq ha hn hholds hvalue
      · rw [buildValue, hnone, List.append_nil]
      · rw [buildValue, hblock]
        simp only [left_pos hfit₂, if_true, hcstr, Option.bind_eq_bind, Option.bind_some]
        exact strcat_holding hzero₁ hq₁ hfit₂
    rw [buildLeaf, if_pos (by rwa [hattr, hlong])]
    simp only [hleft₁, left_pos hfit₁, if_true, strcat_holding hzero hq hfit₁, hleft₂, hput, hleft₃,
      left_pos hfit, buildClose_holding hzero₂ hq₂ hfit, Option.bind_eq_bind, Option.bind_some]
  · rw [Elements.leafText, if_neg hcond] at hfit ⊢
    have hleft : toInt32 (left size t - 4) = left size (t ++ [space, slash, greater, newline]) :=
      @left_append size t [space, slash, greater, newline] 4 rfl hfit hsize
    rw [buildLeaf, if_neg (by rwa [hattr, hlong])]
    simp only [hleft, left_pos hfit, if_true, strcat_holding hzero hq hfit, Option.bind_eq_bind,
      Option.bind_some]

/-- A node and its siblings extend the text by the lines of their elements. -/
def Prints (node : ℕ → Option BXML_NODE) (size : ℕ) (tail : List UInt8) (e : Elements) : Prop :=
  ∀ (depth level a q : ℕ) (t : List UInt8), e.depth ≤ depth →
    RepIn node (stringNodes node) (some a) e.forest → (0 : UInt8) ∉ t → q ≤ t.length →
    (t ++ e.text level).length < size →
    buildXmlNode node depth a level (holding size tail t) q (left size t) =
      some (holding size tail (t ++ e.text level), left size (t ++ e.text level))

/-- The loop over siblings ends, or goes on with the next of them. -/
lemma Prints.siblings {e : Elements} (h : Prints node size tail e) {depth level q : ℕ}
    {p : Option ℕ} (hdepth : e.depth ≤ depth)
    (hrep : RepIn node (stringNodes node) p e.forest) (hzero : (0 : UInt8) ∉ t) (hq : q ≤ t.length)
    (hfit : (t ++ e.text level).length < size) :
    buildNext (buildXmlNode node depth) level (holding size tail t) q (left size t) p =
      some (holding size tail (t ++ e.text level), left size (t ++ e.text level)) := by
  cases p with
  | none =>
    cases e with
    | nil => simp [buildNext, Elements.text]
    | node name value attrs children next =>
      obtain ⟨a, n, hp, -⟩ := hrep
      cases hp
  | some a =>
    have hlen : t.length < size := by
      rw [List.length_append] at hfit
      omega
    simp only [buildNext, stringEnd_holding hzero hq hlen, Option.bind_eq_bind, Option.bind_some]
    exact h depth level a t.length t hdepth hrep hzero le_rfl hfit

/-- Tabs, `<` and the name. -/
lemma buildOpen_holding {level : ℕ} {name : List UInt8} (hzero : (0 : UInt8) ∉ t)
    (hq : q ≤ t.length) (hfit : (t ++ List.replicate level tab ++ less :: name).length < size) :
    buildOpen level name (holding size tail t) q =
      some (holding size tail (t ++ List.replicate level tab ++ less :: name)) := by
  have hzero₁ : (0 : UInt8) ∉ t ++ List.replicate level tab := by
    rw [List.mem_append, not_or]
    exact ⟨hzero, fun hmem => absurd (List.eq_of_mem_replicate hmem) (by decide)⟩
  have hzero₂ : (0 : UInt8) ∉ t ++ List.replicate level tab ++ [less] := by
    rw [List.mem_append, List.mem_singleton, not_or]
    exact ⟨hzero₁, by decide⟩
  have hsplit : t ++ List.replicate level tab ++ less :: name =
      t ++ List.replicate level tab ++ [less] ++ name := by
    simp only [List.append_assoc, List.cons_append, List.nil_append]
  rw [hsplit] at hfit ⊢
  simp only [List.length_append] at hfit
  simp only [buildOpen, Option.bind_eq_bind]
  rw [indent_holding hzero hq (by simp only [List.length_append]; omega), Option.bind_some,
    strcat_holding hzero₁ (by simp only [List.length_append]; omega)
      (by simp only [List.length_append]; omega), Option.bind_some,
    strcat_holding hzero₂ (by simp only [List.length_append]; omega)
      (by simp only [List.length_append]; omega)]

/-- The lines of the children and the closing tag. -/
lemma Prints.nested {e : Elements} (h : Prints node size tail e) (he : e.Proper)
    {depth level child : ℕ} (hdepth : e.depth ≤ depth)
    (hrep : RepIn node (stringNodes node) (some child) e.forest) {name : List UInt8}
    (hsize : size < 2147483648) (hzero : (0 : UInt8) ∉ t)
    (hq : q ≤ t.length)
    (hfit : (t ++ Elements.nestedText level name (e.text (level + 1))).length < size) :
    buildNested (buildXmlNode node depth) child level name (holding size tail t) q (left size t) =
      some (holding size tail (t ++ Elements.nestedText level name (e.text (level + 1))),
        left size (t ++ Elements.nestedText level name (e.text (level + 1)))) := by
  have hsplit : t ++ Elements.nestedText level name (e.text (level + 1)) =
      t ++ [greater, newline] ++ e.text (level + 1) ++
        (List.replicate level tab ++ closeText name) := by
    simp only [Elements.nestedText, List.append_assoc]
  rw [hsplit] at hfit ⊢
  have hfit₂ : (t ++ [greater, newline] ++ e.text (level + 1)).length < size := by
    rw [List.length_append] at hfit
    omega
  have hfit₁ : (t ++ [greater, newline]).length < size := by
    rw [List.length_append] at hfit₂
    omega
  have hzero₁ : (0 : UInt8) ∉ t ++ [greater, newline] := by
    rw [List.mem_append, not_or]
    exact ⟨hzero, by decide⟩
  have hzero₂ : (0 : UInt8) ∉ t ++ [greater, newline] ++ e.text (level + 1) := by
    rw [List.mem_append, not_or]
    exact ⟨hzero₁, he.zero_notMem _⟩
  have hzero₃ : (0 : UInt8) ∉ t ++ [greater, newline] ++ e.text (level + 1) ++
      List.replicate level tab := by
    rw [List.mem_append, not_or]
    exact ⟨hzero₂, fun hmem => absurd (List.eq_of_mem_replicate hmem) (by decide)⟩
  have hq₁ : q ≤ (t ++ [greater, newline]).length := by
    rw [List.length_append]
    omega
  have hq₂ : q ≤ (t ++ [greater, newline] ++ e.text (level + 1)).length := by
    rw [List.length_append]
    omega
  have hq₃ : q ≤ (t ++ [greater, newline] ++ e.text (level + 1) ++
      List.replicate level tab).length := by
    rw [List.length_append]
    omega
  have hfit₃ : (t ++ [greater, newline] ++ e.text (level + 1) ++
      List.replicate level tab).length < size := by
    rw [List.length_append, @List.length_append _ (List.replicate level tab)] at hfit
    rw [List.length_append]
    omega
  have hleft₁ : toInt32 (left size t - 2) = left size (t ++ [greater, newline]) :=
    @left_append size t [greater, newline] 2 rfl hfit₁ hsize
  have hlen : (List.replicate level tab ++ closeText name).length = name.length + 4 + level := by
    rw [List.length_append, List.length_replicate, length_closeText]
    omega
  have hleft₂ := left_append hlen hfit hsize
  have hchild := h depth (level + 1) child _ _ hdepth hrep hzero₁ le_rfl hfit₂
  have hclose : buildClose (holding size tail (t ++ [greater, newline] ++ e.text (level + 1) ++
      List.replicate level tab)) q name = some (holding size tail (t ++ [greater, newline] ++
        e.text (level + 1) ++ (List.replicate level tab ++ closeText name))) := by
    rw [← List.append_assoc] at hfit ⊢
    exact buildClose_holding hzero₃ hq₃ hfit
  simp only [buildNested, hleft₁, left_pos hfit₁, if_true, strcat_holding hzero hq hfit₁,
    Option.bind_eq_bind, Option.bind_some, stringEnd_holding hzero₁ hq₁ hfit₁, hchild, hleft₂, left_pos hfit,
    indent_holding hzero₂ hq₂ hfit₃, hclose]

/-- One node, given that its children are printed. -/
lemma buildNode_eq {children : Elements} (h : Prints node size tail children)
    (hchildren : children.Proper) {depth level a : ℕ} {n : BXML_NODE} {name value : List UInt8}
    {attrs : List (List UInt8 × List UInt8)} (hla : attrs.length ≤ depth)
    (hdepth : children.depth ≤ depth) (ha : a ∈ stringNodes node) (hn : node a = some n)
    (hholds : n.Holds name value)
    (hra : RepIn node (stringNodes node) n.nodeAttr (attrForest attrs))
    (hrc : RepIn node (stringNodes node) n.nodeChild children.forest) (hname : IsName name)
    (hvalue : ∀ c ∈ value, Plain c) (hattrs : ∀ attr ∈ attrs, IsAttribute attr)
    (hsize : size < 2147483648) (hzero : (0 : UInt8) ∉ t) (hq : q ≤ t.length)
    (hfit : (t ++ (Elements.node name value attrs children .nil).text level).length < size) :
    buildNode node (buildXmlNode node depth) depth n level (holding size tail t) q (left size t) =
      some (holding size tail (t ++ (Elements.node name value attrs children .nil).text level),
        left size (t ++ (Elements.node name value attrs children .nil).text level)) := by
  obtain ⟨block, hblock, hcstr⟩ := nodeName_eq ha hn hholds hname
  obtain ⟨body, hbody⟩ : ∃ body, body = if children = .nil then
      Elements.leafText name value attrs
    else Elements.nestedText level name (children.text (level + 1)) := ⟨_, rfl⟩
  have hsplit : t ++ (Elements.node name value attrs children .nil).text level =
      t ++ List.replicate level tab ++ less :: name ++ attrsText attrs ++ body := by
    simp only [Elements.text, ← hbody, List.append_assoc, List.cons_append, List.append_nil]
  rw [hsplit] at hfit ⊢
  have hfit₂ : (t ++ List.replicate level tab ++ less :: name ++ attrsText attrs).length <
      size := by
    rw [List.length_append] at hfit
    omega
  have hfit₁ : (t ++ List.replicate level tab ++ less :: name).length < size := by
    rw [List.length_append] at hfit₂
    omega
  have hzero₁ : (0 : UInt8) ∉ t ++ List.replicate level tab ++ less :: name := by
    simp only [List.mem_append, List.mem_cons, not_or]
    exact ⟨⟨hzero, fun hmem => absurd (List.eq_of_mem_replicate hmem) (by decide)⟩, by decide,
      hname.zero_notMem⟩
  have hzero₂ : (0 : UInt8) ∉ t ++ List.replicate level tab ++ less :: name ++
      attrsText attrs := by
    rw [List.mem_append, not_or]
    exact ⟨hzero₁, zero_notMem_attrsText hattrs⟩
  have hq₁ : q ≤ (t ++ List.replicate level tab ++ less :: name).length := by
    simp only [List.length_append]
    omega
  have hq₂ : q ≤ (t ++ List.replicate level tab ++ less :: name ++ attrsText attrs).length := by
    rw [List.length_append]
    omega
  have hk : (List.replicate level tab ++ less :: name).length = name.length + 1 + level := by
    simp only [List.length_append, List.length_replicate, List.length_cons]
    omega
  have hopen := @buildOpen_holding size q tail t level name hzero hq hfit₁
  have hleft : toInt32 (left size t - (name.length + 1 + level : ℕ)) =
      left size (t ++ List.replicate level tab ++ less :: name) := by
    rw [List.append_assoc] at hfit₁ ⊢
    exact left_append hk hfit₁ hsize
  have hattributes := @buildAttributes_eq size q tail _ node attrs n.nodeAttr depth hra hattrs hla
    hsize hzero₁ hq₁ hfit₂
  simp only [buildNode, hblock, hcstr, hleft, left_pos hfit₁, if_true, hopen, hattributes,
    Option.bind_eq_bind, Option.bind_some]
  cases children with
  | nil =>
    have hnone : n.nodeChild = none := hrc
    rw [hnone, hbody, if_pos rfl]
    rw [hbody, if_pos rfl] at hfit
    have hattr : n.nodeAttr = none ↔ attrs = [] := by
      cases attrs with
      | nil => exact ⟨fun _ => rfl, fun _ => hra⟩
      | cons attr attrs =>
        obtain ⟨b, m, hb, -⟩ := hra
        simp [hb]
    exact buildLeaf_eq ha hn hholds hvalue hattr hsize hzero₂ hq₂ hfit
  | node cname cvalue cattrs cchildren cnext =>
    obtain ⟨b, m, hb, hrest⟩ := hrc
    rw [hb, hbody, if_neg (by simp)]
    rw [hbody, if_neg (by simp)] at hfit
    exact h.nested hchildren hdepth ⟨b, m, rfl, hrest⟩ hsize hzero₂ hq₂ hfit

/-- Every list of siblings is printed, by induction on the elements. -/
lemma prints (tail : List UInt8) {e : Elements} (he : e.Proper) (hsize : size < 2147483648) :
    Prints node size tail e := by
  induction e with
  | nil =>
    intro depth level a q t _ hrep
    cases hrep
  | node name value attrs children next ihc ihn =>
    intro depth level a q t hdepth hrep hzero hq hfit
    obtain ⟨hname, hvalue, hattrs, hleaf, hchildren, hnext⟩ := he
    obtain ⟨b, n, hb, ha, hn, hholds, hra, hrc, hrn⟩ := hrep
    obtain rfl := Option.some.inj hb
    simp only [Elements.depth] at hdepth
    obtain ⟨depth, rfl⟩ : ∃ d, depth = d + 1 := ⟨depth - 1, by omega⟩
    have hsplit : t ++ (Elements.node name value attrs children next).text level =
        t ++ (Elements.node name value attrs children .nil).text level ++ next.text level := by
      simp only [Elements.text, List.append_assoc, List.cons_append, List.append_nil]
    rw [hsplit] at hfit ⊢
    have hfit₁ : (t ++ (Elements.node name value attrs children .nil).text level).length <
        size := by
      rw [List.length_append] at hfit
      omega
    have hzero₁ : (0 : UInt8) ∉ t ++ (Elements.node name value attrs children .nil).text level := by
      rw [List.mem_append, not_or]
      exact ⟨hzero, Elements.Proper.zero_notMem
        (e := .node name value attrs children .nil)
        ⟨hname, hvalue, hattrs, hleaf, hchildren, trivial⟩ level⟩
    have hla : attrs.length ≤ depth := by omega
    have hdc : children.depth ≤ depth := by omega
    have hone := buildNode_eq (ihc hchildren) hchildren hla hdc ha hn hholds hra hrc
      hname hvalue hattrs hsize hzero hq hfit₁
    have hq₁ : q ≤ (t ++ (Elements.node name value attrs children .nil).text level).length := by
      rw [List.length_append]
      omega
    have hdn : next.depth ≤ depth := by omega
    have hrest := (ihn hnext).siblings hdn hrn hzero₁ hq₁ hfit
    simp only [buildXmlNode, hn, hone, Option.bind_eq_bind, Option.bind_some]
    exact hrest

/-- In a buffer with room for it, `bxml_buildxml` writes the text and a zero, and clears the rest
of the buffer. -/
theorem bxmlBuildxml_eq {depth : ℕ} {xml : BXML_DATA} {mem : List UInt8} {e : Elements}
    (hne : e ≠ .nil) (hrep : RepIn node (stringNodes node) xml.nodeRoot e.forest) (he : e.Proper)
    (hdepth : e.depth ≤ depth) (hmem : size ≤ mem.length) (hfit : (e.text 0).length < size)
    (hsize : size < 2147483648) :
    bxmlBuildxml node depth xml mem size =
      some (holding size (mem.drop size) (e.text 0), ((e.text 0).length : ℤ)) := by
  have hclear : write mem 0 (List.replicate size 0) = some (holding size (mem.drop size) []) := by
    rw [write_start mem (List.replicate size 0) (by simpa using hmem), List.length_replicate,
      holding, List.length_nil, Nat.sub_zero, List.nil_append]
  have hstart : left size [] = size := by simp [left]
  obtain ⟨root, hroot⟩ : ∃ root, xml.nodeRoot = some root := by
    cases e with
    | nil => exact absurd rfl hne
    | node name value attrs children next =>
      obtain ⟨a, n, ha, -⟩ := hrep
      exact ⟨a, ha⟩
  rw [hroot] at hrep
  have hprint := prints (mem.drop size) he hsize depth 0 root 0 [] hdepth hrep
    List.not_mem_nil (Nat.zero_le _) (by simpa using hfit)
  rw [hstart, List.nil_append] at hprint
  have hcount : toInt32 (size - left size (e.text 0)) = (e.text 0).length := by
    unfold left
    rw [toInt32_of_lt] <;> omega
  simp only [bxmlBuildxml, hclear, hroot, hprint, hcount, Option.bind_eq_bind, Option.bind_some]

end Sgos.Xml
