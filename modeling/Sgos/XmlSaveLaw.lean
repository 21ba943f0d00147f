import Sgos.XmlSave
import Sgos.BxmlBuild
import Mathlib.Algebra.Order.Group.Int

/-!
# When saving writes the complete text

The printer puts the parts of the text one by one, and leaves a part out when the rest that it
counts is not positive. The saver takes a larger buffer only when the count of the whole text is
negative, so a text that does not fit in the first buffer is cut.
-/
namespace Sgos.XmlSave
open ByteBuffer CString TextBuffer Bxml Xml

/-! ## Parts -/

/-- One part: its count is taken from the rest, and it is appended when some is left. -/
def putPart (room : ℕ) (s : List UInt8 × ℤ) (p : Part) : Option (List UInt8 × ℤ) :=
  p.text.bind fun text =>
    let len := toInt32 (s.2 - p.count)
    (if 0 < len then append room s.1 text else some s.1).map fun t => (t, len)

def putParts (room : ℕ) (s : List UInt8 × ℤ) (ps : List Part) : Option (List UInt8 × ℤ) :=
  ps.foldlM (putPart room) s

/-- The rest after all parts. -/
def restOf (len : ℤ) (ps : List Part) : ℤ :=
  ps.foldl (fun len p => toInt32 (len - p.count)) len

lemma toInt32_sub (a b : ℤ) : toInt32 (toInt32 a - b) = toInt32 (a - b) := by
  unfold toInt32
  rw [Int.bmod_sub_bmod]

lemma putParts_cons (room : ℕ) (s : List UInt8 × ℤ) (p : Part) (ps : List Part) :
    putParts room s (p :: ps) = (putPart room s p).bind fun s => putParts room s ps :=
  List.foldlM_cons

lemma putParts_append (room : ℕ) (s : List UInt8 × ℤ) (ps ps' : List Part) :
    putParts room s (ps ++ ps') = (putParts room s ps).bind fun s => putParts room s ps' :=
  List.foldlM_append

/-- A name that is null stops the printer. -/
lemma putParts_unnamed {room : ℕ} {ps : List Part} {p : Part} (hp : p ∈ ps) (hnone : p.text = none)
    (s : List UInt8 × ℤ) : putParts room s ps = none := by
  induction ps generalizing s with
  | nil => cases hp
  | cons p' ps ih =>
    rw [putParts_cons]
    rcases List.mem_cons.mp hp with rfl | hp
    · rw [putPart, hnone]
      rfl
    · cases putPart room s p' with
      | none => rfl
      | some s' => exact ih hp s'

/-- The parts with a positive rest are appended, if there is room for them. -/
lemma putParts_eq {room : ℕ} {ps : List Part} (hnamed : ∀ p ∈ ps, p.text ≠ none) {t : List UInt8}
    (ht : t.length ≤ room) (len : ℤ) : putParts room (t, len) ps =
      (append room t (roomyText len ps)).map fun t' => (t', restOf len ps) := by
  induction ps generalizing t len with
  | nil =>
    rw [roomyText, append, List.append_nil, if_pos ht]
    rfl
  | cons p ps ih =>
    obtain ⟨hp, hnamed⟩ := List.forall_mem_cons.mp hnamed
    obtain ⟨text, htext⟩ := Option.ne_none_iff_exists'.mp hp
    rw [putParts_cons, putPart, htext, roomyText, htext]
    simp only [Option.bind_some, Option.getD_some]
    by_cases hpos : 0 < toInt32 (len - p.count)
    · rw [if_pos hpos, if_pos hpos, ← append_append]
      unfold append
      split
      · rename_i hfit
        exact ih hnamed hfit _
      · rfl
    · rw [if_neg hpos, if_neg hpos, List.nil_append]
      exact ih hnamed ht _

/-! ## The printer puts the parts -/
section Printer
variable {node : ℕ → Option BXML_NODE} {q room : ℕ} {mem t : List UInt8} {len : ℤ}

/-- A buffer with a count, and the text in it with the same count. -/
def Agree (q room : ℕ) (c a : List UInt8 × ℤ) : Prop := Contains q room c.1 a.1 ∧ c.2 = a.2

/-- One part: `y` appends its text to the buffer when some rest is left. -/
lemma part_step {p : Part} {text : List UInt8} (htext : p.text = some text) {rest : ℤ}
    (hrest : rest = toInt32 (len - p.count)) {y : Option (List UInt8)}
    (hy : Option.Rel (Contains q room) y (if 0 < rest then append room t text else some t))
    {k : List UInt8 → Option (List UInt8 × ℤ)} {ps : List Part}
    (hk : ∀ mem' t', Contains q room mem' t' →
      Option.Rel (Agree q room) (k mem') (putParts room (t', rest) ps)) :
    Option.Rel (Agree q room) (y.bind k) (putParts room (t, len) (p :: ps)) := by
  subst hrest
  rw [putParts_cons, putPart, htext, Option.bind_some, Option.bind_map]
  exact bind_rel hy hk

/-- The same where the printer asks for the rest: `x` appends the text. -/
lemma put_step {p : Part} {text : List UInt8} (htext : p.text = some text)
    (hc : Contains q room mem t) {rest : ℤ} (hrest : rest = toInt32 (len - p.count))
    {x : Option (List UInt8)} (hx : Option.Rel (Contains q room) x (append room t text))
    {k : List UInt8 → Option (List UInt8 × ℤ)} {ps : List Part}
    (hk : ∀ mem' t', Contains q room mem' t' →
      Option.Rel (Agree q room) (k mem') (putParts room (t', rest) ps)) :
    Option.Rel (Agree q room) (if 0 < rest then x.bind k else (some mem).bind k)
      (putParts room (t, len) (p :: ps)) := by
  have hy : Option.Rel (Contains q room) (if 0 < rest then x else some mem)
      (if 0 < rest then append room t text else some t) := by
    split
    · exact hx
    · exact .some hc
  have hstep := part_step htext hrest hy hk
  by_cases hpos : 0 < rest
  · rw [if_pos hpos] at hstep ⊢
    exact hstep
  · rw [if_neg hpos] at hstep ⊢
    exact hstep

/-- Strings have no zero in them. -/
lemma zero_notMem_of_rel {block text : Option (List UInt8)}
    (h : Option.Rel (fun block text => cstring block = some text) block text) :
    (0 : UInt8) ∉ text.getD [] := by
  cases h with
  | some htext => exact (cstring_eq_some htext).1
  | none => exact List.not_mem_nil

/-- A pointer to a string is null, or the string ends in its block. -/
lemma pointer_cases {block text : Option (List UInt8)}
    (h : Option.Rel (fun block text => cstring block = some text) block text) :
    block = none ∧ text = none ∨ ∃ b t, block = some b ∧ cstring b = some t ∧ text = some t := by
  cases h with
  | some htext => exact .inr ⟨_, _, rfl, htext, rfl⟩
  | none => exact .inl ⟨rfl, rfl⟩

lemma indent_contains {level : ℕ} (hc : Contains q room mem t) :
    Option.Rel (Contains q room) (indent level mem q)
      (append room t (List.replicate level tab)) := by
  induction level generalizing mem t with
  | zero =>
    rw [List.replicate_zero, append, List.append_nil, if_pos hc.length_le]
    exact .some hc
  | succ level ih =>
    rw [List.replicate_succ, ← List.singleton_append, ← append_append]
    exact bind_rel (hc.strcat (by decide)) fun _ _ hc' => ih hc'

lemma printBehind_contains (hc : Contains q room mem t) {text : List UInt8}
    (htext : (0 : UInt8) ∉ text) :
    Option.Rel (Contains q room) (printBehind mem q text) (append room t text) := by
  rw [printBehind, hc.cstring_drop, Option.bind_eq_bind, Option.bind_some]
  exact hc.sprintf htext

lemma buildOpen_contains {level : ℕ} {name : List UInt8} (hc : Contains q room mem t)
    (hname : (0 : UInt8) ∉ name) : Option.Rel (Contains q room) (buildOpen level name mem q)
      (append room t (List.replicate level tab ++ less :: name)) := by
  rw [← List.singleton_append, ← append_append]
  refine bind_rel (indent_contains hc) fun mem' t' hc' => ?_
  rw [← append_append]
  exact bind_rel (hc'.strcat (by decide)) fun _ _ hc'' => hc''.strcat hname

lemma buildClose_contains {name : List UInt8} (hc : Contains q room mem t)
    (hname : (0 : UInt8) ∉ name) : Option.Rel (Contains q room) (buildClose mem q name)
      (append room t ([less, slash] ++ name ++ [greater, newline])) := by
  refine printBehind_contains hc ?_
  simp only [List.mem_append, not_or]
  exact ⟨⟨by decide, hname⟩, by decide⟩

/-- The text of an attribute is a string. -/
lemma Label.Of.attrText_zero {l : Label} {n : BXML_NODE} (h : l.Of n) {name : List UInt8}
    (hname : l.name = some name) : (0 : UInt8) ∉ space :: name ++ [equals, quote] ++
      l.value.getD [less, 78, 85, 76, 76, greater] ++ [quote] := by
  have hn := zero_notMem_of_rel h.name_eq
  have hv := zero_notMem_of_rel h.value_eq
  rw [hname, Option.getD_some] at hn
  simp only [List.mem_append, List.mem_cons, not_or]
  refine ⟨⟨⟨⟨by decide, hn⟩, by decide, by decide, List.not_mem_nil⟩, ?_⟩, by decide,
    List.not_mem_nil⟩
  cases hvalue : l.value with
  | none => decide
  | some value => simpa [hvalue] using hv

lemma buildAttributes_agree {attrs : List Label} {p : Option ℕ} {bound : ℕ}
    (hshows : ShowsAttrs node p attrs) (hbound : attrs.length ≤ bound)
    (hc : Contains q room mem t) :
    Option.Rel (Agree q room) (buildAttributes node bound p mem q len)
      (putParts room (t, len) (attrs.map Label.attrPart)) := by
  induction attrs generalizing p bound mem t len with
  | nil =>
    obtain rfl : p = none := hshows
    cases bound <;> exact .some ⟨hc, rfl⟩
  | cons l attrs ih =>
    obtain ⟨a, n, rfl, hn, hof, hnext⟩ := hshows
    obtain ⟨bound, rfl⟩ : ∃ b, bound = b + 1 := by
      rw [List.length_cons] at hbound
      exact ⟨bound - 1, by omega⟩
    simp only [buildAttributes, List.map_cons, hn, Option.bind_eq_bind, Option.bind_some]
    obtain ⟨hblock, hname⟩ | ⟨block, name, hblock, hcstr, hname⟩ := pointer_cases hof.name_eq
    · rw [hblock, putParts_cons, putPart, Label.attrPart, hname]
      exact .none
    · have hvalue : formatString n.value =
          some (l.value.getD [less, 78, 85, 76, 76, greater]) := by
        obtain ⟨hnone, hvalue⟩ | ⟨b, v, hsome, hv, hvalue⟩ := pointer_cases hof.value_eq
        · rw [hnone, hvalue]
          rfl
        · rw [hsome, hvalue]
          exact hv
      have hzero := hof.attrText_zero hname
      simp only [hblock, hcstr, hvalue, hof.valueLen_eq, Option.bind_some]
      refine put_step (by rw [Label.attrPart, hname]; rfl) hc ?_ (printBehind_contains hc hzero)
        fun mem' t' hc' => ih hnext (Nat.le_of_succ_le_succ hbound) hc'
      rw [Label.attrPart, Label.nameLength, hname, Option.getD_some]

lemma buildValue_contains {n : BXML_NODE} {l : Label} (hof : l.Of n)
    (hc : Contains q room mem t) (rest : ℤ) :
    Option.Rel (Contains q room) (buildValue n mem q rest)
      (if 0 < rest then append room t (l.value.getD []) else some t) := by
  have hzero := zero_notMem_of_rel hof.value_eq
  obtain ⟨hnone, hvalue⟩ | ⟨b, v, hsome, hv, hvalue⟩ := pointer_cases hof.value_eq
  · rw [buildValue, hnone, hvalue, Option.getD_none, append, List.append_nil, if_pos hc.length_le,
      ite_self]
    exact .some hc
  · rw [hvalue, Option.getD_some] at hzero ⊢
    rw [buildValue, hsome]
    dsimp only
    split
    · rw [hv]
      exact hc.strcat hzero
    · exact .some hc

lemma buildLeaf_agree {n : BXML_NODE} {l : Label} {attrs : List Label} {name : List UInt8}
    (hof : l.Of n) (hname : l.name = some name) (hattr : n.nodeAttr = none ↔ attrs = [])
    (hc : Contains q room mem t) :
    Option.Rel (Agree q room) (buildLeaf n name mem q len)
      (putParts room (t, len) (l.leafParts attrs)) := by
  have hzero := zero_notMem_of_rel hof.name_eq
  rw [hname, Option.getD_some] at hzero
  have hlen := hof.valueLen_eq
  by_cases hcond : attrs = [] ∨ 0 < l.valueLen
  · rw [buildLeaf, Label.leafParts, if_pos hcond, if_pos (by rwa [hattr, hlen])]
    simp only [Option.bind_eq_bind]
    refine put_step rfl hc (by simp) (hc.strcat (by decide)) fun mem₁ t₁ hc₁ => ?_
    refine part_step rfl (by rw [hlen]) (buildValue_contains hof hc₁ _) fun mem₂ t₂ hc₂ => ?_
    refine put_step (by rw [Label.closePart, hname]; rfl) hc₂ ?_ (buildClose_contains hc₂ hzero)
      fun mem₃ t₃ hc₃ => .some ⟨hc₃, rfl⟩
    rw [Label.closePart, Label.nameLength, hname, Option.getD_some, Nat.add_zero]
  · rw [buildLeaf, Label.leafParts, if_neg hcond, if_neg (by rwa [hattr, hlen])]
    simp only [Option.bind_eq_bind]
    exact put_step rfl hc (by simp) (hc.strcat (by decide)) fun mem₁ t₁ hc₁ => .some ⟨hc₁, rfl⟩

lemma ShowsAttrs.none_iff {p : Option ℕ} {attrs : List Label} (h : ShowsAttrs node p attrs) :
    p = none ↔ attrs = [] := by
  cases attrs with
  | nil => exact iff_of_true h rfl
  | cons l attrs =>
    obtain ⟨a, n, rfl, -⟩ := h
    exact iff_of_false (Option.some_ne_none a) (List.cons_ne_nil l attrs)

lemma Shows.none_iff {p : Option ℕ} {doc : Document} (h : Shows node p doc) :
    p = none ↔ doc = .nil := by
  cases doc with
  | nil => exact iff_of_true h rfl
  | node l attrs children next =>
    obtain ⟨a, n, rfl, -⟩ := h
    exact iff_of_false (Option.some_ne_none a) nofun

lemma stringEnd_contains (hc : Contains q room mem t) : stringEnd mem q = some t.length := by
  have hreach := hc.reach
  rw [stringEnd, hc.cstring_drop, Option.map_some, List.length_drop]
  congr 1
  omega

/-- A list of siblings puts its parts behind the text. -/
def Prints (node : ℕ → Option BXML_NODE) (room : ℕ) (doc : Document) : Prop :=
  ∀ (depth level q : ℕ) (p : Option ℕ) (mem t : List UInt8) (len : ℤ), doc.depth ≤ depth →
    Shows node p doc → Contains q room mem t →
      Option.Rel (Agree q room) (buildNext (buildXmlNode node depth) level mem q len p)
        (putParts room (t, len) (doc.parts level))

lemma Prints.nested {doc : Document} (h : Prints node room doc) {depth level child : ℕ}
    (hdepth : doc.depth ≤ depth) (hshows : Shows node (some child) doc) {n : BXML_NODE} {l : Label}
    (hof : l.Of n) {name : List UInt8} (hname : l.name = some name) (hc : Contains q room mem t) :
    Option.Rel (Agree q room) (buildNested (buildXmlNode node depth) child level name mem q len)
      (putParts room (t, len)
        (⟨2, some [greater, newline]⟩ :: (doc.parts (level + 1) ++ [l.closePart level]))) := by
  have hzero := zero_notMem_of_rel hof.name_eq
  rw [hname, Option.getD_some] at hzero
  simp only [buildNested, Option.bind_eq_bind]
  refine put_step rfl hc (by simp) (hc.strcat (by decide)) fun mem₁ t₁ hc₁ => ?_
  have hinner := h depth (level + 1) q (some child) mem₁ t₁ (toInt32 (len - 2)) hdepth hshows hc₁
  rw [buildNext, Option.bind_eq_bind] at hinner
  rw [putParts_append, ← Option.bind_assoc]
  refine bind_rel hinner fun ⟨mem₂, len₂⟩ ⟨t₂, _⟩ ⟨hc₂, (hlen₂ : len₂ = _)⟩ => ?_
  subst hlen₂
  have hclose : Option.Rel (Contains q room)
      ((indent level mem₂ q).bind fun mem => buildClose mem q name)
      (append room t₂
        (List.replicate level tab ++ ([less, slash] ++ name ++ [greater, newline]))) := by
    rw [← append_append]
    exact bind_rel (indent_contains hc₂) fun _ _ hc₃ => buildClose_contains hc₃ hzero
  have hstep := @put_step q room mem₂ t₂ len₂ (l.closePart level) _
    (by rw [Label.closePart, hname]; rfl) hc₂ (toInt32 (len₂ - (name.length + 4 + level : ℕ)))
    (by rw [Label.closePart, Label.nameLength, hname, Option.getD_some]) _ hclose
    (fun mem => some (mem, toInt32 (len₂ - (name.length + 4 + level : ℕ)))) []
    fun _ _ hc₃ => .some ⟨hc₃, rfl⟩
  rw [Option.bind_assoc] at hstep
  exact hstep

/-- The parts of one element. -/
lemma Prints.buildNode {children : Document} (h : Prints node room children) {depth level : ℕ}
    {attrs : List Label} (hattrs : attrs.length ≤ depth) (hchildren : children.depth ≤ depth)
    {n : BXML_NODE} {l : Label} (hof : l.Of n) (hshowsAttrs : ShowsAttrs node n.nodeAttr attrs)
    (hshows : Shows node n.nodeChild children) (hc : Contains q room mem t) :
    Option.Rel (Agree q room)
      (buildNode node (buildXmlNode node depth) depth n level mem q len)
      (putParts room (t, len) (l.openPart level :: (attrs.map Label.attrPart ++
        (if children = .nil then l.leafParts attrs
          else ⟨2, some [greater, newline]⟩ ::
            (children.parts (level + 1) ++ [l.closePart level]))))) := by
  have hzero := zero_notMem_of_rel hof.name_eq
  obtain ⟨hblock, hname⟩ | ⟨block, name, hblock, hcstr, hname⟩ := pointer_cases hof.name_eq
  · simp only [Xml.buildNode, hblock, Option.bind_eq_bind, Option.bind_none]
    rw [putParts_cons, putPart, Label.openPart, hname]
    exact .none
  · rw [hname, Option.getD_some] at hzero
    simp only [Xml.buildNode, hblock, hcstr, Option.bind_eq_bind, Option.bind_some]
    refine put_step (by rw [Label.openPart, hname]; rfl) hc
      (by rw [Label.openPart, Label.nameLength, hname, Option.getD_some])
      (buildOpen_contains hc hzero) fun mem₁ t₁ hc₁ => ?_
    rw [putParts_append]
    refine bind_rel (buildAttributes_agree hshowsAttrs hattrs hc₁)
      fun ⟨mem₂, len₂⟩ ⟨t₂, _⟩ ⟨hc₂, (hlen₂ : len₂ = _)⟩ => ?_
    subst hlen₂
    cases hchild : n.nodeChild with
    | none =>
      rw [if_pos (hshows.none_iff.mp hchild)]
      exact buildLeaf_agree hof hname hshowsAttrs.none_iff hc₂
    | some child =>
      rw [if_neg fun hnil => by rw [hshows.none_iff.mpr hnil] at hchild; cases hchild]
      rw [hchild] at hshows
      exact h.nested hchildren hshows hof hname hc₂

lemma prints (room : ℕ) (doc : Document) : Prints node room doc := by
  induction doc with
  | nil =>
    intro depth level q p mem t len hdepth hshows hc
    obtain rfl : p = none := hshows
    exact .some ⟨hc, rfl⟩
  | node l attrs children next ihc ihn =>
    intro depth level q p mem t len hdepth hshows hc
    obtain ⟨a, n, rfl, hn, hof, hattrs, hchildren, hnext⟩ := hshows
    rw [Document.depth] at hdepth
    obtain ⟨depth, rfl⟩ : ∃ d, depth = d + 1 := ⟨depth - 1, by omega⟩
    have hend : Contains t.length room mem t := ⟨hc.length_eq, hc.string, le_rfl⟩
    rw [buildNext, stringEnd_contains hc, Option.bind_eq_bind, Option.bind_some, buildXmlNode, hn,
      Option.bind_eq_bind, Option.bind_some, Document.parts, ← List.cons_append, putParts_append]
    refine rel_mono (bind_rel (ihc.buildNode (by omega) (by omega) hof hattrs hchildren hend)
      fun ⟨mem₂, len₂⟩ ⟨t₂, _⟩ ⟨hc₂, (hlen₂ : len₂ = _)⟩ => ?_)
      fun _ _ (hagree : Agree t.length room _ _) => ⟨⟨hagree.1.length_eq, hagree.1.string,
        le_trans hc.reach hagree.1.reach⟩, hagree.2⟩
    subst hlen₂
    exact ihn depth level t.length n.nodeNext mem₂ t₂ len₂ (by omega) hnext hc₂

end Printer

/-! ## The text that is printed -/

lemma length_roomyText_le (len : ℤ) (ps : List Part) :
    (roomyText len ps).length ≤ (wholeText ps).length := by
  induction ps generalizing len with
  | nil => exact le_rfl
  | cons p ps ih =>
    have hrest := ih (toInt32 (len - p.count))
    rw [roomyText, wholeText, List.flatMap_cons, List.length_append, List.length_append]
    rw [wholeText] at hrest
    split
    · omega
    · rw [List.length_nil]
      omega

/-- Nothing is left out exactly when there is room for every part. -/
lemma roomyText_eq_iff (len : ℤ) (ps : List Part) :
    roomyText len ps = wholeText ps ↔ Room len ps := by
  induction ps generalizing len with
  | nil => exact iff_of_true rfl trivial
  | cons p ps ih =>
    have hle := length_roomyText_le (toInt32 (len - p.count)) ps
    have hiff := ih (toInt32 (len - p.count))
    rw [roomyText, wholeText, List.flatMap_cons, Room, ← hiff]
    rw [wholeText] at hle ⊢
    by_cases hpos : 0 < toInt32 (len - p.count)
    · rw [if_pos hpos, List.append_cancel_left_eq]
      exact ⟨fun h => ⟨fun _ => hpos, h⟩, fun h => h.2⟩
    · rw [if_neg hpos, List.nil_append]
      constructor
      · intro h
        have hlength := congrArg List.length h
        rw [List.length_append] at hlength
        have hempty : p.text.getD [] = [] := by
          rw [← List.length_eq_zero_iff]
          omega
        rw [hempty, List.nil_append] at h
        exact ⟨fun hne => absurd hempty hne, h⟩
      · intro h
        have hempty : p.text.getD [] = [] := by
          by_contra hne
          exact hpos (h.1 hne)
        rw [hempty, List.nil_append, h.2]

lemma toInt32_restOf (len : ℤ) (ps : List Part) :
    toInt32 (restOf len ps) = toInt32 (len - counted ps) := by
  induction ps generalizing len with
  | nil => simp [restOf, counted]
  | cons p ps ih =>
    have hcount : len - ((counted (p :: ps) : ℕ) : ℤ) = len - p.count - counted ps := by
      rw [counted, Int.natCast_add]
      omega
    rw [hcount, ← toInt32_sub (len - p.count), ← ih]
    rfl

/-- The result of `bxml_buildxml` is the count of the text, in any buffer. -/
lemma toInt32_sub_restOf (size : ℤ) (ps : List Part) :
    toInt32 (size - restOf size ps) = toInt32 (counted ps) := by
  have hrest := toInt32_restOf size ps
  unfold toInt32 at hrest ⊢
  rw [← Int.sub_bmod_bmod, hrest, Int.sub_bmod_bmod]
  congr 1
  omega

section Saver
variable {node : ℕ → Option BXML_NODE} {xml : BXML_DATA} {doc : Document} {depth : ℕ}

lemma contains_clear {size : ℕ} {mem : List UInt8} (hmem : mem.length = size + 1)
    (hsize : 0 < size) :
    ∃ mem', write mem 0 (List.replicate size 0) = some mem' ∧ Contains 0 size mem' [] := by
  have hwrite := write_start mem (List.replicate size 0) (by rw [List.length_replicate]; omega)
  obtain ⟨size, rfl⟩ : ∃ k, size = k + 1 := ⟨size - 1, by omega⟩
  refine ⟨_, hwrite, ?_, rfl, le_rfl⟩
  simp [hmem]

/-- There is a root, no name is null, and the parts that are printed fit in a buffer. -/
def Printable (size : ℕ) (doc : Document) : Prop :=
  doc ≠ .nil ∧ (∀ p ∈ doc.parts 0, p.text ≠ none) ∧ (roomyText size (doc.parts 0)).length ≤ size

/-- What `bxml_buildxml` leaves in a buffer, and its result. -/
lemma bxmlBuildxml_eq (hshows : Shows node xml.nodeRoot doc) (hdepth : doc.depth ≤ depth)
    {size : ℕ} {mem mem₀ : List UInt8} (hclear : write mem 0 (List.replicate size 0) = some mem₀)
    (hc : Contains 0 size mem₀ []) (h : Printable size doc) :
    ∃ mem', bxmlBuildxml node depth xml mem size =
        some (mem', toInt32 (counted (doc.parts 0))) ∧
      cstring mem' = some (roomyText size (doc.parts 0)) := by
  obtain ⟨hne, hnamed, hfit⟩ := h
  have hprint := prints size doc depth 0 0 xml.nodeRoot mem₀ [] size hdepth hshows hc
  obtain ⟨root, hroot⟩ := Option.ne_none_iff_exists'.mp fun hnone => hne (hshows.none_iff.mp hnone)
  rw [hroot, buildNext, stringEnd_contains hc, putParts_eq hnamed (Nat.zero_le _), append,
    if_pos (by rwa [List.nil_append]), Option.map_some, Option.bind_eq_bind, Option.bind_some,
    List.nil_append] at hprint
  obtain ⟨⟨mem', len⟩, hbuild, ⟨hc', hlen⟩⟩ := eq_some_of_rel hprint
  refine ⟨mem', ?_, hc'.string⟩
  dsimp only at hlen
  simp only [bxmlBuildxml, hclear, hroot, Option.bind_eq_bind, Option.bind_some]
  rw [List.length_nil] at hbuild
  rw [hbuild, Option.bind_some, hlen, toInt32_sub_restOf]

/-- Without a root, with a null name or with parts that do not fit, the printer leaves its
memory. -/
lemma bxmlBuildxml_none (hshows : Shows node xml.nodeRoot doc) (hdepth : doc.depth ≤ depth)
    {size : ℕ} {mem mem₀ : List UInt8} (hclear : write mem 0 (List.replicate size 0) = some mem₀)
    (hc : Contains 0 size mem₀ []) (h : ¬Printable size doc) :
    bxmlBuildxml node depth xml mem size = none := by
  simp only [bxmlBuildxml, hclear, Option.bind_eq_bind, Option.bind_some]
  cases hroot : xml.nodeRoot with
  | none => rfl
  | some root =>
    have hne : doc ≠ .nil := fun hnil => by
      rw [hshows.none_iff.mpr hnil] at hroot
      cases hroot
    have hputs : putParts size ([], size) (doc.parts 0) = none := by
      by_cases hnamed : ∀ p ∈ doc.parts 0, p.text ≠ none
      · rw [putParts_eq hnamed (Nat.zero_le _), append, List.nil_append,
          if_neg fun hfit => h ⟨hne, hnamed, hfit⟩, Option.map_none]
      · obtain ⟨p, hp, hnone⟩ : ∃ p ∈ doc.parts 0, p.text = none := by
          by_contra hall
          exact hnamed fun p hp hnone => hall ⟨p, hp, hnone⟩
        exact putParts_unnamed hp hnone _
    have hprint := prints size doc depth 0 0 xml.nodeRoot mem₀ [] size hdepth hshows hc
    rw [hroot, buildNext, stringEnd_contains hc, Option.bind_eq_bind, Option.bind_some,
      List.length_nil, hputs] at hprint
    rw [Option.bind_some, eq_none_of_rel hprint, Option.bind_none]

variable (fresh : (size : ℕ) → {bytes : List UInt8 // bytes.length = size})

lemma buildLoop_none (hshows : Shows node xml.nodeRoot doc) (hdepth : doc.depth ≤ depth)
    (count : ℕ) {size : ℕ} (hsize : 0 < size) (h : ¬Printable size doc) :
    buildLoop fresh (bxmlBuildxml node depth xml) (count + 1) size = none := by
  obtain ⟨mem₀, hclear, hc⟩ := contains_clear (fresh (size + 1)).2 hsize
  rw [buildLoop, bxmlBuildxml_none hshows hdepth hclear hc h]
  rfl

/-- A buffer whose count is not negative is taken. -/
lemma buildLoop_first (hshows : Shows node xml.nodeRoot doc) (hdepth : doc.depth ≤ depth)
    (hcount : 0 ≤ toInt32 (counted (doc.parts 0))) (count : ℕ) {size : ℕ} (hsize : 0 < size)
    (h : Printable size doc) :
    ∃ buf ret, buildLoop fresh (bxmlBuildxml node depth xml) (count + 1) size =
      some (some (buf, ret)) ∧ cstring buf = some (roomyText size (doc.parts 0)) := by
  obtain ⟨mem₀, hclear, hc⟩ := contains_clear (fresh (size + 1)).2 hsize
  obtain ⟨buf, hbuild, htext⟩ := bxmlBuildxml_eq hshows hdepth hclear hc h
  refine ⟨buf, toInt32 (counted (doc.parts 0)), ?_, htext⟩
  rw [buildLoop, hbuild, Option.bind_eq_bind, Option.bind_some]
  exact if_neg (not_lt.mpr hcount)

/-- After a negative count the next size is tried. -/
lemma buildLoop_next (hshows : Shows node xml.nodeRoot doc) (hdepth : doc.depth ≤ depth)
    (hneg : toInt32 (counted (doc.parts 0)) < 0) (count : ℕ) {size : ℕ} (hsize : 0 < size)
    (h : Printable size doc) :
    buildLoop fresh (bxmlBuildxml node depth xml) (count + 1) size =
      buildLoop fresh (bxmlBuildxml node depth xml) count (size * 10) := by
  obtain ⟨mem₀, hclear, hc⟩ := contains_clear (fresh (size + 1)).2 hsize
  obtain ⟨buf, hbuild, -⟩ := bxmlBuildxml_eq hshows hdepth hclear hc h
  rw [buildLoop, hbuild, Option.bind_eq_bind, Option.bind_some]
  exact if_pos hneg

/-- When the count is negative, the loop ends without a buffer if it ends. -/
lemma buildLoop_negative (hshows : Shows node xml.nodeRoot doc) (hdepth : doc.depth ≤ depth)
    (hneg : toInt32 (counted (doc.parts 0)) < 0) (count : ℕ) {size : ℕ} (hsize : 0 < size) :
    (buildLoop fresh (bxmlBuildxml node depth xml) count size = some none ∧
        ∀ i < count, Printable (triedSize size i) doc) ∨
      buildLoop fresh (bxmlBuildxml node depth xml) count size = none ∧
        ∃ i < count, ¬Printable (triedSize size i) doc := by
  induction count generalizing size with
  | zero => exact .inl ⟨rfl, nofun⟩
  | succ count ih =>
    by_cases hprintable : Printable size doc
    · rw [buildLoop_next fresh hshows hdepth hneg count hsize hprintable]
      rcases ih (by omega : 0 < size * 10) with ⟨heq, hall⟩ | ⟨heq, i, hi, hnot⟩
      · refine .inl ⟨heq, fun i hi => ?_⟩
        cases i with
        | zero => exact hprintable
        | succ i => exact hall i (Nat.lt_of_succ_lt_succ hi)
      · exact .inr ⟨heq, i + 1, Nat.succ_lt_succ hi, hnot⟩
    · exact .inr ⟨buildLoop_none fresh hshows hdepth count hsize hprintable, 0,
        Nat.zero_lt_succ count, hprintable⟩

lemma savable_of_negative (hneg : toInt32 (counted (doc.parts 0)) < 0) :
    doc ≠ .nil ∧ Savable (doc.parts 0) ↔ ∀ i < 5, Printable (triedSize 4096 i) doc := by
  constructor
  · rintro ⟨hne, hsavable⟩ i hi
    exact ⟨hne, hsavable.named, hsavable.within hneg i hi⟩
  · intro h
    obtain ⟨hne, hnamed, -⟩ := h 0 (by decide)
    exact ⟨hne, hnamed, fun hcount => absurd hneg (not_lt.mpr hcount),
      fun _ i hi => (h i hi).2.2⟩

lemma savable_of_nonneg (hcount : 0 ≤ toInt32 (counted (doc.parts 0))) :
    doc ≠ .nil ∧ Savable (doc.parts 0) ↔
      Printable 4096 doc ∧ roomyText 4096 (doc.parts 0) = doc.text := by
  have hiff := roomyText_eq_iff 4096 (doc.parts 0)
  constructor
  · rintro ⟨hne, hsavable⟩
    obtain ⟨hroom, hlength⟩ := hsavable.room hcount
    have hwhole := hiff.mpr hroom
    rw [← hwhole] at hlength
    exact ⟨⟨hne, hsavable.named, hlength⟩, hwhole⟩
  · rintro ⟨⟨hne, hnamed, hfit⟩, hwhole⟩
    refine ⟨hne, hnamed, fun _ => ⟨hiff.mp hwhole, ?_⟩,
      fun hneg => absurd hneg (not_lt.mpr hcount)⟩
    rw [← hiff.mpr (hiff.mp hwhole)]
    exact hfit

lemma bxmlSavexml_first (hshows : Shows node xml.nodeRoot doc) (hdepth : doc.depth ≤ depth)
    (hcount : 0 ≤ toInt32 (counted (doc.parts 0))) (h : Printable (1024 * 4) doc) :
    bxmlSavexml fresh node depth xml = some (0, roomyText 4096 (doc.parts 0)) := by
  obtain ⟨buf, ret, hloop, htext⟩ :=
    buildLoop_first fresh hshows hdepth hcount 4 (by decide : 0 < 1024 * 4) h
  rw [bxmlSavexml, doSave, hloop, Option.bind_eq_bind, Option.bind_some]
  change ((cstring buf).bind fun text => some ((0 : ℤ), text)) = _
  rw [htext, Option.bind_some]
  rfl

/-- Saving fails with a negative result or writes the complete text, and stays within its buffers,
exactly for the savable texts. -/
theorem bxmlSavexml_iff (hshows : Shows node xml.nodeRoot doc) (hdepth : doc.depth ≤ depth) :
    (∃ ret file, bxmlSavexml fresh node depth xml = some (ret, file) ∧
      (ret < 0 ∨ file = doc.text)) ↔ doc ≠ .nil ∧ Savable (doc.parts 0) := by
  have hsize : 0 < 1024 * 4 := by decide
  rcases lt_or_ge (toInt32 (counted (doc.parts 0))) 0 with hneg | hcount
  · rw [savable_of_negative hneg]
    rcases buildLoop_negative fresh hshows hdepth hneg 5 hsize with ⟨hloop, hall⟩ | ⟨hloop, hnot⟩
    · rw [bxmlSavexml, doSave, hloop]
      exact iff_of_true ⟨_, _, rfl, .inl (by decide)⟩ hall
    · rw [bxmlSavexml, doSave, hloop]
      obtain ⟨i, hi, hnot⟩ := hnot
      exact iff_of_false (fun ⟨_, _, h, _⟩ => nomatch h) fun hall => hnot (hall i hi)
  · rw [savable_of_nonneg hcount]
    by_cases hprintable : Printable (1024 * 4) doc
    · rw [bxmlSavexml_first fresh hshows hdepth hcount hprintable]
      constructor
      · rintro ⟨ret', file, heq, hret⟩
        obtain ⟨rfl, rfl⟩ := Prod.mk.inj (Option.some.inj heq)
        exact ⟨hprintable, hret.resolve_left (lt_irrefl 0)⟩
      · rintro ⟨-, hwhole⟩
        exact ⟨0, _, rfl, .inr hwhole⟩
    · rw [bxmlSavexml, doSave, buildLoop_none fresh hshows hdepth 4 hsize hprintable]
      exact iff_of_false (fun ⟨_, _, h, _⟩ => nomatch h) fun h => hprintable h.1

end Saver

/-- `<a>` with a value of `count` characters. -/
def valueLabel (count : ℕ) : Label :=
  ⟨some [97], UInt32.ofNat count, some (List.replicate count 120)⟩

def valueDocument (count : ℕ) : Document := .node (valueLabel count) [] .nil .nil

/-- A heap with this element. -/
def valueHeap (count : ℕ) (a : ℕ) : Option BXML_NODE :=
  if a = 0 then some ⟨none, none, none, none, none, 1, UInt32.ofNat count, some [97, 0],
    some (List.replicate count 120 ++ [0])⟩ else none

def zeroed (size : ℕ) : {bytes : List UInt8 // bytes.length = size} :=
  ⟨List.replicate size 0, List.length_replicate⟩

lemma shows_valueHeap (count : ℕ) : Shows (valueHeap count) (some 0) (valueDocument count) := by
  refine ⟨0, _, rfl, if_pos rfl, ⟨.some rfl, rfl, .some ?_⟩, rfl, rfl, rfl⟩
  exact cstring_append (fun hmem => absurd (List.eq_of_mem_replicate hmem) (by decide)) []

/-- A short value is saved. -/
theorem bxmlSavexml_iff_short : ∃ ret file,
    bxmlSavexml zeroed (valueHeap 1) 1 ⟨some 0, none, 0, 0, 0⟩ = some (ret, file) ∧
      (ret < 0 ∨ file = (valueDocument 1).text) :=
  (bxmlSavexml_iff zeroed (shows_valueHeap 1) (by decide)).mpr
    ⟨nofun, by decide, fun _ => ⟨by decide, by decide⟩, by decide⟩

lemma parts_valueDocument (count : ℕ) : (valueDocument count).parts 0 =
    [⟨2, some [less, 97]⟩, ⟨1, some [greater]⟩,
      ⟨(UInt32.ofNat count).toNat, some (List.replicate count 120)⟩,
      ⟨5, some [less, slash, 97, greater, newline]⟩] := rfl

lemma named_valueDocument (count : ℕ) : ∀ p ∈ (valueDocument count).parts 0, p.text ≠ none := by
  simp [parts_valueDocument]

lemma length_valueDocument (count : ℕ) : (valueDocument count).text.length = count + 8 := by
  rw [Document.text, parts_valueDocument]
  simp [wholeText]

/-- The value of 5000 characters is left out, and so is the end of the element. -/
theorem not_bxmlSavexml : ¬ ∀ (fresh : (size : ℕ) → {bytes : List UInt8 // bytes.length = size})
    (node : ℕ → Option BXML_NODE) (xml : BXML_DATA) (doc : Document) (depth : ℕ),
    Shows node xml.nodeRoot doc → doc.depth ≤ depth →
      ∃ ret file, bxmlSavexml fresh node depth xml = some (ret, file) ∧
        (ret < 0 ∨ file = doc.text) := by
  intro h
  obtain ⟨ret, file, heq, hret⟩ := h zeroed (valueHeap 5000) ⟨some 0, none, 0, 0, 0⟩ _ 1
    (shows_valueHeap 5000) le_rfl
  have hparts := parts_valueDocument 5000
  have hroomy : roomyText 4096 ((valueDocument 5000).parts 0) = [less, 97, greater] := by
    rw [hparts]
    rfl
  have hprintable : Printable (1024 * 4) (valueDocument 5000) := by
    refine ⟨nofun, named_valueDocument 5000, ?_⟩
    rw [show ((1024 * 4 : ℕ) : ℤ) = 4096 from rfl, hroomy]
    decide
  have hcount : 0 ≤ toInt32 (counted ((valueDocument 5000).parts 0)) := by
    rw [hparts]
    decide
  rw [@bxmlSavexml_first _ ⟨some 0, none, 0, 0, 0⟩ _ 1 zeroed (shows_valueHeap 5000) le_rfl hcount
    hprintable, hroomy] at heq
  obtain ⟨rfl, rfl⟩ := Prod.mk.inj (Option.some.inj heq)
  have hlength := congrArg List.length (hret.resolve_left (lt_irrefl 0))
  rw [length_valueDocument] at hlength
  cases hlength

end Sgos.XmlSave
