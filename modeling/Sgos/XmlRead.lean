import Sgos.XmlTree

/-!
# How the XML reader takes printed text apart

One equation for each piece of the text: whatever the current node and the heap are, the reader
calls the same functions on the same words.
-/
namespace Sgos.Xml
open ByteBuffer CString Bxml

variable {malloc : ℕ → Bool}

/-- The rest of the loop behind one character. -/
def proceed (malloc : ℕ → Bool) (rest : List UInt8) : Progress → Option State
  | .done xml => some xml
  | .next s => parse malloc s rest

lemma parse_char {s : Parser} {c : UInt8} (hc : c ≠ 0)
    (hslash : ¬(s.state = .attributeName ∧ c = slash)) (rest : List UInt8) :
    parse malloc s (c :: rest) = (readChar malloc s c rest).bind (proceed malloc rest) := by
  rw [parse.eq_def]
  simp only [if_neg hc, if_neg hslash, Option.bind_eq_bind]
  congr 1

lemma parse_shortEnd {s : Parser} (hs : s.state = .attributeName) (c : UInt8)
    (rest : List UInt8) :
    parse malloc s (slash :: c :: rest) = parse malloc (readShortEnd s slash c) rest := by
  rw [parse.eq_def]
  simp only [hs, and_self, if_true]
  rw [if_neg (by decide)]

/-- The characters that a state passes without doing anything. -/
def Inert : PARSE_STATE → UInt8 → Prop
  | .outsideTag, c => c ≠ less
  | .tagName, c => ¬(c = greater ∨ Blank c ∨ c = slash)
  | .text, c => c ≠ less
  | .tagEnd, c | .header, c | .comment, c => c ≠ greater
  | .attributeName, c => ¬(Blank c ∨ c = equals) ∧ c ≠ greater ∧ c ≠ slash
  | .attributeValue, c => c ≠ quote

lemma inert_blanks {state : PARSE_STATE} (hstate : state = .outsideTag ∨ state = .text) (level : ℕ) :
    ∀ c ∈ newline :: List.replicate level tab, c ≠ 0 ∧ Inert state c := by
  intro c hc
  have hless : c ≠ 0 ∧ c ≠ less := by
    obtain rfl | hc := List.mem_cons.mp hc
    · decide
    · obtain rfl := List.eq_of_mem_replicate hc
      decide
  obtain rfl | rfl := hstate
  · exact hless
  · exact hless

lemma parse_skip {s : Parser} {c : UInt8} (hc : c ≠ 0) (h : Inert s.state c) (rest : List UInt8) :
    parse malloc s (c :: rest) = parse malloc (s.skip c) rest := by
  obtain ⟨state, cur, before, word, xml⟩ := s
  have hslash : ¬(state = .attributeName ∧ c = slash) := by
    rintro ⟨rfl, hs⟩
    exact h.2.2 hs
  rw [parse_char hc hslash]
  cases state <;> simp only [Inert] at h <;>
    simp [readChar, readOutsideTag, readTagName, readTagEnd, readText, readAttributeName,
      readAttributeValue, readHeader, proceed, h]

lemma parse_newline (cur : Option ℕ) (before : UInt8) (word : List UInt8) (xml : State)
    (rest : List UInt8) : parse malloc ⟨.outsideTag, cur, before, word, xml⟩ (newline :: rest) =
      parse malloc ⟨.outsideTag, cur, before, word ++ [newline], xml⟩ rest := by
  apply parse_skip
  · decide
  · exact (show newline ≠ less by decide)

/-- A word of inert characters is kept. -/
lemma parse_word {s : Parser} {t : List UInt8} (h : ∀ c ∈ t, c ≠ 0 ∧ Inert s.state c)
    (rest : List UInt8) :
    parse malloc s (t ++ rest) = parse malloc { s with word := s.word ++ t } rest := by
  induction t generalizing s with
  | nil => rw [List.nil_append, List.append_nil]
  | cons c t ih =>
    obtain ⟨hc, ht⟩ := List.forall_mem_cons.mp h
    rw [List.cons_append, parse_skip hc.1 hc.2, @ih (s.skip c) ht]
    simp [Parser.skip]

lemma parse_tabs (cur : Option ℕ) (before : UInt8) (word : List UInt8) (xml : State) (level : ℕ)
    (rest : List UInt8) : parse malloc ⟨.outsideTag, cur, before, word, xml⟩
      (List.replicate level tab ++ rest) =
        parse malloc ⟨.outsideTag, cur, before, word ++ List.replicate level tab, xml⟩ rest := by
  apply parse_word
  intro c hc
  exact inert_blanks (.inl rfl) level c (List.mem_cons_of_mem _ hc)

/-- A reader that creates a node goes on in the tag. -/
def tagOf (malloc : ℕ → Bool) (rest : List UInt8) : Option ℕ × State → Option State
  | (none, xml) => some xml
  | (some a, xml) => parse malloc ⟨.tagName, some a, less, [], xml⟩ rest

/-- `<` outside of tags, in front of a name. -/
lemma parse_nextnode (cur : Option ℕ) (before : UInt8) (word : List UInt8) (xml : State)
    {c : UInt8} (hc : Alnum c) (rest : List UInt8) :
    parse malloc ⟨.outsideTag, cur, before, word, xml⟩ (less :: c :: rest) =
      (createNextnode malloc xml cur).bind (tagOf malloc (c :: rest)) := by
  have hslash : c ≠ slash := hc.plain.2.2.2.1
  have hquestion : c ≠ question := by
    rintro rfl
    exact absurd hc (by decide)
  have hexclamation : c ≠ exclamation := by
    rintro rfl
    exact absurd hc (by decide)
  rw [parse_char (by decide) (by simp)]
  simp only [readChar, readOutsideTag, if_true, List.head?_cons, hslash, hquestion, hexclamation,
    if_false, create, Option.bind_eq_bind, Option.bind_some]
  cases h : createNextnode malloc xml cur with
  | none => rfl
  | some r =>
    obtain ⟨_ | a, xml⟩ := r
    · rfl
    · rfl

/-- Blanks and `<` in the text of an element, in front of a name. -/
lemma parse_childnode (cur : Option ℕ) (before : UInt8) (xml : State) (level : ℕ) {c : UInt8}
    (hc : Alnum c) (rest : List UInt8) :
    parse malloc ⟨.text, cur, before, [], xml⟩
      (newline :: (List.replicate level tab ++ less :: c :: rest)) =
      (createChildnode malloc xml cur).bind (tagOf malloc (c :: rest)) := by
  have hslash : c ≠ slash := hc.plain.2.2.2.1
  rw [← List.cons_append, parse_word (inert_blanks (.inr rfl) level), parse_char (by decide)
    (by simp)]
  simp only [readChar, readText, if_true, List.head?_cons, hslash, if_false, create,
    Option.bind_eq_bind, Option.bind_some]
  cases h : createChildnode malloc xml cur with
  | none => rfl
  | some r =>
    obtain ⟨_ | a, xml⟩ := r
    · rfl
    · rfl

/-- The name of a tag, in front of a blank or `>`. -/
lemma parse_tagName (cur : Option ℕ) (before : UInt8) (xml : State) {name : List UInt8}
    (hname : IsName name) {c : UInt8} (hc : c = space ∨ c = greater) (rest : List UInt8) :
    parse malloc ⟨.tagName, cur, before, [], xml⟩ (name ++ c :: rest) =
      (setName malloc xml cur name).bind fun xml =>
        parse malloc ⟨.attributeName, cur, before, [], xml⟩ (c :: rest) := by
  have hinert : ∀ d ∈ name, d ≠ 0 ∧ Inert .tagName d := by
    intro d hd
    have hplain := (hname.2 d hd).plain
    refine ⟨hplain.1, ?_⟩
    rintro (h | h | h)
    · exact hplain.2.2.1 h
    · exact (hname.2 d hd).not_blank h
    · exact hplain.2.2.2.1 h
  have hpos : 0 < name.length := List.length_pos_iff.mpr hname.1
  rw [parse_word hinert, List.nil_append]
  have hends : c = greater ∨ Blank c ∨ c = slash := by
    obtain rfl | rfl := hc <;> decide
  have hzero : c ≠ 0 := by
    obtain rfl | rfl := hc <;> decide
  have hslash : c ≠ slash := by
    obtain rfl | rfl := hc <;> decide
  rw [parse_char hzero (by simp)]
  simp only [readChar, readTagName, if_pos hends, if_pos hpos]
  cases h : setName malloc xml cur name with
  | none => rfl
  | some xml =>
    simp only [Option.bind_eq_bind, Option.bind_some, proceed]
    rw [parse_char hzero (fun hs => hslash hs.2)]
    obtain rfl | rfl := hc
    · rfl
    · rfl

/-- A reader that creates an attribute gives it its name and goes on in its value. -/
def attributeOf (malloc : ℕ → Bool) (name rest : List UInt8) : Option ℕ × State → Option State
  | (none, xml) => some xml
  | (some a, xml) => (setName malloc xml (some a) name).bind fun xml =>
    parse malloc ⟨.attributeValue, some a, equals, [], xml⟩ rest

/-- A blank and a name in front of `=`. -/
lemma parse_attributeWord (cur : Option ℕ) (before : UInt8) (xml : State) {name : List UInt8}
    (hname : IsName name) (rest : List UInt8) :
    parse malloc ⟨.attributeName, cur, before, [], xml⟩ (space :: (name ++ rest)) =
      parse malloc ⟨.attributeName, cur, space, name, xml⟩ rest := by
  have hinert : ∀ c ∈ name, c ≠ 0 ∧ Inert .attributeName c := by
    intro c hc
    have hplain := (hname.2 c hc).plain
    refine ⟨hplain.1, ?_, hplain.2.2.1, hplain.2.2.2.1⟩
    rintro (h | h)
    · exact (hname.2 c hc).not_blank h
    · exact hplain.2.2.2.2.1 h
  rw [parse_char (by decide) (fun h => absurd h.2 (by decide))]
  simp only [readChar, readAttributeName]
  rw [if_pos (by decide), if_neg (by simp), if_neg (by decide), Option.bind_some]
  exact parse_word hinert rest

/-- The name of an attribute with at least two characters. -/
lemma parse_longName (cur : Option ℕ) (before : UInt8) (xml : State) {name : List UInt8}
    (hname : IsName name) (hlong : 2 ≤ name.length) (rest : List UInt8) :
    parse malloc ⟨.attributeName, cur, before, [], xml⟩ (space :: (name ++ equals :: rest)) =
      (createAttrnode malloc xml cur).bind (attributeOf malloc name rest) := by
  rw [parse_attributeWord cur before xml hname, parse_char (by decide) (fun h => absurd h.2 (by decide))]
  simp only [readChar, readAttributeName]
  rw [if_pos (by decide), if_pos (show 1 < name.length from hlong)]
  simp only [if_true, create, Option.bind_eq_bind]
  cases h : createAttrnode malloc xml cur with
  | none => rfl
  | some r =>
    obtain ⟨_ | a, xml⟩ := r
    · rfl
    · simp only [Option.bind_some, attributeOf]
      cases h : setName malloc xml (some a) name with
      | none => rfl
      | some xml => rfl

/-- A name with one character creates no attribute. -/
lemma parse_shortName (cur : Option ℕ) (before : UInt8) (xml : State) {name : List UInt8}
    (hname : IsName name) (hshort : name.length < 2) (rest : List UInt8) :
    parse malloc ⟨.attributeName, cur, before, [], xml⟩ (space :: (name ++ equals :: rest)) =
      parse malloc ⟨.attributeValue, cur, equals, [], xml⟩ rest := by
  rw [parse_attributeWord cur before xml hname, parse_char (by decide) (fun h => absurd h.2 (by decide))]
  simp only [readChar, readAttributeName]
  rw [if_pos (by decide), if_neg (show ¬1 < name.length by omega)]
  rfl

/-- A value in quotes goes to the current node, and the reader to the parent of that. -/
lemma parse_attributeValue (cur : Option ℕ) (xml : State) {value : List UInt8} (hne : value ≠ [])
    (hvalue : ∀ c ∈ value, Plain c) (rest : List UInt8) :
    parse malloc ⟨.attributeValue, cur, equals, [], xml⟩ (quote :: (value ++ quote :: rest)) =
      (setValue malloc xml cur value).bind fun xml => (parentOf xml cur).bind fun cur =>
        parse malloc ⟨.attributeName, cur, quote, [], xml⟩ rest := by
  have hinert : ∀ c ∈ value, c ≠ 0 ∧ Inert .attributeValue c := fun c hc =>
    ⟨(hvalue c hc).1, (hvalue c hc).2.2.2.2.2⟩
  have hpos : 0 < value.length := List.length_pos_iff.mpr hne
  rw [parse_char (by decide) (by simp)]
  simp only [readChar, readAttributeValue, if_true]
  rw [if_neg (by decide), Option.bind_some]
  simp only [proceed, Parser.mark]
  rw [parse_word hinert, List.nil_append, parse_char (by decide) (by simp)]
  simp only [readChar, readAttributeValue, if_true, if_pos hpos, Option.bind_eq_bind]
  cases h : setValue malloc xml cur value with
  | none => rfl
  | some xml =>
    simp only [Option.bind_some, Parser.moveUp]
    cases h : parentOf xml cur with
    | none => rfl
    | some parent => rfl

/-- The end of a short tag. -/
lemma parse_shortTag (cur : Option ℕ) (before : UInt8) (xml : State) (rest : List UInt8) :
    parse malloc ⟨.attributeName, cur, before, [], xml⟩
      (space :: slash :: greater :: newline :: rest) =
        parse malloc ⟨.outsideTag, cur, space, [slash, greater, newline], xml⟩ rest := by
  rw [parse_char (by decide) (fun h => absurd h.2 (by decide))]
  simp only [readChar, readAttributeName]
  rw [if_pos (by decide), if_neg (by simp), if_neg (by decide), Option.bind_some]
  simp only [proceed, Parser.mark]
  rw [parse_shortEnd rfl]
  simp only [readShortEnd, if_true, Parser.skip]
  exact parse_newline _ _ _ _ _

/-- `>` behind a tag and the blanks in front of the first child. -/
lemma parse_body (cur : Option ℕ) (before : UInt8) (xml : State) (rest : List UInt8) :
    parse malloc ⟨.attributeName, cur, before, [], xml⟩ (greater :: rest) =
      parse malloc ⟨.text, cur, greater, [], xml⟩ rest := by
  rw [parse_char (by decide) (fun h => absurd h.2 (by decide))]
  simp only [readChar, readAttributeName]
  rw [if_neg (by decide), if_true]
  rfl

/-- The slash and the name of a closing tag. -/
lemma parse_endName (cur : Option ℕ) (before : UInt8) (xml : State) {name : List UInt8}
    (hname : IsName name) (rest : List UInt8) :
    parse malloc ⟨.tagEnd, cur, before, [], xml⟩ (slash :: (name ++ rest)) =
      parse malloc ⟨.tagEnd, cur, before, slash :: name, xml⟩ rest := by
  have hinert : ∀ c ∈ slash :: name, c ≠ 0 ∧ Inert .tagEnd c := by
    intro c hc
    obtain rfl | hc := List.mem_cons.mp hc
    · exact ⟨by decide, (by decide : slash ≠ greater)⟩
    · have hplain := (hname.2 c hc).plain
      exact ⟨hplain.1, hplain.2.2.1⟩
  rw [← List.cons_append, parse_word hinert, List.nil_append]

/-- A value and the closing tag of its element. -/
lemma parse_leaf (cur : Option ℕ) (before : UInt8) (xml : State) {name value : List UInt8}
    (hname : IsName name) (hvalue : ∀ c ∈ value, Plain c) (rest : List UInt8) :
    parse malloc ⟨.text, cur, before, [], xml⟩ (value ++ (closeText name ++ rest)) =
      (if 0 < value.length then setValue malloc xml cur value else some xml).bind fun xml =>
        parse malloc ⟨.tagEnd, cur, less, slash :: name, xml⟩ (greater :: newline :: rest) := by
  have hinert : ∀ c ∈ value, c ≠ 0 ∧ Inert .text c := fun c hc =>
    ⟨(hvalue c hc).1, (hvalue c hc).2.1⟩
  have htext : closeText name ++ rest =
      less :: slash :: (name ++ (greater :: newline :: rest)) := by
    simp [closeText]
  rw [parse_word hinert, List.nil_append, htext, parse_char (by decide) (by simp)]
  simp only [readChar, readText, if_true, List.head?_cons, Option.bind_eq_bind, Option.bind_some]
  by_cases hpos : 0 < value.length
  · rw [if_pos hpos, if_pos hpos]
    cases h : setValue malloc xml cur value with
    | none => rfl
    | some xml => exact parse_endName cur less xml hname _
  · rw [if_neg hpos, if_neg hpos]
    exact parse_endName cur less xml hname _

/-- A closing tag outside of tags belongs to the parent of the current node. -/
lemma parse_close (cur : Option ℕ) (before : UInt8) (word : List UInt8) (xml : State) (level : ℕ)
    {name : List UInt8} (hname : IsName name) (rest : List UInt8) :
    parse malloc ⟨.outsideTag, cur, before, word, xml⟩
      (List.replicate level tab ++ (closeText name ++ rest)) =
      (parentOf xml cur).bind fun cur =>
        parse malloc ⟨.tagEnd, cur, less, slash :: name, xml⟩ (greater :: newline :: rest) := by
  have htext : closeText name ++ rest =
      less :: slash :: (name ++ (greater :: newline :: rest)) := by
    simp [closeText]
  rw [parse_tabs, htext, parse_char (by decide) (by simp)]
  simp only [readChar, readOutsideTag, if_true, List.head?_cons, Option.bind_eq_bind,
    Option.bind_some, Parser.moveUp]
  cases h : parentOf xml cur with
  | none => rfl
  | some parent =>
    simp only [Option.map_some, Option.bind_some, proceed, Parser.mark]
    exact parse_endName parent less xml hname _

/-- A closing tag that agrees with the current node. -/
lemma parse_tagEnd {a : ℕ} {n : BXML_NODE} {xml : State} {word : List UInt8}
    (hn : xml.node a = some n) (hends : endsTag n word = some true) (before : UInt8)
    (rest : List UInt8) :
    parse malloc ⟨.tagEnd, some a, before, word, xml⟩ (greater :: newline :: rest) =
      parse malloc ⟨.outsideTag, some a, before, word ++ [greater] ++ [newline], xml⟩ rest := by
  rw [parse_char (by decide) (by simp)]
  simp only [readChar, readTagEnd, if_true, hn, hends, Option.bind_eq_bind, Option.bind_some,
    proceed, Parser.skip]
  exact parse_newline _ _ _ _ _

end Sgos.Xml
