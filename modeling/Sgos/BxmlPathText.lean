import Sgos.BxmlPathSearch

/-!
# What paths mean

A path names a node by segments: a name, or a name with conditions on the attributes, and maybe an
attribute at the end. Beside the text of a path stands the node it names, and the text is read back
as the segments it was made from.
-/
namespace Sgos.BxmlPath
open ByteBuffer CString Bxml Xml

/-! ## Paths -/

/-- A name, and conditions on the attributes. -/
structure Segment where
  name : List UInt8
  conds : List Condition
  deriving DecidableEq, Repr

/-- An absolute path. -/
structure Path where
  segments : List Segment
  attr : Option (List UInt8)
  deriving DecidableEq, Repr

/-- The characters of names and values: those of a string without a meaning in a path. -/
def Free (c : UInt8) : Prop :=
  c ≠ 0 ∧ c ≠ slash ∧ c ≠ question ∧ c ≠ colon ∧ c ≠ ampersand ∧ c ≠ equals

instance : DecidablePred Free := fun c => inferInstanceAs
  (Decidable (c ≠ 0 ∧ c ≠ slash ∧ c ≠ question ∧ c ≠ colon ∧ c ≠ ampersand ∧ c ≠ equals))

/-- A name that is not empty and not made only of dots, and keys and values. -/
structure Segment.Proper (seg : Segment) : Prop where
  name : ∀ c ∈ seg.name, Free c
  dots : ∃ c ∈ seg.name, c ≠ dot
  conds : ∀ cond ∈ seg.conds, (∀ c ∈ cond.1, Free c) ∧ ∀ c ∈ cond.2, Free c

/-- An attribute follows a last segment without conditions. -/
structure Path.Proper (path : Path) : Prop where
  segments : ∀ seg ∈ path.segments, seg.Proper
  attr : ∀ name, path.attr = some name → (∀ c ∈ name, Free c) ∧
    ∃ seg, path.segments.getLast? = some seg ∧ seg.conds = []

def condText (cond : Condition) : List UInt8 := cond.1 ++ equals :: cond.2

/-- `k1=v1&k2=v2…` -/
def condsText : List Condition → List UInt8
  | [] => []
  | [cond] => condText cond
  | cond :: conds => condText cond ++ ampersand :: condsText conds

lemma condsText_cons (cond cond' : Condition) (conds : List Condition) :
    condsText (cond :: cond' :: conds) =
      condText cond ++ ampersand :: condsText (cond' :: conds) := rfl

def Segment.text (seg : Segment) : List UInt8 :=
  if seg.conds = [] then seg.name else seg.name ++ question :: condsText seg.conds

/-- The texts of the segments, the last of them with the attribute. -/
def segmentTexts (attr : Option (List UInt8)) : List Segment → List (List UInt8)
  | [] => []
  | [seg] => [match attr with
    | none => seg.text
    | some name => seg.text ++ colon :: name]
  | seg :: segs => seg.text :: segmentTexts attr segs

def joinTexts : List (List UInt8) → List UInt8
  | [] => []
  | [text] => text
  | text :: texts => text ++ slash :: joinTexts texts

lemma joinTexts_cons (text text' : List UInt8) (texts : List (List UInt8)) :
    joinTexts (text :: text' :: texts) = text ++ slash :: joinTexts (text' :: texts) := rfl

def Path.text (path : Path) : List UInt8 := slash :: joinTexts (segmentTexts path.attr path.segments)

/-! ## The node that a path names -/
section Named
variable (stray : List UInt8 → List UInt8 → Bool) (s : State)

/-- From segment to segment, the first child with the name that meets all conditions. -/
def resolve : ℕ → List Segment → Option (Option ℕ)
  | nod, [] => some (some nod)
  | nod, seg :: segs => do
    match ← findChild stray s nod seg.name seg.conds with
    | none => some none
    | some nod => resolve nod segs

/-- The node that a path names, if there is one. -/
def addressed (path : Path) : Option (Option ℕ) :=
  match s.xml.nodeRoot with
  | none => some none
  | some root => do
    match ← resolve stray s root path.segments with
    | none => some none
    | some nod =>
      match path.attr with
      | none => some (some nod)
      | some name => findAttr s nod name

end Named

/-! ## Reading a path back -/

lemma strchr_none {c : UInt8} {text : List UInt8} (h : c ∉ text) : strchr c text = none := by
  induction text with
  | nil => rfl
  | cons d text ih =>
    rw [List.mem_cons, not_or] at h
    rw [strchr, if_neg (Ne.symm h.1), ih h.2, Option.map_none]

lemma strchr_append {c : UInt8} {a : List UInt8} (h : c ∉ a) (b : List UInt8) :
    strchr c (a ++ c :: b) = some (a, b) := by
  induction a with
  | nil => rw [List.nil_append, strchr, if_pos rfl]
  | cons d a ih =>
    rw [List.mem_cons, not_or] at h
    rw [List.cons_append, strchr, if_neg (Ne.symm h.1), ih h.2, Option.map_some]

lemma strchr_condText {cond : Condition} (h : ∀ c ∈ cond.1, Free c) :
    strchr equals (condText cond) = some cond :=
  strchr_append (fun hc => (h _ hc).2.2.2.2.2 rfl) cond.2

lemma readConditions_append {room : ℕ} {word rest : List UInt8} :
    ∀ {w : List UInt8}, ampersand ∉ w →
      readConditions (room + 1) word (w ++ rest) = readConditions (room + 1) (word ++ w) rest := by
  intro w
  induction w generalizing word with
  | nil => intro _; rw [List.nil_append, List.append_nil]
  | cons c w ih =>
    intro hw
    rw [List.mem_cons, not_or] at hw
    rw [List.cons_append, readConditions, if_neg (Ne.symm hw.1), ih hw.2, List.append_assoc,
      List.singleton_append]

lemma ampersand_notMem {cond : Condition}
    (h : (∀ c ∈ cond.1, Free c) ∧ ∀ c ∈ cond.2, Free c) : ampersand ∉ condText cond := by
  intro hc
  rcases List.mem_append.mp hc with hc | hc
  · exact (h.1 _ hc).2.2.2.2.1 rfl
  · rcases List.mem_cons.mp hc with hc | hc
    · exact absurd hc (by decide)
    · exact (h.2 _ hc).2.2.2.2.1 rfl

/-- As many conditions are read as there is room for. -/
lemma readConditions_condsText {conds : List Condition}
    (h : ∀ cond ∈ conds, (∀ c ∈ cond.1, Free c) ∧ ∀ c ∈ cond.2, Free c) (room : ℕ) :
    readConditions room [] (condsText conds) = conds.take room := by
  induction conds generalizing room with
  | nil => cases room <;> rfl
  | cons cond conds ih =>
    cases room with
    | zero => rw [readConditions, List.take_zero]
    | succ room =>
      have hcond := h cond List.mem_cons_self
      cases conds with
      | nil =>
        have hread := @readConditions_append room [] [] (condText cond) (ampersand_notMem hcond)
        rw [List.append_nil, List.nil_append, readConditions, strchr_condText hcond.1] at hread
        rw [condsText, hread, Option.toList_some, List.take_succ_cons, List.take_nil]
      | cons cond' conds =>
        have hrest := ih (fun c hc => h c (List.mem_cons_of_mem cond hc)) room
        rw [condsText_cons, readConditions_append (ampersand_notMem hcond), List.nil_append,
          readConditions, if_pos rfl, strchr_condText hcond.1]
        dsimp only
        rw [hrest, List.take_succ_cons]

/-! ## Entering a segment -/

/-- One segment: its child is searched with the first conditions, or the segment is skipped. -/
def enterSegment (stray : List UInt8 → List UInt8 → Bool) (s : State) (nod : ℕ) (seg : Segment)
    (create : Bool) : Option (Option ℕ × State) :=
  searchChildnode served stray s nod seg.name (seg.conds.take MAX_CONDITIONS) create

section Enter
variable (stray : List UInt8 → List UInt8 → Bool) {s : State} {seg : Segment}

lemma Segment.Proper.ne_nil (h : seg.Proper) : seg.name ≠ [] := by
  obtain ⟨c, hc, -⟩ := h.dots
  exact List.ne_nil_of_mem hc

lemma Segment.Proper.special (h : seg.Proper) (n : BXML_NODE) (parent : ℕ) :
    specialNode n parent seg.name = none := by
  obtain ⟨c, hc, hdot⟩ := h.dots
  have hne : ∀ dots : List UInt8, (∀ d ∈ dots, d = dot) → seg.name ≠ dots := by
    rintro dots hdots rfl
    exact hdot (hdots c hc)
  rw [specialNode, if_neg (hne _ (by simp)), if_neg (hne _ (by simp)), if_neg (hne _ (by simp))]

lemma Segment.Proper.question_notMem (h : seg.Proper) : question ∉ seg.name :=
  fun hc => (h.name _ hc).2.2.1 rfl

lemma Segment.Proper.colon_notMem (h : seg.Proper) : colon ∉ seg.name :=
  fun hc => (h.name _ hc).2.2.2.1 rfl

lemma Segment.Proper.text_pos (h : seg.Proper) : 0 < seg.text.length := by
  have hpos := List.length_pos_of_ne_nil h.ne_nil
  rw [Segment.text]
  split
  · exact hpos
  · rw [List.length_append]
    omega

/-- Without conditions only the name is looked for. -/
lemma Segment.Proper.getChildnode_eq (h : seg.Proper) (hconds : seg.conds = []) (nod : ℕ)
    (create : Bool) : getChildnode served stray s nod seg.name none create =
      enterSegment stray s nod seg create := by
  rw [enterSegment, hconds, List.take_nil]
  cases hn : s.node nod with
  | none => simp only [getChildnode, searchChildnode, findChild, hn, Option.bind_eq_bind,
      Option.bind_none]
  | some n => simp only [getChildnode, hn, h.special, Option.bind_eq_bind, Option.bind_some]

lemma Segment.Proper.enter_eq (h : seg.Proper) (hlen : seg.text.length < MAX_SEGMENT) (nod : ℕ)
    (create : Bool) :
    enter served stray s nod seg.text create = enterSegment stray s nod seg create := by
  rw [enter, if_pos ⟨h.text_pos, hlen⟩]
  by_cases hconds : seg.conds = []
  · rw [Segment.text, if_pos hconds, strchr_none h.question_notMem, strchr_none h.colon_notMem]
    exact h.getChildnode_eq stray hconds nod create
  · rw [Segment.text, if_neg hconds, strchr_append h.question_notMem]
    dsimp only
    rw [if_pos h.ne_nil, getChildnode, readConditions_condsText h.conds]
    rfl

/-- A segment with an attribute. -/
lemma Segment.Proper.enter_attr (h : seg.Proper) (hconds : seg.conds = []) {name : List UInt8}
    (hname : ∀ c ∈ name, Free c) (hlen : (seg.text ++ colon :: name).length < MAX_SEGMENT)
    (nod : ℕ) (create : Bool) :
    enter served stray s nod (seg.text ++ colon :: name) create =
      (enterSegment stray s nod seg create).bind fun r => enterAttr served r.2 r.1 name create := by
  have htext : seg.text = seg.name := by rw [Segment.text, if_pos hconds]
  have hquestion : question ∉ seg.text ++ colon :: name := by
    rw [htext, List.mem_append, List.mem_cons, not_or, not_or]
    exact ⟨h.question_notMem, by decide, fun hc => (hname _ hc).2.2.1 rfl⟩
  have hpos : 0 < (seg.text ++ colon :: name).length := by
    rw [List.length_append, List.length_cons]
    omega
  rw [enter, if_pos ⟨hpos, hlen⟩, strchr_none hquestion, htext, strchr_append h.colon_notMem]
  dsimp only
  rw [if_pos h.ne_nil, h.getChildnode_eq stray hconds]
  rfl

/-- A segment that is too long is skipped. -/
lemma enter_long {text : List UInt8} (hlen : ¬text.length < MAX_SEGMENT) (nod : ℕ) (create : Bool) :
    enter served stray s nod text create = some (some nod, s) := by
  rw [enter, if_neg fun h => hlen h.2]

/-! ## Walking along a path -/

/-- The segments one after the other. -/
def walkTexts (create : Bool) : State → ℕ → List (List UInt8) → Option (Option ℕ × State)
  | s, nod, [] => some (some nod, s)
  | s, nod, text :: texts => do
    match ← enter served stray s nod text create with
    | (none, s) => some (none, s)
    | (some nod, s) => walkTexts create s nod texts

lemma walk_append (create : Bool) (nod : ℕ) {word rest : List UInt8} :
    ∀ {w : List UInt8}, slash ∉ w → walk served stray create s (some nod) word (w ++ rest) =
      walk served stray create s (some nod) (word ++ w) rest := by
  intro w
  induction w generalizing word with
  | nil => intro _; rw [List.nil_append, List.append_nil]
  | cons c w ih =>
    intro hw
    rw [List.mem_cons, not_or] at hw
    rw [List.cons_append, walk, if_neg (Ne.symm hw.1), ih hw.2, List.append_assoc,
      List.singleton_append]

lemma walk_none (create : Bool) (word rest : List UInt8) :
    walk served stray create s none word rest = some (none, s) := by
  cases rest <;> rfl

lemma walk_joinTexts (create : Bool) {texts : List (List UInt8)} (h : ∀ text ∈ texts, slash ∉ text)
    (nod : ℕ) : walk served stray create s (some nod) [] (joinTexts texts) =
      walkTexts stray create s nod texts := by
  induction texts generalizing s nod with
  | nil => rfl
  | cons text texts ih =>
    have htext := h text List.mem_cons_self
    cases texts with
    | nil =>
      have hwalk := @walk_append stray s create nod [] [] text htext
      rw [List.append_nil, List.nil_append] at hwalk
      rw [joinTexts, hwalk, walk, walkTexts]
      cases enter served stray s nod text create with
      | none => rfl
      | some r =>
        obtain ⟨_ | a, s'⟩ := r <;> rfl
    | cons text' texts =>
      rw [joinTexts_cons, walk_append stray create nod htext, List.nil_append, walk, if_pos rfl,
        walkTexts]
      cases enter served stray s nod text create with
      | none => rfl
      | some r =>
        obtain ⟨_ | a, s'⟩ := r
        · exact walk_none stray create [] _
        · exact ih (fun t ht => h t (List.mem_cons_of_mem text ht)) a

end Enter

end Sgos.BxmlPath
