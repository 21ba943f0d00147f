import Sgos.XmlParse
import Mathlib.Data.Set.Insert

/-!
# The names that the XML reader gives to attributes

Whatever it makes of a printed text, every attribute that the reader links to an element has a
name of at least two characters: a shorter name creates no attribute. The reader may take its
values for those of elements and climb too far, but it links attributes and elements apart.
-/
namespace Sgos.Xml
open ByteBuffer CString Bxml

/-- A node in the place of `p`: its attributes are in `A`, those behind an attribute are, its
parent is not, and it has a long name if it is in `B`. -/
structure NodeOk (A B : Set ℕ) (requests p : ℕ) (n : BXML_NODE) : Prop where
  attr : ∀ a, n.nodeAttr = some a → a ∈ A
  next : p ∈ A → ∀ a, n.nodeNext = some a → a ∈ A
  parent : ∀ a, n.nodeParent = some a → a ∉ A ∧ a < requests
  long : p ∈ B → 2 ≤ n.nameLen.toNat

/-- `A` holds the attributes, and those of `B` have their names. -/
structure Links (A B : Set ℕ) (s : State) : Prop where
  old : ∀ a ∈ A, a < s.requests
  node : ∀ p n, s.node p = some n → NodeOk A B s.requests p n

/-- The current node of a state is no attribute. -/
def Outside (A : Set ℕ) (s : State) (cur : Option ℕ) : Prop :=
  ∀ c, cur = some c → c ∉ A ∧ c < s.requests

variable {malloc : ℕ → Bool} {A B : Set ℕ} {s s' : State} {cur : Option ℕ} {p : ℕ}

lemma NodeOk.zero (A : Set ℕ) {requests : ℕ} (hp : p ∉ B) : NodeOk A B requests p zeroNode where
  attr := fun a ha => by cases ha
  next := fun _ a ha => by cases ha
  parent := fun a ha => by cases ha
  long := fun hmem => absurd hmem hp

lemma Links.modify {B' : Set ℕ} {f : BXML_NODE → BXML_NODE} (h : Links A B s)
    (hf : s.modify p f = some s') (hsub : ∀ b ∈ B', b ≠ p → b ∈ B)
    (hok : ∀ n, s.node p = some n → NodeOk A B s.requests p n →
      NodeOk A B' s.requests p (f n)) :
    Links A B' s' ∧ s'.requests = s.requests := by
  obtain ⟨n, hn, rfl⟩ := Option.map_eq_some_iff.mp hf
  refine ⟨⟨h.old, ?_⟩, rfl⟩
  intro b m hm
  by_cases hb : b = p
  · subst hb
    obtain rfl : f n = m := by simpa [State.setNode] using hm
    exact hok n hn (h.node b n hn)
  · have hold := h.node b m (by simpa [State.setNode, hb] using hm)
    exact ⟨hold.attr, hold.next, hold.parent, fun hmem => hold.long (hsub b hmem hb)⟩

/-- A request that allocates a string. -/
lemma Links.request (h : Links A B s) : Links A B { s with requests := s.requests + 1 } where
  old := fun a ha => Nat.lt_succ_of_lt (h.old a ha)
  node := fun b n hn => by
    have hold := h.node b n hn
    exact ⟨hold.attr, hold.next,
      fun a ha => ⟨(hold.parent a ha).1, Nat.lt_succ_of_lt (hold.parent a ha).2⟩, hold.long⟩

lemma Links.copyString (h : Links A B s) {size : UInt32} {bytes : List UInt8}
    {block : Option (List UInt8)} (hcopy : copyString malloc s size bytes = some (block, s')) :
    Links A B s' ∧ s'.requests = s.requests + 1 ∧ s'.node = s.node := by
  have hs : s' = { s with requests := s.requests + 1 } := by
    rw [Bxml.copyString, safeMalloc] at hcopy
    cases hserved : malloc s.requests with
    | false =>
      rw [hserved] at hcopy
      exact (Prod.mk.inj (Option.some.inj hcopy)).2.symm
    | true =>
      rw [hserved] at hcopy
      simp only [if_true, Option.bind_eq_bind] at hcopy
      obtain ⟨_, -, hcopy⟩ := Option.bind_eq_some_iff.mp hcopy
      obtain ⟨_, -, hcopy⟩ := Option.bind_eq_some_iff.mp hcopy
      exact (Prod.mk.inj (Option.some.inj hcopy)).2.symm
  subst hs
  exact ⟨h.request, rfl, rfl⟩

lemma Outside.mono (h : Outside A s cur) (hle : s.requests ≤ s'.requests) : Outside A s' cur :=
  fun c hc => ⟨(h c hc).1, Nat.lt_of_lt_of_le (h c hc).2 hle⟩

/-- A node gets a name; among the attributes it has to be long. -/
lemma Links.setName {B' : Set ℕ} {word : List UInt8} (h : Links A B s)
    (hset : setName malloc s (some p) word = some s') (hsub : ∀ b ∈ B', b ≠ p → b ∈ B)
    (hlong : p ∈ B' → 2 ≤ (UInt8.ofNat word.length).toNat) :
    Links A B' s' ∧ s.requests ≤ s'.requests := by
  simp only [Xml.setName, Option.bind_eq_bind, Option.bind_some] at hset
  obtain ⟨s₁, h₁, hset⟩ := Option.bind_eq_some_iff.mp hset
  obtain ⟨⟨name, s₂⟩, h₂, h₃⟩ := Option.bind_eq_some_iff.mp hset
  obtain ⟨hl₁, hr₁⟩ := h.modify h₁ hsub
    fun n _ hok => ⟨hok.attr, hok.next, hok.parent, hlong⟩
  obtain ⟨hl₂, hr₂, -⟩ := hl₁.copyString h₂
  obtain ⟨hl₃, hr₃⟩ := hl₂.modify h₃ (fun b hb _ => hb)
    fun n _ hok => ⟨hok.attr, hok.next, hok.parent, hok.long⟩
  exact ⟨hl₃, by omega⟩

lemma Links.setValue {word : List UInt8} (h : Links A B s)
    (hset : setValue malloc s cur word = some s') : Links A B s' ∧ s.requests ≤ s'.requests := by
  simp only [Xml.setValue, Option.bind_eq_bind] at hset
  obtain ⟨p, -, hset⟩ := Option.bind_eq_some_iff.mp hset
  obtain ⟨s₁, h₁, hset⟩ := Option.bind_eq_some_iff.mp hset
  obtain ⟨⟨value, s₂⟩, h₂, h₃⟩ := Option.bind_eq_some_iff.mp hset
  obtain ⟨hl₁, hr₁⟩ := h.modify h₁ (fun b hb _ => hb)
    fun n _ hok => ⟨hok.attr, hok.next, hok.parent, hok.long⟩
  obtain ⟨hl₂, hr₂, -⟩ := hl₁.copyString h₂
  obtain ⟨hl₃, hr₃⟩ := hl₂.modify h₃ (fun b hb _ => hb)
    fun n _ hok => ⟨hok.attr, hok.next, hok.parent, hok.long⟩
  exact ⟨hl₃, by omega⟩

lemma Links.setPre {q : Option ℕ} (h : Links A B s) (hset : setPre s q p = some s') :
    Links A B s' ∧ s'.requests = s.requests := by
  cases q with
  | none =>
    obtain rfl := Option.some.inj hset
    exact ⟨h, rfl⟩
  | some q =>
    exact h.modify hset (fun b hb _ => hb)
      fun m _ hok => ⟨hok.attr, hok.next, hok.parent, hok.long⟩

/-- The parent of a node is no attribute. -/
lemma Links.parentOf (h : Links A B s) {parent : Option ℕ}
    (hup : parentOf s cur = some parent) : Outside A s parent := by
  simp only [Xml.parentOf, Option.bind_eq_bind] at hup
  obtain ⟨p, -, hup⟩ := Option.bind_eq_some_iff.mp hup
  obtain ⟨n, hn, hup⟩ := Option.bind_eq_some_iff.mp hup
  obtain rfl := Option.some.inj hup
  intro c hc
  exact (h.node p n hn).parent c hc

/-- A new node, which is to be an attribute or not. -/
lemma Links.createNode (hmalloc : ∀ k, malloc k = true) (h : Links A B s) {A' : Set ℕ}
    (hA : ∀ a ∈ A, a ∈ A') (hA' : ∀ a ∈ A', a ≠ s.requests → a ∈ A) (hB : ∀ b ∈ B, b ∈ A) :
    ∃ s₁, createNode malloc s = (some s.requests, s₁) ∧ Links A' B s₁ ∧
      s₁.requests = s.requests + 1 := by
  have hfresh : s.requests ∉ B := fun hb => Nat.lt_irrefl _ (h.old _ (hB _ hb))
  have hlinks : ∀ xml, Links A' B ⟨xml, Function.update s.node s.requests (some zeroNode),
      s.requests + 1⟩ := by
    intro xml
    refine ⟨fun a ha => ?_, fun b n hn => ?_⟩
    · by_cases hne : a = s.requests
      · exact hne ▸ Nat.lt_succ_self _
      · exact Nat.lt_succ_of_lt (h.old a (hA' a ha hne))
    · by_cases hb : b = s.requests
      · subst hb
        obtain rfl : zeroNode = n := by simpa using hn
        exact NodeOk.zero A' hfresh
      · have hold := h.node b n (by simpa [hb] using hn)
        refine ⟨fun a ha => hA a (hold.attr a ha),
          fun hbA a ha => hA a (hold.next (hA' b hbA hb) a ha), fun a ha => ?_, hold.long⟩
        obtain ⟨hnot, hlt⟩ := hold.parent a ha
        exact ⟨fun hmem => hnot (hA' a hmem (Nat.ne_of_lt hlt)), Nat.lt_succ_of_lt hlt⟩
  rw [Bxml.createNode, safeMalloc_eq hmalloc]
  refine ⟨_, rfl, ?_⟩
  by_cases hroot : s.xml.nodeRoot = none
  · simp only [State.setNode, hroot, if_true]
    exact ⟨hlinks _, trivial⟩
  · simp only [State.setNode, hroot, if_false]
    exact ⟨hlinks _, trivial⟩

lemma Links.createNextnode (hmalloc : ∀ k, malloc k = true) (h : Links A A s)
    (hcur : Outside A s cur) {r : Option ℕ × State}
    (hr : createNextnode malloc s cur = some r) :
    ∃ s₁, r = (some s.requests, s₁) ∧ Links A A s₁ ∧ Outside A s₁ (some s.requests) ∧
      s.requests ∉ A := by
  have hfresh : s.requests ∉ A := fun ha => Nat.lt_irrefl _ (h.old _ ha)
  obtain ⟨s₁, hcreate, hl₁, hr₁⟩ :=
    h.createNode hmalloc (fun a ha => ha) (fun a ha _ => ha) (fun b hb => hb)
  rw [Xml.createNextnode, hcreate] at hr
  cases cur with
  | none =>
    obtain rfl := Option.some.inj hr
    refine ⟨s₁, rfl, hl₁, ?_, hfresh⟩
    intro c hc
    obtain rfl := Option.some.inj hc
    exact ⟨hfresh, by omega⟩
  | some c =>
    obtain ⟨hc, hlt⟩ := hcur c rfl
    simp only [Option.bind_eq_bind] at hr
    obtain ⟨s₂, h₂, hr⟩ := Option.bind_eq_some_iff.mp hr
    obtain ⟨n, hn, hr⟩ := Option.bind_eq_some_iff.mp hr
    obtain ⟨hl₂, hr₂⟩ := hl₁.modify h₂ (fun b hb _ => hb)
      fun m _ hok => ⟨hok.attr, hok.next, hok.parent, hok.long⟩
    have hparent := (hl₂.node c n hn).parent
    obtain ⟨s₃, h₃, hr⟩ := Option.bind_eq_some_iff.mp hr
    obtain ⟨hl₃, hr₃⟩ := hl₂.setPre h₃
    obtain ⟨s₄, h₄, hr⟩ := Option.bind_eq_some_iff.mp hr
    obtain ⟨hl₄, hr₄⟩ := hl₃.modify h₄ (fun b hb _ => hb)
      fun m _ hok => ⟨hok.attr, fun hmem => absurd hmem hc, hok.parent, hok.long⟩
    obtain ⟨s₅, h₅, hr⟩ := Option.bind_eq_some_iff.mp hr
    obtain ⟨hl₅, hr₅⟩ := hl₄.modify h₅ (fun b hb _ => hb)
      fun m _ hok => ⟨hok.attr, hok.next, fun a ha => ⟨(hparent a ha).1, by
        have := (hparent a ha).2
        omega⟩, hok.long⟩
    obtain rfl := Option.some.inj hr
    refine ⟨s₅, rfl, hl₅, ?_, hfresh⟩
    intro d hd
    obtain rfl := Option.some.inj hd
    exact ⟨hfresh, by omega⟩

lemma createFirst_some {type : BXML_NODE_TYPE} {c nod : ℕ} {s₁ : State}
    (hcreate : createNode malloc s = (some nod, s₁)) :
    createFirst malloc type s (some c) =
      (s₁.node c).bind fun n =>
        (s₁.modify nod fun m => { m with nodeNext := n.head type }).bind fun s =>
          (setPre s (n.head type) nod).bind fun s =>
            (s.modify nod fun m => { m with nodeParent := some c }).bind fun s =>
              (s.modify c fun m => m.setHead (some nod) type).map fun s => (some nod, s) := by
  rw [createFirst, hcreate]
  simp only [Option.bind_eq_bind]
  congr 1
  funext n
  congr 1
  funext s
  cases n.head type with
  | none => simp [setPre, Option.map_eq_bind]
  | some first => simp [setPre, Option.map_eq_bind]

/-- The new first node of a list of the current node. Only an attribute enters `A'`. -/
lemma Links.createFirst (hmalloc : ∀ k, malloc k = true) (h : Links A A s)
    (hcur : Outside A s cur) {A' : Set ℕ} (hA : ∀ a ∈ A, a ∈ A')
    (hA' : ∀ a ∈ A', a ≠ s.requests → a ∈ A) {type : BXML_NODE_TYPE}
    (htype : s.requests ∈ A' ↔ type = .attribute) {r : Option ℕ × State}
    (hcreated : cur ≠ none) (hr : createFirst malloc type s cur = some r) :
    ∃ s₁, r = (some s.requests, s₁) ∧ Links A' A s₁ ∧ s.requests < s₁.requests := by
  obtain ⟨s₁, hcreate, hl₁, hr₁⟩ := h.createNode hmalloc hA hA' (fun b hb => hb)
  cases cur with
  | none => exact absurd rfl hcreated
  | some c =>
    rw [createFirst_some hcreate] at hr
    obtain ⟨hc, hlt⟩ := hcur c rfl
    have hc' : c ∉ A' := fun hmem => hc (hA' c hmem (Nat.ne_of_lt hlt))
    obtain ⟨n, hn, hr⟩ := Option.bind_eq_some_iff.mp hr
    have hok := hl₁.node c n hn
    obtain ⟨s₂, h₂, hr⟩ := Option.bind_eq_some_iff.mp hr
    obtain ⟨hl₂, hr₂⟩ := hl₁.modify h₂ (fun b hb _ => hb) fun m _ hm =>
      ⟨hm.attr, fun hmem a ha => by
        obtain rfl := htype.mp hmem
        exact hok.attr a ha, hm.parent, hm.long⟩
    obtain ⟨s₃, h₃, hr⟩ := Option.bind_eq_some_iff.mp hr
    obtain ⟨hl₃, hr₃⟩ := hl₂.setPre h₃
    obtain ⟨s₄, h₄, hr⟩ := Option.bind_eq_some_iff.mp hr
    obtain ⟨hl₄, hr₄⟩ := hl₃.modify h₄ (fun b hb _ => hb) fun m _ hm =>
      ⟨hm.attr, hm.next, fun a ha => by
        obtain rfl := Option.some.inj ha
        exact ⟨hc', by omega⟩, hm.long⟩
    obtain ⟨s₅, h₅, rfl⟩ := Option.map_eq_some_iff.mp hr
    obtain ⟨hl₅, hr₅⟩ := hl₄.modify h₅ (fun b hb _ => hb) fun m _ hm => by
      rcases type with _ | _
      · exact ⟨fun a ha => by
          obtain rfl := Option.some.inj ha
          exact htype.mpr rfl, hm.next, hm.parent, hm.long⟩
      · exact ⟨hm.attr, hm.next, hm.parent, hm.long⟩
    exact ⟨s₅, rfl, hl₅, by omega⟩

/-! ## Printed text -/

/-- A state whose current node is no attribute. -/
def Tidy (s : State) (cur : Option ℕ) : Prop := ∃ A, Links A A s ∧ Outside A s cur

/-- From a tidy state, the reader ends with named attributes. -/
def Safe (malloc : ℕ → Bool) (state : PARSE_STATE) (word rest : List UInt8) : Prop :=
  ∀ cur before s final, Tidy s cur →
    parse malloc ⟨state, cur, before, word, s⟩ rest = some final → ∃ A, Links A A final

variable {name value rest : List UInt8}

/-- A closing tag that differs from the name of the current node is never left. -/
lemma parse_stuck {n : BXML_NODE} {w : List UInt8} {before : UInt8} {final : State}
    (hn : s.node p = some n) (hends : endsTag n (slash :: w) = some false)
    (hparse : parse malloc ⟨.tagEnd, some p, before, slash :: w, s⟩ rest = some final) :
    final = s := by
  induction rest generalizing w with
  | nil => cases hparse
  | cons c rest ih =>
    have hmore : endsTag n (slash :: (w ++ [c])) = some false := by
      rw [endsTag, if_pos rfl] at hends ⊢
      apply strncmp_mono hends
      rw [List.length_append]
      omega
    have hskip : parse malloc ⟨.tagEnd, some p, before, slash :: (w ++ [c]), s⟩ rest = some final →
        final = s := ih hmore
    by_cases hzero : c = 0
    · rw [parse.eq_def] at hparse
      simp only [if_pos hzero] at hparse
      exact (Option.some.inj hparse).symm
    · rw [parse_char hzero (by simp)] at hparse
      by_cases hgreater : c = greater
      · simp only [readChar, readTagEnd, if_pos hgreater, hn, hends, Option.bind_eq_bind,
          Option.bind_some] at hparse
        exact hskip hparse
      · simp only [readChar, readTagEnd, if_neg hgreater, Option.bind_some] at hparse
        exact hskip hparse

lemma safe_tagEnd (h : ∀ word, Safe malloc .outsideTag word rest) :
    Safe malloc .tagEnd (slash :: name) (greater :: newline :: rest) := by
  intro cur before s final htidy hparse
  have hchar := hparse
  rw [parse_char (by decide) (by simp)] at hchar
  simp only [readChar, readTagEnd, if_true, Option.bind_eq_bind] at hchar
  obtain ⟨r, hr, -⟩ := Option.bind_eq_some_iff.mp hchar
  obtain ⟨p, rfl, hr⟩ := Option.bind_eq_some_iff.mp hr
  obtain ⟨n, hn, hr⟩ := Option.bind_eq_some_iff.mp hr
  obtain ⟨ends, hends, -⟩ := Option.bind_eq_some_iff.mp hr
  cases ends with
  | true =>
    rw [parse_tagEnd hn hends] at hparse
    exact h _ (some p) before s final htidy hparse
  | false =>
    obtain rfl := parse_stuck hn hends hparse
    obtain ⟨A, hlinks, -⟩ := htidy
    exact ⟨A, hlinks⟩

lemma safe_leaf (hname : IsName name) (hvalue : ∀ c ∈ value, Plain c)
    (h : ∀ word, Safe malloc .outsideTag word rest) :
    Safe malloc .text [] (value ++ (closeText name ++ rest)) := by
  intro cur before s final htidy hparse
  rw [parse_leaf cur before s hname hvalue] at hparse
  obtain ⟨s₁, hset, hparse⟩ := Option.bind_eq_some_iff.mp hparse
  apply safe_tagEnd h cur less s₁ final _ hparse
  by_cases hpos : 0 < value.length
  · rw [if_pos hpos] at hset
    obtain ⟨A, hlinks, hcur⟩ := htidy
    obtain ⟨hlinks₁, hle⟩ := hlinks.setValue hset
    exact ⟨A, hlinks₁, hcur.mono hle⟩
  · rw [if_neg hpos] at hset
    obtain rfl := Option.some.inj hset
    exact htidy

lemma safe_close (level : ℕ) (hname : IsName name)
    (h : ∀ word, Safe malloc .outsideTag word rest) (word : List UInt8) :
    Safe malloc .outsideTag word (List.replicate level tab ++ (closeText name ++ rest)) := by
  intro cur before s final htidy hparse
  rw [parse_close cur before word s level hname] at hparse
  obtain ⟨parent, hup, hparse⟩ := Option.bind_eq_some_iff.mp hparse
  obtain ⟨A, hlinks, -⟩ := htidy
  exact safe_tagEnd h parent less s final ⟨A, hlinks, hlinks.parentOf hup⟩ hparse

lemma safe_next (hmalloc : ∀ k, malloc k = true) (level : ℕ) {c : UInt8} (hc : Alnum c)
    (h : Safe malloc .tagName [] (c :: rest)) (word : List UInt8) :
    Safe malloc .outsideTag word (List.replicate level tab ++ less :: c :: rest) := by
  intro cur before s final htidy hparse
  obtain ⟨A, hlinks, hcur⟩ := htidy
  rw [parse_tabs, parse_nextnode _ _ _ _ hc] at hparse
  obtain ⟨r, hr, hparse⟩ := Option.bind_eq_some_iff.mp hparse
  obtain ⟨s₁, rfl, hlinks₁, hcur₁, -⟩ := hlinks.createNextnode hmalloc hcur hr
  exact h _ _ s₁ final ⟨A, hlinks₁, hcur₁⟩ hparse

/-- A node that is created with a null pointer for its parent has none. -/
lemma createFirst_none (hmalloc : ∀ k, malloc k = true) (type : BXML_NODE_TYPE) (s : State) :
    createFirst malloc type s none = some (createNode malloc s) := by
  obtain ⟨s₁, hcreate⟩ : ∃ s₁, createNode malloc s = (some s.requests, s₁) := by
    rw [createNode, safeMalloc_eq hmalloc]
    exact ⟨_, rfl⟩
  rw [createFirst, hcreate]

lemma safe_child (hmalloc : ∀ k, malloc k = true) (level : ℕ) {c : UInt8} (hc : Alnum c)
    (h : Safe malloc .tagName [] (c :: rest)) :
    Safe malloc .text [] (newline :: (List.replicate level tab ++ less :: c :: rest)) := by
  intro cur before s final htidy hparse
  obtain ⟨A, hlinks, hcur⟩ := htidy
  rw [parse_childnode _ _ _ _ hc, createChildnode] at hparse
  obtain ⟨r, hr, hparse⟩ := Option.bind_eq_some_iff.mp hparse
  have hfresh : s.requests ∉ A := fun ha => Nat.lt_irrefl _ (hlinks.old _ ha)
  obtain ⟨s₁, rfl, hlinks₁, hlt⟩ : ∃ s₁, r = (some s.requests, s₁) ∧ Links A A s₁ ∧
      s.requests < s₁.requests := by
    cases cur with
    | none =>
      obtain ⟨s₁, hcreate, hlinks₁, hreq⟩ :=
        hlinks.createNode hmalloc (fun a ha => ha) (fun a ha _ => ha) (fun b hb => hb)
      rw [createFirst_none hmalloc, hcreate] at hr
      exact ⟨s₁, (Option.some.inj hr).symm, hlinks₁, by omega⟩
    | some d =>
      exact hlinks.createFirst hmalloc hcur (fun a ha => ha) (fun a ha _ => ha)
        ⟨fun ha => absurd ha hfresh, fun htype => by cases htype⟩ (by simp) hr
  apply h _ _ s₁ final ⟨A, hlinks₁, ?_⟩ hparse
  intro d hd
  obtain rfl := Option.some.inj hd
  exact ⟨hfresh, hlt⟩

/-- A value goes to the current node, which may be the attribute that was made last. -/
lemma safe_attributeValue {s : State} {final : State} {A : Set ℕ} (hlinks : Links A A s)
    (hne : value ≠ []) (hvalue : ∀ c ∈ value, Plain c) (h : Safe malloc .attributeName [] rest)
    (hparse : parse malloc ⟨.attributeValue, cur, equals, [], s⟩
      (quote :: (value ++ quote :: rest)) = some final) : ∃ A, Links A A final := by
  rw [parse_attributeValue cur s hne hvalue] at hparse
  obtain ⟨s₁, hset, hparse⟩ := Option.bind_eq_some_iff.mp hparse
  obtain ⟨parent, hup, hparse⟩ := Option.bind_eq_some_iff.mp hparse
  obtain ⟨hlinks₁, -⟩ := hlinks.setValue hset
  exact h parent quote s₁ final ⟨A, hlinks₁, hlinks₁.parentOf hup⟩ hparse

lemma safe_attribute (hmalloc : ∀ k, malloc k = true) (hattr : IsAttribute (name, value))
    (hlen : name.length ≤ 255) (h : Safe malloc .attributeName [] rest) :
    Safe malloc .attributeName []
      (space :: (name ++ equals :: quote :: (value ++ quote :: rest))) := by
  intro cur before s final htidy hparse
  obtain ⟨A, hlinks, hcur⟩ := htidy
  by_cases hlong : 2 ≤ name.length
  · rw [parse_longName _ _ _ hattr.1 hlong, createAttrnode] at hparse
    obtain ⟨r, hr, hparse⟩ := Option.bind_eq_some_iff.mp hparse
    have hbyte : 2 ≤ (UInt8.ofNat name.length).toNat := by
      rw [UInt8.toNat_ofNat']
      omega
    obtain ⟨s₁, rfl, hlinks₁⟩ : ∃ s₁, r = (some s.requests, s₁) ∧
        Links (insert s.requests A) A s₁ := by
      cases cur with
      | none =>
        obtain ⟨s₁, hcreate, hlinks₁, -⟩ := hlinks.createNode hmalloc
          (fun a ha => Set.mem_insert_of_mem _ ha)
          (fun a ha hne => Set.mem_of_mem_insert_of_ne ha hne) (fun b hb => hb)
        rw [createFirst_none hmalloc, hcreate] at hr
        exact ⟨s₁, (Option.some.inj hr).symm, hlinks₁⟩
      | some d =>
        obtain ⟨s₁, hs₁, hlinks₁, -⟩ := hlinks.createFirst hmalloc hcur
          (fun a ha => Set.mem_insert_of_mem _ ha)
          (fun a ha hne => Set.mem_of_mem_insert_of_ne ha hne)
          ⟨fun _ => rfl, fun _ => Set.mem_insert _ _⟩ (by simp) hr
        exact ⟨s₁, hs₁, hlinks₁⟩
    rw [attributeOf] at hparse
    obtain ⟨s₂, hset, hparse⟩ := Option.bind_eq_some_iff.mp hparse
    obtain ⟨hlinks₂, -⟩ := hlinks₁.setName hset
      (fun b hb hne => Set.mem_of_mem_insert_of_ne hb hne) (fun _ => hbyte)
    exact safe_attributeValue hlinks₂ hattr.2.1 hattr.2.2 h hparse
  · rw [parse_shortName _ _ _ hattr.1 (Nat.lt_of_not_le hlong)] at hparse
    exact safe_attributeValue hlinks hattr.2.1 hattr.2.2 h hparse

lemma safe_attributes (hmalloc : ∀ k, malloc k = true) {attrs : List (List UInt8 × List UInt8)}
    (hattrs : ∀ attr ∈ attrs, IsAttribute attr) (hlen : ∀ attr ∈ attrs, attr.1.length ≤ 255)
    (h : Safe malloc .attributeName [] rest) :
    Safe malloc .attributeName [] (attrsText attrs ++ rest) := by
  induction attrs with
  | nil => exact h
  | cons attr attrs ih =>
    obtain ⟨name, value⟩ := attr
    obtain ⟨hattr, hattrs⟩ := List.forall_mem_cons.mp hattrs
    obtain ⟨hlen₁, hlen⟩ := List.forall_mem_cons.mp hlen
    have htext : attrsText ((name, value) :: attrs) ++ rest =
        space :: (name ++ equals :: quote :: (value ++ quote :: (attrsText attrs ++ rest))) := by
      simp [attrsText_cons]
    rw [htext]
    exact safe_attribute hmalloc hattr hlen₁ (ih hattrs hlen)

lemma safe_tagName (hname : IsName name) {c : UInt8} (hc : c = space ∨ c = greater)
    (h : Safe malloc .attributeName [] (c :: rest)) :
    Safe malloc .tagName [] (name ++ c :: rest) := by
  intro cur before s final htidy hparse
  rw [parse_tagName cur before s hname hc] at hparse
  obtain ⟨s₁, hset, hparse⟩ := Option.bind_eq_some_iff.mp hparse
  obtain ⟨A, hlinks, hcur⟩ := htidy
  cases cur with
  | none => cases hset
  | some p =>
    obtain ⟨hp, -⟩ := hcur p rfl
    obtain ⟨hlinks₁, hle⟩ := hlinks.setName hset (fun b hb _ => hb) (fun hmem => absurd hmem hp)
    exact h _ _ s₁ final ⟨A, hlinks₁, hcur.mono hle⟩ hparse

/-- Every printed text is safe, by induction on the elements. -/
lemma safe_elements (hmalloc : ∀ k, malloc k = true) {e : Elements} (he : e.Proper)
    (hsized : e.Sized) (hne : e ≠ .nil) (level : ℕ)
    (h : ∀ word, Safe malloc .outsideTag word rest) :
    Safe malloc .tagName [] (e.tagText level ++ rest) := by
  induction e generalizing level rest with
  | nil => exact absurd rfl hne
  | node name value attrs children next ihc ihn =>
    obtain ⟨hname, hvalue, hattrs, -, hchildren, hnext⟩ := he
    obtain ⟨-, -, hsizes, hsizec, hsizen⟩ := hsized
    -- the siblings behind the element
    have hsiblings : ∀ word, Safe malloc .outsideTag word (next.text level ++ rest) := by
      by_cases hnil : next = .nil
      · subst hnil
        exact h
      · obtain ⟨d, tail, hd, htag⟩ := hnext.tagText_eq hnil level
        have hstart := ihn hnext hsizen hnil level h
        rw [htag, List.cons_append] at hstart
        rw [Elements.text_eq hnil, htag, List.append_assoc, List.cons_append, List.cons_append]
        exact safe_next hmalloc level hd hstart
    obtain ⟨body, hbody⟩ : ∃ body, body = (if children = .nil then
        Elements.leafText name value attrs
      else Elements.nestedText level name (children.text (level + 1))) := ⟨_, rfl⟩
    have hend : Safe malloc .attributeName [] (body ++ (next.text level ++ rest)) := by
      by_cases hnil : children = .nil
      · rw [hbody, if_pos hnil, Elements.leafText]
        split
        · intro cur before s final htidy hparse
          rw [List.append_assoc, List.cons_append, parse_body] at hparse
          exact safe_leaf hname hvalue hsiblings cur greater s final htidy hparse
        · intro cur before s final htidy hparse
          change parse malloc _ (space :: slash :: greater :: newline :: _) = _ at hparse
          rw [parse_shortTag] at hparse
          exact hsiblings _ cur space s final htidy hparse
      · rw [hbody, if_neg hnil]
        obtain ⟨d, tail, hd, htag⟩ := hchildren.tagText_eq hnil (level + 1)
        have hstart := ihc hchildren hsizec hnil (level + 1) (safe_close level hname hsiblings)
        have htext : Elements.nestedText level name (children.text (level + 1)) ++
            (next.text level ++ rest) = greater :: newline :: (List.replicate (level + 1) tab ++
              less :: (children.tagText (level + 1) ++ (List.replicate level tab ++
                (closeText name ++ (next.text level ++ rest))))) := by
          simp [Elements.nestedText, Elements.text_eq hnil]
        rw [htag, List.cons_append] at hstart
        rw [htext, htag, List.cons_append]
        intro cur before s final htidy hparse
        rw [parse_body] at hparse
        exact safe_child hmalloc (level + 1) hd hstart cur greater s final htidy hparse
    have hattributes := safe_attributes hmalloc hattrs (fun attr hattr => (hsizes attr hattr).1) hend
    obtain ⟨d, tail, hd, htail⟩ := Elements.afterName level name value attrs children
      (children.text (level + 1)) (next.text level ++ rest)
    rw [← hbody] at htail
    have htext : (Elements.node name value attrs children next).tagText level ++ rest =
        name ++ (attrsText attrs ++ (body ++ (next.text level ++ rest))) := by
      simp [Elements.tagText, ← hbody]
    rw [htail] at hattributes
    rw [htext, htail]
    exact safe_tagName hname hd hattributes

/-- The names of attributes on a heap with named attributes are long. -/
lemma Links.longNames {e : Elements} {q : Option ℕ} {region : Set ℕ} (h : Links A A s)
    (hrep : RepIn s.node region q e.forest) : e.LongNames := by
  induction e generalizing q with
  | nil => trivial
  | node name value attrs children next ihc ihn =>
    obtain ⟨a, n, -, -, hn, -, hra, hrc, hrn⟩ := hrep
    refine ⟨?_, ihc hrc, ihn hrn⟩
    have hall : ∀ (attrs : List (List UInt8 × List UInt8)) (p : Option ℕ),
        (∀ a, p = some a → a ∈ A) → RepIn s.node region p (attrForest attrs) →
          ∀ attr ∈ attrs, 2 ≤ attr.1.length := by
      intro attrs
      induction attrs with
      | nil => exact fun _ _ _ attr hattr => absurd hattr List.not_mem_nil
      | cons attr attrs ih =>
        intro p hp hrep
        obtain ⟨b, m, rfl, -, hm, hholds, -, -, hnext⟩ := hrep
        have hok := h.node b m hm
        have hb := hp b rfl
        apply List.forall_mem_cons.mpr ⟨?_, ih _ (hok.next hb) hnext⟩
        rw [bytesAt_length hholds.name_eq]
        exact hok.long hb
    exact hall attrs n.nodeAttr (h.node a n hn).attr hra

end Sgos.Xml
