import Sgos.BxmlPathSearch
import Sgos.GuardedRun

/-!
# Runs of calls on a BXML document

As long as `bxml_mknode` is called at the end of a list, every list of the document stays a doubly
linked list of nodes with the right parent, and no node gets lost.
-/
namespace Sgos.BxmlPath
open ByteBuffer CString Bxml Xml LinkedChain Relation GuardedRun

/-! ## A new sibling -/

/-- A node with a name is put behind the last node of a list. -/
lemma mknode_grows {s : State} {F : Shape} (h : Sound s F) {cur : ℕ} (hlive : F.Live cur)
    (hnext : nextOf s cur = none) (name : List UInt8) :
    ∃ s₁ s₂ i pre, createNextnode served s (some cur) = some (some s.requests, s₁) ∧
      giveName served s₁ s.requests name = some s₂ ∧ F.nodes i = (pre ++ [cur]) ++ [] ∧
      Grows s s₂ i (some cur) s.requests none name := by
  obtain ⟨i, hi⟩ := hlive
  obtain ⟨n, hn, hparent, -⟩ := h.node i cur hi
  rw [nextOf, hn, Option.bind_some] at hnext
  have hroot := h.rooted cur ⟨i, hi⟩
  obtain ⟨pre, post, hsplit⟩ := List.append_of_mem hi
  have hchain := h.family.chain i
  rw [hsplit] at hchain
  have hlast := hchain.next_eq
  rw [nextOf, hn, Option.bind_some, hnext] at hlast
  obtain rfl := List.head?_eq_none_iff.mp hlast.symm
  obtain ⟨s₁, hcreate, hxml₁, hreq₁, hnew₁, hother₁⟩ := createNextnode_served h.new hn (by simp [hnext])
  rw [rooted_eq hroot] at hxml₁
  rw [hnext] at hother₁
  obtain ⟨s₂, hname, hxml₂, hreq₂, hnew₂, hother₂⟩ := giveName_served hnew₁ name
  rw [hparent] at hnew₂
  refine ⟨s₁, s₂, i, pre, hcreate, hname, by rw [hsplit, List.append_nil], ?_⟩
  refine grows_of h.new (hxml₂.trans hxml₁) ?_ hnew₂
    (fun a ha => (hother₂ a ha).trans (hother₁ a ha)) ?_ (by simp) (fun a m => ?_)
    (fun a m => ?_) (fun a m t => ?_) ?_ fun a m => ?_
  · intro a m hm
    rw [hreq₂, hreq₁]
    by_cases ha : a = s.requests
    · omega
    · rw [hother₂ a ha, hother₁ a ha] at hm
      obtain ⟨m', hm', -⟩ := Option.map_eq_some_iff.mp hm
      have hlt := h.alloc a m' hm'
      omega
  · rintro p hp
    cases hp
    rw [hn]
    exact Option.some_ne_none n
  · simp only [appended_last, Option.some.injEq]
    split <;> rfl
  · rw [if_neg (Option.some_ne_none a).symm, appended_last]
    split <;> rfl
  · have hno : ¬(some (a, t) = i ∧ some cur = none) := by simp
    rw [if_neg hno, appended_last]
    by_cases hac : cur = a
    · rw [if_pos hac]
      cases t <;> rfl
    · rw [if_neg hac]
  · rintro a t rfl
    exact h.node_ne_none (h.owner a t (List.ne_nil_of_mem hi))
  · rw [appended_last]
    split <;> rfl

/-! ## Calls -/

/-- `bxml_mknode` is called for the last node of a list. -/
def StepOk (s : State) : Event → Prop
  | .mknode _ => ∀ cur, s.xml.nodeCur = some cur → nextOf s cur = none
  | _ => True

section Calls
variable {s : State} {F : Shape} (stray : List UInt8 → List UInt8 → Bool)

lemma Sound.redirect_evolves (h : Sound s F) (path : List UInt8) :
    ∃ ret s' F', bxmlRedirect served stray s path true = some (ret, s') ∧ Evolves s F s' F' := by
  obtain ⟨nod, s', F', heq, hevolves, hlive⟩ := h.parsePath_arrives stray path
  rw [bxmlRedirect, heq, Option.bind_eq_bind, Option.bind_some]
  cases nod with
  | none => exact ⟨0, s', F', rfl, hevolves⟩
  | some a => exact ⟨1, _, F', rfl, hevolves.trans (hevolves.sound.setCur (hlive a rfl))⟩

lemma Sound.write_evolves (h : Sound s F) (path buf : List UInt8) :
    ∃ s' F', bxmlWrite served stray s path buf = some s' ∧ Evolves s F s' F' := by
  obtain ⟨nod, s₁, F₁, heq, hevolves, hlive⟩ := h.parsePath_arrives stray path
  rw [bxmlWrite, heq, Option.bind_eq_bind, Option.bind_some]
  cases nod with
  | none => exact ⟨s₁, F₁, rfl, hevolves⟩
  | some a =>
    obtain ⟨n, hn⟩ := Option.ne_none_iff_exists'.mp (hevolves.sound.node_ne_none (hlive a rfl))
    obtain ⟨s₂, h₂, hxml₂, hreq₂, hnode₂⟩ := @modify_spec s₁ a (by simp [hn])
      fun n => { n with valueLen := UInt32.ofNat buf.length }
    obtain ⟨s₃, h₃, hxml₃, hreq₃, hnode₃⟩ := @modify_spec
      { s₂ with requests := s₂.requests + 1 } a (by simp [hnode₂, hn])
      fun n => { n with value := some buf }
    refine ⟨s₃, F₁, ?_, hevolves.trans ?_⟩
    · simp only [h₂, safeMalloc, served, if_true, Option.bind_eq_bind, Option.bind_some]
      exact h₃
    · have hreq : s₁.requests ≤ s₃.requests := by
        rw [hreq₃]
        dsimp only
        omega
      refine @Sound.sameLinks_of s₁ F₁ hevolves.sound s₃ a n hn (hxml₃.trans hxml₂) hreq
        (UInt32.ofNat buf.length) (some buf) ?_ fun b hb => ?_
      · rw [hnode₃, if_pos rfl]
        dsimp only
        rw [hnode₂, if_pos rfl, hn]
        rfl
      · rw [hnode₃, if_neg hb]
        dsimp only
        rw [hnode₂, if_neg hb]

lemma Sound.writestr_evolves (h : Sound s F) (path : List UInt8) (str : Text) :
    ∃ s' F', bxmlWritestr served stray s path str.1 = some s' ∧ Evolves s F s' F' := by
  obtain ⟨nod, s₁, F₁, heq, hevolves, hlive⟩ := h.parsePath_arrives stray path
  rw [bxmlWritestr, heq, Option.bind_eq_bind, Option.bind_some]
  cases nod with
  | none => exact ⟨s₁, F₁, rfl, hevolves⟩
  | some a =>
    obtain ⟨s₂, hgive, hevolves₂, -⟩ := hevolves.sound.giveString_evolves (hlive a rfl) str.1 str.2
    exact ⟨s₂, F₁, hgive, hevolves.trans hevolves₂⟩

lemma Sound.movenext_evolves (h : Sound s F) :
    ∃ ret s', bxmlMovenext s = some (ret, s') ∧ Evolves s F s' F := by
  rw [bxmlMovenext]
  cases hcur : s.xml.nodeCur with
  | none => exact ⟨0, s, rfl, .refl h⟩
  | some cur =>
    obtain ⟨i, hi⟩ := h.cur cur hcur
    obtain ⟨n, hn, -⟩ := h.node i cur hi
    simp only [hn, Option.bind_eq_bind, Option.bind_some]
    cases hnext : n.nodeNext with
    | none => exact ⟨0, s, rfl, .refl h⟩
    | some a =>
      refine ⟨1, _, rfl, h.setCur ⟨i, ?_⟩⟩
      obtain ⟨pre, post, hsplit⟩ := List.append_of_mem hi
      have hchain := h.family.chain i
      rw [hsplit] at hchain
      have hlast := hchain.next_eq
      rw [nextOf, hn, Option.bind_some, hnext] at hlast
      rw [hsplit]
      exact List.mem_append_right pre (List.mem_cons_of_mem cur (List.mem_of_head? hlast.symm))

lemma Sound.mknode_evolves (h : Sound s F) (name : List UInt8)
    (hok : ∀ cur, s.xml.nodeCur = some cur → nextOf s cur = none) :
    ∃ ret s' F', bxmlMknode served s name = some (ret, s') ∧ Evolves s F s' F' := by
  rw [bxmlMknode]
  cases hcur : s.xml.nodeCur with
  | none => exact ⟨-1, s, F, rfl, .refl h⟩
  | some cur =>
    have hlive := h.cur cur hcur
    obtain ⟨s₁, s₂, i, pre, hcreate, hname, hi, hg⟩ := mknode_grows h hlive (hok cur hcur) name
    simp only [hcreate, hname, Option.bind_eq_bind, Option.bind_some]
    have hg' : Grows s s₂ i (pre ++ [cur]).getLast? s.requests ([] : List ℕ).head? name := by
      simpa using hg
    have hevolves := h.grow_evolves hg' hi
      (fun a t hat => h.owner a t (by rw [← hat, hi]; simp)) (fun _ => by simp)
      (h.rooted cur hlive)
    exact ⟨1, _, _, rfl, hevolves.trans (hevolves.sound.setCur (Shape.live_insert hi))⟩

lemma Sound.call_evolves (h : Sound s F) {e : Event} (hok : StepOk s e) :
    ∃ s' F', call served stray s e = some s' ∧ Evolves s F s' F' := by
  cases e with
  | redirect path =>
    obtain ⟨ret, s', F', heq, hevolves⟩ := h.redirect_evolves stray path
    exact ⟨s', F', by rw [call, heq]; rfl, hevolves⟩
  | write path buf => exact h.write_evolves stray path buf
  | writestr path str => exact h.writestr_evolves stray path str
  | movenext =>
    obtain ⟨ret, s', heq, hevolves⟩ := h.movenext_evolves
    exact ⟨s', F, by rw [call, heq]; rfl, hevolves⟩
  | mknode name =>
    obtain ⟨ret, s', F', heq, hevolves⟩ := h.mknode_evolves name hok
    exact ⟨s', F', by rw [call, heq]; rfl, hevolves⟩

/-! ## Runs -/

/-- A step of a run; after a fault nothing follows. -/
def next (s : Option State) (e : Event) : Option State := s.bind fun s => call served stray s e

/-- The lists of `s` are those of a document: doubly linked, without a common node, with the right
parents, and all names are strings. -/
def IsDocument (s : State) : Prop := ∃ F, Sound s F

/-- The attributes and the children of every node that can be reached are doubly linked lists of
nodes whose parent it is. -/
def ListsIntact (s : State) : Prop :=
  ∀ a, Reachable s a → ∀ t, ∃ xs, Chain (nextOf s) (preOf s) (headOf s a t) xs ∧
    ∀ x ∈ xs, (s.node x).map BXML_NODE.nodeParent = some (some a)

lemma Sound.reachable_live (h : Sound s F) {a : ℕ} (ha : Reachable s a) : F.Live a := by
  obtain ⟨r, hr, hpath⟩ := ha
  have hlive := h.root_live hr
  clear hr
  induction hpath with
  | refl => exact hlive
  | @tail b c _ hedge ih =>
    obtain ⟨n, hn⟩ := Option.ne_none_iff_exists'.mp (h.node_ne_none ih)
    rcases hedge with hnext | ⟨t, hhead⟩
    · obtain ⟨i, hi⟩ := ih
      obtain ⟨pre, post, hsplit⟩ := List.append_of_mem hi
      have hchain := h.family.chain i
      rw [hsplit] at hchain
      refine ⟨i, ?_⟩
      rw [hsplit]
      exact List.mem_append_right pre
        (List.mem_cons_of_mem b (List.mem_of_head? (hchain.next_eq.symm.trans hnext)))
    · rw [headOf, hn, Option.bind_some, h.head_live ih hn, h.head_eq] at hhead
      exact ⟨_, List.mem_of_head? hhead⟩

lemma Sound.listsIntact (h : Sound s F) : ListsIntact s := by
  intro a ha t
  have hlive := h.reachable_live ha
  obtain ⟨n, hn⟩ := Option.ne_none_iff_exists'.mp (h.node_ne_none hlive)
  refine ⟨F.nodes (some (a, t)), ?_, fun x hx => ?_⟩
  · rw [headOf, hn, Option.bind_some, h.head_live hlive hn]
    exact h.family.chain _
  · obtain ⟨m, hm, hparent, -⟩ := h.node _ x hx
    rw [hm, Option.map_some, hparent]
    rfl

lemma Sound.run_evolves (h : Sound s F) {es : List Event}
    (hok : Guarded (next stray) (fun s e => ∀ t, s = some t → StepOk t e) (some s) es) :
    ∃ s' F', run (next stray) (some s) es = some s' ∧ Evolves s F s' F' := by
  induction es generalizing s F with
  | nil => exact ⟨s, F, rfl, .refl h⟩
  | cons e es ih =>
    obtain ⟨s₁, F₁, hcall, hevolves₁⟩ := h.call_evolves stray (hok.1 s rfl)
    have hnext : next stray (some s) e = some s₁ := hcall
    have hrest := hok.2
    rw [hnext] at hrest
    obtain ⟨s₂, F₂, hrun, hevolves₂⟩ := ih hevolves₁.sound hrest
    exact ⟨s₂, F₂, by rw [run_cons, hnext, hrun], hevolves₁.trans hevolves₂⟩

/-- In every run in which `bxml_mknode` is only called at the end of a list, the lists stay intact
and later calls keep what earlier ones left reachable. -/
theorem run_keeps_lists (h : IsDocument s) {es fs : List Event}
    (hok : Guarded (next stray) (fun s e => ∀ t, s = some t → StepOk t e) (some s) (es ++ fs)) :
    ∃ s₁ s₂, run (next stray) (some s) es = some s₁ ∧ run (next stray) (some s₁) fs = some s₂ ∧
      ListsIntact s₁ ∧ ListsIntact s₂ ∧ ∀ a, Reachable s₁ a → Reachable s₂ a := by
  obtain ⟨F, hsound⟩ := h
  obtain ⟨hfirst, hsecond⟩ := (guarded_append _ es fs).mp hok
  obtain ⟨s₁, F₁, hrun₁, hevolves₁⟩ := hsound.run_evolves stray hfirst
  rw [hrun₁] at hsecond
  obtain ⟨s₂, F₂, hrun₂, hevolves₂⟩ := hevolves₁.sound.run_evolves stray hsecond
  exact ⟨s₁, s₂, hrun₁, hrun₂, hevolves₁.sound.listsIntact, hevolves₂.sound.listsIntact,
    hevolves₂.reachable⟩

end Calls

/-- Two elements at the top, with the current node at the first. -/
def twoElements : State where
  xml := ⟨some 0, some 0, 0, 0, 0⟩
  node a :=
    if a = 0 then some ⟨none, some 1, none, none, none, 1, 0, some [97, 0], none⟩
    else if a = 1 then some ⟨none, none, some 0, none, none, 1, 0, some [98, 0], none⟩ else none
  requests := 2

def topShape : Shape where
  head i := if i = none then some 0 else none
  nodes i := if i = none then [0, 1] else []

lemma isDocument_twoElements : IsDocument twoElements := by
  have hnil : ∀ a t, topShape.nodes (some (a, t)) = [] := fun a t => by simp [topShape]
  have hzero : topShape.Live 0 := ⟨none, by decide⟩
  refine ⟨topShape, ⟨⟨?_, ?_⟩, rfl, nofun, ?_, fun a t hne => absurd (hnil a t) hne, ?_, ?_⟩⟩
  · rintro (_ | ⟨a, t⟩)
    · exact ⟨rfl, by decide, rfl, rfl, rfl, rfl, trivial⟩
    · exact ⟨rfl, List.nodup_nil, trivial⟩
  · rintro (_ | ⟨a, t⟩) (_ | ⟨b, t'⟩) x hx hy
    · rfl
    · rw [hnil] at hy
      cases hy
    · rw [hnil] at hx
      cases hx
    · rw [hnil] at hx
      cases hx
  · rintro (_ | ⟨a, t⟩) b hb
    · have hb' : b = 0 ∨ b = 1 := by simpa [topShape] using hb
      rcases hb' with rfl | rfl
      · exact ⟨_, rfl, rfl, fun t => by cases t <;> rfl, _, _, rfl, rfl⟩
      · exact ⟨_, rfl, rfl, fun t => by cases t <;> rfl, _, _, rfl, rfl⟩
    · rw [hnil] at hb
      cases hb
  · intro a ha
    cases ha
    exact hzero
  · intro a n hn
    change (if a = 0 then _ else if a = 1 then _ else none) = some n at hn
    change a < 2
    by_contra hlt
    rw [if_neg (by omega), if_neg (by omega)] at hn
    cases hn

/-- The current node moves to the last element, and a new one is put behind it. -/
theorem run_keeps_lists_last :
    ∃ s₁ s₂, run (next fun _ _ => false) (some twoElements) [.movenext] = some s₁ ∧
      run (next fun _ _ => false) (some s₁) [.mknode [99]] = some s₂ ∧
      ListsIntact s₁ ∧ ListsIntact s₂ ∧ ∀ a, Reachable s₁ a → Reachable s₂ a :=
  run_keeps_lists (fun _ _ => false) isDocument_twoElements
    ⟨fun _ _ => trivial, fun _ ht cur hcur => by cases ht; cases hcur; rfl, trivial⟩

lemma reachable_twoElements {s : State}
    (h : run (next fun _ _ => false) (some twoElements) [.mknode [99]] = some s) {a : ℕ}
    (ha : Reachable s a) : a = 0 ∨ a = 2 := by
  obtain ⟨r, hr, hpath⟩ := ha
  have hroot : s.xml.nodeRoot = some 0 := by cases h; rfl
  have hnext₀ : nextOf s 0 = some 2 := by cases h; rfl
  have hnext₂ : nextOf s 2 = none := by cases h; rfl
  have hhead₀ : ∀ t, headOf s 0 t = none := by cases h; rintro (_ | _) <;> rfl
  have hhead₂ : ∀ t, headOf s 2 t = none := by cases h; rintro (_ | _) <;> rfl
  obtain rfl := Option.some.inj (hr.symm.trans hroot)
  induction hpath with
  | refl => exact .inl rfl
  | tail _ hedge ih =>
    rcases ih with rfl | rfl <;> rcases hedge with hn | ⟨t, ht⟩
    · exact .inr (Option.some.inj (hn.symm.trans hnext₀))
    · exact absurd (ht.symm.trans (hhead₀ t)) nofun
    · exact absurd (hn.symm.trans hnext₂) nofun
    · exact absurd (ht.symm.trans (hhead₂ t)) nofun

/-- A new element behind the first one takes the second one out of the document. -/
theorem not_run_keeps_lists : ¬ ∀ (stray : List UInt8 → List UInt8 → Bool) (s : State),
    IsDocument s → ∀ es fs, ∃ s₁ s₂, run (next stray) (some s) es = some s₁ ∧
      run (next stray) (some s₁) fs = some s₂ ∧
      ListsIntact s₁ ∧ ListsIntact s₂ ∧ ∀ a, Reachable s₁ a → Reachable s₂ a := by
  intro h
  obtain ⟨s₁, s₂, h₁, h₂, -, -, hkeep⟩ :=
    h (fun _ _ => false) twoElements isDocument_twoElements [] [.mknode [99]]
  cases h₁
  have hlost := reachable_twoElements h₂ (hkeep 1 ⟨0, rfl, .single (.inl rfl)⟩)
  revert hlost
  decide

end Sgos.BxmlPath
