import Sgos.Ancestry
import Sgos.ChainFamily
import Sgos.VfsCounts

/-!
# The tree of files in use

A file is given back once for each use of it and once for each use of a file below it. As long as
every file is counted at least that often, and once more when it has files below it, giving a use
back frees only the file of the use, and no file in use is linked to a free entry.
-/
namespace Sgos.Vfs
open LinkedChain Ancestry

/-- The files in use are linked to trees by `kids` and `above`. Each one is counted for the uses of
the files below it, itself included, and `own` times for itself. -/
structure Tree (m : State) (uses : List ℕ) (own : ℕ → ℕ) (kids above : ℕ → List ℕ) : Prop where
  family : Family m.next m.prev m.child kids
  mem_kids : ∀ p f, f ∈ kids p ↔ m.parent f = some p
  ancestry : Ancestry m.parent above
  alone : ∀ f, m.parent f = none → m.next f = none ∧ m.prev f = none
  count : ∀ f, load above uses f + own f ≤ (m.reference f).toNat
  used : ∀ f, m.parent f ≠ none → m.reference f ≠ 0
  own_pos : ∀ f p, m.parent f = some p → 0 < own p
  parent_root : m.parent m.root = none
  bound : ∀ f, m.reference f ≠ 0 → f < MAX_FILE

/-- The entries `l` are counted once less. -/
def State.lower (m : State) (l : List ℕ) : State :=
  { m with reference := fun g => if g ∈ l then m.reference g - 1 else m.reference g }

variable {m : State} {uses : List ℕ} {own : ℕ → ℕ} {kids above : ℕ → List ℕ} {f p : ℕ}

lemma toNat_ne_zero {n : UInt16} : n ≠ 0 ↔ 0 < n.toNat := by
  rw [Nat.pos_iff_ne_zero, ne_eq, ne_eq, ← UInt16.toNat_inj, UInt16.toNat_zero]

lemma toNat_pred {n : UInt16} (h : n ≠ 0) : (n - 1).toNat = n.toNat - 1 := by
  rw [UInt16.toNat_sub_of_le, UInt16.toNat_one]
  rw [UInt16.le_iff_toNat_le, UInt16.toNat_one]
  exact toNat_ne_zero.mp h

lemma toNat_succ {n : UInt16} (h : n ≠ 65535) : (n + 1).toNat = n.toNat + 1 := by
  have hlt := n.toNat_lt
  have hne : n.toNat ≠ 65535 := fun he => h (UInt16.toNat_inj.mp he)
  rw [UInt16.toNat_add, UInt16.toNat_one, Nat.mod_eq_of_lt (by omega)]

lemma lower_of_mem {l : List ℕ} (h : f ∈ l) : (m.lower l).reference f = m.reference f - 1 :=
  if_pos h

lemma lower_of_not_mem {l : List ℕ} (h : f ∉ l) : (m.lower l).reference f = m.reference f :=
  if_neg h

/-! ## Giving back -/

lemma lower_up (hanc : Ancestry m.parent above) (hp : m.parent f = some p) :
    (m.setReference f (m.reference f - 1)).lower (above p) = m.lower (above f) := by
  have hf := hanc.not_mem_parent hp
  rw [State.lower, State.lower, hanc.up f p hp]
  congr 1
  funext g
  by_cases hgf : g = f
  · simp [hgf, hf, State.setReference]
  · simp [hgf, State.setReference]

/-- One count of `f` and of all files above it is given back. The files above stay in use. -/
lemma ffree_eq {depth : ℕ} (hanc : Ancestry m.parent above) (hlen : (above f).length ≤ depth)
    (hf : m.reference f ≠ 0) (hall : ∀ g ∈ above f, g ≠ f → 2 ≤ (m.reference g).toNat) :
    ffree depth m f = some (if m.reference f - 1 = 0
      then (funlink (m.lower (above f)) f).setReference f 0 else m.lower (above f)) := by
  induction depth generalizing m f with
  | zero =>
    have hmem := hanc.mem_self f
    rw [List.length_eq_zero_iff.mp (Nat.le_zero.mp hlen)] at hmem
    cases hmem
  | succ depth ih =>
    rw [ffree, if_neg hf]
    cases hp : m.parent f with
    | none =>
      have hlow : m.setReference f (m.reference f - 1) = m.lower (above f) := by
        rw [hanc.top f hp, State.lower, State.setReference]
        congr 1
        funext g
        by_cases hgf : g = f <;> simp [hgf]
      simp only [hlow, show (m.lower (above f)).parent f = none from hp, Option.bind_eq_bind,
        Option.bind_some, lower_of_mem (hanc.mem_self f), apply_ite some]
    | some p =>
      have hup := hanc.up f p hp
      have hnot := hanc.not_mem_parent hp
      have hmem : ∀ g ∈ above p, g ∈ above f ∧ g ≠ f := by
        intro g hg
        rw [hup]
        exact ⟨List.mem_cons_of_mem _ hg, fun he => hnot (he ▸ hg)⟩
      have hsame : ∀ g ∈ above p,
          (m.setReference f (m.reference f - 1)).reference g = m.reference g :=
        fun g hg => Function.update_of_ne (hmem g hg).2 _ _
      have htwo : 2 ≤ (m.reference p).toNat :=
        hall p (hanc.mem_parent hp) (hmem p (hanc.mem_self p)).2
      have hp0 : m.reference p ≠ 0 := toNat_ne_zero.mpr (by omega)
      have hback : ffree depth (m.setReference f (m.reference f - 1)) p =
          some (m.lower (above f)) := by
        have hstep := @ih (m.setReference f (m.reference f - 1)) p hanc
          (by rw [hup, List.length_cons] at hlen; omega)
          (by rwa [hsame p (hanc.mem_self p)])
          fun g hg _ => by rw [hsame g hg]; exact hall g (hmem g hg).1 (hmem g hg).2
        rw [hstep, lower_up hanc hp, hsame p (hanc.mem_self p), if_neg]
        rw [← ne_eq, toNat_ne_zero, toNat_pred hp0]
        omega
      simp only [show (m.setReference f (m.reference f - 1)).parent f = some p from hp, hback,
        Option.bind_eq_bind, Option.bind_some, lower_of_mem (hanc.mem_self f), apply_ite some]

namespace Tree

/-- A file that keeps no count for itself has nothing below it. -/
lemma leaf (h : Tree m uses own kids above) (hf : own f = 0) : Leaf m.parent f :=
  fun g hg => Nat.ne_of_gt (h.own_pos g f hg) hf

lemma carries (h : Tree m (f :: uses) own kids above) {g : ℕ} (hg : g ∈ above f) :
    load above uses g + 1 + own g ≤ (m.reference g).toNat := by
  have hcount := h.count g
  rwa [load_cons, if_pos hg] at hcount

/-- A file above another one keeps a count for itself. -/
lemma own_above (h : Tree m uses own kids above) {g : ℕ} (hg : g ∈ above f) (hne : g ≠ f) :
    0 < own g := by
  by_contra hown
  exact h.ancestry.not_mem_of_leaf (h.leaf (Nat.eq_zero_of_not_pos hown)) hne.symm hg

/-- A file that is counted once has the use only. -/
lemma load_update (h : Tree m (f :: uses) own kids above) (hone : m.reference f = 1) (l : List ℕ)
    (g : ℕ) : load (Function.update above f l) uses g = load above uses g := by
  have hcarries := h.carries (h.ancestry.mem_self f)
  rw [hone, UInt16.toNat_one] at hcarries
  have hout : f ∉ uses := by
    intro hm
    have hpos : 0 < load above uses f :=
      List.countP_pos_iff.mpr ⟨f, hm, by simpa using h.ancestry.mem_self f⟩
    omega
  refine load_congr fun d hd => ?_
  have hdf : d ≠ f := fun he => hout (he ▸ hd)
  rw [Function.update_of_ne hdf]

lemma length_above (h : Tree m (f :: uses) own kids above) : (above f).length ≤ MAX_FILE := by
  have hsub : above f ⊆ List.range MAX_FILE := by
    intro g hg
    have hcarries := h.carries hg
    exact List.mem_range.mpr (h.bound g (toNat_ne_zero.mpr (by omega)))
  have hlen := ((h.ancestry.nodup f).subperm hsub).length_le
  rwa [List.length_range] at hlen

/-- A use is given back. -/
lemma ffree_eq (h : Tree m (f :: uses) own kids above) :
    ffree MAX_FILE m f = some (if m.reference f - 1 = 0
      then (funlink (m.lower (above f)) f).setReference f 0 else m.lower (above f)) := by
  refine Vfs.ffree_eq h.ancestry h.length_above ?_ ?_
  · have hcarries := h.carries (h.ancestry.mem_self f)
    exact toNat_ne_zero.mpr (by omega)
  · intro g hg hne
    have hcarries := h.carries hg
    have hown := h.own_above hg hne
    omega

lemma lower_reference (h : Tree m (f :: uses) own kids above) (g : ℕ) :
    ((m.lower (above f)).reference g).toNat =
      (m.reference g).toNat - if g ∈ above f then 1 else 0 := by
  by_cases hg : g ∈ above f
  · have hcarries := h.carries hg
    rw [lower_of_mem hg, if_pos hg]
    exact toNat_pred (toNat_ne_zero.mpr (by omega))
  · rw [lower_of_not_mem hg, if_neg hg, Nat.sub_zero]

lemma lower_count (h : Tree m (f :: uses) own kids above) (g : ℕ) :
    load above uses g + own g ≤ ((m.lower (above f)).reference g).toNat := by
  have hcount := h.count g
  rw [load_cons] at hcount
  rw [h.lower_reference]
  split_ifs at hcount ⊢ <;> omega

/-- The file of the use is still in use. -/
lemma lower (h : Tree m (f :: uses) own kids above) (hf : m.reference f - 1 ≠ 0) :
    Tree (m.lower (above f)) uses own kids above where
  family := h.family
  mem_kids := h.mem_kids
  ancestry := h.ancestry
  alone := h.alone
  count := h.lower_count
  used g hg := by
    by_cases hgf : g = f
    · subst hgf
      rwa [lower_of_mem (h.ancestry.mem_self g)]
    · rw [toNat_ne_zero, h.lower_reference]
      have hused := toNat_ne_zero.mp (h.used g hg)
      by_cases hmem : g ∈ above f
      · have hcarries := h.carries hmem
        have hown := h.own_above hmem hgf
        rw [if_pos hmem]
        omega
      · rwa [if_neg hmem, Nat.sub_zero]
  own_pos := h.own_pos
  parent_root := h.parent_root
  bound g hg := by
    refine h.bound g fun he => ?_
    rw [toNat_ne_zero, h.lower_reference, he] at hg
    simp at hg

/-- A file that is linked nowhere stays as it is. -/
lemma funlink_alone (h : Tree m uses own kids above) (hp : m.parent f = none) :
    funlink m f = m := by
  obtain ⟨hn, hv⟩ := h.alone f hp
  simp only [funlink, hv, hp, hn, State.setPrev, State.setNext, State.setParent]
  rw [Function.update_eq_self_iff.mpr hv.symm, Function.update_eq_self_iff.mpr hn.symm,
    Function.update_eq_self_iff.mpr hp.symm]

/-- A file without a parent is linked nowhere; `f` leaves the chain it is in. -/
structure Unlinked (m s : State) (kids : ℕ → List ℕ) (f : ℕ) : Prop where
  family : Family s.next s.prev s.child kids
  mem_kids : ∀ p g, g ∈ kids p ↔ s.parent g = some p
  parent_eq : s.parent = Function.update m.parent f none
  alone : ∀ g, s.parent g = none → s.next g = none ∧ s.prev g = none
  reference_eq : s.reference = m.reference
  root_eq : s.root = m.root

lemma funlink_unlinked (h : Tree m uses own kids above) (f : ℕ) :
    ∃ kids', Unlinked m (funlink m f) kids' f := by
  cases hp : m.parent f with
  | none =>
    rw [h.funlink_alone hp]
    refine ⟨kids, h.family, h.mem_kids, ?_, h.alone, rfl, rfl⟩
    exact (Function.update_eq_self_iff.mpr hp.symm).symm
  | some p =>
    have hf : f ∈ kids p := (h.mem_kids p f).mpr hp
    have hchain := h.family.chain p
    have hmem := h.family.mem_unlink hf
    rw [funlink_eq hp fun q hq => hchain.prev_ne hf hq]
    refine ⟨Function.update kids p ((kids p).erase f), ?_, ?_, rfl, ?_, rfl, rfl⟩
    · refine (h.family.unlink hf).congr ?_ ?_ <;> intro i x hx <;>
        exact Function.update_of_ne ((hmem i x).mp hx).1 _ _
    · intro q g
      rw [hmem]
      by_cases hgf : g = f
      · simp [hgf]
      · simp [hgf, h.mem_kids]
    · intro g hg
      by_cases hgf : g = f
      · simp [hgf]
      · simp only [Function.update_of_ne hgf] at hg ⊢
        have hout : g ∉ kids p := by
          rw [h.mem_kids, hg]
          simp
        rw [hchain.unlinkNext_of_not_mem hf hout, hchain.unlinkPrev_of_not_mem hf hout]
        exact h.alone g hg

/-- The links do not depend on the counts. -/
lemma funlink_lower (l : List ℕ) (f : ℕ) : funlink (m.lower l) f = (funlink m f).lower l := by
  cases hv : m.prev f with
  | some p =>
    simp only [funlink, State.lower, State.setNext, State.setPrev, State.setParent, hv]
    cases Function.update m.next p (m.next f) f <;> rfl
  | none =>
    cases hp : m.parent f <;> cases hn : m.next f <;>
      simp [funlink, State.lower, State.setNext, State.setPrev, State.setChild, State.setParent, hv,
        hp, hn]

/-- The file of the use is free. -/
lemma free (h : Tree m (f :: uses) own kids above) (hf : m.reference f - 1 = 0) :
    ∃ t kids' above', t = (funlink (m.lower (above f)) f).setReference f 0 ∧
      Tree t uses own kids' above' ∧ t.reference = (m.lower (above f)).reference ∧
      t.parent = Function.update m.parent f none ∧ t.root = m.root := by
  have hone : m.reference f = 1 := by
    rw [← UInt16.sub_add_cancel (m.reference f) 1, hf, UInt16.zero_add]
  have hcarries := h.carries (h.ancestry.mem_self f)
  rw [hone, UInt16.toNat_one] at hcarries
  have hleaf : Leaf m.parent f := h.leaf (by omega)
  obtain ⟨kids', hun⟩ := h.funlink_unlinked f
  have href : ((funlink (m.lower (above f)) f).setReference f 0).reference =
      (m.lower (above f)).reference := by
    rw [funlink_lower]
    funext g
    by_cases hgf : g = f
    · subst hgf
      simp [State.setReference, State.lower, h.ancestry.mem_self g, hf]
    · simp [State.setReference, State.lower, hun.reference_eq, hgf]
  refine ⟨_, kids', Function.update above f [f], rfl, ?_, href, ?_, ?_⟩
  · rw [funlink_lower] at href ⊢
    generalize ht : ((funlink m f).lower (above f)).setReference f 0 = t at href
    have hparent : t.parent = Function.update m.parent f none := ht ▸ hun.parent_eq
    exact
      { family := ht ▸ hun.family
        mem_kids := ht ▸ hun.mem_kids
        ancestry := hparent ▸ h.ancestry.unlink hleaf
        alone := ht ▸ hun.alone
        count := fun g => by
          rw [href, h.load_update hone]
          exact h.lower_count g
        used := fun g hg => by
          have hgf : g ≠ f := by
            rintro rfl
            simp [hparent] at hg
          rw [hparent, Function.update_of_ne hgf] at hg
          rw [href, toNat_ne_zero, h.lower_reference]
          have hused := toNat_ne_zero.mp (h.used g hg)
          by_cases hmem : g ∈ above f
          · have hcarries := h.carries hmem
            have hown := h.own_above hmem hgf
            rw [if_pos hmem]
            omega
          · rwa [if_neg hmem, Nat.sub_zero]
        own_pos := fun g q hq => by
          have hgf : g ≠ f := by
            rintro rfl
            simp [hparent] at hq
          rw [hparent, Function.update_of_ne hgf] at hq
          exact h.own_pos g q hq
        parent_root := by
          have hroot : t.root = m.root := ht ▸ hun.root_eq
          rw [hparent, hroot]
          by_cases hr : m.root = f
          · rw [hr, Function.update_self]
          · rw [Function.update_of_ne hr]
            exact h.parent_root
        bound := fun g hg => by
          refine h.bound g fun he => ?_
          rw [href, toNat_ne_zero, h.lower_reference, he] at hg
          simp at hg }
  · rw [funlink_lower]
    exact hun.parent_eq
  · rw [funlink_lower]
    exact hun.root_eq

/-- A use is given back: the tables stay trees. -/
lemma release (h : Tree m (f :: uses) own kids above) :
    ∃ t kids' above', ffree MAX_FILE m f = some t ∧ Tree t uses own kids' above' ∧
      t.reference = (m.lower (above f)).reference ∧ (∀ g, g ≠ f → t.parent g = m.parent g) ∧
      t.root = m.root := by
  rw [h.ffree_eq]
  by_cases hf : m.reference f - 1 = 0
  · obtain ⟨t, kids', above', rfl, htree, href, hparent, hroot⟩ := h.free hf
    refine ⟨_, kids', above', by rw [if_pos hf], htree, href, fun g hg => ?_, hroot⟩
    rw [hparent, Function.update_of_ne hg]
  · exact ⟨_, kids, above, by rw [if_neg hf], h.lower hf, rfl, fun _ _ => rfl, rfl⟩

/-! ## Taking, linking and counting -/

/-- Only counts and links matter. -/
lemma congr (h : Tree m uses own kids above) {t : State} (hnext : t.next = m.next)
    (hprev : t.prev = m.prev) (hparent : t.parent = m.parent) (hchild : t.child = m.child)
    (href : t.reference = m.reference) (hroot : t.root = m.root) : Tree t uses own kids above := by
  refine ⟨?_, ?_, ?_, ?_, ?_, ?_, ?_, ?_, ?_⟩ <;>
    simp only [hnext, hprev, hparent, hchild, href, hroot]
  · exact h.family
  · exact h.mem_kids
  · exact h.ancestry
  · exact h.alone
  · exact h.count
  · exact h.used
  · exact h.own_pos
  · exact h.parent_root
  · exact h.bound

/-- A free entry is taken for a new use. -/
lemma falloc (h : Tree m uses own kids above) {t : State} (ht : falloc m = (some f, t)) :
    Tree t (f :: uses) own kids above := by
  obtain ⟨hfree, hlt, rfl⟩ := falloc_spec ht
  have hparent : m.parent f = none := by
    by_contra hp
    exact h.used f hp hfree
  obtain ⟨hnext, hprev⟩ := h.alone f hparent
  have hcount := h.count f
  rw [hfree, UInt16.toNat_zero] at hcount
  have hleaf : Leaf m.parent f := h.leaf (by omega)
  have hchild : m.child f = none := by
    rw [(h.family.chain f).head_eq, List.head?_eq_none_iff, List.eq_nil_iff_forall_not_mem]
    exact fun g hg => hleaf g ((h.mem_kids f g).mp hg)
  have href : ∀ g, (Function.update (Function.update m.reference f 0) f 1) g =
      if g = f then 1 else m.reference g := by
    intro g
    by_cases hgf : g = f <;> simp [hgf]
  have htree : Tree { m with reference := Function.update (Function.update m.reference f 0) f 1 }
      (f :: uses) own kids above := by
    refine ⟨h.family, h.mem_kids, h.ancestry, h.alone, ?_, ?_, h.own_pos, h.parent_root, ?_⟩
    · intro g
      have hg := h.count g
      simp only [load_cons, href, h.ancestry.top f hparent]
      by_cases hgf : g = f
      · subst hgf
        simp
        omega
      · simpa [hgf] using hg
    · intro g hg
      simp only [href]
      split_ifs
      · decide
      · exact h.used g hg
    · intro g hg
      simp only [href] at hg
      split_ifs at hg with hgf
      · exact hgf ▸ hlt
      · exact h.bound g hg
  exact htree.congr (Function.update_eq_self_iff.mpr hnext.symm)
    (Function.update_eq_self_iff.mpr hprev.symm) (Function.update_eq_self_iff.mpr hparent.symm)
    (Function.update_eq_self_iff.mpr hchild.symm) rfl rfl

/-- A file without a parent is linked below `p`. -/
lemma flinkto (h : Tree m uses own kids above) (hf : m.parent f = none) (hused : m.reference f ≠ 0)
    (hown : own f = 0) (hroot : f ≠ m.root) (hp : 0 < own p) {uses' : List ℕ}
    (hload : ∀ g, load (Function.update above f (f :: above p)) uses' g ≤ load above uses g) :
    Tree (flinkto m f p) uses' own (Function.update kids p (f :: kids p))
      (Function.update above f (f :: above p)) := by
  have hout : ∀ q, f ∉ kids q := by
    intro q
    rw [h.mem_kids, hf]
    simp
  have hpf : p ≠ f := by
    rintro rfl
    omega
  have hhead := (h.family.chain p).head_eq
  have hchild : m.child p ≠ some f := by
    rw [hhead]
    exact fun he => hout p (List.mem_of_head? he)
  have hparent : ∀ {g : ℕ}, g ≠ f → (Function.update m.parent f (some p)) g = m.parent g :=
    fun hg => Function.update_of_ne hg _ _
  rw [flinkto_eq hchild]
  refine ⟨?_, ?_, h.ancestry.link (h.leaf hown) hpf, ?_, ?_, ?_, ?_, ?_, h.bound⟩
  · have hlink := @Family.link _ _ _ _ _ _ _ _ p f h.family [] (kids p) rfl hout
    rw [hhead]
    simpa [linkEnd] using hlink
  · intro q g
    dsimp only
    by_cases hgf : g = f
    · subst hgf
      rw [Function.update_self]
      by_cases hq : q = p
      · simp [hq]
      · simpa [hq, Ne.symm hq] using hout q
    · rw [hparent hgf, ← h.mem_kids]
      by_cases hq : q = p
      · subst hq
        simp [hgf]
      · rw [Function.update_of_ne hq]
  · intro g hg
    dsimp only at hg ⊢
    have hgf : g ≠ f := by
      rintro rfl
      simp at hg
    rw [hparent hgf] at hg
    obtain ⟨hn, hv⟩ := h.alone g hg
    have hne : m.child p ≠ some g := by
      intro he
      rw [hhead] at he
      have hm := (h.mem_kids p g).mp (List.mem_of_head? he)
      simp [hg] at hm
    exact ⟨(linkNext_of_ne hgf (by simp)).trans hn, (linkPrev_of_ne hgf hne).trans hv⟩
  · exact fun g => (Nat.add_le_add_right (hload g) _).trans (h.count g)
  · intro g hg
    dsimp only at hg ⊢
    by_cases hgf : g = f
    · exact hgf ▸ hused
    · rw [hparent hgf] at hg
      exact h.used g hg
  · intro g q hq
    dsimp only at hq
    by_cases hgf : g = f
    · subst hgf
      rw [Function.update_self] at hq
      exact Option.some.inj hq ▸ hp
    · rw [hparent hgf] at hq
      exact h.own_pos g q hq
  · exact (hparent hroot.symm).trans h.parent_root

/-- A file in use is counted once more. -/
lemma count_up (h : Tree m uses own kids above) (hf : m.reference f ≠ 0)
    (hmax : m.reference f ≠ 65535) {uses' : List ℕ} {own' : ℕ → ℕ}
    (hown : ∀ g, own g ≤ own' g)
    (hload : ∀ g, load above uses' g + own' g ≤
      load above uses g + own g + if g = f then 1 else 0) :
    Tree (m.setReference f (m.reference f + 1)) uses' own' kids above := by
  have href : ∀ g, ((m.setReference f (m.reference f + 1)).reference g).toNat =
      (m.reference g).toNat + if g = f then 1 else 0 := by
    intro g
    by_cases hgf : g = f
    · subst hgf
      simp only [State.setReference, Function.update_self, if_true, toNat_succ hmax]
    · simp [State.setReference, hgf]
  refine ⟨h.family, h.mem_kids, h.ancestry, h.alone, ?_, ?_, ?_, h.parent_root, ?_⟩
  · intro g
    have hcount := h.count g
    have hl := hload g
    rw [href]
    omega
  · intro g hg
    have hused := toNat_ne_zero.mp (h.used g hg)
    rw [toNat_ne_zero, href]
    omega
  · exact fun g p hp => (h.own_pos g p hp).trans_le (hown p)
  · intro g hg
    by_cases hgf : g = f
    · exact hgf ▸ h.bound f hf
    · have hsame : (m.setReference f (m.reference f + 1)).reference g = m.reference g :=
        Function.update_of_ne hgf _ _
      exact h.bound g (hsame ▸ hg)

/-- What is linked to a file is in use. -/
lemma adjacent_used (h : Tree m uses own kids above) {g : ℕ}
    (hg : m.parent f = some g ∨ m.child f = some g ∨ m.next f = some g ∨ m.prev f = some g) :
    m.reference g ≠ 0 := by
  have hkid : ∀ p, g ∈ kids p → m.reference g ≠ 0 := fun p hp => by
    refine h.used g ?_
    rw [(h.mem_kids p g).mp hp]
    exact Option.some_ne_none p
  have hsibling : ∀ q, f ∈ kids q → m.next f = some g ∨ m.prev f = some g → g ∈ kids q := by
    intro q hq hg
    have hlinked := (h.family.chain q).linked
    rcases hg with hn | hv
    · exact hlinked.next_mem hq hn
    · simpa using hlinked.reverse.next_mem (by simpa using hq) hv
  rcases hg with hp | hc | hlink
  · have hown := h.own_pos f g hp
    have hcount := h.count g
    exact toNat_ne_zero.mpr (by omega)
  · rw [(h.family.chain f).head_eq] at hc
    exact hkid f (List.mem_of_head? hc)
  · cases hq : m.parent f with
    | none =>
      obtain ⟨hn, hv⟩ := h.alone f hq
      simp [hn, hv] at hlink
    | some q => exact hkid q (hsibling q ((h.mem_kids q f).mpr hq) hlink)

end Tree

/-! ## Forests -/

/-- The files in use are linked to trees, and each one is counted for the uses of the files below it
and `own` times for itself. -/
def Forest (m : State) (uses : List ℕ) (own : ℕ → ℕ) : Prop :=
  ∃ kids above, Tree m uses own kids above

/-- A new file, which is linked nowhere yet. -/
structure Pending (m : State) (own : ℕ → ℕ) (f : ℕ) : Prop where
  parent_eq : m.parent f = none
  reference_eq : m.reference f = 1
  own_eq : own f = 0

lemma Pending.ne {g : ℕ} (h : Pending m own f) (hg : 0 < own g) : f ≠ g := by
  rintro rfl
  exact Nat.ne_of_gt hg h.own_eq

lemma Pending.used (h : Pending m own f) : m.reference f ≠ 0 := by
  rw [h.reference_eq]
  decide

namespace Forest

/-- The order of the uses does not matter. -/
lemma perm {uses' : List ℕ} (h : Forest m uses own) (hp : uses.Perm uses') :
    Forest m uses' own := by
  obtain ⟨kids, above, h⟩ := h
  refine ⟨kids, above, h.family, h.mem_kids, h.ancestry, h.alone, fun g => ?_, h.used, h.own_pos,
    h.parent_root, h.bound⟩
  rw [← load_perm hp]
  exact h.count g

/-- A use becomes a count of its own. -/
lemma keep (h : Forest m (f :: uses) own) : Forest m uses (Function.update own f (own f + 1)) := by
  obtain ⟨kids, above, h⟩ := h
  refine ⟨kids, above, h.family, h.mem_kids, h.ancestry, h.alone, fun g => ?_, h.used,
    fun g p hp => ?_, h.parent_root, h.bound⟩
  · have hcount := h.count g
    rw [load_cons] at hcount
    by_cases hgf : g = f
    · subst hgf
      rw [if_pos (h.ancestry.mem_self g)] at hcount
      rw [Function.update_self]
      omega
    · rw [Function.update_of_ne hgf]
      omega
  · have hown := h.own_pos g p hp
    by_cases hpf : p = f
    · simp [hpf]
    · rwa [Function.update_of_ne hpf]

/-- A use is forgotten. -/
lemma drop (h : Forest m (f :: uses) own) : Forest m uses own := by
  obtain ⟨kids, above, h⟩ := h
  refine ⟨kids, above, h.family, h.mem_kids, h.ancestry, h.alone, fun g => ?_, h.used, h.own_pos,
    h.parent_root, h.bound⟩
  have hcount := h.count g
  rw [load_cons] at hcount
  omega

/-- Only counts and links matter. -/
lemma congr (h : Forest m uses own) {t : State} (hnext : t.next = m.next)
    (hprev : t.prev = m.prev) (hparent : t.parent = m.parent) (hchild : t.child = m.child)
    (href : t.reference = m.reference) (hroot : t.root = m.root) : Forest t uses own := by
  obtain ⟨kids, above, h⟩ := h
  exact ⟨kids, above, h.congr hnext hprev hparent hchild href hroot⟩

/-- A file in use is counted. -/
lemma used_of_mem (h : Forest m uses own) (hf : f ∈ uses) : m.reference f ≠ 0 := by
  obtain ⟨kids, above, h⟩ := h
  have hcount := h.count f
  have hpos : 0 < load above uses f :=
    List.countP_pos_iff.mpr ⟨f, hf, by simpa using h.ancestry.mem_self f⟩
  exact toNat_ne_zero.mpr (by omega)

lemma used_of_own (h : Forest m uses own) (hf : 0 < own f) : m.reference f ≠ 0 := by
  obtain ⟨kids, above, h⟩ := h
  have hcount := h.count f
  exact toNat_ne_zero.mpr (by omega)

/-- A use is given back. A file that keeps no count for itself is not above the file of the use. -/
lemma release (h : Forest m (f :: uses) own) :
    ∃ t, ffree MAX_FILE m f = some t ∧ Forest t uses own ∧ t.root = m.root ∧
      t.reference f = m.reference f - 1 ∧
      ∀ g, g ≠ f → own g = 0 → t.reference g = m.reference g ∧ t.parent g = m.parent g := by
  obtain ⟨kids, above, h⟩ := h
  obtain ⟨t, kids', above', hfree, htree, href, hparent, hroot⟩ := h.release
  refine ⟨t, hfree, ⟨kids', above', htree⟩, hroot, ?_, fun g hne hg => ⟨?_, hparent g hne⟩⟩
  · rw [href, lower_of_mem (h.ancestry.mem_self f)]
  · rw [href, lower_of_not_mem (h.ancestry.not_mem_of_leaf (h.leaf hg) hne.symm)]

/-- An entry is taken for a new file. -/
lemma falloc (h : Forest m uses own) {t : State} (ht : falloc m = (some f, t)) :
    Forest t (f :: uses) own ∧ Pending t own f ∧ t.root = m.root ∧
      ∀ g, Pending m own g → g ≠ f ∧ Pending t own g := by
  obtain ⟨kids, above, h⟩ := h
  have htree := h.falloc ht
  obtain ⟨hfree, -, rfl⟩ := falloc_spec ht
  have hcount := h.count f
  rw [hfree, UInt16.toNat_zero] at hcount
  refine ⟨⟨kids, above, htree⟩, ⟨?_, ?_, by omega⟩, rfl, fun g hg => ?_⟩
  · simp [State.setReference, State.clear]
  · simp [State.setReference, State.clear]
  · have hne : g ≠ f := by
      rintro rfl
      exact hg.used hfree
    refine ⟨hne, ?_, ?_, hg.own_eq⟩
    · simpa [State.setReference, State.clear, hne] using hg.parent_eq
    · simpa [State.setReference, State.clear, hne] using hg.reference_eq

/-- A new file takes the use of the file that it is linked to over. -/
lemma flinkto (h : Forest m (f :: p :: uses) own) (hf : Pending m own f) (hroot : 0 < own m.root)
    (hp : 0 < own p) : Forest (flinkto m f p) (f :: uses) own := by
  obtain ⟨kids, above, h⟩ := h
  refine ⟨_, _, h.flinkto hf.parent_eq hf.used hf.own_eq (hf.ne hroot) hp fun g => ?_⟩
  have hsame := h.load_update hf.reference_eq (f :: above p) g
  simp only [load_cons, Function.update_self, Function.update_of_ne (hf.ne hp).symm, List.mem_cons,
    h.ancestry.top f hf.parent_eq, List.not_mem_nil, or_false] at hsame ⊢
  split_ifs at hsame ⊢ <;> first | omega | tauto

/-- A new file is linked without being used. -/
lemma flinkto_unused (h : Forest m (f :: uses) own) (hf : Pending m own f) (hroot : 0 < own m.root)
    (hp : 0 < own p) : Forest (Vfs.flinkto m f p) uses own := by
  obtain ⟨kids, above, h⟩ := h
  refine ⟨_, _, h.flinkto hf.parent_eq hf.used hf.own_eq (hf.ne hroot) hp fun g => ?_⟩
  rw [h.load_update hf.reference_eq, load_cons]
  exact Nat.le_add_right _ _

end Forest
end Sgos.Vfs
