import Sgos.Vfs

/-!
# Reference counts of open files

A file should be counted once for each open descriptor on it and once for each file in use right
below it. In a run that opens files right below the root, does not meet a missing file there and
does not close the root, the counts are right in every state, a failed open changes nothing, and
closing undoes opening.
-/
namespace Sgos.Vfs
open LinkedChain GuardedRun

/-- The table and the open descriptors. -/
structure System where
  mem : State
  opened : List ℕ

inductive Event
  | open (path : List UInt8) (flag : UInt32) (answers : ℕ → Answer)
  | close (id : ℤ)

/-- Each file is counted for its descriptors and for its children in use; the root keeps `k`
counts of its own. -/
def Counted (k : ℕ) (s : System) : Prop :=
  ∀ f, ∃ xs, Visits s.mem.next (s.mem.child f) xs ∧
    (s.mem.reference f).toNat = s.opened.count f + xs.countP (fun g => s.mem.reference g ≠ 0) +
      if f = s.mem.root then k else 0

/-- The entries with `p` have the same fields, counts apart. -/
structure SameOn (p : ℕ → Prop) (s s' : State) : Prop where
  root_eq : s'.root = s.root
  name_eq : ∀ f, p f → s'.name f = s.name f
  device_eq : ∀ f, p f → s'.device f = s.device f
  flag_eq : ∀ f, p f → s'.flag f = s.flag f
  dir_eq : ∀ f, p f → s'.dir f = s.dir f
  attr_eq : ∀ f, p f → s'.attr f = s.attr f
  prev_eq : ∀ f, p f → s'.prev f = s.prev f
  next_eq : ∀ f, p f → s'.next f = s.next f
  parent_eq : ∀ f, p f → s'.parent f = s.parent f
  child_eq : ∀ f, p f → s'.child f = s.child f

/-- All counts are the same, and so are the files in use. -/
structure SameFiles (s s' : State) : Prop where
  reference_eq : s'.reference = s.reference
  files : SameOn (fun f => s.reference f ≠ 0) s s'

section Step
variable (fsOpen : Ptr → Bool)

def step (s : System) : Event → System
  | .open path flag answers =>
    match vfsOpen fsOpen s.mem path flag answers with
    | none => s
    | some (.error _, mem) => { s with mem }
    | some (.ok f, mem) => ⟨mem, f :: s.opened⟩
  | .close id =>
    match vfsClose s.mem id with
    | none => s
    | some (ret, mem) => ⟨mem, if ret < 0 then s.opened else s.opened.erase id.toNat⟩

/-- What the counts owe to the callers: `ffree` meets no count of 0, a failed open leaves the
counts and the files in use as they were, and closing what was opened restores them. -/
def Law (s : System) : Event → Prop
  | .open path flag answers => ∃ result mem, vfsOpen fsOpen s.mem path flag answers =
      some (result, mem) ∧
      match result with
      | .error _ => SameFiles s.mem mem
      | .ok f => ∃ mem', vfsClose mem f = some (0, mem') ∧ SameFiles s.mem mem'
  | .close id => ∃ result mem, vfsClose s.mem id = some (result, mem)

/-- The open reaches no defect: there is no entry left for it, or the path is a slash and one
component that the root does not miss, or the path goes on behind a component that the root
misses. -/
def openOk (s : State) (path : List UInt8) (answers : ℕ → Answer) : Bool :=
  match falloc s, path with
  | (none, _), _ => true
  | (some _, _), [] => false
  | (some _, t), c :: rest =>
    let name := rest.takeWhile (· != SLASH)
    let missed := (answers 1).ret < 0
    c == SLASH && s.reference s.root != 65535 && decide (name.length < FILE_NAME_LEN) &&
      match rest.dropWhile (· != SLASH), searchable fsOpen s s.root with
      | [], some true => !missed
      | [], _ => true
      | _ :: _, some true => !name.isEmpty && missed && (falloc t).1.isSome &&
          (search s.next (fun g => s.name g == name) MAX_FILE (s.child s.root)).isNone
      | _ :: _, _ => !name.isEmpty

/-- The event reaches no defect. -/
def StepOk (s : System) : Event → Prop
  | .open path _ answers => openOk fsOpen s.mem path answers
  | .close id => id ≠ s.mem.root

instance (s : System) : ∀ e : Event, Decidable (StepOk fsOpen s e)
  | .open path _ answers => inferInstanceAs (Decidable (openOk fsOpen s.mem path answers = true))
  | .close id => inferInstanceAs (Decidable (id ≠ (s.mem.root : ℤ)))

end Step

/-- The files in use are the root and the open files `xs` right below it. -/
structure Flat (k : ℕ) (s : System) (xs : List ℕ) : Prop where
  chain : Chain s.mem.next s.mem.prev (s.mem.child s.mem.root) xs
  root_not_mem : s.mem.root ∉ xs
  parent_root : s.mem.parent s.mem.root = none
  device_root : s.mem.device s.mem.root ≠ none
  parent_eq : ∀ f ∈ xs, s.mem.parent f = some s.mem.root
  child_eq : ∀ f, f ≠ s.mem.root → s.mem.child f = none
  reference_eq : ∀ f, f ≠ s.mem.root → s.mem.reference f = if f ∈ xs then 1 else 0
  reference_root : (s.mem.reference s.mem.root).toNat = k + xs.length
  opened_eq : ∀ f, s.opened.count f = if f ∈ xs then 1 else 0
  pos : 0 < k

variable {fsOpen : Ptr → Bool} {k : ℕ} {s : System} {m : State} {xs : List ℕ} {f : ℕ}

/-- In a flat table the counts are right. -/
lemma Flat.counted (h : Flat k s xs) : Counted k s := by
  intro f
  by_cases hf : f = s.mem.root
  · subst hf
    refine ⟨xs, ?_, ?_⟩
    · rw [h.chain.head_eq]
      exact h.chain.linked.visits
    · have hall : xs.countP (fun g => s.mem.reference g ≠ 0) = xs.length := by
        rw [List.countP_eq_length]
        intro g hg
        have hgr : g ≠ s.mem.root := fun he => h.root_not_mem (he ▸ hg)
        simp [h.reference_eq g hgr, hg]
      rw [h.reference_root, h.opened_eq, if_neg h.root_not_mem, hall, if_pos rfl]
      omega
  · refine ⟨[], h.child_eq f hf, ?_⟩
    rw [h.reference_eq f hf, h.opened_eq, if_neg hf]
    by_cases hm : f ∈ xs <;> simp [hm]

/-! ## Allocation and release -/

lemma firstFree_spec {reference : ℕ → UInt16} {left id f : ℕ}
    (h : firstFree reference left id = some f) : reference f = 0 ∧ f < id + left := by
  induction left generalizing id with
  | zero => cases h
  | succ left ih =>
    rw [firstFree] at h
    split_ifs at h with hz
    · obtain rfl := Option.some.inj h
      exact ⟨hz, by omega⟩
    · obtain ⟨hf, hlt⟩ := ih h
      exact ⟨hf, by omega⟩

/-- What is allocated is a free entry, cleared and counted once. -/
lemma falloc_spec {t : State} (h : falloc m = (some f, t)) :
    m.reference f = 0 ∧ f < MAX_FILE ∧
      t = ({ m with fileCount := m.fileCount + 1 }.clear f).setReference f 1 := by
  rw [falloc] at h
  split_ifs at h with hfull
  · cases congrArg Prod.fst h
  · cases hfree : firstFree m.reference MAX_FILE 0 with
    | none =>
      rw [hfree] at h
      cases congrArg Prod.fst h
    | some g =>
      rw [hfree] at h
      obtain rfl := Option.some.inj (congrArg Prod.fst h)
      obtain ⟨hz, hlt⟩ := firstFree_spec hfree
      exact ⟨hz, by omega, (congrArg Prod.snd h).symm⟩

lemma falloc_none {t : State} (h : falloc m = (none, t)) : t = m := by
  rw [falloc] at h
  split_ifs at h with hfull
  · exact (congrArg Prod.snd h).symm
  · cases hfree : firstFree m.reference MAX_FILE 0 with
    | none =>
      rw [hfree] at h
      exact (congrArg Prod.snd h).symm
    | some g =>
      rw [hfree] at h
      cases congrArg Prod.fst h

/-- A file without a parent that is counted more than once loses one count. -/
lemma ffree_top (depth : ℕ) (hparent : m.parent f = none) (h : 2 ≤ (m.reference f).toNat) :
    ffree (depth + 1) m f = some (m.setReference f (m.reference f - 1)) := by
  have hne : m.reference f ≠ 0 := by
    intro he
    rw [he] at h
    simp at h
  have hne' : m.reference f - 1 ≠ 0 := by
    intro he
    have hone : (1 : UInt16) ≤ m.reference f := by
      rw [UInt16.le_iff_toNat_le]
      simp only [UInt16.reduceToNat]
      omega
    have hnat := congrArg UInt16.toNat he
    rw [UInt16.toNat_sub_of_le _ _ hone] at hnat
    simp only [UInt16.reduceToNat] at hnat
    omega
  simp [ffree, hne, State.setReference, hparent, hne']

/-- A file that is linked nowhere and counted once is freed. -/
lemma ffree_alone {depth : ℕ} (href : m.reference f = 1) (hparent : m.parent f = none)
    (hprev : m.prev f = none) (hnext : m.next f = none) :
    ffree (depth + 1) m f = some (m.setReference f 0) := by
  have hfun : funlink (m.setReference f 0) f = m.setReference f 0 := by
    simp only [funlink, State.setReference, hprev, hparent, hnext, State.setPrev, State.setNext,
      State.setParent, State.mk.injEq, true_and, and_true]
    refine ⟨?_, ?_, ?_⟩ <;> rw [Function.update_eq_self_iff] <;> simp [hprev, hparent, hnext]
  have hzero : (1 : UInt16) - 1 = 0 := rfl
  simp only [ffree, href, hzero]
  simp [State.setReference, hparent] at hfun ⊢
  rw [hfun]
  simp

/-- Only the numbers of counts that are 0 matter. -/
lemma firstFree_congr {r r' : ℕ → UInt16} (h : ∀ g, r' g = 0 ↔ r g = 0) (left id : ℕ) :
    firstFree r' left id = firstFree r left id := by
  induction left generalizing id with
  | zero => rfl
  | succ left ih => simp only [firstFree, h, ih]

lemma falloc_congr {m' : State} (hcount : m'.fileCount = m.fileCount)
    (h : ∀ g, m'.reference g = 0 ↔ m.reference g = 0) : (falloc m').1 = (falloc m).1 := by
  simp only [falloc, hcount, firstFree_congr h]
  by_cases hfull : m.fileCount ≥ MAX_FILE
  · simp only [if_pos hfull]
  · simp only [if_neg hfull]
    cases firstFree m.reference MAX_FILE 0 <;> rfl

/-! ## Links -/

lemma flinkto_eq {p : ℕ} (h : m.child p ≠ some f) :
    flinkto m f p = { m with
      next := linkNext m.next none f (m.child p)
      prev := linkPrev m.prev none f (m.child p)
      parent := Function.update m.parent f (some p)
      child := Function.update m.child p (some f) } := by
  cases hc : m.child p with
  | none =>
    simp [flinkto, linkNext, linkPrev, hc, State.setParent, State.setNext, State.setPrev,
      State.setChild]
  | some c =>
    have hcf : c ≠ f := fun he => h (he ▸ hc)
    simp [flinkto, linkNext, linkPrev, hc, State.setParent, State.setNext, State.setPrev,
      State.setChild, Function.update_comm hcf]

lemma funlink_eq {p : ℕ} (hparent : m.parent f = some p) (hprev : ∀ q, m.prev f = some q → q ≠ f) :
    funlink m f = { m with
      next := Function.update (unlinkNext m.next m.prev f) f none
      prev := Function.update (unlinkPrev m.next m.prev f) f none
      parent := Function.update m.parent f none
      child := Function.update m.child p (unlinkEnd m.prev m.next f (m.child p)) } := by
  cases hp : m.prev f with
  | none =>
    cases hn : m.next f <;>
      simp [funlink, unlinkNext, unlinkPrev, unlinkEnd, hp, hn, hparent, State.setParent,
        State.setNext, State.setPrev, State.setChild]
  | some q =>
    have hqf : q ≠ f := hprev q hp
    cases hn : m.next f <;>
      simp [funlink, unlinkNext, unlinkPrev, unlinkEnd, hp, hn, State.setParent,
        State.setNext, State.setPrev, hqf.symm]

/-! ## What stays the same -/

namespace SameOn
variable {p : ℕ → Prop} {s₁ s₂ s₃ : State}

lemma trans (h : SameOn p s₁ s₂) (h' : SameOn p s₂ s₃) : SameOn p s₁ s₃ where
  root_eq := h'.root_eq.trans h.root_eq
  name_eq f hf := (h'.name_eq f hf).trans (h.name_eq f hf)
  device_eq f hf := (h'.device_eq f hf).trans (h.device_eq f hf)
  flag_eq f hf := (h'.flag_eq f hf).trans (h.flag_eq f hf)
  dir_eq f hf := (h'.dir_eq f hf).trans (h.dir_eq f hf)
  attr_eq f hf := (h'.attr_eq f hf).trans (h.attr_eq f hf)
  prev_eq f hf := (h'.prev_eq f hf).trans (h.prev_eq f hf)
  next_eq f hf := (h'.next_eq f hf).trans (h.next_eq f hf)
  parent_eq f hf := (h'.parent_eq f hf).trans (h.parent_eq f hf)
  child_eq f hf := (h'.child_eq f hf).trans (h.child_eq f hf)

lemma refl (s : State) : SameOn p s s := by
  constructor <;> intros <;> rfl

lemma setReference (s : State) (f : ℕ) (n : UInt16) : SameOn p s (s.setReference f n) := by
  constructor <;> intros <;> rfl

lemma mono {q : ℕ → Prop} (h : SameOn p s₁ s₂) (hpq : ∀ f, q f → p f) : SameOn q s₁ s₂ where
  root_eq := h.root_eq
  name_eq f hf := h.name_eq f (hpq f hf)
  device_eq f hf := h.device_eq f (hpq f hf)
  flag_eq f hf := h.flag_eq f (hpq f hf)
  dir_eq f hf := h.dir_eq f (hpq f hf)
  attr_eq f hf := h.attr_eq f (hpq f hf)
  prev_eq f hf := h.prev_eq f (hpq f hf)
  next_eq f hf := h.next_eq f (hpq f hf)
  parent_eq f hf := h.parent_eq f (hpq f hf)
  child_eq f hf := h.child_eq f (hpq f hf)

/-- An entry without `p` is changed. -/
lemma of_update (hf : ¬ p f) (s : State) (name : List UInt8) (device : Option Ptr) (flag : UInt32)
    (dir : Bool) (attr : UInt32) (prev next parent child : Option ℕ) (reference : ℕ → UInt16)
    (fileCount : ℕ) :
    SameOn p s
      { name := Function.update s.name f name
        device := Function.update s.device f device
        flag := Function.update s.flag f flag
        dir := Function.update s.dir f dir
        attr := Function.update s.attr f attr
        reference
        prev := Function.update s.prev f prev
        next := Function.update s.next f next
        parent := Function.update s.parent f parent
        child := Function.update s.child f child
        fileCount
        root := s.root } := by
  have hne : ∀ g, p g → g ≠ f := fun g hg he => hf (he ▸ hg)
  constructor <;> first | rfl | exact fun g hg => Function.update_of_ne (hne g hg) _ _

end SameOn

/-! ## Failed opens -/

/-- Entry `f` was taken out of the free entries of `m`; nothing is linked to it. -/
structure Taken (m s : State) (f : ℕ) : Prop where
  files : SameOn (fun g => m.reference g ≠ 0) m s
  reference_eq : s.reference = Function.update m.reference f 1
  child_eq : s.child = Function.update m.child f none
  prev_self : s.prev f = none
  next_self : s.next f = none
  parent_self : s.parent f = none

lemma falloc_taken {t : State} (h : falloc m = (some f, t)) (flag : UInt32) :
    Taken m { t with flag := Function.update t.flag f flag } f := by
  obtain ⟨hfree, -, rfl⟩ := falloc_spec h
  have hnot : ¬ m.reference f ≠ 0 := fun hne => hne hfree
  refine ⟨?_, by simp [State.setReference, State.clear], by simp [State.setReference, State.clear],
    by simp [State.setReference, State.clear], by simp [State.setReference, State.clear],
    by simp [State.setReference, State.clear]⟩
  have hsame := SameOn.of_update (p := fun g => m.reference g ≠ 0) hnot m [] none flag false 0
    none none none none (Function.update (Function.update m.reference f 0) f 1) (m.fileCount + 1)
  simpa [State.setReference, State.clear] using hsame

/-- An entry that was taken and that nothing was linked to is given back. -/
lemma Taken.ffree {t : State} (depth : ℕ) (h : Taken m t f) (hfree : m.reference f = 0) :
    ∃ t', ffree (depth + 1) t f = some t' ∧ SameFiles m t' ∧
      t'.child = Function.update m.child f none := by
  have href : t.reference f = 1 := by rw [h.reference_eq, Function.update_self]
  refine ⟨_, ffree_alone href h.parent_self h.prev_self h.next_self, ⟨?_, ?_⟩, h.child_eq⟩
  · simp only [State.setReference, h.reference_eq, Function.update_idem]
    rw [Function.update_eq_self_iff, hfree]
  · exact h.files.trans (.setReference t f 0)

/-- The file system does not know the name: the new entry is given back. -/
lemma openFile_missed {t : State} (hfalloc : falloc m = (some f, t)) (cur : ℕ) (name : List UInt8)
    (flag : UInt32) {answer : Answer} (hret : answer.ret < 0) (hchild : m.child f = none) :
    ∃ t', openFile t cur f name flag answer = some (.error answer.ret, t') ∧ SameFiles m t' ∧
      t'.child = m.child := by
  obtain ⟨hfree, -, rfl⟩ := falloc_spec hfalloc
  have hnot : ¬ m.reference f ≠ 0 := fun hne => hne hfree
  have htaken : Taken m
      { name := Function.update m.name f name
        device := Function.update m.device f answer.device
        flag := Function.update m.flag f flag
        dir := Function.update m.dir f answer.dir
        attr := Function.update m.attr f answer.attr
        reference := Function.update m.reference f 1
        prev := Function.update m.prev f none
        next := Function.update m.next f none
        parent := Function.update m.parent f none
        child := Function.update m.child f none
        fileCount := m.fileCount + 1
        root := m.root } f :=
    ⟨.of_update hnot m _ _ _ _ _ _ _ _ _ _ _, rfl, rfl, by simp, by simp, by simp⟩
  obtain ⟨t', ht', hsame, hchild'⟩ : ∃ t', Vfs.ffree MAX_FILE _ f = some t' ∧ _ :=
    htaken.ffree 65535 hfree
  rw [Function.update_eq_self_iff.mpr hchild.symm] at hchild'
  refine ⟨t', ?_, hsame, hchild'⟩
  rw [openFile, if_pos hret]
  simpa [State.setParent, State.setReference, State.clear] using ht'

/-- A name that is not open and that the file system does not know: nothing is changed. -/
lemma tryOpen_missed {cur : ℕ} {name : List UInt8} (flag : UInt32) {answer : Answer}
    (hdir : searchable fsOpen m cur = some true)
    (hsearch : search m.next (fun g => m.name g == name) MAX_FILE (m.child cur) = none)
    {t : State} (hfalloc : falloc m = (some f, t)) (hret : answer.ret < 0)
    (hchild : m.child f = none) :
    ∃ t', tryOpen fsOpen m cur none name flag answer = some (.error answer.ret, t') ∧
      SameFiles m t' ∧ t'.child = m.child := by
  obtain ⟨t', ht', hsame⟩ := openFile_missed hfalloc cur name flag hret hchild
  refine ⟨t', ?_, hsame⟩
  simp [tryOpen, hdir, hsearch, hfalloc, ht']

/-- Below what is no directory nothing is looked for. -/
lemma tryOpen_noPath {cur : ℕ} (next : Option ℕ) (name : List UInt8) (flag : UInt32)
    (answer : Answer) (hdir : searchable fsOpen m cur = some false) :
    tryOpen fsOpen m cur next name flag answer = some (.error (-ERR_NOPATH), m) := by
  simp [tryOpen, hdir]

/-! ## The loop over a path -/

variable (fsOpen f) in
/-- The characters of a component are collected. -/
lemma nameFile_chars (answers : ℕ → Answer) (chars path : List UInt8) (hchars : SLASH ∉ chars)
    (name : List UInt8) (hlen : name.length + chars.length < FILE_NAME_LEN) (parent i : ℕ)
    (t : State) :
    nameFile fsOpen f answers (chars ++ path) name parent i t =
      nameFile fsOpen f answers path (name ++ chars) parent i t := by
  induction chars generalizing name with
  | nil => simp
  | cons c chars ih =>
    obtain ⟨hc, hchars⟩ : SLASH ≠ c ∧ SLASH ∉ chars := by simpa using hchars
    rw [List.length_cons] at hlen
    rw [List.cons_append, nameFile, if_neg (Ne.symm hc), if_pos (by omega),
      ih hchars _ (by simp; omega)]
    simp

/-- The slash in front counts the root. -/
lemma nameFile_slash (answers : ℕ → Answer) (path : List UInt8) (t : State) :
    nameFile fsOpen f answers (SLASH :: path) [] t.root 0 t =
      nameFile fsOpen f answers path [] t.root 1
        (t.setReference t.root (t.reference t.root + 1)) := by
  simp [nameFile]

variable (fsOpen) in
/-- An open goes on in the table in which its entry is taken. -/
lemma vfsOpen_eq {t : State} (hfalloc : falloc m = (some f, t)) (path : List UInt8) (flag : UInt32)
    (answers : ℕ → Answer) :
    vfsOpen fsOpen m path flag answers = (do
      let (ret, u) ← nameFile fsOpen f answers path []
        ({ t with flag := Function.update t.flag f flag } : State).root 0
        { t with flag := Function.update t.flag f flag }
      if ret < 0 then (ffree MAX_FILE u f).map fun u => (.error ret, u) else some (.ok f, u)) := by
  rw [vfsOpen, hfalloc]

/-! ## Opening right below the root -/

namespace Flat

lemma root_used (h : Flat k s xs) : s.mem.reference s.mem.root ≠ 0 := by
  intro he
  have href := h.reference_root
  have hpos := h.pos
  rw [he] at href
  simp only [UInt16.reduceToNat] at href
  omega

lemma ne_root (h : Flat k s xs) (hfree : s.mem.reference f = 0) : f ≠ s.mem.root := by
  rintro rfl
  exact h.root_used hfree

lemma not_mem (h : Flat k s xs) (hfree : s.mem.reference f = 0) : f ∉ xs := by
  intro hf
  have href := h.reference_eq f (h.ne_root hfree)
  rw [hfree, if_pos hf] at href
  cases href

lemma used (h : Flat k s xs) : ∀ g ∈ xs, s.mem.reference g ≠ 0 := by
  intro g hg he
  have href := h.reference_eq g fun hgr => h.root_not_mem (hgr ▸ hg)
  rw [he, if_pos hg] at href
  cases href

variable (fsOpen) in
/-- The state in which the component behind the slash is opened. -/
lemma searchable_eq (h : Flat k s xs) {t : State} (ht : Taken s.mem t f) (n : UInt16) :
    searchable fsOpen (t.setReference s.mem.root n) s.mem.root =
      searchable fsOpen s.mem s.mem.root := by
  have hused := h.root_used
  simp only [searchable, State.setReference, ht.files.dir_eq _ hused, ht.files.attr_eq _ hused,
    ht.files.device_eq _ hused]

/-- After a failure the count of the root and the entry are given back. -/
lemma giveBack (h : Flat k s xs) (hfree : s.mem.reference f = 0)
    (hmax : s.mem.reference s.mem.root ≠ 65535) {t t₁ : State} (ht : Taken s.mem t f)
    (hsame : SameFiles (t.setReference s.mem.root (s.mem.reference s.mem.root + 1)) t₁)
    (hchild : t₁.child = t.child) :
    ∃ t₂ t₃, ffree MAX_FILE t₁ s.mem.root = some t₂ ∧ ffree MAX_FILE t₂ f = some t₃ ∧
      SameFiles s.mem t₃ ∧ t₃.child = s.mem.child := by
  have hused := h.root_used
  have hfr := h.ne_root hfree
  have href : t₁.reference = Function.update (Function.update s.mem.reference f 1) s.mem.root
      (s.mem.reference s.mem.root + 1) := by
    rw [hsame.reference_eq, State.setReference, ht.reference_eq]
  have hcount : (s.mem.reference s.mem.root + 1).toNat = k + xs.length + 1 := by
    have hroot := h.reference_root
    have hlt := (s.mem.reference s.mem.root).toNat_lt
    have hne : (s.mem.reference s.mem.root).toNat ≠ 65535 := fun he =>
      hmax (UInt16.toNat_inj.mp he)
    simp only [UInt16.toNat_add, UInt16.reduceToNat]
    omega
  have hpos := h.pos
  have hin : ∀ g, s.mem.reference g ≠ 0 ∨ g = f →
      (t.setReference s.mem.root (s.mem.reference s.mem.root + 1)).reference g ≠ 0 := by
    intro g hg
    simp only [State.setReference, ht.reference_eq]
    by_cases hgr : g = s.mem.root
    · subst hgr
      rw [Function.update_self]
      intro he
      rw [he] at hcount
      simp only [UInt16.reduceToNat] at hcount
      omega
    · rw [Function.update_of_ne hgr]
      by_cases hgf : g = f
      · simp [hgf]
      · rw [Function.update_of_ne hgf]
        exact hg.resolve_right hgf
  have hfiles := hsame.files
  have hroot : t₁.reference s.mem.root = s.mem.reference s.mem.root + 1 := by
    rw [href, Function.update_self]
  have hparent : t₁.parent s.mem.root = none := by
    rw [hfiles.parent_eq _ (hin _ (.inl hused))]
    exact (ht.files.parent_eq _ hused).trans h.parent_root
  have hback := ffree_top 65535 hparent (by rw [hroot]; omega)
  have htaken : Taken s.mem (t₁.setReference s.mem.root (t₁.reference s.mem.root - 1)) f := by
    refine ⟨?_, ?_, hchild.trans ht.child_eq, ?_, ?_, ?_⟩
    · exact ((ht.files.trans (.setReference t _ _)).trans
        (hfiles.mono fun g hg => hin g (.inl hg))).trans (.setReference t₁ _ _)
    · simp only [State.setReference, href, Function.update_self, Function.update_idem,
        UInt16.add_sub_cancel]
      rw [Function.update_eq_self_iff, Function.update_of_ne (Ne.symm hfr)]
    · exact (hfiles.prev_eq f (hin f (.inr rfl))).trans ht.prev_self
    · exact (hfiles.next_eq f (hin f (.inr rfl))).trans ht.next_self
    · exact (hfiles.parent_eq f (hin f (.inr rfl))).trans ht.parent_self
  obtain ⟨t₃, hfree₃, hsame₃, hchild₃⟩ := htaken.ffree 65535 hfree
  refine ⟨_, t₃, hback, hfree₃, hsame₃, hchild₃.trans ?_⟩
  rw [Function.update_eq_self_iff]
  exact (h.child_eq f hfr).symm

/-- A table with the same files in use is flat. -/
lemma of_same (h : Flat k s xs) {t : State} (hsame : SameFiles s.mem t)
    (hchild : t.child = s.mem.child) : Flat k { s with mem := t } xs := by
  have hroot := hsame.files.root_eq
  have hused := h.root_used
  have hxs := h.used
  exact
    { chain := by
        simp only [hroot, hchild]
        exact h.chain.congr (fun g hg => hsame.files.next_eq g (hxs g hg))
          fun g hg => hsame.files.prev_eq g (hxs g hg)
      root_not_mem := by
        rw [hroot]
        exact h.root_not_mem
      parent_root := by
        simp only [hroot]
        exact (hsame.files.parent_eq _ hused).trans h.parent_root
      device_root := by
        simp only [hroot]
        rw [hsame.files.device_eq _ hused]
        exact h.device_root
      parent_eq := fun g hg => by
        simp only [hroot]
        exact (hsame.files.parent_eq g (hxs g hg)).trans (h.parent_eq g hg)
      child_eq := fun g hg => by
        rw [hroot] at hg
        simp only [hchild]
        exact h.child_eq g hg
      reference_eq := fun g hg => by
        rw [hroot] at hg
        simp only [hsame.reference_eq]
        exact h.reference_eq g hg
      reference_root := by
        simp only [hroot, hsame.reference_eq]
        exact h.reference_root
      opened_eq := h.opened_eq
      pos := h.pos }

/-- The first component fails without a trace: the open fails without a trace. -/
lemma open_error (h : Flat k s xs) {t t₁ : State} (hfalloc : falloc s.mem = (some f, t))
    (hmax : s.mem.reference s.mem.root ≠ 65535) {name tail : List UInt8} (hname : SLASH ∉ name)
    (hlen : name.length < FILE_NAME_LEN) (htail : tail = [] ∨ name ≠ [] ∧ ∃ cs, tail = SLASH :: cs)
    {flag : UInt32} {answers : ℕ → Answer} {ret : Int32} (hret : ret < 0)
    (htry : tryOpen fsOpen (({ t with flag := Function.update t.flag f flag } : State).setReference
        s.mem.root (s.mem.reference s.mem.root + 1)) s.mem.root
        (if tail = [] then some f else none) name flag (answers 1) = some (.error ret, t₁))
    (hsame : SameFiles (({ t with flag := Function.update t.flag f flag } : State).setReference
        s.mem.root (s.mem.reference s.mem.root + 1)) t₁)
    (hchild : t₁.child = t.child) :
    ∃ t₃, vfsOpen fsOpen s.mem (SLASH :: (name ++ tail)) flag answers = some (.error ret, t₃) ∧
      SameFiles s.mem t₃ ∧ Flat k { s with mem := t₃ } xs := by
  obtain ⟨hfree, -, -⟩ := falloc_spec hfalloc
  have hfr := h.ne_root hfree
  have ht := falloc_taken hfalloc flag
  obtain ⟨t₂, t₃, ht₂, ht₃, hfiles, hchild₃⟩ := h.giveBack hfree hmax ht hsame hchild
  refine ⟨t₃, ?_, hfiles, h.of_same hfiles hchild₃⟩
  have hopen := vfsOpen_eq fsOpen hfalloc (SLASH :: (name ++ tail)) flag answers
  have hflag : ({ t with flag := Function.update t.flag f flag } : State).flag f = flag :=
    Function.update_self ..
  generalize ({ t with flag := Function.update t.flag f flag } : State) = u at ht htry hopen hflag
  have hroot : u.root = s.mem.root := ht.files.root_eq
  have hcount : u.reference s.mem.root = s.mem.reference s.mem.root := by
    rw [ht.reference_eq, Function.update_of_ne (Ne.symm hfr)]
  have hloop : nameFile fsOpen f answers (SLASH :: (name ++ tail)) [] u.root 0 u =
      some (ret, t₂) := by
    rw [nameFile_slash, nameFile_chars fsOpen f answers name tail hname [] (by simpa using hlen), hroot,
      hcount, List.nil_append]
    have hflag' : (u.setReference s.mem.root (s.mem.reference s.mem.root + 1)).flag f = flag :=
      hflag
    rcases htail with rfl | ⟨hne, cs, rfl⟩
    · rw [if_pos rfl] at htry
      simp [nameFile, hflag', htry, ht₂]
    · rw [if_neg (by simp)] at htry
      simp [nameFile, hne, hflag', htry, ht₂]
  rw [hopen, hloop]
  simp [hret, ht₃]

end Flat

/-! ## Closing -/

lemma vfsClose_eq {id : ℤ} {t : State} (hfile : fgetfile m id = some f)
    (hfree : ffree MAX_FILE m f = some t) : vfsClose m id = some (0, t) := by
  simp only [vfsClose, hfile, hfree, Option.map_some]

namespace Flat

/-- Closing a file gives its entry and one count of the root back. -/
lemma ffree_eq (h : Flat k s xs) (hf : f ∈ xs) :
    ffree MAX_FILE s.mem f = some { s.mem with
      reference := Function.update (Function.update s.mem.reference s.mem.root
        (s.mem.reference s.mem.root - 1)) f 0
      next := Function.update (unlinkNext s.mem.next s.mem.prev f) f none
      prev := Function.update (unlinkPrev s.mem.next s.mem.prev f) f none
      parent := Function.update s.mem.parent f none
      child := Function.update s.mem.child s.mem.root
        (unlinkEnd s.mem.prev s.mem.next f (s.mem.child s.mem.root)) } := by
  have hfr : f ≠ s.mem.root := fun he => h.root_not_mem (he ▸ hf)
  have href : s.mem.reference f = 1 := by rw [h.reference_eq f hfr, if_pos hf]
  have hlen : 0 < xs.length := List.length_pos_of_mem hf
  have hroot := h.reference_root
  have hpos := h.pos
  have hparent := h.parent_eq f hf
  have htop : ffree 65535 (s.mem.setReference f 0) s.mem.root =
      some ((s.mem.setReference f 0).setReference s.mem.root
        (s.mem.reference s.mem.root - 1)) := by
    have hsame : (s.mem.setReference f 0).reference s.mem.root = s.mem.reference s.mem.root :=
      Function.update_of_ne (Ne.symm hfr) _ _
    have hback := ffree_top (m := s.mem.setReference f 0) 65534 h.parent_root
      (by rw [hsame]; omega)
    rwa [hsame] at hback
  have hlink := funlink_eq (m := (s.mem.setReference f 0).setReference s.mem.root
    (s.mem.reference s.mem.root - 1)) hparent fun q hq => h.chain.prev_ne hf hq
  have hstep : ffree MAX_FILE s.mem f = (do
      let u ← ffree 65535 (s.mem.setReference f 0) s.mem.root
      if u.reference f = 0 then some ((funlink u f).setReference f 0) else some u) := by
    rw [show MAX_FILE = 65535 + 1 from rfl, ffree]
    simp [href, State.setReference, hparent]
  rw [hstep, htop]
  simp only [State.setReference] at hlink ⊢
  simp only [hlink, Option.bind_eq_bind, Option.bind_some, Function.update_self,
    Function.update_of_ne hfr, if_true]
  rw [Function.update_comm hfr, Function.update_idem]

/-- The chain below the root is shorter than the table. -/
lemma length_le (h : Flat k s xs) : xs.length ≤ MAX_FILE := by
  have hlt := (s.mem.reference s.mem.root).toNat_lt
  have hroot := h.reference_root
  rw [MAX_FILE]
  omega

lemma fgetfile_eq (h : Flat k s xs) (hf : f ∈ xs) (hlt : f < MAX_FILE) :
    fgetfile s.mem (f : ℤ) = some f := by
  have hfr : f ≠ s.mem.root := fun he => h.root_not_mem (he ▸ hf)
  have href : s.mem.reference f = 1 := by rw [h.reference_eq f hfr, if_pos hf]
  rw [fgetfile, if_pos ⟨by omega, by omega, by simp [href]⟩, Int.toNat_natCast]

/-- Closing an open file takes it out of the table and of the descriptors. -/
lemma close (h : Flat k s xs) (hf : f ∈ xs) :
    ∃ t, ffree MAX_FILE s.mem f = some t ∧ Flat k ⟨t, s.opened.erase f⟩ (xs.erase f) := by
  refine ⟨_, h.ffree_eq hf, ?_⟩
  have hfr : f ≠ s.mem.root := fun he => h.root_not_mem (he ▸ hf)
  have hnd := h.chain.nodup
  have hlen := List.length_erase_of_mem hf
  have hpos : 0 < xs.length := List.length_pos_of_mem hf
  have hne : ∀ g ∈ xs.erase f, g ≠ f := fun g hg => (hnd.mem_erase_iff.mp hg).1
  have hmem : ∀ g ∈ xs.erase f, g ∈ xs := fun g hg => List.mem_of_mem_erase hg
  refine ⟨?_, ?_, ?_, h.device_root, ?_, ?_, ?_, ?_, ?_, h.pos⟩
  · simp only [Function.update_self]
    exact (h.chain.unlink hf).congr (fun g hg => Function.update_of_ne (hne g hg) _ _)
      fun g hg => Function.update_of_ne (hne g hg) _ _
  · exact fun hr => h.root_not_mem (hmem _ hr)
  · exact (Function.update_of_ne hfr.symm _ _).trans h.parent_root
  · exact fun g hg => (Function.update_of_ne (hne g hg) _ _).trans (h.parent_eq g (hmem g hg))
  · exact fun g hg => (Function.update_of_ne hg _ _).trans (h.child_eq g hg)
  · intro g hg
    by_cases hgf : g = f
    · simp [hgf, hnd.mem_erase_iff]
    · simp only [Function.update_of_ne hgf, Function.update_of_ne hg, h.reference_eq g hg,
        hnd.mem_erase_iff, ne_eq, hgf, not_false_eq_true, true_and]
  · have hroot := h.reference_root
    have hone : (1 : UInt16) ≤ s.mem.reference s.mem.root := by
      rw [UInt16.le_iff_toNat_le]
      simp only [UInt16.reduceToNat]
      omega
    simp only [Function.update_of_ne hfr.symm, Function.update_self,
      UInt16.toNat_sub_of_le _ _ hone, UInt16.reduceToNat]
    omega
  · intro g
    by_cases hgf : g = f
    · simp [hgf, hnd.mem_erase_iff, h.opened_eq, hf]
    · simp [hgf, hnd.mem_erase_iff, h.opened_eq]

end Flat

/-! ## Successful opens -/

/-- The table with the new file `f` right below the root, and the root counted once more. -/
def State.enter (s : State) (f : ℕ) (name : List UInt8) (flag : UInt32) (answer : Answer) : State :=
  { name := Function.update s.name f name
    device := Function.update s.device f answer.device
    flag := Function.update s.flag f flag
    dir := Function.update s.dir f answer.dir
    attr := Function.update s.attr f answer.attr
    reference := Function.update (Function.update s.reference f 1) s.root (s.reference s.root + 1)
    prev := linkPrev s.prev none f (s.child s.root)
    next := linkNext s.next none f (s.child s.root)
    parent := Function.update s.parent f (some s.root)
    child := Function.update (Function.update s.child f none) s.root (some f)
    fileCount := s.fileCount + 1
    root := s.root }

namespace Flat

/-- The open of a slash and a component that the root knows. -/
lemma open_eq (h : Flat k s xs) {t : State} (hfalloc : falloc s.mem = (some f, t))
    {name : List UInt8} (hname : SLASH ∉ name) (hlen : name.length < FILE_NAME_LEN)
    (flag : UInt32) {answers : ℕ → Answer} (hret : ¬ (answers 1).ret < 0)
    (hdir : searchable fsOpen s.mem s.mem.root = some true) :
    vfsOpen fsOpen s.mem (SLASH :: name) flag answers =
      some (.ok f, s.mem.enter f name flag (answers 1)) := by
  obtain ⟨hfree, -, -⟩ := falloc_spec hfalloc
  have hfr := h.ne_root hfree
  have hchild : s.mem.child s.mem.root ≠ some f := by
    rw [h.chain.head_eq]
    exact fun he => h.not_mem hfree (List.mem_of_head? he)
  have ht := falloc_taken hfalloc flag
  have hu := (h.searchable_eq fsOpen ht (s.mem.reference s.mem.root + 1)).trans hdir
  have hflag : ({ t with flag := Function.update t.flag f flag } : State).flag f = flag :=
    Function.update_self ..
  have hfile : openFile (({ t with flag := Function.update t.flag f flag } : State).setReference
      s.mem.root (s.mem.reference s.mem.root + 1)) s.mem.root f name flag (answers 1) =
      some (.ok f, s.mem.enter f name flag (answers 1)) := by
    obtain ⟨-, -, rfl⟩ := falloc_spec hfalloc
    rw [openFile, if_neg hret, flinkto_eq]
    · simp [State.enter, State.setReference, State.setParent, State.clear,
        Function.update_of_ne hfr.symm]
    · simpa [State.setReference, State.setParent, State.clear, Function.update_of_ne hfr.symm]
  have hopen := vfsOpen_eq fsOpen hfalloc (SLASH :: name) flag answers
  generalize ({ t with flag := Function.update t.flag f flag } : State) = u at *
  have hroot : u.root = s.mem.root := ht.files.root_eq
  have hcount : u.reference s.mem.root = s.mem.reference s.mem.root := by
    rw [ht.reference_eq, Function.update_of_ne hfr.symm]
  have hloop : nameFile fsOpen f answers (SLASH :: name) [] u.root 0 u =
      some (0, s.mem.enter f name flag (answers 1)) := by
    have hflag' : (u.setReference s.mem.root (s.mem.reference s.mem.root + 1)).flag f = flag :=
      hflag
    have hchars := nameFile_chars fsOpen f answers name [] hname []
      (by simpa using hlen)
    rw [List.append_nil] at hchars
    rw [nameFile_slash, hchars, hroot, hcount, List.nil_append]
    simp [nameFile, tryOpen, hu, hflag', hfile]
  rw [hopen, hloop]
  simp

/-- The new file is counted once, and once at the root. -/
lemma enter (h : Flat k s xs) (hfree : s.mem.reference f = 0)
    (hmax : s.mem.reference s.mem.root ≠ 65535) (name : List UInt8) (flag : UInt32)
    (answer : Answer) :
    Flat k ⟨s.mem.enter f name flag answer, f :: s.opened⟩ (f :: xs) := by
  have hfr := h.ne_root hfree
  have hf := h.not_mem hfree
  have hlink := h.chain.link_head hf
  rw [← h.chain.head_eq] at hlink
  refine ⟨?_, ?_, ?_, ?_, ?_, ?_, ?_, ?_, ?_, h.pos⟩
  · simp only [State.enter, Function.update_self]
    exact hlink
  · exact List.not_mem_cons_of_ne_of_not_mem hfr.symm h.root_not_mem
  · exact (Function.update_of_ne hfr.symm _ _).trans h.parent_root
  · simp only [State.enter, Function.update_of_ne hfr.symm]
    exact h.device_root
  · intro g hg
    by_cases hgf : g = f
    · simp [State.enter, hgf]
    · simp only [State.enter, Function.update_of_ne hgf]
      exact h.parent_eq g ((List.mem_cons.mp hg).resolve_left hgf)
  · intro g hg
    change g ≠ s.mem.root at hg
    simp only [State.enter, Function.update_of_ne hg]
    by_cases hgf : g = f
    · simp [hgf]
    · rw [Function.update_of_ne hgf, h.child_eq g hg]
  · intro g hg
    change g ≠ s.mem.root at hg
    simp only [State.enter, Function.update_of_ne hg]
    by_cases hgf : g = f
    · simp [hgf]
    · simp [h.reference_eq g hg, hgf]
  · have hroot := h.reference_root
    have hlt := (s.mem.reference s.mem.root).toNat_lt
    have hne : (s.mem.reference s.mem.root).toNat ≠ 65535 := fun he =>
      hmax (UInt16.toNat_inj.mp he)
    simp only [State.enter, Function.update_self, UInt16.toNat_add, UInt16.reduceToNat,
      List.length_cons]
    omega
  · intro g
    by_cases hgf : g = f
    · simp [hgf, h.opened_eq, hf]
    · simp [hgf, Ne.symm hgf, h.opened_eq]

/-- Closing what was opened restores the files in use. -/
lemma close_enter (h : Flat k s xs) (hfree : s.mem.reference f = 0)
    (hmax : s.mem.reference s.mem.root ≠ 65535) (name : List UInt8) (flag : UInt32)
    (answer : Answer) :
    ∃ t, ffree MAX_FILE (s.mem.enter f name flag answer) f = some t ∧ SameFiles s.mem t := by
  have hfr := h.ne_root hfree
  have hf := h.not_mem hfree
  have hne : ∀ g, s.mem.reference g ≠ 0 → g ≠ f := fun g hg he => hg (he ▸ hfree)
  have hhead := h.chain.head_eq
  have hs : s.mem.child s.mem.root ≠ some f := by
    rw [hhead]
    exact fun he => hf (List.mem_of_head? he)
  refine ⟨_, (h.enter hfree hmax name flag answer).ffree_eq List.mem_cons_self, ⟨?_, ?_⟩⟩
  · simp only [State.enter, Function.update_self, UInt16.add_sub_cancel, Function.update_idem]
    rw [Function.update_comm hfr, Function.update_idem, Function.update_eq_self,
      Function.update_eq_self_iff.mpr hfree.symm]
  · refine ⟨rfl, ?_, ?_, ?_, ?_, ?_, ?_, ?_, ?_, ?_⟩ <;> intro g hg
    · exact Function.update_of_ne (hne g hg) _ _
    · exact Function.update_of_ne (hne g hg) _ _
    · exact Function.update_of_ne (hne g hg) _ _
    · exact Function.update_of_ne (hne g hg) _ _
    · exact Function.update_of_ne (hne g hg) _ _
    · refine (Function.update_of_ne (hne g hg) _ _).trans ?_
      simp only [State.enter, hhead]
      exact h.chain.unlinkPrev_link_head hf (hne g hg)
    · refine (Function.update_of_ne (hne g hg) _ _).trans ?_
      exact unlinkNext_link_head hs (hne g hg)
    · refine (Function.update_of_ne (hne g hg) _ _).trans ?_
      exact Function.update_of_ne (hne g hg) _ _
    · by_cases hgr : g = s.mem.root
      · subst hgr
        simp only [State.enter, Function.update_self]
        exact unlinkEnd_link_head hs
      · refine (Function.update_of_ne hgr _ _).trans ?_
        simp only [State.enter, Function.update_of_ne hgr, Function.update_of_ne (hne g hg)]

/-- A component that is not open and that the root misses leaves no trace. -/
lemma tryOpen_first (h : Flat k s xs) {t : State} (hfalloc : falloc s.mem = (some f, t))
    (flag : UInt32) (hsecond : (falloc t).1.isSome) {name : List UInt8} {answer : Answer}
    (hret : answer.ret < 0) (hdir : searchable fsOpen s.mem s.mem.root = some true)
    (hmax : s.mem.reference s.mem.root ≠ 65535)
    (hsearch : search s.mem.next (fun g => s.mem.name g == name) MAX_FILE
      (s.mem.child s.mem.root) = none) {u : State}
    (hu : u = ({ t with flag := Function.update t.flag f flag } : State).setReference s.mem.root
      (s.mem.reference s.mem.root + 1)) :
    ∃ t₁, tryOpen fsOpen u s.mem.root none name flag answer = some (.error answer.ret, t₁) ∧
      SameFiles u t₁ ∧ t₁.child = u.child := by
  obtain ⟨hfree, -, -⟩ := falloc_spec hfalloc
  have hfr := h.ne_root hfree
  have ht := falloc_taken hfalloc flag
  have hdir' := (h.searchable_eq fsOpen ht (s.mem.reference s.mem.root + 1)).trans hdir
  rw [← hu] at hdir'
  have hsame : SameOn (fun g => s.mem.reference g ≠ 0) s.mem u :=
    hu ▸ ht.files.trans (.setReference _ _ _)
  have hchild : u.child = Function.update s.mem.child f none := hu ▸ ht.child_eq
  have hone : s.mem.reference s.mem.root + 1 ≠ 0 := fun he =>
    hmax (by rw [← UInt16.add_sub_cancel (s.mem.reference s.mem.root) 1, he]; rfl)
  have hroot : t.reference s.mem.root ≠ 0 := by
    have href := congrFun ht.reference_eq s.mem.root
    rw [Function.update_of_ne hfr.symm] at href
    exact href.trans_ne h.root_used
  have hzero : ∀ g, u.reference g = 0 ↔ t.reference g = 0 := by
    intro g
    rw [hu]
    by_cases hg : g = s.mem.root
    · subst hg
      simp [State.setReference, hone, hroot]
    · simp [State.setReference, Function.update_of_ne hg]
  have hcount : u.fileCount = t.fileCount := hu ▸ rfl
  obtain ⟨g, hg⟩ := Option.isSome_iff_exists.mp hsecond
  have hfalloc' : falloc u = (some g, (falloc u).2) :=
    Prod.ext ((falloc_congr hcount hzero).trans hg) rfl
  have hgfree : u.reference g = 0 := (falloc_spec hfalloc').1
  have hchildg : u.child g = none := by
    have hgr : g ≠ s.mem.root := by
      rintro rfl
      exact hroot ((hzero _).mp hgfree)
    rw [hchild]
    by_cases hgf : g = f
    · rw [hgf, Function.update_self]
    · rw [Function.update_of_ne hgf, h.child_eq g hgr]
  have hsearch' : search u.next (fun g => u.name g == name) MAX_FILE (u.child s.mem.root) = none := by
    have hused := h.used
    rw [hchild, Function.update_of_ne hfr.symm]
    rw [h.chain.head_eq, search_eq_find h.chain.linked h.length_le] at hsearch
    have hchain := h.chain.linked.visits.congr fun g hg => hsame.next_eq g (hused g hg)
    rw [h.chain.head_eq, hchain.search_eq_find h.length_le, List.find?_eq_none]
    intro g hg
    rw [hsame.name_eq g (hused g hg)]
    exact List.find?_eq_none.mp hsearch g hg
  exact tryOpen_missed flag hdir' hsearch' hfalloc' hret hchildg

/-- An open that reaches no defect keeps its law and the shape of the table. -/
lemma open_step (h : Flat k s xs) {path : List UInt8} (flag : UInt32) {answers : ℕ → Answer}
    (hok : openOk fsOpen s.mem path answers) :
    Law fsOpen s (.open path flag answers) ∧
      ∃ ys, Flat k (step fsOpen s (.open path flag answers)) ys := by
  have herror : ∀ {ret : Int32} {u : State}, vfsOpen fsOpen s.mem path flag answers =
      some (.error ret, u) → SameFiles s.mem u → Flat k { s with mem := u } xs →
      Law fsOpen s (.open path flag answers) ∧
        ∃ ys, Flat k (step fsOpen s (.open path flag answers)) ys := by
    intro ret u hopen hsame hflat
    refine ⟨⟨_, u, hopen, hsame⟩, xs, ?_⟩
    rw [step, hopen]
    exact hflat
  rcases hfalloc : falloc s.mem with ⟨_ | f, t⟩
  · obtain rfl := falloc_none hfalloc
    refine @herror (-ERR_NOMEM) s.mem ?_ ⟨rfl, .refl _⟩ h
    simp [vfsOpen, hfalloc]
  obtain ⟨hfree, hlt, -⟩ := falloc_spec hfalloc
  cases path with
  | nil => simp [openOk, hfalloc] at hok
  | cons c rest =>
    obtain ⟨name, tail, rfl, hname, htake, hdrop⟩ : ∃ name tail, rest = name ++ tail ∧
        SLASH ∉ name ∧ rest.takeWhile (· != SLASH) = name ∧ rest.dropWhile (· != SLASH) = tail :=
      ⟨_, _, (List.takeWhile_append_dropWhile).symm,
        fun hm => by simpa using List.all_eq_true.mp List.all_takeWhile _ hm, rfl, rfl⟩
    have hslash : ∀ d cs, tail = d :: cs → d = SLASH := by
      intro d cs htail
      have hhead := List.head?_dropWhile_not (· != SLASH) (name ++ tail)
      rw [hdrop, htail] at hhead
      simpa using hhead
    simp only [openOk, hfalloc, htake, hdrop, Bool.and_eq_true, beq_iff_eq, bne_iff_ne,
      decide_eq_true_eq] at hok
    obtain ⟨⟨⟨rfl, hmax⟩, hlen⟩, hok⟩ := hok
    have hdevice : searchable fsOpen s.mem s.mem.root ≠ none := by
      have hdev := h.device_root
      unfold searchable
      split_ifs
      · simp
      · simpa using hdev
    have hnopath : ∀ _ : searchable fsOpen s.mem s.mem.root = some false,
        tail = [] ∨ (name ≠ [] ∧ ∃ cs, tail = SLASH :: cs) → Law fsOpen s
          (.open (SLASH :: (name ++ tail)) flag answers) ∧ ∃ ys, Flat k (step fsOpen s
          (.open (SLASH :: (name ++ tail)) flag answers)) ys := by
      intro hdir htail
      have hdir' := (h.searchable_eq fsOpen (falloc_taken hfalloc flag)
        (s.mem.reference s.mem.root + 1)).trans hdir
      obtain ⟨u, hopen, hsame, hflat⟩ := h.open_error hfalloc hmax hname hlen htail (by decide)
        (tryOpen_noPath _ name flag (answers 1) hdir') ⟨rfl, .refl _⟩ rfl
      exact herror hopen hsame hflat
    cases tail with
    | nil =>
      cases hdir : searchable fsOpen s.mem s.mem.root with
      | none => exact absurd hdir hdevice
      | some b =>
        cases b with
        | false => exact hnopath hdir (.inl rfl)
        | true =>
          simp only [hdir, Bool.not_eq_true', decide_eq_false_iff_not] at hok
          have hopen := h.open_eq hfalloc hname hlen flag hok hdir
          have henter := h.enter hfree hmax name flag (answers 1)
          obtain ⟨u, hclose, hsame⟩ := h.close_enter hfree hmax name flag (answers 1)
          rw [List.append_nil]
          refine ⟨⟨_, _, hopen, u, ?_, hsame⟩, f :: xs, ?_⟩
          · exact vfsClose_eq (henter.fgetfile_eq List.mem_cons_self hlt) hclose
          · rw [step, hopen]
            exact henter
    | cons d cs =>
      obtain rfl := hslash d cs rfl
      cases hdir : searchable fsOpen s.mem s.mem.root with
      | none => exact absurd hdir hdevice
      | some b =>
        cases b with
        | false =>
          simp only [hdir] at hok
          exact hnopath hdir (.inr ⟨by simpa using hok, cs, rfl⟩)
        | true =>
          simp only [hdir, Bool.and_eq_true, decide_eq_true_eq] at hok
          obtain ⟨⟨⟨hne, hret⟩, hsecond⟩, hsearch⟩ := hok
          obtain ⟨t₁, htry, hsame₁, hchild₁⟩ := h.tryOpen_first hfalloc flag hsecond hret
            hdir hmax (by simpa using hsearch) rfl
          obtain ⟨u, hopen, hsame, hflat⟩ := h.open_error hfalloc hmax hname hlen
            (.inr ⟨by simpa using hne, cs, rfl⟩) hret htry hsame₁ hchild₁
          exact herror hopen hsame hflat

/-- Closing anything but the root keeps the shape of the table. -/
lemma close_step (h : Flat k s xs) {id : ℤ} (hid : id ≠ s.mem.root) :
    Law fsOpen s (.close id) ∧ ∃ ys, Flat k (step fsOpen s (.close id)) ys := by
  cases hfile : fgetfile s.mem id with
  | none =>
    have hclose : vfsClose s.mem id = some (-ERR_WRONGARG, s.mem) := by simp [vfsClose, hfile]
    refine ⟨⟨_, _, hclose⟩, xs, ?_⟩
    rw [step, hclose]
    exact h
  | some f =>
    have hspec := hfile
    rw [fgetfile] at hspec
    split_ifs at hspec with hc
    obtain ⟨hpos, -, hused⟩ := hc
    obtain rfl := Option.some.inj hspec
    have hf : id.toNat ∈ xs := by
      have hfr : id.toNat ≠ s.mem.root := by omega
      by_contra hf
      exact hused (by rw [h.reference_eq _ hfr, if_neg hf])
    obtain ⟨t, hfree, hflat⟩ := h.close hf
    have hclose := vfsClose_eq hfile hfree
    refine ⟨⟨0, t, hclose⟩, xs.erase id.toNat, ?_⟩
    rw [step, hclose]
    exact hflat

end Flat

/-! ## Runs -/

/-- After `vfs_init` only the root is in use. -/
lemma initial_flat (rootDev : Ptr) : Flat 1 ⟨State.initial rootDev, []⟩ [] where
  chain := .nil
  root_not_mem := List.not_mem_nil
  parent_root := rfl
  device_root := by simp [State.initial]
  parent_eq := by simp
  child_eq _ _ := rfl
  reference_eq f hf := by
    change f ≠ 0 at hf
    simp [State.initial, hf]
  reference_root := by simp [State.initial]
  opened_eq _ := rfl
  pos := Nat.one_pos

/-- What one event that reaches no defect keeps. -/
lemma flat_step (h : ∃ xs, Flat k s xs) {e : Event} (hok : StepOk fsOpen s e) :
    Law fsOpen s e ∧ ∃ ys, Flat k (step fsOpen s e) ys := by
  obtain ⟨xs, h⟩ := h
  cases e with
  | «open» path flag answers => exact h.open_step flag hok
  | close id => exact h.close_step hok

/-- In every run from `vfs_init` on whose events reach no defect, the counts are right in every
state, and every open and close keeps its law. -/
theorem run_counted (fsOpen : Ptr → Bool) (rootDev : Ptr) (es : List Event)
    (h : Guarded (step fsOpen) (StepOk fsOpen) ⟨State.initial rootDev, []⟩ es) :
    Counted 1 (run (step fsOpen) ⟨State.initial rootDev, []⟩ es) ∧
      Guarded (step fsOpen) (Law fsOpen) ⟨State.initial rootDev, []⟩ es := by
  have hstart : ∃ xs, Flat 1 ⟨State.initial rootDev, []⟩ xs := ⟨[], initial_flat rootDev⟩
  refine ⟨?_, ?_⟩
  · obtain ⟨xs, hflat⟩ := h.invariant (fun s => ∃ xs, Flat 1 s xs)
      (fun s e hs hok => (flat_step hs hok).2) hstart
    exact hflat.counted
  · exact h.law (fun s => ∃ xs, Flat 1 s xs) (fun s e hs hok => flat_step hs hok) hstart

/-- A file system that answers every open with `ret`. -/
def answer (ret : Int32) : ℕ → Answer := fun _ => ⟨ret, some 1, false, 0⟩

/-- Open `/x`, miss `/y/x`, close `/x`. -/
theorem run_counted_twice :
    Counted 1 (run (step fun _ => true) ⟨State.initial 1, []⟩
      [.open [47, 120] 0 (answer 0), .open [47, 121, 47, 120] 0 (answer (-1)), .close 1]) ∧
      Guarded (step fun _ => true) (Law fun _ => true) ⟨State.initial 1, []⟩
        [.open [47, 120] 0 (answer 0), .open [47, 121, 47, 120] 0 (answer (-1)), .close 1] :=
  run_counted (fun _ => true) 1 _ (by decide +kernel)

/-- When the last component is missing, the new entry is given back twice and the thread exits. -/
theorem run_not_counted :
    ¬ Guarded (step fun _ => true) (Law fun _ => true) ⟨State.initial 1, []⟩
      [.open [47, 120] 0 (answer (-1))] := by
  intro h
  obtain ⟨result, mem, hopen, -⟩ := h.1
  have hnone : (vfsOpen (fun _ => true) (State.initial 1) [47, 120] 0 (answer (-1))).isSome =
      false := by decide +kernel
  rw [hopen] at hnone
  cases hnone

end Sgos.Vfs
