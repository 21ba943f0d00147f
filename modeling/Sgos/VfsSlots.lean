import Sgos.FsManager
import Sgos.VfsPath
import Sgos.VfsTree

/-!
# Free entries of the file table

An entry is taken for each open, for each component that is not open yet, and for each file system
that is tried on a device. The history goes on after an open whose thread exits, since devices are
registered by another thread.
-/
namespace Sgos.Vfs.Slots
open LinkedChain GuardedRun Ancestry

inductive Event
  | open (path : List UInt8) (flag : UInt32) (answers : ℕ → Answer)
  | close (id : ℤ)
  | setup (answer : Answer)

/-- Some pointer of `f` leads to `g`. -/
def Adjacent (m : State) (f g : ℕ) : Prop :=
  m.parent f = some g ∨ m.child f = some g ∨ m.next f = some g ∨ m.prev f = some g

/-- Some entry is free. -/
def hasFree (m : State) : Bool := (firstFree m.reference MAX_FILE 0).isSome

/-- There is an entry for `falloc` to return. -/
def hasRoom (m : State) : Bool := decide (m.fileCount < MAX_FILE) && hasFree m

/-- `falloc` returns an entry whenever one is free, and none that an open file is linked to. -/
structure Sound (opened : List ℕ) (m : State) : Prop where
  available : (∃ f < MAX_FILE, m.reference f = 0) → ∃ f, (falloc m).1 = some f
  unreachable : ∀ f, (falloc m).1 = some f → ∀ g ∈ opened, ¬Relation.ReflTransGen (Adjacent m) g f

section Walk
variable (fsOpen : Ptr → Bool)

/-- `try_open` takes an entry for the component. -/
def takes (m : State) (cur : ℕ) (name : List UInt8) : Bool :=
  searchable fsOpen m cur == some true &&
    (search m.next (fun g => m.name g == name) MAX_FILE (m.child cur)).isNone

variable (f : ℕ) (answers : ℕ → Answer)

/-- The tables in which the walk over a path takes an entry. -/
def walkTables : List UInt8 → List UInt8 → ℕ → ℕ → State → List State
  | [], _, _, _, _ => []
  | c :: path, name, cur, i, m =>
    if c = SLASH then
      if name = [] then walkTables path [] m.root (i + 1) (m.entered m.root)
      else (if takes fsOpen m cur name then [m] else []) ++
        match tryOpen fsOpen m cur none name (m.flag f) (answers i) with
        | some (.ok next, m) => walkTables path [] next (i + 1) (m.entered next)
        | _ => []
    else if name.length + 1 < FILE_NAME_LEN then walkTables path (name ++ [c]) cur i m
    else []

/-- The walk reaches no defect: there is room for each component that is not open yet, no count and
no name overflows, and the root is counted before the walk ends. -/
def walkOk : List UInt8 → List UInt8 → ℕ → ℕ → Bool → State → Bool
  | [], _, _, _, counted, _ => counted
  | c :: path, name, cur, i, counted, m =>
    if c = SLASH then
      if name = [] then
        m.reference m.root != 65535 && walkOk path [] m.root (i + 1) true (m.entered m.root)
      else (!takes fsOpen m cur name || hasRoom m) &&
        match tryOpen fsOpen m cur none name (m.flag f) (answers i) with
        | some (.ok next, m) => m.reference next != 0 && m.reference next != 65535 &&
            walkOk path [] next (i + 1) counted (m.entered next)
        | some (.error _, _) => counted
        | none => true
    else decide (name.length + 1 < FILE_NAME_LEN) && walkOk path (name ++ [c]) cur i counted m

end Walk

section Step
variable (fsOpen : Ptr → Bool)

/-- The tables in which the components of an open take an entry. -/
def openTables (m : State) (path : List UInt8) (flag : UInt32) (answers : ℕ → Answer) :
    List State :=
  match falloc m with
  | (none, _) => []
  | (some f, m) =>
    let m := { m with flag := Function.update m.flag f flag }
    walkTables fsOpen f answers path [] m.root 0 m

def openOk (m : State) (path : List UInt8) (flag : UInt32) (answers : ℕ → Answer) : Bool :=
  match falloc m with
  | (none, _) => !hasFree m
  | (some f, m) =>
    let m := { m with flag := Function.update m.flag f flag }
    walkOk fsOpen f answers path [] m.root 0 false m

/-- The table after an open that does not return. The thread exits when it gives its entry back
after `try_open` has done so. -/
def exited (m : State) (path : List UInt8) (flag : UInt32) (answers : ℕ → Answer) : State :=
  match falloc m with
  | (none, m) => m
  | (some f, m) =>
    let m := { m with flag := Function.update m.flag f flag }
    match nameFile fsOpen f answers path [] m.root 0 m with
    | none => m
    | some (_, m) => m

def step (s : System) : Event → System
  | .open path flag answers =>
    match vfsOpen fsOpen s.mem path flag answers with
    | none => { s with mem := exited fsOpen s.mem path flag answers }
    | some (.error _, mem) => { s with mem }
    | some (.ok f, mem) => ⟨mem, f :: s.opened⟩
  | .close id =>
    match vfsClose s.mem id with
    | none => s
    | some (ret, mem) => ⟨mem, if ret < 0 then s.opened else s.opened.erase id.toNat⟩
  | .setup answer =>
    match tryFs true s.mem answer with
    | none => s
    | some (_, mem) => { s with mem }

/-- All calls of `falloc` are sound, and only `vfs_open` itself, which looks at the result, gets
none. -/
def Law (s : System) : Event → Prop
  | .open path flag answers => Sound s.opened s.mem ∧
      ∀ m ∈ openTables fsOpen s.mem path flag answers, Sound s.opened m ∧ ∃ f, (falloc m).1 = some f
  | .close _ => True
  | .setup _ => Sound s.opened s.mem ∧ ∃ f, (falloc s.mem).1 = some f

/-- The event reaches no defect. -/
def StepOk (s : System) : Event → Prop
  | .open path flag answers => openOk fsOpen s.mem path flag answers
  | .close id => (fgetfile s.mem id).all (· ∈ s.opened)
  | .setup _ => hasRoom s.mem && s.mem.reference s.mem.root != 65535

instance (s : System) : ∀ e : Event, Decidable (StepOk fsOpen s e)
  | .open path flag answers => inferInstanceAs
      (Decidable (openOk fsOpen s.mem path flag answers = true))
  | .close id => inferInstanceAs (Decidable ((fgetfile s.mem id).all (· ∈ s.opened) = true))
  | .setup _ => inferInstanceAs
      (Decidable ((hasRoom s.mem && s.mem.reference s.mem.root != 65535) = true))

end Step

variable {fsOpen : Ptr → Bool} {m : State} {uses : List ℕ} {own : ℕ → ℕ} {f g cur : ℕ}

/-! ## Taking entries -/

lemma firstFree_none {reference : ℕ → UInt16} {left id : ℕ}
    (h : firstFree reference left id = none) : ∀ f, id ≤ f → f < id + left → reference f ≠ 0 := by
  induction left generalizing id with
  | zero => exact fun f hf hlt => absurd hlt (by omega)
  | succ left ih =>
    rw [firstFree] at h
    split_ifs at h with hz
    intro f hf hlt
    by_cases hfid : f = id
    · rwa [hfid]
    · exact ih h f (by omega) (by omega)

lemma falloc_isSome (m : State) : (falloc m).1.isSome = hasRoom m := by
  rw [falloc, hasRoom, hasFree]
  by_cases hfull : m.fileCount ≥ MAX_FILE
  · rw [if_pos hfull, decide_eq_false (Nat.not_lt.mpr hfull)]
    rfl
  · rw [if_neg hfull, decide_eq_true (Nat.lt_of_not_le hfull)]
    cases firstFree m.reference MAX_FILE 0 <;> rfl

/-- A table in which there is room, or no entry is free, is sound as long as it is a forest. -/
lemma sound_of_forest (h : Forest m uses own) (hroom : hasRoom m ∨ ¬hasFree m) {opened : List ℕ}
    (hopened : ∀ g ∈ opened, g ∈ uses) : Sound opened m where
  available := by
    rintro ⟨f, hlt, hf⟩
    rcases hroom with hroom | hfree
    · rw [← falloc_isSome] at hroom
      exact Option.isSome_iff_exists.mp hroom
    · rw [hasFree, Bool.not_eq_true, Option.isSome_eq_false_iff, Option.isNone_iff_eq_none] at hfree
      exact absurd hf (firstFree_none hfree f (Nat.zero_le f) (by omega))
  unreachable f hf g hg hreach := by
    have hfree : m.reference f = 0 := (falloc_spec (Prod.ext hf rfl)).1
    obtain ⟨kids, above, htree⟩ := h
    cases hreach with
    | refl => exact Forest.used_of_mem ⟨kids, above, htree⟩ (hopened _ hg) hfree
    | tail _ hlast => exact htree.adjacent_used hlast hfree

/-! ## Opening a component -/

/-- What `try_open` and the file system leave in the file. -/
def fill (m : State) (f : ℕ) (name : List UInt8) (flag : UInt32) (answer : Answer) : State :=
  { m with
    flag := Function.update m.flag f flag
    name := Function.update m.name f name
    device := Function.update m.device f answer.device
    dir := Function.update m.dir f answer.dir
    attr := Function.update m.attr f answer.attr }

/-- A new file is given back when the file system misses it, and linked otherwise. -/
lemma openFile_eq (hf : m.parent f = none) (cur : ℕ) (name : List UInt8) (flag : UInt32)
    (answer : Answer) : openFile m cur f name flag answer =
      if answer.ret < 0 then
        (ffree MAX_FILE (fill m f name flag answer) f).map fun t => (.error answer.ret, t)
      else some (.ok f, flinkto (fill m f name flag answer) f cur) := by
  have hparent : Function.update m.parent f none = m.parent :=
    Function.update_eq_self_iff.mpr hf.symm
  rw [openFile]
  by_cases hret : answer.ret < 0
  · simp only [if_pos hret, State.setParent, Function.update_idem, hparent, fill]
  · simp only [if_neg hret, State.setParent, fill, flinkto, Function.update_idem]

lemma flinkto_parent (m : State) (f p : ℕ) :
    (flinkto m f p).parent = Function.update m.parent f (some p) := by
  simp only [flinkto, State.setChild, State.setPrev, State.setNext, State.setParent]
  cases m.child p <;> rfl

lemma flinkto_reference (m : State) (f p : ℕ) : (flinkto m f p).reference = m.reference := by
  simp only [flinkto, State.setChild, State.setPrev, State.setNext, State.setParent]
  cases m.child p <;> rfl

lemma flinkto_root (m : State) (f p : ℕ) : (flinkto m f p).root = m.root := by
  simp only [flinkto, State.setChild, State.setPrev, State.setNext, State.setParent]
  cases m.child p <;> rfl

lemma forest_fill (h : Forest m uses own) (f : ℕ) (name : List UInt8) (flag : UInt32)
    (answer : Answer) : Forest (fill m f name flag answer) uses own :=
  h.congr rfl rfl rfl rfl rfl rfl

lemma pending_fill (h : Pending m own g) (f : ℕ) (name : List UInt8) (flag : UInt32)
    (answer : Answer) : Pending (fill m f name flag answer) own g :=
  ⟨h.parent_eq, h.reference_eq, h.own_eq⟩

/-- New files other than `f` stay new. -/
lemma pending_flinkto (h : Pending m own g) (hne : g ≠ f) (p : ℕ) :
    Pending (flinkto m f p) own g where
  parent_eq := by
    rw [flinkto_parent, Function.update_of_ne hne]
    exact h.parent_eq
  reference_eq := by
    rw [flinkto_reference]
    exact h.reference_eq
  own_eq := h.own_eq

/-- The files that count as used while the walk is at `cur`. -/
def usesAt (counted : Bool) (cur : ℕ) (uses : List ℕ) : List ℕ :=
  if counted then cur :: uses else uses

/-- The outcome of a component: the walk is where it was, or it goes on from a file in use. -/
def Opened (m : State) (uses : List ℕ) (own : ℕ → ℕ) (counted : Bool) (cur : ℕ)
    (result : Except Int32 ℕ) (t : State) : Prop :=
  t.root = m.root ∧ (∀ g, Pending m own g → Pending t own g) ∧
    match result with
    | .error _ => Forest t (usesAt counted cur uses) own
    | .ok next => t.reference next ≠ 0 → Forest t (usesAt counted next uses) own ∧
        ∀ g, Pending m own g → g ≠ next

/-- A component that is not open takes an entry. -/
lemma openFile_opened {counted : Bool} (h : Forest m (usesAt counted cur uses) own)
    (hroot : 0 < own m.root) (hcur : 0 < own cur) {s t : State} (hf : falloc m = (some f, s))
    {name : List UInt8} {flag : UInt32} {answer : Answer} {result : Except Int32 ℕ}
    (hopen : openFile s cur f name flag answer = some (result, t)) :
    Opened m uses own counted cur result t := by
  obtain ⟨hforest, hpending, hsroot, hothers⟩ := h.falloc hf
  have hfill := forest_fill hforest f name flag answer
  have hnew := pending_fill hpending f name flag answer
  have hroot' : (fill s f name flag answer).root = m.root := hsroot
  rw [openFile_eq hpending.parent_eq] at hopen
  by_cases hret : answer.ret < 0
  · rw [if_pos hret] at hopen
    obtain ⟨u, hfree, hu, huroot, -, huothers⟩ := hfill.release
    have hstays : ∀ g, Pending m own g → Pending u own g := by
      intro g hg
      obtain ⟨hne, hg⟩ := hothers g hg
      obtain ⟨href, hparent⟩ := huothers g hne hg.own_eq
      exact ⟨hparent.trans hg.parent_eq, href.trans hg.reference_eq, hg.own_eq⟩
    rw [hfree, Option.map_some, Option.some.injEq, Prod.mk.injEq] at hopen
    obtain ⟨rfl, rfl⟩ := hopen
    exact ⟨huroot.trans hroot', hstays, hu⟩
  · rw [if_neg hret, Option.some.injEq, Prod.mk.injEq] at hopen
    obtain ⟨rfl, rfl⟩ := hopen
    refine ⟨(flinkto_root _ f cur).trans hroot', fun g hg => ?_, fun _ => ⟨?_, fun g hg => ?_⟩⟩
    · obtain ⟨hne, hg⟩ := hothers g hg
      exact pending_flinkto (pending_fill hg f name flag answer) hne cur
    · rw [← hroot'] at hroot
      cases counted with
      | true => exact hfill.flinkto hnew hroot hcur
      | false => exact hfill.flinkto_unused hnew hroot hcur
    · exact (hothers g hg).1

/-- What is found below a file has it as its parent. -/
lemma parent_of_search {kids above : ℕ → List ℕ} (h : Tree m uses own kids above) {q : ℕ → Bool}
    (hg : search m.next q MAX_FILE (m.child cur) = some g) : m.parent g = some cur := by
  have hchain := h.family.chain cur
  have hsub : kids cur ⊆ List.range MAX_FILE := by
    intro f hf
    refine List.mem_range.mpr (h.bound f (h.used f ?_))
    rw [(h.mem_kids cur f).mp hf]
    exact Option.some_ne_none cur
  have hlen := (hchain.nodup.subperm hsub).length_le
  rw [List.length_range] at hlen
  rw [hchain.head_eq, search_eq_find hchain.linked hlen] at hg
  exact (h.mem_kids cur g).mp (List.mem_of_find?_eq_some hg)

/-- A component that is open already takes the use over. -/
lemma found_opened {counted : Bool} (h : Forest m (usesAt counted cur uses) own) {q : ℕ → Bool}
    (hg : search m.next q MAX_FILE (m.child cur) = some g) :
    Opened m uses own counted cur (.ok g) (m.setReference g (m.reference g + 1)) := by
  obtain ⟨kids, above, h⟩ := h
  have hp := parent_of_search h hg
  have hused : m.reference g ≠ 0 := h.used g (by rw [hp]; exact Option.some_ne_none cur)
  have hne : ∀ f, Pending m own f → f ≠ g := by
    rintro f hf rfl
    rw [hf.parent_eq] at hp
    cases hp
  refine ⟨rfl, fun f hf => ⟨hf.parent_eq, ?_, hf.own_eq⟩, fun hnext => ⟨?_, hne⟩⟩
  · exact (Function.update_of_ne (hne f hf) _ _).trans hf.reference_eq
  · have hmax : m.reference g ≠ 65535 := by
      intro hmax
      have hwrap : (m.setReference g (m.reference g + 1)).reference g = m.reference g + 1 :=
        Function.update_self ..
      rw [hwrap, hmax] at hnext
      exact hnext rfl
    refine ⟨kids, above, h.count_up hused hmax (fun _ => le_rfl) fun x => ?_⟩
    cases counted with
    | false => simp only [usesAt, Bool.false_eq_true, if_false]; omega
    | true =>
      simp only [usesAt, if_true, load_cons, h.ancestry.up g cur hp, List.mem_cons]
      by_cases hx : x = g
      · simp [hx]
        omega
      · simp [hx]

/-- Opening a component keeps the forest, and new files stay new. -/
lemma tryOpen_opened {counted : Bool} (h : Forest m (usesAt counted cur uses) own)
    (hroot : 0 < own m.root) (hcur : 0 < own cur) {name : List UInt8} {flag : UInt32}
    {answer : Answer} {result : Except Int32 ℕ} {t : State}
    (hopen : tryOpen fsOpen m cur none name flag answer = some (result, t)) :
    Opened m uses own counted cur result t := by
  rw [tryOpen] at hopen
  obtain ⟨dir, -, hopen⟩ := Option.bind_eq_some_iff.mp hopen
  cases dir with
  | false =>
    obtain ⟨rfl, rfl⟩ : _ = result ∧ m = t := by simpa using hopen
    exact ⟨rfl, fun _ hg => hg, h⟩
  | true =>
    rw [Bool.not_true, if_neg Bool.false_ne_true] at hopen
    cases hsearch : search m.next (fun g => m.name g == name) MAX_FILE (m.child cur) with
    | some g =>
      simp only [hsearch, Option.some.injEq, Prod.mk.injEq] at hopen
      obtain ⟨rfl, rfl⟩ := hopen
      exact found_opened h hsearch
    | none =>
      rw [hsearch] at hopen
      rcases hf : falloc m with ⟨_ | f, s⟩
      · simp [hf] at hopen
      · simp only [hf] at hopen
        exact openFile_opened h hroot hcur hf hopen

/-- The walk goes on from a file, which keeps the count for itself. -/
lemma entered_forest (h : Forest m uses own) (hf : m.reference f ≠ 0)
    (hmax : m.reference f ≠ 65535) :
    Forest (m.entered f) uses (Function.update own f (own f + 1)) := by
  obtain ⟨kids, above, h⟩ := h
  refine ⟨kids, above, h.count_up hf hmax (fun g => ?_) fun g => ?_⟩
  · by_cases hg : g = f
    · simp [hg]
    · simp [hg]
  · by_cases hg : g = f
    · rw [hg, Function.update_self, if_pos rfl, Nat.add_assoc]
    · simp [hg]

/-- The root is counted for the walk. -/
lemma entered_root {counted : Bool} (h : Forest m (usesAt counted cur uses) own)
    (hroot : 0 < own m.root) (hmax : m.reference m.root ≠ 65535) :
    Forest (m.entered m.root) (m.root :: uses) own := by
  have hused := h.used_of_own hroot
  obtain ⟨kids, above, h⟩ := h
  refine ⟨kids, above, h.count_up hused hmax (fun _ => le_rfl) fun g => ?_⟩
  have hle : load above uses g ≤ load above (usesAt counted cur uses) g := by
    cases counted with
    | false => exact le_rfl
    | true =>
      simp only [usesAt, if_true, load_cons]
      exact Nat.le_add_right _ _
  simp only [load_cons, h.ancestry.top _ h.parent_root, List.mem_singleton]
  omega

/-- New files stay new when another file is counted. -/
lemma pending_entered (h : Pending m own g) (hne : g ≠ f) {own' : ℕ → ℕ} (hown : own' g = 0) :
    Pending (m.entered f) own' g where
  parent_eq := h.parent_eq
  reference_eq := (Function.update_of_ne hne _ _).trans h.reference_eq
  own_eq := hown

/-! ## Walking a path -/

/-- What a walk leaves: the new file is still to be given back or to be used, unless the walk failed
and gave it back. -/
def Left (f : ℕ) (opened : List ℕ) (ret : Int32) (t : State) : Prop :=
  ∃ own, 0 < own t.root ∧
    (Forest t (f :: opened) own ∨ ret < 0 ∧ t.reference f = 0 ∧ Forest t opened own)

variable {answers : ℕ → Answer} {opened : List ℕ} {i : ℕ} {path name : List UInt8}

/-- A walk that fails gives the file that it is at back. -/
lemma release_left (h : Forest m (cur :: f :: opened) own) (hroot : 0 < own m.root) (ret : Int32) :
    ∃ t, ffree MAX_FILE m cur = some t ∧ Left f opened ret t := by
  obtain ⟨t, hfree, ht, htroot, -⟩ := h.release
  exact ⟨t, hfree, own, htroot ▸ hroot, .inl ht⟩

/-- The last component. -/
lemma last_left (h : Forest m (cur :: f :: opened) own) (hroot : 0 < own m.root)
    (hcur : 0 < own cur) (hf : Pending m own f) {r : Int32 × State}
    (hr : nameFile fsOpen f answers [] name cur i m = some r) : Left f opened r.1 r.2 := by
  rw [nameFile, tryOpen] at hr
  cases hdir : searchable fsOpen m cur with
  | none => simp [hdir] at hr
  | some dir =>
    cases dir with
    | false =>
      obtain ⟨t, hfree, ht⟩ := release_left h hroot (-ERR_NOPATH)
      simp only [hdir, Option.bind_eq_bind, Option.bind_some, Bool.not_false, if_true, hfree,
        Option.map_some, Option.some.injEq] at hr
      exact hr ▸ ht
    | true =>
      simp only [hdir, Option.bind_eq_bind, Option.bind_some, Bool.not_true, Bool.false_eq_true,
        if_false, openFile_eq hf.parent_eq] at hr
      have hfill := (forest_fill h f name (m.flag f) (answers i)).perm (.swap f cur opened)
      have hnew := pending_fill hf f name (m.flag f) (answers i)
      by_cases hret : (answers i).ret < 0
      · obtain ⟨u, hfree, hu, huroot, huf, -⟩ := hfill.release
        obtain ⟨t, hfree', ht, htroot, -, hothers⟩ := hu.release
        rw [if_pos hret, hfree] at hr
        simp only [Option.map_some, Option.bind_some, hfree', Option.some.injEq] at hr
        subst hr
        refine ⟨own, ?_, .inr ⟨hret, ?_, ht⟩⟩
        · rwa [htroot, huroot]
        · rw [(hothers f (hf.ne hcur) hf.own_eq).1, huf, hnew.reference_eq]
          rfl
      · rw [if_neg hret] at hr
        simp only [Option.bind_some, Option.some.injEq] at hr
        subst hr
        refine ⟨own, ?_, .inl (hfill.flinkto hnew hroot hcur)⟩
        rwa [flinkto_root]

/-- In a walk that reaches no defect all entries are taken soundly. -/
lemma walk_sound {counted : Bool} (h : Forest m (usesAt counted cur (f :: opened)) own)
    (hroot : 0 < own m.root) (hcur : 0 < own cur) (hf : Pending m own f)
    (hok : walkOk fsOpen f answers path name cur i counted m) :
    (∀ t ∈ walkTables fsOpen f answers path name cur i m,
      Sound opened t ∧ ∃ g, (falloc t).1 = some g) ∧
    ∀ r, nameFile fsOpen f answers path name cur i m = some r → Left f opened r.1 r.2 := by
  induction path generalizing name cur i counted m own with
  | nil =>
    rw [walkOk] at hok
    rw [hok] at h
    exact ⟨by simp [walkTables], fun r hr => last_left h hroot hcur hf hr⟩
  | cons c path ih =>
    rw [walkOk] at hok
    rw [walkTables, nameFile]
    by_cases hslash : c = SLASH
    · simp only [if_pos hslash] at hok ⊢
      by_cases hname : name = []
      · simp only [if_pos hname, Bool.and_eq_true, bne_iff_ne] at hok ⊢
        have hroot' := entered_root h hroot hok.1
        exact @ih _ _ m.root _ _ true hroot' hroot hroot
          (pending_entered hf (hf.ne hroot) hf.own_eq) hok.2
      · simp only [if_neg hname, Bool.and_eq_true] at hok ⊢
        obtain ⟨hroom, hok⟩ := hok
        have htakes : ∀ t ∈ (if takes fsOpen m cur name then [m] else []),
            Sound opened t ∧ ∃ g, (falloc t).1 = some g := by
          intro t ht
          split_ifs at ht with htakes
          · obtain rfl := List.mem_singleton.mp ht
            have hroom : hasRoom t := by simpa [htakes] using hroom
            refine ⟨sound_of_forest h (.inl hroom) fun g hg => ?_, ?_⟩
            · cases counted <;> simp [usesAt, hg]
            · exact Option.isSome_iff_exists.mp (by rwa [falloc_isSome])
          · cases ht
        cases hopen : tryOpen fsOpen m cur none name (m.flag f) (answers i) with
        | none => exact ⟨by simpa using htakes, by simp⟩
        | some out =>
          obtain ⟨result, t⟩ := out
          obtain ⟨htroot, hpending, hresult⟩ := tryOpen_opened h hroot hcur hopen
          rw [hopen] at hok
          rw [← htroot] at hroot
          cases result with
          | error ret =>
            rw [show counted = true from hok] at hresult
            obtain ⟨u, hfree, hu⟩ := release_left hresult hroot ret
            refine ⟨by simpa using htakes, fun r hr => ?_⟩
            simp only [Option.bind_eq_bind, Option.bind_some, hfree, Option.map_some,
              Option.some.injEq] at hr
            exact hr ▸ hu
          | ok next =>
            simp only [Bool.and_eq_true, bne_iff_ne] at hok
            obtain ⟨⟨hused, hmax⟩, hok⟩ := hok
            obtain ⟨hforest, hne⟩ := hresult hused
            have hnext := hne f hf
            have hown : Function.update own next (own next + 1) f = 0 :=
              (Function.update_of_ne hnext _ _).trans hf.own_eq
            have hrest := @ih (t.entered next) (Function.update own next (own next + 1)) next
              (i + 1) [] counted (entered_forest hforest hused hmax) ?_ ?_
              (pending_entered (hpending f hf) hnext hown) hok
            · refine ⟨fun s hs => ?_, hrest.2⟩
              rcases List.mem_append.mp hs with hs | hs
              · exact htakes s hs
              · exact hrest.1 s hs
            · by_cases hr : (t.entered next).root = next
              · simp [hr]
              · rw [Function.update_of_ne hr]
                exact hroot
            · simp
    · simp only [if_neg hslash, Bool.and_eq_true, decide_eq_true_eq] at hok ⊢
      simp only [if_pos hok.1]
      exact ih h hroot hcur hf hok.2

/-! ## Runs -/

/-- The files in use form a forest, which counts the open files, and the root keeps a count. -/
def Inv (s : System) : Prop := ∃ own, 0 < own s.mem.root ∧ Forest s.mem s.opened own

lemma open_step {s : System} (h : Inv s) {flag : UInt32}
    (hok : openOk fsOpen s.mem path flag answers) :
    Law fsOpen s (.open path flag answers) ∧ Inv (step fsOpen s (.open path flag answers)) := by
  obtain ⟨own, hroot, h⟩ := h
  rcases hf : falloc s.mem with ⟨_ | f, t⟩
  · obtain rfl := falloc_none hf
    have hfree : ¬hasFree s.mem := by simpa [openOk, hf] using hok
    refine ⟨⟨sound_of_forest h (.inr hfree) fun _ => id, by simp [openTables, hf]⟩, own, ?_⟩
    simpa [step, vfsOpen, hf] using ⟨hroot, h⟩
  · obtain ⟨hforest, hpending, htroot, -⟩ := h.falloc hf
    have hroom : hasRoom s.mem := by
      rw [← falloc_isSome, hf]
      rfl
    have hopen := vfsOpen_eq fsOpen hf path flag answers
    simp only [openOk, hf] at hok
    simp only [Law, openTables, step, exited, hopen, hf]
    generalize hu : ({ t with flag := Function.update t.flag f flag } : State) = u at hok
    have hut : t.root = u.root := by rw [← hu]
    rw [hut] at hok htroot ⊢
    have huroot : 0 < own u.root := htroot ▸ hroot
    have hforest : Forest u (f :: s.opened) own := hu ▸ hforest.congr rfl rfl rfl rfl rfl rfl
    have hpending : Pending u own f :=
      hu ▸ ⟨hpending.parent_eq, hpending.reference_eq, hpending.own_eq⟩
    obtain ⟨htables, hleft⟩ := @walk_sound fsOpen u own f u.root answers s.opened 0 path [] false
      hforest huroot huroot hpending hok
    refine ⟨⟨sound_of_forest h (.inl hroom) fun _ => id, htables⟩, ?_⟩
    cases hname : nameFile fsOpen f answers path [] u.root 0 u with
    | none => exact ⟨own, huroot, hforest.drop⟩
    | some r =>
      obtain ⟨ret, v⟩ := r
      obtain ⟨own', hvroot, hv⟩ := hleft _ hname
      by_cases hret : ret < 0
      · rcases hv with hv | ⟨-, hvf, hv⟩
        · obtain ⟨w, hfree, hw, hwroot, -⟩ := hv.release
          simp only [Option.bind_eq_bind, Option.bind_some, if_pos hret, hfree, Option.map_some]
          exact ⟨own', hwroot ▸ hvroot, hw⟩
        · have hfree : ffree MAX_FILE v f = none := by
            rw [show MAX_FILE = 65535 + 1 from rfl, ffree, if_pos hvf]
          simp only [Option.bind_eq_bind, Option.bind_some, if_pos hret, hfree, Option.map_none]
          exact ⟨own', hvroot, hv⟩
      · simp only [Option.bind_eq_bind, Option.bind_some, if_neg hret]
        exact ⟨own', hvroot, hv.resolve_right fun hv => hret hv.1⟩

lemma close_step {s : System} (h : Inv s) {id : ℤ}
    (hok : (fgetfile s.mem id).all (· ∈ s.opened)) : Inv (step fsOpen s (.close id)) := by
  obtain ⟨own, hroot, h⟩ := h
  cases hfile : fgetfile s.mem id with
  | none =>
    have hclose : vfsClose s.mem id = some (-ERR_WRONGARG, s.mem) := by simp [vfsClose, hfile]
    rw [step, hclose]
    exact ⟨own, hroot, h⟩
  | some f =>
    have hmem : f ∈ s.opened := by simpa [hfile] using hok
    have hid : f = id.toNat := by
      rw [fgetfile] at hfile
      split_ifs at hfile
      exact (Option.some.inj hfile).symm
    subst hid
    obtain ⟨t, hfree, ht, htroot, -⟩ := (h.perm (List.perm_cons_erase hmem)).release
    rw [step, vfsClose_eq hfile hfree]
    exact ⟨own, htroot ▸ hroot, ht⟩

lemma setup_step {s : System} (h : Inv s) {answer : Answer} (hroom : hasRoom s.mem)
    (hmax : s.mem.reference s.mem.root ≠ 65535) :
    Law fsOpen s (.setup answer) ∧ Inv (step fsOpen s (.setup answer)) := by
  obtain ⟨own, hroot, h⟩ := h
  have hsome : ∃ f, (falloc s.mem).1 = some f :=
    Option.isSome_iff_exists.mp (by rwa [falloc_isSome])
  refine ⟨⟨sound_of_forest h (.inl hroom) fun _ => id, hsome⟩, ?_⟩
  rcases hf : falloc s.mem with ⟨_ | f, t⟩
  · simp [hf] at hsome
  · obtain ⟨hforest, hpending, htroot, -⟩ := h.falloc hf
    have hne := hpending.ne hroot
    have hmax' : t.reference t.root ≠ 65535 := by
      obtain ⟨-, -, rfl⟩ := falloc_spec hf
      simpa [State.setReference, State.clear, hne.symm] using hmax
    rw [← htroot] at hroot
    have hcounted := @entered_root t (f :: s.opened) own f false hforest hroot hmax'
    have hlinked := (hcounted.perm (.swap f t.root s.opened)).flinkto
      (pending_entered hpending (hpending.ne hroot) hpending.own_eq) hroot hroot
    generalize hu : (flinkto (t.entered t.root) f t.root).setup f answer = u
    have huroot : u.root = t.root := by
      rw [← hu]
      exact flinkto_root _ _ _
    have hforest : Forest u (f :: s.opened) own := hu ▸ hlinked.congr rfl rfl rfl rfl rfl rfl
    have htry : tryFs true s.mem answer = if answer.ret = 0 then some (some f, u)
        else (ffree MAX_FILE u f).map fun s => (none, s) := by
      rw [← hu]
      simp [tryFs, devFile, hf, State.entered]
    rw [step, htry]
    by_cases hret : answer.ret = 0
    · rw [if_pos hret]
      refine ⟨_, ?_, hforest.keep⟩
      by_cases hr : u.root = f
      · simp [hr]
      · rw [Function.update_of_ne hr]
        exact huroot ▸ hroot
    · obtain ⟨v, hfree, hv, hvroot, -⟩ := hforest.release
      have hvr : v.root = t.root := hvroot.trans huroot
      rw [if_neg hret, hfree]
      exact ⟨own, hvr.symm ▸ hroot, hv⟩

/-- What one event that reaches no defect keeps. -/
lemma slots_step {s : System} (h : Inv s) {e : Event} (hok : StepOk fsOpen s e) :
    Law fsOpen s e ∧ Inv (step fsOpen s e) := by
  cases e with
  | «open» path flag answers => exact open_step h hok
  | close id => exact ⟨trivial, close_step h hok⟩
  | setup answer =>
    obtain ⟨hroom, hmax⟩ := Bool.and_eq_true_iff.mp hok
    exact setup_step h hroom (by simpa using hmax)

/-- After `vfs_init` only the root is in use. -/
lemma initial_inv (rootDev : Ptr) : Inv ⟨State.initial rootDev, []⟩ := by
  refine ⟨Function.update (fun _ => 0) 0 1, by simp [State.initial], fun _ => [], fun f => [f], ?_⟩
  exact
    { family := family_nil
      mem_kids := by simp [State.initial]
      ancestry := ⟨fun _ _ => rfl, by simp [State.initial], fun f => List.nodup_singleton f⟩
      alone := fun _ _ => ⟨rfl, rfl⟩
      count := fun f => by
        by_cases hf : f = 0
        · simp [State.initial, hf]
        · simp [State.initial, hf]
      used := by simp [State.initial]
      own_pos := by simp [State.initial]
      parent_root := rfl
      bound := fun f hf => by
        by_contra hlt
        have hne : f ≠ 0 := fun he => hlt (he ▸ by decide)
        exact hf (by simp [State.initial, hne]) }

/-- In every run from `vfs_init` on whose events reach no defect, `falloc` returns an entry whenever
one is free, none that an open file is linked to, and one where its result is not looked at. -/
theorem run_sound (fsOpen : Ptr → Bool) (rootDev : Ptr) (es : List Event)
    (h : Guarded (step fsOpen) (StepOk fsOpen) ⟨State.initial rootDev, []⟩ es) :
    Guarded (step fsOpen) (Law fsOpen) ⟨State.initial rootDev, []⟩ es :=
  h.law Inv (fun _ _ hs hok => slots_step hs hok) (initial_inv rootDev)

/-- Install a file system, open `/x/y` and `/x/z`, close both, miss `/w`. -/
theorem run_sound_tree :
    Guarded (step fun _ => true) (Law fun _ => true) ⟨State.initial 1, []⟩
      [.setup ⟨0, some 2, true, 0⟩, .open [47, 120, 47, 121] 0 fun _ => ⟨0, some 1, true, 0⟩,
        .open [47, 120, 47, 122] 0 fun _ => ⟨0, some 1, true, 0⟩, .close 2, .close 4,
        .open [47, 119] 0 (answer (-1))] :=
  run_sound (fun _ => true) 1 _ (by decide +kernel)

/-! ## The allocations are used up -/

/-- Open `/x` and close it. -/
def openClose : List Event := [.open [47, 120] 0 (answer 0), .close 1]

/-- Only the root is in use, after `n` allocations. -/
structure Quiet (n : ℕ) (s : System) : Prop where
  flat : Flat 1 s []
  root_eq : s.mem.root = 0
  count_eq : s.mem.fileCount = n
  searchable_eq : searchable (fun _ => true) s.mem 0 = some true

lemma Quiet.free {n : ℕ} {s : System} (h : Quiet n s) : s.mem.reference 1 = 0 := by
  rw [h.flat.reference_eq 1 (by rw [h.root_eq]; decide), if_neg List.not_mem_nil]

/-- An open and a close leave nothing behind but the allocation. -/
lemma Quiet.pair {n : ℕ} {s : System} (h : Quiet n s) (hn : n < MAX_FILE) :
    Quiet (n + 1) (run (step fun _ => true) s openClose) := by
  have hroot := h.root_eq
  have hused : s.mem.reference 0 ≠ 0 := hroot ▸ h.flat.root_used
  have hfirst : firstFree s.mem.reference (65534 + 1 + 1) 0 = some 1 := by
    rw [firstFree, if_neg hused, firstFree, if_pos h.free]
  have hfalloc : falloc s.mem = (some 1, (falloc s.mem).2) := by
    rw [falloc, if_neg (by rw [h.count_eq]; omega)]
    simp only [show MAX_FILE = 65534 + 1 + 1 from rfl, hfirst]
  have hmax : s.mem.reference s.mem.root ≠ 65535 := by
    intro he
    have hone := h.flat.reference_root
    rw [he] at hone
    cases hone
  have hopen : vfsOpen (fun _ => true) s.mem [47, 120] 0 (answer 0) =
      some (.ok 1, s.mem.enter 1 [120] 0 (answer 0 1)) :=
    h.flat.open_eq hfalloc (by decide) (by decide) 0 (by decide) (hroot ▸ h.searchable_eq)
  have henter := h.flat.enter h.free hmax [120] 0 (answer 0 1)
  obtain ⟨t, hfree, hflat⟩ := henter.close List.mem_cons_self
  have heq := hfree.symm.trans (henter.ffree_eq List.mem_cons_self)
  have hclose := vfsClose_eq (henter.fgetfile_eq List.mem_cons_self (by decide)) hfree
  have hrun : run (step fun _ => true) s openClose = ⟨t, (1 :: s.opened).erase 1⟩ := by
    rw [openClose, run_cons, step, hopen]
    simp only [run_cons, run_nil, step]
    rw [show ((1 : ℤ)) = ((1 : ℕ) : ℤ) from rfl, hclose]
    rfl
  rw [hrun]
  refine ⟨by simpa using hflat, ?_, ?_, ?_⟩ <;> rw [Option.some.inj heq]
  · exact hroot
  · exact congrArg (· + 1) h.count_eq
  · simpa [searchable, State.enter] using h.searchable_eq

/-- After as many opens and closes as there are entries nothing can be opened any more. -/
theorem not_run_sound : ¬Guarded (step fun _ => true) (Law fun _ => true) ⟨State.initial 1, []⟩
    ((List.replicate 65535 openClose).flatten ++ [.open [47, 120] 0 (answer 0)]) := by
  have hquiet : ∀ k < 65536, Quiet (k + 1)
      (run (step fun _ => true) ⟨State.initial 1, []⟩ (List.replicate k openClose).flatten) := by
    intro k hk
    induction k with
    | zero => exact ⟨initial_flat 1, rfl, rfl, by decide⟩
    | succ k ih =>
      rw [List.replicate_succ', List.flatten_append, run_append]
      simpa using (ih (by omega)).pair (by rw [MAX_FILE]; omega)
  intro h
  have hend := hquiet 65535 (by decide)
  rw [guarded_append] at h
  generalize run (step fun _ => true) ⟨State.initial 1, []⟩
    (List.replicate 65535 openClose).flatten = s at h hend
  obtain ⟨f, hf⟩ := h.2.1.1.available ⟨1, by decide, hend.free⟩
  rw [falloc, if_pos (by rw [hend.count_eq]; decide)] at hf
  cases hf

end Sgos.Vfs.Slots
