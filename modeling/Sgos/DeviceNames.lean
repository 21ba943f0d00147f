import Sgos.Device
import Sgos.VfsCounts

/-!
# Names of registered devices

As long as each device gets memory, a file system and a name that no other device has, all devices
have different names and are found by them.
-/
namespace Sgos.Device
open Vfs GuardedRun LinkedChain

/-- The files of the devices that have a file system. -/
def devFiles (s : State) : List ℕ := s.deviceList.filterMap fun d => d.bind Dev.devFile

/-- Device `i` has a file of this name. -/
def Named (s : State) (name : List UInt8) (i : ℕ) : Prop :=
  ∃ f, (s.deviceList[i]?.join.bind Dev.devFile) = some f ∧ s.files.name f = name

/-- The names are different and not empty, and each device is found by its name. -/
structure Good (s : State) : Prop where
  distinct : ((devFiles s).map s.files.name).Nodup
  nonempty : ∀ f ∈ devFiles s, s.files.name f ≠ []
  find : ∀ name, ∃ r, deviceFind s.files none name s.deviceList 0 = some r ∧
    ∀ i, r = some i ↔ Named s name i

def step (s : State) (c : Call) : State := ((deviceRegister s c).map Prod.snd).getD s

/-- The registration uses no null pointer, and leaves all names in order. -/
def Law (s : State) (c : Call) : Prop := (deviceRegister s c).isSome ∧ Good (step s c)

/-- Some device has this name. -/
def taken (s : State) (name : List UInt8) : Bool := (devFiles s).any fun f => s.files.name f == name

/-- There is a name for the new device. -/
def nameOk (s : State) (c : Call) : Bool :=
  if c.type = DEV_TYPE_ROOT then !taken s [SLASH]
  else (List.range 24).any (fun k => !taken s (diskName (99 + k.toUInt8))) ||
    decide ((driverName c.name c.part).length < FILE_NAME_LEN) &&
      !taken s (driverName c.name c.part)

/-- The device is registered already, or the list is full, or the device gets memory, a file system
and a name. -/
def StepOk (s : State) (c : Call) : Prop :=
  registered c.thread c.part s.deviceList = some true ∨ s.deviceList.length ≥ MAX_DEVICE ∨
    c.memory ∧ (c.answers.any fun a => a.ret == 0) ∧ nameOk s c

instance (s : State) (c : Call) : Decidable (StepOk s c) :=
  inferInstanceAs (Decidable (_ ∨ _ ∨ _ ∧ _ ∧ _))

/-- The files of the devices are right below the root, among the first entries of the table. -/
structure Table (m : Vfs.State) (xs : List ℕ) : Prop where
  flat : Flat 1 ⟨m, xs⟩ xs
  below : ∀ f ∈ m.root :: xs, f < m.fileCount

/-- Each device has a file, the root device being the first. -/
structure Inv (s : State) (xs : List ℕ) : Prop where
  table : Table s.files xs
  hasRoot : s.hasRoot = true
  listed : s.deviceList.map (fun d => d.bind Dev.devFile) = (s.files.root :: xs.reverse).map some
  distinct : ((s.files.root :: xs.reverse).map s.files.name).Nodup
  nonempty : ∀ f ∈ s.files.root :: xs.reverse, s.files.name f ≠ []
  few : s.files.fileCount ≤ MAX_FS * s.deviceList.length

variable {s : State} {m t : Vfs.State} {xs fs : List ℕ} {devs : List (Option Dev)} {c : Call}
  {name : List UInt8} {f : ℕ}

/-! ## Searching -/

/-- When all devices have files, the search goes over the files. -/
lemma deviceFind_eq (h : devs.map (fun d => d.bind Dev.devFile) = fs.map some) (m : Vfs.State)
    (self : Option ℕ) (name : List UInt8) (i : ℕ) :
    deviceFind m self name devs i =
      some ((fs.findIdx? fun f => self ≠ some f ∧ m.name f = name).map (· + i)) := by
  induction devs generalizing fs i with
  | nil =>
    obtain rfl : fs = [] := by simpa using h.symm
    rfl
  | cons d devs ih =>
    cases fs with
    | nil => simp at h
    | cons f fs =>
      obtain ⟨hd, hrest⟩ := List.cons.inj h
      obtain ⟨dev, rfl, hdev⟩ := Option.bind_eq_some_iff.mp hd
      rw [deviceFind, hdev, List.findIdx?_cons]
      dsimp only
      by_cases hname : self ≠ some f ∧ m.name f = name
      · rw [if_pos hname, if_pos (decide_eq_true hname), Option.map_some, Nat.zero_add]
      · rw [if_neg hname, if_neg (by simpa using hname), ih hrest, Option.map_map]
        congr 2
        funext j
        simp only [Function.comp]
        omega

lemma registered_some (h : devs.map (fun d => d.bind Dev.devFile) = fs.map some)
    (thread part : UInt32) : ∃ b, registered thread part devs = some b := by
  induction devs generalizing fs with
  | nil => exact ⟨false, rfl⟩
  | cons d devs ih =>
    cases fs with
    | nil => simp at h
    | cons f fs =>
      obtain ⟨hd, hrest⟩ := List.cons.inj h
      obtain ⟨dev, rfl, -⟩ := Option.bind_eq_some_iff.mp hd
      rw [registered]
      split_ifs
      · exact ⟨true, rfl⟩
      · exact ih hrest

lemma Inv.devFiles_eq (h : Inv s xs) : devFiles s = s.files.root :: xs.reverse := by
  have hids : devFiles s = (s.deviceList.map fun d => d.bind Dev.devFile).filterMap id := by
    rw [devFiles, List.filterMap_map]
    rfl
  rw [hids, h.listed, List.filterMap_map]
  simp

lemma Inv.length_eq (h : Inv s xs) : s.deviceList.length = xs.length + 1 := by
  have hlen := congrArg List.length h.listed
  simpa using hlen

/-- Every device is found by its name. -/
lemma Inv.good (h : Inv s xs) : Good s where
  distinct := h.devFiles_eq ▸ h.distinct
  nonempty := h.devFiles_eq ▸ h.nonempty
  find name := by
    refine ⟨_, deviceFind_eq h.listed s.files none name 0, fun i => ?_⟩
    have hdev : s.deviceList[i]?.join.bind Dev.devFile = (s.files.root :: xs.reverse)[i]? := by
      have hi := congrArg (fun l => l[i]?) h.listed
      simp only [List.getElem?_map] at hi
      cases hd : s.deviceList[i]? with
      | none =>
        rw [hd, Option.map_none] at hi
        simpa using (Option.map_eq_none_iff.mp hi.symm).symm
      | some d =>
        rw [hd, Option.map_some] at hi
        obtain ⟨f, hf, he⟩ := Option.map_eq_some_iff.mp hi.symm
        rw [hf]
        exact he.symm
    have hnames := h.distinct
    rw [Named, hdev]
    generalize s.files.root :: xs.reverse = fs at hnames
    simp only [ne_eq, reduceCtorEq, not_false_eq_true, true_and, Nat.add_zero, Option.map_id',
      List.findIdx?_eq_some_iff_getElem, decide_eq_true_eq]
    constructor
    · rintro ⟨hi, hname, -⟩
      exact ⟨fs[i], List.getElem?_eq_getElem hi, hname⟩
    · rintro ⟨f, hf, hname⟩
      obtain ⟨hi, rfl⟩ := List.getElem?_eq_some_iff.mp hf
      refine ⟨hi, hname, fun j hj hname' => ?_⟩
      have hlt : j < (fs.map s.files.name).length := by
        rw [List.length_map]
        omega
      have hlt' : i < (fs.map s.files.name).length := by rwa [List.length_map]
      have hsame : (fs.map s.files.name)[j] = (fs.map s.files.name)[i] := by
        rw [List.getElem_map, List.getElem_map, hname', hname]
      exact Nat.ne_of_lt hj ((hnames.getElem_inj_iff).mp hsame)

/-! ## Trying file systems -/

/-- The first free entry is not behind a free one. -/
lemma firstFree_le {reference : ℕ → UInt16} {left id g : ℕ} (hg : reference g = 0) (hid : id ≤ g)
    (hlt : g < id + left) : ∃ f, firstFree reference left id = some f ∧ f ≤ g := by
  induction left generalizing id with
  | zero => omega
  | succ left ih =>
    rw [firstFree]
    split_ifs with hz
    · exact ⟨id, rfl, hid⟩
    · have hne : id ≠ g := fun he => hz (he ▸ hg)
      exact ih (by omega) (by omega)

lemma Table.falloc (h : Table m xs) (hcount : m.fileCount < MAX_FILE) :
    ∃ f t, falloc m = (some f, t) ∧ f ≤ m.fileCount := by
  have hfree : m.reference m.fileCount = 0 := by
    have hroot : m.fileCount ≠ m.root := fun he =>
      absurd (h.below m.root List.mem_cons_self) (by omega)
    have hout : m.fileCount ∉ xs := fun hm =>
      absurd (h.below _ (List.mem_cons_of_mem _ hm)) (by omega)
    exact (h.flat.reference_eq m.fileCount hroot).trans (if_neg hout)
  obtain ⟨f, hf, hle⟩ := firstFree_le hfree (Nat.zero_le _) (by omega : m.fileCount < 0 + MAX_FILE)
  have hsome : (Vfs.falloc m).1 = some f := by rw [Vfs.falloc, if_neg (by omega), hf]
  exact ⟨f, (Vfs.falloc m).2, Prod.ext hsome rfl, hle⟩

/-- A device file is a file right below the root. -/
lemma devFile_setup (h : Flat 1 ⟨m, xs⟩ xs) (hf : falloc m = (some f, t)) (answer : Answer) :
    ∃ u, devFile true m = some (f, u) ∧ u.setup f answer = m.enter f [] 0 answer := by
  refine ⟨flinkto (t.setReference t.root (t.reference t.root + 1)) f t.root, ?_, ?_⟩
  · simp [devFile, hf]
  · obtain ⟨hfree, -, rfl⟩ := falloc_spec hf
    have hfr : f ≠ m.root := h.ne_root hfree
    have hhead : m.child m.root = xs.head? := h.chain.head_eq
    have hchild : m.child m.root ≠ some f := by
      rw [hhead]
      exact fun he => h.not_mem hfree (List.mem_of_head? he)
    rw [flinkto_eq]
    · simp [State.setup, State.enter, State.setReference, State.clear,
        Function.update_of_ne hfr.symm]
    · simpa [State.setReference, State.clear, Function.update_of_ne hfr.symm]

/-- A file system is set up on a new entry, or the entry is given back. -/
lemma tryFs_table (h : Table m xs) (hcount : m.fileCount < MAX_FILE) (hlen : xs.length < MAX_DEVICE)
    (answer : Answer) : ∃ f t,
      tryFs true m answer = some (if answer.ret = 0 then some f else none, t) ∧
      Table t (if answer.ret = 0 then f :: xs else xs) ∧ t.root = m.root ∧
      t.fileCount = m.fileCount + 1 ∧ t.name = Function.update m.name f [] ∧ f ∉ m.root :: xs := by
  obtain ⟨f, t, hf, hle⟩ := h.falloc hcount
  obtain ⟨hfree, -, -⟩ := falloc_spec hf
  obtain ⟨u, hdev, hsetup⟩ := devFile_setup h.flat hf answer
  have hfr : f ≠ m.root := h.flat.ne_root hfree
  have hout : f ∉ xs := h.flat.not_mem hfree
  have hmax : m.reference m.root ≠ 65535 := by
    intro he
    have hroot : (m.reference m.root).toNat = 1 + xs.length := h.flat.reference_root
    rw [he] at hroot
    rw [MAX_DEVICE] at hlen
    simp at hroot
    omega
  have henter := h.flat.enter hfree hmax [] 0 answer
  have hbelow : ∀ g ∈ m.root :: xs, g < m.fileCount + 1 :=
    fun g hg => (h.below g hg).trans (by omega)
  have hmem : f ∉ m.root :: xs := List.not_mem_cons_of_ne_of_not_mem hfr hout
  have htry : tryFs true m answer = if answer.ret = 0 then some (some f, m.enter f [] 0 answer)
      else (ffree MAX_FILE (m.enter f [] 0 answer) f).map fun s => (none, s) := by
    rw [tryFs, hdev]
    simp [hsetup]
  rw [htry]
  by_cases hret : answer.ret = 0
  · simp only [if_pos hret]
    refine ⟨f, _, rfl, ⟨henter, fun g hg => ?_⟩, rfl, rfl, rfl, hmem⟩
    change g ∈ m.root :: f :: xs at hg
    simp only [List.mem_cons] at hg hbelow
    rcases hg with rfl | rfl | hg
    · exact hbelow _ (.inl rfl)
    · exact Nat.lt_succ_of_le hle
    · exact hbelow g (.inr hg)
  · simp only [if_neg hret]
    obtain ⟨u, hback, hflat⟩ := henter.close List.mem_cons_self
    have heq := hback.symm.trans (henter.ffree_eq List.mem_cons_self)
    rw [hback]
    simp only [List.erase_cons_head] at hflat
    refine ⟨f, u, rfl, ⟨hflat, fun g hg => ?_⟩, ?_⟩
    · rw [Option.some.inj heq] at hg ⊢
      exact hbelow g hg
    · rw [Option.some.inj heq]
      exact ⟨rfl, rfl, rfl, hmem⟩

/-- The names of the listed files stay, and a new file has none yet. -/
lemma fsDetect_table (h : Table m xs) {answers : List Answer}
    (hcount : m.fileCount + answers.length ≤ MAX_FILE) (hlen : xs.length < MAX_DEVICE) :
    ∃ r t, fsDetect true m answers = some (r, t) ∧
      Table t (r.toList ++ xs) ∧ t.root = m.root ∧ t.fileCount ≤ m.fileCount + answers.length ∧
      (∀ g ∈ m.root :: xs, t.name g = m.name g) ∧
      (∀ f ∈ r, t.name f = [] ∧ f ∉ m.root :: xs) ∧
      r.isSome = answers.any fun a => a.ret == 0 := by
  induction answers generalizing m with
  | nil => exact ⟨none, m, rfl, h, rfl, le_rfl, fun _ _ => rfl, by simp, rfl⟩
  | cons answer answers ih =>
    rw [List.length_cons] at hcount
    obtain ⟨f, t, htry, ht, hroot, hfile, hname, hmem⟩ := tryFs_table h (by omega) hlen answer
    have hnames : ∀ g ∈ m.root :: xs, t.name g = m.name g := by
      intro g hg
      have hgf : g ≠ f := fun he => hmem (he ▸ hg)
      rw [hname, Function.update_of_ne hgf]
    by_cases hret : answer.ret = 0
    · rw [if_pos hret] at htry ht
      refine ⟨some f, t, by simp [fsDetect, htry], ht, hroot, by rw [List.length_cons]; omega,
        hnames, ?_, by simp [hret]⟩
      rintro g ⟨rfl⟩
      exact ⟨by simp [hname], hmem⟩
    · rw [if_neg hret] at htry ht
      obtain ⟨r, u, hdetect, hu, huroot, hufile, hunames, hnew, hany⟩ := ih ht (by omega)
      refine ⟨r, u, by simp [fsDetect, htry, hdetect], hu, huroot.trans hroot,
        by rw [List.length_cons]; omega, fun g hg => ?_, fun g hg => ?_, by simp [hret, hany]⟩
      · rw [hunames g (by rwa [hroot]), hnames g hg]
      · rw [← hroot]
        exact hnew g hg

/-! ## Naming -/

lemma setName_setName (m : Vfs.State) (f : ℕ) (a b : List UInt8) :
    setName (setName m f a) f b = setName m f b := by
  simp only [setName, Function.update_idem]

lemma setName_of_ne {g : ℕ} (h : g ≠ f) (m : Vfs.State) (name : List UInt8) :
    (setName m f name).name g = m.name g := Function.update_of_ne h _ _

/-- A name is looked for among the files of the other devices. -/
lemma deviceFind_new (h : devs.map (fun d => d.bind Dev.devFile) = (fs ++ [f]).map some)
    (hf : f ∉ fs) (m : Vfs.State) (name : List UInt8) :
    ∃ r, deviceFind (setName m f name) (some f) name devs 0 = some r ∧
      (r = none ↔ ∀ g ∈ fs, m.name g ≠ name) := by
  refine ⟨_, deviceFind_eq h _ _ _ _, ?_⟩
  rw [Option.map_eq_none_iff, List.findIdx?_eq_none_iff]
  simp only [List.mem_append, List.mem_singleton, decide_eq_false_iff_not, not_and]
  constructor
  · intro hall g hg
    have hgf : g ≠ f := fun he => hf (he ▸ hg)
    have hname := hall g (.inl hg) fun he => hgf (Option.some.inj he).symm
    rwa [setName_of_ne hgf] at hname
  · rintro hall g (hg | rfl) hself
    · have hgf : g ≠ f := fun he => hf (he ▸ hg)
      rw [setName_of_ne hgf]
      exact hall g hg
    · exact absurd rfl hself

lemma nameDisk_setName (devs : List (Option Dev)) (other a : List UInt8) (left : ℕ) (c : UInt8)
    (m : Vfs.State) :
    nameDisk f devs other left c (setName m f a) = nameDisk f devs other left c m := by
  cases left <;> simp only [nameDisk, setName_setName]

/-- The new name is not empty and no other device has it. -/
lemma nameDisk_spec (h : devs.map (fun d => d.bind Dev.devFile) = (fs ++ [f]).map some)
    (hf : f ∉ fs) (m : Vfs.State) {other : List UInt8} (hother : other ≠ []) {left : ℕ} {c : UInt8}
    (hok : (∃ k < left, ∀ g ∈ fs, m.name g ≠ diskName (c + k.toUInt8)) ∨
      other.length < FILE_NAME_LEN ∧ ∀ g ∈ fs, m.name g ≠ other) :
    ∃ name, nameDisk f devs other left c m = some (setName m f name) ∧ name ≠ [] ∧
      ∀ g ∈ fs, m.name g ≠ name := by
  induction left generalizing c with
  | zero =>
    obtain ⟨hlen, hfree⟩ := hok.resolve_left (by simp)
    exact ⟨other, by rw [nameDisk, if_pos hlen], hother, hfree⟩
  | succ left ih =>
    obtain ⟨r, hfind, hr⟩ := deviceFind_new h hf m (diskName c)
    rw [nameDisk]
    simp only [hfind, Option.bind_eq_bind, Option.bind_some]
    cases r with
    | none => exact ⟨diskName c, rfl, List.cons_ne_nil _ _, hr.mp rfl⟩
    | some i =>
      dsimp only
      rw [nameDisk_setName]
      refine ih (hok.imp_left ?_)
      rintro ⟨k, hk, hfree⟩
      cases k with
      | zero =>
        have hfree' : ∀ g ∈ fs, m.name g ≠ diskName c := by simpa using hfree
        cases hr.mpr hfree'
      | succ k =>
        refine ⟨k, by omega, ?_⟩
        have hadd : c + 1 + k.toUInt8 = c + (k + 1).toUInt8 := by
          rw [UInt8.add_assoc, UInt8.add_comm 1]
          exact congrArg (c + ·) (UInt8.ofNat_add k 1).symm
        rwa [hadd]

/-- Some name for the new device is new. -/
def Nameable (new : List UInt8 → Prop) (c : Call) : Prop :=
  if c.type = DEV_TYPE_ROOT then new [SLASH]
  else (∃ k < 24, new (diskName (99 + k.toUInt8))) ∨
    (driverName c.name c.part).length < FILE_NAME_LEN ∧ new (driverName c.name c.part)

/-- With a name left, the new device gets one that no other device has. -/
lemma nameDevice_spec (h : devs.map (fun d => d.bind Dev.devFile) = (fs ++ [f]).map some)
    (hf : f ∉ fs) (hname : m.name f = []) (c : Call)
    (hok : Nameable (fun name => ∀ g ∈ fs, m.name g ≠ name) c) :
    ∃ name, nameDevice m f devs c = some (setName m f name) ∧ name ≠ [] ∧
      ∀ g ∈ fs, m.name g ≠ name := by
  rw [Nameable] at hok
  rw [nameDevice]
  by_cases hroot : c.type = DEV_TYPE_ROOT
  · rw [if_pos hroot] at hok ⊢
    exact ⟨[SLASH], rfl, List.cons_ne_nil _ _, hok⟩
  · rw [if_neg hroot] at hok ⊢
    rw [if_pos hname]
    refine nameDisk_spec h hf m (fun he => ?_) hok
    simp [driverName] at he

/-! ## Registering -/

lemma nameOk_iff (h : Inv s xs) (c : Call) : nameOk s c = true ↔
    Nameable (fun name => ∀ g ∈ s.files.root :: xs.reverse, s.files.name g ≠ name) c := by
  have htaken : ∀ name, (!taken s name) = true ↔
      ∀ g ∈ s.files.root :: xs.reverse, s.files.name g ≠ name := by
    intro name
    rw [taken, h.devFiles_eq, Bool.not_eq_true', List.any_eq_false]
    simp only [beq_iff_eq]
  rw [nameOk, Nameable]
  by_cases hroot : c.type = DEV_TYPE_ROOT
  · rw [if_pos hroot, if_pos hroot, htaken]
  · rw [if_neg hroot, if_neg hroot, Bool.or_eq_true, List.any_eq_true, Bool.and_eq_true,
      decide_eq_true_eq, htaken]
    simp only [htaken, List.mem_range]

/-- A device that gets memory, a file system and a name is listed with it. -/
lemma register_new (h : Inv s xs) (hreg : registered c.thread c.part s.deviceList = some false)
    (hfew : s.deviceList.length < MAX_DEVICE) (hmemory : c.memory)
    (hdetect : c.answers.any fun a => a.ret == 0) (hok : nameOk s c) :
    ∃ d t f, deviceRegister s c = some (d, t) ∧ Inv t (f :: xs) := by
  have hlen := h.length_eq
  have hfs := c.fs_le
  have hcount := h.few
  have hmax : xs.length < MAX_DEVICE := by omega
  obtain ⟨r, t, hres, htable, hroot, hfile, hnames, hnew, hany⟩ :=
    @fsDetect_table s.files xs h.table c.answers (by
      rw [MAX_DEVICE] at hfew
      rw [MAX_FS] at hfs hcount
      rw [MAX_FILE]
      omega) hmax
  rw [hdetect] at hany
  obtain ⟨f, rfl⟩ := Option.isSome_iff_exists.mp hany
  obtain ⟨hempty, hmem⟩ := hnew f rfl
  have hsub : ∀ g, g ∈ s.files.root :: xs.reverse ↔ g ∈ s.files.root :: xs := by simp
  have hout : f ∉ s.files.root :: xs.reverse := by rwa [hsub]
  have hsame : ∀ g ∈ s.files.root :: xs.reverse, t.name g = s.files.name g :=
    fun g hg => hnames g ((hsub g).mp hg)
  have hlisted : (s.deviceList ++ [some (⟨c.thread, c.part, some f⟩ : Dev)]).map
      (fun d => d.bind Dev.devFile) = ((s.files.root :: xs.reverse) ++ [f]).map some := by
    rw [List.map_append, h.listed, List.map_append]
    rfl
  have hfree : (fun name => ∀ g ∈ s.files.root :: xs.reverse, s.files.name g ≠ name) =
      fun name => ∀ g ∈ s.files.root :: xs.reverse, t.name g ≠ name := by
    funext name
    exact propext (forall₂_congr fun g hg => by rw [hsame g hg])
  rw [nameOk_iff h, hfree] at hok
  obtain ⟨name, hname, hne, hfresh⟩ := nameDevice_spec hlisted hout hempty c hok
  refine ⟨some ⟨c.thread, c.part, some f⟩,
    ⟨setName t f name, true, s.deviceList ++ [some ⟨c.thread, c.part, some f⟩]⟩, f, ?_, ?_⟩
  · simp only [deviceRegister, hreg, Option.bind_eq_bind, Option.bind_some, Bool.false_eq_true,
      if_false, if_neg (Nat.not_le.mpr hfew), hmemory, Bool.not_true, h.hasRoot, hres, hname,
      Option.map_some]
  · have hkeep : ∀ g ∈ s.files.root :: xs.reverse, (setName t f name).name g = s.files.name g := by
      intro g hg
      have hgf : g ≠ f := fun he => hout (he ▸ hg)
      rw [setName_of_ne hgf, hsame g hg]
    have hlist : (t.root :: (f :: xs).reverse) = (s.files.root :: xs.reverse) ++ [f] := by
      rw [hroot, List.reverse_cons, List.cons_append]
    have hself : (setName t f name).name f = name := Function.update_self ..
    exact
      { table := ⟨⟨htable.flat.chain, htable.flat.root_not_mem, htable.flat.parent_root,
          htable.flat.device_root, htable.flat.parent_eq, htable.flat.child_eq,
          htable.flat.reference_eq, htable.flat.reference_root, htable.flat.opened_eq,
          htable.flat.pos⟩, htable.below⟩
        hasRoot := rfl
        listed := hlisted.trans (congrArg _ hlist.symm)
        distinct := by
          change ((t.root :: (f :: xs).reverse).map _).Nodup
          rw [hlist, List.map_append, List.map_congr_left hkeep, List.nodup_append']
          refine ⟨h.distinct, List.nodup_singleton _, fun n hn hn' => ?_⟩
          obtain ⟨g, hg, rfl⟩ := List.mem_map.mp hn
          rw [List.map_singleton, List.mem_singleton, hself] at hn'
          exact hfresh g hg ((hsame g hg).trans hn')
        nonempty := by
          change ∀ g ∈ t.root :: (f :: xs).reverse, _
          rw [hlist]
          intro g hg
          rcases List.mem_append.mp hg with hg | hg
          · rw [hkeep g hg]
            exact h.nonempty g hg
          · rw [List.mem_singleton.mp hg, hself]
            exact hne
        few := by
          change t.fileCount ≤ MAX_FS * (s.deviceList ++ [_]).length
          rw [List.length_append, List.length_singleton, Nat.mul_add, Nat.mul_one]
          omega }

/-- A registration that reaches no defect keeps its law. -/
lemma register_step (h : ∃ xs, Inv s xs) (hok : StepOk s c) :
    Law s c ∧ ∃ xs, Inv (step s c) xs := by
  obtain ⟨xs, h⟩ := h
  obtain ⟨b, hreg⟩ := registered_some h.listed c.thread c.part
  have hstays : deviceRegister s c = some (none, s) → Law s c ∧ ∃ xs, Inv (step s c) xs := by
    intro hres
    have hstep : step s c = s := by rw [step, hres]; rfl
    rw [Law, hstep, hres]
    exact ⟨⟨rfl, h.good⟩, xs, h⟩
  cases b with
  | true => exact hstays (by simp [deviceRegister, hreg])
  | false =>
    by_cases hfull : s.deviceList.length ≥ MAX_DEVICE
    · exact hstays (by simp [deviceRegister, hreg, hfull])
    · obtain ⟨hmemory, hdetect, hname⟩ := (hok.resolve_left (by simp [hreg])).resolve_left hfull
      obtain ⟨d, t, f, hres, ht⟩ := register_new h hreg (by omega) hmemory hdetect hname
      have hstep : step s c = t := by rw [step, hres]; rfl
      rw [Law, hstep, hres]
      exact ⟨⟨rfl, ht.good⟩, _, ht⟩

/-! ## Runs -/

/-- The state that `vfs_init` leaves. -/
def start (vfsThread : UInt32) (rootDev : Ptr) : State :=
  ⟨setName (Vfs.State.initial rootDev) 0 [SLASH], true, [some ⟨vfsThread, 0, some 0⟩]⟩

lemma vfsInit_eq (vfsThread : UInt32) (rootDev : Ptr) :
    vfsInit vfsThread rootDev true = some (start vfsThread rootDev) := by
  have hfree : firstFree noFiles.reference (65535 + 1) 0 = some 0 := by rw [firstFree]; rfl
  have hfalloc : falloc noFiles =
      (some 0, (({ noFiles with fileCount := 1 }).clear 0).setReference 0 1) := by
    rw [falloc, if_neg (by decide), show MAX_FILE = 65535 + 1 from rfl, hfree]
    rfl
  have hdetect : fsDetect false noFiles [rootfsSetup rootDev] =
      some (some 0, Vfs.State.initial rootDev) := by
    simp only [fsDetect, tryFs, devFile, hfalloc]
    simp [rootfsSetup, State.setup, State.clear, State.setReference, noFiles, Vfs.State.initial]
  simp [vfsInit, deviceRegister, registered, hdetect, nameDevice, MAX_DEVICE, start, setName]
  rfl

lemma start_inv (vfsThread : UInt32) (rootDev : Ptr) : Inv (start vfsThread rootDev) [] := by
  have hflat := initial_flat rootDev
  exact
    { table := ⟨⟨hflat.chain, hflat.root_not_mem, hflat.parent_root, hflat.device_root,
        hflat.parent_eq, hflat.child_eq, hflat.reference_eq, hflat.reference_root, hflat.opened_eq,
        hflat.pos⟩, by simp [start, setName, Vfs.State.initial]⟩
      hasRoot := rfl
      listed := rfl
      distinct := List.nodup_singleton _
      nonempty := by simp [start, setName, Vfs.State.initial]
      few := by simp [start, setName, Vfs.State.initial, MAX_FS] }

/-- In every run from `vfs_init` on whose registrations reach no defect, no null pointer is used,
all devices have different names, and they are found by them. -/
theorem run_registered (vfsThread : UInt32) (rootDev : Ptr) (cs : List Call)
    (h : Guarded step StepOk (start vfsThread rootDev) cs) :
    Good (run step (start vfsThread rootDev) cs) ∧
      Guarded step Law (start vfsThread rootDev) cs := by
  have hstart : ∃ xs, Inv (start vfsThread rootDev) xs := ⟨[], start_inv vfsThread rootDev⟩
  refine ⟨?_, h.law (fun s => ∃ xs, Inv s xs) (fun _ _ hs hok => register_step hs hok) hstart⟩
  obtain ⟨xs, hend⟩ := h.invariant (fun s => ∃ xs, Inv s xs)
    (fun _ _ hs hok => (register_step hs hok).2) hstart
  exact hend.good

/-- A part of the disk `hd`, on which the second file system answers `ret`. -/
def hd (part : UInt32) (ret : Int32) : Call :=
  ⟨1, 6, part, [104, 100], true, [⟨-1, none, false, 0⟩, ⟨ret, some 9, true, FILE_ATTR_DIR⟩],
    by simp [MAX_FS]⟩

/-- Two parts of a disk. -/
theorem run_registered_hd :
    Good (run step (start 5 7) [hd 0 0, hd 1 0]) ∧ Guarded step Law (start 5 7) [hd 0 0, hd 1 0] :=
  run_registered 5 7 [hd 0 0, hd 1 0] (by decide +kernel)

/-- A part without a file system stays in the list, and the next part of the disk is not named. -/
theorem not_run_registered : ¬Guarded step Law (start 5 7) [hd 0 (-1), hd 1 0] := by
  rintro ⟨-, ⟨hsome, -⟩, -⟩
  have hnone : (deviceRegister (step (start 5 7) (hd 0 (-1))) (hd 1 0)).isSome = false := by
    decide +kernel
  rw [hnone] at hsome
  cases hsome

end Sgos.Device
