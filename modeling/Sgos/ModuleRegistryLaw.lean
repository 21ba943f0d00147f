import Sgos.ModuleRegistry

/-!
# Modules with one space

As long as a module is linked into one space at a time and leaves at its last reference, the
registry keeps its law.
-/
namespace Sgos.ModuleRegistry
open GuardedRun LinkedChain

/-! ## The table -/

section Table
variable {l : List ℕ} {mo x : ℕ}

lemma removeModule_last (a : List ℕ) (h : mo ∉ a) : removeModule (a ++ [mo]) mo = a := by
  have hidx : (a ++ [mo]).idxOf mo = a.length := by
    rw [List.idxOf_append_of_notMem h, List.idxOf_cons_self, Nat.add_zero]
  rw [removeModule, if_pos (by simp), hidx]
  simp

lemma removeModule_inner (a b : List ℕ) (z : ℕ) (h : mo ∉ a) :
    removeModule (a ++ mo :: (b ++ [z])) mo = a ++ z :: b := by
  have hidx : (a ++ mo :: (b ++ [z])).idxOf mo = a.length := by
    rw [List.idxOf_append_of_notMem h, List.idxOf_cons_self, Nat.add_zero]
  have hlast : (a ++ mo :: (b ++ [z])).getLastD mo = z := by
    rw [← List.cons_append, ← List.append_assoc, List.getLastD_concat]
  rw [removeModule, if_pos (by simp), hidx, hlast]
  simp only [List.set_append_right, le_refl, Nat.sub_self, List.set_cons_zero, ne_eq, reduceCtorEq,
    not_false_eq_true, List.dropLast_append_of_ne_nil, List.append_cancel_left_eq]
  exact @List.dropLast_concat _ (z :: b) _

/-- The table loses the module and keeps all others once. -/
lemma removeModule_perm (hl : l.Nodup) (h : mo ∈ l) : (mo :: removeModule l mo).Perm l := by
  obtain ⟨a, b, rfl⟩ := List.append_of_mem h
  have ha : mo ∉ a := fun hm => (List.nodup_append'.mp hl).2.2 hm (by simp)
  rcases List.eq_nil_or_concat b with rfl | ⟨c, z, rfl⟩
  · rw [removeModule_last a ha]
    exact @List.perm_append_comm _ [mo] _
  · rw [List.concat_eq_append, removeModule_inner a c z ha]
    refine (List.perm_middle.symm).trans (List.Perm.append_left a (List.Perm.cons mo ?_))
    exact @List.perm_append_comm _ [z] _

lemma mem_removeModule (hl : l.Nodup) (h : mo ∈ l) :
    x ∈ removeModule l mo ↔ x ∈ l ∧ x ≠ mo := by
  have hperm := removeModule_perm hl h
  have hnodup := (List.nodup_cons.mp (hperm.nodup_iff.mpr hl)).1
  rw [← hperm.mem_iff, List.mem_cons]
  refine ⟨fun hx => ⟨.inr hx, ?_⟩, fun ⟨hx, hne⟩ => hx.resolve_left hne⟩
  rintro rfl
  exact hnodup hx

lemma nodup_removeModule (hl : l.Nodup) (h : mo ∈ l) : (removeModule l mo).Nodup :=
  (List.nodup_cons.mp ((removeModule_perm hl h).nodup_iff.mpr hl)).2

end Table

/-! ## One space at a time -/

/-- The list of a module that is in the spaces `l`: it is empty, or has one node. -/
def Single (s : State) (mo : ℕ) (l : List UInt32) : Prop :=
  l = [] ∧ (s.module mo).loadedInformation = none ∨
    ∃ space mi, l = [space] ∧ (s.module mo).loadedInformation = some mi ∧ mi < s.blocks ∧
      s.next mi = none ∧ s.prev mi = none ∧ (s.info mi).spaceId = space

/-- What holds wherever the thread is. -/
structure Core (s : State) : Prop where
  listed : ∀ mo, mo ∈ s.moduleList ↔ s.spaces mo ≠ none
  nodup : s.moduleList.Nodup
  bounded : ∀ mo ∈ s.moduleList, mo < s.blocks
  single : ∀ mo l, s.spaces mo = some l → Single s mo l

section Core
variable {s s' : State} {mo mi : ℕ} {l : List UInt32} {space : UInt32}

lemma findSpace_none (info : ℕ → ModuleInSpace) (next : ℕ → Option ℕ) (space : UInt32)
    (fuel : ℕ) : findSpace info next space fuel none = none := by
  cases fuel <;> rfl

lemma Single.loaded (h : Single s mo l) (space : UInt32) :
    getLoadedInformation s mo space ≠ none ↔ space ∈ l := by
  obtain ⟨rfl, hnone⟩ | ⟨space', mi, rfl, hsome, hlt, hnext, -, hspace⟩ := h
  · simp [getLoadedInformation, hnone, findSpace_none]
  · obtain ⟨fuel, hfuel⟩ : ∃ n, s.blocks = n + 1 := ⟨s.blocks - 1, by omega⟩
    rw [getLoadedInformation, hsome, hfuel, findSpace, hspace, hnext, findSpace_none,
      List.mem_singleton]
    split_ifs with he
    · simp [he]
    · simp [Ne.symm he]

lemma Single.chain (h : Single s mo l) :
    ∃ nodes, Chain s.next s.prev (s.module mo).loadedInformation nodes := by
  obtain ⟨-, hnone⟩ | ⟨-, mi, -, hsome, -, hnext, hprev, -⟩ := h
  · rw [hnone]
    exact ⟨[], Chain.nil⟩
  · rw [hsome]
    exact ⟨[mi], rfl, List.nodup_singleton mi, hprev, hnext, trivial⟩

lemma Core.good (h : Core s) (hreturns : ∀ result, s.pc = .linked result false → result < 0)
    (halive : s.pc ≠ .crashed) : Good s :=
  ⟨h.listed, fun mo l hl => (h.single mo l hl).loaded, fun mo l hl => (h.single mo l hl).chain,
    hreturns, halive⟩

/-- A list depends on its module and on the nodes there were. -/
lemma Single.congr (h : Single s mo l)
    (hmodule : (s'.module mo).loadedInformation = (s.module mo).loadedInformation)
    (hblocks : s.blocks ≤ s'.blocks) (hnext : ∀ mi < s.blocks, s'.next mi = s.next mi)
    (hprev : ∀ mi < s.blocks, s'.prev mi = s.prev mi)
    (hinfo : ∀ mi < s.blocks, s'.info mi = s.info mi) : Single s' mo l := by
  obtain ⟨rfl, hnone⟩ | ⟨space, mi, rfl, hsome, hlt, hn, hp, hs⟩ := h
  · exact .inl ⟨rfl, hmodule.trans hnone⟩
  · exact .inr ⟨space, mi, rfl, hmodule.trans hsome, Nat.lt_of_lt_of_le hlt hblocks,
      (hnext mi hlt).trans hn, (hprev mi hlt).trans hp, by rw [hinfo mi hlt, hs]⟩

/-- Other fields of the modules do not matter. -/
lemma Core.congr (h : Core s)
    (hmodule : ∀ mo, (s'.module mo).loadedInformation = (s.module mo).loadedInformation)
    (hlist : s'.moduleList = s.moduleList) (hblocks : s'.blocks = s.blocks)
    (hnext : s'.next = s.next) (hprev : s'.prev = s.prev) (hinfo : s'.info = s.info)
    (hspaces : s'.spaces = s.spaces) : Core s' where
  listed mo := by rw [hlist, hspaces]; exact h.listed mo
  nodup := by rw [hlist]; exact h.nodup
  bounded mo hmo := by rw [hblocks]; exact h.bounded mo (hlist ▸ hmo)
  single mo l hl := (h.single mo l (hspaces ▸ hl)).congr (hmodule mo) hblocks.ge
    (fun _ _ => by rw [hnext]) (fun _ _ => by rw [hprev]) fun _ _ => by rw [hinfo]

lemma setModule_module (s : State) (mo x : ℕ) (m : PeModule) :
    (s.setModule mo m).module x = if x = mo then m else s.module x := Function.update_apply _ _ _ _

/-- A module gets other fields, but not another list. -/
lemma Core.setModule (h : Core s) (mo : ℕ) (m : PeModule)
    (hm : m.loadedInformation = (s.module mo).loadedInformation) : Core (s.setModule mo m) := by
  refine h.congr (fun x => ?_) rfl rfl rfl rfl rfl rfl
  rw [setModule_module]
  split_ifs with hx
  · rw [hx, hm]
  · rfl

lemma Core.allocate (h : Core s) {path : List UInt8} {s' : State} {p : Option ℕ}
    (ha : allocateModule s path = (p, s')) : Core s' := by
  rw [allocateModule] at ha
  split at ha
  · obtain ⟨-, rfl⟩ := Prod.mk.inj ha
    exact h
  split_ifs at ha
  · obtain ⟨-, rfl⟩ := Prod.mk.inj ha
    exact h
  obtain ⟨-, rfl⟩ := Prod.mk.inj ha
  have hnew : s.blocks ∉ s.moduleList := fun hm => absurd (h.bounded _ hm) (lt_irrefl _)
  refine ⟨fun mo => ?_, ?_, fun mo hmo => ?_, fun mo l hl => ?_⟩
  · change mo ∈ s.moduleList ++ [s.blocks] ↔ Function.update s.spaces s.blocks (some []) mo ≠ none
    rw [Function.update_apply, List.mem_append, List.mem_singleton, h.listed]
    split_ifs with hx <;> simp [hx]
  · exact List.nodup_append'.mpr ⟨h.nodup, List.nodup_singleton _, by simpa using hnew⟩
  · rcases List.mem_append.mp hmo with hm | hm
    · exact Nat.lt_succ_of_lt (h.bounded mo hm)
    · rw [List.mem_singleton.mp hm]
      exact Nat.lt_succ_self _
  · change Function.update s.spaces s.blocks (some []) mo = some l at hl
    rw [Function.update_apply] at hl
    split_ifs at hl with hx
    · obtain rfl := Option.some.inj hl
      refine .inl ⟨rfl, ?_⟩
      change (Function.update s.module s.blocks _ mo).loadedInformation = none
      rw [Function.update_apply, if_pos hx]
    · refine (h.single mo l hl).congr ?_ (Nat.le_succ _) (fun _ _ => rfl) (fun _ _ => rfl)
        fun _ _ => rfl
      change (Function.update s.module s.blocks _ mo).loadedInformation = _
      rw [Function.update_apply, if_neg hx]

/-- A module in no space gets one. -/
lemma Core.add (h : Core s) {k : Linking} (hnone : (s.module k.mo).loadedInformation = none) :
    Core (addInfo s k) := by
  have hspaces : ∀ mo, (addInfo s k).spaces mo =
      if mo = k.mo then (s.spaces k.mo).map (k.space :: ·) else s.spaces mo := fun mo =>
    Function.update_apply _ _ _ _
  refine ⟨fun mo => ?_, h.nodup, fun mo hmo => Nat.lt_succ_of_lt (h.bounded mo hmo),
    fun mo l hl => ?_⟩
  · rw [hspaces]
    split_ifs with hx
    · subst hx
      exact (h.listed _).trans (by simp)
    · exact h.listed mo
  · rw [hspaces] at hl
    split_ifs at hl with hx
    · subst hx
      obtain ⟨l', hl', rfl⟩ := Option.map_eq_some_iff.mp hl
      obtain ⟨rfl, -⟩ | ⟨_, mi, -, hsome, -⟩ := h.single _ l' hl'
      · refine .inr ⟨k.space, s.blocks, rfl, ?_, Nat.lt_succ_self _, ?_, ?_, ?_⟩
        · change (Function.update s.module k.mo _ k.mo).loadedInformation = _
          rw [Function.update_self]
        · exact (Function.update_self ..).trans hnone
        · exact Function.update_self ..
        · change (Function.update s.info s.blocks _ s.blocks).spaceId = _
          rw [Function.update_self]
      · rw [hnone] at hsome
        cases hsome
    · refine (h.single mo l hl).congr ?_ (Nat.le_succ _) (fun mi hmi => ?_) (fun mi hmi => ?_)
        fun mi hmi => ?_
      · exact congrArg PeModule.loadedInformation (Function.update_of_ne hx ..)
      all_goals exact Function.update_of_ne (Nat.ne_of_lt hmi) ..

/-- A module leaves the table. -/
lemma Core.remove (h : Core s) (hmo : mo ∈ s.moduleList)
    (hlist : s'.moduleList = removeModule s.moduleList mo)
    (hspaces : s'.spaces = Function.update s.spaces mo none)
    (hmodule : ∀ x, x ≠ mo →
      (s'.module x).loadedInformation = (s.module x).loadedInformation)
    (hblocks : s'.blocks = s.blocks) (hnext : s'.next = s.next) (hprev : s'.prev = s.prev)
    (hinfo : s'.info = s.info) : Core s' := by
  refine ⟨fun x => ?_, ?_, fun x hx => ?_, fun x l hl => ?_⟩
  · rw [hlist, hspaces, mem_removeModule h.nodup hmo, Function.update_apply]
    split_ifs with hx
    · simp [hx]
    · simp [hx, h.listed]
  · rw [hlist]
    exact nodup_removeModule h.nodup hmo
  · rw [hlist, mem_removeModule h.nodup hmo] at hx
    rw [hblocks]
    exact h.bounded x hx.1
  · rw [hspaces, Function.update_apply] at hl
    split_ifs at hl with hx
    exact (h.single x l hl).congr (hmodule x hx) hblocks.ge (fun _ _ => by rw [hnext])
      (fun _ _ => by rw [hprev]) fun _ _ => by rw [hinfo]

lemma sub_one_eq_zero {r : UInt16} : r - 1 = 0 ↔ r = 1 := by
  constructor
  · intro h
    have hadd := congrArg (· + 1) h
    simpa using hadd
  · rintro rfl
    rfl

lemma releaseModule_keep (hr : (s.module mo).reference ≠ 1) : releaseModule s mo =
    s.setModule mo { s.module mo with reference := (s.module mo).reference - 1 } :=
  if_neg fun h => hr (sub_one_eq_zero.mp h)

lemma releaseModule_last (hr : (s.module mo).reference = 1) : releaseModule s mo =
    { s.setModule mo { s.module mo with reference := (s.module mo).reference - 1 } with
      moduleList := removeModule s.moduleList mo } :=
  if_pos (sub_one_eq_zero.mpr hr)

/-- A call for a space that the module is not in. -/
lemma Core.free_other (h : Core s) (hloaded : getLoadedInformation s mo space = none)
    (hr : space = 0 → (s.module mo).reference ≠ 1) : Core (freeModule s mo space) := by
  have hspaces : (s.spaces mo).bind (freed · space) = s.spaces mo := by
    cases hl : s.spaces mo with
    | none => rfl
    | some l =>
      have hnot : space ∉ l := fun hm => ((h.single mo l hl).loaded space).mpr hm hloaded
      exact if_neg hnot
  rw [freeModule, hspaces]
  by_cases hzero : space = 0
  · rw [if_neg (not_not.mpr hzero), releaseModule_keep (hr hzero)]
    have hcore := h.setModule mo
      { s.module mo with reference := (s.module mo).reference - 1 } rfl
    exact hcore.congr (fun _ => rfl) rfl rfl rfl rfl rfl (Function.update_eq_self _ _)
  · rw [if_pos hzero, hloaded]
    exact h.congr (fun _ => rfl) rfl rfl rfl rfl rfl (Function.update_eq_self _ _)

lemma Core.free (h : Core s) (hmo : mo ∈ s.moduleList) (hok : FreeOk s mo space) :
    Core (freeModule s mo space) := by
  rw [FreeOk] at hok
  split_ifs at hok with hloaded
  swap
  · exact h.free_other (not_not.mp hloaded) hok
  obtain ⟨l, hl⟩ := Option.ne_none_iff_exists'.mp ((h.listed mo).mp hmo)
  obtain ⟨rfl, hnone⟩ | ⟨space', mi, rfl, hsome, hlt, hnext, hprev, hspace⟩ := h.single mo l hl
  · rw [getLoadedInformation, hnone, findSpace_none] at hloaded
    exact absurd rfl hloaded
  obtain rfl := List.mem_singleton.mp (((h.single mo _ hl).loaded space).mp hloaded)
  have hspaces : (s.spaces mo).bind (freed · space) = none := by
    simp [hl, freed]
  rw [freeModule, hspaces]
  by_cases hzero : space = 0
  · rw [if_neg (not_not.mpr hzero), releaseModule_last hok]
    refine h.remove hmo rfl rfl (fun x hx => ?_) rfl rfl rfl rfl
    exact congrArg PeModule.loadedInformation (Function.update_of_ne hx ..)
  · have hfound : getLoadedInformation s mo space = some mi := by
      obtain ⟨fuel, hfuel⟩ : ∃ n, s.blocks = n + 1 := ⟨s.blocks - 1, by omega⟩
      rw [getLoadedInformation, hsome, hfuel, findSpace, if_pos hspace]
    have hunlink : unlinkSpace s mo mi =
        s.setModule mo { s.module mo with loadedInformation := none } := by
      have hnext' : (s.setModule mo { s.module mo with loadedInformation := none }).next mi = none :=
        hnext
      simp only [unlinkSpace, hprev, hnext, hnext']
    rw [if_pos hzero, hfound]
    dsimp only
    rw [hunlink, releaseModule_last]
    · refine h.remove hmo rfl rfl (fun x hx => ?_) rfl rfl rfl rfl
      refine (congrArg PeModule.loadedInformation (Function.update_of_ne hx ..)).trans ?_
      exact congrArg PeModule.loadedInformation (Function.update_of_ne hx ..)
    · rw [setModule_module, if_pos rfl]
      exact hok

/-- The thread goes elsewhere. -/
lemma Core.moved (h : Core s) (frames : List Frame) (pc : Pc) : Core { s with frames, pc } :=
  h.congr (fun _ => rfl) rfl rfl rfl rfl rfl rfl

end Core

/-! ## Steps -/

/-- The law, with all lists empty or of one node. -/
structure Inv (s : State) : Prop where
  core : Core s
  returns : ∀ result, s.pc = .linked result false → result < 0
  alive : s.pc ≠ .crashed

section Steps
variable {s : State}

lemma Inv.good (h : Inv s) : Good s := h.core.good h.returns h.alive

/-- Neither a call of the linker has just returned nor a null pointer has been read. -/
def Pc.Midway : Pc → Prop
  | .linked _ _ | .crashed => False
  | _ => True

lemma inv_of_pc (h : Core s) (hpc : s.pc.Midway) : Inv s :=
  ⟨h, fun _ hr => by rw [hr] at hpc; exact hpc.elim, fun hc => by rw [hc] at hpc; exact hpc⟩

lemma inv_of_failed (h : Core s) {result : Int32} (hpc : s.pc = .linked result false)
    (hresult : result < 0) : Inv s := by
  refine ⟨h, fun r hr => ?_, by rw [hpc]; exact fun hc => by cases hc⟩
  rw [hpc] at hr
  cases hr
  exact hresult

lemma inv_of_added (h : Core s) {result : Int32} (hpc : s.pc = .linked result true) : Inv s := by
  refine ⟨h, fun r hr => ?_, by rw [hpc]; exact fun hc => by cases hc⟩
  rw [hpc] at hr
  cases hr

lemma loading_inv (h : Inv s) {space : UInt32} {path : List UInt8} (hpc : s.pc = .loading space path)
    (a : Answer) : Inv (advance s a) := by
  rw [advance, hpc]
  dsimp only
  split
  · split_ifs
    · exact inv_of_pc (h.core.moved _ _) trivial
    · exact inv_of_pc (h.core.moved _ _) trivial
  · split
    · exact inv_of_pc (h.core.moved _ _) trivial
    · rename_i addr image hfile
      split
      · rename_i s' ha
        exact inv_of_pc ((h.core.allocate ha).moved _ _) trivial
      · rename_i mo s' ha
        have hcore := (h.core.allocate ha).setModule mo
          { s'.module mo with loadAddress := addr, image } rfl
        exact inv_of_pc (hcore.moved _ _) trivial

lemma linking_inv (h : Inv s) {mo : ℕ} {space : UInt32} (hpc : s.pc = .linking mo space)
    {a : Answer} (hok : AdvanceOk s a) : Inv (advance s a) := by
  rw [AdvanceOk, hpc] at hok
  obtain ⟨hnone, hfail⟩ := hok
  rw [advance, hpc]
  dsimp only
  rw [if_neg (not_not.mpr hnone)]
  split_ifs with hmalloc haddress hduplicated
  · exact inv_of_failed (h.core.moved _ _) rfl (by decide)
  · exact inv_of_failed (h.core.moved _ _) rfl (by decide)
  · exact inv_of_failed (h.core.moved _ _) rfl
      (hfail (by simpa using hmalloc) haddress hduplicated)
  · exact inv_of_pc (h.core.moved _ _) trivial

lemma imports_inv (h : Inv s) {l : Linking} (hpc : s.pc = .imports l) {a : Answer}
    (hok : AdvanceOk s a) : Inv (advance s a) := by
  rw [AdvanceOk, hpc] at hok
  have hadd : Finished s l → Inv (addInfo s l) := fun hl => inv_of_added (h.core.add (hok hl)) rfl
  rw [advance, hpc]
  dsimp only
  split_ifs with hmore
  · split
    · exact inv_of_pc (h.core.moved _ _) trivial
    · rename_i hend
      exact hadd fun _ _ => hend
  · exact hadd fun hr hi => absurd ⟨hr, hi⟩ hmore

lemma linked_inv (h : Inv s) {result : Int32} {added : Bool} (hpc : s.pc = .linked result added)
    {a : Answer} (hok : AdvanceOk s a) : Inv (advance s a) := by
  rw [AdvanceOk, hpc] at hok
  rw [advance, hpc]
  dsimp only
  split
  · exact inv_of_pc (h.core.moved _ _) trivial
  · rename_i mo fs hframes
    rw [hframes] at hok
    split_ifs with hresult
    · obtain ⟨hnone, hr⟩ := hok hresult
      exact inv_of_pc ((h.core.free_other hnone fun _ => hr).moved _ _) trivial
    · exact inv_of_pc (h.core.moved _ _) trivial
  · exact h
  · exact inv_of_pc (h.core.moved _ _) trivial

/-- With a place in the space no null pointer is read. -/
lemma fixupImports_ne_none {s : State} {mo : ℕ} {mi : Option ℕ} (hmi : mi ≠ none)
    (lookups : List Lookup) : fixupImports s mo mi lookups ≠ none := by
  obtain ⟨p, rfl⟩ := Option.ne_none_iff_exists'.mp hmi
  induction lookups with
  | nil => simp [fixupImports]
  | cons k rest ih =>
    cases k with
    | ordinal => exact ih
    | name procedureName =>
      obtain ⟨addr, haddr⟩ : ∃ addr, getProcedureAddress s mo (some p) procedureName =
          some addr := by
        rw [getProcedureAddress]
        split_ifs
        · split
          · exact ⟨_, rfl⟩
          · exact ⟨_, rfl⟩
        · exact ⟨_, rfl⟩
      simp only [fixupImports, haddr, Option.bind_eq_bind, Option.bind_some]
      split_ifs
      · exact ih
      · simp

lemma loaded_inv (h : Inv s) {result : Int32} (hpc : s.pc = .loaded result) {a : Answer}
    (hok : AdvanceOk s a) : Inv (advance s a) := by
  rw [AdvanceOk, hpc] at hok
  rw [advance, hpc]
  dsimp only
  split
  · rename_i l fs hframes
    rw [hframes] at hok
    obtain ⟨mo2, hid, hspace⟩ := hok
    have hcore := h.core.moved fs (.loaded result)
    generalize hs' : { s with frames := fs, pc := Pc.loaded result } = s' at hcore
    have hs'' : { s with frames := fs } = s' := by rw [← hs', hpc]
    have hid' : getModuleById s' result.toUInt32 = some mo2 := by rw [← hs'']; exact hid
    have hspace' : getLoadedInformation s' mo2 l.space ≠ none := by rw [← hs'']; exact hspace
    have hset := hcore.setModule l.mo { s'.module l.mo with
      importModules := Function.update (s'.module l.mo).importModules l.index (some mo2) } rfl
    rw [importLoaded, hid']
    dsimp only
    split
    · rename_i hcrash
      exact absurd hcrash (fixupImports_ne_none hspace' _)
    · exact inv_of_pc (hset.moved _ _) trivial
    · exact inv_of_failed (hset.moved _ _) rfl (by decide)
  · exact h
  · exact inv_of_pc (h.core.moved _ _) trivial

lemma unlinkSpace_same (s : State) (mo mi : ℕ) : (unlinkSpace s mo mi).pc = s.pc ∧
    (unlinkSpace s mo mi).moduleList = s.moduleList ∧
    ((unlinkSpace s mo mi).module mo).reference = (s.module mo).reference := by
  rw [unlinkSpace]
  cases s.prev mi with
  | none =>
    have href : ((s.setModule mo { s.module mo with
        loadedInformation := s.next mi }).module mo).reference = (s.module mo).reference := by
      rw [setModule_module, if_pos rfl]
    dsimp only
    split <;> exact ⟨rfl, rfl, href⟩
  | some p =>
    dsimp only
    split <;> exact ⟨rfl, rfl, rfl⟩

lemma releaseModule_pc (s : State) (mo : ℕ) : (releaseModule s mo).pc = s.pc := by
  rw [releaseModule]
  split_ifs <;> rfl

lemma freeModule_pc (s : State) (mo : ℕ) (space : UInt32) : (freeModule s mo space).pc = s.pc := by
  rw [freeModule]
  split_ifs
  · split
    · exact (releaseModule_pc _ _).trans (unlinkSpace_same s mo _).1
    · rfl
  · exact releaseModule_pc _ _

theorem step_inv (s : State) (e : Event) (h : Inv s) (hok : StepOk s e) : Inv (step s e) := by
  cases e with
  | load space path =>
    rw [step]
    split_ifs
    · exact inv_of_pc (h.core.moved _ _) trivial
    · exact h
  | link mo space =>
    rw [step]
    split_ifs
    · exact inv_of_pc (h.core.moved _ _) trivial
    · exact h
  | free mo space =>
    rw [step]
    split_ifs with hmo
    · have hpc := freeModule_pc s mo space
      exact ⟨h.core.free hmo.2 hok, by rw [hpc]; exact h.returns, by rw [hpc]; exact h.alive⟩
    · exact h
  | advance a =>
    rw [step]
    cases hpc : s.pc with
    | idle =>
      rw [advance, hpc]
      exact h
    | crashed => exact absurd hpc h.alive
    | loading space path => exact loading_inv h hpc a
    | linking mo space => exact linking_inv h hpc hok
    | imports l => exact imports_inv h hpc hok
    | linked result added => exact linked_inv h hpc hok
    | loaded result => exact loaded_inv h hpc hok

lemma Fresh.inv (h : Fresh s) : Inv s := by
  refine inv_of_pc ⟨fun mo => ?_, ?_, fun mo hmo => ?_, fun mo l hl => ?_⟩
    (by rw [h.pc]; trivial)
  · simp [h.moduleList, h.spaces]
  · rw [h.moduleList]
    exact List.nodup_nil
  · rw [h.moduleList] at hmo
    cases hmo
  · rw [h.spaces] at hl
    cases hl

/-- In a run whose steps all meet their conditions the registry keeps its law. -/
theorem modules_run_good (h : Fresh s) {es : List Event} (hok : Guarded step StepOk s es) :
    ∀ fs, fs <+: es → Good (run step s fs) := by
  rintro fs ⟨gs, rfl⟩
  exact (((guarded_append s fs gs).mp hok).1.invariant Inv step_inv h.inv).good

/-- A second space breaks the list: the first node does not point back. -/
theorem add_not_good {l : Linking} {mi : ℕ} (h : (s.module l.mo).loadedInformation = some mi)
    (hmi : mi < s.blocks) (hprev : s.prev mi = none) (hmo : s.spaces l.mo ≠ none) :
    ¬Good (addInfo s l) := by
  intro hgood
  obtain ⟨spaces, hspaces⟩ := Option.ne_none_iff_exists'.mp hmo
  obtain ⟨nodes, hchain⟩ := hgood.lists l.mo (l.space :: spaces) (by
    change Function.update s.spaces l.mo _ l.mo = _
    rw [Function.update_self, hspaces]
    rfl)
  have hhead : ((addInfo s l).module l.mo).loadedInformation = some s.blocks := by
    change (Function.update s.module l.mo _ l.mo).loadedInformation = _
    rw [Function.update_self]
  have hnext : (addInfo s l).next s.blocks = some mi := (Function.update_self ..).trans h
  have hprev' : (addInfo s l).prev mi = none :=
    (Function.update_of_ne (Nat.ne_of_lt hmi) ..).trans hprev
  obtain ⟨hfirst, -, hlinked⟩ := hchain
  rw [hhead] at hfirst
  rcases nodes with _ | ⟨x, _ | ⟨y, rest⟩⟩
  · cases hfirst
  · obtain rfl := Option.some.inj hfirst
    cases hnext.symm.trans hlinked.2.1
  · obtain rfl := Option.some.inj hfirst
    obtain rfl := Option.some.inj (hnext.symm.trans hlinked.2.1)
    cases hprev'.symm.trans hlinked.2.2.1

/-- The last space of a module does not take it out of the table at any other reference than 1. -/
theorem free_not_good {mo : ℕ} {space : UInt32} (h : Inv s) (hmo : mo ∈ s.moduleList)
    (hloaded : getLoadedInformation s mo space ≠ none) (hr : (s.module mo).reference ≠ 1) :
    ¬Good (freeModule s mo space) := by
  obtain ⟨l, hl⟩ := Option.ne_none_iff_exists'.mp ((h.core.listed mo).mp hmo)
  have hmem := ((h.core.single mo l hl).loaded space).mp hloaded
  have hspaces : (s.spaces mo).bind (freed · space) = none := by
    obtain ⟨rfl, -⟩ | ⟨_, _, rfl, -⟩ := h.core.single mo l hl
    · cases hmem
    · obtain rfl := List.mem_singleton.mp hmem
      simp [hl, freed]
  have hlist : (freeModule s mo space).moduleList = s.moduleList := by
    rw [freeModule]
    split_ifs
    · split
      · rename_i mi hmi
        obtain ⟨-, hlist, href⟩ := unlinkSpace_same s mo mi
        rw [releaseModule_keep (by rw [href]; exact hr)]
        exact hlist
      · rfl
    · rw [releaseModule_keep hr]
      rfl
  intro hgood
  refine (hgood.listed mo).mp (hlist ▸ hmo) ?_
  rw [freeModule, hspaces]
  exact Function.update_self ..

end Steps

/-! ## From the start -/

def emptyImage : Image := ⟨0x400000, 0x1000, 0, 0, [], []⟩

/-- No module has been loaded yet. -/
def started : State where
  module _ := ⟨0, [], 0, 0, emptyImage, fun _ => none, none⟩
  info _ := ⟨0, 0⟩
  next _ := none
  prev _ := none
  moduleList := []
  moduleId := 0
  blocks := 0
  frames := []
  pc := .idle
  spaces _ := none

lemma started_fresh : Fresh started := ⟨rfl, fun _ => rfl, rfl⟩

/-- Every request succeeds. -/
def success : Answer := ⟨.ok (0x10000, emptyImage), true, 0x400000, 0x1000, 0⟩

/-- A library is loaded into a space from start to end. -/
def load (space : UInt32) : List Event :=
  [.load space [97], .advance success, .advance success, .advance success, .advance success,
    .advance success]

theorem modules_run_good_load : Good (run step started (load 5 ++ [.free 0 6])) := by
  have hok : Guarded step StepOk started (load 5 ++ [.free 0 6]) := by
    refine ⟨trivial, trivial, ⟨by decide +kernel, fun _ => ?_⟩, fun _ => by decide +kernel,
      fun hr => ?_, trivial, ?_, trivial⟩
    · exact fun _ hd => absurd hd (by decide +kernel)
    · exact absurd hr (by decide +kernel)
    · change FreeOk _ _ _
      rw [FreeOk, if_neg (by decide +kernel)]
      exact fun hz => absurd hz (by decide)
  exact modules_run_good started_fresh hok _ (List.prefix_refl _)

/-- A library in two spaces: when the first frees it, the second is lost. -/
theorem modules_run_not_good : ¬ ∀ s es, Fresh s → ∀ fs, fs <+: es → Good (run step s fs) := by
  intro h
  have hgood := h started (load 5 ++ load 6 ++ [.free 0 5]) started_fresh _ (List.prefix_refl _)
  exact absurd ((hgood.loaded 0 [6] (by decide +kernel) 6).mpr (by decide)) (by decide +kernel)

end Sgos.ModuleRegistry
