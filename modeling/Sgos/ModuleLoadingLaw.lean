import Sgos.ModuleLoading
import Sgos.ModuleRegistryLaw

/-!
# When a failed load changes nothing

A load only adds modules, nodes and areas until it comes back. It leaves the registry alone only if
it meets its failure before anything is registered or linked.
-/
namespace Sgos.ModuleLoading
open ModuleRegistry (Image Import LoadError allocateModule fixupImports getLoadedInformation
  getModuleById getModuleByPath)

variable {w w' w₁ w₂ : World} {load : World → List UInt8 → Outcome} {answers : ℕ → Answer}
  {space addr : UInt32} {path : List UInt8} {mo : ℕ} {a : Answer} {image : Image} {r : Int32}

/-! ## What a call adds -/

/-- Modules stay what they are, and may get nodes that are new. -/
structure Grows (w w' : World) : Prop where
  moduleList : w.registry.moduleList <+: w'.registry.moduleList
  blocks : w.registry.blocks ≤ w'.registry.blocks
  reference : ∀ mo ∈ w.registry.moduleList,
    (w'.registry.module mo).reference = (w.registry.module mo).reference
  moduleId : ∀ mo ∈ w.registry.moduleList,
    (w'.registry.module mo).moduleId = (w.registry.module mo).moduleId
  nodes : ∀ mo ∈ w.registry.moduleList,
    (w'.registry.module mo).loadedInformation = (w.registry.module mo).loadedInformation ∨
      ∃ mi, w.registry.blocks ≤ mi ∧ (w'.registry.module mo).loadedInformation = some mi
  areas : ∀ x ∈ w.areas, ∃ y ∈ w'.areas, y.1 = x.1
  tidy : Tidy w'

lemma Grows.trans (h : Grows w w') (h' : Grows w' w₁) : Grows w w₁ where
  moduleList := h.moduleList.trans h'.moduleList
  blocks := h.blocks.trans h'.blocks
  reference mo hmo := (h'.reference mo (h.moduleList.subset hmo)).trans (h.reference mo hmo)
  moduleId mo hmo := (h'.moduleId mo (h.moduleList.subset hmo)).trans (h.moduleId mo hmo)
  nodes mo hmo := by
    rcases h'.nodes mo (h.moduleList.subset hmo) with heq | ⟨mi, hle, hsome⟩
    · rw [heq]
      exact h.nodes mo hmo
    · exact .inr ⟨mi, h.blocks.trans hle, hsome⟩
  areas x hx := by
    obtain ⟨y, hy, hyx⟩ := h.areas x hx
    obtain ⟨z, hz, hzy⟩ := h'.areas y hy
    exact ⟨z, hz, hzy.trans hyx⟩
  tidy := h'.tidy

/-- Only flags and counters, and perhaps areas, have changed. -/
lemma Grows.of_registry (h : Tidy w) (hregistry : w'.registry = w.registry)
    (hareas : ∀ x ∈ w.areas, ∃ y ∈ w'.areas, y.1 = x.1) (hsize : ∀ x ∈ w'.areas, x.2 ≠ 0) :
    Grows w w' where
  moduleList := by rw [hregistry]
  blocks := by rw [hregistry]
  reference mo _ := by rw [hregistry]
  moduleId mo _ := by rw [hregistry]
  nodes mo _ := .inl (by rw [hregistry])
  areas := hareas
  tidy := ⟨by rw [hregistry]; exact h.bounded, by rw [hregistry]; exact h.nodes, hsize⟩

lemma Grows.of_same (h : Tidy w) (hregistry : w'.registry = w.registry)
    (hareas : w'.areas = w.areas) : Grows w w' :=
  .of_registry h hregistry (fun x hx => ⟨x, hareas ▸ hx, rfl⟩) (by rw [hareas]; exact h.areas)

lemma Grows.refl (h : Tidy w) : Grows w w := .of_same h rfl rfl

lemma Grows.allocate (h : Tidy w) {size : UInt32} (hsize : size ≠ 0) :
    Grows w (w.allocateAddress addr size) := by
  have hregistry : (w.allocateAddress addr size).registry = w.registry := rfl
  apply Grows.of_registry h hregistry
  · exact fun x hx => ⟨x, List.mem_cons_of_mem _ hx, rfl⟩
  · intro x hx
    rcases List.mem_cons.mp hx with rfl | hx
    · exact hsize
    · exact h.areas x hx

/-- The area that is freed was not there at the start. -/
lemma Grows.free (h : Grows w w') (hfresh : ∀ x ∈ w.areas, x.1 ≠ addr) :
    Grows w (w'.freeAddress addr) where
  moduleList := h.moduleList
  blocks := h.blocks
  reference := h.reference
  moduleId := h.moduleId
  nodes := h.nodes
  areas x hx := by
    obtain ⟨y, hy, hyx⟩ := h.areas x hx
    refine ⟨y, (List.mem_eraseP_of_neg ?_).mpr hy, hyx⟩
    rw [hyx]
    simpa using hfresh x hx
  tidy := ⟨h.tidy.bounded, h.tidy.nodes, fun x hx => h.tidy.areas x (List.mem_of_mem_eraseP hx)⟩

/-- An address that is granted is no start of an area. -/
lemma start_ne (h : Tidy w) {size : UInt32} (hgrants : w.Grants a addr size) :
    ∀ x ∈ w.areas, x.1 ≠ addr := by
  obtain ⟨-, -, hsize, hfree⟩ := hgrants
  rintro x hx rfl
  have hx2 := h.areas x hx
  have hpos : 0 < size.toNat := UInt32.pos_iff_ne_zero.mpr hsize
  have hpos' : 0 < x.2.toNat := UInt32.pos_iff_ne_zero.mpr hx2
  exact hfree ⟨x, hx, by omega, by omega⟩

/-- The end of `LinkModuleToSpace` gives the module a new node. -/
lemma addInfo_head (w : World) (mo : ℕ) (space addr : UInt32) :
    ((w.addInfo mo space addr).registry.module mo).loadedInformation =
      some w.registry.blocks := by
  change (Function.update w.registry.module mo _ mo).loadedInformation = _
  rw [Function.update_self]

lemma Grows.add (h : Tidy w) (mo : ℕ) (space addr : UInt32) :
    Grows w (w.addInfo mo space addr) := by
  have hmodule : ∀ x, (w.addInfo mo space addr).registry.module x =
      if x = mo then { w.registry.module mo with loadedInformation := some w.registry.blocks }
      else w.registry.module x := fun x => Function.update_apply ..
  have hlist : (w.addInfo mo space addr).registry.moduleList = w.registry.moduleList := rfl
  have hblocks : (w.addInfo mo space addr).registry.blocks = w.registry.blocks + 1 := rfl
  constructor
  case moduleList => exact List.prefix_rfl
  case blocks => omega
  case reference =>
    intro x _
    rw [hmodule]
    split_ifs with hx
    · rw [hx]
    · rfl
  case moduleId =>
    intro x _
    rw [hmodule]
    split_ifs with hx
    · rw [hx]
    · rfl
  case nodes =>
    intro x _
    rw [hmodule]
    split_ifs with hx
    · exact .inr ⟨_, le_rfl, rfl⟩
    · exact .inl rfl
  case areas => exact fun x hx => ⟨x, hx, rfl⟩
  case tidy =>
    constructor
    case bounded =>
      intro x hx
      have hlt := h.bounded x hx
      omega
    case nodes =>
      intro x hx mi hmi
      rw [hmodule] at hmi
      split_ifs at hmi with heq
      · obtain rfl := Option.some.inj hmi
        omega
      · have hlt := h.nodes x hx mi hmi
        omega
    case areas => exact h.areas

/-- A new module is the last of the table, with no reference. -/
lemma allocateModule_new {s s' : ModuleRegistry.State} (hnew : getModuleByPath s path = none)
    (halloc : allocateModule s path = (some mo, s')) :
    mo = s.blocks ∧ s'.moduleList = s.moduleList ++ [mo] ∧ s'.blocks = s.blocks + 1 ∧
      (∀ x ≠ mo, s'.module x = s.module x) ∧ (s'.module mo).reference = 0 ∧
      (s'.module mo).loadedInformation = none := by
  rw [allocateModule, hnew] at halloc
  dsimp only at halloc
  split_ifs at halloc with hfull
  · cases (Prod.mk.inj halloc).1
  · obtain ⟨hmo, hs⟩ := Prod.mk.inj halloc
    obtain rfl := Option.some.inj hmo
    rw [← hs]
    refine ⟨rfl, rfl, rfl, fun x hx => Function.update_of_ne hx _ _, ?_, ?_⟩
    · change (Function.update s.module s.blocks _ s.blocks).reference = 0
      rw [Function.update_self]
    · change (Function.update s.module s.blocks _ s.blocks).loadedInformation = none
      rw [Function.update_self]

/-- A module without references stays in the table when it is freed. -/
lemma freeModule_same (w : World) (hr : (w.registry.module mo).reference = 0) :
    (w.freeModule mo).registry.moduleList = w.registry.moduleList ∧
      (w.freeModule mo).registry.blocks = w.registry.blocks ∧
      (w.freeModule mo).areas = w.areas ∧
      ∀ x, (w.freeModule mo).registry.module x = if x = mo then
        { w.registry.module mo with reference := (w.registry.module mo).reference - 1 }
        else w.registry.module x := by
  have hne : ¬((w.registry.module mo).reference - 1 = 0) := by
    rw [hr]
    decide
  have hfree : (w.freeModule mo).registry = (w.registry.setModule mo
      { w.registry.module mo with reference := (w.registry.module mo).reference - 1 }).setSpaces mo
        ((w.registry.spaces mo).bind (ModuleRegistry.freed · 0)) := by
    simp only [World.freeModule, ModuleRegistry.freeModule, ModuleRegistry.releaseModule,
      if_neg hne, ne_eq, not_true_eq_false, if_false]
  rw [hfree]
  exact ⟨rfl, rfl, rfl, fun x => Function.update_apply ..⟩

/-- Behind a new module, all that was there before has only grown. -/
lemma Grows.freeNew (h : Grows w w') (hmo : mo ∉ w.registry.moduleList)
    (hr : (w'.registry.module mo).reference = 0) : Grows w (w'.freeModule mo) := by
  obtain ⟨hlist, hblocks, hareas, hmodule⟩ := freeModule_same w' hr
  have hother : ∀ x ∈ w.registry.moduleList,
      (w'.freeModule mo).registry.module x = w'.registry.module x := by
    intro x hx
    rw [hmodule, if_neg (ne_of_mem_of_not_mem hx hmo)]
  constructor
  case moduleList => rw [hlist]; exact h.moduleList
  case blocks => rw [hblocks]; exact h.blocks
  case reference => exact fun x hx => by rw [hother x hx]; exact h.reference x hx
  case moduleId => exact fun x hx => by rw [hother x hx]; exact h.moduleId x hx
  case nodes => exact fun x hx => by rw [hother x hx]; exact h.nodes x hx
  case areas => rw [hareas]; exact h.areas
  case tidy =>
    constructor
    case bounded => rw [hlist, hblocks]; exact h.tidy.bounded
    case nodes =>
      rw [hlist, hblocks]
      intro x hx mi hmi
      rw [hmodule] at hmi
      split_ifs at hmi with heq
      · exact h.tidy.nodes x hx mi (by rw [heq]; exact hmi)
      · exact h.tidy.nodes x hx mi hmi
    case areas => rw [hareas]; exact h.tidy.areas

/-! ## Every call grows -/

/-- A load that comes back has only added things. -/
def Growing (load : World → List UInt8 → Outcome) : Prop :=
  ∀ w path r w', Tidy w → load w path = .returned r w' → Grows w w'

lemma linkImports_grows (hload : Growing load) {imports : List Import} :
    ∀ {w : World}, Tidy w → linkImports load space mo w imports = .returned r w' →
      Grows w w' := by
  induction imports with
  | nil =>
    intro w hw h
    obtain ⟨-, rfl⟩ := Outcome.returned.inj h
    exact Grows.refl hw
  | cons imp rest ih =>
    intro w hw h
    rw [linkImports] at h
    split at h
    case h_2 _ hne => exact absurd h (hne _ _)
    case h_1 mo2Id w₁ hcall =>
      have hgrow := hload w imp.libName mo2Id w₁ hw hcall
      split at h
      case h_1 => cases h
      case h_2 mo2 hmo2 =>
        dsimp only at h
        by_cases harray : w₁.arrays mo = false
        · rw [if_pos harray] at h
          cases h
        rw [if_neg harray] at h
        have hmiss : Grows w₁ w₁.miss := Grows.of_same hgrow.tidy rfl rfl
        split at h
        case h_1 => cases h
        case h_2 =>
          obtain ⟨-, rfl⟩ := Outcome.returned.inj h
          exact hgrow.trans hmiss
        case h_3 =>
          split_ifs at h
          · exact hgrow.trans (hmiss.trans (ih hmiss.tidy h))
          · exact hgrow.trans (ih hgrow.tidy h)

@[simp] lemma free_allocate (w : World) (addr size : UInt32) :
    (w.allocateAddress addr size).freeAddress addr = w := by
  simp [World.allocateAddress, World.freeAddress]

/-- The image of a module. -/
abbrev imageOf (w : World) (mo : ℕ) : Image := (w.registry.module mo).image

lemma linkModuleToSpace_refused (hnew : getLoadedInformation w.registry mo space = none)
    (h : a.infoBlock = false ∨ ¬w.Grants a (imageOf w mo).imageBase (imageOf w mo).imageSize) :
    ∃ r < 0, linkModuleToSpace load space a w mo = .returned r w.miss := by
  rw [linkModuleToSpace]
  dsimp only
  rw [if_neg (not_not.mpr hnew)]
  by_cases hinfo : a.infoBlock = false
  · exact ⟨_, by decide, if_pos hinfo⟩
  · rw [if_neg hinfo, if_pos (h.resolve_left hinfo)]
    exact ⟨_, by decide, rfl⟩

lemma linkModuleToSpace_granted (hnew : getLoadedInformation w.registry mo space = none)
    (hinfo : a.infoBlock = true)
    (hgrants : w.Grants a (imageOf w mo).imageBase (imageOf w mo).imageSize) :
    linkModuleToSpace load space a w mo =
      if a.duplicated ≠ (imageOf w mo).imageSize then .returned a.uninitialized w.miss
      else
        swapModule space a mo (imageOf w mo) (linkImports load space mo
          (w.allocateAddress (imageOf w mo).imageBase (imageOf w mo).imageSize)
          (importsOf (imageOf w mo))) := by
  have hinfo' : ¬a.infoBlock = false := by simp [hinfo]
  rw [linkModuleToSpace]
  dsimp only
  rw [if_neg (not_not.mpr hnew), if_neg hinfo', if_neg (not_not.mpr hgrants), free_allocate]

lemma linkModuleToSpace_grows (hload : Growing load) (hw : Tidy w)
    (h : linkModuleToSpace load space a w mo = .returned r w') : Grows w w' := by
  by_cases hloaded : getLoadedInformation w.registry mo space ≠ none
  · rw [linkModuleToSpace] at h
    dsimp only at h
    rw [if_pos hloaded] at h
    obtain ⟨-, rfl⟩ := Outcome.returned.inj h
    exact Grows.refl hw
  rw [not_not] at hloaded
  by_cases hrefused : a.infoBlock = false ∨
      ¬w.Grants a (imageOf w mo).imageBase (imageOf w mo).imageSize
  · obtain ⟨r', -, hcall⟩ := @linkModuleToSpace_refused w load space mo a hloaded hrefused
    obtain ⟨-, rfl⟩ := Outcome.returned.inj (hcall.symm.trans h)
    exact Grows.of_same hw rfl rfl
  obtain ⟨hinfo, hgrants⟩ := not_or.mp hrefused
  rw [Bool.not_eq_false] at hinfo
  rw [not_not] at hgrants
  rw [linkModuleToSpace_granted hloaded hinfo hgrants] at h
  by_cases hdup : a.duplicated ≠ (imageOf w mo).imageSize
  · rw [if_pos hdup] at h
    obtain ⟨-, rfl⟩ := Outcome.returned.inj h
    exact Grows.of_same hw rfl rfl
  rw [if_neg hdup] at h
  have halloc : Grows w (w.allocateAddress (imageOf w mo).imageBase (imageOf w mo).imageSize) :=
    Grows.allocate hw hgrants.2.2.1
  cases hlink : linkImports load space mo
      (w.allocateAddress (imageOf w mo).imageBase (imageOf w mo).imageSize)
      (importsOf (imageOf w mo)) with
  | crashed =>
    rw [hlink] at h
    cases h
  | unfinished =>
    rw [hlink] at h
    cases h
  | returned result w₁ =>
    rw [hlink, swapModule] at h
    have hgrow := halloc.trans (linkImports_grows hload halloc.tidy hlink)
    by_cases hresult : result < 0
    · rw [if_pos hresult] at h
      obtain ⟨-, rfl⟩ := Outcome.returned.inj h
      exact hgrow.free (start_ne hw hgrants)
    · rw [if_neg hresult] at h
      obtain ⟨-, rfl⟩ := Outcome.returned.inj h
      split_ifs with hswap
      · exact hgrow.trans (Grows.add hgrow.tidy _ _ _)
      · have hmiss : Grows w₁ w₁.miss := Grows.of_same hgrow.tidy rfl rfl
        exact hgrow.trans (hmiss.trans (Grows.add hmiss.tidy _ _ _))

/-- The world with a new module. -/
lemma Grows.register (h : Tidy w) (hnew : getModuleByPath w.registry path = none)
    {s : ModuleRegistry.State} (halloc : allocateModule w.registry path = (some mo, s))
    {m : ModuleRegistry.PeModule} (hm : m.loadedInformation = (s.module mo).loadedInformation)
    (hregistry : w'.registry = s.setModule mo m) (hareas : w'.areas = w.areas) : Grows w w' := by
  obtain ⟨hmo, hlist, hblocks, hother, -, hnone⟩ := allocateModule_new hnew halloc
  have hlist' : w'.registry.moduleList = w.registry.moduleList ++ [mo] := by
    rw [hregistry]
    exact hlist
  have hblocks' : w'.registry.blocks = w.registry.blocks + 1 := by
    rw [hregistry]
    exact hblocks
  have hmodule : ∀ x ∈ w.registry.moduleList, w'.registry.module x = w.registry.module x := by
    intro x hx
    have hne : x ≠ mo := by
      have hlt := h.bounded x hx
      omega
    rw [hregistry]
    exact (Function.update_of_ne hne _ _).trans (hother x hne)
  have hself : (w'.registry.module mo).loadedInformation = none := by
    rw [hregistry, ← hnone, ← hm]
    change (Function.update s.module mo m mo).loadedInformation = _
    rw [Function.update_self]
  constructor
  case moduleList =>
    rw [hlist']
    exact List.prefix_append _ _
  case blocks => omega
  case reference => exact fun x hx => by rw [hmodule x hx]
  case moduleId => exact fun x hx => by rw [hmodule x hx]
  case nodes => exact fun x hx => .inl (by rw [hmodule x hx])
  case areas =>
    rw [hareas]
    exact fun x hx => ⟨x, hx, rfl⟩
  case tidy =>
    constructor
    case bounded =>
      intro x hx
      rw [hlist', List.mem_append, List.mem_singleton] at hx
      rcases hx with hx | rfl
      · have hlt := h.bounded x hx
        omega
      · omega
    case nodes =>
      intro x hx mi hmi
      rw [hlist', List.mem_append, List.mem_singleton] at hx
      rcases hx with hx | rfl
      · rw [hmodule x hx] at hmi
        have hlt := h.nodes x hx mi hmi
        omega
      · rw [hself] at hmi
        cases hmi
    case areas =>
      rw [hareas]
      exact h.areas

/-- The image is kept, with all its sections or not. -/
lemma kept_image (a : Answer) (w : World) (addr : UInt32) :
    let w₁ := if a.sections.all id then { w with own := addr :: w.own }
      else { w with own := addr :: w.own }.miss
    w₁.registry = w.registry ∧ w₁.areas = w.areas := by
  dsimp only
  split_ifs <;> exact ⟨rfl, rfl⟩

/-- A registration either comes before the table, or leaves a longer table. -/
lemma registerModule_spec (hload : Growing load) (hw : Tidy w)
    (hnew : getModuleByPath w.registry path = none)
    (h : registerModule load space a w path addr image = .returned r w') :
    Grows w w' ∧ (w'.registry.moduleList = w.registry.moduleList →
      ModuleRegistry.MAX_MODULE ≤ w.registry.moduleList.length) := by
  rw [registerModule] at h
  dsimp only at h
  obtain ⟨hregistry, hareas⟩ := kept_image a w addr
  generalize ite (a.sections.all id = true) _ _ = w₁ at h hregistry hareas
  rw [hregistry] at h
  cases halloc : allocateModule w.registry path with
  | mk block s =>
    rw [halloc] at h
    cases block with
    | none =>
      obtain ⟨-, rfl⟩ := Outcome.returned.inj h
      refine ⟨Grows.of_same hw hregistry hareas, fun _ => ?_⟩
      rw [allocateModule, hnew] at halloc
      dsimp only at halloc
      split_ifs at halloc with hfull
      · exact hfull
      · cases (Prod.mk.inj halloc).1
    | some mo =>
      dsimp only at h
      obtain ⟨hmo, hlist, -, -, href, -⟩ := allocateModule_new hnew halloc
      by_cases hblock : a.moduleBlock = false
      · rw [if_pos hblock] at h
        cases h
      rw [if_neg hblock] at h
      generalize hw₂ : ({ w₁ with
        registry := s.setModule mo { s.module mo with loadAddress := addr, image := image }
        arrays := Function.update w₁.arrays mo a.arrayBlock } : World) = w₂ at h
      have hregistry₂ : w₂.registry =
          s.setModule mo { s.module mo with loadAddress := addr, image := image } := by
        rw [← hw₂]
      have hareas₂ : w₂.areas = w.areas := by
        rw [← hw₂]
        exact hareas
      have hgrow : Grows w w₂ := by
        apply Grows.register hw hnew halloc _ hregistry₂ hareas₂
        rfl
      have hlist₂ : w₂.registry.moduleList = w.registry.moduleList ++ [mo] := by
        rw [hregistry₂]
        exact hlist
      have hmem : mo ∈ w₂.registry.moduleList := by
        rw [hlist₂]
        exact List.mem_append_right _ (List.mem_singleton_self mo)
      have href₂ : (w₂.registry.module mo).reference = 0 := by
        rw [hregistry₂, ← href]
        change (Function.update s.module mo _ mo).reference = _
        rw [Function.update_self]
      have hfresh : mo ∉ w.registry.moduleList := fun hm => by
        have hlt := hw.bounded mo hm
        omega
      split at h
      case h_2 _ hne => exact absurd h (hne _ _)
      case h_1 result w₃ hlink =>
        have hgrow₃ := linkModuleToSpace_grows hload hgrow.tidy hlink
        have href₃ : (w₃.registry.module mo).reference = 0 := by
          rw [hgrow₃.reference mo hmem, href₂]
        have hlonger : w₃.registry.moduleList ≠ w.registry.moduleList := fun heq =>
          hfresh (heq ▸ hgrow₃.moduleList.subset hmem)
        split_ifs at h with hresult
        · obtain ⟨-, rfl⟩ := Outcome.returned.inj h
          refine ⟨(hgrow.trans hgrow₃).freeNew hfresh href₃, fun heq => absurd ?_ hlonger⟩
          rw [← heq, (freeModule_same w₃ href₃).1]
        · obtain ⟨-, rfl⟩ := Outcome.returned.inj h
          exact ⟨hgrow.trans hgrow₃, fun heq => absurd heq hlonger⟩

lemma loadLibrary_grows (hload : Growing load) (hw : Tidy w)
    (h : loadLibrary load space a w path = .returned r w') : Grows w w' := by
  rw [loadLibrary] at h
  split at h
  case h_1 mo hfound =>
    dsimp only at h
    by_cases hloaded : getLoadedInformation w.registry mo space ≠ none
    · rw [if_pos hloaded] at h
      obtain ⟨-, rfl⟩ := Outcome.returned.inj h
      exact Grows.refl hw
    rw [if_neg hloaded] at h
    split at h
    case h_2 _ hne => exact absurd h (hne _ _)
    case h_1 result w₁ hlink =>
      obtain ⟨-, rfl⟩ := Outcome.returned.inj h
      exact linkModuleToSpace_grows hload hw hlink
  case h_2 hnew =>
    split at h
    case h_1 =>
      obtain ⟨-, rfl⟩ := Outcome.returned.inj h
      exact Grows.of_same hw rfl rfl
    case h_2 => exact (registerModule_spec hload hw hnew h).1

lemma peLoadLibrary_grows (answers : ℕ → Answer) (space : UInt32) (n : ℕ) :
    Growing (peLoadLibrary answers space n) := by
  induction n with
  | zero =>
    intro w path r w' _ h
    cases h
  | succ n ih =>
    intro w path r w' hw h
    have hcall : Grows w { w with calls := w.calls + 1 } := Grows.of_same hw rfl rfl
    exact hcall.trans (loadLibrary_grows ih hcall.tidy h)

/-! ## Every call ends -/

/-- The addresses at which no area begins. -/
def room (w : World) : ℕ :=
  addressSpace - (w.areas.map fun x => x.1.toNat).toFinset.card

lemma starts_subset (h : Grows w w') :
    (w.areas.map fun x => x.1.toNat).toFinset ⊆ (w'.areas.map fun x => x.1.toNat).toFinset := by
  intro n hn
  simp only [List.mem_toFinset, List.mem_map] at hn ⊢
  obtain ⟨x, hx, rfl⟩ := hn
  obtain ⟨y, hy, hyx⟩ := h.areas x hx
  exact ⟨y, hy, by rw [hyx]⟩

lemma starts_card (w : World) :
    (w.areas.map fun x => x.1.toNat).toFinset.card ≤ addressSpace := by
  have hsub : (w.areas.map fun x => x.1.toNat).toFinset ⊆ Finset.range addressSpace := by
    intro n hn
    simp only [List.mem_toFinset, List.mem_map] at hn
    obtain ⟨x, -, rfl⟩ := hn
    exact Finset.mem_range.mpr x.1.toNat_lt
  calc
    _ ≤ (Finset.range addressSpace).card := Finset.card_le_card hsub
    _ = addressSpace := Finset.card_range _

lemma Grows.room_le (h : Grows w w') : room w' ≤ room w :=
  Nat.sub_le_sub_left (Finset.card_le_card (starts_subset h)) _

/-- A new area takes an address from the room. -/
lemma room_allocate (hw : Tidy w) {size : UInt32} (hgrants : w.Grants a addr size) :
    room (w.allocateAddress addr size) < room w := by
  have hnew : addr.toNat ∉ (w.areas.map fun x => x.1.toNat).toFinset := by
    simp only [List.mem_toFinset, List.mem_map, not_exists, not_and]
    exact fun x hx heq => start_ne hw hgrants x hx (UInt32.toNat_inj.mp heq)
  have hinsert : ((w.allocateAddress addr size).areas.map fun x => x.1.toNat).toFinset =
      insert addr.toNat (w.areas.map fun x => x.1.toNat).toFinset := by
    simp [World.allocateAddress]
  have hcard := starts_card (w.allocateAddress addr size)
  rw [hinsert, Finset.card_insert_of_notMem hnew] at hcard
  rw [room, room, hinsert, Finset.card_insert_of_notMem hnew]
  omega

lemma linkImports_ends (hload : Growing load) {n : ℕ}
    (hends : ∀ w path, Tidy w → room w < n → load w path ≠ .unfinished)
    {imports : List Import} : ∀ {w : World}, Tidy w → room w < n →
      linkImports load space mo w imports ≠ .unfinished := by
  induction imports with
  | nil =>
    intro w _ _ h
    cases h
  | cons imp rest ih =>
    intro w hw hroom h
    rw [linkImports] at h
    split at h
    case h_2 => exact hends w imp.libName hw hroom h
    case h_1 mo2Id w₁ hcall =>
      have hgrow := hload w imp.libName mo2Id w₁ hw hcall
      have hmiss : Grows w₁ w₁.miss := Grows.of_same hgrow.tidy rfl rfl
      have hroom₁ := hgrow.room_le.trans_lt hroom
      split at h
      case h_1 => cases h
      case h_2 mo2 hmo2 =>
        dsimp only at h
        by_cases harray : w₁.arrays mo = false
        · rw [if_pos harray] at h
          cases h
        rw [if_neg harray] at h
        split at h
        case h_1 => cases h
        case h_2 => cases h
        case h_3 =>
          split_ifs at h
          · exact ih hmiss.tidy (hmiss.room_le.trans_lt hroom₁) h
          · exact ih hgrow.tidy hroom₁ h

lemma swapModule_ends {outcome : Outcome} (h : outcome ≠ .unfinished) :
    swapModule space a mo image outcome ≠ .unfinished := by
  cases outcome with
  | unfinished => exact h
  | crashed => exact h
  | returned result w₁ =>
    intro hc
    rw [swapModule] at hc
    split_ifs at hc

lemma linkModuleToSpace_ends (hload : Growing load) {n : ℕ}
    (hends : ∀ w path, Tidy w → room w < n → load w path ≠ .unfinished) (hw : Tidy w)
    (hroom : room w < n + 1) : linkModuleToSpace load space a w mo ≠ .unfinished := by
  intro h
  rw [linkModuleToSpace] at h
  dsimp only at h
  by_cases hgrants : w.Grants a (w.registry.module mo).image.imageBase
      (w.registry.module mo).image.imageSize
  case neg =>
    rw [if_pos hgrants] at h
    split_ifs at h
  have halloc : Grows w (w.allocateAddress (w.registry.module mo).image.imageBase
      (w.registry.module mo).image.imageSize) := Grows.allocate hw hgrants.2.2.1
  have hlt := room_allocate hw hgrants
  have hlink := @linkImports_ends load space mo hload n hends
    (importsOf (w.registry.module mo).image) _ halloc.tidy (by omega)
  split_ifs at h
  exact swapModule_ends hlink h

lemma registerModule_ends (hload : Growing load) {n : ℕ}
    (hends : ∀ w path, Tidy w → room w < n → load w path ≠ .unfinished) (hw : Tidy w)
    (hroom : room w < n + 1) (hnew : getModuleByPath w.registry path = none) :
    registerModule load space a w path addr image ≠ .unfinished := by
  intro h
  rw [registerModule] at h
  dsimp only at h
  obtain ⟨hregistry, hareas⟩ := kept_image a w addr
  generalize ite (a.sections.all id = true) _ _ = w₁ at h hregistry hareas
  rw [hregistry] at h
  cases halloc : allocateModule w.registry path with
  | mk block s =>
    rw [halloc] at h
    cases block with
    | none => cases h
    | some mo =>
      dsimp only at h
      split_ifs at h
      generalize hw₂ : ({ w₁ with
        registry := s.setModule mo { s.module mo with loadAddress := addr, image := image }
        arrays := Function.update w₁.arrays mo a.arrayBlock } : World) = w₂ at h
      have hgrow : Grows w w₂ := by
        apply Grows.register hw hnew halloc _ (by rw [← hw₂]) (by rw [← hw₂]; exact hareas)
        rfl
      have hlink := @linkModuleToSpace_ends w₂ load space mo a hload n hends hgrow.tidy
        (hgrow.room_le.trans_lt hroom)
      generalize linkModuleToSpace load space a w₂ mo = outcome at h hlink
      cases outcome with
      | unfinished => exact hlink rfl
      | crashed => cases h
      | returned =>
        dsimp only at h
        split_ifs at h

lemma loadLibrary_ends (hload : Growing load) {n : ℕ}
    (hends : ∀ w path, Tidy w → room w < n → load w path ≠ .unfinished) (hw : Tidy w)
    (hroom : room w < n + 1) : loadLibrary load space a w path ≠ .unfinished := by
  intro h
  rw [loadLibrary] at h
  split at h
  case h_1 mo hfound =>
    have hlink := @linkModuleToSpace_ends w load space mo a hload n hends hw hroom
    generalize linkModuleToSpace load space a w mo = outcome at h hlink
    cases outcome with
    | unfinished => exact hlink rfl
    | crashed => split_ifs at h
    | returned => split_ifs at h
  case h_2 hnew =>
    split at h
    case h_1 => cases h
    case h_2 => exact registerModule_ends hload hends hw hroom hnew h

/-- A call is nested no deeper than there is room for areas. -/
lemma peLoadLibrary_ends (answers : ℕ → Answer) (space : UInt32) (n : ℕ) :
    ∀ w path, Tidy w → room w < n → peLoadLibrary answers space n w path ≠ .unfinished := by
  induction n with
  | zero => exact fun w path _ hroom => absurd hroom (Nat.not_lt_zero _)
  | succ n ih =>
    intro w path hw hroom
    have hcall : Grows w { w with calls := w.calls + 1 } := Grows.of_same hw rfl rfl
    exact loadLibrary_ends (peLoadLibrary_grows answers space n) ih hcall.tidy
      (hcall.room_le.trans_lt hroom)

/-! ## Calls that leave the registry alone -/

/-- No module and no node has come. -/
def Still (w w' : World) : Prop :=
  w'.registry.moduleList = w.registry.moduleList ∧ ∀ mo ∈ w.registry.moduleList,
    (w'.registry.module mo).loadedInformation = (w.registry.module mo).loadedInformation

lemma Same.still (h : Same w w') : Still w w' := ⟨h.moduleList, h.loadedInformation⟩

/-- What has come does not go again. -/
lemma Still.of_grows (hs : Still w w') (hw : Tidy w) (h : Grows w w₁) (h' : Grows w₁ w') :
    Still w w₁ := by
  have hlist : w₁.registry.moduleList = w.registry.moduleList := by
    apply List.IsPrefix.eq_of_length_le _ h.moduleList.length_le
    rw [← hs.1]
    exact h'.moduleList
  refine ⟨hlist, fun mo hmo => ?_⟩
  rcases h.nodes mo hmo with heq | ⟨mi, hle, hsome⟩
  · exact heq
  · have hnow := hs.2 mo hmo
    rcases h'.nodes mo (hlist ▸ hmo) with heq | ⟨mi', hle', hsome'⟩
    · exact heq.symm.trans hnow
    · rw [hsome'] at hnow
      have hlt := hw.nodes mo hmo mi' hnow.symm
      have hblocks := h.blocks
      omega

lemma not_still_add (hw : Tidy w) (h : Grows w w₁) (hmo : mo ∈ w.registry.moduleList) :
    ¬Still w (w₁.addInfo mo space addr) := by
  intro hs
  have hnow := hs.2 mo hmo
  rw [addInfo_head] at hnow
  have hlt := hw.nodes mo hmo _ hnow.symm
  have hblocks := h.blocks
  omega

/-- A link that returns and adds nothing was refused, or has failed behind the duplication or in the
imports. -/
lemma linkModuleToSpace_still (hload : Growing load) (hw : Tidy w)
    (hmo : mo ∈ w.registry.moduleList) (hnew : getLoadedInformation w.registry mo space = none)
    (h : linkModuleToSpace load space a w mo = .returned r w') (hs : Still w w') :
    (a.infoBlock = false ∨ ¬w.Grants a (imageOf w mo).imageBase (imageOf w mo).imageSize) ∧ r < 0 ∨
      a.infoBlock = true ∧ w.Grants a (imageOf w mo).imageBase (imageOf w mo).imageSize ∧
        (a.duplicated ≠ (imageOf w mo).imageSize ∧ r = a.uninitialized ∧ w' = w.miss ∨
          a.duplicated = (imageOf w mo).imageSize ∧ r < 0 ∧ ∃ w₁, Still w w₁ ∧
            linkImports load space mo
              (w.allocateAddress (imageOf w mo).imageBase (imageOf w mo).imageSize)
              (importsOf (imageOf w mo)) = .returned r w₁) := by
  by_cases hrefused : a.infoBlock = false ∨
      ¬w.Grants a (imageOf w mo).imageBase (imageOf w mo).imageSize
  · obtain ⟨r', hr', hcall⟩ := @linkModuleToSpace_refused w load space mo a hnew hrefused
    obtain ⟨rfl, -⟩ := Outcome.returned.inj (hcall.symm.trans h)
    exact .inl ⟨hrefused, hr'⟩
  obtain ⟨hinfo, hgrants⟩ := not_or.mp hrefused
  rw [Bool.not_eq_false] at hinfo
  rw [not_not] at hgrants
  refine .inr ⟨hinfo, hgrants, ?_⟩
  rw [linkModuleToSpace_granted hnew hinfo hgrants] at h
  by_cases hdup : a.duplicated = (imageOf w mo).imageSize
  case neg =>
    rw [if_pos hdup] at h
    obtain ⟨rfl, rfl⟩ := Outcome.returned.inj h
    exact .inl ⟨hdup, rfl, rfl⟩
  rw [if_neg (not_not.mpr hdup)] at h
  have halloc : Grows w (w.allocateAddress (imageOf w mo).imageBase (imageOf w mo).imageSize) :=
    Grows.allocate hw hgrants.2.2.1
  cases hlink : linkImports load space mo
      (w.allocateAddress (imageOf w mo).imageBase (imageOf w mo).imageSize)
      (importsOf (imageOf w mo)) with
  | crashed =>
    rw [hlink] at h
    cases h
  | unfinished =>
    rw [hlink] at h
    cases h
  | returned result w₁ =>
    rw [hlink, swapModule] at h
    have hgrow := halloc.trans (linkImports_grows hload halloc.tidy hlink)
    by_cases hresult : result < 0
    · rw [if_pos hresult] at h
      obtain ⟨rfl, rfl⟩ := Outcome.returned.inj h
      exact .inr ⟨hdup, hresult, w₁, hs, rfl⟩
    · rw [if_neg hresult] at h
      obtain ⟨-, rfl⟩ := Outcome.returned.inj h
      split_ifs at hs with hswap
      · exact absurd hs (not_still_add hw hgrow hmo)
      · have hmiss : Grows w₁ w₁.miss := Grows.of_same hgrow.tidy rfl rfl
        exact absurd hs (not_still_add hw (hgrow.trans hmiss) hmo)

/-- Nothing but flags and counters has changed. -/
structure Quiet (w w' : World) : Prop where
  registry : w'.registry = w.registry
  arrays : w'.arrays = w.arrays
  own : w'.own = w.own
  areas : w'.areas = w.areas

lemma Quiet.trans (h : Quiet w w') (h' : Quiet w' w₁) : Quiet w w₁ :=
  ⟨h'.registry.trans h.registry, h'.arrays.trans h.arrays, h'.own.trans h.own,
    h'.areas.trans h.areas⟩

lemma Quiet.same (h : Quiet w w') : Same w w' := by
  constructor
  case own => exact h.own
  case areas => exact h.areas
  all_goals simp [h.registry]

lemma Quiet.tidy (h : Quiet w w') (hw : Tidy w) : Tidy w' := by
  constructor
  case bounded =>
    rw [h.registry]
    exact hw.bounded
  case nodes =>
    rw [h.registry]
    exact hw.nodes
  case areas =>
    rw [h.areas]
    exact hw.areas

lemma Quiet.grants (h : Quiet w w') (size : UInt32) :
    w'.Grants a addr size ↔ w.Grants a addr size := by
  simp only [World.Grants, World.Taken, h.areas]

lemma Quiet.idle (h : Quiet w w') : Idle space a w' mo ↔ Idle space a w mo := by
  simp only [Idle, h.grants, h.registry]

lemma Quiet.still (h : Quiet w w') : Still w w₁ ↔ Still w' w₁ := by
  rw [Still, Still, h.registry]

lemma code_neg (e : LoadError) : e.code < 0 := by
  cases e <;> decide

/-- A load that returns and adds nothing has failed, or its library is idle. -/
lemma loadLibrary_still (hload : Growing load) (hw : Tidy w)
    (h : loadLibrary load space a w path = .returned r w') (hs : Still w w') :
    r < 0 ∨ ∃ mo2, getModuleByPath w.registry path = some mo2 ∧
      r = (w.registry.module mo2).moduleId.toInt32 ∧ Idle space a w mo2 ∧ Quiet w w' ∧
        w'.calls = w.calls := by
  rw [loadLibrary] at h
  cases hfound : getModuleByPath w.registry path with
  | none =>
    rw [hfound] at h
    left
    dsimp only at h
    cases hfile : a.file with
    | error e =>
      rw [hfile] at h
      obtain ⟨rfl, -⟩ := Outcome.returned.inj h
      exact code_neg e
    | ok file =>
      obtain ⟨addr, image⟩ := file
      rw [hfile] at h
      dsimp only at h
      have hfull := (registerModule_spec hload hw hfound h).2 hs.1
      rw [registerModule] at h
      dsimp only at h
      have hregistry := (kept_image a w addr).1
      generalize ite (a.sections.all id = true) _ _ = w₁ at h hregistry
      have halloc : allocateModule w.registry path = (none, w.registry) := by
        rw [allocateModule, hfound]
        exact if_pos hfull
      rw [hregistry, halloc] at h
      obtain ⟨rfl, -⟩ := Outcome.returned.inj h
      decide
  | some mo2 =>
    rw [hfound] at h
    dsimp only at h
    have hmo := List.mem_of_find?_eq_some hfound
    by_cases hloaded : getLoadedInformation w.registry mo2 space ≠ none
    · rw [if_pos hloaded] at h
      obtain ⟨rfl, rfl⟩ := Outcome.returned.inj h
      exact .inr ⟨mo2, rfl, rfl, .inl hloaded, ⟨rfl, rfl, rfl, rfl⟩, rfl⟩
    rw [if_neg hloaded] at h
    rw [not_not] at hloaded
    cases hlink : linkModuleToSpace load space a w mo2 with
    | crashed =>
      rw [hlink] at h
      cases h
    | unfinished =>
      rw [hlink] at h
      cases h
    | returned result w₁ =>
      rw [hlink] at h
      obtain ⟨hr, rfl⟩ := Outcome.returned.inj h
      by_cases hresult : result < 0
      · rw [if_pos hresult] at hr
        exact .inl (hr ▸ hresult)
      rw [if_neg hresult] at hr
      rcases linkModuleToSpace_still hload hw hmo hloaded hlink hs with
        ⟨-, hneg⟩ | ⟨hinfo, hgrants, ⟨hdup, rfl, rfl⟩ | ⟨-, hneg, -⟩⟩
      · exact absurd hneg hresult
      · exact .inr ⟨mo2, rfl, hr.symm, .inr ⟨hinfo, hgrants, hdup, Int32.not_lt.mp hresult⟩,
          ⟨rfl, rfl, rfl, rfl⟩, rfl⟩
      · exact absurd hneg hresult

/-- Without a module of a negative number, the result of a failed load names none. -/
lemma getModuleById_failed {s : ModuleRegistry.State} {mo2 : ℕ}
    (hnumbers : ∀ mo ∈ s.moduleList, 0 ≤ (s.module mo).moduleId.toInt32) (hr : r < 0)
    (h : getModuleById s r.toUInt32 = some mo2) : False := by
  have hid : (s.module mo2).moduleId = r.toUInt32 := by simpa using List.find?_some h
  have hle := hnumbers mo2 (List.mem_of_find?_eq_some h)
  rw [hid, Int32.toInt32_toUInt32] at hle
  exact absurd hr (Int32.not_lt.mpr hle)

/-- A loop that fails and has added nothing has met a missing procedure. -/
lemma linkImports_still {n : ℕ} (hw : Tidy w)
    (hnumbers : ∀ mo ∈ w.registry.moduleList, 0 ≤ (w.registry.module mo).moduleId.toInt32)
    {imports : List Import} : ∀ {w₁ : World}, Quiet w w₁ →
      linkImports (peLoadLibrary answers space n) space mo w₁ imports = .returned r w' →
        Still w w' → r < 0 →
          w.arrays mo = true ∧ ProcedureMissing answers space w w₁.calls imports := by
  induction imports with
  | nil =>
    intro w₁ _ h _ hr
    obtain ⟨rfl, -⟩ := Outcome.returned.inj h
    exact absurd hr (by decide)
  | cons imp rest ih =>
    intro w₁ hquiet h hs hr
    have hw₁ := hquiet.tidy hw
    rw [linkImports] at h
    split at h
    case h_2 _ hne => exact absurd h (hne _ _)
    case h_1 mo2Id w₂ hcall =>
      have hgrow := peLoadLibrary_grows answers space n w₁ imp.libName mo2Id w₂ hw₁ hcall
      split at h
      case h_1 => cases h
      case h_2 mo3 hmo3 =>
        dsimp only at h
        by_cases harray : w₂.arrays mo = false
        · rw [if_pos harray] at h
          cases h
        rw [if_neg harray] at h
        -- what follows the load of this library only adds to it
        have hrest : Grows w₂ w' := by
          have hmiss : Grows w₂ w₂.miss := Grows.of_same hgrow.tidy rfl rfl
          split at h
          case h_1 => cases h
          case h_2 =>
            obtain ⟨-, rfl⟩ := Outcome.returned.inj h
            exact hmiss
          case h_3 =>
            have hload := peLoadLibrary_grows answers space n
            split_ifs at h
            · exact hmiss.trans (linkImports_grows hload hmiss.tidy h)
            · exact linkImports_grows hload hgrow.tidy h
        have hs₂ : Still w₁ w₂ := (hquiet.still.mp hs).of_grows hw₁ hgrow hrest
        cases n with
        | zero => cases hcall
        | succ n =>
          have hcall' : Quiet w₁ { w₁ with calls := w₁.calls + 1 } := ⟨rfl, rfl, rfl, rfl⟩
          rcases loadLibrary_still (peLoadLibrary_grows answers space n) (hcall'.tidy hw₁) hcall
            (hcall'.still.mp hs₂) with hneg | ⟨mo2, hmo2, hid, hidle, hquiet₂, hcalls⟩
          · have hnumbers₂ : ∀ mo ∈ w₂.registry.moduleList,
                0 ≤ (w₂.registry.module mo).moduleId.toInt32 := by
              intro x hx
              rw [hs₂.1] at hx
              rw [hgrow.moduleId x hx, hquiet.registry]
              exact hnumbers x (hquiet.registry ▸ hx)
            exact (getModuleById_failed hnumbers₂ hneg hmo3).elim
          · have hq : Quiet w w₂ := hquiet.trans (hcall'.trans hquiet₂)
            have harrays : w.arrays mo = true := by
              rw [← hq.arrays]
              simpa using harray
            have hfound : getModuleByPath w.registry imp.libName = some mo2 := by
              rw [← hquiet.registry]
              exact hmo2
            have hnumber : getModuleById w.registry (w.registry.module mo2).moduleId =
                some mo3 := by
              rw [hid, UInt32.toUInt32_toInt32, hq.registry] at hmo3
              rw [← hmo3, ← hquiet.registry]
            refine ⟨harrays, mo2, hfound, (hquiet.trans hcall').idle.mp hidle, mo3, hnumber, ?_⟩
            rw [hq.registry] at h
            split at h
            case h_1 => cases h
            case h_2 hfix => exact .inl hfix
            case h_3 hfix =>
              right
              refine ⟨hfix, ?_⟩
              have hcount : w₂.calls = w₁.calls + 1 := hcalls
              rw [← hcount]
              split_ifs at h
              · have hmiss : Quiet w w₂.miss := hq.trans ⟨rfl, rfl, rfl, rfl⟩
                exact (ih hmiss h hs hr).2
              · exact (ih hq h hs hr).2

/-! ## Failures that are noticed in time -/

lemma loadLibrary_idle {mo2 : ℕ} (hfound : getModuleByPath w.registry path = some mo2)
    (hidle : Idle space a w mo2) :
    ∃ w', loadLibrary load space a w path =
        .returned (w.registry.module mo2).moduleId.toInt32 w' ∧
      Quiet w w' ∧ w'.calls = w.calls := by
  rw [loadLibrary, hfound]
  dsimp only
  by_cases hloaded : getLoadedInformation w.registry mo2 space ≠ none
  · exact ⟨w, if_pos hloaded, ⟨rfl, rfl, rfl, rfl⟩, rfl⟩
  obtain ⟨hinfo, hgrants, hdup, hresult⟩ := hidle.resolve_left hloaded
  refine ⟨w.miss, ?_, ⟨rfl, rfl, rfl, rfl⟩, rfl⟩
  rw [if_neg hloaded, linkModuleToSpace_granted (not_not.mp hloaded) hinfo hgrants, if_pos hdup]
  dsimp only
  rw [if_neg (Int32.not_lt.mpr hresult)]

lemma linkImports_missing {n : ℕ} {imports : List Import} (harray : w.arrays mo = true) :
    ∀ {w₁ : World}, Quiet w w₁ → ProcedureMissing answers space w w₁.calls imports →
      ∃ w', linkImports (peLoadLibrary answers space (n + 1)) space mo w₁ imports =
        .returned (-66) w' ∧ Quiet w w' := by
  induction imports with
  | nil => exact fun _ h => h.elim
  | cons imp rest ih =>
    rintro w₁ hquiet ⟨mo2, hfound, hidle, mo3, hnumber, hfix⟩
    have hcall : Quiet w { w₁ with calls := w₁.calls + 1 } :=
      hquiet.trans ⟨rfl, rfl, rfl, rfl⟩
    obtain ⟨w₂, hload, hquiet₂, hcalls⟩ :=
      @loadLibrary_idle _ (peLoadLibrary answers space n) space imp.libName (answers w₁.calls) mo2
        (by rw [hcall.registry]; exact hfound) (hcall.idle.mpr hidle)
    have hq := hcall.trans hquiet₂
    have hload' : peLoadLibrary answers space (n + 1) w₁ imp.libName =
        .returned (w.registry.module mo2).moduleId.toInt32 w₂ := by
      rw [← hcall.registry]
      exact hload
    have harray' : ¬w₂.arrays mo = false := by
      rw [hq.arrays, harray]
      decide
    rw [linkImports, hload']
    dsimp only
    rw [UInt32.toUInt32_toInt32, hq.registry, hnumber]
    dsimp only
    rw [if_neg harray']
    rcases hfix with hfix | ⟨hfix, hrest⟩
    · rw [hfix]
      exact ⟨_, rfl, hq.trans ⟨rfl, rfl, rfl, rfl⟩⟩
    · rw [hfix]
      dsimp only
      have hcount : w₂.calls = w₁.calls + 1 := hcalls
      rw [← hcount] at hrest
      split_ifs
      · exact ih (hq.trans ⟨rfl, rfl, rfl, rfl⟩) hrest
      · exact ih hq hrest

lemma linkModuleToSpace_fails {n : ℕ} (hnew : getLoadedInformation w.registry mo space = none)
    (hfails : LinkFails answers space w mo) :
    ∃ r < 0, ∃ w', linkModuleToSpace (peLoadLibrary answers space (n + 1)) space (answers w.calls)
      { w with calls := w.calls + 1 } mo = .returned r w' ∧ Quiet w w' := by
  have hcall : Quiet w { w with calls := w.calls + 1 } := ⟨rfl, rfl, rfl, rfl⟩
  by_cases hrefused : (answers w.calls).infoBlock = false ∨
      ¬w.Grants (answers w.calls) (imageOf w mo).imageBase (imageOf w mo).imageSize
  · obtain ⟨r, hr, hlink⟩ := @linkModuleToSpace_refused { w with calls := w.calls + 1 }
      (peLoadLibrary answers space (n + 1)) space mo (answers w.calls) hnew hrefused
    exact ⟨r, hr, _, hlink, ⟨rfl, rfl, rfl, rfl⟩⟩
  obtain ⟨hinfo, hgrants⟩ := not_or.mp hrefused
  rw [LinkFails] at hfails
  replace hfails := (hfails.resolve_left hinfo).resolve_left hgrants
  rw [linkModuleToSpace_granted (w := { w with calls := w.calls + 1 }) hnew
    (Bool.not_eq_false _ ▸ hinfo) (not_not.mp hgrants)]
  by_cases hdup : (answers w.calls).duplicated ≠ (imageOf w mo).imageSize
  · rw [if_pos hdup] at hfails ⊢
    exact ⟨_, hfails, _, rfl, ⟨rfl, rfl, rfl, rfl⟩⟩
  · rw [if_neg hdup] at hfails ⊢
    obtain ⟨harray, hmissing⟩ := hfails
    have hstart : Quiet (w.allocateAddress (imageOf w mo).imageBase (imageOf w mo).imageSize)
        (World.allocateAddress { w with calls := w.calls + 1 } (imageOf w mo).imageBase
          (imageOf w mo).imageSize) := ⟨rfl, rfl, rfl, rfl⟩
    have harray' : (w.allocateAddress (imageOf w mo).imageBase
        (imageOf w mo).imageSize).arrays mo = true := harray
    obtain ⟨w₁, hloop, hquiet⟩ := linkImports_missing (n := n) harray' hstart hmissing
    refine ⟨-66, by decide, w₁.freeAddress (imageOf w mo).imageBase, ?_, ?_⟩
    · change swapModule space _ mo _ (linkImports _ space mo _ (importsOf (imageOf w mo))) = _
      rw [hloop, swapModule]
      exact if_pos (by decide)
    · refine ⟨hquiet.registry, hquiet.arrays, hquiet.own, ?_⟩
      have hfree := congrArg World.areas
        (free_allocate w (imageOf w mo).imageBase (imageOf w mo).imageSize)
      rw [World.freeAddress, hquiet.areas]
      exact hfree

/-- A file that fails before it is registered leaves all as it is. -/
lemma registerModule_full (hnew : getModuleByPath w.registry path = none)
    (hfull : ModuleRegistry.MAX_MODULE ≤ w.registry.moduleList.length) :
    ∃ w', registerModule load space a w path addr image = .returned (-ERR_NOMEM) w' ∧
      Quiet w w' := by
  rw [registerModule]
  dsimp only
  generalize hw₁ : (if a.sections.all id then { w with own := addr :: w.own }
    else { w with own := addr :: w.own }.miss) = w₁
  have hquiet : Quiet { w with own := addr :: w.own } w₁ := by
    rw [← hw₁]
    split_ifs
    all_goals exact ⟨rfl, rfl, rfl, rfl⟩
  have halloc : allocateModule w₁.registry path = (none, w₁.registry) := by
    rw [allocateModule, hquiet.registry, hnew]
    exact if_pos hfull
  rw [halloc]
  refine ⟨_, rfl, hquiet.registry, hquiet.arrays, ?_, hquiet.areas⟩
  change w₁.own.erase addr = w.own
  rw [hquiet.own]
  exact List.erase_cons_head ..

lemma Quiet.failed (h : Quiet w w') {outcome : Outcome} :
    Failed w' outcome ↔ Failed w outcome := by
  cases outcome with
  | unfinished => exact Iff.rfl
  | crashed => exact Iff.rfl
  | returned r w₁ =>
    refine and_congr_right fun _ => ⟨fun hs => ?_, fun hs => ?_⟩
    · obtain ⟨h1, h2, h3, h4, h5, h6, h7, h8⟩ := hs
      rw [h.registry] at h1 h2 h3 h4 h5 h6
      exact ⟨h1, h2, h3, h4, h5, h6, h7.trans h.own, h8.trans h.areas⟩
    · obtain ⟨h1, h2, h3, h4, h5, h6, h7, h8⟩ := hs
      rw [← h.registry] at h1 h2 h3 h4 h5 h6
      exact ⟨h1, h2, h3, h4, h5, h6, h7.trans h.own.symm, h8.trans h.areas.symm⟩

/-- A library that is not registered. -/
lemma loadLibrary_new (hload : Growing load) (hw : Tidy w)
    (hnew : getModuleByPath w.registry path = none) :
    Failed w (loadLibrary load space a w path) ↔ FileFails a w := by
  rw [loadLibrary, hnew]
  dsimp only
  cases hfile : a.file with
  | error e =>
    exact ⟨fun _ => .inl ⟨e, hfile⟩, fun _ => ⟨code_neg e, Quiet.same ⟨rfl, rfl, rfl, rfl⟩⟩⟩
  | ok file =>
    obtain ⟨addr, image⟩ := file
    dsimp only
    constructor
    · intro hfailed
      cases hcase : registerModule load space a w path addr image with
      | unfinished =>
        rw [hcase] at hfailed
        exact hfailed.elim
      | crashed =>
        rw [hcase] at hfailed
        exact hfailed.elim
      | returned r w₁ =>
        rw [hcase] at hfailed
        exact .inr ((registerModule_spec hload hw hnew hcase).2 hfailed.2.moduleList)
    · rintro (⟨e, he⟩ | hfull)
      · rw [hfile] at he
        cases he
      · obtain ⟨w₁, hcase, hquiet⟩ := @registerModule_full w load space addr path a image hnew hfull
        rw [hcase]
        exact ⟨by decide, hquiet.same⟩

/-- A library that is registered, and not in the space. -/
lemma loadLibrary_found {n : ℕ} (hw : Tidy w)
    (hnumbers : ∀ mo ∈ w.registry.moduleList, 0 ≤ (w.registry.module mo).moduleId.toInt32)
    (hfound : getModuleByPath w.registry path = some mo)
    (hnew : getLoadedInformation w.registry mo space = none) :
    Failed w (loadLibrary (peLoadLibrary answers space (n + 1)) space (answers w.calls)
      { w with calls := w.calls + 1 } path) ↔ LinkFails answers space w mo := by
  have hcall : Quiet w { w with calls := w.calls + 1 } := ⟨rfl, rfl, rfl, rfl⟩
  have hmo := List.mem_of_find?_eq_some hfound
  rw [loadLibrary]
  dsimp only
  rw [hfound]
  dsimp only
  rw [if_neg (not_not.mpr hnew)]
  constructor
  · intro hfailed
    cases hlink : linkModuleToSpace (peLoadLibrary answers space (n + 1)) space (answers w.calls)
        { w with calls := w.calls + 1 } mo with
    | unfinished =>
      rw [hlink] at hfailed
      exact hfailed.elim
    | crashed =>
      rw [hlink] at hfailed
      exact hfailed.elim
    | returned result w₁ =>
      rw [hlink] at hfailed
      obtain ⟨hneg, hsame⟩ := hfailed
      have hresult : result < 0 := by
        by_contra hresult
        rw [if_neg hresult] at hneg
        exact absurd hneg (Int32.not_lt.mpr (hnumbers mo hmo))
      rcases linkModuleToSpace_still (peLoadLibrary_grows answers space (n + 1)) (hcall.tidy hw)
        hmo hnew hlink (hcall.still.mp hsame.still) with
        ⟨hrefused, -⟩ | ⟨hinfo, hgrants, ⟨hdup, rfl, -⟩ | ⟨hdup, -, w₂, hs, hloop⟩⟩
      · rcases hrefused with hinfo | hgrants
        · exact .inl hinfo
        · exact .inr (.inl hgrants)
      · refine .inr (.inr ?_)
        rw [if_pos hdup]
        exact hresult
      · refine .inr (.inr ?_)
        rw [if_neg (not_not.mpr hdup)]
        have halloc : Grows w (w.allocateAddress (imageOf w mo).imageBase
            (imageOf w mo).imageSize) := Grows.allocate hw hgrants.2.2.1
        have hstart : Quiet (w.allocateAddress (imageOf w mo).imageBase (imageOf w mo).imageSize)
            (World.allocateAddress { w with calls := w.calls + 1 } (imageOf w mo).imageBase
              (imageOf w mo).imageSize) := ⟨rfl, rfl, rfl, rfl⟩
        exact linkImports_still halloc.tidy hnumbers hstart hloop hs hresult
  · intro hfails
    obtain ⟨r, hr, w₁, hlink, hquiet⟩ := linkModuleToSpace_fails (n := n) hnew hfails
    rw [hlink]
    dsimp only
    rw [if_pos hr]
    exact ⟨hr, hquiet.same⟩

/-- A load that meets a failure ends in a negative result, with nothing changed, exactly if the
failure comes before a new library is registered, or before a library is linked that the call would
have to link. -/
theorem peLoadLibrary_failsClean_iff (answers : ℕ → Answer) (space : UInt32) (w : World)
    (path : List UInt8) (h : Ok w) :
    FailsClean w (peLoadLibrary answers space fuel w path) ↔
      ((peLoadLibrary answers space fuel w path).Missing → Noticed answers space w path) := by
  have hroom : room w < fuel := Nat.lt_of_le_of_lt (Nat.sub_le ..) (by decide)
  have hends := peLoadLibrary_ends answers space fuel w path h.toTidy hroom
  obtain ⟨n, hn⟩ : ∃ n, fuel = n + 2 := ⟨4294967295, rfl⟩
  rw [hn] at hends ⊢
  have hcall : Quiet w { w with calls := w.calls + 1 } := ⟨rfl, rfl, rfl, rfl⟩
  rw [FailsClean, and_iff_right hends]
  refine forall_congr' fun hmissing => ?_
  rw [peLoadLibrary] at hmissing ⊢
  rw [Noticed]
  cases hfound : getModuleByPath w.registry path with
  | none =>
    exact hcall.failed.symm.trans
      (loadLibrary_new (peLoadLibrary_grows answers space (n + 1)) (hcall.tidy h.toTidy) hfound)
  | some mo =>
    by_cases hloaded : getLoadedInformation w.registry mo space = none
    · exact loadLibrary_found h.toTidy h.numbers hfound hloaded
    · -- the library is there, and nothing is missing
      rw [loadLibrary] at hmissing
      dsimp only at hmissing
      rw [hfound] at hmissing
      dsimp only at hmissing
      rw [if_pos hloaded] at hmissing
      exact absurd (hmissing.symm.trans h.missing) (by decide)

/-- Nothing has been loaded. -/
def freshWorld : World := ⟨ModuleRegistry.started, fun _ => true, [], [], 0, false⟩

/-- All services do what they are asked, but a section of the file cannot be read. -/
def unreadable : Answer where
  file := .ok (0x10000, ModuleRegistry.emptyImage)
  sections := [false]
  moduleBlock := true
  arrayBlock := true
  infoBlock := true
  granted := true
  duplicated := 0x1000
  uninitialized := 0
  swapped := 0x1000

lemma freshWorld_ok : Ok freshWorld where
  bounded _ h := absurd h List.not_mem_nil
  nodes _ h := absurd h List.not_mem_nil
  areas _ h := absurd h List.not_mem_nil
  numbers _ h := absurd h List.not_mem_nil
  missing := rfl

theorem peLoadLibrary_failsClean_iff_unreadable :
    FailsClean freshWorld (peLoadLibrary (fun _ => unreadable) 5 fuel freshWorld [97]) ↔
      ((peLoadLibrary (fun _ => unreadable) 5 fuel freshWorld [97]).Missing →
        Noticed (fun _ => unreadable) 5 freshWorld [97]) :=
  peLoadLibrary_failsClean_iff (fun _ => unreadable) 5 freshWorld [97] freshWorld_ok

/-- The library is loaded without its section. -/
theorem not_peLoadLibrary_failsClean : ¬ ∀ (answers : ℕ → Answer) (space : UInt32) (w : World)
    (path : List UInt8), Ok w → FailsClean w (peLoadLibrary answers space fuel w path) := by
  intro h
  have hclean := (h (fun _ => unreadable) 5 freshWorld [97] freshWorld_ok).2
  have hrun : ∃ w, peLoadLibrary (fun _ => unreadable) 5 fuel freshWorld [97] = .returned 0 w ∧
      w.missing = true := ⟨_, rfl, rfl⟩
  obtain ⟨w, hw, hmissing⟩ := hrun
  rw [hw] at hclean
  exact absurd (hclean hmissing).1 (by decide)

end Sgos.ModuleLoading
