import Mathlib.Data.List.Find
import Sgos.GuardedRun
import Sgos.ServiceRegistry

/-!
# The service table as a partial map

A service is removed by a zero in its id alone, and the lookup by name does not look at the id.
The table answers as the map of its registered services exactly as long as no removed service
answers first to a name that is looked up.
-/
namespace Sgos.ServiceRegistry
open Ipc GuardedRun

/-! ## The table refines the map -/

/-- The services that the table registers. -/
def registry (si : Table) : Registry := fun i =>
  if i < SI_MAX ∧ (si i).serviceId ≠ 0 then
    some ⟨(si i).eventFlag, (si i).threadId, (si i).serviceName⟩
  else none

/-- A slot in use bears its own number. -/
def Indexed (si : Table) : Prop :=
  ∀ i < SI_MAX, (si i).serviceId ≠ 0 → (si i).serviceId = UInt32.ofNat i

lemma registry_eq_none {si : Table} {i : ℕ} (hi : i < SI_MAX) :
    registry si i = none ↔ (si i).serviceId = 0 := by
  simp [registry, hi]

lemma registry_of_live {si : Table} {i : ℕ} (hi : i < SI_MAX) (hlive : (si i).serviceId ≠ 0) :
    registry si i = some ⟨(si i).eventFlag, (si i).threadId, (si i).serviceName⟩ :=
  if_pos ⟨hi, hlive⟩

lemma registry_of_ge {si : Table} {i : ℕ} (hi : SI_MAX ≤ i) : registry si i = none :=
  if_neg fun h => absurd h.1 (by omega)

lemma ofNat_ne_zero {i : ℕ} (h0 : 0 < i) (hi : i < SI_MAX) : UInt32.ofNat i ≠ 0 := by
  intro h
  have hmod := congrArg UInt32.toNat h
  rw [UInt32.toNat_ofNat', Nat.mod_eq_of_lt (by simp only [SI_MAX] at hi; omega)] at hmod
  exact absurd hmod h0.ne'

lemma free_registry (si : Table) : (registry si).free = freeId si := by
  refine List.find?_congr fun id hid => ?_
  obtain ⟨-, hlt⟩ := List.mem_range'_1.mp hid
  rw [Bool.eq_iff_iff, Option.isNone_iff_eq_none, registry_eq_none (by simp only [SI_MAX] at *; omega),
    beq_iff_eq]

lemma place_registry (si : Table) (id event tid : UInt32) (name : Name) :
    (addService si id event tid name).1 = (registry si).place id.toNat := by
  unfold addService Registry.place
  split_ifs with hge htaken hown hown
  · rfl
  · rcases htaken with rfl | hlive
    · exact absurd rfl hown.1
    · exact absurd ((registry_eq_none (by omega)).mp hown.2) hlive
  · rw [free_registry]
    cases freeId si <;> rfl
  · rfl
  · refine absurd ⟨fun h0 => htaken (.inl (UInt32.toNat_inj.mp h0)), ?_⟩ hown
    exact (registry_eq_none (by omega)).mpr (not_not.mp fun h => htaken (.inr h))

/-- A registration gets a free id. -/
lemma place_spec {m : Registry} {id i : ℕ} (h : m.place id = some i) :
    0 < i ∧ i < SI_MAX ∧ m i = none := by
  unfold Registry.place at h
  split_ifs at h with hge hown
  · obtain rfl := Option.some.inj h
    exact ⟨Nat.pos_of_ne_zero hown.1, by omega, hown.2⟩
  · have hmem := List.mem_range'_1.mp (List.mem_of_find?_eq_some h)
    have hfree := List.find?_some h
    exact ⟨by omega, by simp only [SI_MAX] at *; omega, by simpa using hfree⟩

lemma registry_update {si : Table} {i : ℕ} (hi : i < SI_MAX) (s : ServiceInformation) :
    registry (Function.update si i s) = Function.update (registry si) i
      (if s.serviceId ≠ 0 then some ⟨s.eventFlag, s.threadId, s.serviceName⟩ else none) := by
  funext j
  by_cases hj : j = i
  · subst hj
    simp [registry, hi]
  · simp [registry, hj]

lemma Indexed.update {si : Table} {i : ℕ} {s : ServiceInformation} (h : Indexed si)
    (hs : s.serviceId ≠ 0 → s.serviceId = UInt32.ofNat i) : Indexed (Function.update si i s) := by
  intro j hj hlive
  by_cases hji : j = i
  · subst hji
    rw [Function.update_self] at hlive ⊢
    exact hs hlive
  · rw [Function.update_of_ne hji] at hlive ⊢
    exact h j hj hlive

/-- What a registration does to the table. -/
lemma addService_cases (si : Table) (id event tid : UInt32) (name : Name) :
    (addService si id event tid name = (none, si) ∧ (registry si).place id.toNat = none) ∨
      ∃ i, (registry si).place id.toNat = some i ∧ addService si id event tid name =
        (some i, Function.update si i ⟨UInt32.ofNat i, event, tid, name⟩) := by
  have hplace := place_registry si id event tid name
  unfold addService at hplace ⊢
  split_ifs at hplace ⊢ with hge
  · exact .inl ⟨rfl, hplace.symm⟩
  all_goals
    split at hplace
    · exact .inl ⟨rfl, hplace.symm⟩
    · exact .inr ⟨_, hplace.symm, rfl⟩

lemma Indexed.addService {si : Table} (h : Indexed si) (id event tid : UInt32) (name : Name) :
    Indexed (addService si id event tid name).2 := by
  obtain ⟨heq, -⟩ | ⟨i, -, heq⟩ := addService_cases si id event tid name <;> rw [heq]
  · exact h
  · exact h.update fun _ => rfl

lemma Indexed.delService {si : Table} (h : Indexed si) (id : UInt32) :
    Indexed (delService si id) := by
  unfold ServiceRegistry.delService
  split_ifs
  · exact h.update fun hne => absurd rfl hne
  · exact h

lemma registry_delService (si : Table) (id : UInt32) :
    registry (delService si id) = Function.update (registry si) id.toNat none := by
  unfold delService
  split_ifs with hlt
  · exact (registry_update hlt _).trans (by simp)
  · rw [Function.update_eq_self_iff.mpr (registry_of_ge (by omega)).symm]

/-! ## Lookups by name -/

lemma lookupByName_eq (si : Table) (name : Name) : lookupByName si name =
    (List.range SI_MAX).find? fun i => decide ((si i).serviceName.text = name.text) :=
  List.find?_congr fun i _ => by
    rw [Bool.eq_iff_iff, beq_iff_eq, strncmp_eq_zero, decide_eq_true_iff]
    rfl

lemma findName_eq (si : Table) (name : Name) : (registry si).findName name =
    (List.range SI_MAX).find? fun i =>
      decide ((si i).serviceId ≠ 0 ∧ (si i).serviceName.text = name.text) := by
  refine List.find?_congr fun i hi => ?_
  by_cases hlive : (si i).serviceId = 0
  · rw [(registry_eq_none (List.mem_range.mp hi)).mpr hlive]
    simp [hlive]
  · rw [registry_of_live (List.mem_range.mp hi) hlive]
    simp [hlive]

/-- Before every removed service with the name there is a registered one. -/
def NoStaleName (si : Table) (name : Name) : Prop :=
  ∀ i < SI_MAX, (si i).serviceId = 0 → (si i).serviceName.text = name.text →
    ∃ j < i, (si j).serviceId ≠ 0 ∧ (si j).serviceName.text = name.text

theorem lookupByName_registry {si : Table} {name : Name} (h : NoStaleName si name) :
    lookupByName si name = (registry si).findName name := by
  rw [lookupByName_eq, findName_eq]
  cases hfind : (List.range SI_MAX).find? fun i => decide ((si i).serviceName.text = name.text) with
  | none =>
    rw [eq_comm, List.find?_eq_none]
    intro i hi
    have hne := List.find?_eq_none.mp hfind i hi
    simp_all
  | some i =>
    obtain ⟨hi, hlt, hfirst⟩ := List.find?_range_eq_some.mp hfind
    rw [eq_comm, List.find?_range_eq_some]
    refine ⟨?_, hlt, fun j hj => ?_⟩
    · refine decide_eq_true ⟨fun hdead => ?_, of_decide_eq_true hi⟩
      obtain ⟨j, hj, -, hname⟩ := h i (List.mem_range.mp hlt) hdead (of_decide_eq_true hi)
      simpa [hname] using hfirst j hj
    · have hne := hfirst j hj
      simp_all

/-- Otherwise the lookup finds a removed service. -/
theorem lookupByName_stale {si : Table} {name : Name} (h : ¬NoStaleName si name) :
    ∃ i < SI_MAX, lookupByName si name = some i ∧ (si i).serviceId = 0 := by
  simp only [NoStaleName, not_forall] at h
  obtain ⟨i, hi, hdead, hname, hnone⟩ := h
  rw [lookupByName_eq]
  cases hfind : (List.range SI_MAX).find? fun i => decide ((si i).serviceName.text = name.text) with
  | none =>
    have hne := List.find?_eq_none.mp hfind i (List.mem_range.mpr hi)
    exact absurd (decide_eq_true hname) hne
  | some k =>
    obtain ⟨hk, hlt, hfirst⟩ := List.find?_range_eq_some.mp hfind
    refine ⟨k, List.mem_range.mp hlt, rfl, ?_⟩
    rcases lt_trichotomy k i with hki | rfl | hik
    · by_contra hlive
      exact hnone ⟨k, hki, hlive, of_decide_eq_true hk⟩
    · exact hdead
    · simpa [hname] using hfirst i hik

/-- A service found in the map is registered. -/
lemma findName_some {si : Table} {name : Name} {i : ℕ} (h : (registry si).findName name = some i) :
    i < SI_MAX ∧ (si i).serviceId ≠ 0 := by
  rw [findName_eq] at h
  obtain ⟨hi, hlt, -⟩ := List.find?_range_eq_some.mp h
  exact ⟨List.mem_range.mp hlt, (of_decide_eq_true hi).1⟩

/-! ## Requests -/

/-- The request does not look up a name that a removed service answers to first. -/
def NoStale (si : Table) (msg : Message) : Prop :=
  msg.command = Service_LookupByName → NoStaleName si (nameArgument msg.arguments)

/-- The request is answered as the map of the registered services answers it. -/
def Agrees (si : Table) (msg : Message) : Prop :=
  (registry si).answer msg = ((serviceMessage si msg).1, registry (serviceMessage si msg).2)

lemma agrees_notify {si : Table} {msg : Message} (h : msg.command = Service_Notify) :
    Agrees si msg := by
  obtain ⟨heq, hnone⟩ | ⟨i, hsome, heq⟩ := addService_cases si msg.arguments[0] msg.arguments[1]
    msg.arguments[2] (nameArgument msg.arguments)
  · simp only [Agrees, serviceMessage, Registry.answer, if_pos h, heq, hnone]
  · obtain ⟨hpos, hlt, -⟩ := place_spec hsome
    simp only [Agrees, serviceMessage, Registry.answer, if_pos h, heq, hsome,
      Function.update_self, registry_update hlt, if_pos (ofNat_ne_zero hpos hlt)]

lemma agrees_remove {si : Table} {msg : Message} (h : msg.command = Service_Remove) :
    Agrees si msg := by
  have hne : ¬Service_Remove = Service_Notify := by decide
  simp only [Agrees, serviceMessage, Registry.answer, h, if_neg hne, if_pos, registry_delService]

lemma agrees_lookupById {si : Table} {msg : Message} (h : msg.command = Service_LookupById) :
    Agrees si msg := by
  have hne : ¬Service_LookupById = Service_Notify := by decide
  have hne' : ¬Service_LookupById = Service_Remove := by decide
  by_cases hlive : msg.arguments[0].toNat < SI_MAX ∧ (si msg.arguments[0].toNat).serviceId ≠ 0
  · simp only [Agrees, serviceMessage, Registry.answer, h, if_neg hne, if_neg hne', if_pos,
      lookupById, if_pos hlive, registry_of_live hlive.1 hlive.2]
  · have hnone : registry si msg.arguments[0].toNat = none := if_neg hlive
    simp only [Agrees, serviceMessage, Registry.answer, h, if_neg hne, if_neg hne', if_pos,
      lookupById, if_neg hlive, hnone]

lemma agrees_other {si : Table} {msg : Message} (h1 : msg.command ≠ Service_Notify)
    (h2 : msg.command ≠ Service_Remove) (h3 : msg.command ≠ Service_LookupById)
    (h4 : msg.command ≠ Service_LookupByName) : Agrees si msg := by
  simp only [Agrees, serviceMessage, Registry.answer, if_neg h1, if_neg h2, if_neg h3, if_neg h4]

/-- A lookup by name leaves the table and the map as they are. -/
lemma lookupByName_state (si : Table) {msg : Message} (h : msg.command = Service_LookupByName) :
    (serviceMessage si msg).2 = si ∧ ((registry si).answer msg).2 = registry si := by
  have hne : ¬Service_LookupByName = Service_Notify := by decide
  have hne' : ¬Service_LookupByName = Service_Remove := by decide
  have hne'' : ¬Service_LookupByName = Service_LookupById := by decide
  simp only [serviceMessage, Registry.answer, h, if_neg hne, if_neg hne', if_neg hne'', if_pos]
  constructor
  · split <;> rfl
  · split
    · rfl
    · split <;> rfl

/-- A lookup by name is answered as the map does exactly if no removed service has it first. -/
lemma lookupByName_reply {si : Table} (hsi : Indexed si) {msg : Message}
    (h : msg.command = Service_LookupByName) :
    (serviceMessage si msg).1 = ((registry si).answer msg).1 ↔
      NoStaleName si (nameArgument msg.arguments) := by
  have hne : ¬Service_LookupByName = Service_Notify := by decide
  have hne' : ¬Service_LookupByName = Service_Remove := by decide
  have hne'' : ¬Service_LookupByName = Service_LookupById := by decide
  simp only [serviceMessage, Registry.answer, h, if_neg hne, if_neg hne', if_neg hne'', if_pos]
  constructor
  · intro hreply
    by_contra hstale
    obtain ⟨i, hi, hfind, hdead⟩ := lookupByName_stale hstale
    rw [hfind] at hreply
    cases hname : (registry si).findName (nameArgument msg.arguments) with
    | none =>
      rw [hname] at hreply
      have hcode : (0 : Int32) = -ERR_NONE := congrArg Message.code hreply
      exact absurd hcode (by decide)
    | some j =>
      obtain ⟨hj, hlive⟩ := findName_some hname
      simp only [hname, registry_of_live hj hlive] at hreply
      have hid := congrArg (fun m : Message => m.arguments[0]) hreply
      simp only [Vector.getElem_set, hdead] at hid
      exact absurd hid.symm (hsi j hj hlive ▸ hlive)
  · intro hstale
    rw [lookupByName_registry hstale]
    cases hname : (registry si).findName (nameArgument msg.arguments) with
    | none => rfl
    | some j =>
      obtain ⟨hj, hlive⟩ := findName_some hname
      simp only [registry_of_live hj hlive, hsi j hj hlive]

lemma agrees_of_ne {si : Table} {msg : Message} (h : msg.command ≠ Service_LookupByName) :
    Agrees si msg := by
  by_cases h1 : msg.command = Service_Notify
  · exact agrees_notify h1
  by_cases h2 : msg.command = Service_Remove
  · exact agrees_remove h2
  by_cases h3 : msg.command = Service_LookupById
  · exact agrees_lookupById h3
  exact agrees_other h1 h2 h3 h

/-- Every request changes the map as it should. -/
theorem registry_next (si : Table) (msg : Message) :
    registry (serviceMessage si msg).2 = ((registry si).answer msg).2 := by
  by_cases h : msg.command = Service_LookupByName
  · obtain ⟨hsi, hmap⟩ := lookupByName_state si h
    rw [hsi, hmap]
  · exact (congrArg Prod.snd (agrees_of_ne h)).symm

theorem reply_iff {si : Table} (hsi : Indexed si) (msg : Message) :
    (serviceMessage si msg).1 = ((registry si).answer msg).1 ↔ NoStale si msg := by
  by_cases h : msg.command = Service_LookupByName
  · rw [lookupByName_reply hsi h, NoStale, forall_prop_of_true h]
  · exact iff_of_true (congrArg Prod.fst (agrees_of_ne h)).symm fun hname => absurd hname h

lemma Indexed.next {si : Table} (h : Indexed si) (msg : Message) :
    Indexed (serviceMessage si msg).2 := by
  unfold serviceMessage
  dsimp only
  split_ifs
  · split <;> exact h.addService _ _ _ _
  · exact h.delService _
  · split <;> exact h
  · split <;> exact h
  · exact h

/-- A registration leaves every registered service as it is. -/
lemma notify_keeps {si : Table} {msg : Message} (h : msg.command = Service_Notify) {i : ℕ}
    (hi : i < SI_MAX) (hlive : (si i).serviceId ≠ 0) : (serviceMessage si msg).2 i = si i := by
  obtain ⟨heq, -⟩ | ⟨k, hsome, heq⟩ := addService_cases si msg.arguments[0] msg.arguments[1]
    msg.arguments[2] (nameArgument msg.arguments)
  · simp only [serviceMessage, if_pos h, heq]
  · obtain ⟨-, hlt, hfree⟩ := place_spec hsome
    have hne : i ≠ k := by
      rintro rfl
      exact hlive ((registry_eq_none hi).mp hfree)
    simp only [serviceMessage, if_pos h, heq, Function.update_of_ne hne]

lemma Indexed.distinct {si : Table} (h : Indexed si) {i j : ℕ} (hi : i < SI_MAX) (hj : j < SI_MAX)
    (hlive : (si i).serviceId ≠ 0) (heq : (si i).serviceId = (si j).serviceId) : i = j := by
  have hlive' : (si j).serviceId ≠ 0 := heq ▸ hlive
  rw [h i hi hlive, h j hj hlive'] at heq
  have hnat := congrArg UInt32.toNat heq
  simp only [SI_MAX] at hi hj
  rwa [UInt32.toNat_ofNat', UInt32.toNat_ofNat', Nat.mod_eq_of_lt (by omega),
    Nat.mod_eq_of_lt (by omega)] at hnat

/-! ## Runs -/

lemma indexed_main (tid : UInt32) (b : UInt8) (w : UInt32) : Indexed (main tid b w) :=
  Indexed.addService (fun _ _ h => absurd rfl h) _ _ _ _

lemma registry_main (tid : UInt32) (b : UInt8) (w : UInt32) :
    registry (main tid b w) = Registry.initial tid b w := by
  funext i
  by_cases hi : i = 1
  · subst hi
    rfl
  · simp [registry, main, addService, Registry.initial, SI_MAX, hi]

lemma indexed_run (tid : UInt32) (b : UInt8) (w : UInt32) (msgs : List Message) :
    Indexed (run (next serviceMessage) (main tid b w) msgs) :=
  run_invariant Indexed (fun _ msg h => h.next msg) (indexed_main tid b w) msgs

/-- The requests are answered as by a partial map from ids to services: all replies are those of
the map, a registration leaves the registered services alone, and their ids are distinct. -/
structure Refines (tid : UInt32) (b : UInt8) (w : UInt32) (msgs : List Message) : Prop where
  replies : outputs serviceMessage (main tid b w) msgs =
    outputs Registry.answer (Registry.initial tid b w) msgs
  kept : ∀ ms msg, ms ++ [msg] <+: msgs → msg.command = Service_Notify → ∀ i < SI_MAX,
    (run (next serviceMessage) (main tid b w) ms i).serviceId ≠ 0 →
      run (next serviceMessage) (main tid b w) (ms ++ [msg]) i =
        run (next serviceMessage) (main tid b w) ms i
  distinct : ∀ ms, ms <+: msgs → ∀ i < SI_MAX, ∀ j < SI_MAX,
    (run (next serviceMessage) (main tid b w) ms i).serviceId ≠ 0 →
      (run (next serviceMessage) (main tid b w) ms i).serviceId =
        (run (next serviceMessage) (main tid b w) ms j).serviceId → i = j

/-- The registry is a partial map exactly over the runs that never look up a name to which a
removed service answers first. -/
theorem refines_iff (tid : UInt32) (b : UInt8) (w : UInt32) (msgs : List Message) :
    Refines tid b w msgs ↔ Guarded (next serviceMessage) NoStale (main tid b w) msgs := by
  have hiff : _ ↔ Guarded _ NoStale _ _ := outputs_eq_iff msgs
    (fun si m => Indexed si ∧ m = registry si)
    (fun si m msg h => ⟨h.1.next msg, by rw [h.2, registry_next]⟩)
    (fun si m msg h => by rw [h.2]; exact reply_iff h.1 msg)
    ⟨indexed_main tid b w, (registry_main tid b w).symm⟩
  refine ⟨fun h => hiff.mp h.replies, fun h => ⟨hiff.mpr h, ?_, ?_⟩⟩
  · intro ms msg _ hnotify i hi hlive
    rw [run_append]
    exact notify_keeps hnotify hi hlive
  · intro ms _ i hi j hj hlive heq
    exact (indexed_run tid b w ms).distinct hi hj hlive heq

/-- A request with the given id and name, from thread 5. -/
def request (command id : UInt32) (name : Name) : Message where
  threadId := 5
  time := 0
  command := command
  arguments := setNameArgument #v[id, 0, 5, 0, 0, 0, 0, 0, 0, 0] name
  code := 0
  large := #v[0, 0]

/-- A lookup of the name `"A"` after its only service has been removed succeeds. -/
theorem not_refines : ¬Refines 4 0 0
    [request Service_Notify 20 #v[65, 0, 0, 0, 0], request Service_Remove 20 #v[0, 0, 0, 0, 0],
      request Service_LookupByName 0 #v[65, 0, 0, 0, 0]] := by
  intro h
  exact absurd h.replies (by decide +kernel)

/-! ## The lookups of the api -/

theorem smGetServiceThreadById_registry (siList : Table) (id : UInt32) :
    smGetServiceThreadById siList id =
      ((registry siList id.toNat).map Service.thread).getD 0 := by
  unfold smGetServiceThreadById registry
  split_ifs <;> rfl

theorem smGetServiceThreadByName_registry {siList : Table} {name : Name}
    (h : NoStaleName siList name) :
    smGetServiceThreadByName siList name =
      ((((registry siList).findName name).bind (registry siList)).map Service.thread).getD 0 := by
  rw [smGetServiceThreadByName, lookupByName_registry h]
  cases hname : (registry siList).findName name with
  | none => rfl
  | some i =>
    obtain ⟨hi, hlive⟩ := findName_some hname
    simp [registry_of_live hi hlive]

end Sgos.ServiceRegistry
