import Sgos.GuardedRun
import Sgos.Machine

/-!
# The handlers of the hardware interrupts

The table of `kernel/start/hwintr.c`. A row holds the ids of up to four threads, 0 in a free place.
A thread that is added takes the first free place unless it is found in front of it, and the number
of the row comes from the message as it is.
-/
namespace Sgos.InterruptHandlers
open GuardedRun

def MAX_INTERRUPT : ℕ := 32
def MAX_HANDLER_PER_INTERRUPT : ℕ := 4
def System_Interrupt : UInt32 := 0x101

/-- The loop of `KeAddHardwareInterruptHandler`, from the first place of `row` on; -1 if there is no
place. -/
def addHandler (threadId : UInt32) : List UInt32 → Int32 × List UInt32
  | [] => (-1, [])
  | h :: row =>
      if h = threadId then (0, h :: row)
      else if h = 0 then (0, threadId :: row)
      else ((addHandler threadId row).1, h :: (addHandler threadId row).2)

/-- The loop of `KeDeleteHardwareInterruptHandler`. -/
def deleteHandler (threadId : UInt32) : List UInt32 → List UInt32
  | [] => []
  | h :: row => if h = threadId then 0 :: row else h :: deleteHandler threadId row

structure Message where
  threadId : UInt32
  command : UInt32
  argument : UInt32
  deriving DecidableEq

/-- The loop of `KeHardwareInterruptMessage`: the messages that are sent, and the row. A thread that
no message can be sent to leaves it. -/
def interruptMessage (no : UInt32) (ret : UInt32 → Int32) : List UInt32 →
    List Message × List UInt32
  | [] => ([], [])
  | h :: row =>
      let rest := interruptMessage no ret row
      if h ≠ 0 then
        (⟨h, System_Interrupt, no⟩ :: rest.1, (if ret h < 0 then 0 else h) :: rest.2)
      else (rest.1, h :: rest.2)

/-- A request, or an interrupt with what each send returns. -/
inductive Event
  | add (no threadId : UInt32)
  | delete (no threadId : UInt32)
  | interrupt (irq : Fin 16) (ret : UInt32 → Int32)

/-- Beside the table: whether it has been left, what has been added and not been deleted since, and
the messages of the last event. -/
structure State where
  handlers : Fin MAX_INTERRUPT → List UInt32
  inside : Bool
  registered : Fin MAX_INTERRUPT → UInt32 → Bool
  sent : List Message

/-- `KeInitializeHardwareIntterupt`. -/
def initial : State where
  handlers _ := List.replicate MAX_HANDLER_PER_INTERRUPT 0
  inside := true
  registered _ _ := false
  sent := []

/-- The row of an interrupt. -/
def rowOf (no : UInt32) : Option (Fin MAX_INTERRUPT) :=
  if h : no.toNat < MAX_INTERRUPT then some ⟨no.toNat, h⟩ else none

lemma lines_le : 16 ≤ MAX_INTERRUPT := by decide

def lineOf (irq : Fin 16) : Fin MAX_INTERRUPT := irq.castLE lines_le

/-- A request whose number is not one of a row leaves the table. -/
def State.leave (s : State) : State := { s with inside := false, sent := [] }

/-- `KeAddHardwareInterruptHandler` in row `i`. -/
def State.add (s : State) (i : Fin MAX_INTERRUPT) (threadId : UInt32) : State :=
  { s with
    handlers := Function.update s.handlers i (addHandler threadId (s.handlers i)).2
    registered :=
      if (addHandler threadId (s.handlers i)).1 = 0 then
        Function.update s.registered i (Function.update (s.registered i) threadId true)
      else s.registered
    sent := [] }

/-- `KeDeleteHardwareInterruptHandler` in row `i`. -/
def State.delete (s : State) (i : Fin MAX_INTERRUPT) (threadId : UInt32) : State :=
  { s with
    handlers := Function.update s.handlers i (deleteHandler threadId (s.handlers i))
    registered := Function.update s.registered i (Function.update (s.registered i) threadId false)
    sent := [] }

/-- `KeHardwareInterruptMessage`. -/
def State.interrupt (s : State) (irq : Fin 16) (ret : UInt32 → Int32) : State :=
  let r := interruptMessage (UInt32.ofNat irq) ret (s.handlers (lineOf irq))
  { s with handlers := Function.update s.handlers (lineOf irq) r.2, sent := r.1 }

def step (s : State) : Event → State
  | .add no threadId => (rowOf no).elim s.leave fun i => s.add i threadId
  | .delete no threadId => (rowOf no).elim s.leave fun i => s.delete i threadId
  | .interrupt irq ret => s.interrupt irq ret

/-! ## Rows -/

variable {row : List UInt32} {t u : UInt32}

/-- Without a place the row stays, and does not hold the thread. -/
lemma addHandler_failed (h : (addHandler t row).1 ≠ 0) :
    (addHandler t row).2 = row ∧ t ∉ row := by
  induction row with
  | nil => exact ⟨rfl, List.not_mem_nil⟩
  | cons a row ih =>
    unfold addHandler at h ⊢
    split_ifs at h ⊢ with hsame hfree
    · exact absurd rfl h
    · exact absurd rfl h
    · obtain ⟨hrow, hmem⟩ := ih h
      exact ⟨congrArg (a :: ·) hrow, by simp [hmem, Ne.symm hsame]⟩

/-- A thread is added once more if it is only found behind a free place. -/
lemma count_addHandler (ht : t ≠ 0) (hadd : (addHandler t row).1 = 0) :
    (addHandler t row).2.count t =
      if t ∈ row.takeWhile (· ≠ 0) then row.count t else row.count t + 1 := by
  induction row with
  | nil => cases hadd
  | cons a row ih =>
    unfold addHandler at hadd ⊢
    by_cases hsame : a = t
    · simp [hsame, ht]
    · by_cases hfree : a = 0
      · simp [hfree, ht.symm]
      · rw [if_neg hsame, if_neg hfree] at hadd ⊢
        simp [hsame, hfree, Ne.symm hsame, ih hadd]

lemma count_addHandler_of_ne (hu : u ≠ 0) (hne : u ≠ t) :
    (addHandler t row).2.count u = row.count u := by
  induction row with
  | nil => rfl
  | cons a row ih =>
    unfold addHandler
    split_ifs with hsame hfree
    · rfl
    · simp [hfree, hne.symm, hu.symm]
    · simp [List.count_cons, ih]

lemma count_deleteHandler (ht : t ≠ 0) :
    (deleteHandler t row).count t = row.count t - 1 := by
  induction row with
  | nil => rfl
  | cons a row ih =>
    unfold deleteHandler
    split_ifs with hsame
    · simp [hsame, ht.symm]
    · simp [hsame, ih]

lemma count_deleteHandler_of_ne (hu : u ≠ 0) (hne : u ≠ t) :
    (deleteHandler t row).count u = row.count u := by
  induction row with
  | nil => rfl
  | cons a row ih =>
    unfold deleteHandler
    split_ifs with hsame
    · simp [hsame, hne.symm, hu.symm]
    · simp [List.count_cons, ih]

/-- When all sends succeed, there is a message for each place that is not free. -/
lemma interruptMessage_eq (no : UInt32) {ret : UInt32 → Int32} (hret : ∀ t, ¬ret t < 0) :
    interruptMessage no ret row =
      ((row.filter (· ≠ 0)).map fun t => ⟨t, System_Interrupt, no⟩, row) := by
  induction row with
  | nil => rfl
  | cons a row ih =>
    unfold interruptMessage
    by_cases ha : a = 0
    · simp [ha, ih]
    · simp [ha, ih, hret]

/-! ## Runs -/

/-- No thread has the id 0, and the sends succeed. -/
def Proper (_ : State) : Event → Prop
  | .add _ threadId => threadId ≠ 0
  | .delete _ threadId => threadId ≠ 0
  | .interrupt _ ret => ∀ t, ¬ret t < 0

/-- The table has not been left, and each row holds the threads that are registered, once. -/
structure Good (s : State) : Prop where
  inside : s.inside = true
  listed : ∀ i t, t ≠ 0 → (t ∈ s.handlers i ↔ s.registered i t = true)
  once : ∀ i t, t ≠ 0 → (s.handlers i).count t ≤ 1

/-- An interrupt sends each registered thread one message, and no other ones. -/
def Delivers (s : State) : Event → Prop
  | .interrupt irq ret =>
      (∀ t, t ≠ 0 → (step s (.interrupt irq ret)).sent.count
        ⟨t, System_Interrupt, UInt32.ofNat irq⟩ = if s.registered (lineOf irq) t then 1 else 0) ∧
      ∀ m ∈ (step s (.interrupt irq ret)).sent, m.command = System_Interrupt ∧
        m.argument = UInt32.ofNat irq ∧ s.registered (lineOf irq) m.threadId = true
  | e => (step s e).sent = []

/-- The number is one of a row, and a thread that is added again stands in front of the free
places. -/
def Ok (s : State) : Event → Prop
  | .add no threadId => ∃ i, rowOf no = some i ∧
      (threadId ∈ s.handlers i → threadId ∈ (s.handlers i).takeWhile (· ≠ 0))
  | .delete no _ => (rowOf no).isSome
  | .interrupt _ _ => True

/-- What a request does to one row: the threads of the others stay. -/
lemma good_update {s s' : State} (h : Good s) {i : Fin MAX_INTERRUPT} {b : Bool}
    (hinside : s'.inside = s.inside)
    (hhandlers : s'.handlers = Function.update s.handlers i row)
    (hregistered : s'.registered =
      Function.update s.registered i (Function.update (s.registered i) t b))
    (hother : ∀ u, u ≠ 0 → u ≠ t → row.count u = (s.handlers i).count u)
    (hsame : row.count t = if b then 1 else 0) : Good s' := by
  have hcount (u : UInt32) (hu : u ≠ 0) : row.count u ≤ 1 ∧
      (u ∈ row ↔ Function.update (s.registered i) t b u = true) := by
    by_cases hut : u = t
    · rw [hut, Function.update_self, ← List.count_pos_iff, hsame]
      cases b <;> simp
    · rw [Function.update_of_ne hut, ← h.listed i u hu, ← List.count_pos_iff,
        ← List.count_pos_iff, hother u hu hut]
      exact ⟨h.once i u hu, Iff.rfl⟩
  constructor
  · rw [hinside, h.inside]
  · intro j u hu
    rw [hhandlers, hregistered]
    by_cases hj : j = i
    · subst hj
      rw [Function.update_self, Function.update_self]
      exact (hcount u hu).2
    · rw [Function.update_of_ne hj, Function.update_of_ne hj]
      exact h.listed j u hu
  · intro j u hu
    rw [hhandlers]
    by_cases hj : j = i
    · subst hj
      rw [Function.update_self]
      exact (hcount u hu).1
    · rw [Function.update_of_ne hj]
      exact h.once j u hu

/-- Adding goes wrong only for a thread that stands behind a free place. -/
lemma good_add {s : State} (h : Good s) (i : Fin MAX_INTERRUPT) (ht : t ≠ 0) :
    Good (s.add i t) ↔ (t ∈ s.handlers i → t ∈ (s.handlers i).takeWhile (· ≠ 0)) := by
  have honce := h.once i t ht
  by_cases hadd : (addHandler t (s.handlers i)).1 = 0
  · have hcount := count_addHandler ht hadd
    constructor
    · intro hgood hmem
      by_contra hbehind
      have hnew := hgood.once i t ht
      have hpos := List.count_pos_iff.mpr hmem
      unfold State.add at hnew
      dsimp only at hnew
      rw [Function.update_self, hcount, if_neg hbehind] at hnew
      omega
    · intro hfront
      have hreg : (s.add i t).registered =
          Function.update s.registered i (Function.update (s.registered i) t true) := if_pos hadd
      refine good_update h rfl rfl hreg (fun u hu hne => count_addHandler_of_ne hu hne) ?_
      rw [hcount, if_pos rfl]
      by_cases hmem : t ∈ s.handlers i
      · have hpos := List.count_pos_iff.mpr hmem
        rw [if_pos (hfront hmem)]
        omega
      · rw [if_neg fun hw => hmem ((List.takeWhile_sublist _).mem hw),
          List.count_eq_zero_of_not_mem hmem]
  · obtain ⟨hsame, hmem⟩ := addHandler_failed hadd
    have hreg : (s.add i t).registered = s.registered := if_neg hadd
    have hrows : (s.add i t).handlers = s.handlers := by
      unfold State.add
      dsimp only
      rw [hsame, Function.update_eq_self]
    refine ⟨fun _ hin => absurd hin hmem, fun _ => ⟨h.inside, ?_, ?_⟩⟩
    · rw [hreg, hrows]
      exact h.listed
    · rw [hrows]
      exact h.once

lemma good_delete {s : State} (h : Good s) (i : Fin MAX_INTERRUPT) (ht : t ≠ 0) :
    Good (s.delete i t) := by
  refine good_update h rfl rfl rfl (fun u hu hne => count_deleteHandler_of_ne hu hne) ?_
  have honce := h.once i t ht
  rw [count_deleteHandler ht, if_neg Bool.false_ne_true]
  omega

lemma interrupt_eq (s : State) (irq : Fin 16) {ret : UInt32 → Int32} (hret : ∀ t, ¬ret t < 0) :
    s.interrupt irq ret = { s with sent := ((s.handlers (lineOf irq)).filter (· ≠ 0)).map fun t =>
      ⟨t, System_Interrupt, UInt32.ofNat irq⟩ } := by
  unfold State.interrupt
  rw [interruptMessage_eq _ hret]
  dsimp only
  rw [Function.update_eq_self]

lemma step_good {s : State} {e : Event} (h : Good s) (hproper : Proper s e) :
    Good (step s e) ↔ Ok s e := by
  have hleave : ¬Good s.leave := fun hgood => Bool.false_ne_true hgood.inside
  cases e with
  | add no t =>
    unfold step Ok
    dsimp only
    cases rowOf no with
    | none => exact ⟨fun hgood => absurd hgood hleave, fun ⟨i, hi, _⟩ => by cases hi⟩
    | some i =>
      rw [Option.elim_some, good_add h i hproper]
      exact ⟨fun hfront => ⟨i, rfl, hfront⟩, fun ⟨j, hj, hfront⟩ => Option.some.inj hj ▸ hfront⟩
  | delete no t =>
    unfold step Ok
    dsimp only
    cases rowOf no with
    | none => exact ⟨fun hgood => absurd hgood hleave, fun hno => by cases hno⟩
    | some i => exact ⟨fun _ => rfl, fun _ => good_delete h i hproper⟩
  | interrupt irq ret =>
    have hstep : step s (.interrupt irq ret) = _ := interrupt_eq s irq hproper
    rw [hstep]
    exact ⟨fun _ => trivial, fun _ => ⟨h.inside, h.listed, h.once⟩⟩

lemma step_delivers {s : State} {e : Event} (h : Good s) (hproper : Proper s e) :
    Delivers s e := by
  cases e with
  | add no t =>
    unfold Delivers step
    dsimp only
    cases rowOf no <;> rfl
  | delete no t =>
    unfold Delivers step
    dsimp only
    cases rowOf no <;> rfl
  | interrupt irq ret =>
    have hstep : step s (.interrupt irq ret) = _ := interrupt_eq s irq hproper
    unfold Delivers
    dsimp only
    rw [hstep]
    constructor
    · intro t ht
      have hinj : Function.Injective fun t : UInt32 =>
          (⟨t, System_Interrupt, UInt32.ofNat irq⟩ : Message) := fun a b hab =>
        congrArg Message.threadId hab
      have honce := h.once (lineOf irq) t ht
      rw [List.count_map_of_injective _ _ hinj, List.count_filter (by simpa using ht)]
      by_cases hreg : s.registered (lineOf irq) t = true
      · have hpos := List.count_pos_iff.mpr ((h.listed (lineOf irq) t ht).mpr hreg)
        rw [if_pos hreg]
        omega
      · rw [if_neg hreg, List.count_eq_zero_of_not_mem fun hmem =>
          hreg ((h.listed (lineOf irq) t ht).mp hmem)]
    · intro m hm
      obtain ⟨t, ht, rfl⟩ := List.mem_map.mp hm
      obtain ⟨hmem, hne⟩ := List.mem_filter.mp ht
      exact ⟨rfl, rfl, (h.listed (lineOf irq) t (by simpa using hne)).mp hmem⟩

lemma initial_good : Good initial := by
  refine ⟨rfl, fun i t ht => ?_, fun i t ht => ?_⟩
  · simp [initial, List.mem_replicate, ht]
  · simp [initial, List.count_replicate, ht.symm]

/-- The table is right in every state of a run, and each interrupt delivered, exactly if no request
leaves the table or adds a thread again that stands behind a free place. -/
theorem table_iff {es : List Event} (h : Guarded step Proper initial es) :
    ((∀ fs, fs <+: es → Good (run step initial fs)) ∧ Guarded step Delivers initial es) ↔
      Guarded step Ok initial es := by
  have hruns := h.forall_prefix_iff Good Good (fun s e hs hp hok => (step_good hs hp).mpr hok)
    (fun s e hs hp => step_good hs hp) initial_good initial_good
  refine ⟨fun hall => hruns.mp hall.1, fun hok => ⟨hruns.mpr hok, ?_⟩⟩
  refine ((guarded_and initial es).mpr ⟨h, hok⟩).law Good ?_ initial_good
  intro s e hs hse
  exact ⟨step_delivers hs hse.1, (step_good hs hse.1).mpr hse.2⟩

/-- A thread is added and an interrupt of its line follows. -/
def handled (irq : Fin 16) : List Event := [.add (UInt32.ofNat irq) 7, .interrupt irq fun _ => 0]

theorem table_iff_handled : (∀ fs, fs <+: handled 1 → Good (run step initial fs)) ∧
    Guarded step Delivers initial (handled 1) := by
  have hseven : (7 : UInt32) ∉ initial.handlers (lineOf 1) := by decide
  have hproper : Guarded step Proper initial (handled 1) :=
    ⟨show (7 : UInt32) ≠ 0 by decide, fun _ => show ¬(0 : Int32) < 0 by decide, trivial⟩
  exact (table_iff hproper).mpr ⟨⟨lineOf 1, rfl, fun h => absurd h hseven⟩, trivial, trivial⟩

/-- The thread 8 is added behind the thread 7, and once more when that one has gone. -/
def addedTwice : List Event := [.add 1 7, .add 1 8, .delete 1 7, .add 1 8]

theorem not_table : ¬∀ es, Guarded step Proper initial es →
    (∀ fs, fs <+: es → Good (run step initial fs)) ∧ Guarded step Delivers initial es := by
  intro hall
  have hseven : (7 : UInt32) ≠ 0 := by decide
  have height : (8 : UInt32) ≠ 0 := by decide
  have hgood := (hall addedTwice ⟨hseven, height, hseven, height, trivial⟩).1 addedTwice
    (List.prefix_refl _)
  have honce := hgood.once (lineOf 1) 8 height
  have htwice : ((run step initial addedTwice).handlers (lineOf 1)).count 8 = 2 := by decide
  rw [htwice] at honce
  exact absurd honce (by decide)

end Sgos.InterruptHandlers
