import Sgos.Vm86
import Mathlib.Tactic.IntervalCases

/-!
# Round trips through the VM86 stack

A 16-bit operand is popped from where it was pushed exactly if the offset does not wrap in between:
the linear pointer goes below the segment, and `esp` to its end. With a 32-bit operand the two never
agree.
-/
namespace Sgos.Vm86

/-- A thread in VM86 mode. -/
structure InVm86 (s : State) : Prop where
  thread : s.inVm86 = true
  mode : s.eflags &&& 0x20000 = 0x20000
  interrupts : s.eflags &&& EFLAG_IF = EFLAG_IF
  esp : s.esp.toNat < 65536
  cs : s.cs.toNat < 65536

/-- The byte belongs to the `n` bytes that are pushed, in the segment of the stack. -/
def Pushed (s : State) (n : ℕ) (a : UInt32) : Prop :=
  ∃ k, 1 ≤ k ∧ k ≤ n ∧ a = farptrToLinear s.ss (s.esp - UInt32.ofNat k)

/-- Two instructions, the first of which pushes `n` bytes, have restored everything but the
instruction pointer, which is `length` bytes on. -/
structure Restored (s s' : State) (length : UInt32) (n : ℕ) : Prop where
  flags : s'.eflags.toUInt16 = s.eflags.toUInt16
  vmflagIf : s'.vmflagIf = s.vmflagIf
  cs : s'.cs = s.cs
  eip : s'.eip = word (s.eip + length)
  esp : s'.esp = s.esp
  memory : ∀ a, s'.mem a ≠ s.mem a → Pushed s n a

/-! ## Words in memory -/

variable {mem : UInt32 → UInt8} {a b : UInt32} {v : UInt16}

lemma succ_ne (a : UInt32) : a + 1 ≠ a := by
  intro h
  simp at h

@[simp] lemma read16_write16 (mem : UInt32 → UInt8) (a : UInt32) (v : UInt16) :
    read16 (write16 mem a v) a = v := by
  unfold read16 write16
  rw [Function.update_self, Function.update_of_ne (succ_ne a).symm, Function.update_self]
  apply UInt16.toNat_inj.mp
  have hv := v.toNat_lt
  simp only [UInt16.toNat_ofNat', UInt8.toNat_ofNat']
  omega

@[simp] lemma write16_write16 (mem : UInt32 → UInt8) (a : UInt32) (v w : UInt16) :
    write16 (write16 mem a v) a w = write16 mem a w := by
  unfold write16
  funext b
  by_cases hsucc : b = a + 1
  · rw [hsucc, Function.update_self, Function.update_self]
  · rw [Function.update_of_ne hsucc, Function.update_of_ne hsucc]
    by_cases hb : b = a
    · rw [hb, Function.update_self, Function.update_self]
    · rw [Function.update_of_ne hb, Function.update_of_ne hsucc, Function.update_of_ne hb,
        Function.update_of_ne hb]

lemma write16_of_ne (h : b ≠ a) (hsucc : b ≠ a + 1) : write16 mem a v b = mem b := by
  unfold write16
  rw [Function.update_of_ne hsucc, Function.update_of_ne h]

/-- A word that begins neither at, nor just below or above the written one is kept. -/
lemma read16_write16_of_ne (h : b ≠ a) (habove : b ≠ a + 1) (hbelow : b + 1 ≠ a) :
    read16 (write16 mem a v) b = read16 mem b := by
  have hends : b + 1 ≠ a + 1 := by simpa using h
  unfold read16
  rw [write16_of_ne h habove, write16_of_ne hbelow hends]

lemma writeFlags_eq (mem : UInt32 → UInt8) (a : UInt32) (vmflagIf : Bool) (flags : UInt16) :
    writeFlags mem a vmflagIf flags = write16 mem a (setIf vmflagIf flags) := by
  unfold writeFlags
  dsimp only
  rw [read16_write16, write16_write16]

/-! ## The stack pointer -/

lemma toNat_word (x : UInt32) : (word x).toNat = x.toNat % 65536 := by
  simp [word]

lemma toNat_and (x : UInt32) : (x &&& 0xffff).toNat = x.toNat % 65536 := by
  rw [UInt32.toNat_and]
  exact Nat.and_two_pow_sub_one_eq_mod _ 16

lemma toNat_farptrToLinear (seg off : UInt32) :
    (farptrToLinear seg off).toNat = 16 * (seg.toNat % 65536) + off.toNat % 65536 := by
  have hseg : (word seg <<< 4).toNat = 16 * (seg.toNat % 65536) := by
    rw [UInt32.toNat_shiftLeft, toNat_word, Nat.shiftLeft_eq]
    have hfour : (4 : UInt32).toNat % 32 = 4 := rfl
    rw [hfour]
    omega
  unfold farptrToLinear
  rw [UInt32.toNat_add, hseg, toNat_word]
  omega

/-- Where the stack is read after `n` bytes have been pushed. -/
def top (s : State) (n : UInt32) : UInt32 :=
  farptrToLinear s.ss (((s.esp &&& 0xffff) - n) &&& 0xffff)

/-- The offset does not wrap: the top is below the old one. -/
lemma top_of_le {s : State} {n : UInt32} (hesp : s.esp.toNat < 65536) (h : n ≤ s.esp) :
    top s n = s.stack - n := by
  rw [UInt32.le_iff_toNat_le] at h
  apply UInt32.toNat_inj.mp
  have hss := s.ss.toNat_lt
  unfold top State.stack
  rw [UInt32.toNat_sub, toNat_farptrToLinear, toNat_farptrToLinear, toNat_and, UInt32.toNat_sub,
    toNat_and]
  omega

/-- The offset wraps: the top is at the end of the segment. -/
lemma top_of_lt {s : State} {n : UInt32} (hesp : s.esp.toNat < 65536) (h : ¬n ≤ s.esp)
    (hn : n.toNat ≤ 65536) : top s n = s.stack + (65536 - n) := by
  rw [UInt32.le_iff_toNat_le] at h
  apply UInt32.toNat_inj.mp
  have hss := s.ss.toNat_lt
  have hsize : (65536 - n).toNat = 65536 - n.toNat := toNat_sub_of_le hn
  unfold top State.stack
  rw [UInt32.toNat_add, hsize, toNat_farptrToLinear, toNat_farptrToLinear, toNat_and,
    UInt32.toNat_sub, toNat_and]
  omega

lemma esp_restored {x n : UInt32} (hx : x.toNat < 65536) (hn : n.toNat ≤ 65536) :
    ((((x &&& 0xffff) - n) &&& 0xffff) &&& 0xffff) + n &&& 0xffff = x := by
  apply UInt32.toNat_inj.mp
  rw [toNat_and, UInt32.toNat_add, toNat_and, toNat_and, UInt32.toNat_sub, toNat_and]
  omega

lemma word_add (x n : UInt32) : word (word x + n) = word (x + n) := by
  apply UInt32.toNat_inj.mp
  rw [toNat_word, toNat_word, UInt32.toNat_add, UInt32.toNat_add, toNat_word]
  omega

/-! ## Flags -/

/-- The word of flags that is pushed. -/
def image (s : State) (isData32 : Bool) : UInt16 :=
  setIf s.vmflagIf (if isData32 then (s.eflags &&& VALID_FLAGS).toUInt16 else s.eflags.toUInt16)

/-- The flags after a word has been popped. -/
def popped (isData32 : Bool) (w : UInt16) : UInt32 :=
  (if isData32 then w.toUInt32 &&& VALID_FLAGS else w.toUInt32) ||| EFLAG_VM ||| EFLAG_IF

/-- Popping the word restores the flags. -/
structure Restores (s : State) (isData32 : Bool) (w : UInt16) : Prop where
  flags : (popped isData32 w).toUInt16 = s.eflags.toUInt16
  vmflagIf : (w.toUInt32 &&& EFLAG_IF != 0) = s.vmflagIf

/-- Popped flags have an I/O privilege level of 3, and allow interrupts. -/
lemma popped_low (w : UInt16) : (popped false w).toUInt16 = w ||| 0x3200 := by
  unfold popped
  rw [if_neg Bool.false_ne_true, UInt32.toUInt16_or, UInt32.toUInt16_or,
    UInt16.toUInt16_toUInt32, UInt16.or_assoc]
  rfl

lemma setIf_or (vmflagIf : Bool) (e : UInt16) : setIf vmflagIf e ||| 0x3200 = e ||| 0x3200 := by
  apply UInt16.toBitVec_inj.mp
  ext i hi
  cases vmflagIf <;> interval_cases i <;> simp [setIf, EFLAG_IF]

lemma setIf_and (vmflagIf : Bool) (e : UInt16) :
    (setIf vmflagIf e).toUInt32 &&& EFLAG_IF = if vmflagIf then EFLAG_IF else 0 := by
  apply UInt32.toBitVec_inj.mp
  ext i hi
  cases vmflagIf <;> interval_cases i <;> simp [setIf, EFLAG_IF]

lemma bit_of_and {e m : UInt32} (h : e &&& m = m) (i : ℕ) (hm : m.toBitVec.getLsbD i = true) :
    e.toBitVec.getLsbD i = true := by
  rw [← h, UInt32.toBitVec_and, BitVec.getLsbD_and, Bool.and_eq_true] at hm
  exact hm.1

/-- Flags that allow interrupts are the popped ones exactly if their privilege level is 3. -/
lemma or_eq_self_iff {e : UInt32} (h : e &&& EFLAG_IF = EFLAG_IF) :
    e.toUInt16 ||| 0x3200 = e.toUInt16 ↔ e &&& EFLAG_IOPL3 = EFLAG_IOPL3 := by
  constructor
  · intro hor
    have hbits := congrArg UInt16.toBitVec hor
    have hlow := congrArg (fun b => b.getLsbD 12) hbits
    have hhigh := congrArg (fun b => b.getLsbD 13) hbits
    simp at hlow hhigh
    apply UInt32.toBitVec_inj.mp
    ext i hi
    interval_cases i <;> simp [EFLAG_IOPL3, hlow, hhigh]
  · intro hiopl
    have hinterrupts := bit_of_and h 9 (by decide)
    have hlow := bit_of_and hiopl 12 (by decide)
    have hhigh := bit_of_and hiopl 13 (by decide)
    simp at hinterrupts hlow hhigh
    apply UInt16.toBitVec_inj.mp
    ext i hi
    interval_cases i <;> simp [hinterrupts, hlow, hhigh]

/-- What is pushed restores the flags at a privilege level of 3. -/
lemma restores_image {s : State} (h : InVm86 s) :
    Restores s false (image s false) ↔ s.eflags &&& EFLAG_IOPL3 = EFLAG_IOPL3 := by
  have hlow : (popped false (image s false)).toUInt16 = s.eflags.toUInt16 ||| 0x3200 :=
    (popped_low _).trans (setIf_or _ _)
  have hvmflag : ((image s false).toUInt32 &&& EFLAG_IF != 0) = s.vmflagIf := by
    unfold image
    rw [setIf_and]
    cases s.vmflagIf <;> rfl
  rw [← or_eq_self_iff h.interrupts, ← hlow]
  exact ⟨fun hr => hr.flags, fun hflags => ⟨hflags, hvmflag⟩⟩

/-- No other flags are restored by any word. -/
lemma Restores.level {s : State} (h : InVm86 s) {w : UInt16} (hr : Restores s false w) :
    s.eflags &&& EFLAG_IOPL3 = EFLAG_IOPL3 := by
  rw [← or_eq_self_iff h.interrupts, ← hr.flags, popped_low, UInt16.or_assoc]
  rfl

/-! ## Reading and writing the stack -/

lemma changed_of_write16 {x : UInt32} (h : write16 mem a v x ≠ mem x) : x = a ∨ x = a + 1 := by
  by_contra hother
  obtain ⟨hne, hsucc⟩ := not_or.mp hother
  exact h (write16_of_ne hne hsucc)

/-- Two words at fixed distances from an address do not meet. -/
lemma read16_apart {p c d : UInt32} (hb : b = p + c) (ha : a = p + d) (h : c ≠ d)
    (habove : c ≠ d + 1) (hbelow : c + 1 ≠ d) : read16 (write16 mem a v) b = read16 mem b := by
  rw [hb, ha]
  apply read16_write16_of_ne
  · simpa using h
  · rw [UInt32.add_assoc]
    simpa using habove
  · rw [UInt32.add_assoc]
    simpa using hbelow

lemma top_eq (s : State) (n : UInt32) : top s n = farptrToLinear s.ss (s.esp - n) := by
  apply UInt32.toNat_inj.mp
  unfold top
  rw [toNat_farptrToLinear, toNat_farptrToLinear, toNat_and, UInt32.toNat_sub, toNat_and,
    UInt32.toNat_sub]
  omega

/-- A byte below the old top of the stack is one that is pushed. -/
lemma pushed_below {s : State} (h : InVm86 s) {n k : ℕ} (hk : 1 ≤ k) (hkn : k ≤ n)
    (hn : n ≤ s.esp.toNat) : Pushed s n (s.stack - UInt32.ofNat k) := by
  have hesp := h.esp
  refine ⟨k, hk, hkn, ?_⟩
  rw [← top_eq, top_of_le hesp]
  rw [UInt32.le_iff_toNat_le, UInt32.toNat_ofNat']
  omega

/-! ## Flags through the stack -/

def width (isData32 : Bool) : UInt32 := if isData32 then 4 else 2

/-- The memory after the flags have been pushed. -/
def flagsPushed (s : State) (isData32 : Bool) : UInt32 → UInt8 :=
  write16 s.mem (s.stack - 2) (image s isData32)

/-- The state after `pushf` and `popf`, in terms of the word that is popped. -/
structure Returned (s s' : State) (isData32 : Bool) (w : UInt16) : Prop where
  eflags : s'.eflags = popped isData32 w
  vmflagIf : s'.vmflagIf = (w.toUInt32 &&& EFLAG_IF != 0)
  cs : s'.cs = s.cs
  eip : s'.eip = word (s.eip + width isData32)
  esp : s'.esp = s.esp
  mem : s'.mem = flagsPushed s isData32

lemma emulatePopf_eflags (s : State) (stack : UInt32) (isData32 : Bool) :
    (emulatePopf s stack isData32).eflags = popped isData32 (read16 s.mem stack) := by
  cases isData32 <;> rfl

lemma emulatePopf_vmflagIf (s : State) (stack : UInt32) (isData32 : Bool) :
    (emulatePopf s stack isData32).vmflagIf =
      ((read16 s.mem stack).toUInt32 &&& EFLAG_IF != 0) := by
  cases isData32 <;> rfl

lemma emulatePopf_mem (s : State) (stack : UInt32) (isData32 : Bool) :
    (emulatePopf s stack isData32).mem = s.mem := by
  cases isData32 <;> rfl

lemma returned {s s₁ s₂ : State} {isData32 : Bool} (h : InVm86 s)
    (hpush : Emulates s (coded isData32 [0x9C]) s₁)
    (hpop : Emulates s₁ (coded isData32 [0x9D]) s₂) :
    Returned s s₂ isData32 (read16 (flagsPushed s isData32) (top s (width isData32))) := by
  have hpushed := hpush.pushf
  have hpopped := hpop.popf
  have hfour : (4 : UInt32).toNat ≤ 65536 := by decide
  have htwo : (2 : UInt32).toNat ≤ 65536 := by decide
  have hmem : s₁.mem = flagsPushed s isData32 := by
    rw [hpushed]
    cases isData32 <;> exact writeFlags_eq _ _ _ _
  have htop : s₁.stack = top s (width isData32) := by
    rw [hpushed]
    cases isData32 <;> rfl
  refine ⟨?_, ?_, ?_, ?_, ?_, ?_⟩
  · rw [hpopped, emulatePopf_eflags, passed_mem, hmem, htop]
  · rw [hpopped, emulatePopf_vmflagIf, passed_mem, hmem, htop]
  · rw [hpopped, hpushed]
    cases isData32 <;> rfl
  · rw [hpopped, hpushed]
    cases isData32 with
    | false =>
      have heip : word (word (s.eip + 1) + 1) = word (s.eip + 2) := by
        rw [word_add, UInt32.add_assoc]
        rfl
      exact heip
    | true =>
      have heip : word (word (word (word (s.eip + 1) + 1) + 1) + 1) = word (s.eip + 4) := by
        rw [word_add, UInt32.add_assoc, word_add, UInt32.add_assoc, word_add, UInt32.add_assoc]
        rfl
      exact heip
  · rw [hpopped, hpushed]
    cases isData32 with
    | false => exact esp_restored h.esp htwo
    | true => exact esp_restored h.esp hfour
  · rw [hpopped, emulatePopf_mem, passed_mem, hmem]

lemma Returned.restored_iff {s s' : State} {isData32 : Bool} {w : UInt16}
    (h : Returned s s' isData32 w) (n : ℕ) :
    Restored s s' (width isData32) n ↔
      Restores s isData32 w ∧ ∀ a, flagsPushed s isData32 a ≠ s.mem a → Pushed s n a := by
  constructor
  · intro hr
    have hflags := hr.flags
    have hvmflag := hr.vmflagIf
    have hmemory := hr.memory
    rw [h.eflags] at hflags
    rw [h.vmflagIf] at hvmflag
    rw [h.mem] at hmemory
    exact ⟨⟨hflags, hvmflag⟩, hmemory⟩
  · rintro ⟨hr, hmemory⟩
    refine ⟨?_, ?_, h.cs, h.eip, h.esp, ?_⟩
    · rw [h.eflags]
      exact hr.flags
    · rw [h.vmflagIf]
      exact hr.vmflagIf
    · rw [h.mem]
      exact hmemory

/-- The flags come back: the operand has 16 bits, the offset does not wrap, and the privilege level
is 3. Or else `popf` finds them in the memory it reads, and `pushf` changes no other words. -/
def FlagsReturn (s : State) (isData32 : Bool) : Prop :=
  (isData32 = false ∧ 2 ≤ s.esp ∧ s.eflags &&& EFLAG_IOPL3 = EFLAG_IOPL3) ∨
    (Restores s isData32 (read16 s.mem (top s (width isData32))) ∧
      ∀ a, flagsPushed s isData32 a ≠ s.mem a → Pushed s (width isData32).toNat a)

/-- The word is read where it has been written. -/
lemma read_flags_of_le {s : State} (h : InVm86 s) (hle : 2 ≤ s.esp) :
    read16 (flagsPushed s false) (top s 2) = image s false := by
  rw [top_of_le h.esp hle]
  exact read16_write16 _ _ _

/-- Otherwise the written word is another one. -/
lemma read_flags_of_not {s : State} (h : InVm86 s) {isData32 : Bool}
    (hnot : ¬(isData32 = false ∧ 2 ≤ s.esp)) :
    read16 (flagsPushed s isData32) (top s (width isData32)) =
      read16 s.mem (top s (width isData32)) := by
  have hwritten : s.stack - 2 = s.stack + (0 - 2) := by
    rw [UInt32.sub_eq_add_neg, UInt32.zero_sub]
  have hwidth : (width isData32).toNat ≤ 65536 := by cases isData32 <;> decide
  by_cases hle : width isData32 ≤ s.esp
  · cases isData32 with
    | false => exact absurd ⟨rfl, hle⟩ hnot
    | true =>
      rw [top_of_le h.esp hle]
      refine read16_apart (c := 0 - 4) ?_ hwritten (by decide) (by decide) (by decide)
      rw [UInt32.sub_eq_add_neg, UInt32.zero_sub]
      rfl
  · rw [top_of_lt h.esp hle hwidth]
    cases isData32 <;> exact read16_apart rfl hwritten (by decide) (by decide) (by decide)

lemma flags_changed {s : State} (h : InVm86 s) (hle : 2 ≤ s.esp) {a : UInt32}
    (ha : flagsPushed s false a ≠ s.mem a) : Pushed s 2 a := by
  rw [UInt32.le_iff_toNat_le] at hle
  rcases changed_of_write16 ha with rfl | rfl
  · exact pushed_below h (k := 2) (by decide) le_rfl hle
  · have hbelow := pushed_below h (k := 1) le_rfl (by decide) hle
    have hsucc : s.stack - 2 + 1 = s.stack - 1 := by
      rw [UInt32.sub_eq_add_neg, UInt32.sub_eq_add_neg, UInt32.add_assoc]
      rfl
    rw [hsucc]
    exact hbelow

lemma flags_restored_iff {s s₁ s₂ : State} {isData32 : Bool} (h : InVm86 s)
    (hpush : Emulates s (coded isData32 [0x9C]) s₁)
    (hpop : Emulates s₁ (coded isData32 [0x9D]) s₂) :
    Restored s s₂ (width isData32) (width isData32).toNat ↔ FlagsReturn s isData32 := by
  rw [(returned h hpush hpop).restored_iff]
  unfold FlagsReturn
  by_cases hcase : isData32 = false ∧ 2 ≤ s.esp
  · obtain ⟨rfl, hle⟩ := hcase
    rw [show width false = 2 from rfl, read_flags_of_le h hle, restores_image h]
    constructor
    · rintro ⟨hlevel, -⟩
      exact .inl ⟨rfl, hle, hlevel⟩
    · rintro (⟨-, -, hlevel⟩ | ⟨hr, -⟩)
      · exact ⟨hlevel, fun a ha => flags_changed h hle ha⟩
      · exact ⟨hr.level h, fun a ha => flags_changed h hle ha⟩
  · rw [read_flags_of_not h hcase]
    constructor
    · exact .inr
    · rintro (⟨hdata, hle, -⟩ | hfound)
      · exact absurd ⟨hdata, hle⟩ hcase
      · exact hfound

/-! ## Interrupt frames -/

/-- The memory after the frame of an interrupt has been pushed. -/
def framePushed (s : State) : UInt32 → UInt8 :=
  let stack := s.stack - 6
  write16 (write16 (write16 s.mem stack (s.eip + 2).toUInt16) (stack + 2) s.cs.toUInt16)
    (stack + 4) (image s false)

/-- The frame that `iret` reads at `a` leads back behind the interrupt. -/
structure RestoresFrame (s : State) (mem : UInt32 → UInt8) (a : UInt32) : Prop where
  eip : read16 mem a = (s.eip + 2).toUInt16
  cs : read16 mem (a + 2) = s.cs.toUInt16
  flags : Restores s false (read16 mem (a + 4))

/-- The interrupt returns: the offset does not wrap and the privilege level is 3, or else `iret`
finds a frame like that in the memory it reads, and the interrupt changes no other words. -/
def FrameReturns (s : State) : Prop :=
  (6 ≤ s.esp ∧ s.eflags &&& EFLAG_IOPL3 = EFLAG_IOPL3) ∨
    (RestoresFrame s s.mem (top s 6) ∧ ∀ a, framePushed s a ≠ s.mem a → Pushed s 6 a)

lemma iret_flags (w : UInt16) :
    (EFLAG_VM ||| EFLAG_IF ||| w.toUInt32).toUInt16 = (popped false w).toUInt16 := by
  unfold popped
  rw [if_neg Bool.false_ne_true, UInt32.or_comm, ← UInt32.or_assoc]

lemma toUInt32_eq_iff {w : UInt16} {x : UInt32} (hx : x.toNat < 65536) :
    w.toUInt32 = x ↔ w = x.toUInt16 := by
  rw [← UInt32.toNat_inj, ← UInt16.toNat_inj, UInt16.toNat_toUInt32, UInt32.toNat_toUInt16,
    Nat.mod_eq_of_lt hx]

lemma frame_returned {s s₁ s₂ : State} {n : UInt8} (h : InVm86 s)
    (hint : Emulates s (coded false [0xCD, n]) s₁) (hiret : Emulates s₁ (coded false [0xCF]) s₂) :
    Restored s s₂ 2 6 ↔ RestoresFrame s (framePushed s) (top s 6) ∧
      ∀ a, framePushed s a ≠ s.mem a → Pushed s 6 a := by
  have hs₁ := hint.int
  have hs₂ := hiret.iret
  have hsix : (6 : UInt32).toNat ≤ 65536 := by decide
  have hmem : s₁.mem = framePushed s := by
    rw [hs₁]
    unfold emulateInt framePushed
    dsimp only
    rw [writeFlags_eq]
    rfl
  have hmem₂ : s₂.mem = framePushed s := by
    rw [hs₂]
    exact hmem
  have htop : s₁.stack = top s 6 := by
    rw [hs₁]
    rfl
  have hesp : s₂.esp = s.esp := by
    rw [hs₂, hs₁]
    exact esp_restored h.esp hsix
  have heip : s₂.eip = (read16 (framePushed s) (top s 6)).toUInt32 := by
    rw [hs₂, ← hmem, ← htop]
    rfl
  have hcs : s₂.cs = (read16 (framePushed s) (top s 6 + 2)).toUInt32 := by
    rw [hs₂, ← hmem, ← htop]
    rfl
  have hflags : s₂.eflags.toUInt16 =
      (popped false (read16 (framePushed s) (top s 6 + 4))).toUInt16 := by
    rw [hs₂, ← hmem, ← htop, ← iret_flags]
    rfl
  have hvmflag : s₂.vmflagIf =
      ((read16 (framePushed s) (top s 6 + 4)).toUInt32 &&& EFLAG_IF != 0) := by
    rw [hs₂, ← hmem, ← htop]
    rfl
  constructor
  · rintro ⟨hf, hv, hc, he, -, hm⟩
    rw [hmem₂] at hm
    refine ⟨⟨?_, ?_, ?_, ?_⟩, hm⟩
    · rw [heip] at he
      exact UInt16.toUInt32_inj.mp he
    · exact (toUInt32_eq_iff h.cs).mp (hcs.symm.trans hc)
    · exact hflags.symm.trans hf
    · exact hvmflag.symm.trans hv
  · rintro ⟨⟨he, hc, hf⟩, hm⟩
    refine ⟨hflags.trans hf.flags, hvmflag.trans hf.vmflagIf, ?_, ?_, hesp, hmem₂ ▸ hm⟩
    · exact hcs.trans ((toUInt32_eq_iff h.cs).mpr hc)
    · rw [heip, he]
      rfl

lemma read_frame_of_le {s : State} (h : InVm86 s) (hle : 6 ≤ s.esp) :
    RestoresFrame s (framePushed s) (top s 6) ↔ s.eflags &&& EFLAG_IOPL3 = EFLAG_IOPL3 := by
  rw [top_of_le h.esp hle, ← restores_image h]
  set p := s.stack - 6 with hp
  have hzero : p = p + 0 := (UInt32.add_zero _).symm
  have heip : read16 (framePushed s) p = (s.eip + 2).toUInt16 := by
    unfold framePushed
    rw [← hp, read16_apart hzero rfl (by decide) (by decide) (by decide),
      read16_apart hzero rfl (by decide) (by decide) (by decide), read16_write16]
  have hcs : read16 (framePushed s) (p + 2) = s.cs.toUInt16 := by
    unfold framePushed
    rw [← hp, read16_apart rfl rfl (by decide) (by decide) (by decide), read16_write16]
  have hflags : read16 (framePushed s) (p + 4) = image s false := read16_write16 _ _ _
  exact ⟨fun hr => hflags ▸ hr.flags, fun hr => ⟨heip, hcs, hflags.symm ▸ hr⟩⟩

lemma read_frame_of_lt {s : State} (h : InVm86 s) (hlt : ¬6 ≤ s.esp) :
    RestoresFrame s (framePushed s) (top s 6) ↔ RestoresFrame s s.mem (top s 6) := by
  have hwraps : top s 6 = s.stack - 6 + 65536 := by
    rw [top_of_lt h.esp hlt (by decide), UInt32.sub_eq_add_neg (s.stack),
      UInt32.add_assoc]
    rfl
  have hread (d : UInt32) (hd : d = 0 ∨ d = 2 ∨ d = 4) :
      read16 (framePushed s) (top s 6 + d) = read16 s.mem (top s 6 + d) := by
    unfold framePushed
    rw [hwraps, UInt32.add_assoc]
    have hzero : s.stack - 6 = s.stack - 6 + 0 :=
      (UInt32.add_zero _).symm
    rcases hd with rfl | rfl | rfl <;>
      rw [read16_apart rfl rfl (by decide) (by decide) (by decide),
        read16_apart rfl rfl (by decide) (by decide) (by decide),
        read16_apart rfl hzero (by decide) (by decide) (by decide)]
  have heip := hread 0 (.inl rfl)
  have hcs := hread 2 (.inr (.inl rfl))
  have hflags := hread 4 (.inr (.inr rfl))
  rw [UInt32.add_zero] at heip
  constructor
  · rintro ⟨he, hc, hf⟩
    exact ⟨heip ▸ he, hcs ▸ hc, hflags ▸ hf⟩
  · rintro ⟨he, hc, hf⟩
    exact ⟨heip.symm ▸ he, hcs.symm ▸ hc, hflags.symm ▸ hf⟩

lemma frame_changed {s : State} (h : InVm86 s) (hle : 6 ≤ s.esp) {a : UInt32}
    (ha : framePushed s a ≠ s.mem a) : Pushed s 6 a := by
  rw [UInt32.le_iff_toNat_le] at hle
  have hbelow {k : ℕ} {d : UInt32} (hk : 1 ≤ k) (hk6 : k ≤ 6)
      (hd : 0 - UInt32.ofNat k = 0 - 6 + d) :
      Pushed s 6 (s.stack - 6 + d) := by
    have hpushed := pushed_below h hk hk6 hle
    rwa [UInt32.sub_eq_add_neg, ← UInt32.zero_sub, hd, ← UInt32.add_assoc, UInt32.zero_sub,
      ← UInt32.sub_eq_add_neg] at hpushed
  set p := s.stack - 6 with hp
  have hplace : a = p + 0 ∨ a = p + 1 ∨ a = p + 2 ∨ a = p + 3 ∨ a = p + 4 ∨ a = p + 5 := by
    have hassoc (c d : UInt32) : p + c + d = p + (c + d) := UInt32.add_assoc p c d
    by_contra hother
    simp only [not_or] at hother
    obtain ⟨h0, h1, h2, h3, h4, h5⟩ := hother
    rw [UInt32.add_zero] at h0
    apply ha
    unfold framePushed
    rw [← hp, write16_of_ne h4 (by rwa [hassoc]), write16_of_ne h2 (by rwa [hassoc]),
      write16_of_ne h0 h1]
  rcases hplace with rfl | rfl | rfl | rfl | rfl | rfl
  · exact hbelow (k := 6) (by decide) (by decide) rfl
  · exact hbelow (k := 5) (by decide) (by decide) rfl
  · exact hbelow (k := 4) (by decide) (by decide) rfl
  · exact hbelow (k := 3) (by decide) (by decide) rfl
  · exact hbelow (k := 2) (by decide) (by decide) rfl
  · exact hbelow (k := 1) (by decide) (by decide) rfl

lemma frame_restored_iff {s s₁ s₂ : State} {n : UInt8} (h : InVm86 s)
    (hint : Emulates s (coded false [0xCD, n]) s₁) (hiret : Emulates s₁ (coded false [0xCF]) s₂) :
    Restored s s₂ 2 6 ↔ FrameReturns s := by
  rw [frame_returned h hint hiret]
  unfold FrameReturns
  by_cases hle : 6 ≤ s.esp
  · rw [read_frame_of_le h hle]
    constructor
    · rintro ⟨hlevel, -⟩
      exact .inl ⟨hle, hlevel⟩
    · rintro (⟨-, hlevel⟩ | ⟨hr, -⟩)
      · exact ⟨hlevel, fun a ha => frame_changed h hle ha⟩
      · exact ⟨hr.flags.level h, fun a ha => frame_changed h hle ha⟩
  · rw [read_frame_of_lt h hle]
    constructor
    · exact .inr
    · rintro (⟨h6, -⟩ | hfound)
      · exact absurd h6 hle
      · exact hfound

/-- When `pushf` and `popf` with the same operand, and an interrupt and a 16-bit `iret`, restore the
thread and leave the rest of the memory alone. -/
theorem stackRoundTrips_iff (s : State) (h : InVm86 s) :
    (∀ isData32 s₁ s₂, Emulates s (coded isData32 [0x9C]) s₁ →
      Emulates s₁ (coded isData32 [0x9D]) s₂ →
      (Restored s s₂ (width isData32) (width isData32).toNat ↔ FlagsReturn s isData32)) ∧
    ∀ n s₁ s₂, Emulates s (coded false [0xCD, n]) s₁ → Emulates s₁ (coded false [0xCF]) s₂ →
      (Restored s s₂ 2 6 ↔ FrameReturns s) :=
  ⟨fun _ _ _ hpush hpop => flags_restored_iff h hpush hpop,
    fun _ _ _ hint hiret => frame_restored_iff h hint hiret⟩

/-- A thread whose memory holds `pushf` and `popf` at 0x1000, both with the prefix at 0x1010, and at
0x1020 an interrupt whose handler returns at once. -/
def thread (eip esp : UInt32) : State where
  eax := 0
  eip := eip
  cs := 0x100
  eflags := 0x23202
  esp := esp
  ss := 0x200
  inVm86 := true
  vmflagIf := true
  mem a :=
    if a = 0x1000 ∨ a = 0x1011 then 0x9C
    else if a = 0x1001 ∨ a = 0x1013 then 0x9D
    else if a = 0x1010 ∨ a = 0x1012 then 0x66
    else if a = 0x1020 then 0xCD
    else if a = 0x1021 then 0x10
    else if a = 0x43 then 0x03
    else if a = 0x3000 then 0xCF
    else 0

lemma thread_inVm86 {eip esp : UInt32} (h : esp.toNat < 65536) : InVm86 (thread eip esp) := by
  have hmode : (0x23202 : UInt32) &&& 0x20000 = 0x20000 := by decide
  have hinterrupts : (0x23202 : UInt32) &&& EFLAG_IF = EFLAG_IF := by decide
  have hcs : (0x100 : UInt32).toNat < 65536 := by decide
  exact ⟨rfl, hmode, hinterrupts, h, hcs⟩

/-- The thread has pushed its flags. -/
def threadPushed (eip esp : UInt32) (isData32 : Bool) : State :=
  emulatePushf ((thread eip esp).passed isData32) (thread eip esp).stack isData32

/-- The interrupt has been entered. -/
def threadInterrupted : State :=
  emulateInt (thread 0x20 0x100) ((thread 0x20 0x100).pointer false) (thread 0x20 0x100).stack

/-- A thread with room on the stack pushes and pops its flags, and is interrupted. -/
theorem stackRoundTrips_iff_thread :
    (∃ s, Restored (thread 0 0x100) s 2 2) ∧ ∃ s, Restored (thread 0x20 0x100) s 2 6 := by
  have hroom : (0x100 : UInt32).toNat < 65536 := by decide
  have htwo : (2 : UInt32) ≤ 0x100 := by decide
  have hsix : (6 : UInt32) ≤ 0x100 := by decide
  have hlevel : (0x23202 : UInt32) &&& EFLAG_IOPL3 = EFLAG_IOPL3 := by decide
  constructor
  · have hpush := emulates_pushf (thread 0 0x100) false rfl ⟨rfl, trivial⟩
    have hpop := emulates_popf (threadPushed 0 0x100 false) false rfl ⟨by decide +kernel, trivial⟩
    exact ⟨_, ((stackRoundTrips_iff _ (thread_inVm86 hroom)).1 false _ _ hpush hpop).mpr
      (.inl ⟨rfl, htwo, hlevel⟩)⟩
  · have hint := emulates_int (thread 0x20 0x100) 0x10 rfl ⟨rfl, rfl, trivial⟩ (by decide)
    have hiret := emulates_iret threadInterrupted rfl ⟨by decide +kernel, trivial⟩
    exact ⟨_, ((stackRoundTrips_iff _ (thread_inVm86 hroom)).2 0x10 _ _ hint hiret).mpr
      (.inl ⟨hsix, hlevel⟩)⟩

/-- The thread comes back from both instructions as it was. -/
def RoundTrips (isData32 : Bool) : Prop :=
  ∀ s s₁ s₂, InVm86 s → s.eflags &&& EFLAG_VM = EFLAG_VM →
    Emulates s (coded isData32 [0x9C]) s₁ → Emulates s₁ (coded isData32 [0x9D]) s₂ →
    Restored s s₂ (width isData32) (width isData32).toNat

/-- At the bottom of the segment the flags are popped from its end, and with a 32-bit operand from
below the word that has been pushed. -/
theorem not_stackRoundTrips : ¬RoundTrips false ∧ ¬RoundTrips true := by
  have hmode : (0x23202 : UInt32) &&& EFLAG_VM = EFLAG_VM := by decide
  constructor
  · intro hall
    have hpush := emulates_pushf (thread 0 0) false rfl ⟨rfl, trivial⟩
    have hpop := emulates_popf (threadPushed 0 0 false) false rfl ⟨by decide +kernel, trivial⟩
    have hflag := (hall _ _ _ (thread_inVm86 (by decide)) hmode hpush hpop).vmflagIf
    rw [emulatePopf_vmflagIf] at hflag
    exact absurd hflag (by decide +kernel)
  · intro hall
    have hpush := emulates_pushf (thread 0x10 0x100) true rfl ⟨rfl, rfl, trivial⟩
    have hpop := emulates_popf (threadPushed 0x10 0x100 true) true rfl
      ⟨by decide +kernel, by decide +kernel, trivial⟩
    have hflag := (hall _ _ _ (thread_inVm86 (by decide)) hmode hpush hpop).vmflagIf
    rw [emulatePopf_vmflagIf] at hflag
    exact absurd hflag (by decide +kernel)

end Sgos.Vm86
