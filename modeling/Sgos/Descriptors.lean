import Sgos.GuardedRun
import Mathlib.Logic.Function.Basic

/-!
# Descriptor tables

`kernel/arch/i386/mmu/gdt.c` spreads the base, the limit and the attributes of a segment, and the
entry of a gate, over the fields of a descriptor. The processor puts them together again.
-/
namespace Sgos.Descriptors
open GuardedRun

structure SEGMENT_DESC where
  limitLow : UInt16
  baseLow : UInt16
  baseMid : UInt8
  attr1 : UInt8
  limitHighAttr2 : UInt8
  baseHigh : UInt8
  deriving DecidableEq, Repr

structure GATE_DESC where
  offsetLow : UInt16
  selector : UInt16
  dcount : UInt8
  attr : UInt8
  offsetHigh : UInt16
  deriving DecidableEq, Repr

/-- The two tables, and the code segment of the gates. -/
structure Tables where
  gdt : ℕ → SEGMENT_DESC
  idt : ℕ → GATE_DESC
  idtCodeSeg : UInt16

def DA_32 : UInt32 := 0x4000
def DA_LIMIT_4K : UInt32 := 0x8000
def DA_DPL3 : UInt32 := 0x60
def DA_DRW : UInt32 := 0x92
def DA_CR : UInt32 := 0x9A
def DA_386TSS : UInt32 := 0x89

def segmentDesc (base limit attr : UInt32) : SEGMENT_DESC where
  limitLow := (limit &&& 0xFFFF).toUInt16
  baseLow := (base &&& 0xFFFF).toUInt16
  baseMid := ((base >>> 16) &&& 0xFF).toUInt8
  attr1 := (attr &&& 0xFF).toUInt8
  limitHighAttr2 := (((limit >>> 16) &&& (0xF : UInt32)) ||| ((attr >>> 8) &&& 0xF0)).toUInt8
  baseHigh := ((base >>> 24) &&& 0xFF).toUInt8

def arSetGdtEntry (t : Tables) (vector : ℕ) (base limit attr : UInt32) : Tables :=
  { t with gdt := Function.update t.gdt vector (segmentDesc base limit attr) }

def arSetIdtEntry (t : Tables) (vector : ℕ) (descType : UInt8) (handler : UInt32) : Tables :=
  { t with
    idt := Function.update t.idt vector
      { offsetLow := (handler &&& 0xFFFF).toUInt16
        selector := t.idtCodeSeg
        dcount := 0
        attr := descType
        offsetHigh := ((handler >>> 16) &&& 0xFFFF).toUInt16 } }

def arSetGate (t : Tables) (vector : ℕ) (descType : UInt8) (handle : UInt32) : Tables :=
  arSetIdtEntry t vector descType handle

def arInitializeGdt : Tables :=
  let t : Tables := ⟨fun _ => ⟨0, 0, 0, 0, 0, 0⟩, fun _ => ⟨0, 0, 0, 0, 0⟩, 0x08⟩
  let t := arSetGdtEntry t 1 0x0000 0xFFFFF (DA_CR ||| DA_32 ||| DA_LIMIT_4K)
  let t := arSetGdtEntry t 2 0x0000 0xFFFFF (DA_DRW ||| DA_LIMIT_4K ||| DA_32)
  let t := arSetGdtEntry t 3 0x0000 0xFFFFF (DA_CR ||| DA_32 ||| DA_LIMIT_4K ||| DA_DPL3)
  arSetGdtEntry t 4 0x0000 0xFFFFF (DA_DRW ||| DA_LIMIT_4K ||| DA_32 ||| DA_DPL3)

/-! ## What the processor reads -/

/-- A segment as the processor sees it. -/
structure Segment where
  base : UInt32
  limit : UInt32
  attr : UInt32
  deriving DecidableEq, Repr

def SEGMENT_DESC.segment (d : SEGMENT_DESC) : Segment where
  base := d.baseLow.toUInt32 + d.baseMid.toUInt32 * 0x10000 + d.baseHigh.toUInt32 * 0x1000000
  limit := d.limitLow.toUInt32 + (d.limitHighAttr2 % 16).toUInt32 * 0x10000
  attr := d.attr1.toUInt32 + (d.limitHighAttr2 / 16).toUInt32 * 0x1000

/-- A gate as the processor sees it. -/
structure Gate where
  selector : UInt16
  attr : UInt8
  offset : UInt32
  deriving DecidableEq, Repr

def GATE_DESC.gate (d : GATE_DESC) : Gate where
  selector := d.selector
  attr := d.attr
  offset := d.offsetLow.toUInt32 + d.offsetHigh.toUInt32 * 0x10000

section Fields
variable (x y : UInt32)

lemma and_nibble (n : ℕ) : n &&& 15 = n % 16 := Nat.and_two_pow_sub_one_eq_mod n 4

lemma and_highNibble (n : ℕ) : n &&& 240 = 16 * (n / 16 % 16) := by
  have hmask : 240 = (2 ^ 4 - 1) <<< 4 := rfl
  have hshift : 16 * (n / 16 % 16) = (n / 2 ^ 4 % 2 ^ 4) <<< 4 :=
    (Nat.mul_comm _ _).trans (Nat.shiftLeft_eq _ 4).symm
  apply Nat.eq_of_testBit_eq
  intro i
  rw [hshift, hmask, Nat.testBit_and, Nat.testBit_shiftLeft, Nat.testBit_shiftLeft,
    Nat.testBit_two_pow_sub_one, Nat.testBit_mod_two_pow, Nat.testBit_div_two_pow]
  by_cases h : 4 ≤ i
  · simp [h, Bool.and_comm]
  · simp [h]

/-- The bits of a limit in the middle are not those of an attribute. -/
lemma and_attr (n : ℕ) : n &&& 61695 = n % 256 + 4096 * (n / 4096 % 16) := by
  have hmask : 61695 = 240 <<< 8 ||| 255 := rfl
  have hhigh : n &&& 240 <<< 8 = (n / 256 &&& 240) <<< 8 := by
    apply Nat.eq_of_testBit_eq
    intro i
    rw [Nat.testBit_and, Nat.testBit_shiftLeft, Nat.testBit_shiftLeft, Nat.testBit_and,
      ← show 2 ^ 8 = 256 from rfl, Nat.testBit_div_two_pow]
    by_cases h : 8 ≤ i
    · simp [h]
    · simp [h]
  have hlow : n &&& 255 = n % 256 := Nat.and_two_pow_sub_one_eq_mod n 8
  have hlt : n % 256 < 2 ^ 8 := by omega
  rw [hmask, Nat.and_or_distrib_left, hhigh, hlow, and_highNibble, Nat.shiftLeft_eq, Nat.mul_comm,
    ← Nat.two_pow_add_eq_or_of_lt hlt]
  omega

lemma toNat_shift16 : (x >>> 16).toNat = x.toNat / 65536 := by
  rw [UInt32.toNat_shiftRight, Nat.shiftRight_eq_div_pow]
  rfl

lemma toNat_shift24 : (x >>> 24).toNat = x.toNat / 16777216 := by
  rw [UInt32.toNat_shiftRight, Nat.shiftRight_eq_div_pow]
  rfl

lemma toNat_low : (x &&& 0xFFFF).toUInt16.toUInt32.toNat = x.toNat % 65536 := by
  have hmask : x.toNat &&& 65535 = x.toNat % 65536 := Nat.and_two_pow_sub_one_eq_mod _ 16
  rw [UInt16.toNat_toUInt32, UInt32.toNat_toUInt16, UInt32.toNat_and]
  simp only [UInt32.toNat_ofNat, Nat.reduceMod, Nat.reducePow, hmask, Nat.mod_mod]

lemma toNat_byte : (x &&& 0xFF).toUInt8.toNat = x.toNat % 256 := by
  have hmask : x.toNat &&& 255 = x.toNat % 256 := Nat.and_two_pow_sub_one_eq_mod _ 8
  rw [UInt32.toNat_toUInt8, UInt32.toNat_and]
  simp only [UInt32.toNat_ofNat, Nat.reduceMod, Nat.reducePow, hmask, Nat.mod_mod]

lemma toNat_nibbles : ((x &&& 0xF) ||| (y &&& 0xF0)).toUInt8.toNat =
    x.toNat % 16 + 16 * (y.toNat / 16 % 16) := by
  rw [UInt32.toNat_toUInt8, UInt32.toNat_or, UInt32.toNat_and, UInt32.toNat_and]
  simp only [UInt32.toNat_ofNat, Nat.reduceMod, Nat.reducePow, and_nibble, and_highNibble]
  have hlt : x.toNat % 16 < 2 ^ 4 := Nat.mod_lt _ (by decide)
  have hor : 16 * (y.toNat / 16 % 16) ||| x.toNat % 16 =
      16 * (y.toNat / 16 % 16) + x.toNat % 16 :=
    (Nat.two_pow_add_eq_or_of_lt hlt (y.toNat / 16 % 16)).symm
  rw [Nat.or_comm, hor]
  omega

end Fields

/-- The fields of a segment hold 20 bits of its limit, and of its attributes all but those that the
limit takes up. -/
lemma segment_segmentDesc (base limit attr : UInt32) :
    (segmentDesc base limit attr).segment = ⟨base, limit &&& 0xFFFFF, attr &&& 0xF0FF⟩ := by
  have hbase := base.toNat_lt
  have hlimit := limit.toNat_lt
  have hattr := attr.toNat_lt
  have h8 : (attr >>> 8).toNat = attr.toNat / 256 := by
    rw [UInt32.toNat_shiftRight, Nat.shiftRight_eq_div_pow]
    rfl
  rw [SEGMENT_DESC.segment, segmentDesc, Segment.mk.injEq]
  refine ⟨?_, ?_, ?_⟩
  · apply UInt32.toNat_inj.mp
    rw [UInt32.toNat_add, UInt32.toNat_add, UInt32.toNat_mul, UInt32.toNat_mul, toNat_low,
      UInt8.toNat_toUInt32, UInt8.toNat_toUInt32, toNat_byte, toNat_byte, toNat_shift16,
      toNat_shift24]
    simp only [UInt32.toNat_ofNat, Nat.reduceMod, Nat.reducePow]
    omega
  · have hmask : limit.toNat &&& 1048575 = limit.toNat % 1048576 :=
      Nat.and_two_pow_sub_one_eq_mod _ 20
    apply UInt32.toNat_inj.mp
    rw [UInt32.toNat_add, UInt32.toNat_mul, toNat_low, UInt8.toNat_toUInt32, UInt8.toNat_mod,
      toNat_nibbles, toNat_shift16, UInt32.toNat_and]
    simp only [UInt32.toNat_ofNat, UInt8.toNat_ofNat, Nat.reduceMod, Nat.reducePow, hmask]
    omega
  · apply UInt32.toNat_inj.mp
    rw [UInt32.toNat_add, UInt32.toNat_mul, UInt8.toNat_toUInt32, toNat_byte,
      UInt8.toNat_toUInt32, UInt8.toNat_div, toNat_nibbles, h8, UInt32.toNat_and]
    simp only [UInt32.toNat_ofNat, UInt8.toNat_ofNat, Nat.reduceMod, Nat.reducePow, and_attr]
    omega

lemma gate_arSetGate (t : Tables) (vector : ℕ) (descType : UInt8) (handle : UInt32) :
    ((arSetGate t vector descType handle).idt vector).gate = ⟨t.idtCodeSeg, descType, handle⟩ := by
  have hoffset : (handle &&& 0xFFFF).toUInt16.toUInt32 +
      ((handle >>> 16) &&& 0xFFFF).toUInt16.toUInt32 * 0x10000 = handle := by
    have hlt := handle.toNat_lt
    apply UInt32.toNat_inj.mp
    rw [UInt32.toNat_add, UInt32.toNat_mul, toNat_low, toNat_low, toNat_shift16]
    simp only [UInt32.toNat_ofNat, Nat.reduceMod, Nat.reducePow] at *
    omega
  dsimp only [arSetGate, arSetIdtEntry]
  rw [Function.update_self, GATE_DESC.gate, hoffset]

/-! ## Tables that are filled -/

inductive Event
  | setGdtEntry (vector : ℕ) (base limit attr : UInt32)
  | setGate (vector : ℕ) (descType : UInt8) (handle : UInt32)
  deriving DecidableEq

def step (t : Tables) : Event → Tables
  | .setGdtEntry vector base limit attr => arSetGdtEntry t vector base limit attr
  | .setGate vector descType handle => arSetGate t vector descType handle

/-- The segment that a call sets at `i`. -/
def segmentAt (i : ℕ) : Event → Option Segment
  | .setGdtEntry vector base limit attr =>
      if i = vector then some ⟨base, limit &&& 0xFFFFF, attr &&& 0xF0FF⟩ else none
  | .setGate _ _ _ => none

/-- The gate that a call sets at `i`. -/
def gateAt (selector : UInt16) (i : ℕ) : Event → Option Gate
  | .setGdtEntry _ _ _ _ => none
  | .setGate vector descType handle =>
      if i = vector then some ⟨selector, descType, handle⟩ else none

lemma segment_step (t : Tables) (e : Event) (i : ℕ) :
    ((step t e).gdt i).segment = (segmentAt i e).getD (t.gdt i).segment := by
  cases e with
  | setGdtEntry vector base limit attr =>
    dsimp only [step, arSetGdtEntry, segmentAt]
    by_cases hi : i = vector
    · rw [if_pos hi, hi, Function.update_self, segment_segmentDesc, Option.getD_some]
    · rw [if_neg hi, Function.update_of_ne hi, Option.getD_none]
  | setGate vector descType handle => rfl

lemma gate_step (t : Tables) (e : Event) (i : ℕ) :
    ((step t e).idt i).gate = (gateAt t.idtCodeSeg i e).getD (t.idt i).gate := by
  cases e with
  | setGdtEntry vector base limit attr => rfl
  | setGate vector descType handle =>
    dsimp only [step, gateAt]
    by_cases hi : i = vector
    · rw [if_pos hi, hi, gate_arSetGate, Option.getD_some]
    · rw [if_neg hi, Option.getD_none]
      dsimp only [arSetGate, arSetIdtEntry]
      rw [Function.update_of_ne hi]

lemma idtCodeSeg_step (t : Tables) (e : Event) : (step t e).idtCodeSeg = t.idtCodeSeg := by
  cases e <;> rfl

/-- After any calls the processor reads at each place what the last call for it has set, with 20
bits of a limit, and without the bits of the attributes that a limit takes up. -/
theorem run_reads (t : Tables) (es : List Event) (i : ℕ) :
    ((run step t es).gdt i).segment =
        (es.reverse.findSome? (segmentAt i)).getD (t.gdt i).segment ∧
      ((run step t es).idt i).gate =
        (es.reverse.findSome? (gateAt t.idtCodeSeg i)).getD (t.idt i).gate := by
  induction es generalizing t with
  | nil => exact ⟨rfl, rfl⟩
  | cons e es ih =>
    obtain ⟨hsegment, hgate⟩ := ih (step t e)
    rw [run_cons, List.reverse_cons, List.findSome?_append, List.findSome?_append]
    constructor
    · rw [hsegment, segment_step]
      cases es.reverse.findSome? (segmentAt i) with
      | some x => simp
      | none => cases h : segmentAt i e <;> simp [h]
    · rw [hgate, gate_step, idtCodeSeg_step]
      cases es.reverse.findSome? (gateAt t.idtCodeSeg i) with
      | some x => simp
      | none => cases h : gateAt t.idtCodeSeg i e <;> simp [h]

end Sgos.Descriptors
