import Mathlib.Data.List.Basic

/-!
# The key map of the keyboard driver

The entries of `apps/keyboard/keymap_us.h` and the key numbers of `keyboard.h` that it uses. Sixteen
entries belong together; an entry's place is the number of its key.
-/
namespace Sgos.KeyboardMap

def KEY_NONE : UInt16 := 0

def FUN_KEY (key : UInt16) : UInt16 := 0x0100 ||| key

def KEY_CAPS : UInt16 := FUN_KEY 0x0D
def KEY_NUMBER : UInt16 := FUN_KEY 0x0E
def KEY_SCROLL : UInt16 := FUN_KEY 0x0F
def KEY_LSHIFT : UInt16 := FUN_KEY 0x30
def KEY_RSHIFT : UInt16 := FUN_KEY 0x31
def KEY_LCTRL : UInt16 := FUN_KEY 0x32
def KEY_RCTRL : UInt16 := FUN_KEY 0x33
def KEY_LALT : UInt16 := FUN_KEY 0x34
def KEY_RALT : UInt16 := FUN_KEY 0x35
def KEY_SHIFT : UInt16 := FUN_KEY 0x36
def KEY_CTRL : UInt16 := FUN_KEY 0x37
def KEY_ALT : UInt16 := FUN_KEY 0x38

/-- `KEYMAP_NORMAL` to `KEYMAP_EXTRA`: what of a key's two values depends on. -/
inductive Style
  | normal
  | shift
  | letter
  | number
  | extra
  deriving DecidableEq, Repr

structure KeyMap where
  style : Style
  nkey : UInt16
  mkey : UInt16
  deriving DecidableEq, Repr

def s_ : Style := .shift
def l_ : Style := .letter
def n_ : Style := .number
def e_ : Style := .extra

def ch (c : Char) : UInt16 := c.toNat.toUInt16

def chars (style : Style) (n m : Char) : KeyMap := ⟨style, ch n, ch m⟩

def normal (nkey : UInt16) : KeyMap := ⟨.normal, nkey, KEY_NONE⟩

def unused : KeyMap := normal KEY_NONE

def KeyMap_US : List KeyMap := [
  -- 0
  unused, normal 0x1B, chars s_ '1' '!', chars s_ '2' '@', chars s_ '3' '#', chars s_ '4' '$',
  chars s_ '5' '%', chars s_ '6' '^', chars s_ '7' '&', chars s_ '8' '*', chars s_ '9' '(',
  chars s_ '0' ')', chars s_ '-' '_', chars s_ '=' '+', normal 0x08, normal 0x09,
  -- 16
  chars l_ 'q' 'Q', chars l_ 'w' 'W', chars l_ 'e' 'E', chars l_ 'r' 'R', chars l_ 't' 'T',
  chars l_ 'y' 'Y', chars l_ 'u' 'U', chars l_ 'i' 'I', chars l_ 'o' 'O', chars l_ 'p' 'P',
  chars s_ '[' '{', chars s_ ']' '}', normal 0x0A, ⟨e_, KEY_LCTRL, KEY_CTRL⟩, chars l_ 'a' 'A',
  chars l_ 's' 'S',
  -- 32
  chars l_ 'd' 'D', chars l_ 'f' 'F', chars l_ 'g' 'G', chars l_ 'h' 'H', chars l_ 'j' 'J',
  chars l_ 'k' 'K', chars l_ 'l' 'L', chars s_ ';' ':', ⟨s_, 0x27, 0x22⟩, ⟨s_, 0x60, ch '~'⟩,
  ⟨e_, KEY_LSHIFT, KEY_SHIFT⟩, ⟨s_, 0x5C, ch '|'⟩, chars l_ 'z' 'Z', chars l_ 'x' 'X',
  chars l_ 'c' 'C', chars l_ 'v' 'V',
  -- 48
  chars l_ 'b' 'B', chars l_ 'n' 'N', chars l_ 'm' 'M', chars s_ ',' '<', chars s_ '.' '>',
  chars s_ '/' '?', ⟨e_, KEY_RSHIFT, KEY_SHIFT⟩, chars n_ '*' '*', ⟨e_, KEY_LALT, KEY_ALT⟩,
  normal 0x20, ⟨e_, KEY_CAPS, KEY_CAPS⟩, normal (FUN_KEY 0x80), normal (FUN_KEY 0x81),
  normal (FUN_KEY 0x82), normal (FUN_KEY 0x83), normal (FUN_KEY 0x84),
  -- 64
  normal (FUN_KEY 0x85), normal (FUN_KEY 0x86), normal (FUN_KEY 0x87), normal (FUN_KEY 0x88),
  normal (FUN_KEY 0x89), ⟨e_, KEY_NUMBER, KEY_NUMBER⟩, ⟨e_, KEY_SCROLL, KEY_SCROLL⟩,
  ⟨n_, FUN_KEY 0x01, ch '7'⟩, ⟨n_, FUN_KEY 0x03, ch '8'⟩, ⟨n_, FUN_KEY 0x07, ch '9'⟩,
  chars n_ '-' '-', ⟨n_, FUN_KEY 0x05, ch '4'⟩, chars n_ '5' '5', ⟨n_, FUN_KEY 0x06, ch '6'⟩,
  chars n_ '+' '+', ⟨n_, FUN_KEY 0x02, ch '1'⟩,
  -- 80
  ⟨n_, FUN_KEY 0x04, ch '2'⟩, ⟨n_, FUN_KEY 0x08, ch '3'⟩, ⟨n_, FUN_KEY 0x0C, ch '0'⟩,
  ⟨n_, 0x7F, ch '.'⟩, unused, unused, normal (FUN_KEY 0x70), normal (FUN_KEY 0x8A),
  normal (FUN_KEY 0x8B), unused, unused, unused, unused, unused, unused, unused,
  -- 96
  unused, unused, unused, unused, normal (FUN_KEY 0x8C), normal (FUN_KEY 0x8D),
  normal (FUN_KEY 0x8E), unused, unused, unused, unused, unused, unused, unused, unused, unused,
  -- 112
  normal (FUN_KEY 0x40), unused, unused, normal (FUN_KEY 0x41), unused, unused, unused, unused,
  unused, normal (FUN_KEY 0x42), unused, normal (FUN_KEY 0x43), unused, normal (FUN_KEY 0x44),
  normal (FUN_KEY 0x45), unused,
  -- 128
  unused, unused, unused, unused, unused, unused, unused, unused, unused, unused, unused, unused,
  unused, ⟨n_, FUN_KEY 0x46, FUN_KEY 0x46⟩, unused, unused,
  -- 144
  normal (FUN_KEY 0x47), normal (FUN_KEY 0x48), normal (FUN_KEY 0x49), normal (FUN_KEY 0x4A),
  normal (FUN_KEY 0x4B), normal (FUN_KEY 0x4C), normal (FUN_KEY 0x4D), normal (FUN_KEY 0x4E),
  unused, normal (FUN_KEY 0x4F), unused, unused, ⟨n_, 0x0A, 0x0A⟩, ⟨e_, KEY_RCTRL, KEY_CTRL⟩,
  unused, unused,
  -- 160
  normal (FUN_KEY 0x50), normal (FUN_KEY 0x51), normal (FUN_KEY 0x52), unused,
  normal (FUN_KEY 0x53), unused, unused, unused, unused, unused, unused, unused, unused, unused,
  normal (FUN_KEY 0x54), unused,
  -- 176
  normal (FUN_KEY 0x55), unused, normal (FUN_KEY 0x56), ⟨n_, FUN_KEY 0x71, FUN_KEY 0x71⟩, unused,
  chars n_ '/' '/', unused, normal (FUN_KEY 0x57), ⟨e_, KEY_RALT, KEY_ALT⟩, unused, unused,
  unused, unused, unused, unused, unused,
  -- 192
  unused, unused, unused, unused, unused, normal (FUN_KEY 0x58), unused, normal (FUN_KEY 0x01),
  normal (FUN_KEY 0x03), normal (FUN_KEY 0x07), unused, normal (FUN_KEY 0x05), unused,
  normal (FUN_KEY 0x06), unused, normal (FUN_KEY 0x02),
  -- 208
  normal (FUN_KEY 0x04), normal (FUN_KEY 0x08), normal (FUN_KEY 0x0C), normal 0x7F, unused,
  unused, unused, unused, unused, unused, unused, ⟨e_, FUN_KEY 0x60, FUN_KEY 0x62⟩,
  ⟨e_, FUN_KEY 0x61, FUN_KEY 0x62⟩, normal (FUN_KEY 0x63), normal (FUN_KEY 0x64),
  normal (FUN_KEY 0x65),
  -- 224
  unused, unused, unused, normal (FUN_KEY 0x66), unused, normal (FUN_KEY 0x67),
  normal (FUN_KEY 0x68), normal (FUN_KEY 0x69), normal (FUN_KEY 0x6A), normal (FUN_KEY 0x6B),
  normal (FUN_KEY 0x6C), normal (FUN_KEY 0x6D), normal (FUN_KEY 0x6E), normal (FUN_KEY 0x6F),
  unused, unused,
  -- 240
  unused, unused, unused, unused, unused, unused, unused, unused, unused, unused, unused, unused,
  unused, unused, unused, unused]

def keyMap (code : UInt32) : KeyMap := KeyMap_US.getD code.toNat unused

/-! ## Modifiers -/

inductive Modifier
  | ctrl
  | shift
  | alt
  deriving DecidableEq, Repr

/-- The modifier that a key of style `KEYMAP_EXTRA` belongs to. -/
def KeyMap.modifier (m : KeyMap) : Option Modifier :=
  if m.style ≠ .extra then none
  else if m.nkey = KEY_LCTRL ∨ m.nkey = KEY_RCTRL then some .ctrl
  else if m.nkey = KEY_LSHIFT ∨ m.nkey = KEY_RSHIFT then some .shift
  else if m.nkey = KEY_LALT ∨ m.nkey = KEY_RALT then some .alt
  else none

def Modifier.left : Modifier → ℕ
  | .ctrl => 29
  | .shift => 42
  | .alt => 56

def Modifier.right : Modifier → ℕ
  | .ctrl => 157
  | .shift => 54
  | .alt => 184

/-- Each modifier has two keys on the map. -/
lemma modifier_getD_iff : ∀ code < 256, ∀ m : Modifier,
    (KeyMap_US.getD code unused).modifier = some m ↔ code = m.left ∨ code = m.right := by
  have h : ∀ code < 256, ∀ m ∈ [Modifier.ctrl, .shift, .alt],
      (KeyMap_US.getD code unused).modifier = some m ↔ code = m.left ∨ code = m.right := by
    decide +kernel
  intro code hcode m
  exact h code hcode m (by cases m <;> simp)

end Sgos.KeyboardMap
