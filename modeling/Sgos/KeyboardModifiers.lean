import Sgos.GuardedRun
import Sgos.KeyboardMap

/-!
# Modifier keys

`TranslateKeyCode` and `ReadKey` of `apps/keyboard/driver.cpp`, with the bytes of the data port as a
list. Each modifier has one flag for its two keys. It follows the keys that are held as long as none
of them is released while the other one is held.
-/
namespace Sgos.KeyboardModifiers
open GuardedRun KeyboardMap

def KB_COMMAND_ACK : UInt8 := 0xFA
def KB_EXT1 : UInt8 := 0xE0
def KB_EXT2 : UInt8 := 0xE1

def KB_DOWN : UInt32 := 1
def KB_UP : UInt32 := 0

structure Driver where
  capsLock : UInt8
  numLock : UInt8
  scrollLock : UInt8
  shiftFlag : UInt8
  altFlag : UInt8
  ctrlFlag : UInt8
  deriving DecidableEq, Repr

/-- The arguments of `DispatchKeyboardMessage`. -/
structure KeyMessage where
  keycode : UInt32
  ascii : UInt32
  flag : UInt32
  deriving DecidableEq, Repr

/-! ## The driver -/

def toggle (lock : UInt8) : UInt8 := if lock ≠ 0 then 0 else 1

/-- A key of style `KEYMAP_EXTRA` goes down. -/
def pressExtra (d : Driver) (ascii : UInt16) : Driver :=
  if ascii = KEY_LCTRL ∨ ascii = KEY_RCTRL then { d with ctrlFlag := 1 }
  else if ascii = KEY_LSHIFT ∨ ascii = KEY_RSHIFT then { d with shiftFlag := 1 }
  else if ascii = KEY_LALT ∨ ascii = KEY_RALT then { d with altFlag := 1 }
  else if ascii = KEY_CAPS then { d with capsLock := toggle d.capsLock }
  else if ascii = KEY_NUMBER then { d with numLock := toggle d.numLock }
  else if ascii = KEY_SCROLL then { d with scrollLock := toggle d.scrollLock }
  else d

/-- A key of style `KEYMAP_EXTRA` goes up. -/
def releaseExtra (d : Driver) (ascii : UInt16) : Driver :=
  if ascii = KEY_LCTRL then { d with ctrlFlag := 0 }
  else if ascii = KEY_RCTRL then { d with ctrlFlag := 0 }
  else if ascii = KEY_LSHIFT then { d with shiftFlag := 0 }
  else if ascii = KEY_RSHIFT then { d with shiftFlag := 0 }
  else if ascii = KEY_LALT then { d with altFlag := 0 }
  else if ascii = KEY_RALT then { d with altFlag := 0 }
  else d

def asciiOf (d : Driver) (m : KeyMap) : UInt32 :=
  match m.style with
  | .normal => m.nkey.toUInt32
  | .shift => if d.shiftFlag ≠ 0 then m.mkey.toUInt32 else m.nkey.toUInt32
  | .letter => if d.shiftFlag ^^^ d.capsLock ≠ 0 then m.mkey.toUInt32 else m.nkey.toUInt32
  | .number => if d.numLock ≠ 0 then m.mkey.toUInt32 else m.nkey.toUInt32
  | .extra => 0

def flagWord (d : Driver) (keyDown : UInt32) : UInt32 :=
  (d.scrollLock.toUInt32 <<< 0) ||| (d.numLock.toUInt32 <<< 1) ||| (d.capsLock.toUInt32 <<< 2) |||
    (d.ctrlFlag.toUInt32 <<< 4) ||| (d.shiftFlag.toUInt32 <<< 5) ||| (d.altFlag.toUInt32 <<< 6) |||
    (keyDown <<< 7)

def translateKeyCode (d : Driver) (code keyDown ext : UInt32) : Driver × KeyMessage :=
  let m := keyMap code
  if keyDown ≠ 0 then
    let d' := if m.style = .extra then pressExtra d m.nkey else d
    (d', ⟨m.nkey.toUInt32, if ext ≠ 0 then 0 else asciiOf d m, flagWord d' keyDown⟩)
  else
    let d' := if m.style = .extra then releaseExtra d m.nkey else d
    (d', ⟨m.nkey.toUInt32, 0, flagWord d' keyDown⟩)

/-- `ReadKey` with the messages it dispatches and the bytes it leaves in the port; `none` if it
waits for a byte that does not come. -/
def readKey (d : Driver) : List UInt8 → Option (Driver × List KeyMessage × List UInt8)
  | [] => none
  | code :: port =>
    if code = KB_COMMAND_ACK then some (d, [], port)
    else if code = KB_EXT1 then
      match port with
      | [] => none
      | code :: port =>
        let (d, msg) :=
          if code < 0x80 then translateKeyCode d (code.toUInt32 + 0x80) KB_DOWN KB_EXT1.toUInt32
          else translateKeyCode d code.toUInt32 KB_UP KB_EXT1.toUInt32
        some (d, [msg], port)
    else if code = KB_EXT2 then
      match port with
      | _ :: _ :: _ :: port => some (d, [], port)
      | _ => none
    else
      let (d, msg) :=
        if code < 0x80 then translateKeyCode d code.toUInt32 KB_DOWN 0
        else translateKeyCode d (code.toUInt32 - 0x80) KB_UP 0
      some (d, [msg], port)

/-- The loop of `HandleKeyboardInterrupt`: `ReadKey` until the port is empty. -/
def readKeys : ℕ → Driver → List UInt8 → Option (Driver × List KeyMessage)
  | _, d, [] => some (d, [])
  | 0, _, _ :: _ => none
  | fuel + 1, d, code :: port => do
    let (d, sent, port) ← readKey d (code :: port)
    let (d, more) ← readKeys fuel d port
    some (d, sent ++ more)

/-! ## Codes -/

/-- A key of the set: its code has seven bits, and no release code without a prefix is one of the
bytes that mean something else. -/
structure Key where
  ext : Bool
  code : UInt8
  short : code < 0x80
  clear : ext = false → code ≠ 0x60 ∧ code ≠ 0x61 ∧ code ≠ 0x7A
  deriving DecidableEq

/-- The pause key has no release code. -/
inductive Code
  | press (k : Key)
  | release (k : Key)
  | pause
  deriving DecidableEq

def Key.bytes (k : Key) (code : UInt8) : List UInt8 := if k.ext then [KB_EXT1, code] else [code]

def Code.bytes : Code → List UInt8
  | .press k => k.bytes k.code
  | .release k => k.bytes (k.code + 0x80)
  | .pause => [KB_EXT2, 0x1D, 0x45, KB_EXT2, 0x9D, 0xC5]

/-- The place of a key on the map. -/
def Key.number (k : Key) : ℕ := k.code.toNat + if k.ext then 128 else 0

/-- Whether a key is down after some codes, the last one first. -/
def held (number : ℕ) : List Code → Bool
  | [] => false
  | .press k :: codes => k.number = number || held number codes
  | .release k :: codes => k.number ≠ number && held number codes
  | .pause :: codes => held number codes

/-! ## Runs -/

/-- The driver, the codes it has read, the last one first, and what it sent for the last one. -/
structure State where
  driver : Driver
  codes : List Code
  sent : List KeyMessage

/-- `InitializeKeyboard`. -/
def start : State := ⟨⟨0, 0, 0, 0, 0, 0⟩, [], []⟩

def step (s : Option State) (c : Code) : Option State := do
  let s ← s
  let (driver, sent) ← readKeys c.bytes.length s.driver c.bytes
  some ⟨driver, c :: s.codes, sent⟩

def Driver.flag (d : Driver) : Modifier → UInt8
  | .ctrl => d.ctrlFlag
  | .shift => d.shiftFlag
  | .alt => d.altFlag

/-- The bit of the flag word that belongs to a modifier. -/
def mask : Modifier → UInt32
  | .ctrl => 0x10
  | .shift => 0x20
  | .alt => 0x40

/-- One of the two keys of a modifier is down. -/
def Active (codes : List Code) (m : Modifier) : Prop :=
  held m.left codes = true ∨ held m.right codes = true

instance (codes : List Code) (m : Modifier) : Decidable (Active codes m) :=
  inferInstanceAs (Decidable (_ ∨ _))

/-- The flags are 1 exactly for the modifiers of which a key is down, and so is what the messages
report. -/
structure Follows (s : State) : Prop where
  flag : ∀ m, s.driver.flag m = 1 ↔ Active s.codes m
  reported : ∀ msg ∈ s.sent, ∀ m, msg.flag &&& mask m ≠ 0 ↔ Active s.codes m
  told : s.codes ≠ [] → s.sent ≠ []

/-- `ReadKey` has returned, and the flags follow the keys. -/
def Right (s : Option State) : Prop := ∃ t, s = some t ∧ Follows t

/-- A key of a modifier goes up while the other one is up; the pause key, whose code has a release
of the left control key in it, comes while both control keys are up. -/
def CodeOk (codes : List Code) : Code → Prop
  | .press _ => True
  | .release k => ∀ m : Modifier, (k.number = m.left → held m.right codes = false) ∧
      (k.number = m.right → held m.left codes = false)
  | .pause => ¬ Active codes .ctrl

def StepOk (s : Option State) (c : Code) : Prop := ∀ t, s = some t → CodeOk t.codes c

/-! ## One code -/

/-- All flags are 0 or 1. -/
structure Driver.Binary (d : Driver) : Prop where
  capsLock : d.capsLock = 0 ∨ d.capsLock = 1
  numLock : d.numLock = 0 ∨ d.numLock = 1
  scrollLock : d.scrollLock = 0 ∨ d.scrollLock = 1
  shiftFlag : d.shiftFlag = 0 ∨ d.shiftFlag = 1
  altFlag : d.altFlag = 0 ∨ d.altFlag = 1
  ctrlFlag : d.ctrlFlag = 0 ∨ d.ctrlFlag = 1

lemma toggle_binary (lock : UInt8) : toggle lock = 0 ∨ toggle lock = 1 := by
  unfold toggle
  split_ifs <;> simp

lemma pressExtra_binary {d : Driver} (h : d.Binary) (ascii : UInt16) :
    (pressExtra d ascii).Binary := by
  obtain ⟨hcaps, hnum, hscroll, hshift, halt, hctrl⟩ := h
  unfold pressExtra
  split_ifs <;> constructor <;> simp [*, toggle_binary]

lemma releaseExtra_binary {d : Driver} (h : d.Binary) (ascii : UInt16) :
    (releaseExtra d ascii).Binary := by
  obtain ⟨hcaps, hnum, hscroll, hshift, halt, hctrl⟩ := h
  unfold releaseExtra
  split_ifs <;> constructor <;> simp [*]

def ofBool (b : Bool) : UInt8 := if b then 1 else 0

lemma exists_ofBool {x : UInt8} (h : x = 0 ∨ x = 1) : ∃ b, x = ofBool b := by
  obtain rfl | rfl := h
  · exact ⟨false, rfl⟩
  · exact ⟨true, rfl⟩

/-- The three bits of the flag word are the three flags. -/
lemma flagWord_mask {d : Driver} (h : d.Binary) {keyDown : UInt32}
    (hdown : keyDown = 0 ∨ keyDown = 1) (m : Modifier) :
    flagWord d keyDown &&& mask m ≠ 0 ↔ d.flag m = 1 := by
  have hbits : ∀ caps num scroll shift alt ctrl down : Bool,
      ∀ m ∈ [Modifier.ctrl, .shift, .alt],
        flagWord ⟨ofBool caps, ofBool num, ofBool scroll, ofBool shift, ofBool alt, ofBool ctrl⟩
            (ofBool down).toUInt32 &&& mask m ≠ 0 ↔
          Driver.flag ⟨ofBool caps, ofBool num, ofBool scroll, ofBool shift, ofBool alt,
            ofBool ctrl⟩ m = 1 := by
    decide +kernel
  have hword : ∃ down, keyDown = (ofBool down).toUInt32 := by
    obtain rfl | rfl := hdown
    · exact ⟨false, rfl⟩
    · exact ⟨true, rfl⟩
  obtain ⟨caps, hcaps⟩ := exists_ofBool h.capsLock
  obtain ⟨num, hnum⟩ := exists_ofBool h.numLock
  obtain ⟨scroll, hscroll⟩ := exists_ofBool h.scrollLock
  obtain ⟨shift, hshift⟩ := exists_ofBool h.shiftFlag
  obtain ⟨alt, halt⟩ := exists_ofBool h.altFlag
  obtain ⟨ctrl, hctrl⟩ := exists_ofBool h.ctrlFlag
  obtain ⟨down, rfl⟩ := hword
  have hd : d = ⟨ofBool caps, ofBool num, ofBool scroll, ofBool shift, ofBool alt,
      ofBool ctrl⟩ := by
    rw [← hcaps, ← hnum, ← hscroll, ← hshift, ← halt, ← hctrl]
  rw [hd]
  exact hbits caps num scroll shift alt ctrl down m (by cases m <;> simp)

/-- Pressing a key sets the flag of its modifier. -/
lemma pressExtra_flag (d : Driver) (k : KeyMap) (hstyle : k.style = .extra) (m : Modifier) :
    (pressExtra d k.nkey).flag m = if k.modifier = some m then 1 else d.flag m := by
  unfold pressExtra KeyMap.modifier
  rw [if_neg (not_not.mpr hstyle)]
  split_ifs <;> cases m <;> simp_all [Driver.flag]

/-- Releasing a key clears it. -/
lemma releaseExtra_flag (d : Driver) (k : KeyMap) (hstyle : k.style = .extra) (m : Modifier) :
    (releaseExtra d k.nkey).flag m = if k.modifier = some m then 0 else d.flag m := by
  unfold releaseExtra KeyMap.modifier
  rw [if_neg (not_not.mpr hstyle)]
  split_ifs <;> cases m <;> simp_all [Driver.flag]

lemma modifier_none {k : KeyMap} (hstyle : k.style ≠ .extra) : k.modifier = none := if_pos hstyle

/-- A key goes up: the flag of its modifier is cleared, and the message reports the flags. -/
lemma translateKeyCode_up {d : Driver} (h : d.Binary) (code ext : UInt32) :
    (translateKeyCode d code KB_UP ext).1.Binary ∧
    (∀ m, (translateKeyCode d code KB_UP ext).1.flag m =
      if (keyMap code).modifier = some m then 0 else d.flag m) ∧
    ∀ m, (translateKeyCode d code KB_UP ext).2.flag &&& mask m ≠ 0 ↔
      (translateKeyCode d code KB_UP ext).1.flag m = 1 := by
  have hup : ¬ KB_UP ≠ 0 := by decide
  generalize hk : keyMap code = k
  unfold translateKeyCode
  rw [if_neg hup, hk]
  by_cases hstyle : k.style = .extra
  · have hbin := releaseExtra_binary h k.nkey
    rw [if_pos hstyle]
    exact ⟨hbin, releaseExtra_flag d k hstyle, flagWord_mask hbin (.inl rfl)⟩
  · rw [if_neg hstyle]
    refine ⟨h, fun m => ?_, flagWord_mask h (.inl rfl)⟩
    rw [modifier_none hstyle, if_neg (Option.some_ne_none m).symm]

/-- A key goes down: the flag of its modifier is set. -/
lemma translateKeyCode_down {d : Driver} (h : d.Binary) (code ext : UInt32) :
    (translateKeyCode d code KB_DOWN ext).1.Binary ∧
    (∀ m, (translateKeyCode d code KB_DOWN ext).1.flag m =
      if (keyMap code).modifier = some m then 1 else d.flag m) ∧
    ∀ m, (translateKeyCode d code KB_DOWN ext).2.flag &&& mask m ≠ 0 ↔
      (translateKeyCode d code KB_DOWN ext).1.flag m = 1 := by
  have hdown : KB_DOWN ≠ 0 := by decide
  generalize hk : keyMap code = k
  unfold translateKeyCode
  rw [if_pos hdown, hk]
  by_cases hstyle : k.style = .extra
  · have hbin := pressExtra_binary h k.nkey
    rw [if_pos hstyle]
    exact ⟨hbin, pressExtra_flag d k hstyle, flagWord_mask hbin (.inr rfl)⟩
  · rw [if_neg hstyle]
    refine ⟨h, fun m => ?_, flagWord_mask h (.inr rfl)⟩
    rw [modifier_none hstyle, if_neg (Option.some_ne_none m).symm]

/-! ## Reading a code -/

/-- The number by which `ReadKey` looks a key up. -/
def Key.index (k : Key) : UInt32 := k.code.toUInt32 + if k.ext then 0x80 else 0

def Key.prefixed (k : Key) : UInt32 := if k.ext then KB_EXT1.toUInt32 else 0

lemma Key.index_toNat (k : Key) : k.index.toNat = k.number := by
  have hshort : k.code.toNat < 128 := UInt8.lt_iff_toNat_lt.mp k.short
  unfold Key.index Key.number
  cases k.ext with
  | true =>
    simp
    omega
  | false => simp

lemma Key.number_lt (k : Key) : k.number < 256 := by
  have hshort : k.code.toNat < 128 := UInt8.lt_iff_toNat_lt.mp k.short
  unfold Key.number
  split_ifs <;> omega

lemma modifier_iff (k : Key) (m : Modifier) :
    (keyMap k.index).modifier = some m ↔ k.number = m.left ∨ k.number = m.right := by
  unfold keyMap
  rw [k.index_toNat]
  exact modifier_getD_iff k.number k.number_lt m

lemma readKeys_one {d d' : Driver} {msg : KeyMessage} {bytes : List UInt8}
    (h : readKey d bytes = some (d', [msg], [])) (hne : bytes ≠ []) :
    readKeys bytes.length d bytes = some (d', [msg]) := by
  cases bytes with
  | nil => exact absurd rfl hne
  | cons b bytes => cases bytes <;> simp [readKeys, h]

lemma readKey_press (d : Driver) (k : Key) :
    readKey d (k.bytes k.code) = some ((translateKeyCode d k.index KB_DOWN k.prefixed).1,
      [(translateKeyCode d k.index KB_DOWN k.prefixed).2], []) := by
  have hshort : k.code.toNat < 128 := UInt8.lt_iff_toNat_lt.mp k.short
  unfold Key.bytes Key.index Key.prefixed
  cases k.ext with
  | true => simp [readKey, KB_EXT1, KB_COMMAND_ACK, k.short]
  | false =>
    have hack : k.code ≠ KB_COMMAND_ACK := by rintro h; simp [h, KB_COMMAND_ACK] at hshort
    have hext1 : k.code ≠ KB_EXT1 := by rintro h; simp [h, KB_EXT1] at hshort
    have hext2 : k.code ≠ KB_EXT2 := by rintro h; simp [h, KB_EXT2] at hshort
    simp [readKey, hack, hext1, hext2, k.short]

lemma readKey_release (d : Driver) (k : Key) :
    readKey d (k.bytes (k.code + 0x80)) = some ((translateKeyCode d k.index KB_UP k.prefixed).1,
      [(translateKeyCode d k.index KB_UP k.prefixed).2], []) := by
  have hshort : k.code.toNat < 128 := UInt8.lt_iff_toNat_lt.mp k.short
  have hsum : (k.code + 0x80).toNat = k.code.toNat + 128 := by
    rw [UInt8.toNat_add]
    simp
    omega
  have hlong : ¬ k.code + 0x80 < 0x80 := by
    rw [UInt8.lt_iff_toNat_lt, hsum]
    simp
  have hword : (k.code + 0x80).toUInt32 = k.code.toUInt32 + 0x80 := by
    apply UInt32.toNat_inj.mp
    rw [UInt8.toNat_toUInt32, hsum, UInt32.toNat_add, UInt8.toNat_toUInt32]
    simp
    omega
  have hne {x : UInt8} (hx : k.code + 0x80 = x) : x.toNat = k.code.toNat + 128 := by rw [← hx, hsum]
  unfold Key.bytes Key.index Key.prefixed
  cases hext : k.ext with
  | true => simp [readKey, KB_EXT1, KB_COMMAND_ACK, hlong, hword]
  | false =>
    obtain ⟨h60, h61, h7A⟩ := k.clear hext
    have hcode {x : UInt8} {n : ℕ} (hx : k.code + 0x80 = x) (hn : x.toNat = n + 128) :
        k.code.toNat = n := by
      have := hne hx
      omega
    have hack : k.code + 0x80 ≠ KB_COMMAND_ACK := fun h => h7A (UInt8.toNat_inj.mp (hcode h rfl))
    have hext1 : k.code + 0x80 ≠ KB_EXT1 := fun h => h60 (UInt8.toNat_inj.mp (hcode h rfl))
    have hext2 : k.code + 0x80 ≠ KB_EXT2 := fun h => h61 (UInt8.toNat_inj.mp (hcode h rfl))
    simp [readKey, hack, hext1, hext2, hlong, hword]

/-- Of the pause key's six bytes four are dropped; the other two are taken for the release of the
left control key and of the number lock. -/
lemma readKeys_pause (d : Driver) :
    readKeys 6 d Code.pause.bytes = some (
      (translateKeyCode (translateKeyCode d 29 KB_UP 0).1 69 KB_UP 0).1,
      [(translateKeyCode d 29 KB_UP 0).2,
        (translateKeyCode (translateKeyCode d 29 KB_UP 0).1 69 KB_UP 0).2]) := by
  simp [readKeys, readKey, Code.bytes, KB_EXT2, KB_EXT1, KB_COMMAND_ACK]

/-- What a code makes of a modifier's flag. -/
def Code.sets (flag : UInt8) (m : Modifier) : Code → UInt8
  | .press k => if k.number = m.left ∨ k.number = m.right then 1 else flag
  | .release k => if k.number = m.left ∨ k.number = m.right then 0 else flag
  | .pause => if m = .ctrl then 0 else flag

lemma step_eq {t : State} {c : Code} {d : Driver} {sent : List KeyMessage}
    (h : readKeys c.bytes.length t.driver c.bytes = some (d, sent)) :
    step (some t) c = some ⟨d, c :: t.codes, sent⟩ := by
  simp [step, h]

/-- A code that sends one message has been read. -/
lemma step_key {t : State} {c : Code} {r : Driver × KeyMessage} (hne : c.bytes ≠ [])
    (hread : readKey t.driver c.bytes = some (r.1, [r.2], [])) (hbin : r.1.Binary)
    (hflag : ∀ m, r.1.flag m = c.sets (t.driver.flag m) m)
    (hreport : ∀ m, r.2.flag &&& mask m ≠ 0 ↔ r.1.flag m = 1) :
    ∃ t', step (some t) c = some t' ∧ t'.codes = c :: t.codes ∧ t'.driver.Binary ∧ t'.sent ≠ [] ∧
      (∀ m, t'.driver.flag m = c.sets (t.driver.flag m) m) ∧
      ∀ msg ∈ t'.sent, ∀ m, msg.flag &&& mask m ≠ 0 ↔ t'.driver.flag m = 1 := by
  refine ⟨_, step_eq (readKeys_one hread hne), rfl, hbin, List.cons_ne_nil _ _, hflag, ?_⟩
  intro msg hmsg m
  rw [List.mem_singleton.mp hmsg]
  exact hreport m

lemma Key.bytes_ne_nil (k : Key) (code : UInt8) : k.bytes code ≠ [] := by
  unfold Key.bytes
  split_ifs <;> simp

/-- `ReadKey` returns for each code; it sets the flags and sends messages that report them. -/
lemma step_spec {t : State} (h : t.driver.Binary) (c : Code) :
    ∃ t', step (some t) c = some t' ∧ t'.codes = c :: t.codes ∧ t'.driver.Binary ∧ t'.sent ≠ [] ∧
      (∀ m, t'.driver.flag m = c.sets (t.driver.flag m) m) ∧
      ∀ msg ∈ t'.sent, ∀ m, msg.flag &&& mask m ≠ 0 ↔ t'.driver.flag m = 1 := by
  cases c with
  | press k =>
    obtain ⟨hbin, hflag, hreport⟩ := translateKeyCode_down h k.index k.prefixed
    simp only [modifier_iff] at hflag
    exact step_key (k.bytes_ne_nil _) (readKey_press _ k) hbin hflag hreport
  | release k =>
    obtain ⟨hbin, hflag, hreport⟩ := translateKeyCode_up h k.index k.prefixed
    simp only [modifier_iff] at hflag
    exact step_key (k.bytes_ne_nil _) (readKey_release _ k) hbin hflag hreport
  | pause =>
    obtain ⟨hbin, hflag, hreport⟩ := translateKeyCode_up h 29 0
    obtain ⟨hbin', hflag', hreport'⟩ := translateKeyCode_up hbin 69 0
    have hctrl : (keyMap 29).modifier = some .ctrl := by decide +kernel
    have hnum : (keyMap 69).modifier = none := by decide +kernel
    simp only [hnum, reduceCtorEq, if_false] at hflag'
    refine ⟨_, step_eq (readKeys_pause t.driver), rfl, hbin', List.cons_ne_nil _ _, fun m => ?_, ?_⟩
    · rw [hflag' m, hflag m, hctrl]
      simp only [Code.sets, Option.some.injEq, eq_comm]
    · intro msg hmsg m
      obtain rfl | rfl := List.mem_pair.mp hmsg
      · rw [hreport m, hflag' m]
      · exact hreport' m

/-! ## Runs of codes -/

lemma active_press (k : Key) (codes : List Code) (m : Modifier) :
    Active (.press k :: codes) m ↔
      (k.number = m.left ∨ k.number = m.right) ∨ Active codes m := by
  simp only [Active, held, Bool.or_eq_true, decide_eq_true_eq]
  tauto

lemma active_release (k : Key) (codes : List Code) (m : Modifier) :
    Active (.release k :: codes) m ↔ k.number ≠ m.left ∧ held m.left codes = true ∨
      k.number ≠ m.right ∧ held m.right codes = true := by
  simp only [Active, held, Bool.and_eq_true, decide_eq_true_eq]

lemma left_ne_right (m : Modifier) : m.left ≠ m.right := by cases m <;> decide

/-- One step: the flags that followed the keys still do exactly if the code is harmless. -/
lemma sets_follows_iff {codes : List Code} {flag : Modifier → UInt8}
    (hflag : ∀ m, flag m = 1 ↔ Active codes m) (c : Code) :
    (∀ m, c.sets (flag m) m = 1 ↔ Active (c :: codes) m) ↔ CodeOk codes c := by
  cases c with
  | press k =>
    refine iff_of_true (fun m => ?_) trivial
    rw [active_press, ← hflag m, Code.sets]
    split_ifs with hk <;> simp [hk]
  | release k =>
    refine forall_congr' fun m => ?_
    rw [active_release, Code.sets]
    have hne := left_ne_right m
    by_cases hl : k.number = m.left
    · have hr : k.number ≠ m.right := hl ▸ hne
      simp [hl, hne]
    · by_cases hr : k.number = m.right
      · simp [hr, hne.symm]
      · simp [hl, hr, hflag m, Active]
  | pause =>
    have hactive (m : Modifier) : Active (.pause :: codes) m ↔ Active codes m := Iff.rfl
    constructor
    · intro h
      rw [CodeOk, ← hactive .ctrl, ← h .ctrl]
      simp [Code.sets]
    · intro hok m
      rw [hactive m, Code.sets]
      split_ifs with hm
      · subst hm
        exact iff_of_false (by decide) hok
      · exact hflag m

/-- All flags are 0 or 1, and those of the modifiers follow the keys. -/
def Inv (s : Option State) : Prop :=
  ∃ t, s = some t ∧ t.driver.Binary ∧ ∀ m, t.driver.flag m = 1 ↔ Active t.codes m

lemma step_inv (s : Option State) (c : Code) (h : Inv s) (hok : StepOk s c) : Inv (step s c) := by
  obtain ⟨t, rfl, hbin, hflag⟩ := h
  obtain ⟨t', hstep, hcodes, hbin', -, hsets, -⟩ := step_spec hbin c
  refine ⟨t', hstep, hbin', fun m => ?_⟩
  rw [hsets m, hcodes]
  exact (sets_follows_iff hflag c).mpr (hok t rfl) m

end Sgos.KeyboardModifiers
