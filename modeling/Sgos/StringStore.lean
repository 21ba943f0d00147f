import Mathlib.Logic.Function.Basic
import Sgos.SystemString

/-!
# Programs over strings

A store of `System::string` objects, and the operations a program does on them. An argument is an
object, which may be the one that is operated on, or a pointer, which may be null, to a string
elsewhere, or into the buffer of an object. Results that are returned by value are new objects.
-/
namespace Sgos.SystemString
open CString Outcome

abbrev Store := ℕ → Option Str

/-- A pointer to characters: null, to memory that belongs to no object, or at offset `k` of the
buffer of the object `t`. -/
inductive Ptr
  | null
  | outside (memory : List UInt8)
  | inside (t k : ℕ)
  deriving DecidableEq, Repr

inductive Arg
  | str (t : ℕ)
  | ptr (p : Ptr)
  deriving DecidableEq, Repr

/-- The operations; `d` is the new object. -/
inductive Op
  | construct (d : ℕ)
  | constructText (d : ℕ) (p : Ptr)
  | constructCopy (d t : ℕ)
  | assign (s : ℕ) (a : Arg)
  | plus (s : ℕ) (a : Arg)
  | plusAssign (s : ℕ) (a : Arg)
  | replace (d s src dest : ℕ)
  | left (d s : ℕ) (sublen : Int32)
  | right (d s : ℕ) (sublen : Int32)
  | mid (d s : ℕ) (start sublen : Int32)
  | trim (d s : ℕ) (part : UInt8)
  | fromInteger (s : ℕ) (number : Int32)
  deriving DecidableEq, Repr

/-- The memory from a pointer on. -/
def Ptr.memory (σ : Store) : Ptr → Option (List UInt8)
  | .null => none
  | .outside memory => some memory
  | .inside t k => (σ t).bind fun o => o.buf.map (·.drop k)

def Arg.memory (σ : Store) : Arg → Option (List UInt8)
  | .str t => (σ t).bind (·.buf)
  | .ptr p => p.memory σ

/-- The offset of a pointer in the buffer of the object `s`. -/
def Ptr.within (s : ℕ) : Ptr → Option ℕ
  | .inside t k => if t = s then some k else none
  | _ => none

def Arg.within (s : ℕ) : Arg → Option ℕ
  | .str t => if t = s then some 0 else none
  | .ptr p => p.within s

variable (mem : Malloc) (σ : Store)

/-- `s = a`, where `o` is the object `s`. -/
def assignTo (s : ℕ) (o : Str) (a : Arg) : Act Str :=
  match a.within s with
  | some k => ofOption (copyWithin o k)
  | none => do
    let src ← ofOption (a.memory σ)
    copy mem o src

/-- `s + a`, which returns the object `s`. -/
def plusTo (s : ℕ) (o : Str) : Arg → Act Str
  | .str t =>
      if t = s then plusSelf mem o
      else do
        let b ← ofOption (σ t)
        plus mem o b
  | .ptr p =>
      match p.within s with
      | some k => ofOption (plusWithin o k)
      | none => do
        let src ← ofOption (p.memory σ)
        plusText mem o src

/-- `s += a` assigns `s + a`, which is `s`, to `s`. -/
def plusAssignTo (s : ℕ) (o : Str) (a : Arg) : Act Str := do
  let o ← plusTo mem σ s o a
  ofOption (copyWithin o 0)

/-- The object that an operation makes or changes. -/
def Op.target : Op → ℕ
  | .construct d | .constructText d _ | .constructCopy d _ | .replace d _ _ _ | .left d _ _
  | .right d _ _ | .mid d _ _ _ | .trim d _ _ => d
  | .assign s _ | .plus s _ | .plusAssign s _ | .fromInteger s _ => s

/-- What becomes of the target. The loop of `replace` has as many turns as it can need; it does
not end if these do not suffice. -/
def result : Op → Act Str
  | .construct _ => construct mem
  | .constructText _ .null => constructText mem none
  | .constructText _ p => do
    let src ← ofOption (p.memory σ)
    constructText mem (some src)
  | .constructCopy _ t => do
    let o ← ofOption (σ t)
    constructCopy mem o
  | .assign s a => do
    let o ← ofOption (σ s)
    assignTo mem σ s o a
  | .plus s a => do
    let o ← ofOption (σ s)
    plusTo mem σ s o a
  | .plusAssign s a => do
    let o ← ofOption (σ s)
    plusAssignTo mem σ s o a
  | .replace _ s src dest => do
    let o ← ofOption (σ s)
    let src ← ofOption (σ src)
    let dest ← ofOption (σ dest)
    replace mem (o.len.toNat + 1) o src dest
  | .left _ s sublen => do
    let o ← ofOption (σ s)
    left mem o sublen.toInt
  | .right _ s sublen => do
    let o ← ofOption (σ s)
    right mem o sublen.toInt
  | .mid _ s start sublen => do
    let o ← ofOption (σ s)
    mid mem o start.toInt sublen.toInt
  | .trim _ s part => do
    let o ← ofOption (σ s)
    trim mem o part
  | .fromInteger s number => do
    let o ← ofOption (σ s)
    fromInteger mem o number.toInt

/-- One operation, in a store and with a number of calls of `malloc` so far. -/
def exec (x : Store × ℕ) (op : Op) : Option (Store × ℕ) :=
  (result mem x.1 op x.2).map fun r => (Function.update x.1 op.target (some r.1), r.2)

/-- One operation of a program, which may have gone wrong before. -/
def step (x : Option (Store × ℕ)) (op : Op) : Option (Store × ℕ) := x.bind (exec mem · op)

/-- No objects, and nothing allocated. -/
def start : Option (Store × ℕ) := some (fun _ => none, 0)

end Sgos.SystemString
