import Sgos.ChainFamily
import Sgos.GuardedRun
import Sgos.Vfs
import Mathlib.Data.List.Find

/-!
# The file system of the root

The nodes of `apps/fs/rootfs.cpp`: each directory keeps its nodes in a doubly linked list, and a
new node enters at the front. Nodes are never removed. Their names are the texts in front of the
zero in `name`. Below, `Directories` keeps the same names as maps, and answers all calls alike.
-/
namespace Sgos.Rootfs
open LinkedChain GuardedRun Vfs

def NAME_LEN : ℕ := 64
def ERR_NOIMP : Int32 := 2
def FILE_READ : UInt32 := 1
def FILE_FLAG_CREATE : UInt32 := 1
def FILE_ATTR_RDONLY : UInt32 := 1
def ROOTFS_SET_TYPE : UInt32 := 1
def ROOTFS_SET_VALUE : UInt32 := 2
def ROOTFS_TYPE_FS : UInt8 := 1
def ROOTFS_TYPE_DIR : UInt8 := 3
def ROOTFS_FLAG_WRITE : UInt8 := 8

/-- What the file systems read and write of a `file_t`. -/
structure File where
  device : Ptr
  flag : UInt32
  attr : UInt32
  dir : Bool
  size : UInt32
  pos : UInt32
  data : UInt32
  deriving DecidableEq, Repr

/-- The fields of the nodes, and the nodes that were allocated. -/
structure State where
  name : Ptr → List UInt8
  type : Ptr → UInt8
  flag : Ptr → UInt8
  value : Ptr → UInt32
  pre : Ptr → Option Ptr
  next : Ptr → Option Ptr
  parent : Ptr → Option Ptr
  child : Ptr → Option Ptr
  live : List Ptr

/-- `malloc` as its callers rely on it; the block is the allocator's choice. -/
def malloc (live : List Ptr) (block : Option Ptr) : Option Ptr := mmAllocateKernelMemory live block

namespace State

def acquire (s : State) (p : Ptr) : State := { s with live := p :: s.live }

/-- The node is filled with zeros. -/
def clear (s : State) (p : Ptr) : State :=
  { s with
    name := Function.update s.name p []
    type := Function.update s.type p 0
    flag := Function.update s.flag p 0
    value := Function.update s.value p 0
    pre := Function.update s.pre p none
    next := Function.update s.next p none
    parent := Function.update s.parent p none
    child := Function.update s.child p none }

/-- `strncpy` of the first 63 bytes of a text into a name of zeros. -/
def setName (s : State) (p : Ptr) (name : List UInt8) : State :=
  { s with name := Function.update s.name p (name.take (NAME_LEN - 1)) }

def setType (s : State) (p : Ptr) (type : UInt8) : State :=
  { s with type := Function.update s.type p type }

def setValue (s : State) (p : Ptr) (value : UInt32) : State :=
  { s with value := Function.update s.value p value }

def setPre (s : State) (p : Ptr) (x : Option Ptr) : State :=
  { s with pre := Function.update s.pre p x }

def setNext (s : State) (p : Ptr) (x : Option Ptr) : State :=
  { s with next := Function.update s.next p x }

def setParent (s : State) (p : Ptr) (x : Option Ptr) : State :=
  { s with parent := Function.update s.parent p x }

def setChild (s : State) (p : Ptr) (x : Option Ptr) : State :=
  { s with child := Function.update s.child p x }

end State

/-- The texts `root` and `rootfs`. -/
def rootDriver : List UInt8 := [114, 111, 111, 116]
def rootfsName : List UInt8 := [114, 111, 111, 116, 102, 115]

/-- There is no result when the new node is used without memory. -/
def rootfsSetupSystem (s : State) (f : File) (dev : Ptr) (driver : List UInt8)
    (block : Option Ptr) : Option ((Int32 × File) × State) :=
  if driver ≠ rootDriver then some ((-ERR_INVALID, f), s)
  else do
    let p ← malloc s.live block
    let s := (((s.acquire p).clear p).setName p rootfsName).setType p ROOTFS_TYPE_DIR
    some ((0, { f with
      device := dev, flag := FILE_READ, data := p, attr := FILE_ATTR_DIR, dir := true }), s)

/-- The fields `device` and `data` of the file descriptors in memory. -/
abbrev Memory := Ptr → Ptr × UInt32

/-- Open the node `p` that was found, of the given type, flag and value. -/
def openNode (memory : Memory) (f : File) (p : Ptr) (type flag : UInt8) (value : UInt32) :
    Int32 × File :=
  let opened (f : File) : Int32 × File :=
    let f := { f with size := 0, pos := 0 }
    let readOnly := flag &&& ROOTFS_FLAG_WRITE = 0
    (0, if readOnly then { f with attr := f.attr ||| FILE_ATTR_RDONLY } else f)
  if type = ROOTFS_TYPE_DIR then
    opened { f with attr := f.attr ||| FILE_ATTR_DIR, dir := true, data := p }
  else if type = ROOTFS_TYPE_FS then
    let f2 := memory value
    opened { f with device := f2.1, data := f2.2, attr := f.attr ||| FILE_ATTR_DIR }
  else (-ERR_WRONGARG, f)

/-- The loop over the nodes of a directory. -/
def findNode (s : State) (pNod : Ptr) (name : List UInt8) : Option Ptr :=
  search s.next (fun p => s.name p == name) addressSpace (s.child pNod)

/-- The node `p` is the new first node of the directory. -/
def createNode (s : State) (pNod p : Ptr) (name : List UInt8) : State :=
  let s := ((s.acquire p).clear p).setName p name
  let s := s.setParent p (some pNod)
  let s := s.setPre p none
  let s := s.setNext p (s.child pNod)
  let s := match s.child pNod with
    | some c => s.setPre c (some p)
    | none => s
  s.setChild pNod (some p)

/-- Open `name` in the directory of the file `parent`. -/
def rootfsOpenFile (memory : Memory) (s : State) (f parent : File) (name : List UInt8)
    (block : Option Ptr) : (Int32 × File) × State :=
  let pNod := parent.data
  if s.type pNod = ROOTFS_TYPE_DIR then
    match findNode s pNod name with
    | some p => (openNode memory f p (s.type p) (s.flag p) (s.value p), s)
    | none =>
      if f.flag &&& FILE_FLAG_CREATE ≠ 0 then
        match malloc s.live block with
        | some p => ((0, { f with data := p, size := 0, pos := 0 }), createNode s pNod p name)
        | none => ((-ERR_WRONGARG, f), s)
      else ((-ERR_WRONGARG, f), s)
  else ((-ERR_WRONGARG, f), s)

def rootfsControlFile (s : State) (f : File) (cmd arg : UInt32) : Int32 × State :=
  if cmd = ROOTFS_SET_TYPE then (0, s.setType f.data arg.toUInt8)
  else if cmd = ROOTFS_SET_VALUE then (0, s.setValue f.data arg)
  else (-ERR_WRONGARG, s)

/-! ## Calls on the open files -/

/-- The entries of an `fs_t` that do something for the root. -/
structure FsTable (σ : Type) where
  openFile : Memory → σ → File → File → List UInt8 → Option Ptr → (Int32 × File) × σ
  controlFile : σ → File → UInt32 → UInt32 → Int32 × σ

def fsRootfs : FsTable State := ⟨rootfsOpenFile, rootfsControlFile⟩

/-- `try_open` of a name below an open file, or a control call on one. Files have the index of
their opening. -/
inductive Event
  | openFile (cur : ℕ) (name : List UInt8) (flag : UInt32) (block : Option Ptr) (memory : Memory)
  | controlFile (file : ℕ) (cmd arg : UInt32)

/-- A call is answered with the returned number and the file that was opened; other devices have
other file systems, and their calls are not answered here. -/
def call {σ : Type} (fs : FsTable σ) (rootDev : Ptr) (x : σ × List File) :
    Event → Option (Int32 × File) × (σ × List File)
  | .openFile cur name flag block memory =>
    match x.2[cur]? with
    | none => (none, x)
    | some parent =>
      if parent.device ≠ rootDev then (none, x)
      else
        let f : File := ⟨rootDev, flag, 0, false, 0, 0, 0⟩
        if !parent.dir && parent.attr &&& FILE_ATTR_DIR = 0 then (some (-ERR_NOPATH, f), x)
        else
          let r := fs.openFile memory x.1 f parent name block
          (some r.1, r.2, if r.1.1 < 0 then x.2 else x.2 ++ [r.1.2])
  | .controlFile file cmd arg =>
    match x.2[file]? with
    | none => (none, x)
    | some f =>
      if f.device ≠ rootDev then (none, x)
      else
        let r := fs.controlFile x.1 f cmd arg
        (some (r.1, f), r.2, x.2)

/-- The file descriptors that nodes of other file systems lead to are not files of the root. -/
def Foreign (rootDev : Ptr) : Event → Prop
  | .openFile _ _ _ _ memory => ∀ v, (memory v).1 ≠ rootDev
  | .controlFile _ _ _ => True

/-! ## Directories as maps -/

/-- Each directory maps names to nodes. -/
structure Directories where
  type : Ptr → UInt8
  flag : Ptr → UInt8
  value : Ptr → UInt32
  entry : Ptr → List UInt8 → Option Ptr
  live : List Ptr

namespace Directories

/-- A new node is empty, and the name leads to it from now on. -/
def create (t : Directories) (d p : Ptr) (name : List UInt8) : Directories :=
  let entry := Function.update t.entry p fun _ => none
  { type := Function.update t.type p 0
    flag := Function.update t.flag p 0
    value := Function.update t.value p 0
    entry := Function.update entry d (Function.update (entry d) (name.take (NAME_LEN - 1)) (some p))
    live := p :: t.live }

def openFile (memory : Memory) (t : Directories) (f parent : File) (name : List UInt8)
    (block : Option Ptr) : (Int32 × File) × Directories :=
  let d := parent.data
  if t.type d = ROOTFS_TYPE_DIR then
    match t.entry d name with
    | some p => (openNode memory f p (t.type p) (t.flag p) (t.value p), t)
    | none =>
      if f.flag &&& FILE_FLAG_CREATE ≠ 0 then
        match malloc t.live block with
        | some p => ((0, { f with data := p, size := 0, pos := 0 }), t.create d p name)
        | none => ((-ERR_WRONGARG, f), t)
      else ((-ERR_WRONGARG, f), t)
  else ((-ERR_WRONGARG, f), t)

def controlFile (t : Directories) (f : File) (cmd arg : UInt32) : Int32 × Directories :=
  if cmd = ROOTFS_SET_TYPE then
    (0, { t with type := Function.update t.type f.data arg.toUInt8 })
  else if cmd = ROOTFS_SET_VALUE then
    (0, { t with value := Function.update t.value f.data arg })
  else (-ERR_WRONGARG, t)

def table : FsTable Directories := ⟨openFile, controlFile⟩

end Directories

/-- The lists of the directories have disjoint nodes, all of them allocated and below others than
the root; `kids` lists them. -/
structure Listed (root : Ptr) (s : State) (kids : Ptr → List Ptr) : Prop where
  family : Family s.next s.pre (fun d => if d ∈ s.live then s.child d else none) kids
  live : ∀ d, ∀ p ∈ kids d, p ∈ s.live ∧ p ≠ root
  root : root ∈ s.live

/-- The maps of `t` are the lists of `s`. -/
structure Represents (root : Ptr) (s : State) (t : Directories) : Prop where
  type : t.type = s.type
  flag : t.flag = s.flag
  value : t.value = s.value
  live : t.live = s.live
  entry : ∀ d ∈ s.live, t.entry d = findNode s d
  listed : ∃ kids, Listed root s kids

variable {root rootDev p d : Ptr} {s : State} {t : Directories} {kids : Ptr → List Ptr}
  {name : List UInt8}

namespace Listed

/-- Only live nodes have nodes below them. -/
lemma kids_dead (h : Listed root s kids) (hd : d ∉ s.live) : kids d = [] := by
  have hhead := (h.family.chain d).head_eq
  rw [if_neg hd] at hhead
  exact List.head?_eq_none_iff.mp hhead.symm

lemma child_eq (h : Listed root s kids) (hd : d ∈ s.live) : s.child d = (kids d).head? := by
  rw [← (h.family.chain d).head_eq, if_pos hd]

lemma findNode_eq (h : Listed root s kids) (hd : d ∈ s.live) (name : List UInt8) :
    findNode s d name = (kids d).find? (fun p => s.name p == name) := by
  have hchain := h.family.chain d
  rw [findNode, h.child_eq hd]
  exact search_eq_find hchain.linked (nodup_length_le hchain.nodup)

end Listed

/-- The links after a node is created. -/
lemma createNode_links (hd : d ≠ p) :
    (createNode s d p name).next = linkNext s.next none p (s.child d) ∧
      (createNode s d p name).pre = linkPrev s.pre none p (s.child d) ∧
      (createNode s d p name).child =
        Function.update (Function.update s.child p none) d (some p) := by
  have hchild : Function.update s.child p none d = s.child d := Function.update_of_ne hd _ _
  cases hc : s.child d with
  | none =>
    simp [createNode, State.setChild, State.setNext, State.setPre, State.setParent, State.setName,
      State.clear, State.acquire, linkNext, linkPrev, hc, hchild]
  | some c =>
    simp [createNode, State.setChild, State.setNext, State.setPre, State.setParent, State.setName,
      State.clear, State.acquire, linkNext, linkPrev, hc, hchild]

/-- The data after a node is created. -/
lemma createNode_data (s : State) (d p : Ptr) (name : List UInt8) :
    (createNode s d p name).name = Function.update s.name p (name.take (NAME_LEN - 1)) ∧
      (createNode s d p name).type = Function.update s.type p 0 ∧
      (createNode s d p name).flag = Function.update s.flag p 0 ∧
      (createNode s d p name).value = Function.update s.value p 0 ∧
      (createNode s d p name).live = p :: s.live := by
  simp only [createNode, State.setChild, State.setNext, State.setPre, State.setParent,
    State.setName, State.clear, State.acquire]
  split <;> simp

/-- A new node enters the list of its directory in front. -/
lemma Listed.create (h : Listed root s kids) (hd : d ∈ s.live) (hp : p ∉ s.live)
    (name : List UInt8) :
    Listed root (createNode s d p name) (Function.update kids d (p :: kids d)) := by
  have hdp : d ≠ p := fun he => hp (he ▸ hd)
  obtain ⟨hnext, hpre, hchild⟩ := @createNode_links p d s name hdp
  obtain ⟨-, -, -, -, hlive⟩ := createNode_data s d p name
  have hheads : (fun e => if e ∈ p :: s.live then
      Function.update (Function.update s.child p none) d (some p) e else none) =
      Function.update (fun e => if e ∈ s.live then s.child e else none) d (some p) := by
    funext e
    by_cases hed : e = d
    · simp [hed, hd]
    · by_cases hep : e = p
      · simp [hep, Ne.symm hdp, hp]
      · simp [hed, hep]
  constructor
  · rw [hnext, hpre, hchild, hlive, hheads, h.child_eq hd]
    exact @Family.link _ _ _ _ _ _ _ _ d p h.family [] (kids d) rfl fun j hj =>
      hp (h.live j p hj).1
  · intro e x hx
    rw [hlive]
    by_cases hed : e = d
    · subst hed
      rw [Function.update_self, List.mem_cons] at hx
      rcases hx with rfl | hx
      · exact ⟨List.mem_cons_self, fun he => hp (he ▸ h.root)⟩
      · exact ⟨List.mem_cons_of_mem _ (h.live e x hx).1, (h.live e x hx).2⟩
    · rw [Function.update_of_ne hed] at hx
      exact ⟨List.mem_cons_of_mem _ (h.live e x hx).1, (h.live e x hx).2⟩
  · rw [hlive]
    exact List.mem_cons_of_mem _ h.root

/-- The node that a name leads to after a node is created. -/
lemma Listed.findNode_create (h : Listed root s kids) (hd : d ∈ s.live) (hp : p ∉ s.live)
    {e : Ptr} (he : e ∈ p :: s.live) (name n : List UInt8) :
    findNode (createNode s d p name) e n =
      if e = p then none
      else if e = d ∧ n = name.take (NAME_LEN - 1) then some p else findNode s e n := by
  have hnew := h.create hd hp name
  obtain ⟨hname, -, -, -, hlive⟩ := createNode_data s d p name
  have hdp : d ≠ p := fun he => hp (he ▸ hd)
  -- the names of the nodes in the lists stay
  have hold : ∀ e, (kids e).find? (fun x => (createNode s d p name).name x == n) =
      (kids e).find? (fun x => s.name x == n) := by
    intro e
    apply List.find?_congr
    intro x hx
    have hxp : x ≠ p := fun he => hp (he ▸ (h.live e x hx).1)
    rw [hname, Function.update_of_ne hxp]
  rw [hnew.findNode_eq (hlive ▸ he)]
  by_cases hep : e = p
  · rw [if_pos hep, hep, Function.update_of_ne (Ne.symm hdp), h.kids_dead hp]
    rfl
  · have hel : e ∈ s.live := (List.mem_cons.mp he).resolve_left hep
    rw [if_neg hep, h.findNode_eq hel]
    by_cases hed : e = d
    · subst hed
      rw [Function.update_self, List.find?_cons, hold, hname, Function.update_self]
      by_cases hn : n = name.take (NAME_LEN - 1)
      · simp [hn]
      · have hne : (name.take (NAME_LEN - 1) == n) = false := beq_false_of_ne (Ne.symm hn)
        simp [hn, hne]
    · rw [Function.update_of_ne hed, hold, if_neg fun hc => hed hc.1]

namespace Represents

lemma create (h : Represents root s t) (hd : d ∈ s.live) (hp : p ∉ s.live) (name : List UInt8) :
    Represents root (createNode s d p name) (t.create d p name) := by
  obtain ⟨kids, hkids⟩ := h.listed
  have hdp : d ≠ p := fun he => hp (he ▸ hd)
  obtain ⟨-, htype, hflag, hvalue, hlive⟩ := createNode_data s d p name
  refine ⟨?_, ?_, ?_, ?_, ?_, _, hkids.create hd hp name⟩
  · rw [htype, ← h.type]
    rfl
  · rw [hflag, ← h.flag]
    rfl
  · rw [hvalue, ← h.value]
    rfl
  · rw [hlive, ← h.live]
    rfl
  · intro e he
    funext n
    rw [hkids.findNode_create hd hp (hlive ▸ he)]
    dsimp only [Directories.create]
    by_cases hed : e = d
    · subst hed
      rw [if_neg hdp, Function.update_self, Function.update_of_ne hdp]
      by_cases hn : n = name.take (NAME_LEN - 1)
      · simp [hn]
      · simp [hn, h.entry e hd]
    · rw [Function.update_of_ne hed]
      by_cases hep : e = p
      · simp [hep]
      · have hel : e ∈ s.live := (List.mem_cons.mp (hlive ▸ he)).resolve_left hep
        simp [hep, hed, h.entry e hel]

/-- Of two file systems that agree on the nodes, an open call finds the same. -/
lemma openFile (h : Represents root s t) {parent : File} (hparent : parent.data ∈ s.live)
    (memory : Memory) (f : File) (name : List UInt8) (block : Option Ptr) :
    (rootfsOpenFile memory s f parent name block).1 =
        (Directories.openFile memory t f parent name block).1 ∧
      Represents root (rootfsOpenFile memory s f parent name block).2
        (Directories.openFile memory t f parent name block).2 := by
  simp only [rootfsOpenFile, Directories.openFile, h.type, h.flag, h.value, h.live,
    h.entry _ hparent]
  by_cases htype : s.type parent.data = ROOTFS_TYPE_DIR
  · rw [if_pos htype, if_pos htype]
    cases findNode s parent.data name with
    | some p => exact ⟨rfl, h⟩
    | none =>
      by_cases hflag : f.flag &&& FILE_FLAG_CREATE ≠ 0
      · simp only [if_pos hflag]
        cases hm : malloc s.live block with
        | some p => exact ⟨rfl, h.create hparent (not_mem_of_allocated hm) name⟩
        | none => exact ⟨rfl, h⟩
      · simp only [if_neg hflag]
        exact ⟨trivial, h⟩
  · simp only [if_neg htype]
    exact ⟨trivial, h⟩

lemma controlFile (h : Represents root s t) (f : File) (cmd arg : UInt32) :
    (rootfsControlFile s f cmd arg).1 = (Directories.controlFile t f cmd arg).1 ∧
      Represents root (rootfsControlFile s f cmd arg).2
        (Directories.controlFile t f cmd arg).2 := by
  obtain ⟨kids, hfamily, hlive, hroot⟩ := h.listed
  rw [rootfsControlFile, Directories.controlFile]
  split
  · refine ⟨rfl, ?_, h.flag, h.value, h.live, h.entry, kids, hfamily, hlive, hroot⟩
    simp only [h.type]
    rfl
  · split
    · refine ⟨rfl, h.type, h.flag, ?_, h.live, h.entry, kids, hfamily, hlive, hroot⟩
      simp only [h.value]
      rfl
    · exact ⟨rfl, h⟩

end Represents

/-- The files of the root device are open on nodes. -/
def OnNodes (rootDev : Ptr) (x : State × List File) : Prop :=
  ∀ f ∈ x.2, f.device = rootDev → f.data ∈ x.1.live

/-- What an open call can do: open the node it finds, create a node, or refuse. -/
lemma rootfsOpenFile_cases (memory : Memory) (s : State) (f parent : File) (name : List UInt8)
    (block : Option Ptr) :
    (∃ p, findNode s parent.data name = some p ∧ rootfsOpenFile memory s f parent name block =
        (openNode memory f p (s.type p) (s.flag p) (s.value p), s)) ∨
      (∃ p, findNode s parent.data name = none ∧ p ∉ s.live ∧
        rootfsOpenFile memory s f parent name block =
          ((0, { f with data := p, size := 0, pos := 0 }), createNode s parent.data p name)) ∨
      rootfsOpenFile memory s f parent name block = ((-ERR_WRONGARG, f), s) := by
  by_cases htype : s.type parent.data = ROOTFS_TYPE_DIR
  · simp only [rootfsOpenFile, if_pos htype]
    cases hfind : findNode s parent.data name with
    | some p => exact .inl ⟨p, rfl, rfl⟩
    | none =>
      by_cases hflag : f.flag &&& FILE_FLAG_CREATE ≠ 0
      · simp only [if_pos hflag]
        cases hm : malloc s.live block with
        | some p => exact .inr (.inl ⟨p, trivial, not_mem_of_allocated hm, rfl⟩)
        | none => exact .inr (.inr rfl)
      · simp only [if_neg hflag]
        exact .inr (.inr trivial)
  · exact .inr (.inr (by simp only [rootfsOpenFile, if_neg htype]))

/-- A node that was opened is the node itself or a file of another device. -/
lemma openNode_data {memory : Memory} (hforeign : ∀ v, (memory v).1 ≠ rootDev) {f : File} {p : Ptr}
    {type flag : UInt8} {value : UInt32} (hret : 0 ≤ (openNode memory f p type flag value).1)
    (hdev : (openNode memory f p type flag value).2.device = rootDev) :
    (openNode memory f p type flag value).2.data = p := by
  unfold openNode at *
  by_cases hdir : type = ROOTFS_TYPE_DIR
  · simp only [if_pos hdir]
    split <;> rfl
  · by_cases hfs : type = ROOTFS_TYPE_FS
    · simp only [if_neg hdir, if_pos hfs] at hdev
      split at hdev <;> exact absurd hdev (hforeign value)
    · simp only [if_neg hdir, if_neg hfs] at hret
      exact absurd hret (by decide)

lemma rootfsControlFile_live (s : State) (f : File) (cmd arg : UInt32) :
    (rootfsControlFile s f cmd arg).2.live = s.live := by
  rw [rootfsControlFile]
  split
  · rfl
  · split <;> rfl

/-- An open call leaves every file of the root on a node, also the one it opens. -/
lemma OnNodes.openFile {x : State × List File} (hon : OnNodes rootDev x) {parent : File}
    {memory : Memory} {f : File} (hlisted : ∃ kids, Listed root x.1 kids)
    (hparent : parent.data ∈ x.1.live) (hforeign : ∀ v, (memory v).1 ≠ rootDev)
    (name : List UInt8) (block : Option Ptr) :
    let r := rootfsOpenFile memory x.1 f parent name block
    OnNodes rootDev (r.2, if r.1.1 < 0 then x.2 else x.2 ++ [r.1.2]) := by
  obtain ⟨kids, hkids⟩ := hlisted
  have hcases := rootfsOpenFile_cases memory x.1 f parent name block
  intro r
  rcases hcases with ⟨p, hfind, heq⟩ | ⟨p, hfind, hp, heq⟩ | heq
  · have hp : p ∈ x.1.live := by
      rw [hkids.findNode_eq hparent] at hfind
      exact (hkids.live _ p (List.mem_of_find?_eq_some hfind)).1
    have hr : r = _ := heq
    rw [hr]
    intro g hg hdev
    split at hg
    · exact hon g hg hdev
    · rename_i hret
      rcases List.mem_append.mp hg with hg | hg
      · exact hon g hg hdev
      · rw [List.mem_singleton.mp hg] at hdev ⊢
        rwa [openNode_data hforeign (Int32.not_lt.mp hret) hdev]
  · obtain ⟨-, -, -, -, hlive⟩ := createNode_data x.1 parent.data p name
    have hr : r = _ := heq
    rw [hr]
    intro g hg hdev
    change g.data ∈ (createNode x.1 parent.data p name).live
    rw [hlive]
    rw [if_neg (show ¬(0 : Int32) < 0 by decide)] at hg
    rcases List.mem_append.mp hg with hg | hg
    · exact List.mem_cons_of_mem _ (hon g hg hdev)
    · rw [List.mem_singleton.mp hg]
      exact List.mem_cons_self
  · have hr : r = _ := heq
    rw [hr, if_pos (show -ERR_WRONGARG < 0 by decide)]
    exact hon

/-- What holds between the lists and the maps over a run. -/
structure Related (root rootDev : Ptr) (x : State × List File) (y : Directories × List File) :
    Prop where
  files : x.2 = y.2
  mem : Represents root x.1 y.1
  onNodes : OnNodes rootDev x

lemma call_related {x : State × List File} {y : Directories × List File}
    (h : Related root rootDev x y) {e : Event} (he : Foreign rootDev e) :
    (call fsRootfs rootDev x e).1 = (call Directories.table rootDev y e).1 ∧
      Related root rootDev (call fsRootfs rootDev x e).2
        (call Directories.table rootDev y e).2 := by
  obtain ⟨hfiles, hmem, hon⟩ := h
  cases e with
  | openFile cur name flag block memory =>
    simp only [call, ← hfiles]
    cases hcur : x.2[cur]? with
    | none => exact ⟨rfl, hfiles, hmem, hon⟩
    | some parent =>
      by_cases hdev : parent.device ≠ rootDev
      · simp only [if_pos hdev]
        exact ⟨trivial, hfiles, hmem, hon⟩
      · simp only [if_neg hdev]
        split
        · exact ⟨rfl, hfiles, hmem, hon⟩
        · have hparent : parent.data ∈ x.1.live :=
            hon parent (List.mem_of_getElem? hcur) (not_not.mp hdev)
          obtain ⟨hret, hrep⟩ := hmem.openFile hparent memory ⟨rootDev, flag, 0, false, 0, 0, 0⟩
            name block
          have hnodes := hon.openFile (f := ⟨rootDev, flag, 0, false, 0, 0, 0⟩) hmem.listed hparent
            he name block
          exact ⟨congrArg some hret, congrArg (fun r : Int32 × File =>
            if r.1 < 0 then x.2 else x.2 ++ [r.2]) hret, hrep, hnodes⟩
  | controlFile file cmd arg =>
    simp only [call, ← hfiles]
    cases hfile : x.2[file]? with
    | none => exact ⟨rfl, hfiles, hmem, hon⟩
    | some f =>
      by_cases hdev : f.device ≠ rootDev
      · simp only [if_pos hdev]
        exact ⟨trivial, hfiles, hmem, hon⟩
      · simp only [if_neg hdev]
        obtain ⟨hret, hrep⟩ := hmem.controlFile f cmd arg
        refine ⟨?_, rfl, hrep, ?_⟩
        · dsimp only [fsRootfs, Directories.table]
          rw [hret]
        · intro g hg hgdev
          exact (rootfsControlFile_live x.1 f cmd arg).symm ▸ hon g hg hgdev

/-- A heap without nodes. -/
def noNodes : State := ⟨fun _ => [], fun _ => 0, fun _ => 0, fun _ => 0, fun _ => none,
  fun _ => none, fun _ => none, fun _ => none, []⟩

/-- The file system and its first file after the root device is set up. -/
def setup (rootDev : Ptr) (block : Option Ptr) : Option (State × List File) :=
  (rootfsSetupSystem noNodes ⟨0, 0, 0, false, 0, 0, 0⟩ rootDev rootDriver block).map
    fun r => (r.2, [r.1.2])

/-- The root alone, an empty directory. -/
def Directories.start (root : Ptr) : Directories where
  type := Function.update (fun _ => 0) root ROOTFS_TYPE_DIR
  flag _ := 0
  value _ := 0
  entry _ _ := none
  live := [root]

lemma setup_related (root rootDev : Ptr) :
    ∃ x, setup rootDev (some root) = some x ∧
      Related root rootDev x (Directories.start root, x.2) := by
  refine ⟨_, rfl, rfl, ?_, ?_⟩
  · have hkids : Listed root (((noNodes.acquire root).clear root).setName root rootfsName |>.setType
        root ROOTFS_TYPE_DIR) fun _ => [] := by
      refine ⟨?_, by simp, List.mem_cons_self⟩
      have hheads : (fun d => if d ∈ [root] then Function.update noNodes.child root none d
          else none) = fun _ => none := by
        funext d
        simp [Function.update_apply, noNodes]
      exact hheads ▸ family_nil
    refine ⟨?_, ?_, ?_, rfl, ?_, _, hkids⟩
    · simp [Directories.start, State.setType, State.setName, State.clear, State.acquire, noNodes]
    · simp [Directories.start, State.setType, State.setName, State.clear, State.acquire, noNodes]
    · simp [Directories.start, State.setType, State.setName, State.clear, State.acquire, noNodes]
    · intro d hd
      funext n
      rw [hkids.findNode_eq hd]
      rfl
  · intro f hf _
    rw [List.mem_singleton.mp hf]
    exact List.mem_cons_self

lemma run_related {root rootDev : Ptr} {x : State × List File} {y : Directories × List File}
    (h : Related root rootDev x y) {es : List Event} (hes : ∀ e ∈ es, Foreign rootDev e) :
    outputs (call fsRootfs rootDev) x es = outputs (call Directories.table rootDev) y es ∧
      Related root rootDev (run (next (call fsRootfs rootDev)) x es)
        (run (next (call Directories.table rootDev)) y es) :=
  (guarded_of_forall hes x).simulation (Related root rootDev)
    (fun _ _ _ hR he => call_related hR he) h

/-- The node that a path leads to; the last name of the path stands first. -/
def resolve (s : State) (root : Ptr) : List (List UInt8) → Option Ptr
  | [] => some root
  | name :: above => (resolve s root above).bind fun d => findNode s d name

namespace Listed

lemma resolve_live (h : Listed root s kids) {path : List (List UInt8)}
    (hp : resolve s root path = some p) : p ∈ s.live := by
  induction path generalizing p with
  | nil => exact Option.some.inj hp ▸ h.root
  | cons name above ih =>
    obtain ⟨d, hd, hfind⟩ := Option.bind_eq_some_iff.mp hp
    rw [h.findNode_eq (ih hd)] at hfind
    exact (h.live d p (List.mem_of_find?_eq_some hfind)).1

/-- The last step of a path. -/
lemma resolve_cons (h : Listed root s kids) {path : List (List UInt8)}
    (hp : resolve s root (name :: path) = some p) :
    ∃ d, resolve s root path = some d ∧ p ∈ kids d ∧ s.name p = name := by
  obtain ⟨d, hd, hfind⟩ := Option.bind_eq_some_iff.mp hp
  rw [h.findNode_eq (h.resolve_live hd)] at hfind
  exact ⟨d, hd, List.mem_of_find?_eq_some hfind, by simpa using List.find?_some hfind⟩

/-- No two paths lead to one node. -/
lemma resolve_injective (h : Listed root s kids) {path path' : List (List UInt8)}
    (hp : resolve s root path = some p) (hp' : resolve s root path' = some p) : path = path' := by
  induction path generalizing path' p with
  | nil =>
    cases path' with
    | nil => rfl
    | cons name' above' =>
      obtain ⟨d, -, hmem, -⟩ := h.resolve_cons hp'
      exact absurd (Option.some.inj hp).symm (h.live d p hmem).2
  | cons name above ih =>
    obtain ⟨d, hd, hmem, hname⟩ := h.resolve_cons hp
    cases path' with
    | nil => exact absurd (Option.some.inj hp').symm (h.live d p hmem).2
    | cons name' above' =>
      obtain ⟨d', hd', hmem', hname'⟩ := h.resolve_cons hp'
      obtain rfl := h.family.apart d d' p hmem hmem'
      rw [ih hd hd', ← hname, ← hname']

end Listed

/-- The name of an open call fits into a node. -/
def Event.Short : Event → Prop
  | .openFile _ name _ _ _ => name.length < NAME_LEN
  | .controlFile _ _ _ => True

/-- A call leaves the nodes that names lead to. -/
lemma findNode_call {x : State × List File} (hlisted : ∃ kids, Listed root x.1 kids)
    (hon : OnNodes rootDev x) {e : Event} (hshort : e.Short) (hd : d ∈ x.1.live)
    (hp : findNode x.1 d name = some p) :
    findNode (call fsRootfs rootDev x e).2.1 d name = some p := by
  obtain ⟨kids, hkids⟩ := hlisted
  cases e with
  | openFile cur n flag block memory =>
    cases hcur : x.2[cur]? with
    | none => simpa only [call, hcur] using hp
    | some parent =>
      simp only [call, hcur]
      split
      · exact hp
      · rename_i hdev
        have hparent := hon parent (List.mem_of_getElem? hcur) (not_not.mp hdev)
        split
        · exact hp
        · dsimp only [fsRootfs]
          rcases rootfsOpenFile_cases memory x.1 ⟨rootDev, flag, 0, false, 0, 0, 0⟩ parent n block
            with ⟨q, -, heq⟩ | ⟨q, hfind, hq, heq⟩ | heq
          · rw [heq]
            exact hp
          · have hdq : d ≠ q := fun he => hq (he ▸ hd)
            have hfit : n.take (NAME_LEN - 1) = n :=
              List.take_of_length_le (Nat.le_pred_of_lt hshort)
            rw [heq, hkids.findNode_create hparent hq (List.mem_cons_of_mem _ hd), if_neg hdq, hfit,
              if_neg, hp]
            rintro ⟨rfl, rfl⟩
            rw [hfind] at hp
            cases hp
          · rw [heq]
            exact hp
  | controlFile file cmd arg =>
    cases hfile : x.2[file]? with
    | none => simpa only [call, hfile] using hp
    | some f =>
      simp only [call, hfile]
      split
      · exact hp
      · dsimp only [fsRootfs, rootfsControlFile]
        split
        · exact hp
        · split
          · exact hp
          · exact hp

lemma resolve_call {x : State × List File} (hlisted : ∃ kids, Listed root x.1 kids)
    (hon : OnNodes rootDev x) {e : Event} (hshort : e.Short) {path : List (List UInt8)}
    (hp : resolve x.1 root path = some p) :
    resolve (call fsRootfs rootDev x e).2.1 root path = some p := by
  induction path generalizing p with
  | nil => exact hp
  | cons name above ih =>
    obtain ⟨d, hd, hfind⟩ := Option.bind_eq_some_iff.mp hp
    obtain ⟨kids, hkids⟩ := hlisted
    have hlive := hkids.resolve_live hd
    exact Option.bind_eq_some_iff.mpr
      ⟨d, ih hd, findNode_call ⟨kids, hkids⟩ hon hshort hlive hfind⟩

/-- Over every run from the set-up on, no two paths lead to one node, and a path leads to the same
node for ever while the names fit into the nodes. -/
theorem run_paths {root rootDev : Ptr} {x : State × List File}
    (hx : setup rootDev (some root) = some x) {es more : List Event}
    (hes : ∀ e ∈ es ++ more, Foreign rootDev e) (hmore : ∀ e ∈ more, e.Short)
    {path : List (List UInt8)} {p : Ptr}
    (hp : resolve (run (next (call fsRootfs rootDev)) x es).1 root path = some p) :
    resolve (run (next (call fsRootfs rootDev)) x (es ++ more)).1 root path = some p ∧
      ∀ path', resolve (run (next (call fsRootfs rootDev)) x (es ++ more)).1 root path' = some p →
        path' = path := by
  obtain ⟨x', hx', h⟩ := setup_related root rootDev
  obtain rfl := Option.some.inj (hx.symm.trans hx')
  obtain ⟨-, hfirst⟩ := run_related h fun e he => hes e (List.mem_append_left _ he)
  have hguard : Guarded (next (call fsRootfs rootDev))
      (fun _ e => Foreign rootDev e ∧ e.Short) (run (next (call fsRootfs rootDev)) x es) more :=
    guarded_of_forall (fun e he => ⟨hes e (List.mem_append_right _ he), hmore e he⟩) _
  -- every later state is in order and resolves the path to the same node
  obtain ⟨⟨y, hy⟩, hresolve⟩ := hguard.invariant
    (fun z => (∃ y, Related root rootDev z y) ∧ resolve z.1 root path = some p)
    (by
      rintro z e ⟨⟨y, hy⟩, hresolve⟩ ⟨hforeign, hshort⟩
      exact ⟨⟨_, (call_related hy hforeign).2⟩,
        resolve_call hy.mem.listed hy.onNodes hshort hresolve⟩)
    ⟨⟨_, hfirst⟩, hp⟩
  obtain ⟨kids, hkids⟩ := hy.mem.listed
  rw [run_append]
  exact ⟨hresolve, fun path' hp' => hkids.resolve_injective hp' hresolve⟩

/-- A node keeps its place when another one is created in front of it. -/
theorem run_paths_twoNodes :
    let x := (setup 7 (some 16)).getD (noNodes, [])
    let d := Event.openFile 0 [100] 1 (some 32) fun _ => (9, 5)
    let e := Event.openFile 0 [101] 1 (some 48) fun _ => (9, 5)
    resolve (run (next (call fsRootfs 7)) x [d, e]).1 16 [[100]] = some 32 ∧
      ∀ path', resolve (run (next (call fsRootfs 7)) x [d, e]).1 16 path' = some 32 →
        path' = [[100]] :=
  @run_paths 16 7 _ rfl [.openFile 0 [100] 1 (some 32) fun _ => (9, 5)] _ (by simp [Foreign])
    (by simp [Event.Short, NAME_LEN]) _ _ (by decide)

end Sgos.Rootfs
