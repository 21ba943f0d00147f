import Sgos.Fat32Save
import Sgos.Fat32Store

/-!
# A mounted directory

Files of one directory are opened, created, read, written, renamed, closed and deleted, in any
order. What the calls answer is what a map from names to contents answers, in which an open file is
a sequence of bytes with a position, and a closed one has the bytes that it was closed with.
-/
namespace Sgos.Fat32
open ByteStore

def FILE_FLAG_CREATE : UInt32 := 1
def FILE_FLAG_DELETE : UInt32 := 4

/-- `fat32_open` of a file in the directory `parent`. -/
def fat32Open (dev : Fat32Dev) (clock : Clock) (d : Store) (parent : File) (stackOpen : Stack)
    (stack : ℕ → Stack) (f : FileEnt) (name : List UInt8) (addr : UInt32) :
    Option (Int32 × FileEnt × Store) := do
  let (ret, f) ← openExisting dev clock d parent stackOpen f name
  if ret = 0 then some (0, f, d)
  else if f.flag &&& FILE_FLAG_CREATE ≠ 0 then
    let (clu, d) := getclu dev d
    let f := { f with name := name, size := 0, data := clu }
    let (ret, d) ← fat32CreateEnt dev clock d { parent with pos := 0 } stack f addr
    some (if ret = 0 then 0 else -1, f, d)
  else some (-1, f, d)

def fat32Remove (dev : Fat32Dev) (clock : Clock) (d : Store) (parent : File) (stack : Stack)
    (f : FileEnt) : Option Store := do
  let (_, d) := freeclu dev addressSpace d f.data
  let (_, d) ← fat32RemoveEnt dev clock d parent stack f
  some d

def fat32Close (dev : Fat32Dev) (clock : Clock) (d : Store) (parent : File) (stack : Stack)
    (f : FileEnt) : Option (Int32 × FileEnt × Store) :=
  if f.flag &&& FILE_FLAG_DELETE ≠ 0 then
    (fat32Remove dev clock d parent stack f).map fun d => (0, f, d)
  else if f.dirty then do
    let (ret, d) ← fat32Saveinfo dev clock d parent stack f
    some (if ret < 0 then ret else 0, { f with dirty := false }, d)
  else some (0, f, d)

/-! ## What a change of the volume keeps -/

section Keep
variable {dev : Fat32Dev} {n : ℕ} {clock : Clock} {d d' : Store} {cs xs : List UInt32}
  {parent : File} {a c e : UInt32} {vol : List (File × List UInt32)}

namespace Volume

/-- The chains stay when their entries of the table do. -/
lemma keep (hv : Volume dev n d vol) (hres : ∀ c : UInt32, c.toNat < 2 → nextclu dev d' c ≠ 0)
    (hnext : ∀ p ∈ vol, ∀ c ∈ p.2, nextclu dev d' c = nextclu dev d c) :
    Volume dev n d' vol where
  proper := hv.proper
  reserved := hres
  chain p hp hne := by
    obtain ⟨e, hfollow, hend⟩ := hv.chain p hp hne
    exact ⟨e, hfollow.congr (hnext p hp), hend⟩
  clusters := hv.clusters
  nodup := hv.nodup
  covered := hv.covered

/-- A file has the same bytes when its clusters have. -/
lemma wholeFile_keep (hv : Volume dev n d vol) (hv' : Volume dev n d' vol)
    {p : File × List UInt32} (hp : p ∈ vol)
    (hread : ∀ c ∈ p.2, readclu dev d' c = readclu dev d c) :
    wholeFile dev d' p.1 = wholeFile dev d p.1 := by
  rw [hv.wholeFile_eq hp, hv'.wholeFile_eq hp, contents_congr hread]

/-- A volume without one of its files. -/
lemma tail {p : File × List UInt32} (hv : Volume dev n d (p :: vol)) : Volume dev n d vol where
  proper := hv.proper
  reserved := hv.reserved
  chain q hq := hv.chain q (List.mem_cons_of_mem p hq)
  clusters q hq := hv.clusters q (List.mem_cons_of_mem p hq)
  nodup := (List.nodup_append'.mp hv.nodup).2.1
  covered q hq := hv.covered q (List.mem_cons_of_mem p hq)

/-- Two files have no cluster in common. -/
lemma apart {p : File × List UInt32} (hv : Volume dev n d (p :: vol)) (hc : c ∈ p.2)
    {q : File × List UInt32} (hq : q ∈ vol) : c ∉ q.2 := fun hmem =>
  (List.nodup_append'.mp hv.nodup).2.2 hc (List.mem_flatMap.mpr ⟨q, hq, hmem⟩)

end Volume

namespace Volume

/-- What is written to the clusters of a directory leaves the table and the other files. -/
lemma kept (hv : Volume dev n d vol) (hk : Catalog.Kept dev n cs d d') : Volume dev n d' vol := by
  have hnum := hv.proper.numbers_lt
  apply hv.keep
  · intro c hc
    rw [hk.next_eq c (by omega)]
    exact hv.reserved c hc
  · exact fun p hp c hc => hk.next_eq c (hv.clusters p hp c hc).2

lemma wholeFile_kept {r : File} (hv : Volume dev n d ((r, cs) :: vol))
    (hk : Catalog.Kept dev n cs d d') {p : File × List UInt32} (hp : p ∈ vol) :
    wholeFile dev d' p.1 = wholeFile dev d p.1 :=
  hv.tail.wholeFile_keep (hv.tail.kept hk) hp fun c hc =>
    hk.read_eq c (hv.tail.clusters p hp c hc) fun hmem => hv.apart hmem hp hc

/-- A free cluster is taken for a new file. -/
lemma taken (hv : Volume dev n d vol) (hfree : freeClusters dev d n ≠ []) :
    ∃ c d', getclu dev d = (c, d') ∧
      (∀ f : File, f.data = c → f.size = 0 → Volume dev n d' ((f, [c]) :: vol)) ∧
      ∀ e, IsCluster n e → readclu dev d' e = readclu dev d e := by
  obtain ⟨c, hc, hget⟩ := hv.proper.getclu_spec hv.reserved hfree
  obtain ⟨hclu, hzero⟩ := (mem_freeClusters hv.proper.numbers_lt).mp hc
  have hnum := hv.proper.numbers_lt
  have hset := fun e he => hv.proper.nextclu_setEntry d hclu.2 0xffffffff (e := e) he
  have hout : ∀ p ∈ vol, c ∉ p.2 := fun p hp hmem =>
    (hv.chain p hp (List.ne_nil_of_mem hmem)).entry_ne_zero (hv.clusters p hp) hmem hzero
  have hres : ∀ e : UInt32, e.toNat < 2 →
      nextclu dev (writeWord d (entryAddr dev c) 0xffffffff) e ≠ 0 := by
    intro e he
    have htwo := hclu.1
    rw [hset e (by omega), if_neg (fun heq => by rw [heq] at he; omega)]
    exact hv.reserved e he
  have hnext : ∀ p ∈ vol, ∀ e ∈ p.2,
      nextclu dev (writeWord d (entryAddr dev c) 0xffffffff) e = nextclu dev d e := by
    intro p hp e he
    rw [hset e (hv.clusters p hp e he).2, if_neg]
    rintro rfl
    exact hout p hp he
  have hkeep := hv.keep hres hnext
  refine ⟨c, _, hget, fun f hdata hsize => ⟨hv.proper, hres, fun p hp hne => ?_, fun p hp => ?_,
    ?_, fun p hp => ?_⟩, fun e he => hv.proper.readclu_setEntry d hclu.2 _ he⟩
  · rcases List.mem_cons.mp hp with rfl | hp
    · refine ⟨0xffffffff, ⟨hdata, ?_⟩, rfl⟩
      rw [Follows, hset c hclu.2, if_pos rfl]
    · exact hkeep.chain p hp hne
  · rcases List.mem_cons.mp hp with rfl | hp
    · exact fun e he => List.mem_singleton.mp he ▸ hclu
    · exact hv.clusters p hp
  · rw [List.flatMap_cons, List.singleton_append, List.nodup_cons]
    refine ⟨fun hmem => ?_, hv.nodup⟩
    obtain ⟨p, hp, hcp⟩ := List.mem_flatMap.mp hmem
    exact hout p hp hcp
  · rcases List.mem_cons.mp hp with rfl | hp
    · change f.size.toNat ≤ _
      rw [hsize]
      exact Nat.zero_le _
    · exact hv.covered p hp

end Volume

/-- Freeing a chain changes no entries but those of the chain, and no cluster. -/
lemma freeclu_keeps (h : dev.Proper n) (fuel : ℕ) (hfollow : Follows (nextclu dev d) a xs e)
    (hend : IS_FAT32CLU_INUSE e = false) (hne : xs ≠ []) (hxs : ∀ x ∈ xs, IsCluster n x)
    (hnodup : xs.Nodup) :
    (∀ c : UInt32, c.toNat < n + 2 → c ∉ xs →
      nextclu dev (freeclu dev fuel d a).2 c = nextclu dev d c) ∧
    ∀ c, IsCluster n c → readclu dev (freeclu dev fuel d a).2 c = readclu dev d c := by
  induction xs generalizing fuel d a with
  | nil => exact absurd rfl hne
  | cons x xs ih =>
    obtain ⟨rfl, hrest⟩ := hfollow
    have hx := hxs a List.mem_cons_self
    rw [List.nodup_cons] at hnodup
    cases fuel with
    | zero => exact ⟨fun _ _ _ => rfl, fun _ _ => rfl⟩
    | succ fuel =>
      rw [freeclu]
      dsimp only
      split_ifs with hpos hinuse
      · exact ⟨fun _ _ _ => rfl, fun _ _ => rfl⟩
      · have hmore : xs ≠ [] := by
          rintro rfl
          rw [show nextclu dev d a = e from hrest, hend] at hinuse
          cases hinuse
        have hset := fun c hc => h.nextclu_setEntry d hx.2 0 (e := c) hc
        have hnext : ∀ c ∈ xs, nextclu dev (writeWord d (entryAddr dev a) 0) c =
            nextclu dev d c := by
          intro c hc
          rw [hset c (hxs c (List.mem_cons_of_mem a hc)).2, if_neg]
          exact fun he => hnodup.1 (he ▸ hc)
        obtain ⟨hentries, hread⟩ := ih fuel (hrest.congr hnext) hmore
          (fun y hy => hxs y (List.mem_cons_of_mem a hy)) hnodup.2
        refine ⟨fun c hc hout => ?_, fun c hc => ?_⟩
        · rw [hentries c hc fun hmem => hout (List.mem_cons_of_mem a hmem), hset c hc, if_neg]
          exact fun he => hout (he ▸ List.mem_cons_self)
        · rw [hread c hc, h.readclu_setEntry d hx.2 0 hc]
      · exact ⟨fun _ _ _ => rfl, fun _ _ => rfl⟩

namespace Catalog

/-- A directory whose clusters are as they were. -/
lemma InOrder.keep (h : InOrder dev n d parent cs) (hdir : Lookup.Directory dev n d' parent cs)
    (hread : ∀ c ∈ cs, readclu dev d' c = readclu dev d c) :
    InOrder dev n d' parent cs where
  directory := hdir
  tidy c hc := by
    rw [hread c hc]
    exact h.tidy c hc
  few c hc := by
    rw [hread c hc]
    exact h.few c hc

lemma files_keep (clock : Clock) (hread : ∀ c ∈ cs, readclu dev d' c = readclu dev d c) :
    files dev clock d' cs = files dev clock d cs := by
  rw [files, files, RoundTrip.Written.records_congr hread]

lemma Holds.keep {m : Map} (h : Holds dev n clock parent cs d m)
    (hdir : Lookup.Directory dev n d' parent cs)
    (hread : ∀ c ∈ cs, readclu dev d' c = readclu dev d c) :
    Holds dev n clock parent cs d' m where
  inOrder := h.inOrder.keep hdir hread
  represents := by
    rw [files_keep clock hread]
    exact h.represents

end Catalog
end Keep
namespace Mount
open Catalog GuardedRun
open FileStore (Stream)
open Lookup (noClock noStack fooDir)

/-- The calls on a directory and its open files, with what the locals and `malloc` hold. -/
inductive Event
  | openFile (id : ℕ) (f : FileEnt) (name : List UInt8) (addr : UInt32) (stackOpen : Stack)
      (stack : ℕ → Stack)
  | seek (id : ℕ) (step pos : UInt32)
  | read (id : ℕ) (count : UInt32)
  | write (id : ℕ) (buf : List UInt8) (fresh : UInt32 → ℕ → UInt8)
  | rename (id : ℕ) (name : List UInt8) (addr : UInt32) (stackOpen stackRemove : Stack)
      (stack : ℕ → Stack)
  | close (id : ℕ) (stack : Stack)

/-- The number that a call returns, and the bytes that a read leaves in its buffer. There is no
answer when a call does not return. -/
abbrev Answer := Option (ℤ × List UInt8)

def wrongArg : Answer := some (-FileStore.ERR_WRONGARG, [])

/-! ## Contents under names -/

/-- An open file: the name without its case that it has, its bytes, and whether it is deleted when
it is closed. -/
structure Slot where
  key : List UInt8
  stream : Stream
  gone : Bool

/-- What the files that are closed contain, and the open files. -/
structure Folder where
  files : List UInt8 → Option (List UInt8)
  slots : ℕ → Option Slot

namespace Folder

def set (a : Folder) (id : ℕ) (x : Option Slot) : Folder :=
  { a with slots := Function.update a.slots id x }

def put (a : Folder) (k : List UInt8) (bytes : Option (List UInt8)) : Folder :=
  { a with files := Function.update a.files k bytes }

def load (name bytes : List UInt8) (flag : UInt32) : Slot :=
  ⟨key name, ⟨bytes, 0, Nat.zero_le _⟩, decide (flag &&& FILE_FLAG_DELETE ≠ 0)⟩

/-- The calls on the contents. -/
def call (a : Folder) : Event → Answer × Folder
  | .openFile id f name _ _ _ =>
    (a.files (key name)).elim
      (if f.flag &&& FILE_FLAG_CREATE ≠ 0 then
        (some (0, []), (a.put (key name) (some [])).set id (some (load name [] f.flag)))
      else (some (-1, []), a))
      fun bytes => (some (0, []), a.set id (some (load name bytes f.flag)))
  | .seek id step pos => (a.slots id).elim (wrongArg, a) fun x =>
      (some (0, []), a.set id (some { x with stream := x.stream.seek step pos }))
  | .read id count => (a.slots id).elim (wrongArg, a) fun x =>
      let bytes := (x.stream.bytes.drop x.stream.pos).take count.toNat
      (some (bytes.length, bytes), a.set id (some { x with stream := x.stream.read count.toNat }))
  | .write id buf _ => (a.slots id).elim (wrongArg, a) fun x =>
      (some (buf.length, []), a.set id (some { x with stream := x.stream.write buf }))
  | .rename id name _ _ _ _ => (a.slots id).elim (wrongArg, a) fun x =>
      if (a.files (key name)).isSome then (some (-1, []), a)
      else (some (0, []), ((a.put x.key none).put (key name) (a.files x.key)).set id
        (some { x with key := key name }))
  | .close id _ => (a.slots id).elim (wrongArg, a) fun x =>
      (some (0, []), (a.put x.key (if x.gone then none else some x.stream.bytes)).set id none)

end Folder

/-! ## The files on the volume -/

structure State where
  store : Store
  slots : ℕ → Option FileEnt

def State.set (s : State) (id : ℕ) (f : Option FileEnt) : State :=
  { s with slots := Function.update s.slots id f }

section Volume
variable (dev : Fat32Dev) (n : ℕ) (clock : Clock) (parent : File) (cs : List UInt32)

/-- The calls through `vfs_open`, `vfs_seek`, `vfs_read`, `vfs_write`, `vfs_rename` and `vfs_close`
on the file of a slot. -/
def call (s : State) : Event → Answer × State
  | .openFile id f name addr stackOpen stack =>
    (fat32Open dev clock s.store parent stackOpen stack f name addr).elim (none, s) fun r =>
      (some (r.1.toInt, []),
        if r.1 < 0 then { s with store := r.2.2 }
        else { s with store := r.2.2 }.set id (some r.2.1))
  | .seek id step pos => (s.slots id).elim (wrongArg, s) fun f =>
      (some (0, []), s.set id (some { f with toFile := vfsSeek f.toFile step pos }))
  | .read id count => (s.slots id).elim (wrongArg, s) fun f =>
      let r := fat32Read dev s.store f.toFile count
      (some (r.1.toInt, r.2.1), s.set id (some { f with toFile := r.2.2 }))
  | .write id buf fresh => (s.slots id).elim (wrongArg, s) fun f =>
      let r := fat32Write dev s.store f.toFile buf fresh
      (some (r.1.toInt, []), { s with store := r.2.2 }.set id (some { f with toFile := r.2.1 }))
  | .rename id name addr stackOpen stackRemove stack => (s.slots id).elim (wrongArg, s) fun f =>
      (fat32Rename dev clock s.store parent stackOpen stackRemove stack f name addr).elim (none, s)
        fun r => (some (r.1.toInt, []), { s with store := r.2.2 }.set id (some r.2.1))
  | .close id stack => (s.slots id).elim (wrongArg, s) fun f =>
      (fat32Close dev clock s.store parent stack f).elim (none, s) fun r =>
        (some (0, []), { s with store := r.2.2 }.set id none)

/-- The calls that reach no defect. A file is opened into a free slot and is not open yet; a name
that is asked for agrees with no other name; a file is created where it can be and a cluster is
free; what is written has room. -/
def Allowed (s : State) : Event → Prop
  | .openFile id f name addr _ stack =>
    s.slots id = none ∧ f.pos = 0 ∧ Exact (Catalog.files dev clock s.store cs) name ∧
      (∀ j g, s.slots j = some g → key g.name ≠ key name) ∧
      ((Catalog.files dev clock s.store cs).find? (Lookup.matching name) = none →
        f.flag &&& FILE_FLAG_CREATE ≠ 0 → freeClusters dev s.store n ≠ [] ∧
          CreateOk dev clock (getclu dev s.store).2 parent cs stack
            { f with name := name, size := 0, data := (getclu dev s.store).1 } addr)
  | .seek _ _ _ => True
  | .read id count => ∀ f, s.slots id = some f →
      min count.toNat (f.size.toNat - f.pos.toNat) < 2147483648
  | .write id buf _ => ∀ f, s.slots id = some f →
      buf = [] ∨ WriteOk dev f.toFile buf.length ∧
        FileStore.Room dev n s.store f.toFile buf.length
  | .rename id name addr _ stackRemove stack => ∀ f, s.slots id = some f →
      Exact (Catalog.files dev clock s.store cs) name ∧
        ((Catalog.files dev clock s.store cs).find? (Lookup.matching name) = none → ∀ d',
          fat32RemoveEnt dev clock s.store parent stackRemove f = some (0, d') →
            CreateOk dev clock d' parent cs stack { f with name := name } addr)
  | .close _ _ => True

end Volume

/-! ## How the volume holds the contents -/

/-- The directory as a file of the volume. -/
def root (parent : File) : File := { parent with size := 0 }

/-- A file of the directory: its key, the file as it is now, and its clusters. -/
abbrev Listed := List UInt8 × File × List UInt32

/-- The file is not open. -/
def Closed (a : Folder) (k : List UInt8) : Prop := ∀ id x, a.slots id = some x → x.key ≠ k

section Relation
variable (dev : Fat32Dev) (n : ℕ) (clock : Clock) (parent : File) (cs : List UInt32)

/-- An open file has the bytes and the position of the sequence. While it is not dirty its entry has
its size. -/
structure Open (d : Store) (m : Map) (vol : List Listed) (f : FileEnt) (x : Slot) : Prop where
  key_eq : x.key = key f.name
  gone_eq : x.gone = decide (f.flag &&& FILE_FLAG_DELETE ≠ 0)
  listed : ∃ xs, (x.key, f.toFile, xs) ∈ vol
  holds : FileStore.Holds dev d f.toFile x.stream
  entry : ∃ size attr, m x.key = some (f.data, size, attr) ∧ f.attrib &&& 0xf = attr &&& 0xf ∧
    (f.dirty = false → size = f.size)

/-- The directory and its files are on the volume, apart from each other. An entry names the first
cluster of its file, and the size of a closed one. -/
structure Rep (s : State) (a : Folder) (m : Map) (vol : List Listed) : Prop where
  dir : Catalog.Holds dev n clock parent cs s.store m
  volume : Volume dev n s.store ((root parent, cs) :: vol.map Prod.snd)
  ne_nil : ∀ p ∈ vol, p.2.2 ≠ []
  nodup : (vol.map Prod.fst).Nodup
  listed : ∀ k, (m k).isSome = true ↔ k ∈ vol.map Prod.fst
  known : ∀ k, (a.files k).isSome = (m k).isSome
  closed : ∀ p ∈ vol, Closed a p.1 → (∃ attr, m p.1 = some (p.2.1.data, p.2.1.size, attr)) ∧
    a.files p.1 = some (wholeFile dev s.store p.2.1)
  slots : ∀ id, (s.slots id = none ∧ a.slots id = none) ∨
    ∃ f x, s.slots id = some f ∧ a.slots id = some x ∧ Open dev s.store m vol f x
  apart : ∀ id id' x x', a.slots id = some x → a.slots id' = some x' → x.key = x'.key → id = id'

/-- The volume holds the contents. -/
def Refines (s : State) (a : Folder) : Prop := ∃ m vol, Rep dev n clock parent cs s a m vol

end Relation

variable {dev : Fat32Dev} {n : ℕ} {clock : Clock} {parent : File} {cs : List UInt32} {s s' : State}
  {a a' : Folder} {m m' : Map} {vol vol' olds news rest : List Listed} {id : ℕ} {f : FileEnt}
  {x : Slot} {k name : List UInt8} {xs : List UInt32}

lemma Open.perm {d : Store} (h : Open dev d m vol f x) (hperm : vol.Perm vol') :
    Open dev d m vol' f x where
  key_eq := h.key_eq
  gone_eq := h.gone_eq
  listed := by
    obtain ⟨xs, hmem⟩ := h.listed
    exact ⟨xs, hperm.mem_iff.mp hmem⟩
  holds := h.holds
  entry := h.entry

namespace Rep

/-- The order of the files does not matter. -/
lemma perm (h : Rep dev n clock parent cs s a m vol) (hperm : vol.Perm vol') :
    Rep dev n clock parent cs s a m vol' where
  dir := h.dir
  volume := h.volume.perm ((hperm.map Prod.snd).cons _)
  ne_nil p hp := h.ne_nil p (hperm.mem_iff.mpr hp)
  nodup := (hperm.map Prod.fst).nodup_iff.mp h.nodup
  listed k := (h.listed k).trans (hperm.map Prod.fst).mem_iff
  known := h.known
  closed p hp := h.closed p (hperm.mem_iff.mpr hp)
  slots id := (h.slots id).imp (fun hnone => hnone) fun ⟨f, x, hf, hx, hopen⟩ =>
     ⟨f, x, hf, hx, hopen.perm hperm⟩
  apart := h.apart

/-- The directory is as it was when its clusters are. -/
lemma directory (h : Rep dev n clock parent cs s a m vol) {d' : Store}
    {others : List (File × List UInt32)} (hv : Volume dev n d' ((root parent, cs) :: others)) :
    Lookup.Directory dev n d' parent cs where
  proper := hv.proper
  chain := hv.chain (root parent, cs) List.mem_cons_self h.dir.inOrder.directory.nonempty
  clusters := hv.clusters (root parent, cs) List.mem_cons_self
  nodup := (List.nodup_append'.mp hv.nodup).1
  nonempty := h.dir.inOrder.directory.nonempty

/-- What a call changes: the files in front, what is known of them, and one slot. Each slot but this
one is that of a file behind. -/
structure Changes (s s' : State) (a a' : Folder) (m m' : Map) (olds news rest : List Listed)
    (id : ℕ) : Prop where
  slots_eq : ∀ j, j ≠ id → s'.slots j = s.slots j ∧ a'.slots j = a.slots j
  inside : ∀ x, a.slots id = some x → x.key ∈ olds.map Prod.fst
  outside : ∀ j, j ≠ id → ∀ x, a.slots j = some x → x.key ∉ olds.map Prod.fst
  others : ∀ k, k ∉ olds.map Prod.fst → k ∉ news.map Prod.fst →
    m' k = m k ∧ a'.files k = a.files k
  gone : ∀ k, k ∈ olds.map Prod.fst → k ∉ news.map Prod.fst → m' k = none ∧ a'.files k = none
  nodup : ((news ++ rest).map Prod.fst).Nodup

/-- A file in front that is there after the call. -/
structure Renewed (dev : Fat32Dev) (s' : State) (a' : Folder) (m' : Map) (p : Listed) : Prop where
  ne_nil : p.2.2 ≠ []
  entry : (m' p.1).isSome = true
  known : (a'.files p.1).isSome = true
  closed : Closed a' p.1 → (∃ attr, m' p.1 = some (p.2.1.data, p.2.1.size, attr)) ∧
    a'.files p.1 = some (wholeFile dev s'.store p.2.1)

lemma key_mem_rest {k : List UInt8} (h : k ∈ (olds ++ rest).map Prod.fst)
    (hout : k ∉ olds.map Prod.fst) : k ∈ rest.map Prod.fst := by
  rw [List.map_append, List.mem_append] at h
  exact h.resolve_left hout

/-- A call that leaves the other files as they are keeps the relation. -/
lemma change (h : Rep dev n clock parent cs s a m (olds ++ rest)) (news : List Listed)
    (hc : Changes s s' a a' m m' olds news rest id)
    (hdir : Catalog.Holds dev n clock parent cs s'.store m')
    (hv : Volume dev n s'.store ((root parent, cs) :: (news ++ rest).map Prod.snd))
    (hwhole : ∀ p ∈ rest, wholeFile dev s'.store p.2.1 = wholeFile dev s.store p.2.1)
    (hnew : ∀ p ∈ news, Renewed dev s' a' m' p)
    (hslot : (s'.slots id = none ∧ a'.slots id = none) ∨
      ∃ f x, s'.slots id = some f ∧ a'.slots id = some x ∧ x.key ∈ news.map Prod.fst ∧
        Open dev s'.store m' (news ++ rest) f x) :
    Rep dev n clock parent cs s' a' m' (news ++ rest) := by
  have hnotOld : ∀ k ∈ rest.map Prod.fst, k ∉ olds.map Prod.fst := by
    have hnodup := h.nodup
    rw [List.map_append] at hnodup
    exact fun k hk hmem => (List.nodup_append'.mp hnodup).2.2 hmem hk
  have hnotNew : ∀ k ∈ rest.map Prod.fst, k ∉ news.map Prod.fst := by
    have hnodup := hc.nodup
    rw [List.map_append] at hnodup
    exact fun k hk hmem => (List.nodup_append'.mp hnodup).2.2 hmem hk
  have hsame := fun k (hk : k ∈ rest.map Prod.fst) => hc.others k (hnotOld k hk) (hnotNew k hk)
  have hnews : ∀ k ∈ news.map Prod.fst, (m' k).isSome = true ∧ (a'.files k).isSome = true := by
    intro k hk
    obtain ⟨p, hp, rfl⟩ := List.mem_map.mp hk
    exact ⟨(hnew p hp).entry, (hnew p hp).known⟩
  refine ⟨hdir, hv, fun p hp => ?_, hc.nodup, fun k => ?_, fun k => ?_, fun p hp hclosed => ?_,
    fun j => ?_, fun j j' y y' hj hj' hkey => ?_⟩
  · rcases List.mem_append.mp hp with hp | hp
    · exact (hnew p hp).ne_nil
    · exact h.ne_nil p (List.mem_append_right olds hp)
  · rw [List.map_append, List.mem_append]
    by_cases hk : k ∈ news.map Prod.fst
    · simp only [(hnews k hk).1, hk, true_or]
    · by_cases hkold : k ∈ olds.map Prod.fst
      · simp only [(hc.gone k hkold hk).1, Option.isSome_none, Bool.false_eq_true, hk, false_or,
          false_iff]
        exact fun hmem => hnotOld k hmem hkold
      · rw [(hc.others k hkold hk).1, h.listed k, List.map_append, List.mem_append]
        simp only [hk, hkold, false_or]
  · by_cases hk : k ∈ news.map Prod.fst
    · rw [(hnews k hk).1, (hnews k hk).2]
    · by_cases hkold : k ∈ olds.map Prod.fst
      · rw [(hc.gone k hkold hk).1, (hc.gone k hkold hk).2]
        rfl
      · rw [(hc.others k hkold hk).1, (hc.others k hkold hk).2]
        exact h.known k
  · rcases List.mem_append.mp hp with hp | hp
    · exact (hnew p hp).closed hclosed
    · have hmem := List.mem_map_of_mem (f := Prod.fst) hp
      have hbefore : Closed a p.1 := by
        intro j y hy hkey
        by_cases hj : j = id
        · subst hj
          exact hnotOld p.1 hmem (hkey ▸ hc.inside y hy)
        · exact hclosed j y ((hc.slots_eq j hj).2.trans hy) hkey
      rw [(hsame p.1 hmem).1, (hsame p.1 hmem).2, hwhole p hp]
      exact h.closed p (List.mem_append_right olds hp) hbefore
  · by_cases hj : j = id
    · subst hj
      exact hslot.imp (fun hnone => hnone) fun ⟨f, y, hf, hy, _, hopen⟩ => ⟨f, y, hf, hy, hopen⟩
    · rw [(hc.slots_eq j hj).1, (hc.slots_eq j hj).2]
      refine (h.slots j).imp (fun hnone => hnone) fun ⟨f, y, hf, hy, hopen⟩ => ⟨f, y, hf, hy, ?_⟩
      obtain ⟨xs, hmem⟩ := hopen.listed
      have hrest : (y.key, f.toFile, xs) ∈ rest := (List.mem_append.mp hmem).resolve_left
        fun hin => hc.outside j hj y hy (List.mem_map_of_mem hin)
      have hkey := List.mem_map_of_mem (f := Prod.fst) hrest
      refine ⟨hopen.key_eq, hopen.gone_eq, ⟨xs, List.mem_append_right news hrest⟩,
        ⟨(hwhole _ hrest).trans hopen.holds.bytes_eq, hopen.holds.pos_eq⟩, ?_⟩
      rw [(hsame _ hkey).1]
      exact hopen.entry
  · -- the key of the slot is that of a file in front, the keys of the others are not
    have hother : ∀ i, i ≠ id → ∀ z, a'.slots i = some z → z.key ∈ rest.map Prod.fst := by
      intro i hi z hz
      rw [(hc.slots_eq i hi).2] at hz
      rcases h.slots i with ⟨-, hnone⟩ | ⟨f, y, -, hy, hopen⟩
      · rw [hnone] at hz
        cases hz
      · obtain rfl := Option.some.inj (hy.symm.trans hz)
        obtain ⟨xs, hmem⟩ := hopen.listed
        exact key_mem_rest (List.mem_map_of_mem (f := Prod.fst) hmem) (hc.outside i hi y hy)
    have hhere : ∀ z, a'.slots id = some z → z.key ∈ news.map Prod.fst := by
      intro z hz
      rcases hslot with ⟨-, hnone⟩ | ⟨f, y, -, hy, hkey, -⟩
      · rw [hnone] at hz
        cases hz
      · obtain rfl := Option.some.inj (hy.symm.trans hz)
        exact hkey
    by_cases hjid : j = id
    · by_cases hjid' : j' = id
      · rw [hjid, hjid']
      · subst hjid
        exact absurd (hkey ▸ hhere y hj) (hnotNew _ (hother j' hjid' y' hj'))
    · by_cases hjid' : j' = id
      · subst hjid'
        exact absurd (hkey ▸ hhere y' hj') (hnotNew _ (hother j hjid y hj))
      · rw [(hc.slots_eq j hjid).2] at hj
        rw [(hc.slots_eq j' hjid').2] at hj'
        exact h.apart j j' y y' hj hj' hkey

/-- A slot is free, or open, with its file in front. -/
lemma lookup (h : Rep dev n clock parent cs s a m vol) (id : ℕ) :
    (s.slots id = none ∧ a.slots id = none) ∨ ∃ f x xs rest, s.slots id = some f ∧
      a.slots id = some x ∧ Rep dev n clock parent cs s a m ([(x.key, f.toFile, xs)] ++ rest) ∧
      Open dev s.store m ([(x.key, f.toFile, xs)] ++ rest) f x := by
  refine (h.slots id).imp (fun hnone => hnone) fun ⟨f, x, hf, hx, hopen⟩ => ?_
  obtain ⟨xs, hmem⟩ := hopen.listed
  obtain ⟨l₁, l₂, rfl⟩ := List.append_of_mem hmem
  exact ⟨f, x, xs, l₁ ++ l₂, hf, hx, h.perm List.perm_middle, hopen.perm List.perm_middle⟩

/-- A call on an open file changes what is known of this file. -/
lemma changes {g : File} (h : Rep dev n clock parent cs s a m ([(x.key, g, xs)] ++ rest))
    (hx : a.slots id = some x)
    (hslots : ∀ j, j ≠ id → s'.slots j = s.slots j ∧ a'.slots j = a.slots j)
    (hothers : ∀ k, k ≠ x.key → k ∉ news.map Prod.fst → m' k = m k ∧ a'.files k = a.files k)
    (hgone : x.key ∉ news.map Prod.fst → m' x.key = none ∧ a'.files x.key = none)
    (hnodup : ((news ++ rest).map Prod.fst).Nodup) :
    Changes s s' a a' m m' [(x.key, g, xs)] news rest id where
  slots_eq := hslots
  inside y hy := by
    obtain rfl := Option.some.inj (hx.symm.trans hy)
    exact List.mem_singleton_self _
  outside j hj y hy hmem := hj (h.apart j id y x hy hx (List.mem_singleton.mp hmem))
  others k hk := hothers k fun he => hk (List.mem_singleton.mpr he)
  gone k hk := by
    obtain rfl := List.mem_singleton.mp hk
    exact hgone
  nodup := hnodup

lemma set_slots (s : State) (a : Folder) (id : ℕ) (f : Option FileEnt) (x : Option Slot) (j : ℕ)
    (hj : j ≠ id) : (s.set id f).slots j = s.slots j ∧ (a.set id x).slots j = a.slots j :=
  ⟨Function.update_of_ne hj _ _, Function.update_of_ne hj _ _⟩

/-- The directory and the other files behind an open one. -/
lemma volume_swap {g : File} (h : Rep dev n clock parent cs s a m ([(k, g, xs)] ++ rest)) :
    Volume dev n s.store ((g, xs) :: (root parent, cs) :: rest.map Prod.snd) :=
  h.volume.perm (List.Perm.swap _ _ _)

/-- An open file goes on with other bytes and another position. -/
lemma touch (h : Rep dev n clock parent cs s a m ([(x.key, f.toFile, xs)] ++ rest))
    (hx : a.slots id = some x) (hopen : Open dev s.store m ([(x.key, f.toFile, xs)] ++ rest) f x)
    {f' : File} {y : Stream} {d' : Store} {ys : List UInt32} (hys : ys ≠ [])
    (hv : Volume dev n d' ((f', ys) :: (root parent, cs) :: rest.map Prod.snd))
    (hread : ∀ c ∈ cs, readclu dev d' c = readclu dev s.store c)
    (hwhole : ∀ p ∈ rest, wholeFile dev d' p.2.1 = wholeFile dev s.store p.2.1)
    (hdata : f'.data = f.data) (hdirty : f'.dirty = false → f.dirty = false ∧ f'.size = f.size)
    (hy : FileStore.Holds dev d' f' y) :
    Refines dev n clock parent cs ({ s with store := d' }.set id (some { f with toFile := f' }))
      (a.set id (some { x with stream := y })) := by
  have hv' : Volume dev n d' ((root parent, cs) :: (f', ys) :: rest.map Prod.snd) :=
    hv.perm (List.Perm.swap _ _ _)
  have hsome : (m x.key).isSome = true := (h.listed x.key).mpr (by simp)
  have hslot : (a.set id (some { x with stream := y })).slots id = some { x with stream := y } :=
    Function.update_self ..
  refine ⟨m, _, h.change [(x.key, f', ys)] (h.changes hx (fun j hj => set_slots
    { s with store := d' } a id _ _ j hj) (fun k _ _ => ⟨rfl, rfl⟩) (fun hno => ?_) h.nodup)
    (h.dir.keep (h.directory hv') hread) hv' hwhole (fun p hp => ?_) (.inr ⟨_, _,
    Function.update_self .., hslot, by simp, ?_⟩)⟩
  · exact absurd (by simp) hno
  · obtain rfl := List.mem_singleton.mp hp
    exact ⟨hys, hsome, (h.known x.key).trans hsome, fun hclosed =>
      absurd rfl (hclosed id { x with stream := y } hslot)⟩
  · obtain ⟨size, attr, hm, hattr, hsize⟩ := hopen.entry
    refine ⟨hopen.key_eq, hopen.gone_eq, ⟨ys, by simp⟩, hy, size, attr, ?_, hattr, fun hd => ?_⟩
    · exact hm.trans (by rw [← hdata])
    · obtain ⟨hclean, hsame⟩ := hdirty hd
      exact (hsize hclean).trans hsame.symm

end Rep

/-! ## The calls -/

section Calls
variable {step pos count : UInt32} {buf : List UInt8} {fresh : UInt32 → ℕ → UInt8}

end Calls

/-! ### Closing -/

/-- A file is deleted: its chain is freed and its entry removed. -/
lemma Rep.delete (h : Rep dev n clock parent cs s a m ([(x.key, f.toFile, xs)] ++ rest))
    (hx : a.slots id = some x) (hopen : Open dev s.store m ([(x.key, f.toFile, xs)] ++ rest) f x)
    (stack : Stack) :
    ∃ d', fat32Remove dev clock s.store parent stack f = some d' ∧
      Refines dev n clock parent cs ({ s with store := d' }.set id none)
        ((a.put x.key none).set id none) := by
  have hv := h.volume_swap
  have hproper := hv.proper
  have hne : xs ≠ [] := h.ne_nil _ List.mem_cons_self
  have hclusters : ∀ c ∈ xs, IsCluster n c := hv.clusters (f.toFile, xs) List.mem_cons_self
  obtain ⟨e, hfollow, hend⟩ := hv.chain (f.toFile, xs) List.mem_cons_self hne
  obtain ⟨hnext, hread⟩ := freeclu_keeps hproper addressSpace hfollow (not_inuse_of_end hend) hne
    hclusters (List.nodup_append'.mp hv.nodup).1
  -- the chains of the others have no entry of the chain
  have hfreed : Volume dev n (freeclu dev addressSpace s.store f.data).2
      ((root parent, cs) :: rest.map Prod.snd) := by
    apply hv.tail.keep
    · intro c hc
      rw [hnext c (by omega) fun hmem => by have htwo := (hclusters c hmem).1; omega]
      exact hv.reserved c hc
    · exact fun p hp c hc => hnext c (hv.tail.clusters p hp c hc).2 fun hmem => hv.apart hmem hp hc
  have hmid := h.dir.keep (h.directory hfreed) fun c hc =>
    hread c (h.dir.inOrder.directory.clusters c hc)
  have hsome : (m (key f.name)).isSome = true := by
    rw [← hopen.key_eq]
    exact (h.listed x.key).mpr (by simp)
  obtain ⟨d', hremove, hkept, hdir⟩ :=
    hmid.remove_some (hmid.represents.exact hsome) hsome stack
  rw [← hopen.key_eq] at hdir
  refine ⟨d', ?_, Function.update m x.key none, _, h.change [] (h.changes hx
    (fun j hj => Rep.set_slots { s with store := d' } (a.put x.key none) id _ _ j hj)
    (fun k hk _ => ⟨Function.update_of_ne hk _ _, Function.update_of_ne hk _ _⟩)
    (fun _ => ⟨Function.update_self .., Function.update_self ..⟩) ?_) hdir (hfreed.kept hkept)
    (fun p hp => ?_) (fun p hp => absurd hp List.not_mem_nil)
    (.inl ⟨Function.update_self .., Function.update_self ..⟩)⟩
  · simp only [fat32Remove, hremove, Option.bind_eq_bind, Option.bind_some]
  · exact (List.nodup_cons.mp h.nodup).2
  · have hp' : p.2 ∈ rest.map Prod.snd := List.mem_map_of_mem hp
    change wholeFile dev d' p.2.1 = _
    rw [hfreed.wholeFile_kept hkept hp', hv.tail.wholeFile_keep hfreed (List.mem_cons_of_mem _ hp')]
    exact fun c hc => hread c (hv.tail.clusters _ (List.mem_cons_of_mem _ hp') c hc)

/-- The name is a new one: the file goes there. -/
lemma Rep.move (h : Rep dev n clock parent cs s a m ([(x.key, f.toFile, xs)] ++ rest))
    (hx : a.slots id = some x) (hopen : Open dev s.store m ([(x.key, f.toFile, xs)] ++ rest) f x)
    (hnone : m (key name) = none) {d' : Store} (hkept : Kept dev n cs s.store d')
    (hdir : Catalog.Holds dev n clock parent cs d' (Function.update
      (Function.update m x.key none) (key name) (some (f.data, f.size, f.attrib &&& 0xf)))) :
    Refines dev n clock parent cs
      ({ s with store := d' }.set id (some { f with name := name }))
      (((a.put x.key none).put (key name) (a.files x.key)).set id
        (some { x with key := key name })) := by
  have hnotIn : key name ∉ ([(x.key, f.toFile, xs)] ++ rest).map Prod.fst := by
    rw [← h.listed, hnone]
    exact Bool.false_ne_true
  have hne : x.key ≠ key name := fun he => hnotIn (he ▸ by simp)
  have hslot : (((a.put x.key none).put (key name) (a.files x.key)).set id
      (some { x with key := key name })).slots id = some { x with key := key name } :=
    Function.update_self ..
  have hfile : (((a.put x.key none).put (key name) (a.files x.key)).set id
      (some { x with key := key name })).files (key name) = a.files x.key :=
    Function.update_self ..
  have hsome : (a.files x.key).isSome = true :=
    (h.known x.key).trans ((h.listed x.key).mpr (by simp))
  refine ⟨_, _, h.change [(key name, f.toFile, xs)] (h.changes hx (fun j hj =>
    Rep.set_slots { s with store := d' } ((a.put x.key none).put (key name) (a.files x.key)) id _ _
      j hj) (fun k hk hno => ?_) (fun _ => ?_) ?_) hdir (h.volume.kept hkept) (fun p hp => ?_)
    (fun p hp => ?_) (.inr ⟨_, _, Function.update_self .., hslot, by simp, ?_⟩)⟩
  · have hk' : k ≠ key name := fun he => hno (by simp [he])
    exact ⟨(Function.update_of_ne hk' _ _).trans (Function.update_of_ne hk _ _),
      (Function.update_of_ne hk' _ _).trans (Function.update_of_ne hk _ _)⟩
  · exact ⟨(Function.update_of_ne hne _ _).trans (Function.update_self ..),
      (Function.update_of_ne hne _ _).trans (Function.update_self ..)⟩
  · exact List.nodup_cons.mpr ⟨fun hmem => hnotIn (List.mem_cons_of_mem _ hmem),
      (List.nodup_cons.mp h.nodup).2⟩
  · exact h.volume.wholeFile_kept hkept (List.mem_map_of_mem (List.mem_append_right _ hp))
  · obtain rfl := List.mem_singleton.mp hp
    refine ⟨h.ne_nil (x.key, f.toFile, xs) List.mem_cons_self, ?_, ?_, fun hclosed => absurd rfl
      (hclosed id { x with key := key name } hslot)⟩
    · rw [Function.update_self]
      rfl
    · rw [hfile]
      exact hsome
  · refine ⟨rfl, hopen.gone_eq, ⟨xs, by simp⟩, ⟨?_, hopen.holds.pos_eq⟩, f.size, f.attrib &&& 0xf,
      Function.update_self .., ?_, fun _ => rfl⟩
    · have hwhole := h.volume.wholeFile_kept hkept (p := (f.toFile, xs)) List.mem_cons_self
      exact hwhole.trans hopen.holds.bytes_eq
    · rw [UInt32.and_assoc]
      rfl

/-- A file is opened that is there and is not open. -/
lemma Rep.enter {g : File} (h : Rep dev n clock parent cs s a m ([(key name, g, xs)] ++ rest))
    (hx : a.slots id = none) (hclosed : Closed a (key name)) (hname : f.name = name)
    (hpos : f.pos = 0) (hm : m (key name) = some (f.data, f.size, f.attrib)) :
    ∃ bytes, a.files (key name) = some bytes ∧
      Refines dev n clock parent cs (s.set id (some f))
        (a.set id (some (Folder.load name bytes f.flag))) := by
  obtain ⟨⟨attr, hentry⟩, hbytes⟩ := h.closed (key name, g, xs) List.mem_cons_self hclosed
  rw [hm] at hentry
  obtain ⟨hdata, hrest⟩ := Prod.mk.inj (Option.some.inj hentry)
  obtain ⟨hsize, -⟩ := Prod.mk.inj hrest
  have hslot : (a.set id (some (Folder.load name (wholeFile dev s.store g) f.flag))).slots id =
      some (Folder.load name (wholeFile dev s.store g) f.flag) := Function.update_self ..
  have hv : Volume dev n s.store ((root parent, cs) :: (f.toFile, xs) :: rest.map Prod.snd) :=
    (h.volume_swap.same hdata hsize).perm (List.Perm.swap _ _ _)
  refine ⟨wholeFile dev s.store g, hbytes, m, _, h.change [(key name, f.toFile, xs)]
    ⟨fun j hj => Rep.set_slots s a id _ _ j hj, fun y hy => ?_, fun j hj y hy hmem => ?_,
      fun k _ _ => ⟨rfl, rfl⟩, fun k hk hno => absurd hk hno, h.nodup⟩ h.dir hv (fun _ _ => rfl)
    (fun p hp => ?_) (.inr ⟨_, _, Function.update_self .., hslot, by simp [Folder.load], ?_⟩)⟩
  · rw [hx] at hy
    cases hy
  · exact hclosed j y hy (List.mem_singleton.mp hmem)
  · obtain rfl := List.mem_singleton.mp hp
    refine ⟨h.ne_nil (key name, g, xs) List.mem_cons_self, ?_, ?_,
      fun hshut => absurd rfl (hshut id _ hslot)⟩
    · rw [hm]
      rfl
    · exact (congrArg Option.isSome hbytes).trans rfl
  · refine ⟨congrArg key hname.symm, rfl, ⟨xs, List.mem_cons_self⟩, ⟨?_, ?_⟩, f.size, f.attrib, hm,
      rfl, fun _ => rfl⟩
    · exact FileStore.wholeFile_congr hdata hsize
    · rw [hpos]
      rfl

/-- The slot that a call is about. -/
def Event.slot : Event → ℕ
  | .openFile id _ _ _ _ _ => id
  | .seek id _ _ => id
  | .read id _ => id
  | .write id _ _ => id
  | .rename id _ _ _ _ _ => id
  | .close id _ => id

end Mount
end Sgos.Fat32
