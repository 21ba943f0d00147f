import Sgos.Fat32Position

/-!
# The volume as a store of files

Calls on the open files of a volume come in any order. As long as the writes reach no defect and
find clusters enough, every call answers as if the files were sequences of bytes, each with a
position, that have nothing in common.
-/
namespace Sgos.Fat32
open ByteStore GuardedRun

/-! ## Reading and writing on a volume -/

namespace Volume
variable {dev : Fat32Dev} {n : ℕ} {d : Store} {f f' : File} {xs : List UInt32}
  {files files' others : List (File × List UInt32)} {buf : List UInt8}

/-- The order of the files does not matter. -/
lemma perm (hv : Volume dev n d files) (h : files.Perm files') : Volume dev n d files' where
  proper := hv.proper
  reserved := hv.reserved
  chain p hp := hv.chain p (h.mem_iff.mpr hp)
  clusters p hp := hv.clusters p (h.mem_iff.mpr hp)
  nodup := (h.flatMap_right Prod.snd).nodup_iff.mp hv.nodup
  covered p hp := hv.covered p (h.mem_iff.mpr hp)

/-- A file may be exchanged for one with the same clusters and the same size. -/
lemma same (hv : Volume dev n d ((f, xs) :: others)) (hdata : f'.data = f.data)
    (hsize : f'.size = f.size) : Volume dev n d ((f', xs) :: others) where
  proper := hv.proper
  reserved := hv.reserved
  chain p hp := by
    rcases List.mem_cons.mp hp with rfl | hp
    · rw [hdata]
      exact hv.chain (f, xs) List.mem_cons_self
    · exact hv.chain p (List.mem_cons_of_mem _ hp)
  clusters p hp := by
    rcases List.mem_cons.mp hp with rfl | hp
    · exact hv.clusters (f, xs) List.mem_cons_self
    · exact hv.clusters p (List.mem_cons_of_mem _ hp)
  nodup := hv.nodup
  covered p hp := by
    rcases List.mem_cons.mp hp with rfl | hp
    · rw [hsize]
      exact hv.covered (f, xs) List.mem_cons_self
    · exact hv.covered p (List.mem_cons_of_mem _ hp)

lemma length_wholeFile (hv : Volume dev n d files) {p : File × List UInt32} (hp : p ∈ files) :
    (wholeFile dev d p.1).length = p.1.size.toNat := by
  rw [hv.wholeFile_eq hp, List.length_take, hv.proper.length_contents (hv.clusters p hp)]
  exact min_eq_left (hv.covered p hp)

/-- A read takes the bytes behind the position. -/
lemma read_spec (hv : Volume dev n d ((f, xs) :: others)) (hne : xs ≠ [])
    (hpos : f.pos.toNat ≤ f.size.toNat) (count : UInt32) :
    ∃ out, out = ((wholeFile dev d f).drop f.pos.toNat).take count.toNat ∧
      fat32Read dev d f count = ((UInt32.ofNat out.length).toInt32, out,
        { f with pos := f.pos + UInt32.ofNat out.length }) := by
  have hB := hv.bytPerClu_pos
  have hcovered : f.size.toNat ≤ xs.length * dev.bytPerClu.toNat :=
    hv.covered (f, xs) List.mem_cons_self
  have hwhole : wholeFile dev d f = (contents dev d xs).take f.size.toNat :=
    hv.wholeFile_eq (p := (f, xs)) List.mem_cons_self
  have hleft : (f.size - f.pos).toNat = f.size.toNat - f.pos.toNat := toNat_sub_of_le hpos
  refine ⟨_, rfl, ?_⟩
  simp only [fat32Read]
  generalize hcut : (if count > f.size - f.pos then f.size - f.pos else count) = cut
  have hnat : cut.toNat = min count.toNat (f.size.toNat - f.pos.toNat) := by
    rw [← hcut]
    split_ifs with hgt
    · rw [gt_iff_lt, UInt32.lt_iff_toNat_lt, hleft] at hgt
      rw [hleft, min_eq_right hgt.le]
    · rw [gt_iff_lt, UInt32.lt_iff_toNat_lt, hleft] at hgt
      rw [min_eq_left (by omega)]
  have hout : ((wholeFile dev d f).drop f.pos.toNat).take count.toNat =
      ((contents dev d xs).drop f.pos.toNat).take cut.toNat := by
    rw [hwhole, List.drop_take, List.take_take, hnat]
  rw [hout]
  by_cases hzero : cut.toNat = 0
  · obtain rfl : cut = 0 := UInt32.toNat_inj.mp hzero
    simp only [hzero, readLoop_zero, List.take_zero, List.length_nil, if_true]
  · have hlt : f.pos.toNat / dev.bytPerClu.toNat < xs.length := by
      rw [Nat.div_lt_iff_lt_mul hB]
      omega
    have hdm := Nat.div_add_mod' f.pos.toNat dev.bytPerClu.toNat
    have hmod : (f.pos % dev.bytPerClu).toNat = f.pos.toNat % dev.bytPerClu.toNat :=
      UInt32.toNat_mod ..
    obtain ⟨pre, rest, m, e, rfl, hj, -, -, hafter, hend, horder⟩ := hv.split_at hne hlt
    have hchain : IsChain (nextclu dev d) (getCluByOrder dev d f.data (cluOrder dev f.pos)) rest := by
      rw [horder]
      exact ⟨e, hafter, hend⟩
    have hcl : ∀ c ∈ pre ++ rest, IsCluster n c := hv.clusters (f, pre ++ rest) List.mem_cons_self
    have hlen : (contents dev d pre).length =
        f.pos.toNat / dev.bytPerClu.toNat * dev.bytPerClu.toNat := by
      rw [hv.proper.length_contents fun c hc => hcl c (by simp [hc]), hj]
    have hroom : (f.pos % dev.bytPerClu).toNat + cut.toNat ≤
        rest.length * dev.bytPerClu.toNat := by
      rw [List.length_append, Nat.add_mul, hj] at hcovered
      omega
    have hloop := readLoop_spec hv.proper cut.toNat _ (f.pos % dev.bytPerClu) cut hchain
      (fun c hc => hcl c (by simp [hc])) (by rw [hmod]; exact Nat.mod_lt _ hB) hroom le_rfl
    have hdrop : (contents dev d (pre ++ rest)).drop f.pos.toNat =
        (contents dev d rest).drop (f.pos.toNat % dev.bytPerClu.toNat) := by
      have hsum : f.pos.toNat =
          (contents dev d pre).length + f.pos.toNat % dev.bytPerClu.toNat := by omega
      rw [contents_append]
      conv_lhs => rw [hsum, List.drop_length_add_append]
    rw [hloop, hdrop, hmod]
    simp only [if_true]

/-- A write that reaches no defect and has room leaves a volume in order, on which the file has the
bytes at its position and the other files are as before. -/
lemma write_ok (hv : Volume dev n d ((f, xs) :: others)) (hne : xs ≠ [])
    (hpos : f.pos.toNat ≤ f.size.toNat) (hok : WriteOk dev f buf.length)
    (hroom : f.pos.toNat + buf.length ≤
      (xs.length + (freeClusters dev d n).length) * dev.bytPerClu.toNat)
    (fresh : UInt32 → ℕ → UInt8) :
    ∃ ys d', ys ≠ [] ∧ fat32Write dev d f buf fresh =
        ((UInt32.ofNat buf.length).toInt32, f.written buf.length, d') ∧
      Volume dev n d' ((f.written buf.length, ys) :: others) ∧
      wholeFile dev d' (f.written buf.length) = (wholeFile dev d f).take f.pos.toNat ++ buf ++
        (wholeFile dev d f).drop (f.pos.toNat + buf.length) ∧
      (∀ p ∈ others, wholeFile dev d' p.1 = wholeFile dev d p.1) ∧
      ∀ p ∈ others, contents dev d' p.2 = contents dev d p.2 := by
  obtain ⟨hat, hkeep, hfit, hsmall⟩ := hok
  have hcovered : f.size.toNat ≤ xs.length * dev.bytPerClu.toNat :=
    hv.covered (f, xs) List.mem_cons_self
  have hlen : (contents dev d xs).length = xs.length * dev.bytPerClu.toNat :=
    hv.proper.length_contents (hv.clusters (f, xs) List.mem_cons_self)
  have hold : wholeFile dev d f = (contents dev d xs).take f.size.toNat :=
    hv.wholeFile_eq (p := (f, xs)) List.mem_cons_self
  have hcount : buf.length < addressSpace := by omega
  obtain ⟨t, d', hwrite, hread, htail, hothers⟩ := hv.write_result hne hpos hat hcount hroom fresh
  obtain ⟨zs, t', d'', hloop, hvol, hbytes, -, hclusters⟩ := hv.write_spec hne hpos hat hroom fresh
  have hstore : (fat32Write dev d f buf fresh).2.2 = d'' := by
    simp only [fat32Write, hloop]
    split_ifs <;> rfl
  obtain rfl : d' = d'' := by rw [← hstore, hwrite]
  refine ⟨xs ++ zs, d', by simp [hne], hwrite, hvol _ (written_data f _) ?_, ?_, hothers,
    hclusters⟩
  · have hclusters : ∀ c ∈ xs ++ zs, IsCluster n c :=
      (hvol { f with size := 0 } rfl (by simp)).clusters (_, xs ++ zs) List.mem_cons_self
    have hnew := hv.proper.length_contents (d := d') hclusters
    have hmore : xs.length * dev.bytPerClu.toNat ≤ (xs ++ zs).length * dev.bytPerClu.toNat :=
      Nat.mul_le_mul_right _ (by simp)
    rw [hbytes] at hnew
    simp only [List.length_append, List.length_take] at hnew hmore ⊢
    rw [written_size hfit]
    omega
  · have hfront : ((contents dev d xs).take f.pos.toNat ++ buf).length =
        f.pos.toNat + buf.length := by
      rw [List.length_append, List.length_take, min_eq_left (by omega)]
    have hbefore : (wholeFile dev d f).take f.pos.toNat =
        (contents dev d xs).take f.pos.toNat := by
      rw [hold, List.take_take, min_eq_left hpos]
    rw [hread, written_size hfit, hbefore, hold]
    rcases Nat.lt_or_ge (f.pos.toNat + buf.length) f.size.toNat with hinside | hbeyond
    · rw [hkeep.eq_drop hinside htail, max_eq_left hinside.le, List.take_append, hfront,
        List.take_of_length_le (by omega), List.drop_take]
    · rw [max_eq_right hbeyond, List.take_left' hfront, List.drop_eq_nil_of_le, List.append_nil]
      rw [List.length_take]
      omega

end Volume
namespace FileStore

def ERR_WRONGARG : ℤ := 3

/-- The calls on the open files. `fresh` is what `malloc` returns to a write. -/
inductive Event
  | seek (id : ℕ) (step pos : UInt32)
  | read (id : ℕ) (count : UInt32)
  | write (id : ℕ) (buf : List UInt8) (fresh : UInt32 → ℕ → UInt8)

/-- The number that a call returns, and the bytes that a read leaves in its buffer. -/
abbrev Answer := ℤ × List UInt8

/-! ## Sequences of bytes -/

/-- A sequence of bytes with a position in it. -/
@[ext]
structure Stream where
  bytes : List UInt8
  pos : ℕ
  pos_le : pos ≤ bytes.length

namespace Stream

/-- The position a seek asks for, as a number of 32 bits. -/
def target (x : Stream) (step pos : UInt32) : ℕ :=
  if pos = SEEK_CUR then (x.pos + step.toNat) % addressSpace
  else if pos = SEEK_SET then step.toNat
  else if pos = SEEK_END then (x.bytes.length + step.toNat) % addressSpace
  else x.pos

def seek (x : Stream) (step pos : UInt32) : Stream :=
  ⟨x.bytes, min (x.target step pos) x.bytes.length, Nat.min_le_right _ _⟩

def read (x : Stream) (count : ℕ) : Stream :=
  ⟨x.bytes, min (x.pos + count) x.bytes.length, Nat.min_le_right _ _⟩

lemma write_le (x : Stream) (buf : List UInt8) : x.pos + buf.length ≤
    (x.bytes.take x.pos ++ buf ++ x.bytes.drop (x.pos + buf.length)).length := by
  have hpos := x.pos_le
  rw [List.length_append, List.length_append, List.length_take, min_eq_left hpos]
  exact Nat.le_add_right _ _

/-- The bytes at the position are replaced, and the sequence is lengthened where it ends. -/
def write (x : Stream) (buf : List UInt8) : Stream :=
  ⟨x.bytes.take x.pos ++ buf ++ x.bytes.drop (x.pos + buf.length), x.pos + buf.length,
    x.write_le buf⟩

end Stream

/-- What a call returns when the files are sequences of bytes. -/
def streamCall (xs : List Stream) : Event → Answer × List Stream
  | .seek id step pos => xs[id]?.elim ((-ERR_WRONGARG, []), xs) fun x =>
      ((0, []), xs.set id (x.seek step pos))
  | .read id count => xs[id]?.elim ((-ERR_WRONGARG, []), xs) fun x =>
      let bytes := (x.bytes.drop x.pos).take count.toNat
      ((bytes.length, bytes), xs.set id (x.read count.toNat))
  | .write id buf _ => xs[id]?.elim ((-ERR_WRONGARG, []), xs) fun x =>
      ((buf.length, []), xs.set id (x.write buf))

/-! ## The files of the volume -/

structure State where
  store : Store
  files : List File

section Volume
variable (dev : Fat32Dev)

/-- `vfs_seek`, `vfs_read` and `vfs_write` on the file that the number names. -/
def call (s : State) : Event → Answer × State
  | .seek id step pos => s.files[id]?.elim ((-ERR_WRONGARG, []), s) fun f =>
      ((0, []), { s with files := s.files.set id (vfsSeek f step pos) })
  | .read id count => s.files[id]?.elim ((-ERR_WRONGARG, []), s) fun f =>
      let r := fat32Read dev s.store f count
      ((r.1.toInt, r.2.1), { s with files := s.files.set id r.2.2 })
  | .write id buf fresh => s.files[id]?.elim ((-ERR_WRONGARG, []), s) fun f =>
      let r := fat32Write dev s.store f buf fresh
      ((r.1.toInt, []), ⟨r.2.2, s.files.set id r.2.1⟩)

/-- The clusters that a file of this size needs and the free ones hold the bytes of the write. -/
def Room (n : ℕ) (d : Store) (f : File) (len : ℕ) : Prop :=
  f.pos.toNat + len ≤ (max 1 ((f.size.toNat + dev.bytPerClu.toNat - 1) / dev.bytPerClu.toNat) +
    (freeClusters dev d n).length) * dev.bytPerClu.toNat

/-- A write reaches no defect and has room; what is read can be counted. -/
def CallOk (n : ℕ) (s : State) : Event → Prop
  | .seek _ _ _ => True
  | .read id count => ∀ f ∈ s.files[id]?,
      min count.toNat (f.size.toNat - f.pos.toNat) < 2147483648
  | .write id buf _ => ∀ f ∈ s.files[id]?,
      buf = [] ∨ WriteOk dev f buf.length ∧ Room dev n s.store f buf.length

instance (n : ℕ) (d : Store) (f : File) (len : ℕ) : Decidable (Room dev n d f len) :=
  inferInstanceAs (Decidable (_ ≤ _))

instance (n : ℕ) (s : State) : (e : Event) → Decidable (CallOk dev n s e)
  | .seek _ _ _ => .isTrue trivial
  | .read id count => inferInstanceAs (Decidable (∀ f ∈ s.files[id]?,
      min count.toNat (f.size.toNat - f.pos.toNat) < 2147483648))
  | .write id buf _ => inferInstanceAs (Decidable (∀ f ∈ s.files[id]?,
      buf = [] ∨ WriteOk dev f buf.length ∧ Room dev n s.store f buf.length))

/-- The file has the bytes and the position of the sequence. -/
structure Holds (d : Store) (f : File) (x : Stream) : Prop where
  bytes_eq : wholeFile dev d f = x.bytes
  pos_eq : f.pos.toNat = x.pos

/-- The volume is in order, its files are the open ones, and they hold the sequences. -/
structure Refines (n : ℕ) (s : State) (xs : List Stream) : Prop where
  volume : ∃ vol, vol.map Prod.fst = s.files ∧ Volume dev n s.store vol ∧ ∀ p ∈ vol, p.2 ≠ []
  length_eq : xs.length = s.files.length
  holds : ∀ (i : ℕ) (f : File) (x : Stream), s.files[i]? = some f → xs[i]? = some x →
    Holds dev s.store f x

end Volume

/-! ## A call -/

variable {dev : Fat32Dev} {n : ℕ} {d : Store} {f : File} {s : State} {xs : List Stream}
  {x : Stream}

lemma wholeFile_congr {f' : File} (hdata : f'.data = f.data) (hsize : f'.size = f.size) :
    wholeFile dev d f' = wholeFile dev d f := by
  simp only [wholeFile, fat32Read, hdata, hsize]

lemma clip_data (f : File) : f.clip.data = f.data := by
  unfold File.clip
  split_ifs <;> rfl

lemma clip_size (f : File) : f.clip.size = f.size := by
  unfold File.clip
  split_ifs <;> rfl

lemma clip_pos (f : File) : f.clip.pos.toNat = min f.pos.toNat f.size.toNat := by
  unfold File.clip
  split_ifs with h
  · exact (min_eq_right (UInt32.lt_iff_toNat_lt.mp h).le).symm
  · exact (min_eq_left (UInt32.le_iff_toNat_le.mp (UInt32.not_lt.mp h))).symm

lemma seek_data (f : File) (step pos : UInt32) : (vfsSeek f step pos).data = f.data := by
  unfold vfsSeek
  split_ifs <;> simp only [clip_data]

lemma seek_size (f : File) (step pos : UInt32) : (vfsSeek f step pos).size = f.size := by
  unfold vfsSeek
  split_ifs <;> simp only [clip_size]

lemma toNat_add (a b : UInt32) : (a + b).toNat = (a.toNat + b.toNat) % addressSpace :=
  UInt32.toNat_add a b

/-- A seek goes to the position it asks for, but not behind the end. -/
lemma Holds.seek (h : Holds dev d f x) (hsize : f.size.toNat = x.bytes.length)
    (step pos : UInt32) : Holds dev d (vfsSeek f step pos) (x.seek step pos) where
  bytes_eq := (wholeFile_congr (seek_data f step pos) (seek_size f step pos)).trans h.bytes_eq
  pos_eq := by
    change _ = min (x.target step pos) x.bytes.length
    unfold vfsSeek Stream.target
    split_ifs
    · rw [clip_pos, toNat_add, h.pos_eq, hsize]
    · rw [clip_pos, hsize]
    · rw [clip_pos, toNat_add, hsize]
    · rw [h.pos_eq, min_eq_left x.pos_le]

lemma toInt_count {len : ℕ} (h : len < 2147483648) : (UInt32.ofNat len).toInt32.toInt = len :=
  (toInt_ofNat_iff (by rw [addressSpace]; omega)).mpr h

/-- A file that needs its clusters has them. -/
lemma Room.le {len : ℕ} (h : Room dev n d f len) {cs : List UInt32} (hne : cs ≠ [])
    (hcovered : f.size.toNat ≤ cs.length * dev.bytPerClu.toNat) (hB : 0 < dev.bytPerClu.toNat) :
    f.pos.toNat + len ≤ (cs.length + (freeClusters dev d n).length) * dev.bytPerClu.toNat := by
  apply h.trans
  apply Nat.mul_le_mul_right
  apply Nat.add_le_add_right
  apply max_le
  · exact List.length_pos_of_ne_nil hne
  · rw [← Nat.lt_succ_iff, Nat.div_lt_iff_lt_mul hB, Nat.succ_mul]
    omega

lemma written_pos {len : ℕ} (hfit : f.pos.toNat + len < addressSpace) :
    (f.written len).pos.toNat = f.pos.toNat + len := by
  have hlen : (UInt32.ofNat len).toNat = len :=
    UInt32.toNat_ofNat_of_lt' (by rw [UInt32.size]; rw [addressSpace] at hfit; omega)
  have hpos : (f.written len).pos = f.pos + UInt32.ofNat len := by
    simp only [File.written]
    split_ifs <;> rfl
  rw [hpos, toNat_add_of_lt (by rwa [hlen]), hlen]

/-- A file that a write has lengthened is dirty. -/
lemma written_dirty {len : ℕ} (h : (f.written len).dirty = false) :
    f.dirty = false ∧ (f.written len).size = f.size := by
  simp only [File.written] at h ⊢
  split_ifs at h ⊢ with hlong
  exact ⟨h, rfl⟩

namespace Holds
variable {cs : List UInt32} {others : List (File × List UInt32)}

lemma size_eq (h : Holds dev d f x) (hv : Volume dev n d ((f, cs) :: others)) :
    f.size.toNat = x.bytes.length := by
  rw [← h.bytes_eq]
  exact (hv.length_wholeFile List.mem_cons_self).symm

lemma pos_le (h : Holds dev d f x) (hv : Volume dev n d ((f, cs) :: others)) :
    f.pos.toNat ≤ f.size.toNat := by
  rw [h.pos_eq, h.size_eq hv]
  exact x.pos_le

/-- A read returns the bytes behind the position and moves it behind them. -/
lemma read (h : Holds dev d f x) (hv : Volume dev n d ((f, cs) :: others)) (hne : cs ≠ [])
    (count : UInt32) (hcount : min count.toNat (f.size.toNat - f.pos.toNat) < 2147483648) :
    ∃ pos, fat32Read dev d f count =
        ((UInt32.ofNat ((x.bytes.drop x.pos).take count.toNat).length).toInt32,
          (x.bytes.drop x.pos).take count.toNat, { f with pos := pos }) ∧
      ((x.bytes.drop x.pos).take count.toNat).length < 2147483648 ∧
      Holds dev d { f with pos := pos } (x.read count.toNat) := by
  obtain ⟨out, hout, hread⟩ := hv.read_spec hne (h.pos_le hv) count
  rw [h.bytes_eq, h.pos_eq] at hout
  have hlen : out.length = min count.toNat (f.size.toNat - f.pos.toNat) := by
    rw [hout, List.length_take, List.length_drop, h.size_eq hv, h.pos_eq]
  rw [← hout]
  refine ⟨_, hread, hlen ▸ hcount, ⟨h.bytes_eq, ?_⟩⟩
  have hfit := f.size.toNat_lt
  have hpos := h.pos_le hv
  have hofNat : (UInt32.ofNat out.length).toNat = out.length :=
    UInt32.toNat_ofNat_of_lt' (by rw [UInt32.size]; omega)
  change (f.pos + UInt32.ofNat out.length).toNat = min (x.pos + count.toNat) x.bytes.length
  rw [toNat_add_of_lt (by rw [hofNat, addressSpace]; omega), hofNat, hlen, ← h.pos_eq,
    ← h.size_eq hv]
  omega

/-- A write puts its bytes at the position and moves it behind them; it keeps the other files. -/
lemma write (h : Holds dev d f x) (hv : Volume dev n d ((f, cs) :: others)) (hne : cs ≠ [])
    {buf : List UInt8} (hok : buf = [] ∨ WriteOk dev f buf.length ∧ Room dev n d f buf.length)
    (fresh : UInt32 → ℕ → UInt8) :
    ∃ f' d' ys, fat32Write dev d f buf fresh = ((UInt32.ofNat buf.length).toInt32, f', d') ∧
      buf.length < 2147483648 ∧ ys ≠ [] ∧ Volume dev n d' ((f', ys) :: others) ∧
      Holds dev d' f' (x.write buf) ∧ f'.data = f.data ∧
      (f'.dirty = false → f.dirty = false ∧ f'.size = f.size) ∧
      (∀ p ∈ others, wholeFile dev d' p.1 = wholeFile dev d p.1) ∧
      ∀ p ∈ others, contents dev d' p.2 = contents dev d p.2 := by
  rcases hok with rfl | ⟨hwrite, hroom⟩
  · have hnone : fat32Write dev d f [] fresh = (0, f, d) := by
      simp only [fat32Write, writeLoop_nil, if_true]
    have hsame : x.write [] = x := by
      ext1
      · change x.bytes.take x.pos ++ [] ++ x.bytes.drop x.pos = x.bytes
        rw [List.append_nil, List.take_append_drop]
      · rfl
    refine ⟨f, d, cs, hnone, by decide, hne, hv, ?_, rfl, fun hd => ⟨hd, rfl⟩, fun _ _ => rfl,
      fun _ _ => rfl⟩
    rwa [hsame]
  · obtain ⟨ys, d', hys, hcall, hv', hbytes, hothers, hclusters⟩ := hv.write_ok hne (h.pos_le hv)
      hwrite (hroom.le hne (hv.covered (f, cs) List.mem_cons_self) hv.bytPerClu_pos) fresh
    refine ⟨_, d', ys, hcall, hwrite.2.2.2, hys, hv', ⟨?_, ?_⟩, written_data f _, written_dirty,
      hothers, hclusters⟩
    · rw [hbytes, h.bytes_eq, h.pos_eq]
      rfl
    · rw [written_pos hwrite.2.2.1, h.pos_eq]
      rfl

end Holds

/-- The open file of a number: the volume with it in front, the sequence that it holds, and what
makes of a change of the file a change of the sequence. -/
structure Opened (dev : Fat32Dev) (n : ℕ) (s : State) (xs : List Stream) (id : ℕ) (f : File)
    (x : Stream) (cs : List UInt32) (others : List (File × List UInt32)) : Prop where
  file : s.files[id]? = some f
  stream : xs[id]? = some x
  ne_nil : cs ≠ []
  volume : Volume dev n s.store ((f, cs) :: others)
  holds : Holds dev s.store f x
  change : ∀ f' d' cs' x', cs' ≠ [] → Volume dev n d' ((f', cs') :: others) → Holds dev d' f' x' →
    (∀ p ∈ others, wholeFile dev d' p.1 = wholeFile dev s.store p.1) →
    Refines dev n ⟨d', s.files.set id f'⟩ (xs.set id x')

/-- A number names no file and no sequence, or an open file. -/
lemma Refines.lookup (h : Refines dev n s xs) (id : ℕ) :
    (s.files[id]? = none ∧ xs[id]? = none) ∨ ∃ f x cs others, Opened dev n s xs id f x cs others := by
  obtain ⟨vol, hfiles, hv, hne⟩ := h.volume
  rcases Nat.lt_or_ge id vol.length with hlt | hge
  · right
    have hlen : id < xs.length := by
      rw [h.length_eq, ← hfiles, List.length_map]
      exact hlt
    have hfile : s.files[id]? = some vol[id].1 := by
      rw [← hfiles, List.getElem?_map, List.getElem?_eq_getElem hlt, Option.map_some]
    have hstream := List.getElem?_eq_getElem hlen
    have hperm := (List.getElem_cons_eraseIdx_perm hlt).symm
    refine ⟨vol[id].1, xs[id], vol[id].2, vol.eraseIdx id, hfile, hstream,
      hne _ (List.getElem_mem hlt), hv.perm hperm, h.holds id _ _ hfile hstream,
      fun f' d' cs' x' hcs' hv' hx' hothers => ⟨⟨vol.set id (f', cs'), ?_, ?_, ?_⟩, ?_, ?_⟩⟩
    · rw [List.map_set, hfiles]
    · exact hv'.perm (List.set_perm_cons_eraseIdx hlt _).symm
    · intro p hp'
      rcases List.mem_or_eq_of_mem_set hp' with hmem | rfl
      · exact hne p hmem
      · exact hcs'
    · simp only [List.length_set, h.length_eq]
    · intro i g y hg hy
      rw [List.getElem?_set] at hg hy
      by_cases hi : id = i
      · rw [if_pos hi] at hg hy
        split_ifs at hg hy
        obtain rfl := Option.some.inj hg
        obtain rfl := Option.some.inj hy
        exact hx'
      · rw [if_neg hi] at hg hy
        have hold := h.holds i g y hg hy
        rw [← hfiles, List.getElem?_map, Option.map_eq_some_iff] at hg
        obtain ⟨q, hq, rfl⟩ := hg
        have hmem : q ∈ vol.eraseIdx id :=
          List.mem_eraseIdx_iff_getElem?.mpr ⟨i, fun he => hi he.symm, hq⟩
        exact ⟨(hothers q hmem).trans hold.bytes_eq, hold.pos_eq⟩
  · left
    rw [List.getElem?_eq_none_iff, List.getElem?_eq_none_iff, h.length_eq, ← hfiles,
      List.length_map]
    exact ⟨hge, hge⟩

namespace Opened
variable {id : ℕ} {cs : List UInt32} {others : List (File × List UInt32)}

lemma seek (h : Opened dev n s xs id f x cs others) (step pos : UInt32) :
    Refines dev n { s with files := s.files.set id (vfsSeek f step pos) }
      (xs.set id (x.seek step pos)) :=
  h.change _ _ cs _ h.ne_nil (h.volume.same (seek_data f step pos) (seek_size f step pos))
    (h.holds.seek (h.holds.size_eq h.volume) step pos) fun _ _ => rfl

lemma read (h : Opened dev n s xs id f x cs others) (count : UInt32)
    (hcount : min count.toNat (f.size.toNat - f.pos.toNat) < 2147483648) :
    ∃ f', fat32Read dev s.store f count =
        ((UInt32.ofNat ((x.bytes.drop x.pos).take count.toNat).length).toInt32,
          (x.bytes.drop x.pos).take count.toNat, f') ∧
      ((x.bytes.drop x.pos).take count.toNat).length < 2147483648 ∧
      Refines dev n { s with files := s.files.set id f' } (xs.set id (x.read count.toNat)) := by
  obtain ⟨pos, hread, hsmall, hholds⟩ := h.holds.read h.volume h.ne_nil count hcount
  exact ⟨_, hread, hsmall, h.change _ _ cs _ h.ne_nil (h.volume.same rfl rfl) hholds fun _ _ => rfl⟩

lemma write (h : Opened dev n s xs id f x cs others) {buf : List UInt8}
    (hok : buf = [] ∨ WriteOk dev f buf.length ∧ Room dev n s.store f buf.length)
    (fresh : UInt32 → ℕ → UInt8) :
    ∃ f' d', fat32Write dev s.store f buf fresh = ((UInt32.ofNat buf.length).toInt32, f', d') ∧
      buf.length < 2147483648 ∧
      Refines dev n ⟨d', s.files.set id f'⟩ (xs.set id (x.write buf)) := by
  obtain ⟨f', d', ys, hcall, hsmall, hys, hv, hholds, -, -, hothers, -⟩ :=
    h.holds.write h.volume h.ne_nil hok fresh
  exact ⟨f', d', hcall, hsmall, h.change _ _ ys _ hys hv hholds hothers⟩

end Opened

/-- Every call answers as a sequence of bytes does. -/
lemma call_refines (h : Refines dev n s xs) (e : Event) (hok : CallOk dev n s e) :
    (call dev s e).1 = (streamCall xs e).1 ∧
      Refines dev n (call dev s e).2 (streamCall xs e).2 := by
  cases e with
  | seek id step pos =>
    rcases h.lookup id with ⟨hf, hx⟩ | ⟨f, x, cs, others, hopen⟩
    · simpa only [call, streamCall, hf, hx, Option.elim_none, true_and] using h
    · simpa only [call, streamCall, hopen.file, hopen.stream, Option.elim_some, true_and] using
        hopen.seek step pos
  | read id count =>
    rcases h.lookup id with ⟨hf, hx⟩ | ⟨f, x, cs, others, hopen⟩
    · simpa only [call, streamCall, hf, hx, Option.elim_none, true_and] using h
    · obtain ⟨f', hread, hsmall, hnext⟩ := hopen.read count (hok f hopen.file)
      simpa only [call, streamCall, hopen.file, hopen.stream, Option.elim_some, hread,
        toInt_count hsmall, true_and] using hnext
  | write id buf fresh =>
    rcases h.lookup id with ⟨hf, hx⟩ | ⟨f, x, cs, others, hopen⟩
    · simpa only [call, streamCall, hf, hx, Option.elim_none, true_and] using h
    · obtain ⟨f', d', hwrite, hsmall, hnext⟩ := hopen.write (hok f hopen.file) fresh
      simpa only [call, streamCall, hopen.file, hopen.stream, Option.elim_some, hwrite,
        toInt_count hsmall, true_and] using hnext

/-! ## Runs -/

/-- The open files of a volume, each at its start. -/
def opened (d : Store) (vol : List (File × List UInt32)) : State :=
  ⟨d, vol.map fun p => { p.1 with pos := 0 }⟩

/-- The sequences that the files of a volume hold. -/
def streams (dev : Fat32Dev) (d : Store) (vol : List (File × List UInt32)) : List Stream :=
  vol.map fun p => ⟨wholeFile dev d p.1, 0, Nat.zero_le _⟩

lemma opened_refines {vol : List (File × List UInt32)} (hv : Volume dev n d vol)
    (hne : ∀ p ∈ vol, p.2 ≠ []) : Refines dev n (opened d vol) (streams dev d vol) where
  volume := by
    refine ⟨vol.map fun p => ({ p.1 with pos := 0 }, p.2), ?_, ⟨hv.proper, hv.reserved, ?_, ?_, ?_,
      ?_⟩, ?_⟩
    · rw [List.map_map]
      rfl
    · intro p hp
      obtain ⟨q, hq, rfl⟩ := List.mem_map.mp hp
      exact hv.chain q hq
    · intro p hp
      obtain ⟨q, hq, rfl⟩ := List.mem_map.mp hp
      exact hv.clusters q hq
    · rw [List.flatMap_map]
      exact hv.nodup
    · intro p hp
      obtain ⟨q, hq, rfl⟩ := List.mem_map.mp hp
      exact hv.covered q hq
    · intro p hp
      obtain ⟨q, hq, rfl⟩ := List.mem_map.mp hp
      exact hne q hq
  length_eq := by simp only [streams, opened, List.length_map]
  holds i f x hf hx := by
    simp only [opened, streams, List.getElem?_map, Option.map_eq_some_iff] at hf hx
    obtain ⟨p, hp, rfl⟩ := hf
    obtain ⟨q, hq, rfl⟩ := hx
    obtain rfl : p = q := Option.some.inj (hp.symm.trans hq)
    exact ⟨rfl, rfl⟩

/-- The calls of a run answer as sequences of bytes do, and in the end the files hold what the
sequences are then. -/
theorem calls_refine {vol : List (File × List UInt32)} (hv : Volume dev n d vol)
    (hne : ∀ p ∈ vol, p.2 ≠ []) (es : List Event)
    (hok : Guarded (next (call dev)) (CallOk dev n) (opened d vol) es) :
    outputs (call dev) (opened d vol) es = outputs streamCall (streams dev d vol) es ∧
      Refines dev n (run (next (call dev)) (opened d vol) es)
        (run (next streamCall) (streams dev d vol) es) :=
  hok.simulation (Refines dev n) (fun _ _ e h ho => call_refines h e ho) (opened_refines hv hne)

/-- Two files are open: the first is lengthened and read from its second byte on, the other is read
as it was. -/
def twoFiles : List Event :=
  [.write 0 [7, 8, 9, 10] fun _ _ => 0xcc, .seek 1 2 SEEK_SET, .seek 0 1 SEEK_SET, .read 0 100,
    .read 1 2, .read 2 1]

theorem calls_refine_twoFiles :
    outputs (call smallDev)
        (opened smallStore [(⟨2, 3, 1, false⟩, [2]), (⟨3, 5, 0, false⟩, [3])]) twoFiles =
      outputs streamCall (streams smallDev smallStore
        [(⟨2, 3, 1, false⟩, [2]), (⟨3, 5, 0, false⟩, [3])]) twoFiles :=
  (calls_refine (small_volume 1 (by decide +kernel)) (by simp) twoFiles (by decide +kernel)).1

end FileStore

end Sgos.Fat32
