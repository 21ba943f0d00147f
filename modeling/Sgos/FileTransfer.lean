import Sgos.ByteStore
import Mathlib.Logic.Function.Basic

/-!
# Reading and writing files through one page

`FsReadFile` and `FsWriteFile` of `api/file.c` and the answers of `vfs_service` in
`apps/fs/vfs.cpp`. The caller's buffer, the page of the open file and the pages of the service are
separate stores, each with addresses from 0. Every request is answered and every swap of pages
succeeds: it exchanges the bytes of the two runs of pages.
-/
namespace Sgos.FileTransfer
open ByteStore

def PAGE_SIZE : ℕ := 4096
def BUFFER_PAGES_SIZE : ℕ := PAGE_SIZE * 16
def FILE_FLAG_NOBUF : UInt32 := 8
def ERR_WRONGARG : ℤ := 3
def ERR_NOIMP : ℤ := 2

/-- A file, open at a position inside of it. -/
structure File where
  content : Store
  size : ℕ
  pos : ℕ
  pos_le : pos ≤ size

namespace File

/-- How many bytes a read of `count` bytes gets. -/
def available (f : File) (count : ℕ) : ℕ := min count (f.size - f.pos)

/-- The file behind a read. -/
def skip (f : File) (count : ℕ) : File :=
  { f with
    pos := f.pos + f.available count
    pos_le := by have := f.pos_le; simp only [available]; omega }

/-- The file behind a write. -/
def store (f : File) (bs : List UInt8) : File where
  content := writeBytes f.content f.pos bs
  size := max f.size (f.pos + bs.length)
  pos := f.pos + bs.length
  pos_le := le_max_right _ _

end File

/-- `fs->read` and `fs->write` with their buffer at the start of a store. A read may leave anything
behind the bytes it returns. -/
structure FileSystem where
  read : File → ℕ → Store → ℤ × File × Store
  write : File → ℕ → Store → ℤ × File
  read_ret : ∀ f count m, (read f count m).1 = f.available count
  read_file : ∀ f count m, (read f count m).2.1 = f.skip count
  read_bytes : ∀ f count m, readBytes (read f count m).2.2 0 (f.available count) =
    readBytes f.content f.pos (f.available count)
  write_eq : ∀ f count m, write f count m = ((count : ℤ), f.store (readBytes m 0 count))

/-- `FsOpenFile` gives an open file one page of buffer and no other buffering. -/
structure FILEBUF where
  fd : UInt32
  bufsize : ℕ
  curpos : ℤ
  flag : UInt32
  bufsize_eq : bufsize = PAGE_SIZE
  nobuf : flag &&& FILE_FLAG_NOBUF ≠ 0

/-- The end of `FsOpenFile`, with the number of the file from the answer. -/
def fsOpenFile (fd flag : UInt32) : FILEBUF where
  fd := fd
  bufsize := PAGE_SIZE
  curpos := 0
  flag := flag ||| FILE_FLAG_NOBUF
  bufsize_eq := rfl
  nobuf h := by
    have hbit := congrArg (fun x : UInt32 => x.toBitVec.getLsbD 3) h
    simp [FILE_FLAG_NOBUF] at hbit

/-! ## The service -/

inductive Command
  | read | write
  deriving DecidableEq

/-- `Arguments[0]` to `Arguments[2]` and the code; `Large[0]` is the page of the open file. -/
structure Message where
  command : Command
  fd : UInt32
  count : ℕ
  bufsize : ℕ
  code : ℤ

/-- The page of the open file, the pages of the service and its open files. -/
structure System where
  page : Store
  pages : Store
  files : UInt32 → Option File

/-- `SysSwapMemory` with `MAP_ADDRESS`. -/
def sysSwapMemory (s : System) (siz : ℕ) : System :=
  { s with
    page := writeBytes s.page 0 (readBytes s.pages 0 siz)
    pages := writeBytes s.pages 0 (readBytes s.page 0 siz) }

variable (fs : FileSystem)

def vfsRead (s : System) (id : UInt32) (count : ℕ) : ℤ × System :=
  match s.files id with
  | none => (-ERR_WRONGARG, s)
  | some f =>
      match fs.read f count s.pages with
      | (ret, f, pages) => (ret, { s with pages, files := Function.update s.files id (some f) })

def vfsWrite (s : System) (id : UInt32) (count : ℕ) : ℤ × System :=
  match s.files id with
  | none => (-ERR_WRONGARG, s)
  | some f =>
      match fs.write f count s.pages with
      | (ret, f) => (ret, { s with files := Function.update s.files id (some f) })

/-- Whole pages of the buffer of the caller, as many as the service has. -/
def bufferSize (bufsize : ℕ) : ℕ :=
  let siz := if bufsize > BUFFER_PAGES_SIZE then BUFFER_PAGES_SIZE else bufsize
  if siz % PAGE_SIZE ≠ 0 then siz - siz % PAGE_SIZE else siz

/-- The cases `File_Read` and `File_Write` of `vfs_service`. -/
def vfsService (s : System) (msg : Message) : Message × System :=
  let siz := bufferSize msg.bufsize
  let msg := if msg.count > siz then { msg with count := siz } else msg
  match msg.command with
  | .read =>
      let (code, s) := vfsRead fs s msg.fd msg.count
      ({ msg with code }, if code > 0 then sysSwapMemory s siz else s)
  | .write =>
      let (code, s) := vfsWrite fs (sysSwapMemory s siz) msg.fd msg.count
      ({ msg with code }, s)

/-! ## The client -/

def readWriteBuffer (fb : FILEBUF) (count : ℕ) (cmd : Command) (s : System) : ℤ × System :=
  let (msg, s) := vfsService fs s ⟨cmd, fb.fd, count, fb.bufsize, 0⟩
  (msg.code, s)

/-- `buf` is where the caller's buffer goes on. -/
def readLoop (count bytesRead : ℤ) (fb : FILEBUF) (buf : ℕ) (mem : Store) (s : System) :
    ℤ × FILEBUF × Store × System :=
  if bytesRead < count then
    let read := if count - bytesRead > PAGE_SIZE then (PAGE_SIZE : ℤ) else count - bytesRead
    match readWriteBuffer fs fb read.toNat .read s with
    | (ret, s) =>
        if ret ≤ 0 then (bytesRead, fb, mem, s)
        else
          readLoop count (bytesRead + ret) { fb with curpos := fb.curpos + ret }
            (buf + ret.toNat) (writeBytes mem buf (readBytes s.page 0 ret.toNat)) s
  else (bytesRead, fb, mem, s)
termination_by (count - bytesRead).toNat

/-- What it returns, the open file, the caller's buffer and the system. -/
def fsReadFile (fb : FILEBUF) (mem : Store) (count : ℤ) (s : System) :
    ℤ × FILEBUF × Store × System :=
  if fb.flag &&& FILE_FLAG_NOBUF ≠ 0 then readLoop fs count 0 fb 0 mem s
  else (-ERR_NOIMP, fb, mem, s)

def writeLoop (count bytesWritten : ℤ) (fb : FILEBUF) (buf : ℕ) (mem : Store) (s : System) :
    ℤ × FILEBUF × System :=
  if bytesWritten < count then
    let write := if count - bytesWritten > PAGE_SIZE then (PAGE_SIZE : ℤ) else count - bytesWritten
    let s := { s with page := writeBytes s.page 0 (readBytes mem buf write.toNat) }
    match readWriteBuffer fs fb write.toNat .write s with
    | (ret, s) =>
        if ret ≤ 0 then (bytesWritten, fb, s)
        else
          writeLoop count (bytesWritten + ret) { fb with curpos := fb.curpos + ret }
            (buf + ret.toNat) mem s
  else (bytesWritten, fb, s)
termination_by (count - bytesWritten).toNat

def fsWriteFile (fb : FILEBUF) (mem : Store) (count : ℤ) (s : System) : ℤ × FILEBUF × System :=
  if fb.flag &&& FILE_FLAG_NOBUF ≠ 0 then writeLoop fs count 0 fb 0 mem s
  else (-ERR_NOIMP, fb, s)

/-! ## One request -/

variable {fb : FILEBUF} {f : File} {s : System} {mem : Store}

lemma bufferSize_page (fb : FILEBUF) : bufferSize fb.bufsize = PAGE_SIZE := by
  rw [fb.bufsize_eq]
  rfl

lemma sysSwapMemory_page (s : System) (siz : ℕ) :
    (sysSwapMemory s siz).page = writeBytes s.page 0 (readBytes s.pages 0 siz) := rfl

lemma sysSwapMemory_pages (s : System) (siz : ℕ) :
    (sysSwapMemory s siz).pages = writeBytes s.pages 0 (readBytes s.page 0 siz) := rfl

lemma available_le (f : File) (count : ℕ) : f.available count ≤ count := min_le_left _ _

/-- A read of at most a page brings its bytes to the start of the page. -/
lemma readWriteBuffer_read {count : ℕ} (hf : s.files fb.fd = some f) (hcount : count ≤ PAGE_SIZE) :
    ∃ s', readWriteBuffer fs fb count .read s = ((f.available count : ℤ), s') ∧
      s'.files = Function.update s.files fb.fd (some (f.skip count)) ∧
      readBytes s'.page 0 (f.available count) =
        readBytes f.content f.pos (f.available count) := by
  have hret := fs.read_ret f count s.pages
  have hfile := fs.read_file f count s.pages
  have hbytes := fs.read_bytes f count s.pages
  rcases hread : fs.read f count s.pages with ⟨ret, f', pages⟩
  rw [hread] at hret hfile hbytes
  dsimp only at hret hfile hbytes
  subst hret hfile
  simp only [readWriteBuffer, vfsService, bufferSize_page, gt_iff_lt, Nat.not_lt.mpr hcount,
    if_false, vfsRead, hf, hread]
  refine ⟨_, rfl, ?_, ?_⟩
  · split_ifs <;> rfl
  · have hle := Nat.le_trans (available_le f count) hcount
    split_ifs with hpos
    · rw [← hbytes, sysSwapMemory_page, readBytes_writeBytes_prefix _ _ _ _ hle]
    · have hzero : f.available count = 0 := by omega
      rw [hzero]
      rfl

/-- A write of at most a page stores the first bytes of the page. -/
lemma readWriteBuffer_write {count : ℕ} (hf : s.files fb.fd = some f)
    (hcount : count ≤ PAGE_SIZE) :
    ∃ s', readWriteBuffer fs fb count .write s = ((count : ℤ), s') ∧
      s'.files = Function.update s.files fb.fd (some (f.store (readBytes s.page 0 count))) := by
  have hbytes : readBytes (sysSwapMemory s PAGE_SIZE).pages 0 count =
      readBytes s.page 0 count := by
    rw [sysSwapMemory_pages, readBytes_writeBytes_prefix _ _ _ _ hcount]
  have hfiles : (sysSwapMemory s PAGE_SIZE).files fb.fd = some f := hf
  have hwrite := fs.write_eq f count (sysSwapMemory s PAGE_SIZE).pages
  rw [hbytes] at hwrite
  simp only [readWriteBuffer, vfsService, bufferSize_page, gt_iff_lt, Nat.not_lt.mpr hcount,
    if_false, vfsWrite, hfiles, hwrite]
  exact ⟨_, rfl, rfl⟩

/-! ## Several requests -/

/-- A read of `count` bytes is one of the first `k` and one of the rest. -/
lemma available_add (f : File) {k count : ℕ} (hk : k ≤ count) :
    f.available count = f.available k + (f.skip k).available (count - f.available k) := by
  simp only [File.available, File.skip]
  omega

lemma skip_skip (f : File) {k count : ℕ} (hk : k ≤ count) :
    (f.skip k).skip (count - f.available k) = f.skip count := by
  have hsum := available_add f hk
  simp only [File.skip, File.mk.injEq, true_and]
  change f.pos + f.available k + (f.skip k).available (count - f.available k) = _
  omega

lemma store_store (f : File) (xs ys : List UInt8) : (f.store xs).store ys = f.store (xs ++ ys) := by
  simp only [File.store, writeBytes_append, List.length_append, File.mk.injEq, true_and]
  omega

lemma store_nil (f : File) : f.store [] = f := by
  have hle := f.pos_le
  cases f
  simp only [File.store, writeBytes_nil, List.length_nil, Nat.add_zero, File.mk.injEq, true_and,
    and_true]
  exact max_eq_left hle

lemma skip_of_available {count : ℕ} (h : f.available count = 0) : f.skip count = f := by
  cases f
  simp only [File.skip, h]
  rfl

/-- The number of bytes of one request. -/
lemma request_eq {count done : ℕ} (h : (done : ℤ) < count) :
    (if (count : ℤ) - done > PAGE_SIZE then (PAGE_SIZE : ℤ) else (count : ℤ) - done) =
      (min PAGE_SIZE (count - done) : ℕ) := by
  have hle : done ≤ count := by omega
  split_ifs <;> omega

/-- The loop from any point on reads what is left, by induction on the bytes still asked for. -/
lemma readLoop_eq (count left done : ℕ) (hleft : left = count - done) (hdone : done ≤ count)
    (fb : FILEBUF) (buf : ℕ) (mem : Store) (s : System) (f : File)
    (hf : s.files fb.fd = some f) :
    ∃ fb' s', readLoop fs count done fb buf mem s = (((done + f.available left : ℕ) : ℤ), fb',
        writeBytes mem buf (readBytes f.content f.pos (f.available left)), s') ∧
      s'.files = Function.update s.files fb.fd (some (f.skip left)) := by
  induction left using Nat.strong_induction_on generalizing done fb buf mem s f with
  | h left ih =>
    rw [readLoop]
    by_cases hlt : (done : ℤ) < count
    · obtain ⟨s1, hrequest, hfiles, hbytes⟩ := readWriteBuffer_read fs hf
        (min_le_left PAGE_SIZE (count - done))
      rw [if_pos hlt]
      simp only [request_eq hlt, Int.toNat_natCast, ← hleft] at hrequest hfiles hbytes ⊢
      generalize hk : min PAGE_SIZE left = k at *
      have hkle : k ≤ left := by omega
      have hkpos : 0 < k := by
        have hpage : 0 < PAGE_SIZE := by decide
        omega
      rw [hrequest]
      dsimp only
      by_cases hzero : f.available k = 0
      · -- the end of the file
        have hall : f.available left = 0 := by
          simp only [File.available] at hzero ⊢
          omega
        rw [if_pos (by omega)]
        refine ⟨fb, s1, ?_, ?_⟩
        · simp [hall, readBytes]
        · rw [hfiles, skip_of_available hall, skip_of_available hzero]
      · rw [if_neg (by omega)]
        have hle := available_le f k
        obtain ⟨fb', s', hloop, hfiles'⟩ := ih (left - f.available k) (by omega)
          (done + f.available k) (by omega) (by omega)
          { fb with curpos := fb.curpos + f.available k } (buf + f.available k)
          (writeBytes mem buf (readBytes s1.page 0 (f.available k))) s1 (f.skip k)
          (by rw [hfiles, Function.update_self])
        refine ⟨fb', s', ?_, ?_⟩
        · push_cast at hloop ⊢
          rw [Int.toNat_natCast, hloop, hbytes, available_add f hkle]
          have hjoin := writeBytes_append mem buf (readBytes f.content f.pos (f.available k))
            (readBytes f.content (f.pos + f.available k)
              ((f.skip k).available (left - f.available k)))
          rw [length_readBytes, readBytes_append] at hjoin
          refine Prod.ext ?_ (Prod.ext rfl (Prod.ext hjoin rfl))
          push_cast
          omega
        · rw [hfiles', hfiles, Function.update_idem, skip_skip f hkle]
    · have hzero : left = 0 := by omega
      subst hzero
      rw [if_neg hlt]
      have hnone : f.available 0 = 0 := Nat.zero_min _
      refine ⟨fb, s, ?_, ?_⟩
      · simp [hnone, readBytes]
      · rw [skip_of_available hnone, ← hf, Function.update_eq_self]

/-- The loop from any point on writes what is left. -/
lemma writeLoop_eq (count left done : ℕ) (hleft : left = count - done) (hdone : done ≤ count)
    (fb : FILEBUF) (buf : ℕ) (mem : Store) (s : System) (f : File)
    (hf : s.files fb.fd = some f) :
    ∃ fb' s', writeLoop fs count done fb buf mem s = ((count : ℤ), fb', s') ∧
      s'.files = Function.update s.files fb.fd (some (f.store (readBytes mem buf left))) := by
  induction left using Nat.strong_induction_on generalizing done fb buf s f with
  | h left ih =>
    rw [writeLoop]
    by_cases hlt : (done : ℤ) < count
    · rw [if_pos hlt]
      simp only [request_eq hlt, Int.toNat_natCast, ← hleft]
      generalize hk : min PAGE_SIZE left = k
      generalize hpage : writeBytes s.page 0 (readBytes mem buf k) = page
      obtain ⟨s1, hrequest, hfiles⟩ := readWriteBuffer_write fs
        (s := { s with page }) hf (show k ≤ PAGE_SIZE by omega)
      have hbytes : readBytes page 0 k = readBytes mem buf k := by
        rw [← hpage, readBytes_writeBytes_prefix _ _ _ _ le_rfl]
      dsimp only at hfiles
      rw [hbytes] at hfiles
      have hkle : k ≤ left := by omega
      have hkpos : 0 < k := by
        have hpage : 0 < PAGE_SIZE := by decide
        omega
      rw [hrequest]
      dsimp only
      rw [if_neg (by omega)]
      obtain ⟨fb', s', hloop, hfiles'⟩ := ih (left - k) (by omega) (done + k) (by omega) (by omega)
        { fb with curpos := fb.curpos + k } (buf + k) s1 (f.store (readBytes mem buf k))
        (by rw [hfiles, Function.update_self])
      refine ⟨fb', s', ?_, ?_⟩
      · push_cast at hloop
        rw [Int.toNat_natCast, hloop]
      · rw [hfiles', hfiles, Function.update_idem, store_store, readBytes_append,
          Nat.add_sub_of_le hkle]
    · have hzero : left = 0 := by omega
      subst hzero
      rw [if_neg hlt]
      refine ⟨fb, s, ?_, ?_⟩
      · rw [show done = count by omega]
      · rw [show readBytes mem buf 0 = [] from rfl, store_nil, ← hf, Function.update_eq_self]

/-- For an open file, `FsReadFile` fills the buffer with what the file has from its position on, and
`FsWriteFile` stores the buffer there. Neither depends on what the pages held before. -/
theorem transfer (fs : FileSystem) (fb : FILEBUF) (mem : Store) (count : ℕ) (s : System) (f : File)
    (hf : s.files fb.fd = some f) :
    (∃ fb' s', fsReadFile fs fb mem count s = (((min count (f.size - f.pos) : ℕ) : ℤ), fb',
        writeBytes mem 0 (readBytes f.content f.pos (min count (f.size - f.pos))), s') ∧
      s'.files = Function.update s.files fb.fd (some (f.skip count))) ∧
    ∃ fb' s', fsWriteFile fs fb mem count s = ((count : ℤ), fb', s') ∧
      s'.files = Function.update s.files fb.fd (some (f.store (readBytes mem 0 count))) := by
  simp only [fsReadFile, fsWriteFile, if_pos fb.nobuf]
  obtain ⟨fb1, s1, hread, hfiles⟩ := readLoop_eq fs count count 0 rfl (Nat.zero_le _) fb 0
    mem s f hf
  obtain ⟨fb2, s2, hwrite, hfiles'⟩ := writeLoop_eq fs count count 0 rfl (Nat.zero_le _) fb
    0 mem s f hf
  rw [Nat.zero_add] at hread
  exact ⟨⟨fb1, s1, hread, hfiles⟩, fb2, s2, hwrite, hfiles'⟩

/-- A file system that leaves the rest of the buffer alone. -/
def plainFs : FileSystem where
  read f count m := (f.available count, f.skip count,
    writeBytes m 0 (readBytes f.content f.pos (f.available count)))
  write f count m := (count, f.store (readBytes m 0 count))
  read_ret _ _ _ := rfl
  read_file _ _ _ := rfl
  read_bytes f count m := readBytes_writeBytes_prefix m f.content 0 f.pos le_rfl
  write_eq _ _ _ := rfl

/-- A file of 10000 bytes at position 100. -/
def openedFile : File where
  content n := UInt8.ofNat n
  size := 10000
  pos := 100
  pos_le := by decide

/-- A system with this file open. -/
def opened : System where
  page _ := 1
  pages _ := 2
  files fd := if fd = 7 then some openedFile else none

theorem transfer_opened :
    (∃ fb' s', fsReadFile plainFs (fsOpenFile 7 0) (fun _ => 0) (20000 : ℕ) opened =
        (((min 20000 (openedFile.size - openedFile.pos) : ℕ) : ℤ), fb', writeBytes (fun _ => 0) 0
          (readBytes openedFile.content openedFile.pos
            (min 20000 (openedFile.size - openedFile.pos))), s') ∧
      s'.files = Function.update opened.files 7 (some (openedFile.skip 20000))) ∧
    ∃ fb' s', fsWriteFile plainFs (fsOpenFile 7 0) (fun _ => 0) (20000 : ℕ) opened =
        (((20000 : ℕ) : ℤ), fb', s') ∧
      s'.files = Function.update opened.files 7
        (some (openedFile.store (readBytes (fun _ => 0) 0 20000))) :=
  transfer plainFs (fsOpenFile 7 0) (fun _ => 0) 20000 opened openedFile rfl

end Sgos.FileTransfer
