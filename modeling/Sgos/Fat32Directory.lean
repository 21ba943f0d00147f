import Sgos.CString
import Sgos.Fat32Size

/-!
# Directories of a FAT32 volume

The entries of a directory: `fat32_enum_ent` and the enumerators that look a name up, remove an entry
and save one, and `fat32_create_ent`. A long name is spread over entries in front of the one it
belongs to. `none` is a call that does not end, or that gets out of an array.
-/
namespace Sgos.Fat32
open ByteBuffer ByteStore

def FILE_NAME_LEN : ℕ := 128
def MAX_LNAME_ENTRIS : ℕ := FILE_NAME_LEN / 26

def FILE_ATTR_RDONLY : UInt32 := 1
def FILE_ATTR_DIR : UInt32 := 2
def FILE_ATTR_SYSTEM : UInt32 := 4
def FILE_ATTR_HIDDEN : UInt32 := 8

def RDONLY : UInt8 := 1
def HIDDEN : UInt8 := 2
def SYSTEM : UInt8 := 4
def SUBDIR : UInt8 := 16
def FAT32_IS_LNAME (a : UInt8) : Bool := a = 0xf

/-- `sizeof(FAT32_ENTRY)`. -/
def entrySize : ℕ := 32

structure FAT32_ENTRY where
  name : List UInt8
  extention : List UInt8
  attrib : UInt8
  reserved : UInt8
  ctime_tenth : UInt8
  ctime : UInt16
  cdate : UInt16
  adate : UInt16
  cluster_high : UInt16
  mtime : UInt16
  mdate : UInt16
  cluster : UInt16
  size : UInt32

structure FAT32_NAME_ENTRY where
  id : UInt8
  name1 : List UInt8
  attr : UInt8
  reserved : UInt8
  checksum : UInt8
  name2 : List UInt8
  first_cluster : UInt16
  name3 : List UInt8

/-- The bytes from `off` on. -/
def field (b : List UInt8) (off width : ℕ) : List UInt8 := (b.drop off).take width

def field16 (b : List UInt8) (off : ℕ) : UInt16 := UInt16.ofNat (ofLittleEndian (field b off 2))

def FAT32_ENTRY.ofBytes (b : List UInt8) : FAT32_ENTRY where
  name := field b 0 8
  extention := field b 8 3
  attrib := b.getD 11 0
  reserved := b.getD 12 0
  ctime_tenth := b.getD 13 0
  ctime := field16 b 14
  cdate := field16 b 16
  adate := field16 b 18
  cluster_high := field16 b 20
  mtime := field16 b 22
  mdate := field16 b 24
  cluster := field16 b 26
  size := UInt32.ofNat (ofLittleEndian (field b 28 4))

def FAT32_ENTRY.toBytes (ff : FAT32_ENTRY) : List UInt8 :=
  ff.name ++ ff.extention ++ [ff.attrib, ff.reserved, ff.ctime_tenth] ++
    littleEndian 2 ff.ctime.toNat ++ littleEndian 2 ff.cdate.toNat ++
    littleEndian 2 ff.adate.toNat ++ littleEndian 2 ff.cluster_high.toNat ++
    littleEndian 2 ff.mtime.toNat ++ littleEndian 2 ff.mdate.toNat ++
    littleEndian 2 ff.cluster.toNat ++ littleEndian 4 ff.size.toNat

def FAT32_NAME_ENTRY.ofBytes (b : List UInt8) : FAT32_NAME_ENTRY where
  id := b.getD 0 0
  name1 := field b 1 10
  attr := b.getD 11 0
  reserved := b.getD 12 0
  checksum := b.getD 13 0
  name2 := field b 14 12
  first_cluster := field16 b 26
  name3 := field b 28 4

def FAT32_NAME_ENTRY.toBytes (lne : FAT32_NAME_ENTRY) : List UInt8 :=
  [lne.id] ++ lne.name1 ++ [lne.attr, lne.reserved, lne.checksum] ++ lne.name2 ++
    littleEndian 2 lne.first_cluster.toNat ++ lne.name3

/-- The fields of a `file_t` that the operations on directories use. -/
structure FileEnt extends File where
  name : List UInt8
  flag : UInt32
  attrib : UInt32
  ctime : UInt32
  mtime : UInt32

/-! ## Times -/

structure TIME where
  tm_year : ℤ
  tm_mon : ℤ
  tm_mday : ℤ
  tm_hour : ℤ
  tm_min : ℤ
  tm_sec : ℤ

/-- The conversions of `api/time.c`. -/
structure Clock where
  mktime : TIME → UInt32
  gettime : UInt32 → Int32 × TIME

def TIME.valid (t : TIME) : Bool :=
  !(t.tm_mon = 0 || t.tm_mon > 12) && !(t.tm_mday = 0 || t.tm_mday > 31) &&
    !(t.tm_hour > 23 || t.tm_min > 59 || t.tm_sec > 59)

/-- The time that is put into `*t`, if one is put there. -/
def fat32Gettime (clock : Clock) (ff : FAT32_ENTRY) (op : ℕ) : Option UInt32 :=
  let (date, time) := if op = 0 then (ff.cdate, ff.ctime) else (ff.mdate, ff.mtime)
  let ftime : TIME := {
    tm_year := (date >>> 9).toNat + 1980
    tm_mon := (date >>> 5 &&& 0x0f).toNat
    tm_mday := (date &&& 0x1f).toNat
    tm_hour := (time >>> 11).toNat
    tm_min := (time >>> 5 &&& 0x1f).toNat
    tm_sec := ((time.toNat * 2) % 32 : ℕ) }
  if ftime.valid then some (clock.mktime ftime) else none

def fat32Settime (clock : Clock) (ff : FAT32_ENTRY) (t : UInt32) (op : ℕ) : FAT32_ENTRY :=
  let (ret, ftime) := clock.gettime t
  if ret < 0 then ff
  else if ftime.tm_year < 1980 then ff
  else if !ftime.valid then ff
  else
    let date := UInt16.ofInt ((ftime.tm_year - 1980) * 512 + ftime.tm_mon * 32 + ftime.tm_mday)
    let time := UInt16.ofInt (ftime.tm_hour * 2048 + ftime.tm_min * 32 + ftime.tm_sec / 2)
    if op = 0 then { ff with cdate := date, ctime := time }
    else if op = 2 then { ff with mdate := date, mtime := time, cdate := date, ctime := time }
    else { ff with mdate := date, mtime := time }

/-! ## Names -/

/-- `isupper` reads in front of its table for bytes from 128 on; they are taken to stay. -/
def tolower (c : UInt8) : UInt8 := if 65 ≤ c && c ≤ 90 then c + 32 else c

def toupper (c : UInt8) : UInt8 := if 97 ≤ c && c ≤ 122 then c - 32 else c

/-- The comparison ends with the shorter string. -/
def strnicmp : List UInt8 → List UInt8 → Int32
  | a :: as, b :: bs => if tolower a ≠ tolower b then 1 else strnicmp as bs
  | _, _ => 0

/-- The index of the last `c`. -/
def strrchr (s : List UInt8) (c : UInt8) : Option ℕ :=
  (s.reverse.idxOf? c).map fun i => s.length - 1 - i

/-- A field that ends with a blank or a zero. -/
def unpad (s : List UInt8) : List UInt8 := s.takeWhile fun c => c ≠ 0 && c ≠ 32

def fat32GetShortname (ff : FAT32_ENTRY) : List UInt8 :=
  unpad ff.name ++ if ff.attrib &&& SUBDIR = 0 then 46 :: unpad ff.extention else []

/-- The `i`-th wide character of a buffer. -/
def wideChar (m : Store) (i : ℕ) : ℕ := ofLittleEndian (readBytes m (2 * i) 2)

/-- The loop of `unicode_decode` from `input[i]` on, with `j` bytes put out. There are no names for
the characters from 128 on, as `unicodeDB` is never loaded. -/
def unicodeDecode (input : Store) (outputLen : ℕ) : ℕ → ℕ → ℕ → List UInt8
  | 0, _, _ => []
  | fuel + 1, i, j =>
    if wideChar input i ≠ 0 ∧ j < outputLen then
      if wideChar input i < 0x80 then
        UInt8.ofNat (wideChar input i) :: unicodeDecode input outputLen fuel (i + 1) (j + 1)
      else unicodeDecode input outputLen fuel (i + 1) j
    else []

/-- What `strncpy` puts into a buffer of `count` bytes. -/
def strncpy (src : List UInt8) (count : ℕ) : List UInt8 :=
  (src ++ List.replicate (count - src.length) 0).take count

/-- The copying of the parts of a long name, and whether the buffer is large enough. -/
def copyParts (longName : ℕ → List UInt8) (nameLen : ℕ) : ℕ → ℕ → Store → Bool × Store
  | 0, _, fname => (true, fname)
  | n + 1, i, fname =>
    if nameLen ≤ (i + 1) * 26 then (false, fname)
    else copyParts longName nameLen n (i + 1) (writeBytes fname (i * 26) (longName i))

/-- `fname` is the memory from the buffer on. -/
def fat32BuildFilename (fname : Store) (nameLen : ℕ) (longName : ℕ → List UInt8)
    (nameEntries : ℕ) : Store :=
  match copyParts longName nameLen nameEntries 0 (writeBytes fname 0 [0]) with
  | (false, fname) => fname
  | (true, fname) =>
    let tmp := unicodeDecode fname FILE_NAME_LEN (nameLen - 1) 0 0
    writeBytes fname 0 (strncpy tmp FILE_NAME_LEN)

/-! ## Enumerating -/

/-- The locals of `fat32_enum_ent` that stay from one entry to the next one. -/
structure Scan where
  fname : Store
  longName : ℕ → List UInt8
  checksum : ℤ
  id : ℤ
  nameEntries : ℕ

/-- What the locals hold before they are set, and the times of entries that have none. -/
structure Stack extends Scan where
  ctime : UInt32
  mtime : UInt32

/-- What an enumerator is given. A time is `none` when the entry has none that is valid. -/
structure Report where
  fname : List UInt8
  size : UInt32
  ctime : Option UInt32
  mtime : Option UInt32
  attr : UInt32
  cluster : UInt32
  deriving DecidableEq

/-- Copy the part of a long name that an entry has to `long_name[id]`. -/
def Scan.copyPart (st : Scan) (lne : FAT32_NAME_ENTRY) : Option Scan :=
  if 0 ≤ st.id ∧ st.id < MAX_LNAME_ENTRIS then
    some { st with longName :=
      Function.update st.longName st.id.toNat (lne.name1 ++ lne.name2 ++ lne.name3) }
  else none

def Scan.nameEntry (st : Scan) (lne : FAT32_NAME_ENTRY) : Option Scan :=
  if lne.id &&& 0x40 ≠ 0 then
    let id := (lne.id &&& 0x1f).toNat
    if id > MAX_LNAME_ENTRIS then
      some { st with checksum := lne.checksum.toNat, id := id, nameEntries := 0 }
    else { st with checksum := lne.checksum.toNat, id := id - 1, nameEntries := id }.copyPart lne
  else if (lne.checksum.toNat : ℤ) ≠ st.checksum ∨ (lne.id.toNat : ℤ) ≠ st.id then some st
  else { st with id := st.id - 1 }.copyPart lne

/-- The buffer with the name of an entry. -/
def Scan.fill (st : Scan) (ff : FAT32_ENTRY) : Store :=
  if st.nameEntries ≠ 0 then
    fat32BuildFilename st.fname FILE_NAME_LEN st.longName st.nameEntries
  else writeBytes st.fname 0 (fat32GetShortname ff ++ [0])

def fileAttr (attrib : UInt8) : UInt32 :=
  (if attrib &&& RDONLY ≠ 0 then FILE_ATTR_RDONLY else 0) |||
  (if attrib &&& SYSTEM ≠ 0 then FILE_ATTR_SYSTEM else 0) |||
  (if attrib &&& SUBDIR ≠ 0 then FILE_ATTR_DIR else 0) |||
  (if attrib &&& HIDDEN ≠ 0 then FILE_ATTR_HIDDEN else 0)

/-- The report of an entry whose name is in the buffer. -/
def report (clock : Clock) (fname : Store) (ff : FAT32_ENTRY) : Report where
  fname := (readBytes fname 0 FILE_NAME_LEN).takeWhile (· ≠ 0)
  size := ff.size
  ctime := fat32Gettime clock ff 0
  mtime := fat32Gettime clock ff 1
  attr := fileAttr ff.attrib
  cluster := ff.cluster_high.toUInt32 <<< 16 ||| ff.cluster.toUInt32

/-- An entry that is not used. -/
def unused (b : List UInt8) : Bool := b.getD 0 0 = 0xe5 || b.getD 0 0 = 0

/-- Where an enumerator has stopped: its answer, the number of the entry in the cluster, the entries
of its long name, and what was reported. -/
structure Stop where
  ret : Int32
  index : ℕ
  nameEntries : ℕ
  rep : Report

/-- The loop over the entries of a cluster, from number `i` on. -/
def enumClu (clock : Clock) (enumerator : Report → Int32) :
    Scan → ℕ → List (List UInt8) → Option (Except Scan Stop)
  | st, _, [] => some (.error st)
  | st, i, b :: bs =>
    if unused b then enumClu clock enumerator st (i + 1) bs
    else if FAT32_IS_LNAME (FAT32_ENTRY.ofBytes b).attrib then do
      let st ← st.nameEntry (FAT32_NAME_ENTRY.ofBytes b)
      enumClu clock enumerator st (i + 1) bs
    else
      let fname := st.fill (FAT32_ENTRY.ofBytes b)
      let rep := report clock fname (FAT32_ENTRY.ofBytes b)
      let ret := enumerator rep
      if ret = 1 ∨ ret = 2 ∨ ret = 3 then some (.ok ⟨ret, i, st.nameEntries, rep⟩)
      else enumClu clock enumerator { st with fname := fname, nameEntries := 0 } (i + 1) bs

/-- The entries of the data of a cluster. -/
def entries (cluData : List UInt8) (pos maxEntries : ℕ) : List (List UInt8) :=
  (List.range maxEntries).map fun i => field cluData (pos + entrySize * i) entrySize

/-- Mark an entry and the ones of its long name as deleted. -/
def deleteEntries (cluData : List UInt8) (off : ℕ) : ℕ → List UInt8
  | 0 => cluData.set off 0xe5
  | n + 1 => deleteEntries (cluData.set (off - entrySize * (n + 1)) 0xe5) off n

/-- The entry with the changes of a file. -/
def saveEntry (clock : Clock) (fNew : FileEnt) (ff : FAT32_ENTRY) : FAT32_ENTRY :=
  let ff := { ff with size := fNew.size }
  let ff := fat32Settime clock ff fNew.ctime 0
  let ff := fat32Settime clock ff fNew.mtime 1
  { ff with
    attrib := ff.attrib |||
      (if fNew.attrib &&& FILE_ATTR_RDONLY ≠ 0 then RDONLY else 0) |||
      (if fNew.attrib &&& FILE_ATTR_SYSTEM ≠ 0 then SYSTEM else 0) |||
      (if fNew.attrib &&& FILE_ATTR_DIR ≠ 0 then SUBDIR else 0) |||
      (if fNew.attrib &&& FILE_ATTR_HIDDEN ≠ 0 then HIDDEN else 0)
    cluster_high := (fNew.data >>> 16).toUInt16
    cluster := fNew.data.toUInt16 }

section Volume
variable (dev : Fat32Dev) (clock : Clock)

/-- What is done with the entry that an enumerator has stopped at: the data of its cluster. -/
def enumStop (fNew : FileEnt) (cluData : List UInt8) (pos : ℕ) (stop : Stop) :
    Option (Option (List UInt8)) :=
  let off := pos + entrySize * stop.index
  if stop.ret = 2 then
    if off < entrySize * stop.nameEntries then none
    else some (some (deleteEntries cluData off stop.nameEntries))
  else if stop.ret = 3 then
    some (some (memcpy cluData off
      (saveEntry clock fNew (FAT32_ENTRY.ofBytes (field cluData off entrySize))).toBytes))
  else some none

def enumLoop (d : Store) (enumerator : Report → Int32) (fNew : FileEnt) :
    ℕ → Scan → UInt32 → ℕ → Option (Int32 × Option Report × Store)
  | 0, _, _, _ => none
  | fuel + 1, st, clu, pos => do
    let cluData := readclu dev d clu
    match ← enumClu clock enumerator st 0
      (entries cluData pos (dev.bytPerClu.toNat / entrySize)) with
    | .ok stop =>
      match ← enumStop clock fNew cluData pos stop with
      | none => some (stop.ret, some stop.rep, d)
      | some cluData => some (stop.ret, some stop.rep, writeclu dev d clu cluData)
    | .error st =>
      let clu := nextclu dev d clu
      if IS_FAT32CLU_INUSE clu then enumLoop d enumerator fNew fuel st clu 0
      else some (-1, none, d)

def fat32EnumEnt (d : Store) (f : File) (stack : Stack) (enumerator : Report → Int32)
    (fNew : FileEnt) : Option (Int32 × Option Report × Store) :=
  enumLoop dev clock d enumerator fNew addressSpace { stack.toScan with nameEntries := 0 }
    (getCluByOrder dev d f.data (cluOrder dev f.pos)) (f.pos % dev.bytPerClu).toNat

def openEnumerator (compName : List UInt8) (rep : Report) : Int32 :=
  if strnicmp rep.fname compName = 0 then 1 else 0

def removeEnumerator (compName : List UInt8) (rep : Report) : Int32 :=
  if strnicmp rep.fname compName = 0 then 2 else 0

def saveinfoEnumerator (compName : List UInt8) (rep : Report) : Int32 :=
  if strnicmp rep.fname compName = 0 then 3 else 0

/-- `fat32_open` of a file that there is, in the directory `parent`. -/
def openExisting (d : Store) (parent : File) (stack : Stack) (f : FileEnt) (name : List UInt8) :
    Option (Int32 × FileEnt) := do
  let parent := { parent with pos := 0 }
  match ← fat32EnumEnt dev clock d parent stack (openEnumerator name) f with
  | (ret, some rep, _) =>
    if ret > 0 then
      some (0, { f with
        name := name, pos := 0, size := rep.size, ctime := rep.ctime.getD stack.ctime,
        mtime := rep.mtime.getD stack.mtime, data := rep.cluster, attrib := rep.attr })
    else some (-1, f)
  | (_, none, _) => some (-1, f)

def fat32RemoveEnt (d : Store) (parent : File) (stack : Stack) (f : FileEnt) :
    Option (Int32 × Store) := do
  let parent := { parent with pos := 0 }
  let (ret, _, d) ← fat32EnumEnt dev clock d parent stack (removeEnumerator f.name) f
  some (if ret = 2 then 0 else -1, d)

def fat32Saveinfo (d : Store) (parent : File) (stack : Stack) (f : FileEnt) :
    Option (Int32 × Store) := do
  let parent := { parent with pos := 0 }
  let (ret, _, d) ← fat32EnumEnt dev clock d parent stack (saveinfoEnumerator f.name) f
  some (if ret = 3 then 0 else -1, d)

end Volume

/-! ## Creating -/

/-- `memset( ff, 0, sizeof(FAT32_ENTRY) )`. -/
def zeroEntry : FAT32_ENTRY :=
  ⟨List.replicate 8 0, List.replicate 3 0, 0, 0, 0, 0, 0, 0, 0, 0, 0, 0, 0⟩

/-- A field that is filled up with blanks. -/
def pad (width : ℕ) (s : List UInt8) : List UInt8 := s ++ List.replicate (width - s.length) 32

/-- The fields of a short name. `name` is at address `addr`; a name without a dot is measured from a
null pointer. Also how much of `name` has been passed. -/
def shortname (name : List UInt8) (addr : UInt32) (longSignChar trychar : UInt8) :
    List UInt8 × List UInt8 × ℕ :=
  let ext := strrchr name 46
  let long := match ext with
    | some e => decide (e > 8)
    | none => decide ((0 - addr).toInt32 > 8)
  let stem := (name.take (ext.getD name.length)).take (if long then 6 else 8)
  let extention := match ext with
    | some e => (name.drop (e + 1)).take 3
    | none => []
  (pad 8 (stem.map toupper ++ if long then [longSignChar, trychar] else []),
    pad 3 (extention.map toupper), stem.length)

/-- `fat32_build_shortname`. `opens` tells whether there is a file of a name; the next name is tried
from where the last one has ended. -/
def buildShortname (opens : ℕ → List UInt8 → Option Bool) :
    ℕ → List UInt8 → UInt32 → UInt8 → UInt8 → Option (List UInt8 × List UInt8)
  | 0, _, _, _, _ => none
  | fuel + 1, name, addr, longSignChar, trychar => do
    let (sname, extention, passed) := shortname name addr longSignChar trychar
    let ff := { zeroEntry with name := sname, extention := extention }
    if ← opens fuel (fat32GetShortname ff) then
      let name := name.drop passed
      let addr := addr + UInt32.ofNat passed
      if trychar = 54 then buildShortname opens fuel name addr (longSignChar + 1) 49
      else buildShortname opens fuel name addr longSignChar (trychar + 1)
    else some (sname, extention)

/-- The characters that `unicode_encode` puts out from the `j`-th on. -/
def unicodeEncode (outputLen : ℕ) : ℕ → ℕ → List UInt8 → List UInt8
  | inputLen + 1, j, c :: cs =>
    if j + 1 < outputLen then
      if c < 0x80 then c :: unicodeEncode outputLen inputLen (j + 1) cs
      else unicodeEncode outputLen inputLen j cs
    else []
  | _, _, _ => []

/-- The buffer `uni_name` and `uni_len`. -/
def uniName (name : List UInt8) : Option (List UInt8 × ℕ) :=
  let chars := unicodeEncode FILE_NAME_LEN FILE_NAME_LEN 0 name
  (write (List.replicate FILE_NAME_LEN 0xff) 0 (chars.flatMap (fun c => [c &&& 0x7f, 0]) ++ [0, 0])).map
    fun buf => (buf, chars.length)

/-- The buffer of a name that is written as a long name, and the entries that the name takes. -/
def nameForm (name : List UInt8) : Option (Option (List UInt8) × ℕ) :=
  if name.length > 11 then
    (uniName name).map fun r => (if r.2 ≠ 0 then some r.1 else none, r.2 / 13 + 1 + 1)
  else some (none, 1)

/-- The sum over the fields of a short name. -/
def checksum (sname : List UInt8) : UInt8 :=
  sname.foldl (fun c b => (c <<< 7 ||| c >>> 1) + b) 0

/-- Put the parts `m` to 1 of a long name in front of the entry at `off`. -/
def writeParts (uni : List UInt8) (sum : UInt8) (last off : ℕ) : ℕ → List UInt8 → Option (List UInt8)
  | 0, cluData => some cluData
  | m + 1, cluData => do
    if uni.length < 26 * (m + 1) then none
    else
      let lne : FAT32_NAME_ENTRY := {
        id := UInt8.ofNat (m + 1) ||| if m + 1 = last then 0x40 else 0
        name1 := field uni (26 * m) 10
        attr := 0xf
        reserved := 0
        checksum := sum
        name2 := field uni (26 * m + 10) 12
        first_cluster := 0
        name3 := field uni (26 * m + 22) 4 }
      writeParts uni sum last off m (memcpy cluData (off - entrySize * (m + 1)) lne.toBytes)

/-- The number of the entry that ends the first `nameEntries` unused ones. -/
def findRoom (nameEntries : ℕ) : ℕ → ℕ → List (List UInt8) → Option ℕ
  | _, _, [] => none
  | i, found, b :: bs =>
    if unused b then
      if found + 1 = nameEntries then some i else findRoom nameEntries (i + 1) (found + 1) bs
    else findRoom nameEntries (i + 1) 0 bs

section Volume
variable (dev : Fat32Dev) (clock : Clock)

/-- The entry of a file that is created. -/
def createEntry (fsave : FileEnt) (sname extention : List UInt8) : FAT32_ENTRY :=
  let ff := fat32Settime clock { zeroEntry with name := sname, extention := extention } fsave.mtime 2
  { ff with
    size := fsave.size
    attrib := (if fsave.attrib &&& FILE_ATTR_RDONLY ≠ 0 then RDONLY else 0) |||
      (if fsave.attrib &&& FILE_ATTR_SYSTEM ≠ 0 then SYSTEM else 0) |||
      (if fsave.attrib &&& FILE_ATTR_DIR ≠ 0 then SUBDIR else 0) |||
      (if fsave.attrib &&& FILE_ATTR_HIDDEN ≠ 0 then HIDDEN else 0)
    cluster_high := (fsave.data >>> 16).toUInt16
    cluster := fsave.data.toUInt16 }

/-- The data of a cluster with the new entry at `off` and its long name in front of it. -/
def placeEntry (opens : ℕ → List UInt8 → Option Bool) (fsave : FileEnt) (addr : UInt32)
    (uni : Option (List UInt8)) (nameEntries off : ℕ) (cluData : List UInt8) :
    Option (List UInt8) := do
  let (sname, extention) ← buildShortname opens addressSpace fsave.name addr 126 49
  let cluData := memcpy cluData off (createEntry clock fsave sname extention).toBytes
  match uni with
  | none => some cluData
  | some uni =>
    writeParts uni (checksum (sname ++ extention)) (nameEntries - 1) off (nameEntries - 1) cluData

/-- The loop of `fat32_create_ent` from the cluster `clu` on. -/
def createLoop (opens : Store → ℕ → List UInt8 → Option Bool) (f : File) (fsave : FileEnt) (addr : UInt32)
    (uni : Option (List UInt8)) (nameEntries : ℕ) :
    ℕ → Store → UInt32 → ℕ → List UInt8 → Option (Int32 × Store)
  | 0, _, _, _, _ => none
  | fuel + 1, d, clu, pos, cluData =>
    match findRoom nameEntries 0 0 (entries cluData pos (dev.bytPerClu.toNat / entrySize)) with
    | some i => do
      let cluData ← placeEntry clock (opens d) fsave addr uni nameEntries
        (pos + entrySize * i) cluData
      some (0, writeclu dev d clu cluData)
    | none =>
      let clu := nextclu dev d clu
      if IS_FAT32CLU_INUSE clu then
        createLoop opens f fsave addr uni nameEntries fuel d clu 0 (readclu dev d clu)
      else if IS_FAT32CLU_END clu then
        let (clu, d) := allocclu dev d f
        if !IS_FAT32CLU_INUSE clu then some (-1, d)
        else createLoop opens f fsave addr uni nameEntries fuel d clu 0
          (List.replicate dev.bytPerClu.toNat 0)
      else some (-1, d)

/-- `fat32_create_ent` of a file in the directory `f`. `addr` is the address of the name, `stack`
what the locals of the calls of `fat32_open` hold. -/
def fat32CreateEnt (d : Store) (f : File) (stack : ℕ → Stack) (fsave : FileEnt) (addr : UInt32) :
    Option (Int32 × Store) := do
  let (uni, nameEntries) ← nameForm fsave.name
  let clu := getCluByOrder dev d f.data (cluOrder dev f.pos)
  let opens := fun d n fname =>
    (openExisting dev clock d f (stack n) { fsave with flag := 0 } fname).map fun r =>
      decide (r.1 = 0)
  createLoop dev clock opens f fsave addr uni nameEntries addressSpace d clu
    (f.pos % dev.bytPerClu).toNat (readclu dev d clu)

end Volume

end Sgos.Fat32
