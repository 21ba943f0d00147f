import Sgos.Fat32Names
import Sgos.Fat32Robust

/-!
# Listing a directory

`fat32_readdir` puts the files of a directory into a buffer, from the position of the file on, until
the buffer is full. It does not move the position, so that the next call lists the same files again.
-/
namespace Sgos.Fat32
open ByteStore

namespace Readdir
open Scan Lookup Names Enum Scanning

/-- What is put into the buffer of a file. A time is `none` when the entry has none that is valid. -/
structure DIRENTRY where
  name : List UInt8
  size : UInt32
  attr : UInt32
  ctime : Option UInt32
  mtime : Option UInt32
  deriving DecidableEq

/-- `sizeof( DIRENTRY )`. -/
def direntrySize : UInt32 := 144

def direntry (rep : Report) : DIRENTRY where
  name := strncpy rep.fname FILE_NAME_LEN
  size := rep.size
  attr := rep.attr
  ctime := rep.ctime
  mtime := rep.mtime

/-- The data of the enumerator are `remain` and what is in the buffer. -/
def fat32ReaddirEnumerator (own : UInt32 × List DIRENTRY) (rep : Report) :
    Int32 × (UInt32 × List DIRENTRY) :=
  if own.1 < direntrySize then (1, own)
  else (0, own.1 - direntrySize, own.2 ++ [direntry rep])

section Calls
variable (dev : Fat32Dev) (clock : Clock) (d : Store)

/-- The return value, what is in the buffer, and the file after the call. -/
def fat32Readdir (fuel : ℕ) (f : File) (stack : Stack) (size : UInt32) :
    Option (Int32 × List DIRENTRY × File) :=
  match turns dev clock d fat32ReaddirEnumerator fuel (begin dev d f stack (size, [])) with
  | .stop _ _ own => some ((size - own.1).toInt32, own.2, f)
  | .done own => some ((size - own.1).toInt32, own.2, f)
  | _ => none

/-- The call reads only entries that are in the buffer of their cluster. -/
def InBuffer (f : File) (stack : Stack) (size : UInt32) : Prop :=
  ∀ c, Reaches dev clock d fat32ReaddirEnumerator (begin dev d f stack (size, [])) c →
    c.i < maxEntries dev → c.offset + entrySize ≤ dev.bytPerClu.toNat

/-- Calls up to the first one that returns 0 list `out`. -/
inductive Calls (size : UInt32) : (ℕ → Stack) → File → List DIRENTRY → Prop
  | last {stack : ℕ → Stack} {f f' : File} {out : List DIRENTRY} {fuel : ℕ}
      (hin : InBuffer dev clock d f (stack 0) size)
      (h : fat32Readdir dev clock d fuel f (stack 0) size = some (0, out, f')) :
      Calls size stack f out
  | more {stack : ℕ → Stack} {f f' : File} {out rest : List DIRENTRY} {fuel : ℕ} {ret : Int32}
      (hin : InBuffer dev clock d f (stack 0) size)
      (h : fat32Readdir dev clock d fuel f (stack 0) size = some (ret, out, f')) (hret : ret ≠ 0)
      (hrest : Calls size (fun k => stack (k + 1)) f' rest) : Calls size stack f (out ++ rest)

/-- Calls until one returns 0 list every file of the clusters `cs` once, in order. -/
def Lists (cs : List UInt32) (f : File) (stack : ℕ → Stack) (size : UInt32) : Prop :=
  ∃ l, reports clock (start (stack 0)) (records dev d cs) = some l ∧
    Calls dev clock d size stack f (l.map direntry)

end Calls

variable {dev : Fat32Dev} {n : ℕ} {clock : Clock} {d : Store} {f : File} {c : UInt32}
  {cs : List UInt32} {size : UInt32} {stack : ℕ → Stack} {ps : List (List UInt8)}
  {cur cur' : Cursor (UInt32 × List DIRENTRY)} {m : ℕ}

/-! ## What a call returns -/

/-- The buffer holds an entry for each file that was passed. -/
def Told (dev : Fat32Dev) (d : Store) (cs : List UInt32) (size : UInt32)
    (cur : Cursor (UInt32 × List DIRENTRY)) : Prop :=
  cur.own.1.toNat + direntrySize.toNat * cur.own.2.length = size.toNat ∧
    ∃ ps m, Passed dev d cs ps m cur ∧ cur.own.2.length = ps.countP isFile

lemma readdir_quiet {own : UInt32 × List DIRENTRY} {rep : Report}
    (h : ¬Stops (fat32ReaddirEnumerator own rep).1) : direntrySize.toNat ≤ own.1.toNat ∧
      fat32ReaddirEnumerator own rep =
        (0, own.1 - direntrySize, own.2 ++ [direntry rep]) := by
  have hroom : ¬own.1 < direntrySize := by
    intro hlt
    rw [fat32ReaddirEnumerator, if_pos hlt] at h
    exact h (.inl rfl)
  exact ⟨UInt32.le_iff_toNat_le.mp (UInt32.not_lt.mp hroom), if_neg hroom⟩

lemma readdir_stops {own : UInt32 × List DIRENTRY} {rep : Report}
    (h : Stops (fat32ReaddirEnumerator own rep).1) : own.1.toNat < direntrySize.toNat ∧
      fat32ReaddirEnumerator own rep = (1, own) := by
  by_cases hroom : own.1 < direntrySize
  · exact ⟨UInt32.lt_iff_toNat_lt.mp hroom, if_pos hroom⟩
  · rw [fat32ReaddirEnumerator, if_neg hroom] at h
    exact absurd h not_stops_zero

lemma Told.leads (hcs : Scanned dev d c cs) (h : Told dev d cs size cur)
    (hlead : Leads dev clock d fat32ReaddirEnumerator cur cur') : Told dev d cs size cur' := by
  obtain ⟨hsum, ps, m, hps, hcount⟩ := h
  rcases @turn_cases _ dev clock d fat32ReaddirEnumerator cur with
    ⟨-, -, hturn⟩ | ⟨-, -, -, hturn⟩ | ⟨hi, hquiet, s, -, hturn⟩ | ⟨hi, hinuse, hturn⟩ |
    ⟨-, -, hturn⟩
  · cases hlead.symm.trans hturn
  · cases hlead.symm.trans hturn
  · obtain rfl := Turn.next.inj (hturn.symm.trans hlead)
    obtain ⟨m', -, hps'⟩ := hps.entry hi s (if isFile (cur.entry dev d) then
      (fat32ReaddirEnumerator cur.own (reported clock cur.st (cur.entry dev d))).2 else cur.own)
    refine ⟨?_, _, m', hps', ?_⟩
    all_goals simp only [Cursor.past]
    · split_ifs with hfile
      · obtain ⟨hroom, heq⟩ := readdir_quiet (hquiet hfile)
        have hsub := UInt32.toNat_sub_of_le _ _ (UInt32.le_iff_toNat_le.mpr hroom)
        rw [heq]
        simp only [List.length_append, List.length_singleton, Nat.mul_succ]
        omega
      · exact hsum
    · rw [List.countP_append, List.countP_singleton]
      split_ifs with hfile
      · rw [(readdir_quiet (hquiet hfile)).2, List.length_append, hcount, List.length_singleton]
      · exact hcount
  · obtain rfl := Turn.next.inj (hturn.symm.trans hlead)
    obtain ⟨m', -, hps'⟩ := hps.onward hcs hi hinuse
    exact ⟨hsum, ps, m', hps', hcount⟩
  · cases hlead.symm.trans hturn

lemma Told.reaches (hcs : Scanned dev d c cs) (h : Told dev d cs size cur)
    (hreach : Reaches dev clock d fat32ReaddirEnumerator cur cur') : Told dev d cs size cur' := by
  induction hreach with
  | refl => exact h
  | tail _ hlead ih => exact ih.leads hcs hlead

/-- The directory, from its first cluster on. -/
lemma scanned_of_follows {e : UInt32} (h : Follows (nextclu dev d) c cs e)
    (huse : ∀ x ∈ cs, IS_FAT32CLU_INUSE x) (he : IS_FAT32CLU_INUSE e = false) (hne : cs ≠ []) :
    Scanned dev d c cs := by
  induction cs generalizing c with
  | nil => exact absurd rfl hne
  | cons x cs ih =>
    obtain ⟨rfl, hnext⟩ := h
    cases cs with
    | nil =>
      obtain rfl : nextclu dev d c = e := hnext
      exact .last he
    | cons y ys =>
      refine .more (hnext.1 ▸ huse y (by simp)) ?_
      exact ih hnext (fun z hz => huse z (List.mem_cons_of_mem c hz)) (by simp)

lemma directory_scanned (h : Directory dev n d f cs) (hpos : f.pos = 0) :
    Scanned dev d (getCluByOrder dev d f.data (cluOrder dev f.pos)) cs ∧
      (f.pos % dev.bytPerClu).toNat = 0 := by
  obtain ⟨e, hfollow, hend⟩ := h.chain
  have horder : cluOrder dev 0 = 0 := by
    rw [cluOrder, UInt32.zero_div]
    rfl
  have hzero : ((0 : UInt32) % dev.bytPerClu).toNat = 0 := by
    rw [UInt32.zero_mod]
    rfl
  rw [hpos, horder, hzero, getCluByOrder]
  exact ⟨scanned_of_follows hfollow h.inuse (not_inuse_of_end hend) h.nonempty, rfl⟩

lemma told_begin (hcs : Scanned dev d (getCluByOrder dev d f.data (cluOrder dev f.pos)) cs)
    (hpos : (f.pos % dev.bytPerClu).toNat = 0) (size : UInt32) (stack : Stack) :
    Told dev d cs size (begin dev d f stack (size, [])) := by
  obtain ⟨m, hm⟩ := passed_begin hcs hpos stack (size, ([] : List DIRENTRY))
  exact ⟨rfl, [], m, hm, rfl⟩

lemma toInt32_eq_zero {x : UInt32} (h : x.toInt32 = 0) : x = 0 := by
  rw [← UInt32.toUInt32_toInt32 x, h]
  rfl

lemma eq_of_sub_eq_zero {x y : UInt32} (h : x - y = 0) : x = y := by
  have hadd := congrArg (· + y) h
  simpa using hadd

/-- A call leaves the file as it is, and returns 0 only if there is nothing to list. -/
lemma readdir_spec (h : Directory dev n d f cs) (hpos : f.pos = 0) (hsize : direntrySize ≤ size)
    {fuel : ℕ} {stack : Stack} {ret : Int32} {out : List DIRENTRY} {f' : File}
    (hcall : fat32Readdir dev clock d fuel f stack size = some (ret, out, f')) :
    f' = f ∧ (ret = 0 → ∀ b ∈ records dev d cs, isFile b = false) := by
  obtain ⟨hcs, hzero⟩ := directory_scanned h hpos
  have htold := told_begin hcs hzero size stack
  have hroom := UInt32.le_iff_toNat_le.mp hsize
  rw [fat32Readdir] at hcall
  cases hturns : turns dev clock d fat32ReaddirEnumerator fuel (begin dev d f stack (size, [])) with
  | next c' =>
    rw [hturns] at hcall
    cases hcall
  | stray =>
    rw [hturns] at hcall
    cases hcall
  | stop c' r own =>
    rw [hturns] at hcall
    simp only [Option.some.injEq, Prod.mk.injEq] at hcall
    obtain ⟨rfl, -, rfl⟩ := hcall
    refine ⟨rfl, fun hret => ?_⟩
    obtain ⟨cur, hreach, hturn⟩ := turns_last hturns (by simp)
    have hown := eq_of_sub_eq_zero (toInt32_eq_zero hret)
    rcases @turn_cases _ dev clock d fat32ReaddirEnumerator cur with
      ⟨-, -, hturn'⟩ | ⟨-, -, hstops, hturn'⟩ | ⟨-, -, s, -, hturn'⟩ | ⟨-, -, hturn'⟩ | ⟨-, -, hturn'⟩
    · cases hturn.symm.trans hturn'
    · -- the buffer is full, so there is something in it
      obtain ⟨hfull, heq⟩ := readdir_stops hstops
      obtain ⟨-, -, rfl⟩ := Turn.stop.inj (hturn.symm.trans hturn')
      rw [heq] at hown
      dsimp only at hown
      rw [← hown] at hfull
      omega
    all_goals cases hturn.symm.trans hturn'
  | done own =>
    rw [hturns] at hcall
    simp only [Option.some.injEq, Prod.mk.injEq] at hcall
    obtain ⟨rfl, -, rfl⟩ := hcall
    refine ⟨rfl, fun hret => ?_⟩
    obtain ⟨cur, hreach, hturn⟩ := turns_last hturns (by simp)
    have hown := eq_of_sub_eq_zero (toInt32_eq_zero hret)
    obtain ⟨hsum, ps, m, hps, hcount⟩ := htold.reaches hcs hreach
    rcases @turn_cases _ dev clock d fat32ReaddirEnumerator cur with
      ⟨-, -, hturn'⟩ | ⟨-, -, -, hturn'⟩ | ⟨-, -, s, -, hturn'⟩ | ⟨-, -, hturn'⟩ |
      ⟨hi, hend, hturn'⟩
    · cases hturn.symm.trans hturn'
    · cases hturn.symm.trans hturn'
    · cases hturn.symm.trans hturn'
    · cases hturn.symm.trans hturn'
    · obtain rfl := Turn.done.inj (hturn.symm.trans hturn')
      have hlen : direntrySize.toNat = 144 := rfl
      have hnone : cur.own.2.length = 0 := by
        rw [← hown, hlen] at hsum
        omega
      rw [hnone, hps.all hcs hi hend] at hcount
      intro b hb
      exact Bool.eq_false_iff.mpr fun hfile => List.countP_eq_zero.mp hcount.symm b hb hfile

/-- Where there is no file, the first call lists nothing. -/
lemma readdir_none (h : Directory dev n d f cs) (hpos : f.pos = 0) (clock : Clock) (stack : Stack)
    (hs : (after (start stack) (records dev d cs)).isSome)
    (hnone : ∀ b ∈ records dev d cs, isFile b = false) (size : UInt32) :
    ∃ fuel, fat32Readdir dev clock d fuel f stack size = some (0, [], f) := by
  obtain ⟨hcs, hzero⟩ := directory_scanned h hpos
  obtain ⟨s, hs⟩ := Option.isSome_iff_exists.mp hs
  have hpatient : Patient fat32ReaddirEnumerator
      fun k own => k = 0 ∧ own = (size, ([] : List DIRENTRY)) :=
    ⟨fun k own rep hk => absurd hk.1 k.succ_ne_zero, fun k own rep hk => absurd hk.1 k.succ_ne_zero⟩
  have hcount : (records dev d cs).countP isFile + 0 = 0 :=
    List.countP_eq_zero.mpr fun b hb hfile => Bool.false_ne_true ((hnone b hb).symm.trans hfile)
  obtain ⟨cur, ⟨-, hown⟩, hreach, hdone⟩ := hcs.done hpatient clock hs ⟨hcount, rfl⟩
  have hbegin : begin dev d f stack (size, ([] : List DIRENTRY)) =
      ⟨getCluByOrder dev d f.data (cluOrder dev f.pos), 0, 0, start stack, (size, [])⟩ := by
    rw [begin, hzero]
  obtain ⟨k, hk⟩ := turns_reaches hreach
  refine ⟨k + 1, ?_⟩
  rw [fat32Readdir, hbegin, hk, turns, hdone]
  dsimp only
  rw [hown, UInt32.sub_self]
  rfl

/-! ## Repeated calls -/

/-- If a call returns 0 some time, there is no file. -/
lemma Calls.none {out : List DIRENTRY} (hcalls : Calls dev clock d size stack f out)
    (h : Directory dev n d f cs) (hpos : f.pos = 0) (hsize : direntrySize ≤ size) :
    ∀ b ∈ records dev d cs, isFile b = false := by
  induction hcalls with
  | last hin hcall => exact (readdir_spec h hpos hsize hcall).2 rfl
  | more hin hcall hret _ ih =>
    obtain ⟨rfl, -⟩ := readdir_spec h hpos hsize hcall
    exact ih h hpos

lemma inBuffer (h : Directory dev n d f cs) (hpos : f.pos = 0) (clock : Clock) (stack : Stack)
    (size : UInt32) : InBuffer dev clock d f stack size := by
  obtain ⟨hcs, hzero⟩ := directory_scanned h hpos
  intro c hc hi
  obtain ⟨-, ps, m, hps, -⟩ := (told_begin hcs hzero size stack).reaches hcs hc
  exact hps.reads (maxEntries_eq h.proper) hi

/-- Calls on a directory that was opened list its files once exactly if there are none. -/
theorem lists_iff (h : Directory dev n d f cs) (hpos : f.pos = 0) (htidy : Tidy (records dev d cs))
    (hsize : direntrySize ≤ size) :
    Lists dev clock d cs f stack size ↔ ∀ b ∈ records dev d cs, isFile b = false := by
  constructor
  · rintro ⟨l, -, hcalls⟩
    exact hcalls.none h hpos hsize
  · intro hnone
    obtain ⟨l, hl⟩ := htidy.reports clock
    obtain ⟨-, s, hs, -⟩ := hl (start (stack 0)) rfl
    obtain ⟨fuel, hcall⟩ := readdir_none h hpos clock (stack 0) (by rw [hs]; rfl) hnone size
    exact ⟨[], reports_parts hnone hs, .last (inBuffer h hpos clock _ size) hcall⟩

/-! ## An empty directory, and one with a file -/

/-- In an empty directory the first call returns 0. -/
theorem lists_empty : Lists smallDev noClock smallStore [2] fooDir (fun _ => noStack) 144 := by
  have hall : (records smallDev smallStore [2]).all (fun b => !isFile b) = true := by
    decide +kernel
  exact (lists_iff empty_directory rfl empty_tidy (by decide)).mpr fun b hb => by
    simpa using List.all_eq_true.mp hall b hb

/-- A file is listed by every call. -/
theorem not_lists : Directory smallDev 4 fooStore fooDir [2] ∧
    Tidy (records smallDev fooStore [2]) ∧
    ¬Lists smallDev noClock fooStore [2] fooDir (fun _ => noStack) 144 := by
  have hfile : isFile ((records smallDev fooStore [2]).getD 0 []) = true := by decide +kernel
  have hrest : ((records smallDev fooStore [2]).drop 1).all Fat32.unused = true := by
    decide +kernel
  have hlen : 0 < (records smallDev fooStore [2]).length := by decide +kernel
  refine ⟨foo_directory, ?_, ?_⟩
  · generalize records smallDev fooStore [2] = rs at hfile hrest hlen
    obtain ⟨b, rs, rfl⟩ := List.exists_cons_of_length_pos hlen
    exact .file isGroup_nil hfile (tidy_of_unused (List.all_eq_true.mp hrest))
  · rintro ⟨l, -, hcalls⟩
    have hnone := hcalls.none foo_directory rfl (by decide)
    generalize records smallDev fooStore [2] = rs at hfile hlen hnone
    obtain ⟨b, rs, rfl⟩ := List.exists_cons_of_length_pos hlen
    exact Bool.false_ne_true ((hnone b List.mem_cons_self).symm.trans hfile)

end Readdir

end Sgos.Fat32
