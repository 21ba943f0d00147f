import Mathlib.Data.List.Nodup
import Sgos.ImageBuffer

/-!
# When the buffers stand for the image

The buffers, laid over the file, are the image that a plain store would have. A call keeps this as
long as the number of a block tells its partition and every block that is written has a buffer.
-/
namespace Sgos.ImageBuffer
open ByteStore GuardedRun

variable {disk : Disk} {s : State} {image : Store} {dev dev' : UInt16} {block block' : UInt32}

/-! ## Places -/

/-- Below 2GB nothing wraps. -/
lemma position_toNat (h : place disk dev block < 2147483648) :
    (position disk dev block).toNat = place disk dev block := by
  simp only [place, position, UInt32.toNat_mul, UInt32.toNat_add, UInt32.reduceToNat] at h ⊢
  omega

lemma fseek_eq (h : place disk dev block < 2147483648) (pos : ℕ) :
    fseek pos (position disk dev block) = place disk dev block := by
  rw [fseek, position_toNat h, if_pos h]

/-- Different blocks of the partitions lie apart. -/
lemma place_apart (h : InPartition disk dev block) (h' : InPartition disk dev' block')
    (hne : dev = dev' → block ≠ block') :
    place disk dev block + BLOCK_SIZE ≤ place disk dev' block' ∨
      place disk dev' block' + BLOCK_SIZE ≤ place disk dev block := by
  obtain ⟨hdev, hblock⟩ := h
  obtain ⟨hdev', hblock'⟩ := h'
  simp only [place, BLOCK_SIZE]
  by_cases hd : dev = dev'
  · subst hd
    have hb : block.toNat ≠ block'.toNat := fun he => hne rfl (UInt32.toNat_inj.mp he)
    omega
  · have hapart := disk.apart _ hdev _ hdev' fun he => hd (UInt16.toNat_inj.mp he)
    omega

/-! ## The invariant -/

/-- Where the data of a buffer belongs. -/
def bufferRun (disk : Disk) (b : BUFFER) : Run := (place disk b.dev b.block, b.buf.1)

def runs (disk : Disk) (bs : List BUFFER) : List Run := bs.map (bufferRun disk)

/-- Each block has one buffer, and the file under the buffers is the image. -/
structure Stands (disk : Disk) (s : State) (image : Store) : Prop where
  overlay_eq : overlay s.file (runs disk s.buffers) = image
  nodup : (s.buffers.map BUFFER.block).Nodup
  valid : ∀ b ∈ s.buffers, InPartition disk b.dev b.block ∧ place disk b.dev b.block < 2147483648

/-- `buffer_cleanup` lays the buffers over the file. -/
lemma cleanupFrom_eq (pos : ℕ) (file : Store) {bs : List BUFFER}
    (hvalid : ∀ b ∈ bs, place disk b.dev b.block < 2147483648) :
    cleanupFrom disk pos file bs = overlay file (runs disk bs) := by
  induction bs generalizing pos file with
  | nil => rfl
  | cons b bs ih =>
    rw [cleanupFrom, fseek_eq (hvalid b (by simp)) pos]
    exact ih _ _ fun c hc => hvalid c (by simp [hc])

lemma Stands.cleanup (h : Stands disk s image) : bufferCleanup disk s = image := by
  rw [bufferCleanup, cleanupFrom_eq s.pos s.file fun b hb => (h.valid b hb).2]
  exact h.overlay_eq

/-- The runs of the other buffers are apart from that of `b`. -/
lemma apart_of_nodup {pre post : List BUFFER} {b : BUFFER}
    (hnd : ((pre ++ b :: post).map BUFFER.block).Nodup)
    (hvalid : ∀ c ∈ pre ++ b :: post, InPartition disk c.dev c.block) :
    ∀ r ∈ runs disk post, Apart (bufferRun disk b) r := by
  intro r hr
  obtain ⟨c, hc, rfl⟩ := List.mem_map.mp hr
  have hne : b.block ≠ c.block := by
    rw [List.map_append, List.map_cons] at hnd
    intro he
    have hnot := (List.nodup_cons.mp (List.nodup_append'.mp hnd).2.1).1
    exact hnot (he ▸ List.mem_map_of_mem hc)
  have hplace := place_apart (hvalid b (by simp)) (hvalid c (by simp [hc])) fun _ => hne
  simpa only [Apart, bufferRun, b.buf.2, c.buf.2] using hplace

/-- The run of one buffer may be written last. -/
lemma overlay_buffer {pre post : List BUFFER} {b : BUFFER} (file : Store)
    (hnd : ((pre ++ b :: post).map BUFFER.block).Nodup)
    (hvalid : ∀ c ∈ pre ++ b :: post, InPartition disk c.dev c.block) :
    overlay file (runs disk (pre ++ b :: post)) =
      writeBytes (overlay file (runs disk (pre ++ post))) (place disk b.dev b.block) b.buf.1 := by
  simp only [runs, List.map_append, List.map_cons]
  exact overlay_middle file (apart_of_nodup hnd hvalid)

lemma overwrite_append {pre post : List BUFFER} {b : BUFFER} (data : Data)
    (hnot : ∀ c ∈ pre, c.block ≠ b.block) :
    overwrite data b.block (pre ++ b :: post) = pre ++ { b with buf := data } :: post := by
  induction pre with
  | nil => rw [List.nil_append, overwrite, if_pos rfl, List.nil_append]
  | cons c pre ih =>
    rw [List.cons_append, overwrite, if_neg (hnot c (by simp)),
      ih fun d hd => hnot d (by simp [hd])]
    rfl

/-! ## Calls -/

lemma fread_val (file : Store) (pos : ℕ) :
    (fread file pos).1 = readBytes file pos BLOCK_SIZE := by
  rw [fread]

/-- What was read from a place may be written there. -/
lemma writeBytes_fread (image : Store) (pos : ℕ) :
    writeBytes image pos (fread image pos).1 = image := by
  rw [fread_val]
  exact writeBytes_readBytes image pos BLOCK_SIZE

/-- The data of a buffer is what the image holds. -/
lemma Stands.buf_eq (h : Stands disk s image) {b : BUFFER} (hb : b ∈ s.buffers) :
    b.buf = fread image (place disk b.dev b.block) := by
  obtain ⟨pre, post, hsplit⟩ := List.append_of_mem hb
  have hnd := h.nodup
  have hvalid := fun c hc => (h.valid c hc).1
  have himage := h.overlay_eq
  rw [hsplit] at hnd hvalid himage
  rw [overlay_buffer s.file hnd hvalid] at himage
  apply Subtype.ext
  have hread := readBytes_writeBytes (overlay s.file (runs disk (pre ++ post)))
    (place disk b.dev b.block) b.buf.1
  rw [himage, b.buf.2] at hread
  rw [fread_val, hread]

/-- The bytes of a block without a buffer are those of the file. -/
lemma Stands.fread_eq (h : Stands disk s image) (hin : InPartition disk dev block)
    (hnone : ∀ b ∈ s.buffers, b.block ≠ block) :
    fread s.file (place disk dev block) = fread image (place disk dev block) := by
  apply Subtype.ext
  rw [fread_val, fread_val, ← h.overlay_eq, readBytes_overlay]
  intro r hr
  obtain ⟨b, hb, rfl⟩ := List.mem_map.mp hr
  have hplace := place_apart hin (h.valid b hb).1 fun _ => (hnone b hb).symm
  simpa only [bufferRun, b.buf.2] using hplace

lemma bufferRead_stands (h : Stands disk s image) (hin : InPartition disk dev block)
    (hplace : place disk dev block < 2147483648)
    (hdev : ∀ b ∈ s.buffers, b.block = block → b.dev = dev) :
    (bufferRead disk s dev block).1 = fread image (place disk dev block) ∧
      Stands disk (bufferRead disk s dev block).2 image := by
  rw [bufferRead]
  cases hfind : s.buffers.find? (·.block = block) with
  | some b =>
    have hb := List.mem_of_find?_eq_some hfind
    have hblock : b.block = block := by simpa using List.find?_some hfind
    have hbuf := h.buf_eq hb
    rw [hblock, hdev b hb hblock] at hbuf
    exact ⟨hbuf, h⟩
  | none =>
    have hnone : ∀ b ∈ s.buffers, b.block ≠ block := fun b hb => by
      simpa using List.find?_eq_none.mp hfind b hb
    have hdata := h.fread_eq hin hnone
    dsimp only
    rw [fseek_eq hplace, hdata]
    refine ⟨rfl, ?_⟩
    by_cases hcount : s.buffers.length < MAX_BUFFER
    · rw [if_pos hcount]
      refine ⟨?_, ?_, ?_⟩
      · simp only [runs, List.map_append, List.map_singleton]
        rw [overlay_concat, ← runs, h.overlay_eq, bufferRun, writeBytes_fread]
      · rw [List.map_append, List.map_singleton]
        refine List.nodup_append'.mpr ⟨h.nodup, List.nodup_singleton _, fun n hn hn' => ?_⟩
        obtain ⟨b, hb, rfl⟩ := List.mem_map.mp hn
        exact hnone b hb (List.mem_singleton.mp hn')
      · intro b hb
        rcases List.mem_append.mp hb with hb | hb
        · exact h.valid b hb
        · obtain rfl := List.mem_singleton.mp hb
          exact ⟨hin, hplace⟩
    · rw [if_neg hcount]
      exact ⟨h.overlay_eq, h.nodup, h.valid⟩

lemma bufferWrite_stands (h : Stands disk s image) (data : Data)
    (hdev : ∀ b ∈ s.buffers, b.block = block → b.dev = dev)
    (hbuffer : ∃ b ∈ s.buffers, b.block = block) :
    Stands disk (bufferWrite s block data).2
      (writeBytes image (place disk dev block) data.1) := by
  obtain ⟨b, hb, rfl⟩ := hbuffer
  obtain rfl := hdev b hb rfl
  obtain ⟨pre, post, hsplit⟩ := List.append_of_mem hb
  have hnd := h.nodup
  have hvalid := h.valid
  have himage := h.overlay_eq
  rw [hsplit] at hnd hvalid himage
  have hnot : ∀ c ∈ pre, c.block ≠ b.block := by
    rw [List.map_append, List.map_cons] at hnd
    exact fun c hc he => (List.nodup_append'.mp hnd).2.2 (List.mem_map_of_mem hc)
      (he ▸ List.mem_cons_self)
  have hvalid' : ∀ c ∈ pre ++ { b with buf := data } :: post,
      InPartition disk c.dev c.block ∧ place disk c.dev c.block < 2147483648 := by
    intro c hc
    rcases List.mem_append.mp hc with hc | hc
    · exact hvalid c (by simp [hc])
    · rcases List.mem_cons.mp hc with rfl | hc
      · exact hvalid b (by simp)
      · exact hvalid c (by simp [hc])
  have hnd' : ((pre ++ { b with buf := data } :: post).map BUFFER.block).Nodup := by
    simpa using hnd
  rw [overlay_buffer s.file hnd fun c hc => (hvalid c hc).1] at himage
  rw [bufferWrite, hsplit, overwrite_append data hnot]
  refine ⟨?_, hnd', hvalid'⟩
  change overlay s.file (runs disk (pre ++ { b with buf := data } :: post)) = _
  rw [overlay_buffer s.file hnd' fun c hc => (hvalid' c hc).1, ← himage,
    writeBytes_writeBytes _ _ (b.buf.2.trans data.2.symm)]

/-- A call in the partitions that meets its condition answers as the plain store does. -/
lemma call_stands (h : Stands disk s image) {e : Event} (hproper : Proper disk e)
    (hok : StepOk disk s e) :
    (call disk s e).1 = (plainCall disk image e).1 ∧
      Stands disk (call disk s e).2 (plainCall disk image e).2 := by
  cases e with
  | read dev block =>
    obtain ⟨hdata, hstands⟩ := bufferRead_stands h hproper hok.1 hok.2
    exact ⟨congrArg Output.data hdata, hstands⟩
  | write dev block data => exact ⟨rfl, bufferWrite_stands h data hok.2.1 hok.2.2⟩

/-! ## Runs -/

/-- In every run whose calls meet their conditions, reads return the data last written, and the
image in the end is that of the plain store. -/
theorem refines_of_guarded (disk : Disk) (image : Store) (pos : ℕ) {es : List Event}
    (h : Guarded (next (call disk)) (fun s e => Proper disk e ∧ StepOk disk s e)
      ⟨image, pos, []⟩ es) : Refines disk image pos es := by
  have hstart : Stands disk ⟨image, pos, []⟩ image := ⟨rfl, List.nodup_nil, nofun⟩
  obtain ⟨houts, hstands⟩ := h.simulation (Stands disk)
    (fun s t e hst hok => call_stands hst hok.1 hok.2) hstart
  exact ⟨houts, hstands.cleanup⟩

/-- The first block that is read gets a buffer. -/
lemma bufferRead_empty (disk : Disk) (file : Store) (pos : ℕ) (dev : UInt16) (block : UInt32) :
    (bufferRead disk ⟨file, pos, []⟩ dev block).2.buffers =
      [⟨block, fread file (fseek pos (position disk dev block)), dev⟩] := by
  simp [bufferRead, MAX_BUFFER]

/-- Two partitions of four sectors each. -/
def twoPartitions : Disk where
  drives i := if i = 1 then ⟨1, 4⟩ else if i = 2 then ⟨5, 4⟩ else ⟨0, 0⟩
  size := 9 * 512
  inside := by decide
  apart := by decide

def filled (b : UInt8) : Data := ⟨List.replicate BLOCK_SIZE b, List.length_replicate⟩

/-- A block of the first partition is read and then written. -/
theorem refines_of_guarded_readWrite :
    Refines twoPartitions (fun _ => 0) 0 [.read 1 1, .write 1 1 (filled 7)] := by
  have hproper : InPartition twoPartitions 1 1 := ⟨by decide, by decide⟩
  have hplace : place twoPartitions 1 1 < 2147483648 := by decide
  have hread := bufferRead_empty twoPartitions (fun _ => 0) 0 1 1
  refine refines_of_guarded twoPartitions (fun _ => 0) 0 ?_
  simp only [Guarded, Proper, StepOk, next, call, hread, hproper, hplace, true_and, and_true]
  exact ⟨by simp, fun b hb _ => by rw [List.mem_singleton.mp hb], _, List.mem_singleton.mpr rfl,
    rfl⟩

/-- A block that is written without being read before is dropped, and the result is 0. -/
theorem not_refines_dropped : ¬ ∀ (disk : Disk) (image : Store) (pos : ℕ) (es : List Event),
    Guarded (next (call disk)) (fun _ e => Proper disk e) ⟨image, pos, []⟩ es →
      Refines disk image pos es := by
  intro h
  obtain ⟨-, himage⟩ := h twoPartitions (fun _ => 0) 0 [.write 1 0 (filled 7)]
    ⟨⟨by decide, by decide⟩, trivial⟩
  have hlength : 0 < (filled 7).1.length := by
    rw [(filled 7).2]
    decide
  have hbyte := congrFun himage (place twoPartitions 1 0 + 0)
  simp only [run_cons, run_nil, next, call, plainCall, bufferWrite, overwrite, bufferCleanup,
    cleanupFrom] at hbyte
  rw [writeBytes_inside _ _ _ hlength] at hbyte
  simp [filled] at hbyte

end Sgos.ImageBuffer
