import Sgos.ByteBuffer

/-!
# The relocations of an image

The loop of `translate_pe` in `tools/ld2/ld2.c` that collects the addresses to relocate. The image
is a block of memory and addresses are offsets in it. A `none` result is an access outside of the
image or behind the end of the buffer that the addresses go to.
-/
namespace Sgos.Relocation
open ByteBuffer

def IMAGE_REL_BASED_HIGHLOW : ℕ := 3

/-- `sizeof(IMAGE_BASE_RELOCATION)`: the address, the size and the first entry of a block. -/
def SIZEOF_IMAGE_BASE_RELOCATION : UInt32 := 10

/-- The number of `width` bytes at an address of the image. -/
def load (width : ℕ) (image : List UInt8) (p : ℕ) : Option ℕ :=
  (readNat width (image.drop p)).map Prod.fst

/-! ## The loop -/

/-- `rel_end` for a directory of `size` bytes at `rva`. -/
def directoryEnd (rva size : ℕ) : ℕ :=
  rva + size / SIZEOF_IMAGE_BASE_RELOCATION.toNat * SIZEOF_IMAGE_BASE_RELOCATION.toNat

section Loop
variable (image : List UInt8)

/-- `*p = value; p++;`. The buffer `nb` has as many bytes as the image. -/
def emit (nb : List UInt32) (value : UInt32) : Option (List UInt32) :=
  if 4 * (nb.length + 1) ≤ image.length then some (nb ++ [value]) else none

/-- The inner loop over `count` entries from `p` on. -/
def collect (virtualAddress : UInt32) : ℕ → ℕ → List UInt32 → Option (List UInt32)
  | 0, _, nb => some nb
  | count + 1, p, nb => do
    let rel ← load 2 image p
    let type := rel / 4096
    let value := rel % 4096
    let nb ← if type = IMAGE_REL_BASED_HIGHLOW
      then emit image nb (virtualAddress + UInt32.ofNat value) else some nb
    collect virtualAddress count (p + 2) nb

/-- What `count_reloc` comes to. -/
def countReloc (sizeOfBlock : UInt32) : ℕ :=
  ((sizeOfBlock - SIZEOF_IMAGE_BASE_RELOCATION) / 2).toNat

/-- The outer loop; `fuel` bounds the number of blocks. The inner loop starts at entry -1, which is
the one in the structure. -/
def relocations (relEnd : ℕ) : ℕ → ℕ → List UInt32 → Option (List UInt32)
  | 0, _, _ => none
  | fuel + 1, relEnt, nb =>
      if relEnt < relEnd then do
        let virtualAddress ← load 4 image relEnt
        if virtualAddress = 0 then some nb
        else do
          let sizeOfBlock ← load 4 image (relEnt + 4)
          let nb ← collect image (.ofNat virtualAddress)
            (countReloc (.ofNat sizeOfBlock) + 1) (relEnt + 8) nb
          relocations relEnd fuel (relEnt + sizeOfBlock) nb
      else some nb

/-- The addresses for a directory of `size` bytes at `rva`. -/
def translateRelocations (fuel rva size : ℕ) : Option (List UInt32) :=
  relocations image (directoryEnd rva size) fuel rva []

end Loop

/-! ## The directory -/

structure Block where
  virtualAddress : ℕ
  sizeOfBlock : ℕ
  entries : List ℕ

/-- The addresses that some entries of a block ask to relocate. -/
def targets (virtualAddress : ℕ) (entries : List ℕ) : List UInt32 :=
  (entries.filter fun rel => rel / 4096 = IMAGE_REL_BASED_HIGHLOW).map fun rel =>
    .ofNat virtualAddress + .ofNat (rel % 4096)

def Block.addresses (b : Block) : List UInt32 := targets b.virtualAddress b.entries

/-- The entries in the `count` half words from `p` on. -/
def loadEntries (image : List UInt8) : ℕ → ℕ → Option (List ℕ)
  | 0, _ => some []
  | count + 1, p => do
    let rel ← load 2 image p
    let rest ← loadEntries image count (p + 2)
    some (rel :: rest)

/-- A block at `p`: its header, and as many entries as its size says. -/
structure BlockAt (image : List UInt8) (p : ℕ) (b : Block) : Prop where
  virtualAddress_eq : load 4 image p = some b.virtualAddress
  virtualAddress_ne : b.virtualAddress ≠ 0
  sizeOfBlock_eq : load 4 image (p + 4) = some b.sizeOfBlock
  header_le : 8 ≤ b.sizeOfBlock
  entries_eq : loadEntries image ((b.sizeOfBlock - 8) / 2) (p + 8) = some b.entries

/-- The blocks from `p` on, before the terminating one: the first that is not in front of `relEnd`
or has no address. -/
inductive Blocks (image : List UInt8) (relEnd : ℕ) : ℕ → List Block → Prop
  | ends {p : ℕ} (h : relEnd ≤ p) : Blocks image relEnd p []
  | zero {p : ℕ} (h : p < relEnd) (hzero : load 4 image p = some 0) : Blocks image relEnd p []
  | block {p : ℕ} {b : Block} {bs : List Block} (h : p < relEnd) (hb : BlockAt image p b)
      (hbs : Blocks image relEnd (p + b.sizeOfBlock) bs) : Blocks image relEnd p (b :: bs)

/-- The addresses of all blocks, in order. -/
def addresses (bs : List Block) : List UInt32 := bs.flatMap Block.addresses


/-! ## One block -/
section Law
variable {image : List UInt8} {relEnd p : ℕ} {nb : List UInt32}

lemma load_eq_some {width v : ℕ} (h : load width image p = some v) :
    (0 < width → p + width ≤ image.length) ∧ v < 256 ^ width := by
  obtain ⟨r, hr, rfl⟩ := Option.map_eq_some_iff.mp h
  obtain ⟨bytes, hbytes, rfl⟩ := Option.map_eq_some_iff.mp hr
  rw [ByteBuffer.read] at hbytes
  split_ifs at hbytes with hle
  obtain rfl := Option.some.inj hbytes
  rw [List.length_drop] at hle
  refine ⟨fun _ => by omega, ?_⟩
  have hlt := ofLittleEndian_lt ((image.drop p).take width)
  rwa [List.length_take_of_le (by rwa [List.length_drop])] at hlt

/-- Entries are read up to the end of the image. -/
lemma loadEntries_le {count : ℕ} {entries : List ℕ}
    (h : loadEntries image count p = some entries) (hcount : 0 < count) :
    p + 2 * count ≤ image.length := by
  induction count generalizing p entries with
  | zero => omega
  | succ count ih =>
    rw [loadEntries] at h
    obtain ⟨rel, hrel, hrest⟩ := Option.bind_eq_some_iff.mp h
    obtain ⟨rest, hrest, -⟩ := Option.bind_eq_some_iff.mp hrest
    have hp := (load_eq_some hrel).1 (by decide)
    rcases Nat.eq_zero_or_pos count with rfl | hpos
    · omega
    · have := ih hrest hpos
      omega

lemma emit_eq_some {value : UInt32} {out : List UInt32} :
    emit image nb value = some out ↔ out = nb ++ [value] ∧ 4 * out.length ≤ image.length := by
  rw [emit]
  split_ifs with h
  · constructor
    · rintro hout
      obtain rfl := Option.some.inj hout
      exact ⟨rfl, by simpa using h⟩
    · rintro ⟨rfl, -⟩
      rfl
  · refine ⟨nofun, ?_⟩
    rintro ⟨rfl, hle⟩
    exact absurd (by simpa using hle) h

/-- The inner loop gets through if all entries are in the image and the buffer has room. -/
lemma collect_eq_some {virtualAddress count : ℕ} {out : List UInt32}
    (hnb : 4 * nb.length ≤ image.length) :
    collect image (.ofNat virtualAddress) count p nb = some out ↔
      ∃ entries, loadEntries image count p = some entries ∧
        out = nb ++ targets virtualAddress entries ∧ 4 * out.length ≤ image.length := by
  induction count generalizing p nb with
  | zero =>
    constructor
    · intro h
      obtain rfl := Option.some.inj h
      exact ⟨[], rfl, by simp [targets], hnb⟩
    · rintro ⟨entries, he, rfl, -⟩
      obtain rfl := Option.some.inj he
      simp [collect, targets]
  | succ count ih =>
    rw [collect, loadEntries]
    cases hrel : load 2 image p with
    | none => simp
    | some rel =>
      simp only [Option.bind_eq_bind, Option.bind_some]
      by_cases htype : rel / 4096 = IMAGE_REL_BASED_HIGHLOW
      · have htargets : ∀ rest, targets virtualAddress (rel :: rest) =
            (.ofNat virtualAddress + .ofNat (rel % 4096)) :: targets virtualAddress rest := by
          intro rest
          simp [targets, htype]
        rw [if_pos htype]
        constructor
        · intro h
          obtain ⟨nb', hemit, hcollect⟩ := Option.bind_eq_some_iff.mp h
          obtain ⟨rfl, hle⟩ := emit_eq_some.mp hemit
          obtain ⟨rest, hrest, rfl, hout⟩ := (ih hle).mp hcollect
          refine ⟨rel :: rest, by rw [hrest]; rfl, ?_, hout⟩
          rw [htargets, List.append_assoc, List.singleton_append]
        · rintro ⟨entries, hentries, hout, hroom⟩
          obtain ⟨rest, hrest, he⟩ := Option.bind_eq_some_iff.mp hentries
          obtain rfl := Option.some.inj he
          rw [htargets, List.append_cons] at hout
          have hle : 4 * (nb ++ [UInt32.ofNat virtualAddress + .ofNat (rel % 4096)]).length ≤
              image.length := by
            rw [hout, List.length_append] at hroom
            omega
          refine Option.bind_eq_some_iff.mpr ⟨_, emit_eq_some.mpr ⟨rfl, hle⟩, ?_⟩
          exact (ih hle).mpr ⟨rest, hrest, hout, hroom⟩
      · have htargets : ∀ rest, targets virtualAddress (rel :: rest) =
            targets virtualAddress rest := by
          intro rest
          simp [targets, htype]
        rw [if_neg htype]
        refine (ih hnb).trans ?_
        constructor
        · rintro ⟨rest, hrest, rfl, hout⟩
          exact ⟨rel :: rest, by rw [hrest]; rfl, by rw [htargets], hout⟩
        · rintro ⟨entries, hentries, rfl, hout⟩
          obtain ⟨rest, hrest, he⟩ := Option.bind_eq_some_iff.mp hentries
          obtain rfl := Option.some.inj he
          rw [htargets] at hout ⊢
          exact ⟨rest, hrest, rfl, hout⟩

/-- Without room for its first entry in the size of a block, the count wraps. -/
lemma countReloc_eq {n : ℕ} (hn : n < 4294967296) :
    countReloc (.ofNat n) + 1 = if 10 ≤ n then (n - 8) / 2 else (n + 4294967296 - 8) / 2 := by
  have hsize : SIZEOF_IMAGE_BASE_RELOCATION.toNat = 10 := rfl
  have htoNat : (UInt32.ofNat n).toNat = n := UInt32.toNat_ofNat_of_lt' hn
  rw [countReloc, UInt32.toNat_div, UInt32.toNat_sub, htoNat, hsize,
    show (2 : UInt32).toNat = 2 from rfl]
  split_ifs <;> omega

/-- The inner loop over a block with a header in the image: it reads the entries of the block, and
in a block without room for its first one it leaves the image. -/
lemma collect_block {virtualAddress sizeOfBlock : ℕ} {out : List UInt32}
    (hlength : image.length < 4294967296) (hsize : sizeOfBlock < 4294967296)
    (hnb : 4 * nb.length ≤ image.length) :
    collect image (.ofNat virtualAddress) (countReloc (.ofNat sizeOfBlock) + 1) (p + 8) nb =
        some out ↔
      10 ≤ sizeOfBlock ∧ ∃ entries,
        loadEntries image ((sizeOfBlock - 8) / 2) (p + 8) = some entries ∧
        out = nb ++ targets virtualAddress entries ∧ 4 * out.length ≤ image.length := by
  rw [collect_eq_some hnb, countReloc_eq hsize]
  by_cases hten : 10 ≤ sizeOfBlock
  · rw [if_pos hten]
    exact (and_iff_right hten).symm
  · rw [if_neg hten]
    refine iff_of_false ?_ fun h => hten h.1
    rintro ⟨entries, hentries, -⟩
    have := loadEntries_le hentries (by omega)
    omega

/-! ## The directory as a whole -/

/-- A loop that ends has gone through the blocks of the directory, each with room for an entry. -/
lemma exists_blocks (hlength : image.length < 4294967296) {fuel : ℕ} {out : List UInt32}
    (hnb : 4 * nb.length ≤ image.length) (h : relocations image relEnd fuel p nb = some out) :
    ∃ bs, Blocks image relEnd p bs ∧ (∀ b ∈ bs, 10 ≤ b.sizeOfBlock) ∧ out = nb ++ addresses bs ∧
      4 * out.length ≤ image.length := by
  induction fuel generalizing p nb with
  | zero => cases h
  | succ fuel ih =>
    rw [relocations] at h
    by_cases hp : p < relEnd
    · rw [if_pos hp] at h
      obtain ⟨virtualAddress, hva, h⟩ := Option.bind_eq_some_iff.mp h
      by_cases hzero : virtualAddress = 0
      · rw [if_pos hzero] at h
        obtain rfl := Option.some.inj h
        exact ⟨[], .zero hp (hzero ▸ hva), by simp, by simp [addresses], hnb⟩
      · rw [if_neg hzero] at h
        obtain ⟨sizeOfBlock, hsize, h⟩ := Option.bind_eq_some_iff.mp h
        obtain ⟨nb', hcollect, h⟩ := Option.bind_eq_some_iff.mp h
        obtain ⟨hten, entries, hentries, rfl, hnb'⟩ :=
          (collect_block hlength (load_eq_some hsize).2 hnb).mp hcollect
        obtain ⟨bs, hbs, hall, rfl, hout⟩ := ih hnb' h
        refine ⟨⟨virtualAddress, sizeOfBlock, entries⟩ :: bs, .block hp
          ⟨hva, hzero, hsize, show 8 ≤ sizeOfBlock by omega, hentries⟩ hbs, ?_, ?_, hout⟩
        · intro b hb
          rcases List.mem_cons.mp hb with rfl | hb
          · exact hten
          · exact hall b hb
        · simp [addresses, Block.addresses]
    · rw [if_neg hp] at h
      obtain rfl := Option.some.inj h
      exact ⟨[], .ends (not_lt.mp hp), by simp, by simp [addresses], hnb⟩

/-- When every block has room for an entry and the buffer has room for all addresses, the loop
ends with these addresses. -/
lemma relocations_of_blocks (hlength : image.length < 4294967296) {bs : List Block}
    (hbs : Blocks image relEnd p bs) (hall : ∀ b ∈ bs, 10 ≤ b.sizeOfBlock)
    (hroom : 4 * (nb ++ addresses bs).length ≤ image.length) :
    relocations image relEnd (bs.length + 1) p nb = some (nb ++ addresses bs) := by
  induction hbs generalizing nb with
  | ends h => simp [relocations, not_lt.mpr h, addresses]
  | zero h hzero => simp [relocations, h, hzero, addresses]
  | @block p b bs h hb hbs ih =>
    have hsplit : nb ++ addresses (b :: bs) =
        (nb ++ targets b.virtualAddress b.entries) ++ addresses bs := by
      simp [addresses, Block.addresses]
    rw [hsplit] at hroom ⊢
    have hle : 4 * (nb ++ targets b.virtualAddress b.entries).length ≤ image.length := by
      simp only [List.length_append] at hroom ⊢
      omega
    have hnb : 4 * nb.length ≤ image.length := by
      rw [List.length_append] at hle
      omega
    have hcollect := (collect_block hlength (load_eq_some hb.sizeOfBlock_eq).2 hnb).mpr
      ⟨hall b (by simp), b.entries, hb.entries_eq, rfl, hle⟩
    have hrest := ih (fun c hc => hall c (by simp [hc])) hroom
    rw [relocations, if_pos h, hb.virtualAddress_eq, hb.sizeOfBlock_eq]
    simp only [Option.bind_eq_bind, Option.bind_some, if_neg hb.virtualAddress_ne, hcollect]
    exact hrest

lemma BlockAt.unique {b c : Block} (hb : BlockAt image p b) (hc : BlockAt image p c) : b = c := by
  have hva := Option.some.inj (hb.virtualAddress_eq.symm.trans hc.virtualAddress_eq)
  have hsize := Option.some.inj (hb.sizeOfBlock_eq.symm.trans hc.sizeOfBlock_eq)
  have hentries := hb.entries_eq
  rw [hsize] at hentries
  have hentries := Option.some.inj (hentries.symm.trans hc.entries_eq)
  cases b
  cases c
  simp_all

lemma Blocks.unique {bs cs : List Block} (hbs : Blocks image relEnd p bs)
    (hcs : Blocks image relEnd p cs) : bs = cs := by
  induction hbs generalizing cs with
  | ends h =>
    cases hcs with
    | ends => rfl
    | zero => rfl
    | block h' => omega
  | zero h hzero =>
    cases hcs with
    | ends => rfl
    | zero => rfl
    | block _ hc =>
      exact absurd (Option.some.inj (hc.virtualAddress_eq.symm.trans hzero)) hc.virtualAddress_ne
  | block h hb _ ih =>
    cases hcs with
    | ends h' => omega
    | zero _ hzero =>
      exact absurd (Option.some.inj (hb.virtualAddress_eq.symm.trans hzero)) hb.virtualAddress_ne
    | block _ hc hcs =>
      obtain rfl := hb.unique hc
      rw [ih hcs]

end Law

/-- The loop ends, and it has collected the addresses of all blocks of the directory in order. -/
def Extracts (image : List UInt8) (rva size : ℕ) : Prop :=
  ∃ fuel nb, translateRelocations image fuel rva size = some nb ∧
    ∀ bs, Blocks image (directoryEnd rva size) rva bs → nb = addresses bs

/-- The blocks of the directory lie in the image, each has room for at least one entry, and their
addresses take no more bytes than the image. -/
def WellFormed (image : List UInt8) (rva size : ℕ) : Prop :=
  ∃ bs, Blocks image (directoryEnd rva size) rva bs ∧ (∀ b ∈ bs, 10 ≤ b.sizeOfBlock) ∧
    4 * (addresses bs).length ≤ image.length

/-- The relocations of an image are extracted exactly if its directory is well formed. -/
theorem extracts_iff {image : List UInt8} (hlength : image.length < 4294967296) (rva size : ℕ) :
    Extracts image rva size ↔ WellFormed image rva size := by
  constructor
  · rintro ⟨fuel, nb, hnb, -⟩
    obtain ⟨bs, hbs, hall, rfl, hroom⟩ := exists_blocks hlength (Nat.zero_le _) hnb
    exact ⟨bs, hbs, hall, hroom⟩
  · rintro ⟨bs, hbs, hall, hroom⟩
    refine ⟨bs.length + 1, addresses bs, relocations_of_blocks hlength hbs hall hroom, ?_⟩
    intro cs hcs
    rw [hbs.unique hcs]

/-- An image with a directory of one block at its end; the block has one entry. -/
def oneRelocation : List UInt8 :=
  [0, 0, 0, 0, 0, 0x10, 0, 0, 10, 0, 0, 0, 4, 0x30]

theorem extracts_iff_oneRelocation :
    Extracts oneRelocation 4 10 ↔ WellFormed oneRelocation 4 10 :=
  extracts_iff (by decide) 4 10

/-- An image with a directory of one block without entries. -/
def emptyBlock : List UInt8 := [0, 0x10, 0, 0, 8, 0, 0, 0, 0, 0]

/-- The count of an empty block wraps, and the loop runs out of the image. -/
theorem not_extracts : ¬ ∀ (image : List UInt8) (rva size : ℕ), image.length < 4294967296 →
    rva + size ≤ image.length → Extracts image rva size := by
  intro h
  have hextracts := h emptyBlock 0 10 (by decide) (by decide)
  obtain ⟨fuel, nb, hnb, -⟩ := hextracts
  obtain ⟨bs, hbs, hall, -⟩ := exists_blocks (by decide) (Nat.zero_le _) hnb
  have hva : load 4 emptyBlock 0 = some 0x1000 := by decide
  have hsize : load 4 emptyBlock 4 = some 8 := by decide
  cases hbs with
  | ends hend => exact absurd hend (by decide)
  | zero _ hzero => cases hva.symm.trans hzero
  | @block _ b _ _ hb =>
    have hten := hall b (by simp)
    have height := Option.some.inj (hb.sizeOfBlock_eq.symm.trans hsize)
    omega

end Sgos.Relocation
