import Sgos.SectorPages

/-!
# The law of the disk service

Which requests are answered without an access outside of the partition, and with a code that is
negative unless all sectors were transferred. The code never is.
-/
namespace Sgos.SectorService
open Paging MemoryRanges MappedStore RangeSwap

instance nontrivial_byte : Nontrivial UInt8 := ⟨0, 1, by decide⟩

/-! ## The addressed sector -/

lemma head_low (drive : Fin 2) (high : Fin 16) :
    (((0xe0 : UInt32) ||| (UInt32.ofNat drive.val <<< 4) ||| UInt32.ofNat high.val).toUInt8 &&&
      0xf).toNat = high.val := by
  revert drive high
  decide

lemma head_drive (drive : Fin 2) (high : Fin 16) :
    ((((0xe0 : UInt32) ||| (UInt32.ofNat drive.val <<< 4) |||
      UInt32.ofNat high.val).toUInt8 >>> 4) &&& 1).toNat = drive.val := by
  revert drive high
  decide

lemma high_bits (secStart : UInt32) :
    ((secStart &&& 0x0f000000) >>> 24) = UInt32.ofNat (secStart.toNat / 16777216 % 16) := by
  have hlt := secStart.toNat_lt
  apply UInt32.toNat_inj.mp
  rw [UInt32.toNat_ofNat_of_lt' (by rw [UInt32.size]; omega)]
  change (secStart.toNat &&& 0x0f000000) >>> 24 = _
  rw [Nat.shiftRight_and_distrib, Nat.shiftRight_eq_div_pow]
  exact Nat.and_two_pow_sub_one_eq_mod _ 4

section Ports
variable (secStart secCount : UInt32)

/-- The registers address the low 28 bits. -/
lemma registers_lba (drive : Fin 2) :
    (registers (UInt32.ofNat drive.val) secStart secCount).lba = secStart.toNat % 268435456 := by
  have hlow : secStart.toUInt8.toNat = secStart.toNat % 256 := rfl
  have hmid : (secStart >>> 8).toUInt8.toNat = secStart.toNat / 256 % 256 := by
    change secStart.toNat >>> 8 % 256 = _
    rw [Nat.shiftRight_eq_div_pow]
  have hhigh : (secStart >>> 16).toUInt8.toNat = secStart.toNat / 65536 % 256 := by
    change secStart.toNat >>> 16 % 256 = _
    rw [Nat.shiftRight_eq_div_pow]
  have hhead := head_low drive ⟨secStart.toNat / 16777216 % 16, Nat.mod_lt _ (by decide)⟩
  unfold Registers.lba registers
  dsimp only
  rw [hlow, hmid, hhigh, high_bits, hhead]
  dsimp only
  omega

lemma registers_drive (drive : Fin 2) :
    (registers (UInt32.ofNat drive.val) secStart secCount).drive = drive.val := by
  have hhead := head_drive drive ⟨secStart.toNat / 16777216 % 16, Nat.mod_lt _ (by decide)⟩
  unfold Registers.drive registers
  dsimp only
  rw [high_bits, hhead]

end Ports

/-! ## The loop -/

section Loop
variable {hd : Service} {drive secCount lba : ℕ} {buf : UInt32} {s : System} {write : Bool}

lemma add_ofNat (a : UInt32) (i j : ℕ) :
    a + UInt32.ofNat i + UInt32.ofNat j = a + UInt32.ofNat (i + j) := by
  rw [UInt32.ofNat_add, UInt32.add_assoc]

@[simp] lemma sectors_mm : (sectors hd write drive secCount lba buf s).mm = s.mm := by
  induction secCount generalizing lba buf s with
  | zero => rfl
  | succ n ih =>
    unfold sectors
    rw [ih]
    cases write <;> rfl

/-- The loop goes from sector to sector. -/
lemma mem_sectors_accessed {x : ℕ × ℕ} :
    x ∈ (sectors hd write drive secCount lba buf s).accessed ↔
      x ∈ s.accessed ∨ ∃ i < secCount, x = (drive, lba + i) := by
  induction secCount generalizing lba buf s with
  | zero => simp [sectors]
  | succ n ih =>
    have hstep : (if write then writeWords hd s drive lba buf
        else readWords hd s drive lba buf).accessed = (drive, lba) :: s.accessed := by
      cases write <;> rfl
    unfold sectors
    rw [ih, hstep, List.mem_cons, or_comm (a := x = _), or_assoc]
    refine or_congr_right ?_
    constructor
    · rintro (rfl | ⟨i, hi, rfl⟩)
      · exact ⟨0, by omega, rfl⟩
      · exact ⟨i + 1, by omega, by rw [Nat.add_assoc, Nat.add_comm 1]⟩
    · rintro ⟨i, hi, rfl⟩
      cases i with
      | zero => exact .inl rfl
      | succ i => exact .inr ⟨i, by omega, by rw [Nat.add_assoc, Nat.add_comm 1]⟩

@[simp] lemma sectors_read_disk :
    (sectors hd false drive secCount lba buf s).disk = s.disk := by
  induction secCount generalizing lba buf s with
  | zero => rfl
  | succ n ih =>
    unfold sectors
    rw [ih]
    rfl

/-- A read stores the bytes of all sectors one behind the other. -/
lemma sectors_read_memory :
    (sectors hd false drive secCount lba buf s).memory =
      store (fun i => byteAt s.mm.paging hd.space (buf + UInt32.ofNat i))
        (fun i => s.disk drive (lba + i / 512) (i % 512)) (secCount * 512) s.memory := by
  induction secCount generalizing lba buf s with
  | zero =>
    rw [Nat.zero_mul]
    rfl
  | succ n ih =>
    have hbuf : ∀ i, buf + 512 + UInt32.ofNat i = buf + UInt32.ofNat (512 + i) := fun i =>
      add_ofNat buf 512 i
    have hdiv : ∀ i, lba + 1 + i / 512 = lba + (512 + i) / 512 := by
      intro i
      omega
    have hmod : ∀ i, i % 512 = (512 + i) % 512 := by
      intro i
      omega
    have hfirst : store (fun i => byteAt s.mm.paging hd.space (buf + UInt32.ofNat i))
        (s.disk drive lba) 512 s.memory =
          store (fun i => byteAt s.mm.paging hd.space (buf + UInt32.ofNat i))
            (fun i => s.disk drive (lba + i / 512) (i % 512)) 512 s.memory := by
      refine store_congr fun i hi => ?_
      rw [Nat.div_eq_of_lt hi, Nat.mod_eq_of_lt hi]
      rfl
    unfold sectors
    rw [ih, Nat.succ_mul, Nat.add_comm (n * 512), store_add, ← hfirst]
    simp only [readWords, hbuf, hdiv, ← hmod, Bool.false_eq_true, if_false]

/-- A write changes the sectors it goes to, each byte to the one in the buffer. -/
lemma sectors_write_disk (d t i : ℕ) :
    (sectors hd true drive secCount lba buf s).disk d t i =
      if d = drive ∧ lba ≤ t ∧ t < lba + secCount then
        (byteAt s.mm.paging hd.space (buf + UInt32.ofNat ((t - lba) * 512 + i))).elim 0 s.memory
      else s.disk d t i := by
  induction secCount generalizing lba buf s with
  | zero =>
    rw [if_neg (by omega)]
    rfl
  | succ n ih =>
    unfold sectors
    rw [if_pos rfl, ih]
    by_cases hnext : d = drive ∧ lba + 1 ≤ t ∧ t < lba + 1 + n
    · have hindex : 512 + ((t - (lba + 1)) * 512 + i) = (t - lba) * 512 + i := by omega
      have haddr := add_ofNat buf 512 ((t - (lba + 1)) * 512 + i)
      rw [hindex] at haddr
      rw [if_pos hnext, if_pos (by omega), ← haddr]
      rfl
    · rw [if_neg hnext]
      by_cases hfirst : d = drive ∧ t = lba
      · obtain ⟨rfl, rfl⟩ := hfirst
        rw [if_pos (by omega), writeWords]
        dsimp only
        rw [Function.update_self, Function.update_self, Nat.sub_self, Nat.zero_mul, Nat.zero_add]
      · rw [if_neg (by omega), writeWords]
        dsimp only
        by_cases hd' : d = drive
        · have ht : t ≠ lba := fun ht => hfirst ⟨hd', ht⟩
          rw [hd', Function.update_self, Function.update_of_ne ht]
        · rw [Function.update_of_ne hd']

end Loop

/-! ## An answer -/

section Answer
variable {hd : Service} {msg : Message} {mm mm' : CopyOnWrite.State} {memory : Loc → UInt8}
  {disk : ℕ → ℕ → ℕ → UInt8}

/-- The drive and the first sector that a request addresses. -/
def driveOf (msg : Message) : ℕ := if msg.device.toUInt8 < 5 then 0 else 1

def firstSector (hd : Service) (msg : Message) : ℕ :=
  (msg.start + (hd.part msg.device.toUInt8).start).toNat % 268435456

lemma lbaRwSectors_eq (buf : UInt32) (write : Bool) (s : System) :
    lbaRwSectors hd msg.device.toUInt8 msg.start (secCount msg) buf write s =
      (0, sectors hd write (driveOf msg) (secCount msg).toNat (firstSector hd msg) buf s) := by
  have hregisters (drive : Fin 2) (secStart : UInt32) :
      sectors hd write (registers (UInt32.ofNat drive.val) secStart (secCount msg)).drive
          (secCount msg).toNat (registers (UInt32.ofNat drive.val) secStart (secCount msg)).lba buf
          s =
        sectors hd write drive.val (secCount msg).toNat (secStart.toNat % 268435456) buf s := by
    rw [registers_lba, registers_drive]
  unfold lbaRwSectors driveOf firstSector
  split_ifs with hdev
  · exact congrArg (Prod.mk 0) (hregisters 0 _)
  · exact congrArg (Prod.mk 0) (hregisters 1 _)

/-- What the answer to a request leaves. -/
structure Answer (hd : Service) (msg : Message) (mm mm' : CopyOnWrite.State)
    (memory : Loc → UInt8) (disk : ℕ → ℕ → ℕ → UInt8) (s' : System) : Prop where
  parsed : parse hd msg ⟨mm, memory, disk, []⟩ = some (0, s')
  spaces : s'.mm = mm'
  accessed : ∀ x, x ∈ s'.accessed ↔
    ∃ i < (secCount msg).toNat, x = (driveOf msg, firstSector hd msg + i)
  read : msg.command = .readSector → s'.disk = disk ∧ s'.memory =
    store (bufferByte hd mm.paging)
      (fun i => disk (driveOf msg) (firstSector hd msg + i / 512) (i % 512)) (siz msg).toNat memory
  write : msg.command = .writeSector → ∀ d t i, s'.disk d t i =
    if d = driveOf msg ∧ firstSector hd msg ≤ t ∧
        t < firstSector hd msg + (secCount msg).toNat then
      (bufferByte hd mm'.paging ((t - firstSector hd msg) * 512 + i)).elim 0 memory
    else disk d t i

variable (memory disk) in
/-- A request is answered with code 0 whenever the swap returns. -/
lemma parse_answer (hswap : ∀ s : System, s.mm = mm → ∃ result,
    sysSwapMemory hd s (spaceId msg.threadId) msg.large hd.bufferPage (siz msg) MAP_ADDRESS =
      some (result, { s with mm := mm' })) :
    ∃ s', Answer hd msg mm mm' memory disk s' := by
  cases hc : msg.command with
  | readSector =>
    obtain ⟨result, hs⟩ := hswap (sectors hd false (driveOf msg) (secCount msg).toNat
      (firstSector hd msg) hd.bufferPage ⟨mm, memory, disk, []⟩) sectors_mm
    refine ⟨{ sectors hd false (driveOf msg) (secCount msg).toNat (firstSector hd msg)
      hd.bufferPage ⟨mm, memory, disk, []⟩ with mm := mm' }, ?_, rfl, fun x => ?_, fun _ =>
      ⟨?_, ?_⟩, fun hw => ?_⟩
    · unfold parse
      rw [hc]
      dsimp only
      rw [← secCount, ← siz, lbaRwSectors_eq]
      dsimp only
      rw [hs]
      rfl
    · simp [mem_sectors_accessed]
    · simp
    · dsimp only
      rw [sectors_read_memory, toNat_siz]
      rfl
    · rw [hc] at hw
      cases hw
  | writeSector =>
    obtain ⟨result, hs⟩ := hswap ⟨mm, memory, disk, []⟩ rfl
    refine ⟨sectors hd true (driveOf msg) (secCount msg).toNat (firstSector hd msg) hd.bufferPage
      ⟨mm', memory, disk, []⟩, ?_, sectors_mm, fun x => ?_, fun hr => ?_, fun _ d t i => ?_⟩
    · unfold parse
      rw [hc]
      dsimp only
      rw [← secCount, ← siz, hs]
      exact congrArg some (lbaRwSectors_eq _ _ _)
    · simp [mem_sectors_accessed]
    · rw [hc] at hr
      cases hr
    · exact sectors_write_disk d t i

/-- The requested sectors lie in the partition of the device, and 28 bits address the first. -/
def InPartition (hd : Service) (msg : Message) : Prop :=
  ∃ drive p, partition hd msg.device = some (drive, p) ∧
    msg.start.toNat + msg.count.toNat ≤ p.sectors.toNat ∧
    p.start.toNat + msg.start.toNat < 268435456

/-- The pages of the service that are used map different frames. -/
def Spread (hd : Service) (msg : Message) (s : Paging.State) : Prop :=
  ∀ i < (siz msg).toNat, ∀ j < (siz msg).toNat, bufferByte hd s i = bufferByte hd s j → i = j

/-- When a request is served: its buffer is not stray, and if it asks for sectors, they lie in the
partition, the buffer of the service holds them all, and the swap delivers them. -/
structure Servable (hd : Service) (msg : Message) (mm : CopyOnWrite.State) : Prop where
  area : ¬Stray hd msg mm
  inside : msg.count ≠ 0 → InPartition hd msg
  fits : msg.count.toNat ≤ 128
  delivers : Delivers hd msg mm
  spread : msg.command = .readSector → Spread hd msg mm.paging

/-- The sectors that are accessed, and that all requested ones are transferred. -/
def Right (hd : Service) (msg : Message) (mm : CopyOnWrite.State) (memory : Loc → UInt8)
    (disk : ℕ → ℕ → ℕ → UInt8) (s' : System) : Prop :=
  (∀ i < (secCount msg).toNat, Inside hd msg.device (driveOf msg, firstSector hd msg + i)) ∧
    Transferred hd msg ⟨mm, memory, disk, []⟩ s'

/-- A request with a stray buffer is not answered. -/
lemma not_stray (hready : Ready hd msg mm) {code : Int32} {s' : System}
    (hparse : parse hd msg ⟨mm, memory, disk, []⟩ = some (code, s')) : ¬Stray hd msg mm := by
  intro hstray
  unfold parse at hparse
  cases hc : msg.command with
  | readSector =>
    rw [hc] at hparse
    dsimp only at hparse
    rw [← secCount, ← siz, lbaRwSectors_eq] at hparse
    dsimp only at hparse
    rw [hstray.swap hready sectors_mm] at hparse
    cases hparse
  | writeSector =>
    rw [hc] at hparse
    dsimp only at hparse
    rw [← secCount, ← siz, hstray.swap hready rfl] at hparse
    cases hparse

/-- What the answers leave decides whether a request is served. -/
lemma served_iff_right (h : Ready hd msg mm) (hstray : ¬Stray hd msg mm) :
    ∃ mm', Brings hd msg mm mm' ∧ ∃ answer : (Loc → UInt8) → (ℕ → ℕ → ℕ → UInt8) → System,
      (∀ memory disk, Answer hd msg mm mm' memory disk (answer memory disk)) ∧
        (Served hd msg mm ↔
          ∀ memory disk, Right hd msg mm memory disk (answer memory disk)) := by
  obtain ⟨mm', hbrings, -, hswap⟩ := h.swap hstray
  have hanswers memory disk := parse_answer memory disk hswap
  choose answer hanswer using hanswers
  refine ⟨mm', hbrings, answer, hanswer, fun hserved memory disk => ?_,
    fun hright memory disk => ?_⟩
  · obtain ⟨code, s', hparse, hinside, htransferred⟩ := hserved memory disk
    have ha := hanswer memory disk
    obtain ⟨rfl, he⟩ := Prod.mk.inj (Option.some.inj (ha.parsed.symm.trans hparse))
    rw [← he] at hinside htransferred
    exact ⟨fun i hi => hinside _ ((ha.accessed _).mpr ⟨i, hi, rfl⟩), htransferred (by decide)⟩
  · have ha := hanswer memory disk
    obtain ⟨hinside, htransferred⟩ := hright memory disk
    refine ⟨0, _, ha.parsed, fun x hx => ?_, fun _ => htransferred⟩
    obtain ⟨i, hi, rfl⟩ := (ha.accessed x).mp hx
    exact hinside i hi

lemma partition_some {drive : ℕ} {p : PARTITION_INFO}
    (h : partition hd msg.device = some (drive, p)) :
    drive = driveOf msg ∧ p = hd.part msg.device.toUInt8 := by
  unfold partition at h
  split_ifs at h with hdev
  obtain ⟨rfl, rfl⟩ := Prod.mk.inj (Option.some.inj h)
  rw [UInt32.lt_iff_toNat_lt] at hdev
  have hten : (10 : UInt32).toNat = 10 := by decide
  have hfive : (5 : UInt8).toNat = 5 := by decide
  have hlow : msg.device.toUInt8.toNat = msg.device.toNat % 256 := rfl
  refine ⟨?_, rfl⟩
  unfold driveOf
  split_ifs with hlt
  · rw [UInt8.lt_iff_toNat_lt] at hlt
    omega
  · rw [UInt8.lt_iff_toNat_lt] at hlt
    omega

lemma firstSector_eq (hd : Service) (msg : Message) :
    firstSector hd msg =
      ((hd.part msg.device.toUInt8).start.toNat + msg.start.toNat) % 268435456 := by
  unfold firstSector
  rw [UInt32.toNat_add]
  omega

/-- If all is transferred, whatever memory and disk hold, every requested sector is accessed. -/
lemma requested_accessed {answer : (Loc → UInt8) → (ℕ → ℕ → ℕ → UInt8) → System}
    (hanswer : ∀ memory disk, Answer hd msg mm mm' memory disk (answer memory disk))
    (h : ∀ memory disk, Transferred hd msg ⟨mm, memory, disk, []⟩ (answer memory disk)) {k : ℕ}
    (hk : k < msg.count.toNat) :
    let sector := (hd.part msg.device.toUInt8).start.toNat + msg.start.toNat + k
    firstSector hd msg ≤ sector ∧ sector < firstSector hd msg + (secCount msg).toNat := by
  intro sector
  have hk' : k * 512 < msg.count.toNat * 512 := by omega
  have hdiv : k * 512 / 512 = k := Nat.mul_div_cancel k (by decide)
  have hmod : k * 512 % 512 = 0 := Nat.mul_mod_left k 512
  by_contra hout
  cases hc : msg.command with
  | readSector =>
    -- two disks that differ in this sector only
    have ha₀ := hanswer (fun _ => 0) fun _ _ _ => 0
    have ha₁ := hanswer (fun _ => 0) fun _ t _ => if t = sector then 1 else 0
    obtain ⟨d₀, p₀, l₀, hp₀, hl₀⟩ := h (fun _ => 0) (fun _ _ _ => 0) _ hk'
    obtain ⟨d₁, p₁, l₁, hp₁, hl₁⟩ :=
      h (fun _ => 0) (fun _ t _ => if t = sector then 1 else 0) _ hk'
    obtain ⟨rfl, rfl⟩ := partition_some hp₁
    rw [hc] at hl₀ hl₁
    dsimp only at hl₀ hl₁
    rw [ha₀.spaces, (ha₀.read hc).1, (ha₀.read hc).2] at hl₀
    rw [ha₁.spaces, (ha₁.read hc).1, (ha₁.read hc).2, hdiv] at hl₁
    have hl : l₁ = l₀ := Option.some.inj (hl₁.1.symm.trans hl₀.1)
    have hsame : store (bufferByte hd mm.paging)
        (fun i => if firstSector hd msg + i / 512 = sector then (1 : UInt8) else 0)
        (siz msg).toNat (fun _ => 0) =
          store (bufferByte hd mm.paging) (fun _ => 0) (siz msg).toNat fun _ => 0 :=
      store_congr fun i hi => by
        rw [toNat_siz] at hi
        exact if_neg (by omega)
    obtain ⟨-, hone⟩ := hl₁
    obtain ⟨-, hnull⟩ := hl₀
    change _ = (0 : UInt8) at hnull
    change _ = (if sector = sector then (1 : UInt8) else 0) at hone
    rw [hsame, if_pos rfl, hl] at hone
    exact absurd (hone.symm.trans hnull) (by decide)
  | writeSector =>
    have ha := hanswer (fun _ => 0) fun _ _ _ => 1
    obtain ⟨d, p, l, hp, hl⟩ := h (fun _ => 0) (fun _ _ _ => 1) _ hk'
    obtain ⟨rfl, rfl⟩ := partition_some hp
    rw [hc] at hl
    dsimp only at hl
    rw [ha.write hc, hdiv, if_neg fun hin => hout hin.2] at hl
    exact absurd hl.2 (by decide)

/-- Where the requested sectors are accessed, they are transferred whatever memory and disk hold
exactly if the swap delivers them and no page of the service is used twice. -/
lemma transferred_iff (hbrings : Brings hd msg mm mm') {drive : ℕ} {p : PARTITION_INFO}
    (hp : partition hd msg.device = some (drive, p))
    (hlow : p.start.toNat + msg.start.toNat < 268435456) (hfits : msg.count.toNat ≤ 128)
    {answer : (Loc → UInt8) → (ℕ → ℕ → ℕ → UInt8) → System}
    (hanswer : ∀ memory disk, Answer hd msg mm mm' memory disk (answer memory disk)) :
    (∀ memory disk, Transferred hd msg ⟨mm, memory, disk, []⟩ (answer memory disk)) ↔
      Delivers hd msg mm ∧ (msg.command = .readSector → Spread hd msg mm.paging) := by
  obtain ⟨rfl, rfl⟩ := partition_some hp
  have hfirst : (hd.part msg.device.toUInt8).start.toNat + msg.start.toNat =
      firstSector hd msg := by
    rw [firstSector_eq, Nat.mod_eq_of_lt hlow]
  have hcount : (secCount msg).toNat = msg.count.toNat := by
    rw [toNat_secCount]
    omega
  have hsiz : msg.count.toNat * 512 = (siz msg).toNat := by rw [toNat_siz, hcount]
  have hbyte : ∀ i, (firstSector hd msg + i / 512 - firstSector hd msg) * 512 + i % 512 = i := by
    intro i
    rw [Nat.add_sub_cancel_left, Nat.div_add_mod']
  cases hc : msg.command with
  | readSector =>
    have htransferred : ∀ memory disk,
        Transferred hd msg ⟨mm, memory, disk, []⟩ (answer memory disk) ↔
          ∀ i < (siz msg).toNat, ∃ l, callerByte hd msg mm'.paging i = some l ∧
            store (bufferByte hd mm.paging)
              (fun i => disk (driveOf msg) (firstSector hd msg + i / 512) (i % 512))
              (siz msg).toNat memory l =
              disk (driveOf msg) (firstSector hd msg + i / 512) (i % 512) := by
      intro memory disk
      have ha := hanswer memory disk
      unfold Transferred
      rw [hsiz, hc, ha.spaces, (ha.read hc).1, (ha.read hc).2]
      refine forall₂_congr fun i _ => ⟨?_, ?_⟩
      · rintro ⟨d, q, l, hq, hl⟩
        obtain ⟨rfl, rfl⟩ := partition_some hq
        rw [hfirst] at hl
        exact ⟨l, hl⟩
      · rintro ⟨l, hl⟩
        refine ⟨_, _, l, hp, ?_⟩
        rw [hfirst]
        exact hl
    have hspread : (Command.readSector = .readSector → Spread hd msg mm.paging) ↔
        Spread hd msg mm.paging := ⟨fun h => h rfl, fun h _ => h⟩
    rw [hspread, ← hbrings.read, Spread, ← received_iff (V := UInt8)]
    constructor
    · intro h memory v
      have hv := (htransferred memory fun _ t i => v ((t - firstSector hd msg) * 512 + i)).mp
        (h memory _)
      simp only [hbyte] at hv
      exact hv
    · exact fun h memory disk => (htransferred memory disk).mpr (h memory _)
  | writeSector =>
    have htransferred : ∀ memory disk,
        Transferred hd msg ⟨mm, memory, disk, []⟩ (answer memory disk) ↔
          ∀ i < (siz msg).toNat, ∃ l, callerByte hd msg mm.paging i = some l ∧
            (bufferByte hd mm'.paging i).elim 0 memory = memory l := by
      intro memory disk
      have ha := hanswer memory disk
      unfold Transferred
      rw [hsiz, hc]
      refine forall₂_congr fun i hi => ?_
      have hdisk : (answer memory disk).disk (driveOf msg) (firstSector hd msg + i / 512)
          (i % 512) = (bufferByte hd mm'.paging i).elim 0 memory := by
        rw [ha.write hc, if_pos ⟨rfl, by omega, by rw [toNat_siz] at hi; omega⟩, hbyte]
      constructor
      · rintro ⟨d, q, l, hq, hl⟩
        obtain ⟨rfl, rfl⟩ := partition_some hq
        rw [hfirst] at hl
        exact ⟨l, hl.1, hdisk.symm.trans hl.2⟩
      · rintro ⟨l, hl, hbyte'⟩
        refine ⟨_, _, l, hp, ?_⟩
        rw [hfirst]
        exact ⟨hl, hdisk.trans hbyte'⟩
    have hspread : (Command.writeSector = .readSector → Spread hd msg mm.paging) ↔ True :=
      ⟨fun _ => trivial, fun _ he => absurd he (by decide)⟩
    rw [hspread, and_true, ← hbrings.write]
    constructor
    · intro h i hi
      obtain ⟨l, hl, -⟩ := (htransferred _ fun _ _ _ => 0).mp (h (fun _ => 0) _) i hi
      refine ⟨l, hl, (taken_iff _ l (0 : UInt8)).mp fun memory => ?_⟩
      obtain ⟨l', hl', he⟩ := (htransferred memory fun _ _ _ => 0).mp (h memory _) i hi
      rwa [Option.some.inj (hl.symm.trans hl')]
    · intro h memory disk
      refine (htransferred memory disk).mpr fun i hi => ?_
      obtain ⟨l, hl, hbuf⟩ := h i hi
      exact ⟨l, hl, by rw [hbuf, Option.elim_some]⟩

/-- A request is served exactly if its buffer lies in an area, the sectors it asks for lie in the
partition of its device, there are 128 of them at most, and the swap of pages delivers them. -/
theorem served_iff (h : Ready hd msg mm) : Served hd msg mm ↔ Servable hd msg mm := by
  by_cases hstray : Stray hd msg mm
  · refine ⟨fun hs => ?_, fun hs => absurd hstray hs.area⟩
    obtain ⟨code, s', hparse, -⟩ := hs (fun _ => 0) fun _ _ _ => 0
    exact absurd hstray (not_stray h hparse)
  obtain ⟨mm', hbrings, answer, hanswer, hserved⟩ := served_iff_right h hstray
  rw [hserved]
  have hcount := toNat_secCount msg
  have hfirst := firstSector_eq hd msg
  constructor
  · intro hright
    have htransferred := fun memory disk => (hright memory disk).2
    have hfits : msg.count.toNat ≤ 128 := by
      by_contra hlong
      have hlast := requested_accessed hanswer htransferred (k := 128) (by omega)
      have hzero := requested_accessed hanswer htransferred (k := 0) (by omega)
      dsimp only at hlast hzero
      omega
    by_cases hzero : msg.count = 0
    · have hsiz : (siz msg).toNat = 0 := by
        rw [toNat_siz, hcount, hzero]
        rfl
      refine ⟨hstray, fun hne => absurd hzero hne, hfits, ⟨fun _ i hi => ?_, fun _ i hi => ?_⟩,
        fun _ i hi => ?_⟩ <;> rw [hsiz] at hi <;> omega
    · have hpos : 0 < msg.count.toNat := by
        rw [Nat.pos_iff_ne_zero]
        exact fun h0 => hzero (UInt32.toNat_inj.mp h0)
      obtain ⟨hinside, -⟩ := hright (fun _ => 0) fun _ _ _ => 0
      obtain ⟨p, hp, hlow, -⟩ := hinside 0 (by omega)
      obtain ⟨q, hq, -, hhigh⟩ := hinside (msg.count.toNat - 1) (by omega)
      obtain ⟨-, rfl⟩ := partition_some hp
      obtain ⟨-, rfl⟩ := partition_some hq
      have hone := requested_accessed hanswer htransferred hpos
      dsimp only at hone hlow hhigh
      have h28 : (hd.part msg.device.toUInt8).start.toNat + msg.start.toNat < 268435456 := by omega
      obtain ⟨hdelivers, hspread⟩ :=
        (transferred_iff hbrings hp h28 hfits hanswer).mp htransferred
      exact ⟨hstray, fun _ => ⟨_, _, hp, by omega, h28⟩, hfits, hdelivers, hspread⟩
  · intro hservable memory disk
    by_cases hzero : msg.count = 0
    · refine ⟨fun i hi => ?_, fun i hi => ?_⟩
      · rw [hcount, hzero] at hi
        exact absurd hi (by simp)
      · rw [hzero] at hi
        exact absurd hi (by simp)
    · obtain ⟨drive, p, hp, hin, h28⟩ := hservable.inside hzero
      have htransferred := (transferred_iff hbrings hp h28 hservable.fits hanswer).mpr
        ⟨hservable.delivers, hservable.spread⟩
      obtain ⟨rfl, rfl⟩ := partition_some hp
      refine ⟨fun i hi => ⟨_, hp, ?_, ?_⟩, htransferred memory disk⟩
      · dsimp only
        omega
      · dsimp only
        omega

end Answer

/-! ## A service with one partition -/

lemma indexes_le_frames : 1024 ≤ 1048576 := by decide

/-- A caller and the service have one table each, with sixteen pages from 0x100000 on. -/
def twoBuffers : CopyOnWrite.State where
  heap _ := ⟨none, none, 0x100000, 0x10000, 7, CopyOnWrite.ALLOC_SWAP⟩
  paging :=
    { boot 0x1000 fun t i =>
        { PageTable.ofWord 7 with physicalAddress := t + i.castLE indexes_le_frames } with
      dir := fun d i =>
        if i.val = 768 then { tableEntry bootTable with user := false }
        else if i.val = 0 ∧ d = 1 then tableEntry (frameOf 0x500000)
        else if i.val = 0 ∧ d = 2 then tableEntry (frameOf 0x900000)
        else .zero
      pageRef := fun _ => 1 }

/-- The first partition of the first drive has 1000 sectors. -/
def oneDisk : Service where
  lists :=
    { user := fun _ => ⟨some 16, some 16, 0x100000, 0xC0000000⟩
      kernel := ⟨none, none, 0xC0400000, 0xE0000000⟩
      global := ⟨none, none, 0xE0000000, 0xE0400000⟩ }
  spaces id := if id = 1 then some 1 else none
  part dev := if dev = 1 then ⟨63, 1000⟩ else ⟨0, 0⟩
  space := 2
  bufferPage := 0x100000

/-- A request for one page of sectors. -/
def pageRequest (start : UInt32) : Message where
  threadId := 0x10000
  command := .readSector
  device := 1
  start := start
  count := 8
  large := 0x100000

lemma twoBuffers_dir {d : Ptr} {i : Index} (h : twoBuffers.paging.dir d i ≠ .zero) :
    (i = 768 ∧ twoBuffers.paging.dir d i = ⟨true, true, false, 0, bootTable⟩) ∨
      (i = 0 ∧ d = 1 ∧ twoBuffers.paging.dir d i = tableEntry 0x500) ∨
      (i = 0 ∧ d = 2 ∧ twoBuffers.paging.dir d i = tableEntry 0x900) := by
  unfold twoBuffers at h ⊢
  dsimp only at h ⊢
  split_ifs at h ⊢ with hboot hone htwo
  · exact .inl ⟨Fin.ext hboot, by decide⟩
  · exact .inr (.inl ⟨Fin.ext hone.1, hone.2, by decide⟩)
  · exact .inr (.inr ⟨Fin.ext htwo.1, htwo.2, by decide⟩)
  · exact absurd rfl h

lemma twoBuffers_frame {d : Ptr} {i : Index} (h : twoBuffers.paging.dir d i ≠ .zero) :
    (i = 768 ∧ (twoBuffers.paging.dir d i).physicalAddress = bootTable) ∨
      (i = 0 ∧ d = 1 ∧ (twoBuffers.paging.dir d i).physicalAddress = 0x500) ∨
      (i = 0 ∧ d = 2 ∧ (twoBuffers.paging.dir d i).physicalAddress = 0x900) := by
  rcases twoBuffers_dir h with ⟨hi, he⟩ | ⟨hi, hd, he⟩ | ⟨hi, hd, he⟩
  · exact .inl ⟨hi, congrArg PageTable.physicalAddress he⟩
  · exact .inr (.inl ⟨hi, hd, (congrArg PageTable.physicalAddress he).trans (frameOf_addrOf _)⟩)
  · exact .inr (.inr ⟨hi, hd, (congrArg PageTable.physicalAddress he).trans (frameOf_addrOf _)⟩)

lemma oneDisk_area (space : Ptr) :
    InSwapArea oneDisk.lists twoBuffers space 0x100000 BUFFER_SIZE 16 where
  found := by
    change VirtualMemory.mmGetVmaByAddress ⟨twoBuffers.heap, oneDisk.lists.user 0⟩ 0x100000 =
      some 16
    decide +kernel
  swap := by
    change (twoBuffers.heap 16).allocationFlag &&& CopyOnWrite.ALLOC_SWAP ≠ 0
    decide
  inside := show 0x100000 + 0x10000 ≤ 0x100000 + 0x10000 by decide
  below := show 0x100000 + 0x10000 ≤ 0xC0000000 by decide

lemma oneDisk_ready (start : UInt32) : Ready oneDisk (pageRequest start) twoBuffers where
  sound := by
    refine ⟨by decide, by decide, by decide +kernel, ?_⟩
    rintro ⟨d, i, hi, he⟩
    rcases twoBuffers_frame hi with ⟨-, hf⟩ | ⟨-, -, hf⟩ | ⟨-, -, hf⟩ <;> rw [hf] at he <;>
      exact absurd he (by decide)
  tables := by
    refine ⟨fun d i _ => .inr (show (1 : UInt8) ≠ 0 by decide),
      fun d i d' j hlow hi hj he => ?_, fun d i hlow hi => ?_⟩
    · rcases twoBuffers_frame hi with ⟨rfl, -⟩ | ⟨rfl, rfl, hf⟩ | ⟨rfl, rfl, hf⟩
      · exact absurd hlow (by decide)
      all_goals
        rw [hf] at he
        rcases twoBuffers_frame hj with ⟨-, hf'⟩ | ⟨rfl, rfl, hf'⟩ | ⟨rfl, rfl, hf'⟩ <;>
          rw [hf'] at he <;> first | exact ⟨rfl, rfl⟩ | exact absurd he (by decide)
    · rcases twoBuffers_frame hi with ⟨rfl, -⟩ | ⟨-, -, hf⟩ | ⟨-, -, hf⟩
      · exact absurd hlow (by decide)
      · rw [hf]
        decide
      · rw [hf]
        decide
  areas space := ⟨[16], ⟨⟨⟨rfl, by decide, rfl, rfl, trivial⟩, rfl⟩, fun x _ => by
      exact (show 0x100000 + 0x10000 < addressSpace by decide)⟩, fun x _ => by
      exact (show 0x100000 + 0x10000 ≤ 0xC0000000 by decide)⟩
  aligned := by decide
  area := ⟨16, oneDisk_area 2⟩
  present := by decide +kernel
  other := show oneDisk.spaces (spaceId 0x10000) ≠ some oneDisk.space by decide

theorem served_iff_pageRequest :
    Served oneDisk (pageRequest 0) twoBuffers ↔ Servable oneDisk (pageRequest 0) twoBuffers :=
  served_iff (oneDisk_ready 0)

/-- A sector behind the partition is read, and no error is reported. -/
theorem not_served : ¬∀ (hd : Service) (msg : Message) (mm : CopyOnWrite.State),
    Ready hd msg mm → Served hd msg mm := by
  intro h
  have hready := oneDisk_ready 1000
  have hserved := h oneDisk (pageRequest 1000) twoBuffers hready
  obtain ⟨code, s', hparse, -⟩ := hserved (fun _ => 0) fun _ _ _ => 0
  obtain ⟨-, -, answer, -, hright⟩ := served_iff_right hready (not_stray hready hparse)
  obtain ⟨hinside, -⟩ := hright.mp hserved (fun _ => 0) fun _ _ _ => 0
  obtain ⟨p, hp, -, hhigh⟩ := hinside 0 (by decide)
  obtain ⟨-, rfl⟩ := partition_some hp
  revert hhigh
  decide

end Sgos.SectorService
