import Sgos.Fat32Files

/-!
# Writing and reading back

A write into a file should put its bytes at the position of the file, keep the other bytes and the
other files, and lengthen the file if it passes its end. It does exactly when it is no append at
the boundary of two clusters, and does not leave a cluster that it entered at the start before the
end of the cluster and of the file.
-/
namespace Sgos.Fat32
open ByteStore

/-- A volume in use: the files, each with the clusters of its chain. A file without clusters is
empty. -/
structure Volume (dev : Fat32Dev) (n : ℕ) (d : Store) (files : List (File × List UInt32)) :
    Prop where
  proper : dev.Proper n
  reserved : ∀ c : UInt32, c.toNat < 2 → nextclu dev d c ≠ 0
  chain : ∀ p ∈ files, p.2 ≠ [] → IsChain (nextclu dev d) p.1.data p.2
  clusters : ∀ p ∈ files, ∀ c ∈ p.2, IsCluster n c
  nodup : (files.flatMap Prod.snd).Nodup
  covered : ∀ p ∈ files, p.1.size.toNat ≤ p.2.length * dev.bytPerClu.toNat

/-- What `fat32_read` yields for a whole file. -/
def wholeFile (dev : Fat32Dev) (d : Store) (f : File) : List UInt8 :=
  (fat32Read dev d { f with pos := 0 } f.size).2.1

/-- The write returns the number of its bytes, the file has them at its position and its old bytes
elsewhere, and the other files are as before, whatever `malloc` returned. -/
def WriteRead (dev : Fat32Dev) (d : Store) (others : List (File × List UInt32)) (f : File)
    (buf : List UInt8) : Prop :=
  ∀ fresh, ∃ ret f' d', fat32Write dev d f buf fresh = (ret, f', d') ∧ ret.toInt = buf.length ∧
    wholeFile dev d' f' = (wholeFile dev d f).take f.pos.toNat ++ buf ++
      (wholeFile dev d f).drop (f.pos.toNat + buf.length) ∧
    ∀ p ∈ others, wholeFile dev d' p.1 = wholeFile dev d p.1

/-- The write appends where the last cluster of the file is full. -/
def AtBoundary (dev : Fat32Dev) (f : File) : Prop :=
  0 < f.pos.toNat ∧ f.pos = f.size ∧ f.pos.toNat % dev.bytPerClu.toNat = 0

/-- The last cluster that is written was entered behind its start, is filled, or holds nothing of
the file behind the write. -/
def KeepsTail (dev : Fat32Dev) (f : File) (len : ℕ) : Prop :=
  f.size.toNat ≤ f.pos.toNat + len ∨ (f.pos.toNat + len) % dev.bytPerClu.toNat = 0 ∨
    0 < f.pos.toNat % dev.bytPerClu.toNat ∧
      f.pos.toNat % dev.bytPerClu.toNat + len ≤ dev.bytPerClu.toNat

/-- The write reaches no defect: positions and the returned number fit into their types. -/
def WriteOk (dev : Fat32Dev) (f : File) (len : ℕ) : Prop :=
  ¬ AtBoundary dev f ∧ KeepsTail dev f len ∧ f.pos.toNat + len < addressSpace ∧ len < 2147483648

instance (dev : Fat32Dev) (f : File) : Decidable (AtBoundary dev f) :=
  inferInstanceAs (Decidable (_ ∧ _ ∧ _))

instance (dev : Fat32Dev) (f : File) (len : ℕ) : Decidable (KeepsTail dev f len) :=
  inferInstanceAs (Decidable (_ ∨ _ ∨ _))

instance (dev : Fat32Dev) (f : File) (len : ℕ) : Decidable (WriteOk dev f len) :=
  inferInstanceAs (Decidable (_ ∧ _ ∧ _ ∧ _))

variable {dev : Fat32Dev} {n : ℕ} {d : Store} {f : File} {xs : List UInt32}
  {others files : List (File × List UInt32)} {buf : List UInt8}

namespace Volume

lemma bytPerClu_pos (hv : Volume dev n d files) : 0 < dev.bytPerClu.toNat := by
  have hsec := hv.proper.secPerClu_pos
  rw [hv.proper.bytPerClu_eq]
  omega

/-- The bytes of a file are those of its chain, up to its size. -/
lemma wholeFile_eq (hv : Volume dev n d files) {p : File × List UInt32} (hp : p ∈ files) :
    wholeFile dev d p.1 = (contents dev d p.2).take p.1.size.toNat := by
  have hcovered := hv.covered p hp
  by_cases hne : p.2 = []
  · have hsize : p.1.size = 0 := by
      rw [hne, List.length_nil, Nat.zero_mul] at hcovered
      exact UInt32.toNat_inj.mp (Nat.le_zero.mp hcovered)
    simp [wholeFile, hne, fat32Read, hsize, readLoop_zero]
  · exact @fat32Read_spec dev n d p.2 hv.proper { p.1 with pos := 0 } rfl (hv.chain p hp hne)
      (hv.clusters p hp) hcovered

/-- At the boundary behind the last cluster no cluster is found, and nothing is written. -/
lemma write_boundary (hv : Volume dev n d ((f, xs) :: others))
    (hlen : xs.length = max 1 ((f.size.toNat + dev.bytPerClu.toNat - 1) / dev.bytPerClu.toNat))
    (hat : AtBoundary dev f) (hbuf : buf ≠ []) (fresh : UInt32 → ℕ → UInt8) :
    (fat32Write dev d f buf fresh).1 = 0 := by
  obtain ⟨hpos, hsize, hmod⟩ := hat
  have hB := hv.bytPerClu_pos
  obtain ⟨j, hj⟩ := Nat.dvd_of_mod_eq_zero hmod
  have hjpos : 0 < j := by
    rw [Nat.pos_iff_ne_zero]
    rintro rfl
    omega
  have hdiv : f.pos.toNat / dev.bytPerClu.toNat = j := by
    rw [hj, Nat.mul_div_cancel_left j hB]
  have hxs : xs.length = j := by
    have hceil : (f.size.toNat + dev.bytPerClu.toNat - 1) / dev.bytPerClu.toNat = j := by
      rw [← hsize, hj, Nat.add_sub_assoc hB, Nat.mul_add_div hB,
        Nat.div_eq_of_lt (by omega), Nat.add_zero]
    rw [hlen, hceil, max_eq_right hjpos]
  have hne : xs ≠ [] := List.ne_nil_of_length_pos (by omega)
  obtain ⟨e, hfollow, hend⟩ := hv.chain (f, xs) (by simp) hne
  have hclu : getCluByOrder dev d f.data (cluOrder dev f.pos) = 0 := by
    rw [hv.proper.cluOrder_eq, hdiv, ← hxs]
    exact getCluByOrder_end hfollow
      (fun x hx => (hv.clusters (f, xs) (by simp) x hx).inuse hv.proper.numbers_lt) hne
      (not_inuse_of_end hend) le_rfl
  obtain ⟨b, bs, rfl⟩ := List.exists_cons_of_ne_nil hbuf
  have htarget : writeTarget dev d f 0 = (.error 0, d) := rfl
  have hloop : writeLoop dev f fresh (b :: bs).length d 0 (f.pos % dev.bytPerClu) (b :: bs) 0 =
      (.error 0, d) := by
    rw [List.length_cons, writeLoop, if_neg hbuf, htarget]
  simp only [fat32Write, hclu, hloop]

/-- The cluster of the position is in the chain. -/
lemma order_lt (hv : Volume dev n d ((f, xs) :: others)) (hne : xs ≠ [])
    (hpos : f.pos.toNat ≤ f.size.toNat) (hat : ¬ AtBoundary dev f) :
    f.pos.toNat / dev.bytPerClu.toNat < xs.length := by
  have hcovered : f.size.toNat ≤ xs.length * dev.bytPerClu.toNat := hv.covered (f, xs) (by simp)
  rw [Nat.div_lt_iff_lt_mul hv.bytPerClu_pos]
  by_contra hge
  have heq : f.pos.toNat = xs.length * dev.bytPerClu.toNat := by omega
  have hlen := List.length_pos_of_ne_nil hne
  refine hat ⟨?_, UInt32.toNat_inj.mp (by omega), ?_⟩
  · rw [heq]
    exact Nat.mul_pos hlen hv.bytPerClu_pos
  · rw [heq, Nat.mul_mod_left]

/-- The cluster of a position in front of the end of the chain, and the clusters from there on. -/
lemma split_at (hv : Volume dev n d ((f, xs) :: others)) (hne : xs ≠ [])
    (hlt : f.pos.toNat / dev.bytPerClu.toNat < xs.length) :
    ∃ pre rest m e, xs = pre ++ rest ∧ pre.length = f.pos.toNat / dev.bytPerClu.toNat ∧
      rest ≠ [] ∧ Follows (nextclu dev d) f.data pre m ∧ Follows (nextclu dev d) m rest e ∧
      IS_FAT32CLU_END e ∧ getCluByOrder dev d f.data (cluOrder dev f.pos) = m := by
  have hcl : ∀ c ∈ xs, IsCluster n c := hv.clusters (f, xs) List.mem_cons_self
  obtain ⟨e, hfollow, hend⟩ := hv.chain (f, xs) List.mem_cons_self hne
  have hposdiv := hv.proper.cluOrder_eq f.pos
  generalize f.pos.toNat / dev.bytPerClu.toNat = j at hlt hposdiv ⊢
  obtain ⟨pre, rest, rfl, hj⟩ : ∃ pre rest, xs = pre ++ rest ∧ pre.length = j :=
    ⟨xs.take j, xs.drop j, (List.take_append_drop j xs).symm, by rw [List.length_take]; omega⟩
  obtain ⟨m, hbefore, hafter⟩ := hfollow.split
  have hrest : rest ≠ [] := by
    rintro rfl
    simp at hlt
    omega
  have hm : IS_FAT32CLU_INUSE m := by
    obtain ⟨r, rs, rfl⟩ := List.exists_cons_of_ne_nil hrest
    rw [hafter.1]
    exact (hcl r (by simp)).inuse hv.proper.numbers_lt
  refine ⟨pre, rest, m, e, rfl, hj, hrest, hbefore, hafter, hend, ?_⟩
  rw [hposdiv, ← hj]
  exact getCluByOrder_follows hbefore
    (fun x hx => (hcl x (by simp [hx])).inuse hv.proper.numbers_lt) hm

/-- Elsewhere all of `buf` is written. -/
lemma write_spec (hv : Volume dev n d ((f, xs) :: others)) (hne : xs ≠ [])
    (hpos : f.pos.toNat ≤ f.size.toNat) (hat : ¬ AtBoundary dev f)
    (hroom : f.pos.toNat + buf.length ≤
      (xs.length + (freeClusters dev d n).length) * dev.bytPerClu.toNat)
    (fresh : UInt32 → ℕ → UInt8) :
    ∃ zs t d', writeLoop dev f fresh buf.length d
        (getCluByOrder dev d f.data (cluOrder dev f.pos)) (f.pos % dev.bytPerClu) buf 0 =
        (.ok (UInt32.ofNat buf.length), d') ∧
      (∀ f' : File, f'.data = f.data →
        f'.size.toNat ≤ (xs ++ zs).length * dev.bytPerClu.toNat →
        Volume dev n d' ((f', xs ++ zs) :: others)) ∧
      contents dev d' (xs ++ zs) = (contents dev d xs).take f.pos.toNat ++ buf ++ t ∧
      Tail dev fresh ((contents dev d xs).drop
        (f.pos.toNat / dev.bytPerClu.toNat * dev.bytPerClu.toNat))
        (f.pos.toNat % dev.bytPerClu.toNat) buf.length t ∧
      ∀ p ∈ others, contents dev d' p.2 = contents dev d p.2 := by
  have hB := hv.bytPerClu_pos
  have hlt := hv.order_lt hne hpos hat
  obtain ⟨pre, rest, m, e, rfl, hj, hrest, hbefore, hafter, hend, horder⟩ := hv.split_at hne hlt
  have hcl : ∀ c ∈ pre ++ rest, IsCluster n c := hv.clusters (f, pre ++ rest) List.mem_cons_self
  have hdm := Nat.div_add_mod' f.pos.toNat dev.bytPerClu.toNat
  have hmod := Nat.mod_lt f.pos.toNat hB
  have hposmod : (f.pos % dev.bytPerClu).toNat = f.pos.toNat % dev.bytPerClu.toNat :=
    UInt32.toNat_mod ..
  generalize f.pos.toNat / dev.bytPerClu.toNat = j at hlt hj hdm
  generalize f.pos.toNat % dev.bytPerClu.toNat = k at hmod hposmod hdm
  have hw : Writing dev n f d pre rest m :=
    ⟨hv.reserved, hcl, (List.nodup_append'.mp hv.nodup).1, by simp [hrest], hbefore, e, hafter, hend⟩
  have hroom' : (f.pos % dev.bytPerClu).toNat + buf.length ≤
      (rest.length + (freeClusters dev d n).length) * dev.bytPerClu.toNat := by
    rw [List.length_append, hj, Nat.add_assoc, Nat.add_mul j] at hroom
    omega
  obtain ⟨zs, d', hloop, hwritten⟩ := @writeLoop_spec dev n pre rest fresh f hv.proper buf.length d
    m (f.pos % dev.bytPerClu) buf 0 hw (by rwa [hposmod]) (fun hnil => absurd hnil hrest) hroom' le_rfl
  obtain ⟨ws, rfl, hws⟩ := hwritten.extends_eq
  obtain ⟨t, hbytes, htail⟩ := hwritten.contents_eq
  rw [hposmod] at hbytes htail
  have hnd := hwritten.nodup
  have hchain' := hwritten.chain
  have hcl' := hwritten.clusters
  have hkeep := hwritten.keeps
  rw [← List.append_assoc] at hnd hchain' hcl' hkeep
  -- the chains of the other files are apart from the new chain
  have hothers : ∀ p ∈ others, ∀ c ∈ p.2, c ∉ pre ++ rest ++ ws := by
    intro p hp c hc hmem
    rcases List.mem_append.mp hmem with hmem | hmem
    · exact (List.nodup_append'.mp hv.nodup).2.2 hmem (List.mem_flatMap.mpr ⟨p, hp, hc⟩)
    · have hzero := ((mem_freeClusters hv.proper.numbers_lt).mp (hws c hmem)).2
      exact (hv.chain p (by simp [hp]) (List.ne_nil_of_mem hc)).entry_ne_zero
        (hv.clusters p (by simp [hp])) hc hzero
  have hnext : ∀ p ∈ others, ∀ c ∈ p.2, nextclu dev d' c = nextclu dev d c := fun p hp c hc =>
    hkeep.next_eq c (hv.clusters p (by simp [hp]) c hc).2 (hothers p hp c hc)
  refine ⟨ws, t, d', ?_, fun f' hdata hsize => ⟨hv.proper, ?_, ?_, ?_, ?_, ?_⟩, ?_, ?_, ?_⟩
  · rw [horder, hloop, UInt32.zero_add]
  · intro c hc
    rw [hkeep.next_eq c (by omega) fun hmem => ?_]
    · exact hv.reserved c hc
    · have htwo := (hcl' c hmem).1
      omega
  · intro p hp hnil
    rcases List.mem_cons.mp hp with rfl | hp
    · rwa [hdata]
    · obtain ⟨e', hfollow', hend'⟩ := hv.chain p (by simp [hp]) hnil
      exact ⟨e', hfollow'.congr (hnext p hp), hend'⟩
  · intro p hp
    rcases List.mem_cons.mp hp with rfl | hp
    · exact hcl'
    · exact hv.clusters p (by simp [hp])
  · refine List.nodup_append'.mpr ⟨hnd, (List.nodup_append'.mp hv.nodup).2.1, ?_⟩
    intro c hc hmem
    obtain ⟨p, hp, hcp⟩ := List.mem_flatMap.mp hmem
    exact hothers p hp c hcp hc
  · intro p hp
    rcases List.mem_cons.mp hp with rfl | hp
    · exact hsize
    · exact hv.covered p (by simp [hp])
  · have hpre : contents dev d' pre = contents dev d pre := by
      refine contents_congr fun c hc => hwritten.keeps.read_eq c (hcl c (by simp [hc])) fun hmem => ?_
      have hnd' := hwritten.nodup
      exact (List.nodup_append'.mp hnd').2.2 hc hmem
    have hlen : (contents dev d pre).length = j * dev.bytPerClu.toNat := by
      rw [hv.proper.length_contents fun c hc => hcl c (by simp [hc]), hj]
    rw [List.append_assoc, contents_append, hpre, hbytes, contents_append, ← hdm, ← hlen,
      List.take_length_add_append]
    simp only [List.append_assoc]
  · have hlen : (contents dev d pre).length = j * dev.bytPerClu.toNat := by
      rw [hv.proper.length_contents fun c hc => hcl c (by simp [hc]), hj]
    rwa [contents_append, List.drop_left' hlen]
  · exact fun p hp => contents_congr fun c hc => hkeep.read_eq c (hv.clusters p (by simp [hp]) c hc)
      fun hmem => hothers p hp c hc (by simpa using Or.inr hmem)

end Volume

/-! ## The file after a write -/

/-- The file behind `len` written bytes. -/
def File.written (f : File) (len : ℕ) : File :=
  let f := { f with pos := f.pos + UInt32.ofNat len }
  if f.pos > f.size then { f with size := f.pos, dirty := true } else f

lemma written_data (f : File) (len : ℕ) : (f.written len).data = f.data := by
  simp only [File.written]
  split_ifs <;> rfl

lemma written_size {len : ℕ} (hfit : f.pos.toNat + len < addressSpace) :
    (f.written len).size.toNat = max f.size.toNat (f.pos.toNat + len) := by
  rw [addressSpace] at hfit
  have hlen : (UInt32.ofNat len).toNat = len := by
    rw [UInt32.toNat_ofNat']
    exact Nat.mod_eq_of_lt (by omega)
  have hpos : (f.pos + UInt32.ofNat len).toNat = f.pos.toNat + len := by
    rw [toNat_add_of_lt (by rw [hlen, addressSpace]; exact hfit), hlen]
  simp only [File.written, gt_iff_lt, UInt32.lt_iff_toNat_lt, hpos]
  split_ifs with hgt
  · rw [hpos, max_eq_right hgt.le]
  · rw [max_eq_left (by omega)]

/-- When the position wraps, the size is not raised. -/
lemma written_size_wrap {len : ℕ} (hle : f.pos.toNat ≤ f.size.toNat) (hlen : len < addressSpace)
    (hwrap : addressSpace ≤ f.pos.toNat + len) : (f.written len).size = f.size := by
  rw [addressSpace] at hlen hwrap
  have hlt := f.pos.toNat_lt
  have hpos : (f.pos + UInt32.ofNat len).toNat = f.pos.toNat + len - 4294967296 := by
    rw [UInt32.toNat_add, UInt32.toNat_ofNat']
    omega
  have hnot : ¬ f.size < f.pos + UInt32.ofNat len := by
    rw [UInt32.lt_iff_toNat_lt, hpos]
    omega
  simp only [File.written, gt_iff_lt, if_neg hnot]

lemma toInt_ofNat_iff {len : ℕ} (hlen : len < addressSpace) :
    (UInt32.ofNat len).toInt32.toInt = len ↔ len < 2147483648 := by
  rw [addressSpace] at hlen
  have hsize : Int32.size = 4294967296 := rfl
  rw [UInt32.toInt32_ofNat', Int32.toInt_ofNat', hsize, Int.bmod_def]
  omega

/-- What a write away from the boundary returns, and what the files hold then. -/
lemma Volume.write_result (hv : Volume dev n d ((f, xs) :: others)) (hne : xs ≠ [])
    (hpos : f.pos.toNat ≤ f.size.toNat) (hat : ¬ AtBoundary dev f)
    (hcount : buf.length < addressSpace)
    (hroom : f.pos.toNat + buf.length ≤
      (xs.length + (freeClusters dev d n).length) * dev.bytPerClu.toNat)
    (fresh : UInt32 → ℕ → UInt8) :
    ∃ t d', fat32Write dev d f buf fresh =
        ((UInt32.ofNat buf.length).toInt32, f.written buf.length, d') ∧
      wholeFile dev d' (f.written buf.length) =
        ((contents dev d xs).take f.pos.toNat ++ buf ++ t).take (f.written buf.length).size.toNat ∧
      Tail dev fresh ((contents dev d xs).drop
        (f.pos.toNat / dev.bytPerClu.toNat * dev.bytPerClu.toNat))
        (f.pos.toNat % dev.bytPerClu.toNat) buf.length t ∧
      ∀ p ∈ others, wholeFile dev d' p.1 = wholeFile dev d p.1 := by
  obtain ⟨zs, t, d', hloop, hvol, hbytes, htail, hothers⟩ := hv.write_spec hne hpos hat hroom fresh
  have hcovered : f.size.toNat ≤ xs.length * dev.bytPerClu.toNat := hv.covered (f, xs) (by simp)
  have hclusters : ∀ c ∈ xs ++ zs, IsCluster n c :=
    (hvol { f with size := 0 } rfl (by simp)).clusters (_, xs ++ zs) List.mem_cons_self
  have hlong : f.pos.toNat + buf.length ≤ (xs ++ zs).length * dev.bytPerClu.toNat := by
    have hlen := hv.proper.length_contents (d := d') hclusters
    have hold := hv.proper.length_contents (d := d) (hv.clusters (f, xs) (by simp))
    rw [hbytes] at hlen
    simp only [List.length_append, List.length_take] at hlen hold ⊢
    omega
  have hsize : (f.written buf.length).size.toNat ≤ (xs ++ zs).length * dev.bytPerClu.toNat := by
    have hmono : xs.length * dev.bytPerClu.toNat ≤ (xs ++ zs).length * dev.bytPerClu.toNat :=
      Nat.mul_le_mul_right _ (by simp)
    rcases Nat.lt_or_ge (f.pos.toNat + buf.length) addressSpace with hfit | hwrap
    · rw [written_size hfit]
      exact max_le (hcovered.trans hmono) hlong
    · rw [written_size_wrap hpos hcount hwrap]
      exact hcovered.trans hmono
  have hvol' := hvol (f.written buf.length) (written_data f _) hsize
  refine ⟨t, d', ?_, ?_, htail, fun p hp => ?_⟩
  · simp only [fat32Write, hloop]
    by_cases hzero : UInt32.ofNat buf.length = 0
    · rw [if_pos hzero, hzero]
      have hlen : buf.length = 0 := by
        rw [← UInt32.toNat_ofNat_of_lt' hcount, hzero]
        rfl
      have hsame : f.written buf.length = f := by
        rw [hlen, File.written]
        have hpos' : f.pos + UInt32.ofNat 0 = f.pos := UInt32.add_zero _
        have hnot : ¬f.pos > f.size := fun hgt => absurd (UInt32.lt_iff_toNat_lt.mp hgt) (by omega)
        rw [hpos', if_neg hnot]
      rw [hsame]
      rfl
    · rw [if_neg hzero, File.written]
  · rw [← hbytes]
    exact hvol'.wholeFile_eq (p := (f.written buf.length, xs ++ zs)) List.mem_cons_self
  · rw [hvol'.wholeFile_eq (List.mem_cons_of_mem _ hp), hv.wholeFile_eq (List.mem_cons_of_mem _ hp),
      hothers p hp]

/-- The tail is kept for every content of fresh memory exactly under `KeepsTail`. -/
lemma KeepsTail.eq_drop {old t : List UInt8} {fresh : UInt32 → ℕ → UInt8} {len : ℕ}
    (hkeep : KeepsTail dev f len) (hmore : f.pos.toNat + len < f.size.toNat)
    (ht : Tail dev fresh (old.drop
      (f.pos.toNat / dev.bytPerClu.toNat * dev.bytPerClu.toNat))
      (f.pos.toNat % dev.bytPerClu.toNat) len t) : t = old.drop (f.pos.toNat + len) := by
  have hdm := Nat.div_add_mod' f.pos.toNat dev.bytPerClu.toNat
  have hsum : f.pos.toNat / dev.bytPerClu.toNat * dev.bytPerClu.toNat +
      (f.pos.toNat % dev.bytPerClu.toNat + len) = f.pos.toNat + len := by omega
  have hcond : 0 < f.pos.toNat % dev.bytPerClu.toNat ∧
      f.pos.toNat % dev.bytPerClu.toNat + len ≤ dev.bytPerClu.toNat ∨
      (f.pos.toNat % dev.bytPerClu.toNat + len) % dev.bytPerClu.toNat = 0 := by
    rcases hkeep with hle | hmod | hin
    · omega
    · rw [Nat.mod_add_mod]
      exact .inr hmod
    · exact .inl hin
  rwa [Tail, if_pos hcond, List.drop_drop, hsum] at ht

/-- Otherwise the byte behind the write is what `malloc` returned. -/
lemma head_of_not_keepsTail {old t : List UInt8} {v : UInt8} {len : ℕ}
    (hB : 0 < dev.bytPerClu.toNat) (hkeep : ¬ KeepsTail dev f len)
    (ht : Tail dev (fun _ _ => v) old (f.pos.toNat % dev.bytPerClu.toNat) len t) :
    t.head? = some v := by
  have hcond : ¬ (0 < f.pos.toNat % dev.bytPerClu.toNat ∧
      f.pos.toNat % dev.bytPerClu.toNat + len ≤ dev.bytPerClu.toNat ∨
      (f.pos.toNat % dev.bytPerClu.toNat + len) % dev.bytPerClu.toNat = 0) := by
    rintro (hin | hmod)
    · exact hkeep (.inr (.inr hin))
    · rw [Nat.mod_add_mod] at hmod
      exact hkeep (.inr (.inl hmod))
  rw [Tail, if_neg hcond] at ht
  obtain ⟨w, rfl⟩ := ht
  have hlt := Nat.mod_lt (f.pos.toNat + len) hB
  rw [Nat.mod_add_mod, List.head?_append_of_ne_nil, List.head?_drop]
  · simp [freshBytes, hlt]
  · rw [← List.length_pos_iff, List.length_drop, length_freshBytes]
    omega

/-- On a volume with enough free clusters, writing and reading back agree exactly when the write
reaches no defect. -/
theorem writeRead_iff (hv : Volume dev n d ((f, xs) :: others))
    (hlen : xs.length = max 1 ((f.size.toNat + dev.bytPerClu.toNat - 1) / dev.bytPerClu.toNat))
    (hpos : f.pos.toNat ≤ f.size.toNat) (hbuf : buf ≠ []) (hcount : buf.length < addressSpace)
    (hroom : f.pos.toNat + buf.length ≤
      (xs.length + (freeClusters dev d n).length) * dev.bytPerClu.toNat) :
    WriteRead dev d others f buf ↔ WriteOk dev f buf.length := by
  have hB := hv.bytPerClu_pos
  have hne : xs ≠ [] := List.ne_nil_of_length_pos (by omega)
  have hcovered : f.size.toNat ≤ xs.length * dev.bytPerClu.toNat := hv.covered (f, xs) (by simp)
  have hbytes : (contents dev d xs).length = xs.length * dev.bytPerClu.toNat :=
    hv.proper.length_contents (hv.clusters (f, xs) (by simp))
  have hblen := List.length_pos_of_ne_nil hbuf
  have hold : wholeFile dev d f = (contents dev d xs).take f.size.toNat :=
    hv.wholeFile_eq (p := (f, xs)) List.mem_cons_self
  by_cases hat : AtBoundary dev f
  · refine iff_of_false (fun hlaw => ?_) fun hok => hok.1 hat
    obtain ⟨ret, f', d', hwrite, hret, -⟩ := hlaw fun _ _ => 0
    have hzero := hv.write_boundary hlen hat hbuf fun _ _ => 0
    rw [hwrite] at hzero
    rw [show ret = 0 from hzero] at hret
    simp only [Int32.toInt_zero] at hret
    omega
  have hresult := hv.write_result hne hpos hat hcount hroom
  have hfront : ((contents dev d xs).take f.pos.toNat ++ buf).length =
      f.pos.toNat + buf.length := by
    rw [List.length_append, List.length_take, min_eq_left (by omega)]
  have hpatch : (wholeFile dev d f).take f.pos.toNat = (contents dev d xs).take f.pos.toNat := by
    rw [hold, List.take_take, min_eq_left hpos]
  constructor
  · intro hlaw
    refine ⟨hat, ?_, ?_, ?_⟩
    · by_contra hkeep
      have hmore : f.pos.toNat + buf.length < f.size.toNat := by
        by_contra hge
        exact hkeep (.inl (by omega))
      have hin : f.pos.toNat + buf.length < (contents dev d xs).length := by omega
      -- fresh memory differs from the byte behind the write
      have hbyte : ∃ v, v ≠ (contents dev d xs)[f.pos.toNat + buf.length] :=
        ⟨(contents dev d xs)[f.pos.toNat + buf.length] + 1, by simp⟩
      obtain ⟨v, hv'⟩ := hbyte
      obtain ⟨ret, f', d', hwrite, -, hread, -⟩ := hlaw fun _ _ => v
      obtain ⟨t, d'', hwrite', hread', htail, -⟩ := hresult fun _ _ => v
      obtain ⟨-, rfl, rfl⟩ : ret = _ ∧ f' = _ ∧ d' = _ := by
        simpa using hwrite.symm.trans hwrite'
      have hhead := head_of_not_keepsTail hB hkeep htail
      have hsize : f.size.toNat ≤ (f.written buf.length).size.toNat := by
        rw [written_size (by have := f.size.toNat_lt; rw [addressSpace]; omega)]
        exact le_max_left _ _
      have hget := congrArg (fun l => l[f.pos.toNat + buf.length]?) (hread'.symm.trans hread)
      simp only [hpatch] at hget
      rw [List.getElem?_take_of_lt (by omega), List.getElem?_append_right (by omega), hfront,
        List.getElem?_append_right (by omega), hfront, hold, Nat.sub_self, List.getElem?_drop,
        Nat.add_zero, List.getElem?_take_of_lt hmore, List.getElem?_eq_getElem hin,
        ← List.head?_eq_getElem?, hhead] at hget
      exact hv' (Option.some.inj hget)
    · by_contra hwrap
      obtain ⟨ret, f', d', hwrite, -, hread, -⟩ := hlaw fun _ _ => 0
      obtain ⟨t, d'', hwrite', hread', -⟩ := hresult fun _ _ => 0
      obtain ⟨-, rfl, rfl⟩ : ret = _ ∧ f' = _ ∧ d' = _ := by
        simpa using hwrite.symm.trans hwrite'
      have hlen := congrArg List.length (hread'.symm.trans hread)
      have hsize := f.size.toNat_lt
      rw [written_size_wrap hpos hcount (by omega), hpatch, List.length_append, hfront,
        List.length_take] at hlen
      rw [addressSpace] at hwrap
      omega
    · obtain ⟨ret, f', d', hwrite, hret, -⟩ := hlaw fun _ _ => 0
      obtain ⟨t, d'', hwrite', -⟩ := hresult fun _ _ => 0
      obtain ⟨rfl, -⟩ := Prod.mk.inj (hwrite.symm.trans hwrite')
      exact (toInt_ofNat_iff hcount).mp hret
  · rintro ⟨-, hkeep, hfit, hsmall⟩ fresh
    obtain ⟨t, d', hwrite, hread, htail, hothers⟩ := hresult fresh
    refine ⟨_, _, d', hwrite, (toInt_ofNat_iff hcount).mpr hsmall, ?_, hothers⟩
    rw [hread, written_size hfit, hpatch, hold]
    rcases Nat.lt_or_ge (f.pos.toNat + buf.length) f.size.toNat with hmore | hge
    · rw [hkeep.eq_drop hmore htail, max_eq_left hmore.le, List.take_append, hfront,
        List.take_of_length_le (by omega), List.drop_take]
    · rw [max_eq_right hge, List.take_left' hfront, List.drop_eq_nil_of_le, List.append_nil]
      rw [List.length_take]
      omega

/-! ## A volume of four clusters -/

def smallBoot : BootSec := ⟨512, 1, 8, 1, 1, 2, 0x29⟩

def smallDev : Fat32Dev := ⟨1, 512, 8, 2, 1, 1, 4096, 4608, 512, 0⟩

/-- The table has the chains of clusters 2 and 3; the clusters are filled with zeros. -/
def smallStore : Store :=
  writeBytes (fun _ => 0) 4096
    [0xf8, 0xff, 0xff, 0x0f, 0xff, 0xff, 0xff, 0x0f, 0xff, 0xff, 0xff, 0x0f, 0xff, 0xff, 0xff, 0x0f]

lemma small_volume {size : UInt32} (pos : UInt32)
    (hsize : size.toNat ≤ 1 * smallDev.bytPerClu.toNat) :
    Volume smallDev 4 smallStore [(⟨2, size, pos, false⟩, [2]), (⟨3, 5, 0, false⟩, [3])] where
  proper := @fat32Init_proper smallDev 4 smallBoot rfl rfl (by decide) (by decide) (by decide)
    (by decide) (by decide) (by decide)
  reserved c hc := by
    have hzero : (0 : UInt32).toNat = 0 := rfl
    have hone : (1 : UInt32).toNat = 1 := rfl
    have hcases : c = 0 ∨ c = 1 := by
      rw [← UInt32.toNat_inj, ← UInt32.toNat_inj, hzero, hone]
      omega
    rcases hcases with rfl | rfl <;> decide
  chain p hp _ := by
    have htwo : nextclu smallDev smallStore 2 = 0x0fffffff := by decide
    have hthree : nextclu smallDev smallStore 3 = 0x0fffffff := by decide
    rcases List.mem_cons.mp hp with rfl | hp
    · exact ⟨0x0fffffff, ⟨rfl, htwo⟩, rfl⟩
    · obtain rfl := List.mem_singleton.mp hp
      exact ⟨0x0fffffff, ⟨rfl, hthree⟩, rfl⟩
  clusters p hp c hc := by
    rcases List.mem_cons.mp hp with rfl | hp
    · obtain rfl := List.mem_singleton.mp hc
      exact ⟨by decide, by decide⟩
    · obtain rfl := List.mem_singleton.mp hp
      obtain rfl := List.mem_singleton.mp hc
      exact ⟨by decide, by decide⟩
  nodup := by simp
  covered p hp := by
    rcases List.mem_cons.mp hp with rfl | hp
    · exact hsize
    · obtain rfl := List.mem_singleton.mp hp
      decide +kernel

/-- A byte is replaced. -/
theorem writeRead_small : WriteRead smallDev smallStore [(⟨3, 5, 0, false⟩, [3])]
    ⟨2, 3, 1, false⟩ [7] :=
  (writeRead_iff (small_volume 1 (by decide +kernel)) (by decide +kernel) (by decide)
    (by decide) (by decide) (by decide +kernel)).mpr (by decide +kernel)

/-- A file that fills its cluster cannot be appended to. -/
theorem not_writeRead : Volume smallDev 4 smallStore
      [(⟨2, 512, 512, false⟩, [2]), (⟨3, 5, 0, false⟩, [3])] ∧
    1 = max 1 ((512 + smallDev.bytPerClu.toNat - 1) / smallDev.bytPerClu.toNat) ∧
    512 + 1 ≤ (1 + (freeClusters smallDev smallStore 4).length) * smallDev.bytPerClu.toNat ∧
    ¬ WriteRead smallDev smallStore [(⟨3, 5, 0, false⟩, [3])] ⟨2, 512, 512, false⟩ [7] := by
  refine ⟨small_volume 512 (by decide +kernel), by decide +kernel, by decide +kernel, fun hlaw => ?_⟩
  obtain ⟨ret, f', d', hwrite, hret, -⟩ := hlaw fun _ _ => 0
  have hzero : (fat32Write smallDev smallStore ⟨2, 512, 512, false⟩ [7] fun _ _ => 0).1 = 0 := by
    decide +kernel
  rw [hwrite] at hzero
  rw [show ret = 0 from hzero] at hret
  cases hret

end Sgos.Fat32
