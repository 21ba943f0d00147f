import Sgos.Fat32Chain

/-!
# Contents of files

The bytes of a chain of clusters. Reading takes them out of the chain; writing replaces a run of
them, and appends clusters where the chain ends before the run does.
-/
namespace Sgos.Fat32
open ByteStore

variable {dev : Fat32Dev} {n : ℕ} {d : Store} {a b c : UInt32} {xs ys : List UInt32}

/-- The bytes of a chain of clusters. -/
def contents (dev : Fat32Dev) (d : Store) (xs : List UInt32) : List UInt8 :=
  xs.flatMap (readclu dev d)

@[simp] lemma contents_nil : contents dev d [] = [] := rfl

@[simp] lemma contents_cons : contents dev d (c :: xs) = readclu dev d c ++ contents dev d xs := rfl

@[simp] lemma contents_append :
    contents dev d (xs ++ ys) = contents dev d xs ++ contents dev d ys :=
  List.flatMap_append

lemma contents_congr {d' : Store} (h : ∀ x ∈ xs, readclu dev d' x = readclu dev d x) :
    contents dev d' xs = contents dev d xs := by
  induction xs with
  | nil => rfl
  | cons x xs ih =>
    rw [contents_cons, contents_cons, h x (by simp), ih fun y hy => h y (by simp [hy])]

lemma Fat32Dev.Proper.length_contents (h : dev.Proper n) (hxs : ∀ x ∈ xs, IsCluster n x) :
    (contents dev d xs).length = xs.length * dev.bytPerClu.toNat := by
  induction xs with
  | nil => simp
  | cons x xs ih =>
    have hx := h.length_readclu d (hxs x (by simp))
    have hrest := ih fun y hy => hxs y (by simp [hy])
    rw [contents_cons, List.length_append, hx, hrest, List.length_cons, Nat.add_mul, Nat.one_mul,
      Nat.add_comm]

/-! ## Reading -/

lemma readLoop_zero (fuel : ℕ) (clu pos : UInt32) : readLoop dev d fuel clu pos 0 = (true, []) := by
  cases fuel <;> simp [readLoop]

/-- Reading from `pos` in the first cluster on takes the bytes of the chain. -/
lemma readLoop_spec (h : dev.Proper n) (fuel : ℕ) (clu pos count : UInt32)
    (hchain : IsChain (nextclu dev d) clu xs) (hxs : ∀ x ∈ xs, IsCluster n x)
    (hpos : pos.toNat < dev.bytPerClu.toNat)
    (hcount : pos.toNat + count.toNat ≤ xs.length * dev.bytPerClu.toNat)
    (hfuel : count.toNat ≤ fuel) :
    readLoop dev d fuel clu pos count =
      (true, ((contents dev d xs).drop pos.toNat).take count.toNat) := by
  induction fuel generalizing xs clu pos count with
  | zero =>
    have hzero : count.toNat = 0 := by omega
    simp [readLoop, hzero]
  | succ fuel ih =>
    by_cases hc : count = 0
    · simp [hc, readLoop_zero]
    have hcpos : 0 < count.toNat := by
      rw [Nat.pos_iff_ne_zero]
      exact fun he => hc (UInt32.toNat_inj.mp he)
    cases xs with
    | nil =>
      rw [List.length_nil, Nat.zero_mul] at hcount
      omega
    | cons x xs =>
      obtain ⟨e, ⟨rfl, hfollow⟩, hend⟩ := hchain
      have hx := hxs clu (by simp)
      have hlen := h.length_readclu d hx
      have hroom : (dev.bytPerClu - pos).toNat = dev.bytPerClu.toNat - pos.toNat :=
        toNat_sub_of_le (by omega)
      have hpositive : count > 0 := UInt32.lt_iff_toNat_lt.mpr (by rwa [UInt32.toNat_zero])
      have hinuse := hx.inuse h.numbers_lt
      rw [readLoop, if_pos hpositive]
      simp only [hinuse, Bool.not_true, Bool.false_eq_true, if_false, contents_cons]
      by_cases hlast : count < dev.bytPerClu - pos
      · have hle : count.toNat < dev.bytPerClu.toNat - pos.toNat := by
          rwa [UInt32.lt_iff_toNat_lt, hroom] at hlast
        simp only [if_pos hlast, UInt32.sub_self, readLoop_zero, List.append_nil]
        rw [List.drop_append_of_le_length (by omega), List.take_append_of_le_length]
        rw [List.length_drop]
        omega
      · have hle : dev.bytPerClu.toNat - pos.toNat ≤ count.toNat := by
          rw [UInt32.lt_iff_toNat_lt, hroom] at hlast
          omega
        have hleft : (count - (dev.bytPerClu - pos)).toNat =
            count.toNat - (dev.bytPerClu.toNat - pos.toNat) := by
          rw [toNat_sub_of_le (by rwa [hroom]), hroom]
        have hpiece : ((readclu dev d clu).drop pos.toNat).take (dev.bytPerClu - pos).toNat =
            (readclu dev d clu).drop pos.toNat := by
          rw [hroom, List.take_of_length_le (by rw [List.length_drop, hlen])]
        have hwant : ((readclu dev d clu ++ contents dev d xs).drop pos.toNat).take count.toNat =
            (readclu dev d clu).drop pos.toNat ++ (contents dev d xs).take
              (count.toNat - (dev.bytPerClu.toNat - pos.toNat)) := by
          rw [List.drop_append_of_le_length (by omega), List.take_append, List.length_drop, hlen,
            List.take_of_length_le]
          rw [List.length_drop, hlen]
          exact hle
        simp only [if_neg hlast, hpiece, hwant]
        by_cases hz : count - (dev.bytPerClu - pos) = 0
        · have hnat : count.toNat - (dev.bytPerClu.toNat - pos.toNat) = 0 := by
            rw [← hleft, hz]
            rfl
          simp [hz, readLoop_zero, hnat]
        · have hmore : count - (dev.bytPerClu - pos) > 0 := UInt32.lt_iff_toNat_lt.mpr (by
            rw [UInt32.toNat_zero, Nat.pos_iff_ne_zero]
            exact fun he => hz (UInt32.toNat_inj.mp he))
          have hstart : (0 : UInt32).toNat = 0 := rfl
          have hnext := ih (nextclu dev d clu) 0 (count - (dev.bytPerClu - pos))
            ⟨e, hfollow, hend⟩
            (fun y hy => hxs y (by simp [hy])) (by rw [hstart]; omega) (by
              rw [List.length_cons, Nat.add_mul, Nat.one_mul] at hcount
              rw [hstart, hleft]
              omega) (by rw [hleft]; omega)
          simp only [if_pos hmore, hnext, hleft, hstart, List.drop_zero]

/-- Reading a whole file puts its bytes into the buffer. -/
theorem fat32Read_spec (h : dev.Proper n) {f : File} (hpos : f.pos = 0)
    (hchain : IsChain (nextclu dev d) f.data xs) (hxs : ∀ x ∈ xs, IsCluster n x)
    (hsize : f.size.toNat ≤ xs.length * dev.bytPerClu.toNat) :
    (fat32Read dev d f f.size).2.1 = (contents dev d xs).take f.size.toNat := by
  have hstart : (0 : UInt32).toNat = 0 := rfl
  have hbytes : 0 < dev.bytPerClu.toNat := by
    have hsec := h.secPerClu_pos
    rw [h.bytPerClu_eq]
    omega
  have hloop := readLoop_spec h f.size.toNat f.data 0 f.size hchain hxs (by rwa [hstart])
    (by rwa [hstart, Nat.zero_add]) le_rfl
  rw [hstart, List.drop_zero] at hloop
  have hzero : cluOrder dev 0 = 0 := by
    rw [h.cluOrder_eq, hstart, Nat.zero_div]
  have hrest : (0 : UInt32) % dev.bytPerClu = 0 := by
    rw [← UInt32.toNat_inj, UInt32.toNat_mod, hstart, Nat.zero_mod]
  simp [fat32Read, hpos, hzero, hrest, getCluByOrder, hloop]

/-! ## Writing -/

/-- What `malloc` returns for a cluster. -/
def freshBytes (dev : Fat32Dev) (fresh : UInt32 → ℕ → UInt8) (written : UInt32) : List UInt8 :=
  (List.range dev.bytPerClu.toNat).map (fresh written)

/-- What stands behind `len` bytes written at `pos` over the bytes `old`: the old bytes, but up to
the end of the last cluster what `malloc` returned, unless the write fills that cluster or stays
inside a first cluster that it enters behind its start. -/
def Tail (dev : Fat32Dev) (fresh : UInt32 → ℕ → UInt8) (old : List UInt8) (pos len : ℕ)
    (t : List UInt8) : Prop :=
  if 0 < pos ∧ pos + len ≤ dev.bytPerClu.toNat ∨ (pos + len) % dev.bytPerClu.toNat = 0 then
    t = old.drop (pos + len)
  else ∃ written, t = (freshBytes dev fresh written).drop ((pos + len) % dev.bytPerClu.toNat) ++
    old.drop (pos + len + (dev.bytPerClu.toNat - (pos + len) % dev.bytPerClu.toNat))

variable {fresh : UInt32 → ℕ → UInt8} {f : File}

@[simp] lemma length_freshBytes (written : UInt32) :
    (freshBytes dev fresh written).length = dev.bytPerClu.toNat := by
  simp [freshBytes]

lemma length_memcpy {data bytes : List UInt8} {pos : ℕ} (hfit : pos + bytes.length ≤ data.length) :
    (memcpy data pos bytes).length = data.length := by
  simp only [memcpy, List.length_append, List.length_take, List.length_drop]
  omega

/-- What a step of the loop needs and keeps: the table from the start of the file on leads
through `xs` to `clu`, and from there on through `ys`. -/
structure Writing (dev : Fat32Dev) (n : ℕ) (f : File) (d : Store) (xs ys : List UInt32)
    (clu : UInt32) : Prop where
  reserved : ∀ c : UInt32, c.toNat < 2 → nextclu dev d c ≠ 0
  clusters : ∀ c ∈ xs ++ ys, IsCluster n c
  nodup : (xs ++ ys).Nodup
  nonempty : xs ++ ys ≠ []
  before : Follows (nextclu dev d) f.data xs clu
  after : IsChain (nextclu dev d) clu ys

/-- What a step keeps of the clusters and entries outside of the chain `zs` of the file, of which
`ys` are written. -/
structure KeepsOthers (dev : Fat32Dev) (n : ℕ) (d d' : Store) (ys zs : List UInt32) : Prop where
  read_eq : ∀ c, IsCluster n c → c ∉ ys → readclu dev d' c = readclu dev d c
  next_eq : ∀ c : UInt32, c.toNat < n + 2 → c ∉ zs → nextclu dev d' c = nextclu dev d c

namespace Writing

/-- At the end of the chain a free cluster is appended; elsewhere nothing is done. -/
lemma target (hw : Writing dev n f d xs ys c) (h : dev.Proper n)
    (hroom : ys = [] → freeClusters dev d n ≠ []) :
    ∃ x zs d', writeTarget dev d f c = (.ok x, d') ∧ Writing dev n f d' xs (x :: zs) x ∧
      (ys = x :: zs ∧ d' = d ∨ ys = [] ∧ zs = [] ∧ x ∈ freeClusters dev d n ∧
        freeClusters dev d' n = (freeClusters dev d n).erase x ∧
        KeepsOthers dev n d d' [] (xs ++ [x])) := by
  have hnum := h.numbers_lt
  cases ys with
  | cons x ys =>
    obtain ⟨e, ⟨rfl, hfollow⟩, hend⟩ := hw.after
    have hinuse := (hw.clusters c (by simp)).inuse hnum
    exact ⟨c, ys, d, by simp [writeTarget, hinuse], hw, .inl ⟨rfl, rfl⟩⟩
  | nil =>
    obtain ⟨e, rfl, hend⟩ := hw.after
    have hnot := not_inuse_of_end hend
    obtain ⟨pre, l, rfl⟩ : ∃ pre l, xs = pre ++ [l] := by
      have hne := hw.nonempty
      rw [List.append_nil] at hne
      exact ⟨xs.dropLast, xs.getLast hne, (List.dropLast_append_getLast hne).symm⟩
    have hcl := hw.clusters
    have hnd := hw.nodup
    rw [List.append_nil] at hcl hnd
    have hchain : IsChain (nextclu dev d) f.data (pre ++ [l]) := ⟨c, hw.before, hend⟩
    obtain ⟨x, hx, d', halloc, hnext, hread⟩ := h.allocclu_spec hw.reserved (hroom rfl) hchain hcl
      hnd
    obtain ⟨hclu, hzero⟩ := (mem_freeClusters hnum).mp hx
    have hl := hcl l (by simp)
    have hlx : nextclu dev d l ≠ 0 := hchain.entry_ne_zero hcl (by simp)
    have hxmem : x ∉ pre ++ [l] := fun hm => hchain.entry_ne_zero hcl hm hzero
    have hinuse := hclu.inuse hnum
    have hall : ∀ e ∈ pre ++ [l, x], IsCluster n e := by
      intro e he
      rcases List.mem_append.mp he with he | he
      · exact hcl e (by simp [he])
      · rcases List.mem_cons.mp he with rfl | he
        · exact hl
        · exact (List.mem_singleton.mp he) ▸ hclu
    obtain ⟨hbefore, hafter⟩ := hchain.append_new hnd hxmem fun e he => hnext e (hall e he).2
    refine ⟨x, [], d', ?_, ?_, .inr ⟨rfl, rfl, hx, freeClusters_alloc hnum hlx hx hnext, ?_⟩⟩
    · simp [writeTarget, hnot, hend, halloc, hinuse]
    · refine ⟨fun e he => ?_, by simpa using hall, ?_, by simp, hbefore, hafter⟩
      · have htwo := hclu.1
        have hltwo := hl.1
        rw [hnext e (by omega), if_neg (by rintro rfl; omega), if_neg (by rintro rfl; omega)]
        exact hw.reserved e he
      · rw [List.nodup_append']
        exact ⟨hnd, List.nodup_singleton x, List.disjoint_singleton.mpr hxmem⟩
    · refine ⟨fun e he _ => hread e he, fun e he hmem => ?_⟩
      rw [hnext e he, if_neg (by rintro rfl; simp at hmem), if_neg (by rintro rfl; simp at hmem)]

/-- Writing a cluster of the file keeps the table. -/
lemma writeclu (hw : Writing dev n f d xs ys a) (h : dev.Proper n) (hc : c ∈ xs ++ ys)
    {data : List UInt8} (hlen : data.length = dev.bytPerClu.toNat) :
    Writing dev n f (Fat32.writeclu dev d c data) xs ys a where
  reserved e he := by
    rw [h.nextclu_writeclu d (hw.clusters c hc) (by omega) hlen]
    exact hw.reserved e he
  clusters := hw.clusters
  nodup := hw.nodup
  nonempty := hw.nonempty
  before := hw.before.congr fun x hx =>
    h.nextclu_writeclu d (hw.clusters c hc) (hw.clusters x (by simp [hx])).2 hlen
  after := by
    obtain ⟨e, hfollow, hend⟩ := hw.after
    exact ⟨e, hfollow.congr fun x hx =>
      h.nextclu_writeclu d (hw.clusters c hc) (hw.clusters x (by simp [hx])).2 hlen, hend⟩

/-- The next step goes on behind the cluster. -/
lemma advance (hw : Writing dev n f d xs (c :: ys) c) :
    Writing dev n f d (xs ++ [c]) ys (nextclu dev d c) where
  reserved := hw.reserved
  clusters := by simpa using hw.clusters
  nodup := by simpa using hw.nodup
  nonempty := by simp
  before := hw.before.append ⟨rfl, rfl⟩
  after := by
    obtain ⟨e, hfollow, hend⟩ := hw.after
    exact ⟨e, hfollow.2, hend⟩

end Writing

lemma freeClusters_writeclu (h : dev.Proper n) (hc : IsCluster n c) {data : List UInt8}
    (hlen : data.length = dev.bytPerClu.toNat) :
    freeClusters dev (writeclu dev d c data) n = freeClusters dev d n := by
  refine List.filter_congr fun e he => ?_
  obtain ⟨i, hi, rfl⟩ := List.mem_map.mp he
  rw [h.nextclu_writeclu d hc _ hlen]
  rw [toNat_entry h.numbers_lt (List.mem_range.mp hi)]
  exact Nat.add_lt_add_right (List.mem_range.mp hi) 2

/-! ## One piece

`x` are the old bytes of the cluster that is written and `r` those behind it. At the end of the
chain the cluster is new, `old` and `r` are empty. -/
section Piece
variable {old x r buf : List UInt8} {pos : ℕ} {written : UInt32}

/-- What the code fills the buffer of a cluster with. -/
def base (dev : Fat32Dev) (fresh : UInt32 → ℕ → UInt8) (written : UInt32) (x : List UInt8)
    (pos : ℕ) : List UInt8 :=
  if pos ≠ 0 then x else freshBytes dev fresh written

lemma length_base (hx : x.length = dev.bytPerClu.toNat) (pos : ℕ) :
    (base dev fresh written x pos).length = dev.bytPerClu.toNat := by
  rw [base]
  split_ifs
  · exact hx
  · exact length_freshBytes written

/-- The last piece. -/
lemma piece_last (dev : Fat32Dev) (fresh : UInt32 → ℕ → UInt8) (written : UInt32)
    (hold : old = x ++ r ∨ old = [] ∧ r = [] ∧ pos = 0)
    (hx : x.length = dev.bytPerClu.toNat) (hlen : 0 < buf.length)
    (hfit : pos + buf.length ≤ dev.bytPerClu.toNat) :
    ∃ t, memcpy (base dev fresh written x pos) pos buf ++ r = old.take pos ++ buf ++ t ∧
      Tail dev fresh old pos buf.length t := by
  refine ⟨(base dev fresh written x pos).drop (pos + buf.length) ++ r, ?_, ?_⟩
  · rcases hold with rfl | ⟨rfl, rfl, rfl⟩
    · by_cases hp : pos = 0
      · simp [memcpy, hp]
      · simp [memcpy, base, hp, List.take_append_of_le_length (by omega : pos ≤ x.length)]
    · simp [memcpy]
  · have hbehind : ∀ m, dev.bytPerClu.toNat ≤ m → m ≤ dev.bytPerClu.toNat → old.drop m = r := by
      intro m hle hge
      rcases hold with rfl | ⟨rfl, rfl, -⟩
      · rw [List.drop_append_of_le_length (by omega), List.drop_eq_nil_of_le (by omega),
          List.nil_append]
      · exact List.drop_nil
    rw [Tail]
    by_cases hp : pos = 0
    · subst hp
      rw [Nat.zero_add] at hfit ⊢
      simp only [lt_self_iff_false, false_and, false_or, base, ne_eq, not_true_eq_false, if_false]
      rcases Nat.lt_or_eq_of_le hfit with hlt | heq
      · rw [Nat.mod_eq_of_lt hlt, if_neg (by omega)]
        exact ⟨written, by rw [hbehind _ (by omega) (by omega)]⟩
      · rw [heq, Nat.mod_self, if_pos rfl, hbehind _ le_rfl le_rfl,
          List.drop_eq_nil_of_le (by simp), List.nil_append]
    · rw [if_pos (.inl ⟨by omega, hfit⟩)]
      rcases hold with rfl | ⟨rfl, rfl, rfl⟩
      · simp [base, hp, List.drop_append_of_le_length (by omega : pos + buf.length ≤ x.length)]
      · exact absurd rfl hp

/-- A piece that fills its cluster. -/
lemma piece_full (hold : old = x ++ r ∨ old = [] ∧ r = [] ∧ pos = 0)
    (hx : x.length = dev.bytPerClu.toNat) (hpos : pos < dev.bytPerClu.toNat)
    (hmore : dev.bytPerClu.toNat - pos < buf.length) :
    memcpy (base dev fresh written x pos) pos (buf.take (dev.bytPerClu.toNat - pos)) =
      old.take pos ++ buf.take (dev.bytPerClu.toNat - pos) := by
  have htake : (buf.take (dev.bytPerClu.toNat - pos)).length = dev.bytPerClu.toNat - pos := by
    rw [List.length_take]
    omega
  have hdrop : (base dev fresh written x pos).drop
      (pos + (buf.take (dev.bytPerClu.toNat - pos)).length) = [] := by
    rw [htake]
    exact List.drop_eq_nil_of_le (by rw [length_base hx]; omega)
  rw [memcpy, hdrop, List.append_nil]
  congr 1
  by_cases hp : pos = 0
  · simp [hp]
  · rcases hold with rfl | ⟨-, -, rfl⟩
    · simp [base, hp, List.take_append_of_le_length (by omega : pos ≤ x.length)]
    · exact absurd rfl hp

/-- What stands behind the write is decided by the rest of it. -/
lemma Tail.of_rest (hold : old = x ++ r ∨ old = [] ∧ r = [] ∧ pos = 0)
    (hx : x.length = dev.bytPerClu.toNat) (hpos : pos < dev.bytPerClu.toNat) {len : ℕ}
    (hmore : dev.bytPerClu.toNat - pos < len) {t : List UInt8}
    (ht : Tail dev fresh r 0 (len - (dev.bytPerClu.toNat - pos)) t) :
    Tail dev fresh old pos len t := by
  have hsum : pos + len = len - (dev.bytPerClu.toNat - pos) + dev.bytPerClu.toNat := by omega
  have hdrop : ∀ m, old.drop (m + dev.bytPerClu.toNat) = r.drop m := by
    intro m
    rcases hold with rfl | ⟨rfl, rfl, -⟩
    · rw [← hx, Nat.add_comm, List.drop_length_add_append]
    · simp
  have hnot : ¬ (0 < pos ∧ pos + len ≤ dev.bytPerClu.toNat) := by omega
  rw [Tail] at ht ⊢
  simp only [lt_self_iff_false, false_and, false_or, Nat.zero_add] at ht
  simp only [hnot, false_or]
  simp only [hsum, Nat.add_mod_right, hdrop]
  split_ifs at ht ⊢ with hmod
  · exact ht
  · obtain ⟨w, rfl⟩ := ht
    refine ⟨w, ?_⟩
    rw [Nat.add_right_comm, hdrop]

end Piece

/-- What the loop does to the clusters from `pos` in the first of `ys` on: afterwards they are
`zs`, the chain of the file ends with them, and `buf` stands in them. -/
structure Written (dev : Fat32Dev) (n : ℕ) (f : File) (fresh : UInt32 → ℕ → UInt8) (d d' : Store)
    (xs ys zs : List UInt32) (pos : ℕ) (buf : List UInt8) : Prop where
  extends_eq : ∃ ws, zs = ys ++ ws ∧ ∀ w ∈ ws, w ∈ freeClusters dev d n
  chain : IsChain (nextclu dev d') f.data (xs ++ zs)
  clusters : ∀ c ∈ xs ++ zs, IsCluster n c
  nodup : (xs ++ zs).Nodup
  contents_eq : ∃ t, contents dev d' zs = (contents dev d ys).take pos ++ buf ++ t ∧
    Tail dev fresh (contents dev d ys) pos buf.length t
  keeps : KeepsOthers dev n d d' zs (xs ++ zs)

lemma Writing.written_nil (hw : Writing dev n f d xs ys c) {pos : ℕ}
    (hpos : pos < dev.bytPerClu.toNat) : Written dev n f fresh d d xs ys ys pos [] where
  extends_eq := ⟨[], (List.append_nil ys).symm, by simp⟩
  chain := by
    obtain ⟨e, hafter, hend⟩ := hw.after
    exact ⟨e, hw.before.append hafter, hend⟩
  clusters := hw.clusters
  nodup := hw.nodup
  contents_eq := by
    refine ⟨(contents dev d ys).drop pos, by simp, ?_⟩
    rw [Tail, List.length_nil, Nat.add_zero]
    by_cases hp : pos = 0
    · simp [hp]
    · rw [if_pos (.inl ⟨by omega, by omega⟩)]
  keeps := ⟨fun _ _ _ => rfl, fun _ _ _ => rfl⟩

/-- A piece in cluster `x`, and the loop behind it. -/
lemma Written.cons {d₁ d' : Store} {x : UInt32} {zs rest : List UInt32} {data buf' : List UInt8}
    {pos : ℕ} {buf : List UInt8} (h : dev.Proper n) (hw₁ : Writing dev n f d₁ xs (x :: rest) x)
    (hcase : ys = x :: rest ∧ d₁ = d ∨ ys = [] ∧ rest = [] ∧ x ∈ freeClusters dev d n ∧
      freeClusters dev d₁ n = (freeClusters dev d n).erase x ∧
      KeepsOthers dev n d d₁ [] (xs ++ [x]))
    (hlen : data.length = dev.bytPerClu.toNat)
    (hrest : Written dev n f fresh (writeclu dev d₁ x data) d' (xs ++ [x]) rest zs 0 buf')
    (hpiece : ∀ t, Tail dev fresh (contents dev d₁ rest) 0 buf'.length t → ∃ t',
      data ++ (buf' ++ t) = (contents dev d ys).take pos ++ buf ++ t' ∧
        Tail dev fresh (contents dev d ys) pos buf.length t') :
    Written dev n f fresh d d' xs ys (x :: zs) pos buf := by
  have hx := hw₁.clusters x (by simp)
  have hfree₂ := freeClusters_writeclu (d := d₁) h hx hlen
  obtain ⟨ws, rfl, hws⟩ := hrest.extends_eq
  have hnd : (xs ++ [x] ++ (rest ++ ws)).Nodup := hrest.nodup
  have hxrest : x ∉ rest ++ ws := by
    rw [List.append_assoc, List.singleton_append] at hnd
    exact (List.nodup_cons.mp (List.nodup_append'.mp hnd).2.1).1
  have hcontents : contents dev (writeclu dev d₁ x data) rest = contents dev d₁ rest := by
    refine contents_congr fun y hy => h.readclu_writeclu_of_ne d₁ hx (hw₁.clusters y (by simp [hy]))
      ?_ hlen
    rintro rfl
    exact hxrest (by simp [hy])
  have hkeep₁ : KeepsOthers dev n d d₁ [] (xs ++ [x]) := by
    rcases hcase with ⟨-, rfl⟩ | ⟨-, -, -, -, hkeep⟩
    · exact ⟨fun _ _ _ => rfl, fun _ _ _ => rfl⟩
    · exact hkeep
  refine ⟨?_, ?_, ?_, ?_, ?_, fun e he hmem => ?_, fun e he hmem => ?_⟩
  · rcases hcase with ⟨rfl, rfl⟩ | ⟨rfl, rfl, hxfree, hfree₁, -⟩
    · refine ⟨ws, rfl, fun w hw => ?_⟩
      rw [← hfree₂]
      exact hws w hw
    · refine ⟨x :: ws, rfl, fun w hw => ?_⟩
      rcases List.mem_cons.mp hw with rfl | hw
      · exact hxfree
      · have hmem := hws w hw
        rw [hfree₂, hfree₁] at hmem
        exact List.mem_of_mem_erase hmem
  · simpa using hrest.chain
  · simpa using hrest.clusters
  · simpa using hnd
  · obtain ⟨t, hbytes, htail⟩ := hrest.contents_eq
    rw [hcontents] at htail
    obtain ⟨t', heq, htail'⟩ := hpiece t htail
    have hxread : readclu dev d' x = data := by
      rw [hrest.keeps.read_eq x hx hxrest, h.readclu_writeclu d₁ hx hlen]
    refine ⟨t', ?_, htail'⟩
    rw [contents_cons, hxread, hbytes, List.take_zero, List.nil_append, heq]
  · have hex : e ≠ x := fun heq => hmem (by simp [heq])
    rw [hrest.keeps.read_eq e he fun hm => hmem (List.mem_cons_of_mem x hm),
      h.readclu_writeclu_of_ne d₁ hx he hex hlen, hkeep₁.read_eq e he (by simp)]
  · rw [hrest.keeps.next_eq e he (by simpa using hmem), h.nextclu_writeclu d₁ hx he hlen]
    refine hkeep₁.next_eq e he fun hm => hmem ?_
    rcases List.mem_append.mp hm with hm | hm <;> simp_all

lemma writeLoop_nil (fuel : ℕ) (clu pos written : UInt32) :
    writeLoop dev f fresh fuel d clu pos [] written = (.ok written, d) := by
  cases fuel <;> simp [writeLoop]

/-- The loop writes all of `buf` when there are enough free clusters. -/
theorem writeLoop_spec (h : dev.Proper n) (fuel : ℕ) (d : Store) (clu pos : UInt32)
    (buf : List UInt8) (written : UInt32) (hw : Writing dev n f d xs ys clu)
    (hpos : pos.toNat < dev.bytPerClu.toNat) (hstart : ys = [] → pos = 0)
    (hroom : pos.toNat + buf.length ≤
      (ys.length + (freeClusters dev d n).length) * dev.bytPerClu.toNat)
    (hfuel : buf.length ≤ fuel) :
    ∃ zs d', writeLoop dev f fresh fuel d clu pos buf written =
        (.ok (written + UInt32.ofNat buf.length), d') ∧
      Written dev n f fresh d d' xs ys zs pos.toNat buf := by
  induction fuel generalizing d clu pos buf written xs ys with
  | zero =>
    obtain rfl := List.length_eq_zero_iff.mp (Nat.le_zero.mp hfuel)
    exact ⟨ys, d, by simp [writeLoop], hw.written_nil hpos⟩
  | succ fuel ih =>
    by_cases hbuf : buf = []
    · subst hbuf
      exact ⟨ys, d, by simp [writeLoop], hw.written_nil hpos⟩
    have hnum := h.numbers_lt
    have hlen := List.length_pos_of_ne_nil hbuf
    have hfree : ys = [] → freeClusters dev d n ≠ [] := by
      rintro rfl hnil
      rw [hnil] at hroom
      simp only [List.length_nil, Nat.add_zero, Nat.zero_mul] at hroom
      omega
    obtain ⟨x, rest, d₁, htarget, hw₁, hcase⟩ := hw.target h hfree
    have hx := hw₁.clusters x (by simp)
    have hxlen := h.length_readclu d₁ hx
    -- the old bytes, seen from the cluster that is written
    have hold : contents dev d ys = readclu dev d₁ x ++ contents dev d₁ rest ∨
        contents dev d ys = [] ∧ contents dev d₁ rest = [] ∧ pos.toNat = 0 := by
      rcases hcase with ⟨rfl, rfl⟩ | ⟨rfl, rfl, -⟩
      · exact .inl rfl
      · exact .inr ⟨rfl, rfl, by rw [hstart rfl]; rfl⟩
    have hroom' : (dev.bytPerClu - pos).toNat = dev.bytPerClu.toNat - pos.toNat :=
      toNat_sub_of_le hpos.le
    have hposne : pos ≠ 0 ↔ pos.toNat ≠ 0 := not_congr UInt32.toNat_inj.symm
    have hbase : (if pos ≠ 0 then readclu dev d₁ x
        else (List.range dev.bytPerClu.toNat).map (fresh written)) =
        base dev fresh written (readclu dev d₁ x) pos.toNat := by
      rw [base, freshBytes]
      simp only [hposne]
    have hdata : ∀ bytes : List UInt8, pos.toNat + bytes.length ≤ dev.bytPerClu.toNat →
        (memcpy (base dev fresh written (readclu dev d₁ x) pos.toNat) pos.toNat bytes).length =
          dev.bytPerClu.toNat := by
      intro bytes hfit
      rw [length_memcpy (by rwa [length_base hxlen]), length_base hxlen]
    rw [writeLoop, if_neg hbuf, htarget]
    simp only [hbase, hroom']
    rcases Nat.lt_or_ge (dev.bytPerClu.toNat - pos.toNat) buf.length with hmore | hfit
    · rw [min_eq_left hmore.le]
      have htake : (buf.take (dev.bytPerClu.toNat - pos.toNat)).length =
          dev.bytPerClu.toNat - pos.toNat := by
        rw [List.length_take]
        omega
      have hlen₂ := hdata (buf.take (dev.bytPerClu.toNat - pos.toNat)) (by omega)
      have hne : buf.drop (dev.bytPerClu.toNat - pos.toNat) ≠ [] := by
        rw [← List.length_pos_iff, List.length_drop]
        omega
      rw [if_neg hne]
      have hw₂ := (hw₁.writeclu h (c := x) (by simp) hlen₂).advance
      have hfree₂ := freeClusters_writeclu (d := d₁) h hx hlen₂
      have hroom₂ : pos.toNat + buf.length ≤
          (rest.length + 1 + (freeClusters dev d₁ n).length) * dev.bytPerClu.toNat := by
        rcases hcase with ⟨rfl, rfl⟩ | ⟨rfl, rfl, hxfree, hfree₁, -⟩
        · simpa using hroom
        · have hpos' := List.length_pos_of_mem hxfree
          rw [hfree₁, List.length_erase_of_mem hxfree, List.length_nil]
          rw [List.length_nil] at hroom
          refine hroom.trans (Nat.mul_le_mul_right _ ?_)
          omega
      have hzero : (0 : UInt32).toNat = 0 := rfl
      have hleft : (buf.drop (dev.bytPerClu.toNat - pos.toNat)).length =
          buf.length - (dev.bytPerClu.toNat - pos.toNat) := List.length_drop
      obtain ⟨zs, d', hloop, hwritten⟩ := ih _ _ 0 (buf.drop (dev.bytPerClu.toNat - pos.toNat))
        (written + UInt32.ofNat (dev.bytPerClu.toNat - pos.toNat)) hw₂ (by rw [hzero]; omega)
        (fun _ => rfl) (by
          rw [Nat.add_right_comm, Nat.add_mul, Nat.one_mul, ← hfree₂] at hroom₂
          rw [hzero, hleft]
          omega) (by rw [hleft]; omega)
      refine ⟨x :: zs, d', ?_, Written.cons h hw₁ hcase hlen₂ hwritten ?_⟩
      · rw [hloop, hleft, UInt32.add_assoc, ← UInt32.ofNat_add,
          Nat.add_sub_of_le hmore.le]
      · intro t ht
        rw [hleft] at ht
        refine ⟨t, ?_, ht.of_rest hold hxlen hpos hmore⟩
        rw [piece_full hold hxlen hpos hmore]
        simp only [List.append_assoc]
        rw [← List.append_assoc (buf.take _), List.take_append_drop]
    · rw [min_eq_right hfit, List.take_length, List.drop_length, if_pos rfl, writeLoop_nil]
      have hlen₂ := hdata buf (by omega)
      have hw₂ := (hw₁.writeclu h (c := x) (by simp) hlen₂).advance
      refine ⟨x :: rest, _, rfl, Written.cons h hw₁ hcase hlen₂ (hw₂.written_nil (by omega)) ?_⟩
      intro t ht
      obtain ⟨t', heq, htail⟩ := piece_last dev fresh written hold hxlen hlen
        (by omega : pos.toNat + buf.length ≤ _)
      refine ⟨t', ?_, htail⟩
      rw [← heq]
      simpa [Tail] using ht

end Sgos.Fat32
