import Sgos.SystemString

/-!
# What the string class keeps

An object holds a text if its buffer has the text and a zero behind it, and `len` and `buf_size` are
the lengths of the text and of the buffer. One lemma for each function that changes an object: a
copy and a concatenation of texts hold what they should, if the memory is served, the lengths are
those of an `int` and nothing is copied onto its own end.
-/
namespace Sgos.SystemString
open ByteBuffer CString TextBuffer Outcome

variable {mem : Malloc} {s t : Str} {u v src : List UInt8}

/-- The buffer has the text in it. -/
structure Stores (s : Str) (v : List UInt8) : Prop where
  text : ∃ buf, s.buf = some buf ∧ cstring buf = some v ∧ s.bufSize = buf.length
  small : s.bufSize ≤ INT_MAX

/-- The object holds the text. -/
structure Holds (s : Str) (v : List UInt8) : Prop extends Stores s v where
  length : s.len = v.length

/-- The size of the buffer is the one that the object has of it. -/
structure Sized (s : Str) : Prop where
  size : s.bufSize = (s.buf.getD []).length
  small : s.bufSize ≤ INT_MAX

lemma init_sized : Sized init := ⟨rfl, by decide⟩

lemma Stores.sized (h : Stores s v) : Sized s := by
  obtain ⟨buf, hbuf, -, hsize⟩ := h.text
  exact ⟨by rw [hbuf]; exact hsize, h.small⟩

lemma Stores.zero_notMem (h : Stores s v) : (0 : UInt8) ∉ v := by
  obtain ⟨buf, -, htext, -⟩ := h.text
  exact (cstring_eq_some htext).1

lemma Stores.length_lt (h : Stores s v) : (v.length : ℤ) < s.bufSize := by
  obtain ⟨buf, -, htext, hsize⟩ := h.text
  obtain ⟨-, rest, rfl⟩ := cstring_eq_some htext
  rw [hsize, List.length_append, List.length_cons]
  omega

/-- A buffer that begins with the text and a zero. -/
lemma stores_of_append (rest : List UInt8) (hv : (0 : UInt8) ∉ v)
    (hbuf : s.buf = some (v ++ 0 :: rest)) (hsize : s.bufSize = (v ++ 0 :: rest).length)
    (hsmall : s.bufSize ≤ INT_MAX) : Stores s v :=
  ⟨⟨_, hbuf, cstring_append hv rest, hsize⟩, hsmall⟩

/-! ## Functions of the C library -/

lemma int_eq {x : ℤ} (h0 : 0 ≤ x) (h : x ≤ INT_MAX) : int x = x := by
  unfold INT_MAX at h
  unfold int
  rw [Int.bmod_def]
  omega

lemma malloc_gives (hmem : mem.Serves) {siz : ℤ} (h0 : 0 ≤ siz) (h : siz ≤ INT_MAX) :
    Gives (malloc mem siz) fun bytes => (bytes.length : ℤ) = siz := by
  intro i
  have hserve := hmem i siz.toNat (by omega)
  obtain ⟨bytes, hbytes⟩ := Option.ne_none_iff_exists'.mp hserve
  refine ⟨bytes, i + 1, ?_, ?_⟩
  · rw [malloc, hbytes]
    rfl
  · have hsize := mem.size _ _ _ hbytes
    dsimp only
    omega

lemma strlen_eq (h : cstring src = some u) (hu : (u.length : ℤ) ≤ INT_MAX) :
    strlen src = some (u.length : ℤ) := by
  rw [strlen, h, Option.map_some, int_eq (by omega) hu]

lemma strcpy_eq (dest : List UInt8) (h : cstring src = some u) (hfit : u.length < dest.length) :
    strcpy dest src = some (u ++ 0 :: dest.drop (u.length + 1)) := by
  have hlen : (u ++ [(0 : UInt8)]).length = u.length + 1 := by simp
  rw [strcpy, h, Option.bind_eq_bind, Option.bind_some, CString.sprintf,
    write_start dest _ (by rw [hlen]; exact hfit), hlen, List.append_assoc, List.singleton_append]

/-- A zero behind the text, or in place of its zero, leaves the text. -/
lemma putEnd_append (rest : List UInt8) {i : ℤ} (h0 : (v.length : ℤ) ≤ i)
    (h : i < (v ++ 0 :: rest).length) : ∃ rest', putEnd (v ++ 0 :: rest) i = some (v ++ 0 :: rest') ∧
      rest'.length = rest.length := by
  rw [putEnd, if_pos ⟨by omega, h⟩, List.set_append_right _ _ (by omega)]
  by_cases hi : i.toNat - v.length = 0
  · exact ⟨rest, by rw [hi, List.set_cons_zero], rfl⟩
  · obtain ⟨k, hk⟩ : ∃ k, i.toNat - v.length = k + 1 := ⟨i.toNat - v.length - 1, by omega⟩
    exact ⟨rest.set k 0, by rw [hk, List.set_cons_succ], List.length_set⟩

/-- Downwards in a buffer, the string arrives as it was. -/
lemma strcpyWithin_down {fuel dest k : ℕ} {buf : List UInt8} (hdown : dest ≤ k)
    (h : cstring (buf.drop k) = some u) (hfuel : u.length < fuel) :
    strcpyWithin fuel buf dest k = write buf dest (u ++ [0]) := by
  obtain ⟨fuel, rfl⟩ : ∃ n, fuel = n + 1 := ⟨fuel - 1, by omega⟩
  induction u generalizing fuel dest k buf with
  | nil =>
    obtain ⟨-, rest, hdrop⟩ := cstring_eq_some h
    have hget : buf[k]? = some 0 := by
      rw [← List.head?_drop, hdrop]
      rfl
    have hk := (List.getElem?_eq_some_iff.mp hget).1
    rw [strcpyWithin, hget, Option.bind_eq_bind, Option.bind_some, if_pos (by omega), if_pos rfl,
      List.nil_append, write_cons (by omega), write_nil]
    rw [List.length_set]
    omega
  | cons c u ih =>
    obtain ⟨hzero, rest, hdrop⟩ := cstring_eq_some h
    have hget : buf[k]? = some c := by
      rw [← List.head?_drop, hdrop]
      rfl
    have hk := (List.getElem?_eq_some_iff.mp hget).1
    have hc : c ≠ 0 := by
      rintro rfl
      exact hzero List.mem_cons_self
    have hrest : buf.drop (k + 1) = u ++ 0 :: rest := by
      rw [← List.drop_drop, hdrop]
      rfl
    have hnext : cstring ((buf.set dest c).drop (k + 1)) = some u := by
      rw [List.drop_set_of_lt (by omega), hrest]
      exact cstring_append (fun hm => hzero (List.mem_cons_of_mem _ hm)) rest
    obtain ⟨fuel, rfl⟩ : ∃ n, fuel = n + 1 := ⟨fuel - 1, by simp at hfuel; omega⟩
    rw [strcpyWithin, hget, Option.bind_eq_bind, Option.bind_some, if_pos (by omega), if_neg hc,
      ih (by omega) hnext fuel (by simpa using hfuel), List.cons_append, write_cons (by omega)]

/-! ## Growing -/

/-- A new buffer of an object without a text. -/
lemma grow_empty {siz : ℤ} {newstr : List UInt8} (hlen : s.len = 0) (hsiz : 0 < siz)
    (hnew : (newstr.length : ℤ) = siz) (hsmall : siz ≤ INT_MAX) :
    ∃ s', grow s siz newstr = some s' ∧ Stores s' [] ∧ s'.len = s.len ∧ s'.bufSize = siz := by
  have hcarry : carry s newstr = some newstr := if_neg (by omega)
  obtain ⟨c, tail, rfl⟩ : ∃ c tail, newstr = c :: tail := by
    apply List.exists_cons_of_ne_nil
    rintro rfl
    rw [List.length_nil] at hnew
    omega
  have hput : putEnd (c :: tail) s.len = some (0 :: tail) := by
    rw [putEnd, if_pos (by omega), hlen]
    rfl
  refine ⟨{ s with buf := some (0 :: tail), bufSize := siz }, ?_, ?_, rfl, rfl⟩
  · rw [grow, hcarry, Option.bind_eq_bind, Option.bind_some, hput]
    rfl
  · exact stores_of_append tail List.not_mem_nil rfl hnew.symm hsmall

/-- A new buffer of an object whose `len` has been raised in advance. -/
lemma grow_stores {siz : ℤ} {newstr : List UInt8} (hs : Stores s v) (hlen : (v.length : ℤ) ≤ s.len)
    (hsiz : s.len < siz) (hnew : (newstr.length : ℤ) = siz) (hsmall : siz ≤ INT_MAX) :
    ∃ s', grow s siz newstr = some s' ∧ Stores s' v ∧ s'.len = s.len ∧ s'.bufSize = siz := by
  by_cases hempty : s.len = 0
  · have hv : v = [] := List.eq_nil_of_length_eq_zero (by omega)
    rw [hv]
    exact grow_empty hempty (by omega) hnew hsmall
  obtain ⟨buf, hbuf, htext, -⟩ := hs.text
  have hcarry : carry s newstr = some (v ++ 0 :: newstr.drop (v.length + 1)) := by
    rw [carry, if_pos (by omega), hbuf, Option.bind_some, strcpy_eq newstr htext (by omega)]
  have hlength : (v ++ 0 :: newstr.drop (v.length + 1)).length = newstr.length := by
    rw [List.length_append, List.length_cons, List.length_drop]
    omega
  obtain ⟨rest, hput, hrest⟩ := putEnd_append (newstr.drop (v.length + 1)) hlen (by rw [hlength]; omega)
  refine ⟨{ s with buf := some (v ++ 0 :: rest), bufSize := siz }, ?_, ?_, rfl, rfl⟩
  · rw [grow, hcarry, Option.bind_eq_bind, Option.bind_some, hput]
    rfl
  · refine stores_of_append _ hs.zero_notMem rfl ?_ hsmall
    rw [← hnew, ← hlength, List.length_append, List.length_append, List.length_cons,
      List.length_cons, hrest]

/-- `mksize` keeps the text, also where `len` is ahead of it. -/
lemma mksize_stores (hmem : mem.Serves) (siz : ℤ) (hs : Stores s v)
    (hlen : s.bufSize < siz → (v.length : ℤ) ≤ s.len ∧ s.len < siz) (hsmall : siz ≤ INT_MAX) :
    Gives (mksize mem s siz) fun s' => Stores s' v ∧ s'.len = s.len ∧ siz ≤ s'.bufSize := by
  unfold mksize
  split_ifs with hgrow
  · obtain ⟨hlow, hhigh⟩ := hlen hgrow
    refine (malloc_gives hmem (by omega) hsmall).bind fun newstr hnew => ?_
    obtain ⟨s', hs', hstores, hlen', hsize⟩ := grow_stores hs hlow hhigh hnew hsmall
    exact gives_ofOption hs' ⟨hstores, hlen', hsize.ge⟩
  · exact gives_pure ⟨hs, rfl, by omega⟩

/-- `mksize` of an object whose text is given up. -/
lemma mksize_room (hmem : mem.Serves) {siz : ℤ} (hs : Sized s) (hlen : s.len = 0) (h0 : 0 < siz)
    (hsmall : siz ≤ INT_MAX) :
    Gives (mksize mem s siz) fun s' => ∃ buf, s'.buf = some buf ∧ s'.bufSize = buf.length ∧
      siz ≤ s'.bufSize ∧ s'.bufSize ≤ INT_MAX := by
  unfold mksize
  split_ifs with hgrow
  · refine (malloc_gives hmem h0.le hsmall).bind fun newstr hnew => ?_
    obtain ⟨s', hs', hstores, -, hsize⟩ := grow_empty hlen h0 hnew hsmall
    obtain ⟨buf, hbuf, -, hlength⟩ := hstores.text
    exact gives_ofOption hs' ⟨buf, hbuf, hlength, hsize.ge, hstores.small⟩
  · obtain ⟨buf, hbuf⟩ : ∃ buf, s.buf = some buf := by
      apply Option.ne_none_iff_exists'.mp
      intro hnone
      have hsize := hs.size
      rw [hnone] at hsize
      simp at hsize
      omega
    have hsize := hs.size
    rw [hbuf] at hsize
    exact gives_pure ⟨buf, hbuf, hsize, by omega, hs.small⟩

/-- `string()`. -/
lemma construct_spec (hmem : mem.Serves) :
    Gives (construct mem) fun s => Holds s [] ∧ s.bufSize = 16 := by
  have hsiz : (16 : ℤ) ≤ INT_MAX := by decide
  refine (malloc_gives hmem (by decide) hsiz).bind fun newstr hnew => ?_
  obtain ⟨s', hs', hstores, hlen, hsize⟩ := grow_empty (s := init) rfl (by decide) hnew hsiz
  exact gives_ofOption hs' ⟨⟨hstores, hlen⟩, hsize⟩

/-! ## Copies -/

lemma fillWith_spec {buf : List UInt8} (hsrc : cstring src = some u) (hbuf : s.buf = some buf)
    (hsize : s.bufSize = buf.length) (hsmall : s.bufSize ≤ INT_MAX) (hfit : u.length < buf.length) :
    ∃ s', fillWith s src u.length = some s' ∧ Holds s' u := by
  refine ⟨{ s with buf := some (u ++ 0 :: buf.drop (u.length + 1)), len := u.length }, ?_, ?_, rfl⟩
  · rw [fillWith, hbuf]
    simp only [strcpy_eq buf hsrc hfit, Option.map_some]
  · refine stores_of_append _ (cstring_eq_some hsrc).1 rfl ?_ hsmall
    rw [hsize, List.length_append, List.length_cons, List.length_drop]
    omega

/-- A copy of a string outside of the object. -/
lemma copy_spec (hmem : mem.Serves) (hs : Sized s) (hsrc : cstring src = some u)
    (hu : (u.length : ℤ) < INT_MAX) : Gives (copy mem s src) (Holds · u) := by
  have hnext : int ((u.length : ℤ) + 1) = u.length + 1 := int_eq (by omega) (by omega)
  refine (gives_ofOption (strlen_eq hsrc (by omega)) rfl).bind fun n hn => ?_
  subst hn
  rw [hnext]
  have hsized : Sized { s with len := 0 } := ⟨hs.size, hs.small⟩
  refine (mksize_room hmem hsized rfl (by omega) (by omega)).bind fun s' hs' => ?_
  obtain ⟨buf, hbuf, hsize, hroom, hsmall⟩ := hs'
  obtain ⟨s'', hs'', hholds⟩ := fillWith_spec hsrc hbuf hsize hsmall (by omega)
  exact gives_ofOption hs'' hholds

lemma constructText_spec (hmem : mem.Serves) (hsrc : cstring src = some u)
    (hu : (u.length : ℤ) < INT_MAX) : Gives (constructText mem (some src)) (Holds · u) :=
  copy_spec hmem init_sized hsrc hu

lemma Holds.length_lt_max (h : Holds s v) : (v.length : ℤ) < INT_MAX :=
  lt_of_lt_of_le h.length_lt h.small

lemma constructCopy_spec (hmem : mem.Serves) (hs : Holds s v) :
    Gives (constructCopy mem s) (Holds · v) := by
  obtain ⟨buf, hbuf, htext, -⟩ := hs.text
  refine (gives_ofOption hbuf rfl).bind fun b hb => ?_
  subst hb
  exact copy_spec hmem init_sized htext hs.length_lt_max

/-- A copy of a string of the object's own buffer needs no more room. -/
lemma copyWithin_spec {buf : List UInt8} {k : ℕ} (hs : Stores s v) (hbuf : s.buf = some buf)
    (hsrc : cstring (buf.drop k) = some u) : ∃ s', copyWithin s k = some s' ∧ Holds s' u := by
  obtain ⟨buf', hbuf', htext, hsize⟩ := hs.text
  cases hbuf.symm.trans hbuf'
  have hsmall := hs.small
  obtain ⟨hu, rest, hdrop⟩ := cstring_eq_some hsrc
  have hlength := congrArg List.length hdrop
  rw [List.length_drop, List.length_append, List.length_cons] at hlength
  have hfit : (u ++ [(0 : UInt8)]).length ≤ buf.length := by
    rw [List.length_append, List.length_singleton]
    omega
  have hnext : int ((u.length : ℤ) + 1) = u.length + 1 := int_eq (by omega) (by omega)
  refine ⟨{ s with buf := some (u ++ 0 :: buf.drop (u.length + 1)), len := u.length }, ?_, ?_, rfl⟩
  · rw [copyWithin, hbuf, Option.bind_eq_bind, Option.bind_some, strlen_eq hsrc (by omega),
      Option.bind_eq_bind, Option.bind_some, hnext, if_neg (by omega),
      strcpyWithin_down (Nat.zero_le k) hsrc (by omega), write_start _ _ hfit]
    simp
  · refine stores_of_append _ hu rfl ?_ hsmall
    rw [hsize, List.length_append, List.length_cons, List.length_drop]
    omega

/-- Self-assignment leaves the text. -/
lemma copyWithin_self (hs : Stores s v) : ∃ s', copyWithin s 0 = some s' ∧ Holds s' v := by
  obtain ⟨buf, hbuf, htext, -⟩ := hs.text
  exact copyWithin_spec hs hbuf htext

/-! ## Concatenations -/

lemma strcatTo_spec {w : List UInt8} (hs : Stores s v) (hsrc : cstring src = some w)
    (hfit : (v.length : ℤ) + w.length < s.bufSize) :
    ∃ s', strcatTo s src = some s' ∧ Stores s' (v ++ w) ∧ s'.len = s.len := by
  obtain ⟨buf, hbuf, htext, hsize⟩ := hs.text
  obtain ⟨hv, rest, rfl⟩ := cstring_eq_some htext
  have hw := (cstring_eq_some hsrc).1
  rw [List.length_append, List.length_cons] at hsize
  have hcat : strcat (v ++ 0 :: rest) 0 w =
      some (v ++ (w ++ [0]) ++ (0 :: rest).drop (w ++ [(0 : UInt8)]).length) := by
    rw [strcat, List.drop_zero, htext, Option.bind_eq_bind, Option.bind_some, Nat.zero_add,
      write_front rfl _ _ (by simp; omega)]
  have hlen : (w ++ [(0 : UInt8)]).length = w.length + 1 := by simp
  rw [hlen, List.drop_succ_cons] at hcat
  refine ⟨{ s with buf := some (v ++ w ++ 0 :: rest.drop w.length) }, ?_, ?_, rfl⟩
  · rw [strcatTo, hbuf, Option.bind_eq_bind, Option.bind_some, hsrc, Option.bind_some, hcat]
    simp
  · refine stores_of_append _ ?_ rfl ?_ hs.small
    · rw [List.mem_append, not_or]
      exact ⟨hv, hw⟩
    · rw [hsize]
      simp only [List.length_append, List.length_cons, List.length_drop]
      omega

/-- `+` appends a string that lies outside of the object. -/
lemma append_spec (hmem : mem.Serves) {w : List UInt8} (hs : Holds s v) (hsrc : cstring src = some w)
    (hsum : (v.length : ℤ) + w.length < INT_MAX) :
    Gives (append mem s w.length src) (Holds · (v ++ w)) := by
  have hlen := hs.length
  have hraise : int (s.len + w.length) = v.length + w.length := by
    rw [hlen]
    exact int_eq (by omega) (by omega)
  have hnext : int ((v.length : ℤ) + w.length + 1) = v.length + w.length + 1 :=
    int_eq (by omega) (by omega)
  have hstores : Stores { s with len := (v.length : ℤ) + w.length } v := ⟨hs.text, hs.small⟩
  unfold append
  rw [hraise, hnext]
  have hgrow := mksize_stores hmem ((v.length : ℤ) + w.length + 1) hstores
    (fun _ => ⟨by dsimp only; omega, by dsimp only; omega⟩) (by omega)
  refine hgrow.bind fun s' hs' => ?_
  obtain ⟨hstores', hlen', hroom⟩ := hs'
  obtain ⟨s'', hs'', hstores'', hlen''⟩ := strcatTo_spec hstores' hsrc (by omega)
  refine gives_ofOption hs'' ⟨hstores'', ?_⟩
  rw [hlen'', hlen', List.length_append]
  exact (Nat.cast_add _ _).symm

lemma plus_spec (hmem : mem.Serves) {w : List UInt8} (hs : Holds s v) (ht : Holds t w)
    (hsum : (v.length : ℤ) + w.length < INT_MAX) : Gives (plus mem s t) (Holds · (v ++ w)) := by
  obtain ⟨buf, hbuf, htext, -⟩ := ht.text
  refine (gives_ofOption hbuf rfl).bind fun b hb => ?_
  subst hb
  rw [ht.length]
  exact append_spec hmem hs htext hsum

lemma plusText_spec (hmem : mem.Serves) {w : List UInt8} (hs : Holds s v)
    (hsrc : cstring src = some w) (hsum : (v.length : ℤ) + w.length < INT_MAX) :
    Gives (plusText mem s src) (Holds · (v ++ w)) := by
  refine (gives_ofOption (strlen_eq hsrc (by omega)) rfl).bind fun n hn => ?_
  subst hn
  exact append_spec hmem hs hsrc hsum

lemma plusAssign_spec (hmem : mem.Serves) {w : List UInt8} (hs : Holds s v) (ht : Holds t w)
    (hsum : (v.length : ℤ) + w.length < INT_MAX) : Gives (plusAssign mem s t) (Holds · (v ++ w)) := by
  refine (plus_spec hmem hs ht hsum).bind fun s' hs' => ?_
  obtain ⟨s'', hs'', hholds⟩ := copyWithin_self hs'.toStores
  exact gives_ofOption hs'' hholds

end Sgos.SystemString
