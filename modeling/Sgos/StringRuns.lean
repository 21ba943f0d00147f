import Sgos.GuardedRun
import Sgos.StringStore
import Sgos.StringReplace

/-!
# What programs over strings keep

After each operation every object should have a buffer, `len` should be the length of the string
in it and less than the size, `+=` should have appended its argument, and no object but the one
that is assigned to should have changed. That holds of all runs that keep clear of the operations
that leave a buffer, or change an operand.
-/
namespace Sgos.SystemString
open ByteBuffer CString TextBuffer Outcome Occurrences GuardedRun

variable {mem : Malloc} {σ : Store} {s : ℕ} {o : Str} {a : Arg} {u v w buf src : List UInt8}

/-- `buf` is not null, and `len = strlen( buf ) < buf_size`. -/
def Sound (o : Str) : Prop :=
  ∃ buf, o.buf = some buf ∧ strlen buf = some o.len ∧ o.len < o.bufSize

/-- The string at a pointer. -/
def stringAt (memory : Option (List UInt8)) : List UInt8 := (memory.bind cstring).getD []

/-- The value of the object `t`. -/
def text (σ : Store) (t : ℕ) : List UInt8 := stringAt ((σ t).bind (·.buf))

def argText (σ : Store) (a : Arg) : List UInt8 := stringAt (a.memory σ)

/-- The object that an operation assigns to, or makes; `+` is no assignment. -/
def Op.assigned : Op → Option ℕ
  | .plus _ _ => none
  | op => some op.target

/-- The representation, the meaning of `+=`, and the operands. -/
structure Kept (σ : Store) (op : Op) (σ' : Store) : Prop where
  sound : ∀ t o, σ' t = some o → Sound o
  appended : ∀ s a, op = .plusAssign s a → text σ' s = text σ s ++ argText σ a
  unchanged : ∀ t, op.assigned ≠ some t → σ' t = σ t

/-- The operation ends, and what it should keep is kept. -/
def StepKept (mem : Malloc) (x : Option (Store × ℕ)) (op : Op) : Prop :=
  ∃ y, x = some y ∧ ∃ z, step mem x op = some z ∧ Kept y.1 op z.1

/-- Every object holds a text. -/
def AllHold (σ : Store) : Prop := ∀ t o, σ t = some o → ∃ v, Holds o v

/-- Null, or a pointer to a string. -/
def Arg.Proper (σ : Store) (a : Arg) : Prop :=
  a = .ptr .null ∨ ((a.memory σ).bind cstring).isSome

/-- The operands exist, and the result is a new object. -/
def Op.Proper (σ : Store) : Op → Prop
  | .construct d => σ d = none
  | .constructText d p => σ d = none ∧ (Arg.ptr p).Proper σ
  | .constructCopy d t => σ d = none ∧ (σ t).isSome
  | .assign s a | .plus s a | .plusAssign s a => (σ s).isSome ∧ a.Proper σ
  | .replace d s src dest => σ d = none ∧ (σ s).isSome ∧ (σ src).isSome ∧ (σ dest).isSome
  | .left d s _ | .right d s _ | .mid d s _ _ | .trim d s _ => σ d = none ∧ (σ s).isSome
  | .fromInteger s _ => (σ s).isSome

/-- No null pointers, nothing longer than an `int` can count, no `+` that changes its operand, no
`+=` of a string that begins in the text it is appended to, no empty word to replace, and no part
of a string that is cut outside of it. -/
def Op.Allowed (σ : Store) : Op → Prop
  | .construct _ | .constructCopy _ _ | .left _ _ _ | .fromInteger _ _ => True
  | .constructText _ p => p ≠ .null ∧ ((argText σ (.ptr p)).length : ℤ) < INT_MAX
  | .assign _ a => a ≠ .ptr .null ∧ ((argText σ a).length : ℤ) < INT_MAX
  | .plus _ a => a ≠ .ptr .null ∧ argText σ a = []
  | .plusAssign s a => a ≠ .ptr .null ∧ ((text σ s).length : ℤ) + (argText σ a).length < INT_MAX ∧
      ∀ k, a.within s = some k → (text σ s).length ≤ k
  | .replace _ s src dest => (text σ src ≠ [] ∨ text σ s = []) ∧
      ((replaced (text σ src) (text σ dest) (text σ s)).length : ℤ) < INT_MAX
  | .right _ s sublen =>
      sublen.toInt ≤ 0 ∨ text σ s = [] ∨ sublen.toInt < (text σ s).length
  | .mid _ _ start sublen => MidFits start sublen
  | .trim _ s part => ∃ x ∈ text σ s, x ≠ part

/-- A proper operation of a program that has not gone wrong. -/
def StepProper (x : Option (Store × ℕ)) (op : Op) : Prop := ∃ y, x = some y ∧ op.Proper y.1

/-- It keeps clear of the defects. -/
def StepOk (x : Option (Store × ℕ)) (op : Op) : Prop :=
  ∃ y, x = some y ∧ op.Proper y.1 ∧ op.Allowed y.1

instance (σ : Store) (a : Arg) : Decidable (a.Proper σ) := by
  unfold Arg.Proper
  infer_instance

instance (σ : Store) (op : Op) : Decidable (op.Proper σ) := by
  cases op <;> unfold Op.Proper <;> infer_instance

instance (σ : Store) (op : Op) : Decidable (op.Allowed σ) := by
  cases op <;> unfold Op.Allowed <;> (try unfold MidFits) <;> infer_instance

instance (x : Option (Store × ℕ)) (op : Op) : Decidable (StepProper x op) :=
  match x with
  | some y => decidable_of_iff (op.Proper y.1) (by simp [StepProper])
  | none => isFalse (by simp [StepProper])

instance (x : Option (Store × ℕ)) (op : Op) : Decidable (StepOk x op) :=
  match x with
  | some y => decidable_of_iff (op.Proper y.1 ∧ op.Allowed y.1) (by simp [StepOk])
  | none => isFalse (by simp [StepOk])

/-! ## Strings behind the text of a buffer -/

/-- A string of the buffer that is appended to the text in front of it finds room. -/
lemma strcatWithin_spec {k : ℕ} {o : Str} (ho : Stores o v) (hbuf : o.buf = some buf)
    (hsrc : cstring (buf.drop k) = some w) (hk : v.length ≤ k) :
    ∃ o', strcatWithin o k = some o' ∧ Stores o' (v ++ w) ∧ o'.len = o.len ∧ (w = [] → o' = o) := by
  obtain ⟨buf', hbuf', htext, hsize⟩ := ho.text
  cases hbuf.symm.trans hbuf'
  obtain ⟨hw, tail, htail⟩ := cstring_eq_some hsrc
  obtain ⟨hv, rest, hrest⟩ := cstring_eq_some htext
  have hroom := congrArg List.length htail
  have hlength := congrArg List.length hrest
  rw [List.length_drop, List.length_append, List.length_cons] at hroom
  rw [List.length_append, List.length_cons] at hlength
  have hend : (w ++ [(0 : UInt8)]).length = w.length + 1 := by simp
  have hwrite : write buf v.length (w ++ [0]) = some (v ++ w ++ 0 :: rest.drop w.length) := by
    rw [hrest, write_front rfl _ _ (by rw [hend, List.length_cons]; omega), hend,
      List.drop_succ_cons]
    simp
  refine ⟨{ o with buf := some (v ++ w ++ 0 :: rest.drop w.length) }, ?_, ?_, rfl, ?_⟩
  · rw [strcatWithin, hbuf, Option.bind_eq_bind, Option.bind_some, htext, Option.bind_some,
      strcpyWithin_down hk hsrc (by omega), hwrite]
    rfl
  · refine stores_of_append _ ?_ rfl ?_ ho.small
    · rw [List.mem_append, not_or]
      exact ⟨hv, hw⟩
    · rw [hsize]
      simp only [List.length_append, List.length_cons, List.length_drop]
      omega
  · rintro rfl
    rw [List.append_nil, List.length_nil, List.drop_zero, ← hrest, ← hbuf]

lemma plusWithin_spec {k : ℕ} (ho : Holds o v) (hbuf : o.buf = some buf)
    (hsrc : cstring (buf.drop k) = some w) (hk : v.length ≤ k) :
    ∃ o', plusWithin o k = some o' ∧ Holds o' (v ++ w) ∧ (w = [] → o' = o) := by
  have hlen := ho.length
  have hsmall := ho.small
  obtain ⟨buf', hbuf', -, hsize⟩ := ho.text
  cases hbuf.symm.trans hbuf'
  obtain ⟨-, tail, htail⟩ := cstring_eq_some hsrc
  have hroom := congrArg List.length htail
  rw [List.length_drop, List.length_append, List.length_cons] at hroom
  have hfit : (v.length : ℤ) + w.length + 1 ≤ o.bufSize := by omega
  have hn : strlen (buf.drop k) = some (w.length : ℤ) := strlen_eq hsrc (by omega)
  have hsum : int (o.len + w.length) = v.length + w.length := by
    rw [hlen]
    exact int_eq (by omega) (by omega)
  have hnext : int ((v.length : ℤ) + w.length + 1) = v.length + w.length + 1 :=
    int_eq (by omega) (by omega)
  have hstores : Stores { o with len := (v.length : ℤ) + w.length } v := ⟨ho.text, ho.small⟩
  obtain ⟨o', ho', hstores', hlen', hsame⟩ := strcatWithin_spec hstores hbuf hsrc hk
  refine ⟨o', ?_, ⟨hstores', ?_⟩, ?_⟩
  · rw [hbuf] at ho'
    rw [plusWithin, hbuf, Option.bind_eq_bind, Option.bind_some, hn, Option.bind_eq_bind,
      Option.bind_some, hsum, hnext, if_neg (not_lt.mpr hfit)]
    exact ho'
  · rw [hlen', List.length_append]
    exact (Nat.cast_add _ _).symm
  · intro hnil
    rw [hsame hnil, hnil, List.length_nil, Nat.cast_zero, add_zero, ← hlen]

/-- The empty string can be appended to itself. -/
lemma plusSelf_nil (ho : Holds o []) : Gives (plusSelf mem o) (· = o) := by
  have hlen : o.len = 0 := ho.length
  have hsize := ho.length_lt
  rw [List.length_nil, Nat.cast_zero] at hsize
  obtain ⟨buf, hbuf, htext, -⟩ := ho.text
  obtain ⟨o', ho', -, -, hsame⟩ := strcatWithin_spec (k := 0) ho.toStores hbuf htext le_rfl
  have hraise : ({ o with len := int (o.len + o.len) } : Str) = o := by
    rw [hlen, show int (0 + 0) = o.len by rw [hlen]; rfl]
  have hgrow : ¬int (int (o.len + o.len) + 1) > o.bufSize := by
    rw [hlen, show int (int (0 + 0) + 1) = 1 by rfl]
    omega
  unfold plusSelf mksize
  rw [hraise, if_neg hgrow]
  refine (gives_pure (P := (· = o)) rfl).bind fun b hb => ?_
  rw [hb]
  exact gives_ofOption ho' (hsame rfl)

/-- With an empty argument `+` changes nothing. -/
lemma append_nil (ho : Holds o v) (hsrc : cstring src = some []) :
    Gives (append mem o 0 src) (· = o) := by
  have hlen := ho.length
  have hsmall := ho.small
  have hsize := ho.length_lt
  obtain ⟨buf, hbuf, htext, -⟩ := ho.text
  obtain ⟨hv, rest, hrest⟩ := cstring_eq_some htext
  have hint : int (o.len + 0) = o.len := by rw [add_zero, int_eq (by omega) (by omega)]
  have hnext : int (o.len + 1) = o.len + 1 := int_eq (by omega) (by omega)
  have hcat : strcatTo o src = some o := by
    rw [strcatTo, hbuf, Option.bind_eq_bind, Option.bind_some, hsrc, Option.bind_some,
      strcat, List.drop_zero, htext, Option.bind_eq_bind, Option.bind_some,
      Nat.zero_add, hrest, write_front rfl _ _ (by simp)]
    rw [List.nil_append, List.length_singleton, List.drop_succ_cons, List.drop_zero,
      List.append_assoc, List.singleton_append, ← hrest, ← hbuf]
    rw [hbuf, Option.bind_some, ← hbuf]
  unfold append mksize
  rw [hint, hnext, if_neg (by dsimp only; omega)]
  refine (gives_pure (P := (· = o)) rfl).bind fun b hb => ?_
  rw [hb]
  exact gives_ofOption hcat rfl

/-! ## Numbers -/

lemma digits_spec (k num : ℕ) (hnum : num < 10 ^ k) (fuel : ℕ) :
    (digits fuel num).length ≤ k ∧ (0 : UInt8) ∉ digits fuel num := by
  induction fuel generalizing k num with
  | zero => exact ⟨Nat.zero_le _, List.not_mem_nil⟩
  | succ fuel ih =>
    rw [digits]
    split_ifs with hzero
    · exact ⟨Nat.zero_le _, List.not_mem_nil⟩
    · obtain ⟨k, rfl⟩ : ∃ j, k = j + 1 := by
        cases k with
        | zero => omega
        | succ k => exact ⟨k, rfl⟩
      have hdiv : num / 10 < 10 ^ k := by
        apply Nat.div_lt_of_lt_mul
        rwa [← Nat.pow_succ']
      obtain ⟨hlength, hno⟩ := ih k (num / 10) hdiv
      refine ⟨Nat.succ_le_succ hlength, ?_⟩
      rw [List.mem_cons, not_or]
      refine ⟨fun hdigit => ?_, hno⟩
      have hbyte := congrArg UInt8.toNat hdigit
      rw [Nat.toUInt8, UInt8.toNat_ofNat'] at hbyte
      have hmod := Nat.mod_lt num (by decide : 10 > 0)
      rw [UInt8.toNat_zero] at hbyte
      omega

/-- An `int` has at most eleven characters. -/
lemma decimal_spec (number : Int32) :
    (decimal number.toInt).length ≤ 11 ∧ (0 : UInt8) ∉ decimal number.toInt := by
  have hlow := number.le_toInt
  have hhigh := number.toInt_lt
  obtain ⟨hlength, hno⟩ := digits_spec 10 number.toInt.natAbs (by omega) 36
  rw [decimal]
  split_ifs with hneg hzero hzero
  · omega
  · rw [List.length_append, List.length_reverse, List.length_singleton, List.mem_append, not_or,
      List.mem_reverse]
    exact ⟨by omega, by decide, hno⟩
  · decide
  · rw [List.nil_append, List.length_reverse, List.mem_reverse]
    exact ⟨by omega, hno⟩

lemma fromInteger_spec (hmem : mem.Serves) (ho : Holds o v) (number : Int32) :
    Gives (fromInteger mem o number.toInt) (Holds · (decimal number.toInt)) := by
  have hlen := ho.length
  have hsize := ho.length_lt
  obtain ⟨hlength, hno⟩ := decimal_spec number
  have hgrow := mksize_stores hmem 16 ho.toStores (fun h => ⟨hlen.ge, by omega⟩) (by decide)
  refine hgrow.bind fun o' ho' => ?_
  obtain ⟨hstores, -, hroom⟩ := ho'
  obtain ⟨buf, hbuf, -, hsize'⟩ := hstores.text
  have hend : (decimal number.toInt ++ [(0 : UInt8)]).length = (decimal number.toInt).length + 1 := by
    simp
  have hfit : (decimal number.toInt ++ [(0 : UInt8)]).length ≤ buf.length := by omega
  refine (gives_ofOption (P := (· = buf)) hbuf rfl).bind fun b hb => ?_
  subst hb
  refine (gives_ofOption (write_start b _ hfit) rfl).bind fun b' hb' => gives_pure ?_
  rw [hend, List.append_assoc, List.singleton_append] at hb'
  refine ⟨stores_of_append _ hno (congrArg some hb'.symm) ?_ hstores.small, rfl⟩
  dsimp only
  rw [hsize', List.length_append, List.length_cons, List.length_drop]
  omega

/-! ## Arguments -/

lemma arg_string (hproper : a.Proper σ) (hnull : a ≠ .ptr .null) :
    ∃ src, a.memory σ = some src ∧ cstring src = some (argText σ a) := by
  obtain ⟨u, hu⟩ := Option.isSome_iff_exists.mp (hproper.resolve_left hnull)
  obtain ⟨src, hsrc, htext⟩ := Option.bind_eq_some_iff.mp hu
  refine ⟨src, hsrc, ?_⟩
  rw [argText, stringAt, hu]
  exact htext

/-- An argument that lies in the buffer of an object. -/
lemma memory_within {k : ℕ} (hs : σ s = some o) (hbuf : o.buf = some buf)
    (hk : a.within s = some k) : a.memory σ = some (buf.drop k) := by
  cases a with
  | str t =>
    obtain ⟨rfl, hzero⟩ := Option.ite_none_right_eq_some.mp hk
    cases hzero
    rw [Arg.memory, hs, Option.bind_some, hbuf, List.drop_zero]
  | ptr p =>
    cases p with
    | null => cases hk
    | outside memory => cases hk
    | inside t k' =>
      obtain ⟨rfl, hsame⟩ := Option.ite_none_right_eq_some.mp hk
      cases hsame
      rw [Arg.memory, Ptr.memory, hs, Option.bind_some, hbuf, Option.map_some]

lemma text_eq (hs : σ s = some o) (ho : Holds o v) : text σ s = v := by
  obtain ⟨buf, hbuf, htext, -⟩ := ho.text
  rw [text, stringAt, hs, Option.bind_some, hbuf, Option.bind_some, htext, Option.getD_some]

/-- The empty string in a buffer is behind the text. -/
lemma le_of_empty {k : ℕ} (ho : Holds o v) (hbuf : o.buf = some buf)
    (hsrc : cstring (buf.drop k) = some []) : v.length ≤ k := by
  obtain ⟨buf', hbuf', htext, -⟩ := ho.text
  cases hbuf.symm.trans hbuf'
  obtain ⟨hv, rest, hrest⟩ := cstring_eq_some htext
  by_contra hless
  have hno : (0 : UInt8) ∉ v.drop k := fun h => hv (List.mem_of_mem_drop h)
  rw [hrest, List.drop_append_of_le_length (by omega), cstring_append hno, Option.some.injEq,
    List.drop_eq_nil_iff] at hsrc
  exact hless hsrc

/-! ## Assignments -/

lemma assignTo_spec (hmem : mem.Serves) (hs : σ s = some o) (ho : Holds o v)
    (hproper : a.Proper σ) (hnull : a ≠ .ptr .null)
    (hsmall : ((argText σ a).length : ℤ) < INT_MAX) :
    Gives (assignTo mem σ s o a) (Holds · (argText σ a)) := by
  obtain ⟨src, hsrc, htext⟩ := arg_string hproper hnull
  unfold assignTo
  cases hwithin : a.within s with
  | some k =>
    obtain ⟨buf, hbuf, -, -⟩ := ho.text
    cases (memory_within hs hbuf hwithin).symm.trans hsrc
    obtain ⟨o', ho', hholds⟩ := copyWithin_spec ho.toStores hbuf htext
    exact gives_ofOption ho' hholds
  | none =>
    refine (gives_ofOption (P := (· = src)) hsrc rfl).bind fun b hb => ?_
    subst hb
    exact copy_spec hmem ho.toStores.sized htext hsmall

/-- `+` appends, and changes nothing if there is nothing to append. -/
lemma plusTo_spec (hmem : mem.Serves) (hinv : AllHold σ)
    (hs : σ s = some o) (ho : Holds o v) (hproper : a.Proper σ) (hnull : a ≠ .ptr .null)
    (hsum : (v.length : ℤ) + (argText σ a).length < INT_MAX)
    (hk : ∀ k, a.within s = some k → v.length ≤ k) :
    Gives (plusTo mem σ s o a) fun o' =>
      Holds o' (v ++ argText σ a) ∧ (argText σ a = [] → o' = o) := by
  obtain ⟨src, hsrc, htext⟩ := arg_string hproper hnull
  cases a with
  | str t =>
    unfold plusTo
    dsimp only
    split_ifs with hself
    · have hv : v = [] := List.eq_nil_of_length_eq_zero (Nat.le_zero.mp (hk 0 (if_pos hself)))
      subst hv
      have harg : argText σ (.str t) = [] := by
        rw [hself]
        exact text_eq hs ho
      rw [harg]
      exact (plusSelf_nil ho).mono fun o' ho' => ⟨by rw [ho']; exact ho, fun _ => ho'⟩
    · obtain ⟨b, hb, hbsrc⟩ := Option.bind_eq_some_iff.mp hsrc
      obtain ⟨w, hw⟩ := hinv t b hb
      have harg : argText σ (.str t) = w := text_eq hb hw
      rw [harg] at hsum htext ⊢
      refine (gives_ofOption (P := (· = b)) hb rfl).bind fun b' hb' => ?_
      subst hb'
      have hplus := plus_spec hmem ho hw hsum
      by_cases hnil : w = []
      · subst hnil
        refine (hplus.and ?_).mono fun o' ho' => ⟨ho'.1, fun _ => ho'.2⟩
        refine (gives_ofOption (P := (· = src)) hbsrc rfl).bind fun c hc => ?_
        rw [hc, hw.length]
        exact append_nil ho htext
      · exact hplus.mono fun o' ho' => ⟨ho', fun h => absurd h hnil⟩
  | ptr p =>
    unfold plusTo
    dsimp only
    cases hwithin : p.within s with
    | some k =>
      obtain ⟨buf, hbuf, -, -⟩ := ho.text
      cases (memory_within (a := .ptr p) hs hbuf hwithin).symm.trans hsrc
      obtain ⟨o', ho', hholds, hsame⟩ := plusWithin_spec ho hbuf htext (hk k hwithin)
      exact gives_ofOption ho' ⟨hholds, hsame⟩
    | none =>
      refine (gives_ofOption (P := (· = src)) hsrc rfl).bind fun b hb => ?_
      subst hb
      have hplus := plusText_spec hmem ho htext hsum
      by_cases hnil : argText σ (.ptr p) = []
      · refine (hplus.and ?_).mono fun o' ho' => ⟨ho'.1, fun _ => ho'.2⟩
        rw [hnil] at htext
        have hn := strlen_eq htext (by decide)
        refine (gives_ofOption (P := (· = 0)) hn rfl).bind fun n hn' => ?_
        subst hn'
        exact append_nil ho htext
      · exact hplus.mono fun o' ho' => ⟨ho', fun h => absurd h hnil⟩

lemma plusAssignTo_spec (hmem : mem.Serves) (hinv : AllHold σ)
    (hs : σ s = some o) (ho : Holds o v) (hproper : a.Proper σ) (hnull : a ≠ .ptr .null)
    (hsum : (v.length : ℤ) + (argText σ a).length < INT_MAX)
    (hk : ∀ k, a.within s = some k → v.length ≤ k) :
    Gives (plusAssignTo mem σ s o a) (Holds · (v ++ argText σ a)) := by
  refine (plusTo_spec hmem hinv hs ho hproper hnull hsum hk).bind fun o' ho' => ?_
  obtain ⟨o'', ho'', hholds⟩ := copyWithin_self ho'.1.toStores
  exact gives_ofOption ho'' hholds

/-! ## Operations -/

/-- What an allowed operation makes of its target. -/
def Made (σ : Store) : Op → Str → Prop
  | .plus s _, o => σ s = some o
  | .plusAssign s a, o => Holds o (text σ s ++ argText σ a)
  | _, o => ∃ v, Holds o v

lemma gives_operand {β : Type} {f : Str → Act β} {R : β → Prop} (hs : σ s = some o)
    (h : Gives (f o) R) : Gives (ofOption (σ s) >>= f) R := by
  refine (gives_ofOption (P := (· = o)) hs rfl).bind fun b hb => ?_
  rw [hb]
  exact h

lemma AllHold.get (hinv : AllHold σ) (hs : (σ s).isSome) :
    ∃ o, σ s = some o ∧ Holds o (text σ s) := by
  obtain ⟨o, ho⟩ := Option.isSome_iff_exists.mp hs
  obtain ⟨v, hv⟩ := hinv s o ho
  refine ⟨o, ho, ?_⟩
  rw [text_eq ho hv]
  exact hv

lemma constructText_made (hmem : mem.Serves) {p : Ptr} (d : ℕ) (hproper : (Arg.ptr p).Proper σ)
    (hnull : p ≠ .null) (hsmall : ((argText σ (.ptr p)).length : ℤ) < INT_MAX) :
    Gives (result mem σ (.constructText d p)) fun o => ∃ v, Holds o v := by
  obtain ⟨src, hsrc, htext⟩ := arg_string hproper fun h => hnull (Arg.ptr.inj h)
  have hgives : Gives (ofOption (p.memory σ) >>= fun src => constructText mem (some src))
      fun o => ∃ v, Holds o v := by
    refine (gives_ofOption (P := (· = src)) hsrc rfl).bind fun b hb => ?_
    rw [hb]
    exact (constructText_spec hmem htext hsmall).mono fun o ho => ⟨_, ho⟩
  cases p with
  | null => exact absurd rfl hnull
  | outside memory => exact hgives
  | inside t k => exact hgives

lemma right_made (hmem : mem.Serves) (ho : Holds o v) {n : ℤ}
    (h : n ≤ 0 ∨ v = [] ∨ n < v.length) : Gives (right mem o n) fun o => ∃ v, Holds o v := by
  by_cases hnone : n ≤ 0 ∨ v = []
  · exact (right_none hmem ho hnone).mono fun o ho => ⟨_, ho⟩
  · rw [not_or] at hnone
    have hless := (h.resolve_left hnone.1).resolve_left hnone.2
    exact (right_shifted hmem ho (by omega) hless).mono fun o ho => ⟨_, ho⟩

/-- One case for each operation. -/
lemma result_made (hmem : mem.Serves) (hinv : AllHold σ) {op : Op} (hproper : op.Proper σ)
    (hallowed : op.Allowed σ) : Gives (result mem σ op) (Made σ op) := by
  cases op with
  | construct d => exact (construct_spec hmem).mono fun o ho => ⟨_, ho.1⟩
  | constructText d p => exact constructText_made hmem d hproper.2 hallowed.1 hallowed.2
  | constructCopy d t =>
    obtain ⟨o, ht, ho⟩ := hinv.get hproper.2
    exact gives_operand ht ((constructCopy_spec hmem ho).mono fun o ho => ⟨_, ho⟩)
  | assign s a =>
    obtain ⟨o, hs, ho⟩ := hinv.get hproper.1
    have hgives := assignTo_spec hmem hs ho hproper.2 hallowed.1 hallowed.2
    exact gives_operand hs (hgives.mono fun o ho => ⟨_, ho⟩)
  | plus s a =>
    obtain ⟨o, hs, ho⟩ := hinv.get hproper.1
    obtain ⟨hnull, hnil⟩ := hallowed
    have hmax := ho.length_lt_max
    obtain ⟨src, hsrc, htext⟩ := arg_string hproper.2 hnull
    have hgives := plusTo_spec hmem hinv hs ho hproper.2 hnull (by rw [hnil]; simpa using hmax)
      fun k hk => by
        obtain ⟨buf, hbuf, -, -⟩ := ho.text
        cases (memory_within hs hbuf hk).symm.trans hsrc
        rw [hnil] at htext
        exact le_of_empty ho hbuf htext
    exact gives_operand hs (hgives.mono fun o' ho' => by rw [Made, ho'.2 hnil, hs])
  | plusAssign s a =>
    obtain ⟨o, hs, ho⟩ := hinv.get hproper.1
    obtain ⟨hnull, hsum, hk⟩ := hallowed
    exact gives_operand hs (plusAssignTo_spec hmem hinv hs ho hproper.2 hnull hsum hk)
  | replace d s src dest =>
    obtain ⟨o, hs, ho⟩ := hinv.get hproper.2.1
    obtain ⟨osrc, hsrc, hosrc⟩ := hinv.get hproper.2.2.1
    obtain ⟨odest, hdest, hodest⟩ := hinv.get hproper.2.2.2
    have hfuel : (text σ s).length < o.len.toNat + 1 := by
      have hlen := ho.length
      omega
    have hgives := replace_gives hmem ho hosrc hodest hallowed.1 hallowed.2 hfuel
    exact gives_operand hs (gives_operand hsrc (gives_operand hdest
      (hgives.mono fun o ho => ⟨_, ho⟩)))
  | left d s n =>
    obtain ⟨o, hs, ho⟩ := hinv.get hproper.2
    exact gives_operand hs ((left_ok hmem ho n).mono fun o ho => ⟨_, ho⟩)
  | right d s n =>
    obtain ⟨o, hs, ho⟩ := hinv.get hproper.2
    exact gives_operand hs (right_made hmem ho hallowed)
  | mid d s a b =>
    obtain ⟨o, hs, ho⟩ := hinv.get hproper.2
    exact gives_operand hs (((mid_iff hmem ho a b).mpr hallowed).mono fun o ho => ⟨_, ho⟩)
  | trim d s c =>
    obtain ⟨o, hs, ho⟩ := hinv.get hproper.2
    obtain ⟨body, x, -, hgives⟩ := trim_spec hmem ho hallowed
    exact gives_operand hs (hgives.mono fun o ho => ⟨_, ho⟩)
  | fromInteger s n =>
    obtain ⟨o, hs, ho⟩ := hinv.get hproper
    exact gives_operand hs ((fromInteger_spec hmem ho n).mono fun o ho => ⟨_, ho⟩)

lemma Holds.sound (h : Holds o v) : Sound o := by
  obtain ⟨buf, hbuf, htext, -⟩ := h.text
  have hlen := h.length
  have hless := h.length_lt
  refine ⟨buf, hbuf, ?_, by omega⟩
  rw [hlen]
  exact strlen_eq htext h.length_lt_max.le

lemma Made.holds (hinv : AllHold σ) {op : Op} (h : Made σ op o) : ∃ v, Holds o v := by
  cases op with
  | plus s a => exact hinv s o h
  | plusAssign s a => exact ⟨_, h⟩
  | _ => exact h

lemma AllHold.update (hinv : AllHold σ) (ho : ∃ v, Holds o v) :
    AllHold (Function.update σ s (some o)) := by
  intro t o' ht
  by_cases hts : t = s
  · rw [hts, Function.update_self] at ht
    cases ht
    exact ho
  · rw [Function.update_of_ne hts] at ht
    exact hinv t o' ht

lemma Made.kept (hinv : AllHold σ) {op : Op} (h : Made σ op o) :
    Kept σ op (Function.update σ op.target (some o)) := by
  constructor
  · intro t o' ht
    obtain ⟨v, hv⟩ := hinv.update (h.holds hinv) t o' ht
    exact hv.sound
  · rintro s a rfl
    have hs : Function.update σ s (some o) s = some o := Function.update_self s (some o) σ
    exact text_eq hs h
  · intro t ht
    by_cases htarget : t = op.target
    · -- only `+` does not assign to its target
      cases op with
      | plus s a => rw [htarget, Op.target, Function.update_self, h]
      | _ => exact absurd (congrArg some htarget.symm) ht
    · exact Function.update_of_ne htarget _ _

/-- The invariant of a run. -/
def Inv (x : Option (Store × ℕ)) : Prop := ∃ y, x = some y ∧ AllHold y.1

lemma step_kept (hmem : mem.Serves) {x : Option (Store × ℕ)} {op : Op} (hinv : Inv x)
    (hok : StepOk x op) : StepKept mem x op ∧ Inv (step mem x op) := by
  obtain ⟨⟨σ, i⟩, rfl, hproper, hallowed⟩ := hok
  obtain ⟨y, hy, hhold⟩ := hinv
  cases hy
  obtain ⟨o, j, hresult, hmade⟩ := result_made hmem hhold hproper hallowed i
  have hstep : step mem (some (σ, i)) op =
      some (Function.update σ op.target (some o), j) := by
    rw [step, Option.bind_some, exec, hresult, Option.map_some]
  exact ⟨⟨_, rfl, _, hstep, hmade.kept hhold⟩, _, hstep, hhold.update (hmade.holds hhold)⟩

/-- In a run all of whose operations are allowed, each keeps what it should. -/
theorem run_kept (hmem : mem.Serves) (ops : List Op) (h : Guarded (step mem) StepOk start ops) :
    Guarded (step mem) (StepKept mem) start ops := by
  refine h.law Inv (fun x op => step_kept hmem) ⟨_, rfl, fun t o ht => ?_⟩
  cases ht

/-- A string of one character, to which another is appended, and then a part of it. -/
theorem run_kept_ab : Guarded (step zeros) (StepKept zeros) start
    [.constructText 0 (.outside [0x61, 0]), .plusAssign 0 (.ptr (.outside [0x62, 0])),
      .left 1 0 1, .plusAssign 0 (.str 1), .assign 0 (.ptr (.inside 0 1))] :=
  run_kept zeros_serves _ (by decide)

/-- `s += s` copies the string onto its own end, and does not find it. -/
theorem not_run_kept : ¬∀ ops, Guarded (step zeros) StepProper start ops →
    Guarded (step zeros) (StepKept zeros) start ops := by
  intro h
  have hkept := h [.constructText 0 (.outside [0x61, 0]), .plusAssign 0 (.str 0)] (by decide)
  obtain ⟨-, ⟨y, -, z, hz, -⟩, -⟩ := hkept
  have hnone : step zeros (step zeros start (.constructText 0 (.outside [0x61, 0])))
      (.plusAssign 0 (.str 0)) = none := by rfl
  rw [hnone] at hz
  cases hz

end Sgos.SystemString
