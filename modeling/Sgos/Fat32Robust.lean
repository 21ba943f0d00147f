import Sgos.Fat32Enum
import Sgos.Fat32Parts

/-!
# What a directory has to be for a scan

`fat32_enum_ent` takes every byte of a directory and of the table as it is. It ends, stays within
its buffers and deletes nothing foreign, for all enumerators, exactly if the chain of clusters ends, the
numbers of the parts of long names are in order, and every part that is counted as one of a file's
name is one.
-/
namespace Sgos.Fat32
open ByteStore

namespace Scanning
open Scan Lookup Enum Parts

/-- The call with this enumerator ends. It leaves neither `long_name` nor the buffer of a cluster,
and what it deletes is the entry that the enumerator has stopped at, and the parts of its long name. -/
structure Robust {σ : Type} (dev : Fat32Dev) (clock : Clock) (d : Store) (f : File)
    (enumerator : σ → Report → Int32 × σ) (stack : Stack) (own : σ) : Prop where
  ends : Ends dev clock d enumerator (begin dev d f stack own)
  indexed : ∀ c, Reaches dev clock d enumerator (begin dev d f stack own) c →
    turn dev clock d enumerator c ≠ .stray
  reads : ∀ c, Reaches dev clock d enumerator (begin dev d f stack own) c →
    c.i < maxEntries dev → c.offset + entrySize ≤ dev.bytPerClu.toNat
  marks : ∀ c own', Reaches dev clock d enumerator (begin dev d f stack own) c →
    turn dev clock d enumerator c = .stop c 2 own' → ∀ k ≤ c.st.nameEntries, k ≤ c.i ∧
      Own (entries (readclu dev d c.clu) c.pos (maxEntries dev)) c.i (c.i - k)

/-- The clusters that are scanned from `c` on. -/
inductive Scanned (dev : Fat32Dev) (d : Store) : UInt32 → List UInt32 → Prop
  | last {c : UInt32} (h : IS_FAT32CLU_INUSE (nextclu dev d c) = false) : Scanned dev d c [c]
  | more {c : UInt32} {cs : List UInt32} (h : IS_FAT32CLU_INUSE (nextclu dev d c) = true)
      (hrest : Scanned dev d (nextclu dev d c) cs) : Scanned dev d c (c :: cs)

/-- Every file of the cluster `c`, behind the clusters `pre`, has the parts that are counted. -/
def OwnParts (dev : Fat32Dev) (d : Store) (pre : List UInt32) (c : UInt32) : Prop :=
  let rs := entries (readclu dev d c) 0 (maxEntries dev)
  ∀ i < maxEntries dev, isFile (rs.getD i []) = true →
    counted (records dev d pre ++ rs.take i) ≤ longEntries rs i

/-- The scan starts at the start of a cluster, the chain from there on ends, and the parts of long
names are as the scan takes them. -/
def Orderly (dev : Fat32Dev) (d : Store) (f : File) : Prop :=
  (f.pos % dev.bytPerClu).toNat = 0 ∧
    ∃ cs, Scanned dev d (getCluByOrder dev d f.data (cluOrder dev f.pos)) cs ∧
      Numbered (records dev d cs) ∧ ∀ pre c post, cs = pre ++ c :: post → OwnParts dev d pre c

variable {dev : Fat32Dev} {clock : Clock} {d : Store} {f : File} {c x : UInt32}
  {cs pre post : List UInt32} {st s : Scan} {σ : Type} {enumerator : σ → Report → Int32 × σ}
  {cur cur' : Cursor σ} {stack : Stack} {own : σ} {k m : ℕ}

/-! ## The clusters that are scanned -/

lemma Scanned.head (h : Scanned dev d c cs) : ∃ rest, cs = c :: rest := by
  cases h with
  | last h => exact ⟨[], rfl⟩
  | more h hrest => exact ⟨_, rfl⟩

lemma Scanned.behind (h : Scanned dev d c (pre ++ x :: post)) : Scanned dev d x (x :: post) := by
  generalize heq : pre ++ x :: post = cs at h
  induction h generalizing pre with
  | last h =>
    obtain ⟨rfl, hx⟩ := List.append_eq_singleton_iff.mp heq |>.resolve_right (by simp)
    obtain ⟨rfl, rfl⟩ := List.cons.inj hx
    exact .last h
  | more h hrest ih =>
    cases pre with
    | nil =>
      obtain ⟨rfl, rfl⟩ := List.cons.inj heq
      exact .more h hrest
    | cons a pre => exact ih (List.cons.inj heq).2

/-- The next cluster is scanned next, if it is in use. -/
lemma Scanned.onward (h : Scanned dev d c (pre ++ x :: post))
    (hinuse : IS_FAT32CLU_INUSE (nextclu dev d x) = true) :
    ∃ rest, post = nextclu dev d x :: rest := by
  cases h.behind with
  | last hlast =>
    rw [hlast] at hinuse
    cases hinuse
  | more _ hrest => exact hrest.head

/-- A chain that comes to a cluster that is not in use. -/
lemma scanned_of_iterate (k : ℕ) (c : UInt32)
    (h : IS_FAT32CLU_INUSE ((nextclu dev d)^[k + 1] c) = false) : ∃ cs, Scanned dev d c cs := by
  induction k generalizing c with
  | zero => exact ⟨[c], .last h⟩
  | succ k ih =>
    cases hnext : IS_FAT32CLU_INUSE (nextclu dev d c) with
    | false => exact ⟨[c], .last hnext⟩
    | true =>
      obtain ⟨cs, hcs⟩ := ih (nextclu dev d c) h
      exact ⟨c :: cs, .more hnext hcs⟩

/-! ## In an orderly directory -/

/-- The cursor has passed the entries `ps`, with `m` turns to come at most. -/
def Passed (dev : Fat32Dev) (d : Store) (cs : List UInt32) (ps : List (List UInt8)) (m : ℕ)
    (cur : Cursor σ) : Prop :=
  ∃ pre post, cs = pre ++ cur.clu :: post ∧ cur.pos = 0 ∧ cur.i ≤ maxEntries dev ∧
    ps = records dev d pre ++ (entries (readclu dev d cur.clu) 0 (maxEntries dev)).take cur.i ∧
    m = post.length * (maxEntries dev + 1) + (maxEntries dev - cur.i)

variable {ps : List (List UInt8)}

lemma records_append (pre cs : List UInt32) :
    records dev d (pre ++ cs) = records dev d pre ++ records dev d cs := List.flatMap_append

lemma Passed.entry (h : Passed dev d cs ps m cur) (hi : cur.i < maxEntries dev) (st : Scan)
    (own : σ) : ∃ m' < m, Passed dev d cs (ps ++ [cur.entry dev d]) m' (cur.past st own) := by
  obtain ⟨pre, post, heq, hpos, -, rfl, rfl⟩ := h
  have hentry := entry_of_entries (d := d) hi
  rw [hpos] at hentry
  refine ⟨_, ?_, pre, post, heq, hpos, hi, ?_, rfl⟩
  · simp only [Cursor.past]
    omega
  · simp only [Cursor.past]
    rw [List.take_add_one, hentry, Option.toList_some, List.append_assoc]

lemma Passed.onward (hcs : Scanned dev d c cs) (h : Passed dev d cs ps m cur)
    (hi : ¬cur.i < maxEntries dev) (hinuse : IS_FAT32CLU_INUSE (nextclu dev d cur.clu) = true) :
    ∃ m' < m, Passed dev d cs ps m' (cur.onward dev d) := by
  obtain ⟨pre, post, rfl, -, hle, rfl, rfl⟩ := h
  have hend : cur.i = maxEntries dev := by omega
  obtain ⟨rest, rfl⟩ := hcs.onward hinuse
  refine ⟨rest.length * (maxEntries dev + 1) + (maxEntries dev - 0), ?_, pre ++ [cur.clu], rest,
    ?_, rfl, Nat.zero_le _, ?_, rfl⟩
  · rw [List.length_cons, Nat.succ_mul]
    omega
  · simp [Cursor.onward]
  · rw [hend, List.take_of_length_le (by rw [length_entries]), records_append, records_cons]
    simp [Cursor.onward, records]

/-- At the end of the last cluster all entries are passed. -/
lemma Passed.all (hcs : Scanned dev d c cs) (h : Passed dev d cs ps m cur)
    (hi : ¬cur.i < maxEntries dev) (hend : IS_FAT32CLU_INUSE (nextclu dev d cur.clu) = false) :
    ps = records dev d cs := by
  obtain ⟨pre, post, rfl, -, -, rfl, -⟩ := h
  rw [List.take_of_length_le (by rw [length_entries]; omega), records_append, records_cons]
  cases hcs.behind with
  | last => simp [records]
  | more hinuse =>
    rw [hend] at hinuse
    cases hinuse

lemma passed_begin (hcs : Scanned dev d (getCluByOrder dev d f.data (cluOrder dev f.pos)) cs)
    (hpos : (f.pos % dev.bytPerClu).toNat = 0) (stack : Stack) (own : σ) :
    ∃ m, Passed dev d cs [] m (begin dev d f stack own) := by
  obtain ⟨rest, rfl⟩ := hcs.head
  exact ⟨_, [], rest, rfl, hpos, Nat.zero_le _, rfl, rfl⟩

lemma Passed.reads (hsize : entrySize * maxEntries dev = dev.bytPerClu.toNat)
    (h : Passed dev d cs ps m cur) (hi : cur.i < maxEntries dev) :
    cur.offset + entrySize ≤ dev.bytPerClu.toNat := by
  obtain ⟨pre, post, -, hpos, -⟩ := h
  have hle : entrySize * (cur.i + 1) ≤ entrySize * maxEntries dev := Nat.mul_le_mul_left _ hi
  rw [Cursor.offset, hpos, ← hsize, Nat.zero_add]
  exact hle

/-- What the cursor has passed, it has scanned. -/
def Within (dev : Fat32Dev) (d : Store) (cs : List UInt32) (st : Scan) (m : ℕ) (cur : Cursor σ) :
    Prop :=
  ∃ ps, Passed dev d cs ps m cur ∧ after st ps = some cur.st

/-- A turn keeps the cursor within the directory. -/
lemma Within.leads (hcs : Scanned dev d c cs) (h : Within dev d cs st m cur)
    (hlead : Leads dev clock d enumerator cur cur') : ∃ m' < m, Within dev d cs st m' cur' := by
  obtain ⟨ps, hps, hst⟩ := h
  rcases @turn_cases σ dev clock d enumerator cur with
    ⟨-, -, hturn⟩ | ⟨-, -, -, hturn⟩ | ⟨hi, -, s, hstep, hturn⟩ | ⟨hi, hinuse, hturn⟩ |
    ⟨-, -, hturn⟩
  · cases hlead.symm.trans hturn
  · cases hlead.symm.trans hturn
  · obtain rfl := Turn.next.inj (hturn.symm.trans hlead)
    obtain ⟨m', hlt, hps'⟩ := hps.entry hi s _
    refine ⟨m', hlt, _, hps', ?_⟩
    rw [after_append, hst, Option.bind_some, after_cons, hstep]
    rfl
  · obtain rfl := Turn.next.inj (hturn.symm.trans hlead)
    obtain ⟨m', hlt, hps'⟩ := hps.onward hcs hi hinuse
    exact ⟨m', hlt, ps, hps', hst⟩
  · cases hlead.symm.trans hturn

lemma Within.reaches (hcs : Scanned dev d c cs) (h : Within dev d cs st m cur)
    (hreach : Reaches dev clock d enumerator cur cur') : ∃ m', Within dev d cs st m' cur' := by
  induction hreach with
  | refl => exact ⟨m, h⟩
  | tail _ hlead ih =>
    obtain ⟨m', hm'⟩ := ih
    obtain ⟨m'', -, h''⟩ := hm'.leads hcs hlead
    exact ⟨m'', h''⟩

/-- The numbers are in order up to every entry. -/
lemma Within.step_isSome (hnum : Numbered (records dev d cs)) (stack : Stack)
    (h : Within dev d cs (start stack) m cur) (hi : cur.i < maxEntries dev) :
    (step cur.st (cur.entry dev d)).isSome := by
  obtain ⟨ps, ⟨pre, post, rfl, hpos, -, rfl, -⟩, hst⟩ := h
  have hall := numbered_iff.mpr hnum stack
  have hsplit : entries (readclu dev d cur.clu) 0 (maxEntries dev) =
      (entries (readclu dev d cur.clu) 0 (maxEntries dev)).take cur.i ++ cur.entry dev d ::
        (entries (readclu dev d cur.clu) 0 (maxEntries dev)).drop (cur.i + 1) := by
    have hdrop := drop_entries (d := d) hi
    rw [hpos] at hdrop
    rw [← hdrop, List.take_append_drop]
  rw [records_append, records_cons, hsplit, List.append_assoc, ← List.append_assoc, after_append,
    hst, Option.bind_some, List.cons_append, after_cons] at hall
  cases hstep : step cur.st (cur.entry dev d) with
  | none =>
    rw [hstep] at hall
    cases hall
  | some s => rfl

lemma longEntries_le (rs : List (List UInt8)) (q : ℕ) : longEntries rs q ≤ q := by
  rw [longEntries]
  cases hfind : (List.range' 1 20).find? fun m => decide (m ≤ q) && (List.range' 1 m).all fun k =>
      isPart (checksum (field (rs.getD q []) 0 11)) m k (rs.getD (q - k) []) with
  | none => exact Nat.zero_le q
  | some m =>
    have hparts := List.find?_some hfind
    rw [Bool.and_eq_true, decide_eq_true_eq] at hparts
    exact hparts.1

lemma robust_of_orderly (hsize : entrySize * maxEntries dev = dev.bytPerClu.toNat)
    (h : Orderly dev d f) (enumerator : σ → Report → Int32 × σ) (stack : Stack) (own : σ) :
    Robust dev clock d f enumerator stack own := by
  obtain ⟨hpos, cs, hcs, hnum, hown⟩ := h
  obtain ⟨m, hpassed⟩ := passed_begin hcs hpos stack own
  have hbegin : Within dev d cs (start stack) m (begin dev d f stack own) := ⟨[], hpassed, rfl⟩
  have hwithin := fun c hc => @Within.reaches dev clock d _ cs _ σ enumerator _ c m hcs hbegin hc
  refine ⟨ends_of_measure (fun m c c' hc hlead => hc.leads hcs hlead) hbegin, ?_, ?_, ?_⟩
  · intro c hc hstray
    obtain ⟨m', hin⟩ := hwithin c hc
    rcases @turn_cases σ dev clock d enumerator c with
      ⟨hi, hstep, -⟩ | ⟨-, -, -, hturn⟩ | ⟨-, -, s, -, hturn⟩ | ⟨-, -, hturn⟩ |
      ⟨-, -, hturn⟩
    · have hsome := hin.step_isSome hnum stack hi
      rw [hstep] at hsome
      cases hsome
    all_goals cases hstray.symm.trans hturn
  · intro c hc hi
    obtain ⟨m', ps, hps, -⟩ := hwithin c hc
    exact hps.reads hsize hi
  · intro c own' hc hturn k hk
    obtain ⟨m', ps, ⟨pre, post, heq, hzero, -, rfl, -⟩, hst⟩ := hwithin c hc
    rcases @turn_cases σ dev clock d enumerator c with
      ⟨-, -, hturn'⟩ | ⟨hi, hfile, -⟩ | ⟨-, -, s, -, hturn'⟩ | ⟨-, -, hturn'⟩ | ⟨-, -, hturn'⟩
    · cases hturn.symm.trans hturn'
    · have hentry := entry_of_entries (d := d) hi
      rw [hzero] at hentry ⊢
      have hcount := hown pre c.clu post heq c.i hi (by rw [getD_of_getElem? hentry]; exact hfile)
      rw [← after_counted hst rfl] at hcount
      have hle := longEntries_le (entries (readclu dev d c.clu) 0 (maxEntries dev)) c.i
      have hki : k ≤ c.i := hk.trans (hcount.trans hle)
      refine ⟨hki, Nat.sub_le _ _, ?_⟩
      omega
    all_goals cases hturn.symm.trans hturn'

/-! ## Enumerators that find out what a directory is like -/

/-- One that always asks for the next file. -/
def always (_ : Unit) (_ : Report) : Int32 × Unit := (0, ())

/-- One that deletes the file behind the next `n`. -/
def deleteAt (n : ℕ) (_ : Report) : Int32 × ℕ := if n = 0 then (2, 0) else (0, n - 1)

lemma not_stops_zero : ¬Stops 0 := by decide

lemma patient_always : Patient always fun _ _ => True where
  quiet _ _ _ _ := not_stops_zero
  step _ _ _ _ := trivial

lemma patient_deleteAt : Patient deleteAt fun k n => k = n where
  quiet k n rep h := by
    rw [deleteAt, if_neg (by omega)]
    exact not_stops_zero
  step k n rep h := by
    rw [deleteAt, if_neg (by omega)]
    simp only
    omega

lemma turn_always_ne_stop (cur cur' : Cursor Unit) (ret : Int32) (own : Unit) :
    turn dev clock d always cur ≠ .stop cur' ret own := by
  intro hstop
  rcases @turn_cases Unit dev clock d always cur with
    ⟨-, -, hturn⟩ | ⟨-, -, hstops, -⟩ | ⟨-, -, s, -, hturn⟩ | ⟨-, -, hturn⟩ | ⟨-, -, hturn⟩
  · cases hstop.symm.trans hturn
  · exact not_stops_zero hstops
  all_goals cases hstop.symm.trans hturn

/-- If the call never goes astray, the scan gets through the cluster. -/
lemma after_some {cur : Cursor Unit} (hno : ∀ cur', Reaches dev clock d always cur cur' →
      turn dev clock d always cur' ≠ .stray) (hn : cur.i + m ≤ maxEntries dev) :
    ∃ s, after cur.st (((entries (readclu dev d cur.clu) cur.pos (maxEntries dev)).drop
      cur.i).take m) = some s := by
  induction m generalizing cur with
  | zero => exact ⟨cur.st, rfl⟩
  | succ m ih =>
    have hi : cur.i < maxEntries dev := by omega
    cases hstep : step cur.st (cur.entry dev d) with
    | none => exact absurd (turn_stuck hi hstep) (hno cur .refl)
    | some s =>
      have hlead : turn dev clock d always cur = _ := turn_step hi hstep fun _ => not_stops_zero
      obtain ⟨t, ht⟩ := @ih (cur.past s ()) (fun cur' hreach => hno cur' (.head hlead hreach))
        (by simp only [Cursor.past]; omega)
      refine ⟨t, ?_⟩
      rw [drop_entries hi, List.take_succ_cons, after_cons, hstep]
      exact ht

lemma after_entries {cur : Cursor Unit} (hno : ∀ cur', Reaches dev clock d always cur cur' →
      turn dev clock d always cur' ≠ .stray) (hi : cur.i = 0) :
    ∃ s, after cur.st (entries (readclu dev d cur.clu) cur.pos (maxEntries dev)) = some s := by
  obtain ⟨s, hs⟩ := after_some hno (m := maxEntries dev) (by omega)
  rw [hi, List.drop_zero, List.take_of_length_le (by rw [length_entries])] at hs
  exact ⟨s, hs⟩

/-- It gets through the whole directory. -/
lemma Scanned.after_some (hcs : Scanned dev d c cs) (clock : Clock)
    (hno : ∀ cur', Reaches dev clock d always ⟨c, 0, 0, st, ()⟩ cur' →
      turn dev clock d always cur' ≠ .stray) : (after st (records dev d cs)).isSome := by
  induction hcs generalizing st with
  | last h =>
    obtain ⟨s, hs⟩ := after_entries hno rfl
    rw [records_cons, records, List.flatMap_nil, List.append_nil, hs]
    rfl
  | more h hrest ih =>
    obtain ⟨s, hs⟩ := after_entries hno rfl
    obtain ⟨own, -, hreach⟩ := patient_always.through (k := 0) clock rfl hs trivial h
    rw [records_cons, after_append, hs]
    exact ih fun cur' hcur' => hno cur' (hreach.trans hcur')

/-- A patient enumerator is led to every cluster. -/
lemma Scanned.reach {Q : ℕ → σ → Prop} (h : Patient enumerator Q) (clock : Clock)
    (hcs : Scanned dev d c (pre ++ x :: post)) (hs : after st (records dev d pre) = some s)
    (hQ : Q ((records dev d pre).countP isFile + k) own) :
    ∃ own', Q k own' ∧ Reaches dev clock d enumerator ⟨c, 0, 0, st, own⟩ ⟨x, 0, 0, s, own'⟩ := by
  induction pre generalizing c st own with
  | nil =>
    obtain ⟨rest, heq⟩ := hcs.head
    obtain ⟨rfl, -⟩ := List.cons.inj heq
    obtain rfl := Option.some.inj hs
    exact ⟨own, by simpa [records] using hQ, .refl⟩
  | cons a pre ih =>
    obtain ⟨rest, heq⟩ := hcs.head
    obtain ⟨rfl, -⟩ := List.cons.inj heq
    rw [records_cons, after_append] at hs
    obtain ⟨t, ht, hs⟩ := Option.bind_eq_some_iff.mp hs
    rw [records_cons, List.countP_append, Nat.add_assoc] at hQ
    have hmore : IS_FAT32CLU_INUSE (nextclu dev d a) = true ∧
        Scanned dev d (nextclu dev d a) (pre ++ x :: post) := by
      generalize heq : a :: pre ++ x :: post = cs at hcs
      cases hcs with
      | last h => simp at heq
      | more h hrest =>
        rw [List.cons_append] at heq
        rw [(List.cons.inj heq).2]
        exact ⟨h, hrest⟩
    obtain ⟨own', hk, hreach⟩ := h.through (c := ⟨a, 0, 0, st, own⟩) clock rfl ht hQ hmore.1
    obtain ⟨own'', hk', hreach'⟩ := ih hmore.2 hs hk
    exact ⟨own'', hk', hreach.trans hreach'⟩

/-- A patient enumerator is led to the end of the directory. -/
lemma Scanned.done {Q : ℕ → σ → Prop} (h : Patient enumerator Q) (clock : Clock)
    (hcs : Scanned dev d c cs) (hs : after st (records dev d cs) = some s)
    (hQ : Q ((records dev d cs).countP isFile + k) own) :
    ∃ cur, Q k cur.own ∧ Reaches dev clock d enumerator ⟨c, 0, 0, st, own⟩ cur ∧
      turn dev clock d enumerator cur = .done cur.own := by
  induction hcs generalizing st own with
  | @last c hend =>
    have hall : ((entries (readclu dev d c) 0 (maxEntries dev)).drop 0).take (maxEntries dev) =
        records dev d [c] := by
      rw [List.drop_zero, List.take_of_length_le (by rw [length_entries]), records_cons]
      exact (List.append_nil _).symm
    obtain ⟨own', hk, hreach⟩ := h.forward (c := ⟨c, 0, 0, st, own⟩) clock (by rw [Nat.zero_add])
      hall hs hQ
    refine ⟨_, hk, hreach, ?_⟩
    rw [turn_end (by rw [Nat.zero_add]; exact Nat.lt_irrefl _)]
    exact if_neg (by rw [hend]; exact Bool.false_ne_true)
  | @more c cs hinuse _ ih =>
    rw [records_cons, after_append] at hs
    obtain ⟨t, ht, hs⟩ := Option.bind_eq_some_iff.mp hs
    rw [records_cons, List.countP_append, Nat.add_assoc] at hQ
    obtain ⟨own', hk, hreach⟩ := h.through (c := ⟨c, 0, 0, st, own⟩) clock rfl ht hQ hinuse
    obtain ⟨cur, hk', hreach', hdone⟩ := ih hs hk
    exact ⟨cur, hk', hreach.trans hreach', hdone⟩

/-- The cluster of a cursor is behind the first one in the chain. -/
lemma reaches_iterate (h : Reaches dev clock d enumerator cur cur') :
    ∃ k, cur'.clu = (nextclu dev d)^[k] cur.clu := by
  induction h with
  | refl => exact ⟨0, rfl⟩
  | @tail b c _ hlead ih =>
    obtain ⟨k, hk⟩ := ih
    rcases @turn_cases σ dev clock d enumerator b with
      ⟨-, -, hturn⟩ | ⟨-, -, -, hturn⟩ | ⟨-, -, s, -, hturn⟩ | ⟨-, -, hturn⟩ | ⟨-, -, hturn⟩
    · cases hlead.symm.trans hturn
    · cases hlead.symm.trans hturn
    · obtain rfl := Turn.next.inj (hturn.symm.trans hlead)
      exact ⟨k, hk⟩
    · obtain rfl := Turn.next.inj (hturn.symm.trans hlead)
      refine ⟨k + 1, ?_⟩
      rw [Function.iterate_succ_apply', ← hk]
      rfl
    · cases hlead.symm.trans hturn

/-- The chain of a directory whose scan ends. -/
lemma Robust.scanned (h : Robust dev clock d f always stack ()) :
    ∃ cs, Scanned dev d (getCluByOrder dev d f.data (cluOrder dev f.pos)) cs := by
  obtain ⟨cur, hreach, hlast⟩ := h.ends.last
  obtain ⟨k, hk⟩ := reaches_iterate hreach
  rcases @turn_cases Unit dev clock d always cur with
    ⟨-, -, hturn⟩ | ⟨-, -, -, hturn⟩ | ⟨-, -, s, -, hturn⟩ | ⟨-, -, hturn⟩ | ⟨-, hfree, -⟩
  · exact absurd hturn (h.indexed cur hreach)
  · exact absurd hturn (turn_always_ne_stop _ _ _ _)
  · exact absurd hturn (hlast _)
  · exact absurd hturn (hlast _)
  · refine scanned_of_iterate k _ ?_
    rw [Function.iterate_succ_apply']
    rwa [hk] at hfree

lemma Robust.aligned (hsize : entrySize * maxEntries dev = dev.bytPerClu.toNat)
    (hmax : 0 < maxEntries dev) (h : Robust dev clock d f always stack ()) :
    (f.pos % dev.bytPerClu).toNat = 0 := by
  have hi : (begin dev d f stack ()).i = 0 := rfl
  obtain ⟨s, hs⟩ := after_some h.indexed (m := maxEntries dev - 1) (by rw [hi]; omega)
  obtain ⟨own, -, hreach⟩ := patient_always.forward (k := 0) clock (by rw [hi]; omega) rfl hs
    trivial
  have hread := h.reads _ hreach (by dsimp only; rw [hi]; omega)
  simp only [Cursor.offset, hi, Nat.zero_add] at hread
  have hpos : (begin dev d f stack ()).pos = (f.pos % dev.bytPerClu).toNat := rfl
  rw [hpos, ← hsize, Nat.mul_sub, Nat.mul_one] at hread
  have hle : entrySize ≤ entrySize * maxEntries dev := Nat.le_mul_of_pos_right _ hmax
  omega

lemma after_prefix {as bs cs : List (List UInt8)} (heq : as = bs ++ cs)
    (h : (after st as).isSome) : ∃ s, after st bs = some s := by
  rw [heq, after_append] at h
  cases hs : after st bs with
  | none =>
    rw [hs] at h
    cases h
  | some s => exact ⟨s, rfl⟩

/-- The entries up to number `i` of a cluster, and the rest. -/
lemma records_split (pre post : List UInt32) (i : ℕ) : records dev d (pre ++ x :: post) =
    (records dev d pre ++ (entries (readclu dev d x) 0 (maxEntries dev)).take i) ++
      ((entries (readclu dev d x) 0 (maxEntries dev)).drop i ++ records dev d post) := by
  rw [records_append, records_cons, List.append_assoc, ← List.append_assoc (List.take _ _),
    List.take_append_drop]

/-- The call is robust, with every enumerator and whatever its locals hold at first, exactly if the
directory is orderly. -/
theorem robust_iff (hsize : entrySize * maxEntries dev = dev.bytPerClu.toNat)
    (hmax : 0 < maxEntries dev) :
    (∀ (σ : Type) (enumerator : σ → Report → Int32 × σ) (stack : Stack) (own : σ),
      Robust dev clock d f enumerator stack own) ↔ Orderly dev d f := by
  refine ⟨fun h => ?_, fun h σ enumerator stack own => robust_of_orderly hsize h _ _ _⟩
  have hpos := (h Unit always ⟨⟨fun _ => 0, fun _ => [], 0, 0, 0⟩, 0, 0⟩ ()).aligned hsize hmax
  obtain ⟨cs, hcs⟩ := (h Unit always ⟨⟨fun _ => 0, fun _ => [], 0, 0, 0⟩, 0, 0⟩ ()).scanned
  have hbegin : ∀ {σ : Type} (stack : Stack) (own : σ), begin dev d f stack own =
      ⟨getCluByOrder dev d f.data (cluOrder dev f.pos), 0, 0, start stack, own⟩ := by
    intro σ stack own
    rw [begin, hpos]
  have hnum : Numbered (records dev d cs) := by
    refine numbered_iff.mp fun stack => hcs.after_some clock fun cur hcur => ?_
    rw [← hbegin] at hcur
    exact (h Unit always stack ()).indexed cur hcur
  refine ⟨hpos, cs, hcs, hnum, ?_⟩
  rintro pre x post rfl i hi hfile
  obtain ⟨s, hs⟩ := after_prefix (records_split pre post i) (numbered_iff.mpr hnum noStack)
  have hcount := after_counted hs rfl
  rw [after_append] at hs
  obtain ⟨t, ht, hs⟩ := Option.bind_eq_some_iff.mp hs
  -- the enumerator that deletes this file
  obtain ⟨own, hown, hreach⟩ := hcs.reach patient_deleteAt clock ht
    (rfl : _ + ((entries (readclu dev d x) 0 (maxEntries dev)).take i).countP isFile = _)
  obtain ⟨own', rfl, hreach'⟩ := patient_deleteAt.forward (c := ⟨x, 0, 0, t, own⟩) (k := 0) clock
    (by rw [Nat.zero_add]; exact hi.le) rfl hs hown
  rw [Nat.zero_add] at hreach'
  rw [← hbegin] at hreach
  have hentry := entry_of_entries (c := ⟨x, 0, i, s, 0⟩) (d := d) hi
  rw [getD_of_getElem? hentry] at hfile
  have hturn : turn dev clock d deleteAt ⟨x, 0, i, s, 0⟩ = .stop ⟨x, 0, i, s, 0⟩ 2 0 :=
    (turn_file hi hfile).trans (if_pos (.inr (.inl rfl)))
  obtain ⟨hle, -, hown⟩ := (h ℕ deleteAt noStack _).marks _ 0 (hreach.trans hreach') hturn
    s.nameEntries le_rfl
  dsimp only at hle hown
  rw [← hcount]
  omega

/-! ## Directories of one file and of one part -/

/-- In a directory of one file it can be deleted. -/
theorem robust_foobar : Robust smallDev noClock fooStore fooDir deleteAt noStack 0 := by
  have hnext : nextclu smallDev fooStore 2 = 0x0fffffff := by decide +kernel
  have hparts : (entries (readclu smallDev fooStore 2) 0 (maxEntries smallDev)).all
      fun b => !isName b := by decide +kernel
  have hname : ∀ b ∈ entries (readclu smallDev fooStore 2) 0 (maxEntries smallDev),
      isName b = false := by
    simpa using List.all_eq_true.mp hparts
  have hsize : entrySize * maxEntries smallDev = smallDev.bytPerClu.toNat := by decide +kernel
  refine (robust_iff hsize (by decide +kernel)).mpr ⟨by decide +kernel, [2], .last ?_, ?_, ?_⟩ ℕ
    deleteAt noStack 0
  · exact hnext ▸ rfl
  · refine numbered_of_short fun b hb => hname b ?_
    rwa [records_cons, records, List.flatMap_nil, List.append_nil] at hb
  · rintro pre c post heq i hi -
    obtain ⟨rfl, hc⟩ := (List.append_eq_singleton_iff.mp heq.symm).resolve_right (by simp)
    obtain ⟨rfl, -⟩ := List.cons.inj hc
    refine (counted_of_short fun b hb => hname b ?_).trans_le (Nat.zero_le _)
    exact (List.take_sublist i _).subset hb

/-- A part with the number 0 in front of all others is copied in front of `long_name`. -/
def strayStore : Store := writeBytes smallStore 4608 [0x40, 0, 0, 0, 0, 0, 0, 0, 0, 0, 0, 0xf]

/-- The first entry of the directory already leads astray. -/
theorem not_robust : ¬Robust smallDev noClock strayStore fooDir always noStack () := by
  intro h
  have hi : (begin smallDev strayStore fooDir noStack ()).i < maxEntries smallDev := by
    decide +kernel
  have hstep : (step (begin smallDev strayStore fooDir noStack ()).st
      ((begin smallDev strayStore fooDir noStack ()).entry smallDev strayStore)).isSome =
        false := by decide +kernel
  exact h.indexed _ .refl (turn_stuck hi (Option.not_isSome_iff_eq_none.mp (by simp [hstep])))

end Scanning

end Sgos.Fat32
