import Sgos.Vfs

/-!
# Walking a path

`name_file` goes over a path character by character and opens a component at each slash, and the
last one at the end. Seen as a whole it goes over the components of the path; the buffer of a
component has room for 127 characters.
-/
namespace Sgos.Vfs

/-- What `name_file` does: it stores to `name[j]`, or it calls `try_open`. -/
inductive Act
  | store (j : ℕ)
  | call (parent : ℕ) (next : Option ℕ) (name : List UInt8)
  deriving DecidableEq

def Act.index : Act → Option ℕ
  | .store j => some j
  | .call _ _ _ => none

/-- The parent, `*next` and the name that `try_open` is given. -/
def Act.given : Act → Option (ℕ × Option ℕ × List UInt8)
  | .store _ => none
  | .call parent next name => some (parent, next, name)

/-- A component that the walk comes to, the file it comes from, and whether it is the last one. -/
structure Visit where
  name : List UInt8
  parent : ℕ
  last : Bool

section Walk
variable (fsOpen : Ptr → Bool) (f : ℕ) (answers : ℕ → Answer)

/-- The walk goes on from a file, which is counted once more. -/
def State.entered (s : State) (next : ℕ) : State := s.setReference next (s.reference next + 1)

/-- The loop of `name_file` from the rest of the path on, with `name` in the buffer. -/
def nameFileActs : List UInt8 → List UInt8 → ℕ → ℕ → State → List Act
  | [], name, parent, _, _ => [.store name.length, .call parent (some f) name]
  | c :: path, name, parent, i, s =>
    .store name.length ::
      if c = SLASH then
        if name = [] then nameFileActs path [] s.root (i + 1) (s.entered s.root)
        else .call parent none name ::
          match tryOpen fsOpen s parent none name (s.flag f) (answers i) with
          | some (.ok next, s) => nameFileActs path [] next (i + 1) (s.entered next)
          | _ => []
      else nameFileActs path (name ++ [c]) parent i s

/-- A walk over the components of a path. It goes on from the file that was opened for a component,
and from the root behind an empty one, as long as the files are opened. -/
def visits : List (List UInt8) → ℕ → ℕ → State → List Visit
  | [], _, _, _ => []
  | [c], parent, _, _ => [⟨c, parent, true⟩]
  | c :: c' :: cs, parent, i, s =>
    ⟨c, parent, false⟩ ::
      if c = [] then visits (c' :: cs) s.root (i + 1) (s.entered s.root)
      else
        match tryOpen fsOpen s parent none c (s.flag f) (answers i) with
        | some (.ok next, s) => visits (c' :: cs) next (i + 1) (s.entered next)
        | _ => []

/-- `try_open` is asked for a component that is not empty, and for the last one. -/
def Visit.given (v : Visit) : Option (ℕ × Option ℕ × List UInt8) :=
  if v.last then some (v.parent, some f, v.name)
  else if v.name = [] then none
  else some (v.parent, none, v.name)

/-- `try_open` gets the components of the path, each under the file opened for the one before, and
all stores are to `name`. -/
def Walks (path : List UInt8) (s : State) : Prop :=
  (nameFileActs fsOpen f answers path [] s.root 0 s).filterMap Act.given =
      (visits fsOpen f answers (path.splitOn SLASH) s.root 0 s).filterMap (Visit.given f) ∧
    ∀ j ∈ (nameFileActs fsOpen f answers path [] s.root 0 s).filterMap Act.index, j < FILE_NAME_LEN

end Walk

variable {fsOpen : Ptr → Bool} {f : ℕ} {answers : ℕ → Answer} {path name : List UInt8}
  {parent i : ℕ} {s : State} {c : UInt8}

/-- The components of the rest of a path, the first one with what is in the buffer already. -/
def rest (name path : List UInt8) : List (List UInt8) := (path.splitOn SLASH).modifyHead (name ++ ·)

lemma rest_nil (name : List UInt8) : rest name [] = [name] := by
  rw [rest, List.splitOn_nil, List.modifyHead_cons, List.append_nil]

lemma rest_char (h : c ≠ SLASH) : rest name (c :: path) = rest (name ++ [c]) path := by
  rw [rest, rest, List.splitOn_cons_eq_if_modifyHead, if_neg (by simpa using h),
    List.modifyHead_modifyHead]
  congr 1
  funext cs
  simp

lemma rest_slash (name path : List UInt8) : ∃ c cs, path.splitOn SLASH = c :: cs ∧
    rest name (SLASH :: path) = name :: c :: cs ∧ rest [] path = c :: cs := by
  obtain ⟨c, cs, hsplit⟩ := List.exists_cons_of_ne_nil (List.splitOn_ne_nil SLASH path)
  refine ⟨c, cs, hsplit, ?_, ?_⟩
  · rw [rest, List.splitOn_cons_eq_if_modifyHead, if_pos (by simp), List.modifyHead_cons,
      List.append_nil, hsplit]
  · rw [rest, hsplit, List.modifyHead_cons, List.nil_append]

/-- The walk comes to the component that is in the buffer. -/
lemma exists_visit (fsOpen : Ptr → Bool) (f : ℕ) (answers : ℕ → Answer) (name path : List UInt8)
    (parent i : ℕ) (s : State) : ∃ v ∈ visits fsOpen f answers (rest name path) parent i s,
      name.length ≤ v.name.length := by
  obtain ⟨c, cs, hsplit⟩ := List.exists_cons_of_ne_nil (List.splitOn_ne_nil SLASH path)
  have hlen : name.length ≤ (name ++ c).length := by simp
  rw [rest, hsplit, List.modifyHead_cons]
  cases cs with
  | nil => exact ⟨_, List.mem_cons_self, hlen⟩
  | cons c' cs => exact ⟨_, List.mem_cons_self, hlen⟩

/-- What `try_open` is given are the components. -/
lemma given_nameFileActs (path name : List UInt8) (parent i : ℕ) (s : State) :
    (nameFileActs fsOpen f answers path name parent i s).filterMap Act.given =
      (visits fsOpen f answers (rest name path) parent i s).filterMap (Visit.given f) := by
  induction path generalizing name parent i s with
  | nil =>
    rw [rest_nil]
    rfl
  | cons c path ih =>
    rw [nameFileActs, List.filterMap_cons_none rfl]
    by_cases hslash : c = SLASH
    · subst hslash
      obtain ⟨c, cs, -, hrest, hrest'⟩ := rest_slash name path
      rw [if_pos rfl, hrest, visits]
      by_cases hname : name = []
      · rw [if_pos hname, if_pos hname, ih, hrest', List.filterMap_cons_none]
        rw [Visit.given, if_neg Bool.false_ne_true, if_pos hname]
      · have hgiven : Visit.given f ⟨name, parent, false⟩ = some (parent, none, name) := by
          rw [Visit.given, if_neg Bool.false_ne_true, if_neg hname]
        have hcall : Act.given (.call parent none name) = some (parent, none, name) := rfl
        rw [if_neg hname, if_neg hname, List.filterMap_cons_some hgiven,
          List.filterMap_cons_some hcall]
        congr 1
        cases tryOpen fsOpen s parent none name (s.flag f) (answers i) with
        | none => rfl
        | some r =>
          obtain ⟨result, t⟩ := r
          cases result with
          | error ret => rfl
          | ok next =>
            dsimp only
            rw [ih, hrest']
    · rw [if_neg hslash, ih, rest_char hslash]

/-- The stores for a component go up to its length. -/
lemma index_nameFileActs (path name : List UInt8) (parent i : ℕ) (s : State) :
    (∀ j ∈ (nameFileActs fsOpen f answers path name parent i s).filterMap Act.index,
        j < FILE_NAME_LEN) ↔
      ∀ v ∈ visits fsOpen f answers (rest name path) parent i s, v.name.length < FILE_NAME_LEN := by
  induction path generalizing name parent i s with
  | nil =>
    rw [rest_nil]
    simp [nameFileActs, visits, Act.index]
  | cons c path ih =>
    rw [nameFileActs, List.filterMap_cons_some (by rfl : Act.index _ = some name.length),
      List.forall_mem_cons]
    by_cases hslash : c = SLASH
    · subst hslash
      obtain ⟨c, cs, -, hrest, hrest'⟩ := rest_slash name path
      rw [if_pos rfl, hrest, visits, List.forall_mem_cons]
      refine and_congr_right fun _ => ?_
      by_cases hname : name = []
      · rw [if_pos hname, if_pos hname, ih, hrest']
      · rw [if_neg hname, if_neg hname, List.filterMap_cons_none rfl]
        cases tryOpen fsOpen s parent none name (s.flag f) (answers i) with
        | none => simp
        | some r =>
          obtain ⟨result, t⟩ := r
          cases result with
          | error ret => simp
          | ok next =>
            dsimp only
            rw [ih, hrest']
    · rw [if_neg hslash, ih, rest_char hslash]
      refine and_iff_right_of_imp fun h => ?_
      obtain ⟨v, hv, hlen⟩ := exists_visit fsOpen f answers (name ++ [c]) path parent i s
      rw [List.length_append, List.length_singleton] at hlen
      exact Nat.lt_of_le_of_lt (Nat.le_of_succ_le hlen) (h v hv)

/-- `try_open` gets the components of the path in order, and all stores are to `name`, exactly if
the components that the walk comes to are shorter than `name`. -/
theorem walks_iff : Walks fsOpen f answers path s ↔
    ∀ v ∈ visits fsOpen f answers (path.splitOn SLASH) s.root 0 s,
      v.name.length < FILE_NAME_LEN := by
  have hrest : rest [] path = path.splitOn SLASH := by
    obtain ⟨c, cs, hsplit, -, hrest⟩ := rest_slash [] path
    rw [hrest, hsplit]
  have hgiven := @given_nameFileActs fsOpen f answers path [] s.root 0 s
  have hindex := @index_nameFileActs fsOpen f answers path [] s.root 0 s
  rw [hrest] at hgiven hindex
  rw [Walks, hindex]
  exact and_iff_right hgiven

/-- A component of 128 characters is stored beyond `name`. -/
theorem not_walks : ¬Walks (fun _ => true) 1 (fun _ => ⟨0, none, false, 0⟩)
    (List.replicate 128 97) (State.initial 1) := by
  rintro ⟨-, hindex⟩
  have hmem : 128 ∈ (nameFileActs (fun _ => true) 1 (fun _ => ⟨0, none, false, 0⟩)
      (List.replicate 128 97) [] 0 0 (State.initial 1)).filterMap Act.index := by decide +kernel
  exact absurd (hindex 128 hmem) (by decide)

end Sgos.Vfs
