import Mathlib.Data.List.Nodup
import Mathlib.Logic.Function.Basic
import Mathlib.Tactic.Cases

/-!
# Doubly linked chains over link maps

A store keeps its links in two maps `next prev : α → Option α`. `Linked` says that a list of
nodes carries the links of a doubly linked segment; `Chain` adds the head pointer and the
absence of cycles. Insertion and removal are stated by what the new link maps agree with, so
one lemma serves every order in which a program writes its pointers.
-/
namespace Sgos.LinkedChain
variable {α : Type*}

/-- The nodes `xs` are linked in this order, `before` precedes the first of them and `after`
follows the last. -/
def Linked (next prev : α → Option α) : Option α → List α → Option α → Prop
  | _, [], _ => True
  | before, x :: xs, after =>
      prev x = before ∧ next x = xs.head?.or after ∧ Linked next prev (some x) xs after

variable {next prev next' prev' : α → Option α} {before after : Option α}

theorem linked_append (xs ys : List α) :
    Linked next prev before (xs ++ ys) after ↔
      Linked next prev before xs (ys.head?.or after) ∧
        Linked next prev (xs.getLast?.or before) ys after := by
  induction xs generalizing before with
  | nil => simp [Linked]
  | cons x xs ih =>
    have hlast : (x :: xs).getLast?.or before = xs.getLast?.or (some x) := by
      cases h : xs.getLast? <;> simp [List.getLast?_cons, h]
    simp only [List.cons_append, Linked, ih, hlast, List.head?_append, Option.or_assoc, and_assoc]

/-- A segment reads only the links of its own nodes. -/
theorem Linked.congr {xs : List α} (h : Linked next prev before xs after)
    (hn : ∀ x ∈ xs, next' x = next x) (hp : ∀ x ∈ xs, prev' x = prev x) :
    Linked next' prev' before xs after := by
  induction xs generalizing before with
  | nil => trivial
  | cons x xs ih =>
    obtain ⟨hprev, hnext, hrest⟩ := h
    refine ⟨(hp x (by simp)).trans hprev, (hn x (by simp)).trans hnext, ?_⟩
    exact ih hrest (fun y hy => hn y (by simp [hy])) (fun y hy => hp y (by simp [hy]))

theorem Linked.next_eq {pre post : List α} {x : α}
    (h : Linked next prev before (pre ++ x :: post) after) : next x = post.head?.or after :=
  ((linked_append pre (x :: post)).mp h).2.2.1

theorem Linked.prev_eq {pre post : List α} {x : α}
    (h : Linked next prev before (pre ++ x :: post) after) : prev x = pre.getLast?.or before :=
  ((linked_append pre (x :: post)).mp h).2.1

/-- Redirecting the exit of a segment changes only the `next` link of its last node. -/
theorem Linked.redirect_after (next' : α → Option α) (after' : Option α) {xs : List α}
    (hnd : xs.Nodup) (h : Linked next prev before xs after)
    (hlast : ∀ y, xs.getLast? = some y → next' y = after')
    (hn : ∀ y ∈ xs, xs.getLast? ≠ some y → next' y = next y) :
    Linked next' prev before xs after' := by
  induction xs generalizing before with
  | nil => trivial
  | cons x xs ih =>
    obtain ⟨hprev, hnext, hrest⟩ := h
    obtain ⟨hx, hnd'⟩ := List.nodup_cons.mp hnd
    cases xs with
    | nil => exact ⟨hprev, by simpa using hlast x (by simp), trivial⟩
    | cons y ys =>
      have hlast_eq : (x :: y :: ys).getLast? = (y :: ys).getLast? := by
        simp [List.getLast?_cons_cons]
      have hxl : (x :: y :: ys).getLast? ≠ some x := by
        rw [hlast_eq]
        exact fun he => hx (List.mem_of_getLast? he)
      refine ⟨hprev, ?_, ih hnd' hrest ?_ ?_⟩
      · rw [hn x (by simp) hxl, hnext]
        simp
      · exact fun z hz => hlast z (hlast_eq.trans hz)
      · exact fun z hz hne => hn z (by simp [hz]) (by rwa [hlast_eq])

/-- Redirecting the entry of a segment changes only the `prev` link of its first node. -/
theorem Linked.redirect_before (prev' : α → Option α) (before' : Option α) {xs : List α}
    (hnd : xs.Nodup) (h : Linked next prev before xs after)
    (hfirst : ∀ y, xs.head? = some y → prev' y = before')
    (hp : ∀ y ∈ xs, xs.head? ≠ some y → prev' y = prev y) :
    Linked next prev' before' xs after := by
  cases xs with
  | nil => trivial
  | cons x xs =>
    obtain ⟨_, hnext, hrest⟩ := h
    obtain ⟨hx, _⟩ := List.nodup_cons.mp hnd
    refine ⟨hfirst x rfl, hnext, hrest.congr (fun _ _ => rfl) ?_⟩
    intro y hy
    refine hp y (by simp [hy]) ?_
    simp only [List.head?_cons, ne_eq, Option.some.injEq]
    rintro rfl
    exact hx hy

/-- A node enters a segment once it points at its neighbours and they point at it. -/
theorem Linked.insert (pre post : List α) {x : α} (hnd : (pre ++ post).Nodup)
    (h : Linked next prev before (pre ++ post) after)
    (hxn : next' x = post.head?.or after) (hxp : prev' x = pre.getLast?.or before)
    (hpre : ∀ y, pre.getLast? = some y → next' y = some x)
    (hpost : ∀ y, post.head? = some y → prev' y = some x)
    (hn : ∀ y ∈ pre ++ post, pre.getLast? ≠ some y → next' y = next y)
    (hp : ∀ y ∈ pre ++ post, post.head? ≠ some y → prev' y = prev y) :
    Linked next' prev' before (pre ++ x :: post) after := by
  obtain ⟨hl, hr⟩ := (linked_append pre post).mp h
  obtain ⟨hndl, hndr, hdis⟩ := List.nodup_append'.mp hnd
  rw [linked_append]
  constructor
  · refine (hl.redirect_after next' (some x) hndl hpre ?_).congr
      (fun _ _ => rfl) ?_
    · exact fun y hy hne => hn y (by simp [hy]) hne
    · intro y hy
      refine hp y (by simp [hy]) fun he => ?_
      exact hdis hy (List.mem_of_head? he)
  · refine ⟨hxp, hxn, ?_⟩
    refine (hr.redirect_before prev' (some x) hndr hpost ?_).congr ?_
      (fun _ _ => rfl)
    · exact fun y hy hne => hp y (by simp [hy]) hne
    · intro y hy
      refine hn y (by simp [hy]) fun he => ?_
      exact hdis (List.mem_of_getLast? he) hy

/-- A node leaves a segment once its neighbours point at each other. -/
theorem Linked.erase {pre post : List α} {x : α} (hnd : (pre ++ x :: post).Nodup)
    (h : Linked next prev before (pre ++ x :: post) after)
    (hpre : ∀ y, pre.getLast? = some y → next' y = post.head?.or after)
    (hpost : ∀ y, post.head? = some y → prev' y = pre.getLast?.or before)
    (hn : ∀ y ∈ pre ++ post, pre.getLast? ≠ some y → next' y = next y)
    (hp : ∀ y ∈ pre ++ post, post.head? ≠ some y → prev' y = prev y) :
    Linked next' prev' before (pre ++ post) after := by
  obtain ⟨hl, _, _, hr⟩ := (linked_append pre (x :: post)).mp h
  obtain ⟨hndl, hndx, hdis⟩ := List.nodup_append'.mp hnd
  obtain ⟨_, hndr⟩ := List.nodup_cons.mp hndx
  rw [linked_append]
  constructor
  · refine (hl.redirect_after next' _ hndl hpre ?_).congr (fun _ _ => rfl) ?_
    · exact fun y hy hne => hn y (by simp [hy]) hne
    · intro y hy
      refine hp y (by simp [hy]) fun he => ?_
      exact hdis hy (List.mem_cons_of_mem _ (List.mem_of_head? he))
  · refine (hr.redirect_before prev' _ hndr hpost ?_).congr ?_ (fun _ _ => rfl)
    · exact fun y hy hne => hp y (by simp [hy]) hne
    · intro y hy
      refine hn y (by simp [hy]) fun he => ?_
      exact hdis (List.mem_of_getLast? he) (List.mem_cons_of_mem _ hy)

/-- Read backwards, a segment is linked with the roles of the two maps exchanged. -/
theorem Linked.reverse {xs : List α} (h : Linked next prev before xs after) :
    Linked prev next after xs.reverse before := by
  induction xs generalizing before with
  | nil => trivial
  | cons x xs ih =>
    obtain ⟨hprev, hnext, hrest⟩ := h
    rw [List.reverse_cons, linked_append]
    refine ⟨by simpa using ih hrest, ?_, by simpa using hprev, trivial⟩
    simpa using hnext

/-- The head pointer leads to exactly the nodes `xs`, each once, and both ends are `none`. -/
structure Chain (next prev : α → Option α) (head : Option α) (xs : List α) : Prop where
  head_eq : head = xs.head?
  nodup : xs.Nodup
  linked : Linked next prev none xs none

theorem Chain.nil : Chain next prev none [] := ⟨rfl, List.nodup_nil, trivial⟩

theorem Chain.congr {head : Option α} {xs : List α} (h : Chain next prev head xs)
    (hn : ∀ x ∈ xs, next' x = next x) (hp : ∀ x ∈ xs, prev' x = prev x) :
    Chain next' prev' head xs :=
  ⟨h.head_eq, h.nodup, h.linked.congr hn hp⟩

theorem Chain.next_eq {head : Option α} {pre post : List α} {x : α}
    (h : Chain next prev head (pre ++ x :: post)) : next x = post.head? := by
  simpa using h.linked.next_eq

theorem Chain.prev_eq {head : Option α} {pre post : List α} {x : α}
    (h : Chain next prev head (pre ++ x :: post)) : prev x = pre.getLast? := by
  simpa using h.linked.prev_eq

/-- A node enters a chain at its head. -/
theorem Chain.push {head : Option α} {xs : List α} {x : α} (h : Chain next prev head xs)
    (hx : x ∉ xs) (hxn : next' x = head) (hxp : prev' x = none)
    (hhead : ∀ y, head = some y → prev' y = some x)
    (hn : ∀ y ∈ xs, next' y = next y)
    (hp : ∀ y ∈ xs, head ≠ some y → prev' y = prev y) :
    Chain next' prev' (some x) (x :: xs) := by
  have hhd := h.head_eq
  refine ⟨rfl, List.nodup_cons.mpr ⟨hx, h.nodup⟩, ?_⟩
  refine Linked.insert [] xs h.nodup h.linked ?_ ?_ ?_ ?_ ?_ ?_
  · rw [hxn, hhd, Option.or_none]
  · rw [hxp]; rfl
  · simp
  · exact fun y hy => hhead y (hhd.trans hy)
  · exact fun y hy _ => hn y hy
  · exact fun y hy hne => hp y hy (by rwa [hhd])

/-- A node leaves a chain once its neighbours, or the head, bypass it. -/
theorem Chain.erase {head head' : Option α} {pre post : List α} {x : α}
    (h : Chain next prev head (pre ++ x :: post))
    (hhead : head' = pre.head?.or post.head?)
    (hpre : ∀ y, pre.getLast? = some y → next' y = post.head?)
    (hpost : ∀ y, post.head? = some y → prev' y = pre.getLast?)
    (hn : ∀ y ∈ pre ++ post, pre.getLast? ≠ some y → next' y = next y)
    (hp : ∀ y ∈ pre ++ post, post.head? ≠ some y → prev' y = prev y) :
    Chain next' prev' head' (pre ++ post) := by
  refine ⟨by rw [hhead, List.head?_append], ?_, ?_⟩
  · exact h.nodup.sublist ((List.sublist_cons_self x post).append_left pre)
  · exact h.linked.erase h.nodup (by simpa using hpre) (by simpa using hpost) hn hp

theorem Chain.next_ne {head : Option α} {xs : List α} {x y : α} (h : Chain next prev head xs)
    (hx : x ∈ xs) (hy : next x = some y) : y ≠ x := by
  obtain ⟨pre, post, rfl⟩ := List.append_of_mem hx
  rw [h.next_eq] at hy
  rintro rfl
  exact (List.nodup_cons.mp (List.nodup_append'.mp h.nodup).2.1).1 (List.mem_of_head? hy)

theorem Chain.prev_ne {head : Option α} {xs : List α} {x y : α} (h : Chain next prev head xs)
    (hx : x ∈ xs) (hy : prev x = some y) : y ≠ x := by
  obtain ⟨pre, post, rfl⟩ := List.append_of_mem hx
  rw [h.prev_eq] at hy
  rintro rfl
  exact (List.nodup_append'.mp h.nodup).2.2 (List.mem_of_getLast? hy) List.mem_cons_self

section Unlink
variable [DecidableEq α]

/-- The `next` map after `x` is put between its neighbours. -/
def linkNext (next : α → Option α) (pred : Option α) (x : α) (succ : Option α) : α → Option α :=
  match pred with
  | some p => Function.update (Function.update next x succ) p (some x)
  | none => Function.update next x succ

/-- The `prev` map after `x` is put between its neighbours. -/
def linkPrev (prev : α → Option α) (pred : Option α) (x : α) (succ : Option α) : α → Option α :=
  match succ with
  | some n => Function.update (Function.update prev x pred) n (some x)
  | none => Function.update prev x pred

/-- The end pointer after `x` is put next to `neighbour`, which is `none` at that end. -/
def linkEnd (neighbour : Option α) (x : α) (endp : Option α) : Option α :=
  match neighbour with
  | some _ => endp
  | none => some x

/-- The former pointers of `x` do not matter. -/
@[simp] theorem linkNext_update (pred succ y : Option α) (x : α) :
    linkNext (Function.update next x y) pred x succ = linkNext next pred x succ := by
  cases pred <;> simp [linkNext]

@[simp] theorem linkPrev_update (pred succ y : Option α) (x : α) :
    linkPrev (Function.update prev x y) pred x succ = linkPrev prev pred x succ := by
  cases succ <;> simp [linkPrev]

theorem linkNext_of_ne {pred succ : Option α} {x y : α} (hx : y ≠ x) (hp : pred ≠ some y) :
    linkNext next pred x succ y = next y := by
  cases pred with
  | none => exact Function.update_of_ne hx _ _
  | some p =>
    have hyp : y ≠ p := fun he => hp (he ▸ rfl)
    simp [linkNext, Function.update_of_ne hyp, Function.update_of_ne hx]

theorem linkPrev_of_ne {pred succ : Option α} {x y : α} (hx : y ≠ x) (hs : succ ≠ some y) :
    linkPrev prev pred x succ y = prev y := by
  cases succ with
  | none => exact Function.update_of_ne hx _ _
  | some n =>
    have hyn : y ≠ n := fun he => hs (he ▸ rfl)
    simp [linkPrev, Function.update_of_ne hyn, Function.update_of_ne hx]

theorem linkNext_self {pred succ : Option α} {x : α} (hp : pred ≠ some x) :
    linkNext next pred x succ x = succ := by
  cases pred with
  | none => simp [linkNext]
  | some p =>
    have hxp : x ≠ p := fun he => hp (he ▸ rfl)
    simp [linkNext, Function.update_of_ne hxp]

theorem linkPrev_self {pred succ : Option α} {x : α} (hs : succ ≠ some x) :
    linkPrev prev pred x succ x = pred := by
  cases succ with
  | none => simp [linkPrev]
  | some n =>
    have hxn : x ≠ n := fun he => hs (he ▸ rfl)
    simp [linkPrev, Function.update_of_ne hxn]

theorem Chain.link {head : Option α} {pre post : List α} {x : α}
    (h : Chain next prev head (pre ++ post)) (hx : x ∉ pre ++ post) :
    Chain (linkNext next pre.getLast? x post.head?) (linkPrev prev pre.getLast? x post.head?)
      (linkEnd pre.getLast? x head) (pre ++ x :: post) := by
  have hp : pre.getLast? ≠ some x := fun he => hx (by simp [List.mem_of_getLast? he])
  have hs : post.head? ≠ some x := fun he => hx (by simp [List.mem_of_head? he])
  have hne : ∀ y ∈ pre ++ post, y ≠ x := fun y hy he => hx (he ▸ hy)
  refine ⟨?_, ?_, ?_⟩
  · rw [h.head_eq]
    cases pre <;> simp [linkEnd, List.getLast?_cons]
  · rw [List.nodup_middle, List.nodup_cons]
    exact ⟨hx, h.nodup⟩
  · refine h.linked.insert pre post h.nodup ?_ ?_ ?_ ?_ ?_ ?_
    · rw [linkNext_self hp, Option.or_none]
    · rw [linkPrev_self hs, Option.or_none]
    · intro y hy
      simp [linkNext, hy]
    · intro y hy
      simp [linkPrev, hy]
    · exact fun y hy hl => linkNext_of_ne (hne y hy) hl
    · exact fun y hy hl => linkPrev_of_ne (hne y hy) hl

omit [DecidableEq α] in
/-- The far end pointer of a chain follows the insertion as well. -/
theorem link_last (pre post : List α) (x : α) :
    linkEnd post.head? x (pre ++ post).getLast? = (pre ++ x :: post).getLast? := by
  cases post with
  | nil => simp [linkEnd]
  | cons y ys => simp [linkEnd, List.getLast?_append, List.getLast?_cons]

/-- `Chain.link` at the head. -/
theorem Chain.link_head {head : Option α} {xs : List α} {x : α} (h : Chain next prev head xs)
    (hx : x ∉ xs) :
    Chain (linkNext next none x xs.head?) (linkPrev prev none x xs.head?) (some x) (x :: xs) :=
  @Chain.link _ _ _ _ head [] xs x h hx

/-- The `next` map after a node is bypassed by its predecessor. -/
def unlinkNext (next prev : α → Option α) (x : α) : α → Option α :=
  match prev x with
  | some p => Function.update next p (next x)
  | none => next

/-- The `prev` map after a node is bypassed by its successor. -/
def unlinkPrev (next prev : α → Option α) (x : α) : α → Option α :=
  match next x with
  | some n => Function.update prev n (prev x)
  | none => prev

/-- The end pointer after a node leaves: it moves on if the node stood at that end. -/
def unlinkEnd (toward away : α → Option α) (x : α) (endp : Option α) : Option α :=
  match toward x with
  | some _ => endp
  | none => away x

theorem Chain.unlink {head : Option α} {xs : List α} {x : α} (h : Chain next prev head xs)
    (hx : x ∈ xs) :
    Chain (unlinkNext next prev x) (unlinkPrev next prev x) (unlinkEnd prev next x head)
      (xs.erase x) := by
  obtain ⟨pre, post, rfl⟩ := List.append_of_mem hx
  have hnx := h.next_eq
  have hpx := h.prev_eq
  have hxpre : x ∉ pre := fun hm =>
    (List.nodup_append'.mp h.nodup).2.2 hm List.mem_cons_self
  rw [List.erase_append_right _ hxpre, List.erase_cons_head]
  refine h.erase ?_ ?_ ?_ ?_ ?_
  · rw [unlinkEnd, hpx, hnx, h.head_eq]
    cases pre <;> simp [List.getLast?_cons]
  · intro y hy
    simp [unlinkNext, hpx, hy, hnx]
  · intro y hy
    simp [unlinkPrev, hnx, hy, hpx]
  · intro y _ hne
    cases hl : pre.getLast? with
    | none => simp [unlinkNext, hpx, hl]
    | some p =>
      have hyp : y ≠ p := by
        rintro rfl
        exact hne hl
      simp [unlinkNext, hpx, hl, Function.update_of_ne hyp]
  · intro y _ hne
    cases hh : post.head? with
    | none => simp [unlinkPrev, hnx, hh]
    | some n =>
      have hyn : y ≠ n := by
        rintro rfl
        exact hne hh
      simp [unlinkPrev, hnx, hh, Function.update_of_ne hyn]

/-- A node that entered at the head and leaves again is the only one whose pointers change. -/
theorem unlinkNext_link_head {succ : Option α} {x y : α} (hs : succ ≠ some x) (hy : y ≠ x) :
    unlinkNext (linkNext next none x succ) (linkPrev prev none x succ) x y = next y := by
  rw [unlinkNext, linkPrev_self hs]
  exact linkNext_of_ne hy (by simp)

theorem Chain.unlinkPrev_link_head {head : Option α} {xs : List α} {x y : α}
    (h : Chain next prev head xs) (hx : x ∉ xs) (hy : y ≠ x) :
    unlinkPrev (linkNext next none x xs.head?) (linkPrev prev none x xs.head?) x y = prev y := by
  rw [unlinkPrev, linkNext_self (by simp)]
  cases xs with
  | nil => exact linkPrev_of_ne hy (by simp)
  | cons n xs =>
    have hn : prev n = none := h.linked.1
    have hs : some n ≠ some x := fun he => hx (by simp [Option.some.inj he])
    simp only [List.head?_cons, linkPrev_self hs]
    by_cases hyn : y = n
    · rw [hyn, Function.update_self, hn]
    · rw [Function.update_of_ne hyn, linkPrev_of_ne hy fun he => hyn (Option.some.inj he).symm]

theorem unlinkEnd_link_head {succ : Option α} {x : α} (hs : succ ≠ some x) :
    unlinkEnd (linkPrev prev none x succ) (linkNext next none x succ) x (some x) = succ := by
  rw [unlinkEnd, linkPrev_self hs]
  exact linkNext_self (by simp)

/-- Unlinking writes only into the chain it is done on. -/
theorem Chain.unlinkNext_of_not_mem {head : Option α} {xs : List α} {x y : α}
    (h : Chain next prev head xs) (hx : x ∈ xs) (hy : y ∉ xs) :
    unlinkNext next prev x y = next y := by
  obtain ⟨pre, post, rfl⟩ := List.append_of_mem hx
  rw [unlinkNext, h.prev_eq]
  cases hl : pre.getLast? with
  | none => rfl
  | some p =>
    refine Function.update_of_ne ?_ _ _
    rintro rfl
    exact hy (by simp [List.mem_of_getLast? hl])

theorem Chain.unlinkPrev_of_not_mem {head : Option α} {xs : List α} {x y : α}
    (h : Chain next prev head xs) (hx : x ∈ xs) (hy : y ∉ xs) :
    unlinkPrev next prev x y = prev y := by
  obtain ⟨pre, post, rfl⟩ := List.append_of_mem hx
  rw [unlinkPrev, h.next_eq]
  cases hl : post.head? with
  | none => rfl
  | some p =>
    refine Function.update_of_ne ?_ _ _
    rintro rfl
    exact hy (by simp [List.mem_of_head? hl])

/-- The far end pointer of a chain follows the removal as well. -/
theorem Chain.unlink_last {head : Option α} {xs : List α} {x : α} (h : Chain next prev head xs)
    (hx : x ∈ xs) :
    unlinkEnd next prev x xs.getLast? = (xs.erase x).getLast? := by
  obtain ⟨pre, post, rfl⟩ := List.append_of_mem hx
  have hxpre : x ∉ pre := fun hm =>
    (List.nodup_append'.mp h.nodup).2.2 hm List.mem_cons_self
  rw [List.erase_append_right _ hxpre, List.erase_cons_head, unlinkEnd, h.next_eq, h.prev_eq]
  cases post <;> simp [List.getLast?_append, List.getLast?_cons]

end Unlink

/-- Following `next` from a head that is linked to a list visits that list and nothing else. -/
inductive Reaches (next : α → Option α) (head : Option α) : α → Prop
  | head {x : α} (h : head = some x) : Reaches next head x
  | next {x y : α} (hx : Reaches next head x) (h : next x = some y) : Reaches next head y

theorem Linked.next_mem {xs : List α} {x y : α} (h : Linked next prev before xs none)
    (hx : x ∈ xs) (hy : next x = some y) : y ∈ xs := by
  obtain ⟨pre, post, rfl⟩ := List.append_of_mem hx
  rw [h.next_eq, Option.or_none] at hy
  simp [List.mem_of_head? hy]

theorem Linked.reaches {xs : List α} {head : Option α} (h : Linked next prev before xs after)
    (hhead : ∀ x, xs.head? = some x → Reaches next head x) : ∀ x ∈ xs, Reaches next head x := by
  induction xs generalizing before with
  | nil => simp
  | cons x xs ih =>
    obtain ⟨_, hnext, hrest⟩ := h
    have hx := hhead x rfl
    intro y hy
    rcases List.mem_cons.mp hy with rfl | hy
    · exact hx
    · refine ih hrest (fun z hz => hx.next ?_) y hy
      rw [hnext, hz, Option.some_or]

/-- The nodes reached from the head of a chain are its members. -/
theorem Chain.reaches_iff {head : Option α} {xs : List α} (h : Chain next prev head xs) {x : α} :
    Reaches next head x ↔ x ∈ xs := by
  constructor
  · intro hr
    induction hr with
    | head he => exact List.mem_of_head? (h.head_eq.symm.trans he)
    | next _ hn ih => exact h.linked.next_mem ih hn
  · exact h.linked.reaches (fun y hy => .head (h.head_eq.trans hy)) x

/-- Following `next` from `head` passes the nodes of the list in its order and then ends. -/
def Visits (next : α → Option α) : Option α → List α → Prop
  | head, [] => head = none
  | head, x :: xs => head = some x ∧ Visits next (next x) xs

theorem Linked.visits {xs : List α} (h : Linked next prev before xs none) :
    Visits next xs.head? xs := by
  induction xs generalizing before with
  | nil => rfl
  | cons x xs ih =>
    obtain ⟨_, hnext, hrest⟩ := h
    rw [Option.or_none] at hnext
    exact ⟨rfl, hnext ▸ ih hrest⟩

theorem Visits.eq {head : Option α} {xs ys : List α} (hx : Visits next head xs)
    (hy : Visits next head ys) : xs = ys := by
  induction xs generalizing head ys with
  | nil =>
    cases ys with
    | nil => rfl
    | cons y ys => cases hx.symm.trans hy.1
  | cons x xs ih =>
    cases ys with
    | nil => cases hy.symm.trans hx.1
    | cons y ys =>
      obtain rfl := Option.some.inj (hx.1.symm.trans hy.1)
      rw [ih hx.2 hy.2]

/-- The visit reads only the links of the nodes it passes. -/
theorem Visits.congr {head : Option α} {xs : List α} (h : Visits next head xs)
    (hn : ∀ x ∈ xs, next' x = next x) : Visits next' head xs := by
  induction xs generalizing head with
  | nil => exact h
  | cons x xs ih =>
    refine ⟨h.1, ?_⟩
    rw [hn x (by simp)]
    exact ih h.2 fun y hy => hn y (by simp [hy])

/-- A program's loop along `next`: stop at the first node that satisfies `stop`, updating the
accumulator on the way. -/
def walk {σ : Type*} (next : α → Option α) (stop : σ → α → Bool) (update : σ → α → σ) :
    ℕ → σ → Option α → σ × Option α
  | 0, s, _ => (s, none)
  | _ + 1, s, none => (s, none)
  | fuel + 1, s, some x =>
      if stop s x then (s, some x) else walk next stop update fuel (update s x) (next x)

/-- The same loop over the list of nodes. -/
def walkList {σ : Type*} (stop : σ → α → Bool) (update : σ → α → σ) :
    σ → List α → σ × Option α
  | s, [] => (s, none)
  | s, x :: xs => if stop s x then (s, some x) else walkList stop update (update s x) xs

/-- With fuel for every node, the loop along the links is the loop over the list. -/
theorem Visits.walk_eq_walkList {σ : Type*} {stop : σ → α → Bool} {update : σ → α → σ}
    {head : Option α} {xs : List α} (h : Visits next head xs) {fuel : ℕ} (hf : xs.length ≤ fuel)
    (s : σ) : walk next stop update fuel s head = walkList stop update s xs := by
  induction xs generalizing head fuel s with
  | nil =>
    obtain rfl : head = none := h
    cases fuel <;> rfl
  | cons x xs ih =>
    obtain ⟨rfl, hrest⟩ := h
    cases fuel with
    | zero => simp at hf
    | succ fuel =>
      have hf' : xs.length ≤ fuel := by simpa using hf
      simp only [walk, walkList, ih hrest hf']

theorem walk_eq_walkList {σ : Type*} {stop : σ → α → Bool} {update : σ → α → σ} {xs : List α}
    (h : Linked next prev before xs none) {fuel : ℕ} (hf : xs.length ≤ fuel) (s : σ) :
    walk next stop update fuel s xs.head? = walkList stop update s xs :=
  h.visits.walk_eq_walkList hf s

/-- Where the loop ends: at the first node that satisfies `stop`, or after the last one. -/
theorem walkList_cases {σ : Type*} (stop : σ → α → Bool) (update : σ → α → σ) (s : σ)
    (xs : List α) :
    (∃ pre x post, xs = pre ++ x :: post ∧ stop (pre.foldl update s) x ∧
        walkList stop update s xs = (pre.foldl update s, some x)) ∨
      walkList stop update s xs = (xs.foldl update s, none) := by
  induction xs generalizing s with
  | nil => exact .inr rfl
  | cons x xs ih =>
    by_cases hx : stop s x
    · exact .inl ⟨[], x, xs, rfl, hx, by simp [walkList, hx]⟩
    · rcases ih (update s x) with ⟨pre, y, post, rfl, hy, he⟩ | he
      · exact .inl ⟨x :: pre, y, post, rfl, hy, by simp [walkList, hx, he]⟩
      · exact .inr (by simp [walkList, hx, he])

/-- A search loop returns the node it stops at. -/
def search (next : α → Option α) (p : α → Bool) (fuel : ℕ) (head : Option α) : Option α :=
  (walk next (fun _ : Unit => p) (fun s _ => s) fuel () head).2

/-- Along any links, the node of a search satisfies the test and is reached. -/
theorem search_some {p : α → Bool} {fuel : ℕ} {head head' : Option α} {x : α}
    (h : search next p fuel head' = some x) (hhead : ∀ y, head' = some y → Reaches next head y) :
    p x = true ∧ Reaches next head x := by
  induction fuel generalizing head' with
  | zero => cases h
  | succ fuel ih =>
    cases head' with
    | none => cases h
    | some y =>
      have hy := hhead y rfl
      unfold search walk at h
      split_ifs at h with hp
      · cases h
        exact ⟨hp, hy⟩
      · exact ih h fun z hz => hy.next hz

theorem walkList_find (p : α → Bool) (xs : List α) :
    (walkList (fun _ : Unit => p) (fun s _ => s) () xs).2 = xs.find? p := by
  induction xs with
  | nil => rfl
  | cons x xs ih =>
    simp only [walkList, List.find?_cons]
    cases p x <;> simp [ih]

theorem Visits.search_eq_find {p : α → Bool} {head : Option α} {xs : List α}
    (h : Visits next head xs) {fuel : ℕ} (hf : xs.length ≤ fuel) :
    search next p fuel head = xs.find? p := by
  rw [search, h.walk_eq_walkList hf, walkList_find]

theorem search_eq_find {p : α → Bool} {xs : List α} (h : Linked next prev before xs none)
    {fuel : ℕ} (hf : xs.length ≤ fuel) : search next p fuel xs.head? = xs.find? p :=
  h.visits.search_eq_find hf

/-- A node that alone satisfies the test is the one that is found. -/
theorem find_eq_of_unique {p : α → Bool} {xs : List α} {x : α} (hx : x ∈ xs) (hp : p x)
    (huniq : ∀ y ∈ xs, p y → y = x) : xs.find? p = some x := by
  cases hf : xs.find? p with
  | none => exact absurd hp (List.find?_eq_none.mp hf x hx)
  | some y => rw [huniq y (List.mem_of_find?_eq_some hf) (List.find?_some hf)]

end Sgos.LinkedChain
