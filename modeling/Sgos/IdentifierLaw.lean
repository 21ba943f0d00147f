import Sgos.GuardedRun
import Sgos.Identifier

/-!
# Identifiers resolve

When the lookups by identifier find every space and every thread. The number of a descriptor in
its creation order fixes its identifier, and the tree of the spaces fixes what a lookup can reach.
-/
namespace Sgos.Identifier
open GuardedRun LinkedChain

inductive Event
  | createSpace (block : Option Ptr) (directory : Bool) (parent : Option Ptr)
  | createThread (block : Option Ptr) (space : Ptr)

def step (s : State) : Event → State
  | .createSpace block directory parent => (mmCreateSpace s block directory parent).2
  | .createThread block space => (tmCreateThread s block space).2

/-- The parent, or the space of the new thread, exists. -/
def Proper (s : State) : Event → Prop
  | .createSpace _ _ parent => ∀ p, parent = some p → p ∈ s.spaces
  | .createThread _ space => space ∈ s.spaces

/-- Every space and every thread is found by its identifier, whichever thread runs, and no two
share one. -/
structure Resolves (s : State) : Prop where
  space : ∀ p ∈ s.spaces, mmGetSpaceById s (s.space p).spaceId = some p
  thread : ∀ t ∈ s.threads, ∀ cur ∈ s.threads,
    tmGetThreadById s cur (s.thread t).threadId = some t
  space_inj : ∀ p ∈ s.spaces, ∀ q ∈ s.spaces, (s.space p).spaceId = (s.space q).spaceId → p = q
  thread_inj : ∀ t ∈ s.threads, ∀ u ∈ s.threads,
    (s.thread t).threadId = (s.thread u).threadId → t = u

/-- The new space is a child of the first one and the counter has not come round; or no thread of
the space was created when the thread counter showed the same. -/
def StepOk (s : State) : Event → Prop
  | .createSpace block directory parent => ∀ space p,
      mmAllocateKernelMemory s.live block = some space → directory = true → parent = some p →
      p = s.firstSpace ∧ s.spaces.length < 16384
  | .createThread block space => ∀ thr, mmAllocateKernelMemory s.live block = some thr →
      ∀ i t, s.threads[i]? = some t → (s.thread t).space = space →
      i % 49152 ≠ s.threads.length % 49152

/-! ## What a creation changes -/

section Creation
variable {s s' : State} {x p : Ptr}

@[simp] lemma setSpace_space (s : State) (p q : Ptr) (sp : KSpace) :
    (s.setSpace p sp).space q = if q = p then sp else s.space q :=
  Function.update_apply _ _ _ _

@[simp] lemma setThread_thread (s : State) (p q : Ptr) (thr : KThread) :
    (s.setThread p thr).thread q = if q = p then thr else s.thread q :=
  Function.update_apply _ _ _ _

@[simp] lemma setThread_space (s : State) (p : Ptr) (thr : KThread) :
    (s.setThread p thr).space = s.space := rfl

/-- `s'` is `s` with a new space `x` below `p`. -/
structure NewSpace (s s' : State) (x p : Ptr) : Prop where
  fresh : x ∉ s.live
  spaces : s'.spaces = s.spaces ++ [x]
  threads : s'.threads = s.threads
  firstSpace : s'.firstSpace = s.firstSpace
  spaceId : s'.spaceId = s.spaceId + 4
  threadId : s'.threadId = s.threadId
  thread : s'.thread = s.thread
  space_spaceId : ∀ q, (s'.space q).spaceId = if q = x then s.spaceId.toUInt32 else (s.space q).spaceId
  parent : ∀ q, (s'.space q).parent = if q = x then some p else (s.space q).parent
  next : ∀ q, (s'.space q).next = if q = x then (s.space p).child else (s.space q).next
  child : ∀ q, (s'.space q).child =
    if q = p then some x else if q = x then none else (s.space q).child
  firstThread : ∀ q, (s'.space q).firstThread = if q = x then none else (s.space q).firstThread

lemma mmCreateSpace_cases (s : State) (block : Option Ptr) (directory : Bool)
    (parent : Option Ptr) :
    (mmCreateSpace s block directory parent).2 = s ∧ (∀ x p,
        mmAllocateKernelMemory s.live block = some x → directory = true → parent ≠ some p) ∨
      ∃ x p, mmAllocateKernelMemory s.live block = some x ∧ directory = true ∧ parent = some p ∧
        (p ∈ s.spaces → NewSpace s (mmCreateSpace s block directory parent).2 x p) := by
  cases parent with
  | none => exact .inl ⟨rfl, by simp⟩
  | some p =>
    cases hb : mmAllocateKernelMemory s.live block with
    | none => exact .inl ⟨by simp [mmCreateSpace, hb], by simp⟩
    | some x =>
      cases directory with
      | false => exact .inl ⟨by simp [mmCreateSpace, hb], by simp⟩
      | true =>
        refine .inr ⟨x, p, rfl, rfl, rfl, fun hp => ?_⟩
        have hfresh := not_mem_of_allocated hb
        have hpx : p ≠ x := by
          rintro rfl
          exact hfresh (List.mem_append_left _ hp)
        cases hc : (s.space p).child
        all_goals
          constructor
          case fresh => exact hfresh
          case space_spaceId | parent | next | child | firstThread =>
            intro q
            simp only [mmCreateSpace, hb, hc, hpx, generateSpaceId, State.modifySpace,
              setSpace_space, reduceIte, reduceCtorEq]
            split_ifs <;> simp_all
          all_goals
            simp [mmCreateSpace, hb, hc, hpx, generateSpaceId, State.modifySpace, State.setSpace]

/-- `s'` is `s` with a new thread `x` in the space `p`. -/
structure NewThread (s s' : State) (x p : Ptr) : Prop where
  fresh : x ∉ s.live
  spaces : s'.spaces = s.spaces
  threads : s'.threads = s.threads ++ [x]
  firstSpace : s'.firstSpace = s.firstSpace
  spaceId : s'.spaceId = s.spaceId
  threadId : s'.threadId = nextThreadId s.threadId
  space_spaceId : ∀ q, (s'.space q).spaceId = (s.space q).spaceId
  parent : ∀ q, (s'.space q).parent = (s.space q).parent
  next : ∀ q, (s'.space q).next = (s.space q).next
  child : ∀ q, (s'.space q).child = (s.space q).child
  firstThread : ∀ q, (s'.space q).firstThread = if q = p then some x else (s.space q).firstThread
  thread_threadId : ∀ t, (s'.thread t).threadId =
    if t = x then (s.space p).spaceId <<< 16 ||| s.threadId.toUInt32 else (s.thread t).threadId
  thread_space : ∀ t, (s'.thread t).space = if t = x then p else (s.thread t).space
  thread_next : ∀ t, (s'.thread t).next =
    if t = x then (s.space p).firstThread else (s.thread t).next

lemma tmCreateThread_cases (s : State) (block : Option Ptr) (p : Ptr) :
    (tmCreateThread s block p).2 = s ∧ mmAllocateKernelMemory s.live block = none ∨
      ∃ x, mmAllocateKernelMemory s.live block = some x ∧
        NewThread s (tmCreateThread s block p).2 x p := by
  cases hb : mmAllocateKernelMemory s.live block with
  | none => exact .inl ⟨by simp [tmCreateThread, hb], rfl⟩
  | some x =>
    refine .inr ⟨x, rfl, ?_⟩
    have hfresh := not_mem_of_allocated hb
    cases hf : (s.space p).firstThread
    all_goals
      constructor
      case fresh => exact hfresh
      case space_spaceId | parent | next | child | firstThread =>
        intro q
        simp only [tmCreateThread, hb, hf, generateThreadId, State.modifySpace, State.modifyThread,
          State.setThread, setSpace_space]
        split_ifs <;> simp_all
      case thread_threadId | thread_space | thread_next =>
        intro t
        simp only [tmCreateThread, hb, hf, generateThreadId, State.modifySpace, State.setSpace,
          State.modifyThread, setThread_thread, setThread_space]
        split_ifs <;> simp_all
      all_goals
        simp [tmCreateThread, hb, hf, generateThreadId, State.modifySpace, State.setSpace,
          State.modifyThread, State.setThread]

end Creation

/-! ## The created descriptors -/

def nextSpace (s : State) (p : Ptr) : Option Ptr := (s.space p).next
def nextThread (s : State) (t : Ptr) : Option Ptr := (s.thread t).next

/-- The children of a space, the newest first. -/
def childrenOf (s : State) (p : Ptr) : List Ptr :=
  (s.spaces.filter fun q => (s.space q).parent = some p).reverse

def threadsOf (s : State) (p : Ptr) : List Ptr :=
  (s.threads.filter fun t => (s.thread t).space = p).reverse

/-- Whatever was created: its place in the creation order fixes its identifier, and the links lead
from a space to its children and its threads. -/
structure Created (s : State) : Prop where
  nodup : s.live.Nodup
  first : s.spaces[0]? = some s.firstSpace
  spaceCount : s.spaceId = spaceNumber s.spaces.length
  threadCount : s.threadId = threadNumber s.threads.length
  spaceId : ∀ i p, s.spaces[i]? = some p → (s.space p).spaceId = (spaceNumber i).toUInt32
  space_mem : ∀ t ∈ s.threads, (s.thread t).space ∈ s.spaces
  threadId : ∀ i t j, s.threads[i]? = some t → s.spaces[j]? = some (s.thread t).space →
    (s.thread t).threadId = packed (spaceNumber j) (threadNumber i)
  parent_mem : ∀ p ∈ s.spaces, ∀ q, (s.space p).parent = some q → q ∈ s.spaces
  children : ∀ p ∈ s.spaces, Visits (nextSpace s) (s.space p).child (childrenOf s p)
  threads : ∀ p ∈ s.spaces, Visits (nextThread s) (s.space p).firstThread (threadsOf s p)

section Created
variable {s s' : State} {x p : Ptr}

/-- An element of a list with one more at the end. -/
lemma getElem?_concat {xs : List Ptr} {y : Ptr} {i : ℕ} :
    (xs ++ [x])[i]? = some y ↔ xs[i]? = some y ∨ i = xs.length ∧ x = y := by
  grind

lemma Created.newSpace (h : Created s) (hp : p ∈ s.spaces) (hn : NewSpace s s' x p) :
    Created s' := by
  have hxs : x ∉ s.spaces := fun hm => hn.fresh (List.mem_append_left _ hm)
  have hxt : x ∉ s.threads := fun hm => hn.fresh (List.mem_append_right _ hm)
  have hpx : p ≠ x := ne_of_mem_of_not_mem hp hxs
  have hold : ∀ q ∈ s.spaces, q ≠ x := fun q hq => ne_of_mem_of_not_mem hq hxs
  have hnext : ∀ q ∈ s.spaces, nextSpace s' q = nextSpace s q := by
    intro q hq
    rw [nextSpace, hn.next, if_neg (hold q hq), nextSpace]
  have hchildren : ∀ q, childrenOf s' q = if q = p then x :: childrenOf s q else childrenOf s q := by
    intro q
    have hfilter : s.spaces.filter (fun r => (s'.space r).parent = some q) =
        s.spaces.filter fun r => (s.space r).parent = some q := by
      refine List.filter_congr fun r hr => ?_
      rw [hn.parent, if_neg (hold r hr)]
    rw [childrenOf, hn.spaces, List.filter_append, hfilter, List.reverse_append]
    by_cases hq : q = p
    · simp [hn.parent, hq, childrenOf]
    · simp [hn.parent, hq, Ne.symm hq, childrenOf]
  have hvisits : ∀ q ∈ s.spaces, Visits (nextSpace s') (s.space q).child (childrenOf s q) := by
    intro q hq
    refine (h.children q hq).congr fun r hr => hnext r ?_
    exact (List.mem_filter.mp (List.mem_reverse.mp hr)).1
  constructor
  case nodup =>
    have hperm : s'.live.Perm (x :: s.live) := by
      rw [State.live, State.live, hn.spaces, hn.threads, List.append_assoc]
      exact List.perm_middle
    exact hperm.nodup_iff.mpr (List.nodup_cons.mpr ⟨hn.fresh, h.nodup⟩)
  case first =>
    rw [hn.spaces, hn.firstSpace]
    exact getElem?_concat.mpr (.inl h.first)
  case spaceCount =>
    rw [hn.spaceId, h.spaceCount, hn.spaces, spaceNumber_succ, List.length_append,
      List.length_singleton]
  case threadCount => rw [hn.threadId, h.threadCount, hn.threads]
  case spaceId =>
    intro i q hi
    rw [hn.spaces] at hi
    rw [hn.space_spaceId]
    rcases getElem?_concat.mp hi with hi | ⟨rfl, rfl⟩
    · rw [if_neg (hold q (List.mem_of_getElem? hi)), h.spaceId i q hi]
    · rw [if_pos rfl, h.spaceCount]
  case space_mem =>
    intro t ht
    rw [hn.threads] at ht
    rw [hn.spaces, hn.thread]
    exact List.mem_append_left _ (h.space_mem t ht)
  case threadId =>
    intro i t j hi hj
    rw [hn.threads] at hi
    rw [hn.spaces, hn.thread] at hj
    rw [hn.thread]
    have hmem := h.space_mem t (List.mem_of_getElem? hi)
    rcases getElem?_concat.mp hj with hj | ⟨-, he⟩
    · exact h.threadId i t j hi hj
    · exact absurd (he ▸ hmem) hxs
  case parent_mem =>
    intro q hq r hr
    rw [hn.spaces] at hq ⊢
    rw [hn.parent] at hr
    split_ifs at hr with hqx
    · exact List.mem_append_left _ (Option.some.inj hr ▸ hp)
    · have hq' : q ∈ s.spaces := by simpa [hqx] using hq
      exact List.mem_append_left _ (h.parent_mem q hq' r hr)
  case children =>
    intro q hq
    rw [hn.spaces] at hq
    rw [hn.child, hchildren]
    by_cases hqp : q = p
    · rw [if_pos hqp, if_pos hqp, hqp]
      refine ⟨rfl, ?_⟩
      rw [nextSpace, hn.next, if_pos rfl]
      exact hvisits p hp
    · rw [if_neg hqp, if_neg hqp]
      by_cases hqx : q = x
      · have hnil : childrenOf s x = [] := by
          rw [childrenOf, List.reverse_eq_nil_iff, List.filter_eq_nil_iff]
          intro r hr hpar
          exact hxs (h.parent_mem r hr x (of_decide_eq_true hpar))
        rw [if_pos hqx, hqx, hnil]
        rfl
      · rw [if_neg hqx]
        exact hvisits q (by simpa [hqx] using hq)
  case threads =>
    intro q hq
    rw [hn.spaces] at hq
    have hthreads : threadsOf s' q = threadsOf s q := by rw [threadsOf, threadsOf, hn.threads, hn.thread]
    have hnextThread : nextThread s' = nextThread s := by
      funext t
      rw [nextThread, nextThread, hn.thread]
    rw [hn.firstThread, hthreads, hnextThread]
    by_cases hqx : q = x
    · have hnil : threadsOf s x = [] := by
        rw [threadsOf, List.reverse_eq_nil_iff, List.filter_eq_nil_iff]
        intro t ht hsp
        exact hxs (of_decide_eq_true hsp ▸ h.space_mem t ht)
      rw [if_pos hqx, hqx, hnil]
      rfl
    · rw [if_neg hqx]
      exact h.threads q (by simpa [hqx] using hq)

lemma Created.newThread (h : Created s) (hp : p ∈ s.spaces) (hn : NewThread s s' x p) :
    Created s' := by
  have hxt : x ∉ s.threads := fun hm => hn.fresh (List.mem_append_right _ hm)
  have hold : ∀ t ∈ s.threads, t ≠ x := fun t ht => ne_of_mem_of_not_mem ht hxt
  have hspace : ∀ t ∈ s.threads, (s'.thread t).space = (s.thread t).space := by
    intro t ht
    rw [hn.thread_space, if_neg (hold t ht)]
  have hnextSpace : nextSpace s' = nextSpace s := funext hn.next
  have hchildren : ∀ q, childrenOf s' q = childrenOf s q := by
    intro q
    simp only [childrenOf, hn.spaces, hn.parent]
  have hthreads : ∀ q, threadsOf s' q = if q = p then x :: threadsOf s q else threadsOf s q := by
    intro q
    have hfilter : s.threads.filter (fun t => (s'.thread t).space = q) =
        s.threads.filter fun t => (s.thread t).space = q := by
      refine List.filter_congr fun t ht => ?_
      rw [hspace t ht]
    rw [threadsOf, hn.threads, List.filter_append, hfilter, List.reverse_append]
    by_cases hq : q = p
    · simp [hn.thread_space, hq, threadsOf]
    · simp [hn.thread_space, hq, Ne.symm hq, threadsOf]
  have hvisits : ∀ q ∈ s.spaces, Visits (nextThread s') (s.space q).firstThread (threadsOf s q) := by
    intro q hq
    refine (h.threads q hq).congr fun t ht => ?_
    have ht' : t ∈ s.threads := (List.mem_filter.mp (List.mem_reverse.mp ht)).1
    rw [nextThread, hn.thread_next, if_neg (hold t ht'), nextThread]
  constructor
  case nodup =>
    have hperm : s'.live.Perm (x :: s.live) := by
      rw [State.live, State.live, hn.spaces, hn.threads, ← List.append_assoc]
      exact List.perm_append_singleton _ _
    exact hperm.nodup_iff.mpr (List.nodup_cons.mpr ⟨hn.fresh, h.nodup⟩)
  case first => rw [hn.spaces, hn.firstSpace, h.first]
  case spaceCount => rw [hn.spaceId, h.spaceCount, hn.spaces]
  case threadCount =>
    rw [hn.threadId, h.threadCount, hn.threads, threadNumber_succ, List.length_append,
      List.length_singleton]
  case spaceId =>
    intro i q hi
    rw [hn.spaces] at hi
    rw [hn.space_spaceId, h.spaceId i q hi]
  case space_mem =>
    intro t ht
    rw [hn.threads] at ht
    rw [hn.spaces, hn.thread_space]
    split_ifs with htx
    · exact hp
    · exact h.space_mem t (by simpa [htx] using ht)
  case threadId =>
    intro i t j hi hj
    rw [hn.threads] at hi
    rw [hn.spaces] at hj
    rw [hn.thread_threadId]
    rcases getElem?_concat.mp hi with hi | ⟨rfl, rfl⟩
    · have ht := List.mem_of_getElem? hi
      rw [hspace t ht] at hj
      rw [if_neg (hold t ht), h.threadId i t j hi hj]
    · rw [hn.thread_space, if_pos rfl] at hj
      rw [if_pos rfl, h.spaceId j p hj, h.threadCount, packed]
  case parent_mem =>
    intro q hq r hr
    rw [hn.spaces] at hq ⊢
    rw [hn.parent] at hr
    exact h.parent_mem q hq r hr
  case children =>
    intro q hq
    rw [hn.spaces] at hq
    rw [hn.child, hchildren, hnextSpace]
    exact h.children q hq
  case threads =>
    intro q hq
    rw [hn.spaces] at hq
    rw [hn.firstThread, hthreads]
    by_cases hqp : q = p
    · rw [if_pos hqp, if_pos hqp, hqp]
      refine ⟨rfl, ?_⟩
      rw [nextThread, hn.thread_next, if_pos rfl]
      exact hvisits p hp
    · rw [if_neg hqp, if_neg hqp]
      exact hvisits q hq

lemma initial_created (space : Ptr → KSpace) (thread : Ptr → KThread) (firstSpace : Ptr) :
    Created (initial space thread firstSpace) := by
  have hspaces : (initial space thread firstSpace).spaces = [firstSpace] := rfl
  have hthreads : (initial space thread firstSpace).threads = [] := rfl
  have hfirst : (initial space thread firstSpace).space firstSpace =
      ⟨0, 0, none, none, none, none, none⟩ := by
    simp [initial, generateSpaceId]
  constructor
  case nodup => exact List.nodup_singleton _
  case first => rfl
  case spaceCount => rfl
  case threadCount =>
    rw [hthreads]
    exact (show (1 : UInt16) = threadNumber 0 by decide)
  case spaceId =>
    intro i p hi
    obtain ⟨rfl, rfl⟩ : i = 0 ∧ firstSpace = p := by
      simpa [hspaces, List.getElem?_singleton] using hi
    rw [hfirst]
    rfl
  case space_mem => simp [hthreads]
  case threadId => simp [hthreads]
  case parent_mem => simp [hspaces, hfirst]
  case children => simp [hspaces, hfirst, childrenOf, Visits]
  case threads => simp [hspaces, hfirst, hthreads, threadsOf, Visits]

lemma Created.step (h : Created s) {e : Event} (he : Proper s e) : Created (step s e) := by
  cases e with
  | createSpace block directory parent =>
    rcases mmCreateSpace_cases s block directory parent with ⟨hs, -⟩ | ⟨x, p, -, -, hp, hn⟩
    · rw [Identifier.step, hs]
      exact h
    · exact h.newSpace (he p hp) (hn (he p hp))
  | createThread block space =>
    rcases tmCreateThread_cases s block space with ⟨hs, -⟩ | ⟨x, -, hn⟩
    · rw [Identifier.step, hs]
      exact h
    · exact h.newThread he hn

end Created

/-! ## The condition on the created descriptors -/

/-- All spaces are children of the first one and fit the space counter; two threads of one space
were not created a full round of the thread counter apart. -/
structure Distinct (s : State) : Prop where
  direct : ∀ p ∈ s.spaces, p ≠ s.firstSpace → (s.space p).parent = some s.firstSpace
  few : s.spaces.length ≤ 16384
  apart : ∀ i j t u, s.threads[i]? = some t → s.threads[j]? = some u →
    (s.thread t).space = (s.thread u).space → i % 49152 = j % 49152 → i = j

section Distinct
variable {s s' : State} {x p : Ptr}

lemma distinct_newSpace (h : Created s) (hn : NewSpace s s' x p) :
    Distinct s' ↔ Distinct s ∧ p = s.firstSpace ∧ s.spaces.length < 16384 := by
  have hxs : x ∉ s.spaces := fun hm => hn.fresh (List.mem_append_left _ hm)
  have hfirst : x ≠ s.firstSpace := by
    rintro rfl
    exact hxs (List.mem_of_getElem? h.first)
  have hlen : s'.spaces.length = s.spaces.length + 1 := by rw [hn.spaces]; simp
  constructor
  · intro hd
    have hpar := hd.direct x (by simp [hn.spaces]) (by rwa [hn.firstSpace])
    rw [hn.parent, if_pos rfl, hn.firstSpace] at hpar
    have hfew := hd.few
    rw [hlen] at hfew
    refine ⟨⟨fun q hq hne => ?_, by omega, ?_⟩, Option.some.inj hpar, by omega⟩
    · have hdir := hd.direct q (by simp [hn.spaces, hq]) (by rwa [hn.firstSpace])
      rwa [hn.parent, if_neg (ne_of_mem_of_not_mem hq hxs), hn.firstSpace] at hdir
    · have hapart := hd.apart
      rwa [hn.threads, hn.thread] at hapart
  · rintro ⟨hd, hpf, hlt⟩
    refine ⟨fun q hq hne => ?_, by omega, ?_⟩
    · rw [hn.parent, hn.firstSpace]
      split_ifs with hqx
      · rw [hpf]
      · rw [hn.firstSpace] at hne
        rw [hn.spaces] at hq
        exact hd.direct q (by simpa [hqx] using hq) hne
    · rw [hn.threads, hn.thread]
      exact hd.apart

lemma distinct_newThread (hn : NewThread s s' x p) :
    Distinct s' ↔ Distinct s ∧ ∀ i t, s.threads[i]? = some t → (s.thread t).space = p →
      i % 49152 ≠ s.threads.length % 49152 := by
  have hxt : x ∉ s.threads := fun hm => hn.fresh (List.mem_append_right _ hm)
  have hspace : ∀ {i : ℕ} {t : Ptr}, s.threads[i]? = some t →
      (s'.thread t).space = (s.thread t).space := by
    intro i t hi
    rw [hn.thread_space, if_neg (ne_of_mem_of_not_mem (List.mem_of_getElem? hi) hxt)]
  have hnew : (s'.thread x).space = p := by rw [hn.thread_space, if_pos rfl]
  have hlast : s'.threads[s.threads.length]? = some x := by
    rw [hn.threads]
    exact getElem?_concat.mpr (.inr ⟨rfl, rfl⟩)
  have hprev : ∀ {i : ℕ} {t : Ptr}, s.threads[i]? = some t → s'.threads[i]? = some t := by
    intro i t hi
    rw [hn.threads]
    exact getElem?_concat.mpr (.inl hi)
  constructor
  · intro hd
    refine ⟨⟨?_, ?_, ?_⟩, ?_⟩
    · have hdir := hd.direct
      simpa only [hn.spaces, hn.firstSpace, hn.parent] using hdir
    · have hfew := hd.few
      rwa [hn.spaces] at hfew
    · intro i j t u hi hj hsp hmod
      exact hd.apart i j t u (hprev hi) (hprev hj) (by rw [hspace hi, hspace hj, hsp]) hmod
    · intro i t hi hsp hmod
      have hlt : i < s.threads.length := (List.getElem?_eq_some_iff.mp hi).1
      have he := hd.apart i _ t x (hprev hi) hlast (by rw [hspace hi, hsp, hnew]) hmod
      omega
  · rintro ⟨hd, hok⟩
    refine ⟨?_, ?_, ?_⟩
    · simpa only [hn.spaces, hn.firstSpace, hn.parent] using hd.direct
    · rw [hn.spaces]
      exact hd.few
    · intro i j t u hi hj hsp hmod
      rw [hn.threads] at hi hj
      rcases getElem?_concat.mp hi with hi | ⟨rfl, rfl⟩ <;>
        rcases getElem?_concat.mp hj with hj | ⟨rfl, rfl⟩
      · rw [hspace hi, hspace hj] at hsp
        exact hd.apart i j t u hi hj hsp hmod
      · rw [hspace hi, hnew] at hsp
        exact absurd hmod (hok i t hi hsp)
      · rw [hspace hj, hnew] at hsp
        exact absurd hmod.symm (hok j u hj hsp.symm)
      · rfl

/-- A creation keeps the condition exactly when it is allowed. -/
lemma distinct_step (h : Created s) {e : Event} (he : Proper s e) :
    Distinct (step s e) ↔ Distinct s ∧ StepOk s e := by
  cases e with
  | createSpace block directory parent =>
    rcases mmCreateSpace_cases s block directory parent with ⟨hs, hno⟩ | ⟨x, p, hx, hdir, hp, hn⟩
    · rw [step, hs]
      exact (and_iff_left fun x p hx hdir hp => absurd hp (hno x p hx hdir)).symm
    · rw [step, distinct_newSpace h (hn (he p hp))]
      refine and_congr_right fun _ => ⟨fun hok y q _ _ hq => ?_, fun hok => hok x p hx hdir hp⟩
      obtain rfl : p = q := Option.some.inj (hp.symm.trans hq)
      exact hok
  | createThread block space =>
    rcases tmCreateThread_cases s block space with ⟨hs, hno⟩ | ⟨x, hx, hn⟩
    · rw [step, hs]
      refine (and_iff_left fun x hx => ?_).symm
      rw [hno] at hx
      cases hx
    · rw [step, distinct_newThread hn]
      exact and_congr_right fun _ => ⟨fun hok _ _ => hok, fun hok => hok x hx⟩

/-- The lookup walks the children of the first space. -/
lemma Created.mmGetSpaceById (h : Created s) (spid : UInt32) :
    mmGetSpaceById s spid = if (s.space s.firstSpace).spaceId = spid then some s.firstSpace
      else (childrenOf s s.firstSpace).find? fun p => (s.space p).spaceId = spid := by
  have hnd : (childrenOf s s.firstSpace).Nodup :=
    List.nodup_reverse.mpr ((List.Nodup.of_append_left h.nodup).filter _)
  have hvisits := h.children _ (List.mem_of_getElem? h.first)
  rw [Identifier.mmGetSpaceById]
  exact if_congr Iff.rfl rfl (hvisits.search_eq_find (nodup_length_le hnd))

lemma Created.searchThread (h : Created s) (hp : p ∈ s.spaces) (tid : UInt32) :
    search (nextThread s) (fun t => (s.thread t).threadId = tid) addressSpace
        (s.space p).firstThread =
      (threadsOf s p).find? fun t => (s.thread t).threadId = tid := by
  have hnd : (threadsOf s p).Nodup :=
    List.nodup_reverse.mpr ((List.Nodup.of_append_right h.nodup).filter _)
  exact (h.threads p hp).search_eq_find (nodup_length_le hnd)

/-- Numbers below the round of the counter give different identifiers. -/
lemma Created.space_inj (h : Created s) (hfew : s.spaces.length ≤ 16384) {p q : Ptr}
    (hp : p ∈ s.spaces) (hq : q ∈ s.spaces) (he : (s.space p).spaceId = (s.space q).spaceId) :
    p = q := by
  obtain ⟨i, hi⟩ := List.mem_iff_getElem?.mp hp
  obtain ⟨j, hj⟩ := List.mem_iff_getElem?.mp hq
  have hilt : i < s.spaces.length := (List.getElem?_eq_some_iff.mp hi).1
  have hjlt : j < s.spaces.length := (List.getElem?_eq_some_iff.mp hj).1
  rw [h.spaceId i p hi, h.spaceId j q hj, UInt16.toUInt32_inj, spaceNumber_inj] at he
  obtain rfl : i = j := by omega
  exact Option.some.inj (hi.symm.trans hj)

lemma Created.thread_inj (h : Created s) (hd : Distinct s) {t u : Ptr} (ht : t ∈ s.threads)
    (hu : u ∈ s.threads) (he : (s.thread t).threadId = (s.thread u).threadId) : t = u := by
  obtain ⟨i, hi⟩ := List.mem_iff_getElem?.mp ht
  obtain ⟨j, hj⟩ := List.mem_iff_getElem?.mp hu
  obtain ⟨k, hk⟩ := List.mem_iff_getElem?.mp (h.space_mem t ht)
  obtain ⟨l, hl⟩ := List.mem_iff_getElem?.mp (h.space_mem u hu)
  rw [h.threadId i t k hi hk, h.threadId j u l hj hl, packed_inj, threadNumber_inj] at he
  have hsp : (s.thread t).space = (s.thread u).space := by
    refine h.space_inj hd.few (h.space_mem t ht) (h.space_mem u hu) ?_
    rw [h.spaceId k _ hk, h.spaceId l _ hl, he.1]
  obtain rfl := hd.apart i j t u hi hj hsp he.2
  exact Option.some.inj (hi.symm.trans hj)

lemma Created.found (h : Created s) (hd : Distinct s) (hp : p ∈ s.spaces) :
    Identifier.mmGetSpaceById s (s.space p).spaceId = some p := by
  have hfirst := List.mem_of_getElem? h.first
  rw [h.mmGetSpaceById]
  split_ifs with heq
  · exact congrArg some (h.space_inj hd.few hfirst hp heq)
  · have hne : p ≠ s.firstSpace := by
      rintro rfl
      exact heq rfl
    have hchild : p ∈ childrenOf s s.firstSpace := by
      rw [childrenOf, List.mem_reverse, List.mem_filter]
      exact ⟨hp, decide_eq_true (hd.direct p hp hne)⟩
    refine find_eq_of_unique hchild (decide_eq_true rfl) fun q hq heq => ?_
    rw [childrenOf, List.mem_reverse, List.mem_filter] at hq
    exact h.space_inj hd.few hq.1 hp (of_decide_eq_true heq)

lemma Created.thread_found (h : Created s) (hd : Distinct s) {t cur : Ptr} (ht : t ∈ s.threads)
    (hcur : cur ∈ s.threads) : tmGetThreadById s cur (s.thread t).threadId = some t := by
  have hsp := h.space_mem t ht
  rw [tmGetThreadById]
  split_ifs with heq
  · exact congrArg some (h.thread_inj hd hcur ht heq)
  · obtain ⟨i, hi⟩ := List.mem_iff_getElem?.mp ht
    obtain ⟨j, hj⟩ := List.mem_iff_getElem?.mp hsp
    have hshift : (s.thread t).threadId >>> 16 = (s.space (s.thread t).space).spaceId := by
      rw [h.threadId i t j hi hj, packed_shiftRight, h.spaceId j _ hj]
    have hmem : t ∈ threadsOf s (s.thread t).space := by
      rw [threadsOf, List.mem_reverse, List.mem_filter]
      exact ⟨ht, decide_eq_true rfl⟩
    rw [hshift, h.found hd hsp]
    refine (h.searchThread hsp _).trans (find_eq_of_unique hmem (decide_eq_true rfl) ?_)
    intro u hu hid
    rw [threadsOf, List.mem_reverse, List.mem_filter] at hu
    exact h.thread_inj hd hu.1 ht (of_decide_eq_true hid)

/-- Everything resolves exactly under the condition. -/
lemma Created.resolves_iff (h : Created s) : Resolves s ↔ Distinct s := by
  constructor
  · intro hr
    have hnd := List.Nodup.of_append_left h.nodup
    refine ⟨fun p hp hne => ?_, ?_, ?_⟩
    · have hfound := hr.space p hp
      rw [h.mmGetSpaceById] at hfound
      split_ifs at hfound
      · exact absurd (Option.some.inj hfound).symm hne
      · have hchild := List.mem_of_find?_eq_some hfound
        rw [childrenOf, List.mem_reverse, List.mem_filter] at hchild
        exact of_decide_eq_true hchild.2
    · by_contra hmany
      -- the counter is back at the number of the first space
      have hlt : 16384 < s.spaces.length := by omega
      have hzero : s.spaces[0]? = some (s.spaces[0]) := List.getElem?_eq_getElem (by omega)
      have hround : s.spaces[16384]? = some (s.spaces[16384]) := List.getElem?_eq_getElem hlt
      have he := hr.space_inj _ (List.mem_of_getElem? hzero) _ (List.mem_of_getElem? hround)
        (by rw [h.spaceId _ _ hzero, h.spaceId _ _ hround]; rfl)
      exact absurd ((List.Nodup.getElem_inj_iff hnd).mp he) (by decide)
    · intro i j t u hi hj hsp hmod
      obtain ⟨k, hk⟩ := List.mem_iff_getElem?.mp (h.space_mem t (List.mem_of_getElem? hi))
      have hid : (s.thread t).threadId = (s.thread u).threadId := by
        rw [h.threadId i t k hi hk, h.threadId j u k hj (hsp ▸ hk), threadNumber_inj.mpr hmod]
      have htu := hr.thread_inj t (List.mem_of_getElem? hi) u (List.mem_of_getElem? hj) hid
      obtain ⟨hilt, rfl⟩ := List.getElem?_eq_some_iff.mp hi
      obtain ⟨hjlt, rfl⟩ := List.getElem?_eq_some_iff.mp hj
      exact (List.Nodup.getElem_inj_iff (List.Nodup.of_append_right h.nodup)).mp htu
  · intro hd
    exact ⟨fun p hp => h.found hd hp, fun t ht cur hcur => h.thread_found hd ht hcur,
      fun p hp q hq he => h.space_inj hd.few hp hq he,
      fun t ht u hu he => h.thread_inj hd ht hu he⟩

end Distinct

/-! ## Runs -/

lemma initial_distinct (space : Ptr → KSpace) (thread : Ptr → KThread) (firstSpace : Ptr) :
    Distinct (initial space thread firstSpace) := by
  have hspaces : (initial space thread firstSpace).spaces = [firstSpace] := rfl
  have hthreads : (initial space thread firstSpace).threads = [] := rfl
  refine ⟨fun p hp hne => absurd ?_ hne, ?_, fun i j t u hi => ?_⟩
  · exact List.mem_singleton.mp hp
  · simp [hspaces]
  · rw [hthreads] at hi
    cases hi

/-- Every space and thread resolves after a run exactly if every creation met the condition. -/
theorem run_resolves_iff (space : Ptr → KSpace) (thread : Ptr → KThread) (firstSpace : Ptr)
    {es : List Event} (h : Guarded step Proper (initial space thread firstSpace) es) :
    Resolves (run step (initial space thread firstSpace) es) ↔
      Guarded step StepOk (initial space thread firstSpace) es := by
  have hc := initial_created space thread firstSpace
  have hrun := h.invariant Created (fun s e hs he => hs.step he) hc
  have hgood : Distinct (run step (initial space thread firstSpace) es) ↔
      Distinct (initial space thread firstSpace) ∧
        Guarded step StepOk (initial space thread firstSpace) es :=
    h.good_iff Created Distinct (fun s e hs he => hs.step he)
      (fun s e hs he => distinct_step hs he) hc
  rw [hrun.resolves_iff, hgood]
  exact and_iff_right (initial_distinct space thread firstSpace)

def emptySpace : KSpace := ⟨0, 0, none, none, none, none, none⟩
def emptyThread : KThread := ⟨0, 0, none, none⟩

/-- In the first round of the counter every thread is allowed. -/
lemma stepOk_createThread {s : State} (hfew : s.threads.length < 49152) (block : Option Ptr)
    (space : Ptr) : StepOk s (.createThread block space) := by
  intro thr _ i t hi _
  have hlt : i < s.threads.length := (List.getElem?_eq_some_iff.mp hi).1
  omega

lemma stepOk_createSpace {s : State} (hfew : s.spaces.length < 16384) (block : Option Ptr)
    (directory : Bool) : StepOk s (.createSpace block directory (some s.firstSpace)) :=
  fun _ _ _ _ he => ⟨(Option.some.inj he).symm, hfew⟩

/-- Two spaces below the first one, and threads in all three. -/
def siblings : List Event :=
  [.createThread (some 0x10) 0x1000, .createSpace (some 0x20) true (some 0x1000),
    .createThread (some 0x30) 0x20, .createSpace (some 0x40) true (some 0x1000),
    .createThread (some 0x50) 0x40, .createThread (some 0x60) 0x20]

theorem run_resolves_iff_siblings :
    Resolves (run step (initial (fun _ => emptySpace) (fun _ => emptyThread) 0x1000) siblings) := by
  refine (run_resolves_iff _ _ _ ?_).mpr ?_
  · simp only [siblings, Guarded, Proper, Option.some.injEq, forall_eq']
    decide
  · exact ⟨stepOk_createThread (by decide) _ _, stepOk_createSpace (by decide) _ _,
      stepOk_createThread (by decide) _ _, stepOk_createSpace (by decide) _ _,
      stepOk_createThread (by decide) _ _, stepOk_createThread (by decide) _ _, trivial⟩

/-- A space below another one than the first is not found. -/
theorem run_not_resolves :
    ¬ ∀ (space : Ptr → KSpace) (thread : Ptr → KThread) (firstSpace : Ptr) (es : List Event),
      Guarded step Proper (initial space thread firstSpace) es →
      Resolves (run step (initial space thread firstSpace) es) := by
  intro h
  have hproper : Guarded step Proper (initial (fun _ => emptySpace) (fun _ => emptyThread) 0x1000)
      [.createSpace (some 0x20) true (some 0x1000), .createSpace (some 0x40) true (some 0x20)] := by
    simp only [Guarded, Proper, Option.some.injEq, forall_eq']
    decide
  have hfound := (h _ _ _ _ hproper).space 0x40 (by decide)
  revert hfound
  decide +kernel

end Sgos.Identifier
