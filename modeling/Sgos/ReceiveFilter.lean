import Sgos.IpcDelivery

/-!
# The filter of a receive

`IpcReceive` asks for messages of a thread, for a command, for both, or for any message. The thread
is looked up first, and an id that no thread has counts as no thread. After the copy a message of a
looked-up thread is removed with its node; otherwise the code takes the message for one that was
popped, which it is only if no command was asked for.
-/
namespace Sgos.Ipc
open LinkedChain Queue

def ANY_THREAD : UInt32 := 0xFFFFFFFF

/-- `thr_src`. -/
def ipcReceiveSource (tmGetThreadById : UInt32 → Option Ptr) (usermsg : Message) : Option Ptr :=
  if usermsg.threadId ≠ ANY_THREAD then tmGetThreadById usermsg.threadId else none

/-- A pass of `IpcReceive` from `_recv_search` on, which returns if it finds a message. -/
def ipcReceive (s : State) (thrSrc : Option Ptr) (usermsg : Message) (flag : UInt32)
    (timeout : Int32) (elapsed : UInt32) (nodBlock : Option Ptr) : Option Message × State :=
  match ipcReceiveSearch s usermsg thrSrc timeout elapsed with
  | (.found kmsg nod, s) =>
      let r := ipcReceiveFinish s ⟨kmsg, nod, thrSrc, flag⟩ nodBlock
      (some r.1, r.2)
  | (_, s) => (none, s)

namespace ReceiveFilter

/-- The messages in a queue, from the oldest on. -/
def Contents (q : Queue.State) (msgs : List Ptr) : Prop :=
  ∃ nodes, Visits q.next q.queue.back nodes ∧ nodes.map q.value = msgs

/-- A message is one of those that the caller asks for. -/
structure Requested (s : State) (usermsg : Message) (k : Ptr) : Prop where
  source : usermsg.threadId ≠ ANY_THREAD → s.threadId (s.message k).source = usermsg.threadId
  command : usermsg.command ≠ 0 → (s.message k).userMessage.command = usermsg.command

/-- The oldest message asked for has been returned. It has left the queue, or with `MSG_KEEP` the
queue is as before. -/
def Filtered (s : State) (msgs : List Ptr) (usermsg : Message) (flag : UInt32) (m : Message)
    (s' : State) : Prop :=
  ∃ pre k post, msgs = pre ++ k :: post ∧ Requested s usermsg k ∧
    (∀ x ∈ pre, ¬Requested s usermsg x) ∧ m = received s (s.message k) ∧
    if flag &&& MSG_KEEP = 0 then Contents s'.queue (pre ++ post)
    else Contents s'.queue msgs ∧ s'.queue.queue.curNum = s.queue.queue.curNum

/-- The message that a receive without a thread comes to. -/
def candidate (s : State) (msgs : List Ptr) (usermsg : Message) : Option Ptr :=
  if usermsg.command ≠ 0 then msgs.find? (messageSearcher2 s usermsg) else msgs.head?

/-- A message can be pushed back into a queue with so many messages and these live blocks. -/
def Room (maxNum curNum : Int32) (live : List Ptr) (nodBlock : Option Ptr) : Prop :=
  curNum < maxNum ∧ mmAllocateKernelMemory live nodBlock ≠ none

/-- There is room for one more message, or if none is asked for by its command, for the oldest one
after it has left. -/
def CanPushBack (q : Queue.State) (usermsg : Message) (nodBlock : Option Ptr) : Prop :=
  if usermsg.command ≠ 0 then Room q.queue.maxNum q.queue.curNum q.live nodBlock
  else Room q.queue.maxNum (q.queue.curNum - 1) (q.queue.back.elim q.live q.live.erase) nodBlock

/-- The thread was found; or the message that the receive comes to is from the thread asked for,
and it is popped and can be pushed back where it is to be kept, or is kept and only found by its
command, and the push fails. -/
def FilterOk (s : State) (msgs : List Ptr) (thrSrc : Option Ptr) (usermsg : Message)
    (flag : UInt32) (nodBlock : Option Ptr) : Prop :=
  thrSrc ≠ none ∨ ∀ k, candidate s msgs usermsg = some k →
    (usermsg.threadId ≠ ANY_THREAD → s.threadId (s.message k).source = usermsg.threadId) ∧
    if flag &&& MSG_KEEP = 0 then usermsg.command = 0
    else usermsg.command = 0 ↔ CanPushBack s.queue usermsg nodBlock

/-! ## Contents -/

section Contents
variable {q : Queue.State} {nodes msgs msgs' : List Ptr} {nodBlock : Option Ptr}

lemma Contents.eq (h : Contents q msgs) (h' : Contents q msgs') : msgs = msgs' := by
  obtain ⟨nodes, hv, rfl⟩ := h
  obtain ⟨nodes', hv', rfl⟩ := h'
  rw [hv.eq hv']

lemma contents_of_holds (h : Holds q nodes) : Contents q (nodes.map q.value) := by
  refine ⟨nodes, ?_, rfl⟩
  rw [h.back_eq]
  exact h.chain.linked.visits

lemma Contents.release (h : Contents q msgs) (p : Ptr) : Contents (q.release p) msgs := h

/-- A push puts its message before the oldest one, if there is room; otherwise it does nothing. -/
lemma pushBack_room (h : Holds q nodes) (k : Ptr)
    (hroom : Room q.queue.maxNum q.queue.curNum q.live nodBlock) :
    Contents (rtlPushBackQueue q nodBlock k).2 (k :: nodes.map q.value) ∧
      (rtlPushBackQueue q nodBlock k).2.queue.curNum = q.queue.curNum + 1 := by
  have hsuccess : (rtlPushBackQueue q nodBlock k).1 = 0 ∧
      (rtlPushBackQueue q nodBlock k).2.queue.curNum = q.queue.curNum + 1 := by
    obtain ⟨hlt, hblock⟩ := hroom
    obtain ⟨nod, hnod⟩ := Option.ne_none_iff_exists'.mp hblock
    rw [rtlPushBackQueue, pushQueue, if_neg (Int32.not_le.mpr hlt), hnod]
    refine ⟨rfl, ?_⟩
    dsimp only [linkBack]
    cases hb : q.queue.back <;> cases hf : q.queue.front <;> simp [hb, hf]
  obtain ⟨nod, hnod, -, hholds, hvalue⟩ :=
    rtlPushBackQueue_spec h (Prod.ext hsuccess.1 rfl : rtlPushBackQueue q nodBlock k = (0, _))
  refine ⟨?_, hsuccess.2⟩
  have hcontents := contents_of_holds hholds
  have hold : nodes.map (rtlPushBackQueue q nodBlock k).2.value = nodes.map q.value := by
    refine List.map_congr_left fun x hx => ?_
    rw [hvalue, Function.update_of_ne (ne_of_mem_of_not_mem (h.live x hx) hnod)]
  rw [List.map_cons, hold, hvalue, Function.update_self] at hcontents
  exact hcontents

lemma pushBack_full (k : Ptr) (hroom : ¬Room q.queue.maxNum q.queue.curNum q.live nodBlock) :
    (rtlPushBackQueue q nodBlock k).2 = q := by
  rw [rtlPushBackQueue, pushQueue]
  split_ifs with hfull
  · rfl
  · cases hblock : mmAllocateKernelMemory q.live nodBlock with
    | none => rfl
    | some nod => exact absurd ⟨Int32.not_le.mp hfull, by simp [hblock]⟩ hroom

lemma popBack_queue (h : Holds q nodes) (hne : nodes ≠ []) :
    (rtlPopBackQueue q).2.queue.curNum = q.queue.curNum - 1 ∧
      (rtlPopBackQueue q).2.queue.maxNum = q.queue.maxNum := by
  obtain ⟨nod, rest, rfl⟩ := List.exists_cons_of_ne_nil hne
  have hback : q.queue.back = some nod := h.back_eq
  rw [rtlPopBackQueue, hback]
  cases hn : q.next nod <;> simp [hn]

end Contents

/-! ## A receive of a thread that was found -/

section Receive
variable {s : State} {nodes : List Ptr} {usermsg : Message} {thrSrc : Option Ptr} (flag : UInt32)
  (timeout : Int32) (elapsed : UInt32) (nodBlock : Option Ptr)

lemma ipcReceiveFinish_fst (s : State) (p : Pending) (nodBlock : Option Ptr) :
    (ipcReceiveFinish s p nodBlock).1 = received s (s.message p.kmsg) := by
  rw [ipcReceiveFinish]
  dsimp only
  split_ifs
  · cases p.nod <;> rfl
  · rfl
  · rfl
  · rfl

lemma ipcReceive_of_choose {s1 : State} {kmsg : Ptr} {nod : Option Ptr}
    (h : ipcReceiveChoose s usermsg thrSrc = (some (kmsg, nod), s1)) :
    ipcReceive s thrSrc usermsg flag timeout elapsed nodBlock =
      (some (received s1 (s1.message kmsg)),
        (ipcReceiveFinish s1 ⟨kmsg, nod, thrSrc, flag⟩ nodBlock).2) := by
  rw [ipcReceive, ipcReceiveSearch, h]
  exact Prod.ext (congrArg some (ipcReceiveFinish_fst _ _ _)) rfl

lemma ipcReceive_of_choose_none {s1 : State}
    (h : ipcReceiveChoose s usermsg thrSrc = (none, s1)) :
    (ipcReceive s thrSrc usermsg flag timeout elapsed nodBlock).1 = none := by
  rw [ipcReceive, ipcReceiveSearch, h]
  dsimp only
  split_ifs <;> rfl

/-- With a thread the searchers look for exactly the messages asked for. -/
lemma choose_thread {thr : Ptr} (hany : usermsg.threadId ≠ ANY_THREAD) :
    ∃ searcher : Ptr → Bool, (∀ k, searcher k = true ↔ Requested s usermsg k) ∧
      ipcReceiveChoose s usermsg (some thr) = (searchMessage s searcher, s) := by
  have hsome : some thr ≠ none := Option.some_ne_none thr
  by_cases hc : usermsg.command ≠ 0
  · refine ⟨messageSearcher3 s usermsg, fun k => ?_, by rw [ipcReceiveChoose, if_pos ⟨hsome, hc⟩]⟩
    rw [messageSearcher3, Bool.and_eq_true, beq_iff_eq, beq_iff_eq]
    exact ⟨fun h => ⟨fun _ => h.1, fun _ => h.2⟩, fun h => ⟨h.source hany, h.command hc⟩⟩
  · refine ⟨messageSearcher1 s usermsg, fun k => ?_, by
      rw [ipcReceiveChoose, if_neg (fun h => hc h.2), if_pos hsome]⟩
    rw [messageSearcher1, beq_iff_eq]
    exact ⟨fun h => ⟨fun _ => h, fun h => absurd h hc⟩, fun h => h.source hany⟩

/-- The message found is taken out together with its node. -/
lemma filtered_thread (h : Holds s.queue nodes) {thr : Ptr} (hany : usermsg.threadId ≠ ANY_THREAD)
    {m : Message} {s' : State}
    (hr : ipcReceive s (some thr) usermsg flag timeout elapsed nodBlock = (some m, s')) :
    Filtered s (nodes.map s.queue.value) usermsg flag m s' := by
  obtain ⟨searcher, hsearcher, hchoose⟩ :
      ∃ searcher : Ptr → Bool, (∀ k, searcher k = true ↔ Requested s usermsg k) ∧
        ipcReceiveChoose s usermsg (some thr) = (searchMessage s searcher, s) := choose_thread hany
  rw [searchMessage, rtlSearchQueue_eq_find h] at hchoose
  cases hfind : nodes.find? fun nod => searcher (s.queue.value nod) with
  | none =>
    rw [hfind, Option.map_none] at hchoose
    have hnone := ipcReceive_of_choose_none flag timeout elapsed nodBlock hchoose
    rw [hr] at hnone
    cases hnone
  | some nod =>
    rw [hfind, Option.map_some] at hchoose
    rw [ipcReceive_of_choose flag timeout elapsed nodBlock hchoose] at hr
    obtain ⟨hm, rfl⟩ := Prod.mk.inj hr
    obtain rfl := Option.some.inj hm
    obtain ⟨hnod, pre, post, rfl, hpre⟩ := List.find?_eq_some_iff_append.mp hfind
    refine ⟨pre.map s.queue.value, s.queue.value nod, post.map s.queue.value, by simp,
      (hsearcher _).mp hnod, fun x hx hreq => ?_, rfl, ?_⟩
    · obtain ⟨y, hy, rfl⟩ := List.mem_map.mp hx
      have hfalse := hpre y hy
      rw [(hsearcher _).mpr hreq] at hfalse
      cases hfalse
    · by_cases hkeep : flag &&& MSG_KEEP = 0
      · have hmem : nod ∈ pre ++ nod :: post := by simp
        obtain ⟨hq, hvalue, -⟩ := rtlRemoveQueueElement_spec h hmem
        have hnot : nod ∉ pre := fun hm =>
          (List.nodup_append'.mp h.chain.nodup).2.2 hm List.mem_cons_self
        have hcontents := contents_of_holds hq
        rw [hvalue, List.erase_append_right _ hnot, List.erase_cons_head, List.map_append]
          at hcontents
        simp only [ipcReceiveFinish, hkeep, ne_eq, reduceCtorEq, not_false_eq_true, if_true]
        exact hcontents.release _
      · simp only [ipcReceiveFinish, hkeep, ne_eq, reduceCtorEq, not_false_eq_true, if_true,
          if_false]
        exact ⟨contents_of_holds h, trivial⟩

/-! ## A receive without a thread -/

/-- What is returned and which queue is left. A message asked for by its command alone is not taken
out of the queue; one asked for without any filter is. -/
lemma ipcReceive_candidate (h : Holds s.queue nodes) {k : Ptr}
    (hk : candidate s (nodes.map s.queue.value) usermsg = some k) :
    ∃ s', ipcReceive s none usermsg flag timeout elapsed nodBlock =
        (some (received s (s.message k)), s') ∧
      if usermsg.command ≠ 0 then
        if flag &&& MSG_KEEP = 0 then s'.queue = s.queue.release k
        else s'.queue = (rtlPushBackQueue s.queue nodBlock k).2
      else
        if flag &&& MSG_KEEP = 0 then s'.queue = (rtlPopBackQueue s.queue).2.release k
        else s'.queue = (rtlPushBackQueue (rtlPopBackQueue s.queue).2 nodBlock k).2 := by
  have hthr : ¬(none : Option Ptr) ≠ none := fun hh => hh rfl
  by_cases hc : usermsg.command ≠ 0
  · rw [candidate, if_pos hc, List.find?_map] at hk
    obtain ⟨nod, hfind, rfl⟩ := Option.map_eq_some_iff.mp hk
    have hchoose : ipcReceiveChoose s usermsg none =
        (some (s.queue.value nod, some nod), s) := by
      rw [ipcReceiveChoose, if_neg (fun hh => hthr hh.1), if_neg hthr, if_pos hc, searchMessage,
        rtlSearchQueue_eq_find h]
      exact congrArg (fun r => (r.map fun nod => (s.queue.value nod, some nod), s)) hfind
    refine ⟨_, ipcReceive_of_choose flag timeout elapsed nodBlock hchoose, ?_⟩
    rw [if_pos hc]
    by_cases hkeep : flag &&& MSG_KEEP = 0 <;> simp [ipcReceiveFinish, hkeep, messageEraser]
  · rw [candidate, if_neg hc, List.head?_map] at hk
    obtain ⟨nod, hhead, rfl⟩ := Option.map_eq_some_iff.mp hk
    obtain ⟨rest, rfl⟩ := List.head?_eq_some_iff.mp hhead
    obtain ⟨hsome, -⟩ := rtlPopBackQueue_cons h
    have hchoose : ipcReceiveChoose s usermsg none =
        (some (s.queue.value nod, none), s.setQueue (rtlPopBackQueue s.queue).2) := by
      rw [ipcReceiveChoose, if_neg (fun hh => hthr hh.1), if_neg hthr, if_neg hc]
      dsimp only
      rw [hsome]
      rfl
    have hcall := ipcReceive_of_choose flag timeout elapsed nodBlock hchoose
    refine ⟨_, hcall, ?_⟩
    rw [if_neg hc]
    by_cases hkeep : flag &&& MSG_KEEP = 0 <;> simp [ipcReceiveFinish, hkeep, messageEraser]

lemma ipcReceive_no_candidate (h : Holds s.queue nodes)
    (hk : candidate s (nodes.map s.queue.value) usermsg = none) :
    (ipcReceive s none usermsg flag timeout elapsed nodBlock).1 = none := by
  have hthr : ¬(none : Option Ptr) ≠ none := fun hh => hh rfl
  by_cases hc : usermsg.command ≠ 0
  · rw [candidate, if_pos hc, List.find?_map] at hk
    have hchoose : ipcReceiveChoose s usermsg none = (none, s) := by
      rw [ipcReceiveChoose, if_neg (fun hh => hthr hh.1), if_neg hthr, if_pos hc, searchMessage,
        rtlSearchQueue_eq_find h]
      have hfind := Option.map_eq_none_iff.mp hk
      exact congrArg (fun r => (r.map fun nod => (s.queue.value nod, some nod), s)) hfind
    exact ipcReceive_of_choose_none flag timeout elapsed nodBlock hchoose
  · rw [candidate, if_neg hc, List.head?_map, Option.map_eq_none_iff, List.head?_eq_none_iff] at hk
    subst hk
    obtain ⟨hnone, -⟩ := rtlPopBackQueue_nil h
    have hchoose : ipcReceiveChoose s usermsg none =
        (none, s.setQueue (rtlPopBackQueue s.queue).2) := by
      rw [ipcReceiveChoose, if_neg (fun hh => hthr hh.1), if_neg hthr, if_neg hc]
      dsimp only
      rw [hnone]
      rfl
    exact ipcReceive_of_choose_none flag timeout elapsed nodBlock hchoose

/-- The thread of what was returned is that of the message asked for. -/
lemma Filtered.source_eq {msgs : List Ptr} {flag : UInt32} {k : Ptr} {s' : State}
    (h : Filtered s msgs usermsg flag (received s (s.message k)) s')
    (hany : usermsg.threadId ≠ ANY_THREAD) :
    s.threadId (s.message k).source = usermsg.threadId := by
  obtain ⟨-, k', -, -, hreq, -, hm, -⟩ := h
  have hthread : s.threadId (s.message k).source = s.threadId (s.message k').source :=
    congrArg Message.threadId hm
  exact hthread.trans (hreq.source hany)

/-- A message found by its command stays where it is. -/
lemma filtered_command_iff (h : Holds s.queue nodes) (hc : usermsg.command ≠ 0) {k : Ptr}
    (hk : candidate s (nodes.map s.queue.value) usermsg = some k) {m : Message} {s' : State}
    (hr : ipcReceive s none usermsg flag timeout elapsed nodBlock = (some m, s')) :
    Filtered s (nodes.map s.queue.value) usermsg flag m s' ↔
      (usermsg.threadId ≠ ANY_THREAD → s.threadId (s.message k).source = usermsg.threadId) ∧
        flag &&& MSG_KEEP ≠ 0 ∧
        ¬Room s.queue.queue.maxNum s.queue.queue.curNum s.queue.live nodBlock := by
  obtain ⟨s0, hr0, hq⟩ := ipcReceive_candidate flag timeout elapsed nodBlock h hk
  obtain ⟨hm, rfl⟩ := Prod.mk.inj (hr0.symm.trans hr)
  obtain rfl := Option.some.inj hm
  rw [if_pos hc] at hq
  have hcontents := contents_of_holds h
  rw [candidate, if_pos hc] at hk
  obtain ⟨hcommand, pre, post, hsplit, hpre⟩ := List.find?_eq_some_iff_append.mp hk
  constructor
  · intro hf
    refine ⟨hf.source_eq, ?_⟩
    obtain ⟨pre', k', post', hsplit', -, -, -, hqueue⟩ := hf
    by_cases hkeep : flag &&& MSG_KEEP = 0
    · rw [if_pos hkeep] at hq hqueue
      rw [hq] at hqueue
      have hlen := congrArg List.length (hqueue.eq (hcontents.release k))
      rw [hsplit'] at hlen
      simp at hlen
    · rw [if_neg hkeep] at hq hqueue
      refine ⟨hkeep, fun hroom => ?_⟩
      rw [hq] at hqueue
      have hlen := congrArg List.length (hqueue.1.eq (pushBack_room h k hroom).1)
      simp at hlen
  · rintro ⟨hsource, hkeep, hroom⟩
    rw [if_neg hkeep, pushBack_full k hroom] at hq
    refine ⟨pre, k, post, hsplit, ⟨hsource, fun _ => by simpa [messageSearcher2] using hcommand⟩,
      fun x hx hreq => ?_, rfl, ?_⟩
    · have hother := hpre x hx
      rw [messageSearcher2, hreq.command hc] at hother
      simp at hother
    · rw [if_neg hkeep, hq]
      exact ⟨hcontents, rfl⟩

/-- The oldest message is popped, and pushed back if there is room. -/
lemma filtered_oldest_iff (h : Holds s.queue nodes) (hc : usermsg.command = 0) {k : Ptr}
    (hk : candidate s (nodes.map s.queue.value) usermsg = some k) {m : Message} {s' : State}
    (hr : ipcReceive s none usermsg flag timeout elapsed nodBlock = (some m, s')) :
    Filtered s (nodes.map s.queue.value) usermsg flag m s' ↔
      (usermsg.threadId ≠ ANY_THREAD → s.threadId (s.message k).source = usermsg.threadId) ∧
        (flag &&& MSG_KEEP ≠ 0 → CanPushBack s.queue usermsg nodBlock) := by
  obtain ⟨s0, hr0, hq⟩ := ipcReceive_candidate flag timeout elapsed nodBlock h hk
  obtain ⟨hm, rfl⟩ := Prod.mk.inj (hr0.symm.trans hr)
  obtain rfl := Option.some.inj hm
  have hcommand : ¬usermsg.command ≠ 0 := fun hh => hh hc
  rw [if_neg hcommand] at hq
  rw [candidate, if_neg hcommand, List.head?_map] at hk
  obtain ⟨nod, hhead, rfl⟩ := Option.map_eq_some_iff.mp hk
  obtain ⟨rest, rfl⟩ := List.head?_eq_some_iff.mp hhead
  obtain ⟨-, hpopped, hvalue, hlive⟩ := rtlPopBackQueue_cons h
  obtain ⟨hcur, hmax⟩ := popBack_queue h (List.cons_ne_nil nod rest)
  have hback : s.queue.queue.back = some nod := h.back_eq
  have hcan : CanPushBack s.queue usermsg nodBlock ↔ Room (rtlPopBackQueue s.queue).2.queue.maxNum
      (rtlPopBackQueue s.queue).2.queue.curNum (rtlPopBackQueue s.queue).2.live nodBlock := by
    rw [CanPushBack, if_neg hcommand, hcur, hmax, hlive, hback]
    rfl
  have hrest := contents_of_holds hpopped
  rw [hvalue] at hrest
  rw [hcan, List.map_cons]
  constructor
  · intro hf
    refine ⟨hf.source_eq, fun hkeep => ?_⟩
    obtain ⟨_, _, _, -, -, -, -, hqueue⟩ := hf
    by_contra hroom
    rw [if_neg hkeep] at hq hqueue
    rw [hq, pushBack_full _ hroom] at hqueue
    have hlen := congrArg List.length (hqueue.1.eq hrest)
    simp at hlen
  · rintro ⟨hsource, hroom⟩
    refine ⟨[], _, rest.map s.queue.value, rfl, ⟨hsource, fun hh => absurd hc hh⟩, by simp, rfl, ?_⟩
    by_cases hkeep : flag &&& MSG_KEEP = 0
    · rw [if_pos hkeep] at hq ⊢
      rw [hq]
      exact hrest.release _
    · rw [if_neg hkeep] at hq ⊢
      obtain ⟨hpushed, hcount⟩ := pushBack_room hpopped (s.queue.value nod) (hroom hkeep)
      rw [hq, hcount, hcur, Int32.sub_add_cancel]
      rw [hvalue] at hpushed
      exact ⟨hpushed, rfl⟩

/-- Without a thread the law holds if the message is from the thread asked for and the queue is
left as it should be. -/
lemma filtered_candidate_iff (h : Holds s.queue nodes) {k : Ptr}
    (hk : candidate s (nodes.map s.queue.value) usermsg = some k) {m : Message} {s' : State}
    (hr : ipcReceive s none usermsg flag timeout elapsed nodBlock = (some m, s')) :
    Filtered s (nodes.map s.queue.value) usermsg flag m s' ↔
      (usermsg.threadId ≠ ANY_THREAD → s.threadId (s.message k).source = usermsg.threadId) ∧
        if flag &&& MSG_KEEP = 0 then usermsg.command = 0
        else usermsg.command = 0 ↔ CanPushBack s.queue usermsg nodBlock := by
  by_cases hc : usermsg.command = 0
  · rw [filtered_oldest_iff flag timeout elapsed nodBlock h hc hk hr]
    refine and_congr_right fun _ => ?_
    split_ifs with hkeep <;> simp [hc, hkeep]
  · rw [filtered_command_iff flag timeout elapsed nodBlock h hc hk hr]
    refine and_congr_right fun _ => ?_
    rw [CanPushBack, if_pos hc]
    split_ifs with hkeep <;> simp [hc, hkeep]

end Receive

/-- In every queue and for every request, whether or not the thread asked for exists: what a receive
returns is the oldest message asked for, and the queue is left as it should be, exactly under the
condition above. -/
theorem filtered_iff {s : State} {nodes : List Ptr} (h : Holds s.queue nodes)
    (tmGetThreadById : UInt32 → Option Ptr) (usermsg : Message) (flag : UInt32) (timeout : Int32)
    (elapsed : UInt32) (nodBlock : Option Ptr) :
    (∀ m s', ipcReceive s (ipcReceiveSource tmGetThreadById usermsg) usermsg flag timeout elapsed
        nodBlock = (some m, s') → Filtered s (nodes.map s.queue.value) usermsg flag m s') ↔
      FilterOk s (nodes.map s.queue.value) (ipcReceiveSource tmGetThreadById usermsg) usermsg flag
        nodBlock := by
  cases hsource : ipcReceiveSource tmGetThreadById usermsg with
  | some thr =>
    have hany : usermsg.threadId ≠ ANY_THREAD := by
      intro he
      rw [ipcReceiveSource, if_neg (fun hh => hh he)] at hsource
      cases hsource
    exact ⟨fun _ => .inl (Option.some_ne_none thr),
      fun _ m s' hr => filtered_thread flag timeout elapsed nodBlock h hany hr⟩
  | none =>
    cases hk : candidate s (nodes.map s.queue.value) usermsg with
    | none =>
      refine ⟨fun _ => .inr fun k hk' => ?_, fun _ m s' hr => ?_⟩
      · rw [hk] at hk'
        cases hk'
      · have hnone := ipcReceive_no_candidate flag timeout elapsed nodBlock h hk
        rw [hr] at hnone
        cases hnone
    | some k =>
      obtain ⟨s', hr, -⟩ := ipcReceive_candidate flag timeout elapsed nodBlock h hk
      have hiff := filtered_candidate_iff flag timeout elapsed nodBlock h hk hr
      constructor
      · intro hall
        refine .inr fun k' hk' => ?_
        obtain rfl := Option.some.inj (hk.symm.trans hk')
        exact hiff.mp (hall _ _ hr)
      · rintro (hthr | hok) m s'' hr'
        · exact absurd rfl hthr
        · rw [hr] at hr'
          obtain ⟨hm, rfl⟩ := Prod.mk.inj hr'
          obtain rfl := Option.some.inj hm
          exact hiff.mpr (hok k hk)

/-- A receiver whose queue holds a message from thread 7 and a younger one from thread 9. -/
def twoMessages : State :=
  { initial 1 .ready
      (fun p => if p = 32 then ⟨none, some 64, 16⟩ else ⟨some 32, none, 48⟩)
      (fun p => if p = 16 then ⟨commandMessage 5, 1, 7⟩ else ⟨commandMessage 6, 1, 9⟩) id with
    queue := ⟨fun p => if p = 32 then ⟨none, some 64, 16⟩ else ⟨some 32, none, 48⟩,
      ⟨2, MAX_MESSAGES_IN_QUEUE, some 64, some 32⟩, [64, 48, 32, 16]⟩ }

lemma twoMessages_holds : Holds twoMessages.queue [32, 64] :=
  ⟨⟨rfl, by decide, rfl, rfl, rfl, rfl, trivial⟩, rfl, by simp [twoMessages]⟩

/-- The threads 7 and 9 exist. -/
def twoThreads (tid : UInt32) : Option Ptr := if tid = 7 ∨ tid = 9 then some tid else none

/-- The younger message is asked for by its thread. -/
theorem filtered_iff_younger :
    (∀ m s', ipcReceive twoMessages (ipcReceiveSource twoThreads
        { commandMessage 0 with threadId := 9 }) { commandMessage 0 with threadId := 9 } 0 0 0 none =
          (some m, s') →
        Filtered twoMessages ([32, 64].map twoMessages.queue.value)
          { commandMessage 0 with threadId := 9 } 0 m s') ↔
      FilterOk twoMessages ([32, 64].map twoMessages.queue.value)
        (ipcReceiveSource twoThreads { commandMessage 0 with threadId := 9 })
        { commandMessage 0 with threadId := 9 } 0 none :=
  filtered_iff twoMessages_holds twoThreads { commandMessage 0 with threadId := 9 } 0 0 0 none

/-- A receive that asks for thread 11, which does not exist, returns the message of thread 7. -/
theorem not_filtered :
    ¬∀ (s : State) (nodes : List Ptr) (tmGetThreadById : UInt32 → Option Ptr) (usermsg : Message)
      (flag : UInt32) (timeout : Int32) (elapsed : UInt32) (nodBlock : Option Ptr) (m : Message)
      (s' : State), Holds s.queue nodes →
        ipcReceive s (ipcReceiveSource tmGetThreadById usermsg) usermsg flag timeout elapsed
          nodBlock = (some m, s') →
        Filtered s (nodes.map s.queue.value) usermsg flag m s' := by
  intro h
  obtain ⟨_, k, _, -, hreq, -, hm, -⟩ := h twoMessages [32, 64] twoThreads
    { commandMessage 0 with threadId := 11 } 0 0 0 none _ _ twoMessages_holds rfl
  have hthread : (7 : UInt32) = twoMessages.threadId (twoMessages.message k).source :=
    congrArg Message.threadId hm
  rw [hreq.source (by decide)] at hthread
  exact absurd hthread (by decide)

end ReceiveFilter

end Sgos.Ipc
