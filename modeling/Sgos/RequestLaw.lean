import Sgos.Request

/-!
# A reply for its request

Messages carry no numbers, so a client knows a reply only by the server and the command. Its reply
is that of its request in every run in which no client calls a server while something is left of an
earlier request of its own that the filter of the new call would accept.
-/
namespace Sgos.Request
open GuardedRun Ipc ThreadDeath

/-! ## What is in flight -/

def Pc.mails : Pc → List Mail
  | .locking _ m | .found m => [m]
  | _ => []

/-- The messages at a thread: in its queue, accepted, or in its hands. -/
def State.mails (s : State) (t : Tid) : List Mail :=
  s.mailbox t ++ s.accepted t ++ (s.pc t).mails

/-- The request has not been answered, or its reply has not been taken. -/
def InFlight (s : State) (n : ℕ) : Prop := ∃ t, ∃ m ∈ s.mails t, m.request = n

/-- A call of `SendMessage` finds nothing left of the client's earlier requests to the server that
its filter would accept. -/
def StepOk (s : State) : Event → Prop
  | .call c d command _ => ∀ n, InFlight s n → ∀ call, s.calls[n]? = some call → call.client = c →
      call.dest = d → ¬(command = 0 ∨ call.command = command)
  | _ => True

/-- What `SendMessage` hands back is what the server has answered to this request. -/
def Matched (s : State) : Prop :=
  ∀ r ∈ s.returned, (r.1, r.2.message.code, r.2.message.arguments) ∈ s.replied

instance (s : State) : Decidable (Matched s) :=
  inferInstanceAs (Decidable (∀ r ∈ s.returned, _))

/-! ## The invariant -/

/-- A message for a server is a request to it, one for a client is an answer to one of its own. -/
def Fits (s : State) (t : Tid) (m : Mail) : Prop :=
  ∃ call, s.calls[m.request]? = some call ∧ m.message.command = call.command ∧
    if s.server t = true then m.source = call.client ∧ call.dest = t
    else m.source = call.dest ∧ call.client = t ∧
      (m.request, m.message.code, m.message.arguments) ∈ s.replied

/-- The messages that the thread has in its hands. -/
def PcOk (s : State) (t : Tid) : Pc → Prop
  | .locking d m => Fits s d m
  | .found m => Fits s t m ∧ ∀ w, s.current t = some w → m.request = w.request
  | _ => True

structure Inv (s : State) : Prop where
  mailbox : ∀ t, ∀ m ∈ s.mailbox t, Fits s t m
  accepted : ∀ t, ∀ m ∈ s.accepted t, s.server t = true ∧ Fits s t m
  pc : ∀ t, PcOk s t (s.pc t)
  calls : ∀ call ∈ s.calls, s.server call.client = false
  active : ∀ t, s.server t = false → s.pc t ≠ .idle → s.current t ≠ none
  current : ∀ t w, s.current t = some w →
    s.server t = false ∧ s.calls[w.request]? = some ⟨t, w.dest, w.command⟩
  latest : ∀ t w, s.current t = some w → ∀ n, InFlight s n → ∀ call, s.calls[n]? = some call →
    call.client = t → call.dest = w.dest → (w.command = 0 ∨ call.command = w.command) →
      n = w.request
  matched : Matched s

section Steps
variable {s s' : State}

/-- The lists beside the model only grow. -/
structure Extends (s s' : State) : Prop where
  server : s'.server = s.server
  calls : s.calls <+: s'.calls
  replied : s.replied ⊆ s'.replied

lemma Extends.getElem? (h : Extends s s') {n : ℕ} {call : Call} (hn : s.calls[n]? = some call) :
    s'.calls[n]? = some call := by
  obtain ⟨rest, hrest⟩ := h.calls
  rw [← hrest, List.getElem?_append_left (List.getElem?_eq_some_iff.mp hn).1, hn]

lemma Fits.extends {t : Tid} {m : Mail} (hm : Fits s t m) (h : Extends s s') : Fits s' t m := by
  obtain ⟨call, hcall, hcommand, hplace⟩ := hm
  refine ⟨call, h.getElem? hcall, hcommand, ?_⟩
  rw [h.server]
  split_ifs at hplace ⊢
  · exact hplace
  · exact ⟨hplace.1, hplace.2.1, h.replied hplace.2.2⟩

lemma inFlight_mailbox {t : Tid} {m : Mail} (h : m ∈ s.mailbox t) : InFlight s m.request :=
  ⟨t, m, by simp [State.mails, h], rfl⟩

lemma inFlight_accepted {t : Tid} {m : Mail} (h : m ∈ s.accepted t) : InFlight s m.request :=
  ⟨t, m, by simp [State.mails, h], rfl⟩

lemma inFlight_pc {t : Tid} {m : Mail} (h : m ∈ (s.pc t).mails) : InFlight s m.request :=
  ⟨t, m, by simp [State.mails, h], rfl⟩

/-- What a part of a call by `t` does: messages move, and the thread may leave `SendMessage`. -/
structure Moves (s s' : State) (t : Tid) : Prop extends Extends s s' where
  calls_eq : s'.calls = s.calls
  mailbox : ∀ u, ∀ m ∈ s'.mailbox u, m ∈ s.mailbox u ∨ Fits s' u m ∧ InFlight s m.request
  accepted : ∀ u, ∀ m ∈ s'.accepted u,
    m ∈ s.accepted u ∨ (s.server u = true ∧ Fits s' u m) ∧ InFlight s m.request
  pc : ∀ u, u ≠ t → s'.pc u = s.pc u
  pcOk : PcOk s' t (s'.pc t) ∧ ∀ m ∈ (s'.pc t).mails, InFlight s m.request
  current : ∀ u, u ≠ t → s'.current u = s.current u
  leaves : s'.current t = s.current t ∨ s'.current t = none
  active : s.server t = false → s'.pc t ≠ .idle → s'.current t ≠ none
  matched : Matched s'

lemma Moves.inFlight {t : Tid} (h : Moves s s' t) {n : ℕ} (hn : InFlight s' n) : InFlight s n := by
  obtain ⟨u, m, hm, rfl⟩ := hn
  rcases List.mem_append.mp hm with hm | hm
  · rcases List.mem_append.mp hm with hm | hm
    · exact (h.mailbox u m hm).elim inFlight_mailbox And.right
    · exact (h.accepted u m hm).elim inFlight_accepted And.right
  · by_cases hu : u = t
    · subst hu
      exact h.pcOk.2 m hm
    · exact inFlight_pc (h.pc u hu ▸ hm)

lemma Moves.current_of {t u : Tid} {w : Waiting} (h : Moves s s' t)
    (hw : s'.current u = some w) : s.current u = some w := by
  by_cases hu : u = t
  · subst hu
    rcases h.leaves with hsame | hnone
    · rw [← hsame, hw]
    · rw [hnone] at hw
      cases hw
  · rw [← h.current u hu, hw]

lemma PcOk.extends {t : Tid} {pc : Pc} (hpc : PcOk s t pc) (h : Extends s s')
    (hcurrent : ∀ w, s'.current t = some w → s.current t = some w) : PcOk s' t pc := by
  cases pc with
  | locking d m => exact Fits.extends hpc h
  | found m => exact ⟨hpc.1.extends h, fun w hw => hpc.2 w (hcurrent w hw)⟩
  | _ => trivial

lemma Inv.moves {t : Tid} (h : Inv s) (hm : Moves s s' t) : Inv s' where
  mailbox u m hmem := (hm.mailbox u m hmem).elim
    (fun hold => (h.mailbox u m hold).extends hm.toExtends) And.left
  accepted u m hmem := by
    rw [hm.server]
    rcases hm.accepted u m hmem with hold | ⟨hnew, -⟩
    · obtain ⟨hserver, hfits⟩ := h.accepted u m hold
      exact ⟨hserver, hfits.extends hm.toExtends⟩
    · exact hnew
  pc u := by
    by_cases hu : u = t
    · subst hu
      exact hm.pcOk.1
    · rw [hm.pc u hu]
      exact (h.pc u).extends hm.toExtends fun w => hm.current_of
  calls call hcall := by
    rw [hm.server]
    exact h.calls call (hm.calls_eq ▸ hcall)
  active u hu hpc := by
    rw [hm.server] at hu
    by_cases hut : u = t
    · subst hut
      exact hm.active hu hpc
    · rw [hm.pc u hut] at hpc
      rw [hm.current u hut]
      exact h.active u hu hpc
  current u w hw := by
    rw [hm.server, hm.calls_eq]
    exact h.current u w (hm.current_of hw)
  latest u w hw n hn call hcall := by
    rw [hm.calls_eq] at hcall
    exact h.latest u w (hm.current_of hw) n (hm.inFlight hn) call hcall
  matched := hm.matched

/-! ## The parts of a call -/

variable {t : Tid}

/-- A part that changes only how far the thread is, and who sleeps. -/
lemma Inv.goes (h : Inv s) (y : Sync) (pc : Pc) (hok : PcOk s t pc)
    (hmails : ∀ m ∈ pc.mails, InFlight s m.request)
    (hactive : s.server t = false → pc ≠ .idle → s.current t ≠ none) :
    Inv ((s.setSync y).setPc t pc) := by
  have hpc : ((s.setSync y).setPc t pc).pc t = pc := Function.update_self _ _ _
  refine h.moves (t := t) ⟨⟨rfl, List.prefix_refl _, List.Subset.refl _⟩, rfl, fun _ _ => .inl,
    fun _ _ => .inl, fun u hu => Function.update_of_ne hu _ _, ?_, fun _ _ => rfl, .inl rfl, ?_,
    h.matched⟩
  · rw [hpc]
    exact ⟨hok.extends ⟨rfl, List.prefix_refl _, List.Subset.refl _⟩ fun _ => id, hmails⟩
  · rw [hpc]
    exact hactive

/-- The thread gives up its call of `SendMessage`. -/
lemma Inv.gives_up (h : Inv s) (y : Sync) :
    Inv (((s.setSync y).setCurrent t none).setPc t .idle) := by
  have hpc : (((s.setSync y).setCurrent t none).setPc t .idle).pc t = .idle :=
    Function.update_self _ _ _
  refine h.moves (t := t) ⟨⟨rfl, List.prefix_refl _, List.Subset.refl _⟩, rfl, fun _ _ => .inl,
    fun _ _ => .inl, fun u hu => Function.update_of_ne hu _ _, ?_,
    fun u hu => Function.update_of_ne hu _ _, .inr (Function.update_self _ _ _), ?_, h.matched⟩
  · rw [hpc]
    exact ⟨trivial, by simp [Pc.mails]⟩
  · rw [hpc]
    exact fun _ hne => absurd rfl hne

/-- A push puts a message in the queue it fits. -/
lemma Inv.push (h : Inv s) {d : Tid} {m : Mail} (hpc : s.pc t = .locking d m)
    (hactive : s.server t = false → s.current t ≠ none) :
    Inv ((s.setMailbox d (s.mailbox d ++ [m])).setPc t (.pushed d)) := by
  have hfits : Fits s d m := by simpa [hpc, PcOk] using h.pc t
  have hpc' : ((s.setMailbox d (s.mailbox d ++ [m])).setPc t (.pushed d)).pc t = .pushed d :=
    Function.update_self _ _ _
  refine h.moves (t := t) ⟨⟨rfl, List.prefix_refl _, List.Subset.refl _⟩, rfl, fun u x hx => ?_,
    fun _ _ => .inl, fun u hu => Function.update_of_ne hu _ _, ?_, fun _ _ => rfl, .inl rfl, ?_,
    h.matched⟩
  · by_cases hu : u = d
    · subst hu
      have hx' : x ∈ s.mailbox u ++ [m] := by simpa [State.setPc, State.setMailbox] using hx
      rcases List.mem_append.mp hx' with hx' | hx'
      · exact .inl hx'
      · obtain rfl := List.mem_singleton.mp hx'
        exact .inr ⟨hfits, inFlight_pc (t := t) (by simp [hpc, Pc.mails])⟩
    · exact .inl (by simpa [State.setPc, State.setMailbox, hu] using hx)
  · rw [hpc']
    exact ⟨trivial, by simp [Pc.mails]⟩
  · exact fun hu _ => hactive hu

/-- A receive takes a message out of its own queue. -/
lemma Inv.takes (h : Inv s) {m : Mail} {ms : List Mail} (hm : m ∈ s.mailbox t)
    (hms : ms ⊆ s.mailbox t) (hactive : s.server t = false → s.current t ≠ none)
    (hanswer : ∀ w, s.current t = some w → m.request = w.request) :
    Inv ((s.setMailbox t ms).setPc t (.found m)) := by
  have hpc : ((s.setMailbox t ms).setPc t (.found m)).pc t = .found m := Function.update_self _ _ _
  refine h.moves (t := t) ⟨⟨rfl, List.prefix_refl _, List.Subset.refl _⟩, rfl, fun u x hx => .inl ?_,
    fun _ _ => .inl, fun u hu => Function.update_of_ne hu _ _, ?_, fun _ _ => rfl, .inl rfl, ?_,
    h.matched⟩
  · by_cases hu : u = t
    · subst hu
      exact hms (by simpa [State.setPc, State.setMailbox] using hx)
    · simpa [State.setPc, State.setMailbox, hu] using hx
  · rw [hpc]
    refine ⟨⟨h.mailbox t m hm, hanswer⟩, fun x hx => ?_⟩
    rw [List.mem_singleton.mp hx]
    exact inFlight_mailbox hm
  · exact fun hu _ => hactive hu

/-- The filter of `SendMessage` lets through only the reply to its request. -/
lemma Inv.accepts (h : Inv s) {w : Waiting} (hw : s.current t = some w) {m : Mail}
    (hm : m ∈ s.mailbox t) (haccepts : w.accepts m = true) : m.request = w.request := by
  obtain ⟨hserver, -⟩ := h.current t w hw
  obtain ⟨call, hcall, hcommand, hplace⟩ := h.mailbox t m hm
  rw [if_neg (by simp [hserver])] at hplace
  obtain ⟨hsource, hclient, -⟩ := hplace
  simp only [Waiting.accepts, Bool.and_eq_true, decide_eq_true_eq, Bool.or_eq_true] at haccepts
  refine h.latest t w hw m.request (inFlight_mailbox hm) call hcall hclient ?_ ?_
  · rw [← hsource]
    exact haccepts.1
  · rw [← hcommand]
    exact haccepts.2

lemma Inv.receive (h : Inv s) (hpc : s.pc t = .receiving) (elapsed : UInt32) :
    Inv (receive s t elapsed) := by
  have hactive : s.server t = false → s.current t ≠ none := fun hs =>
    h.active t hs (by simp [hpc])
  cases hw : s.current t with
  | some w =>
    cases hfind : (s.mailbox t).find? w.accepts with
    | some m =>
      have htake : take s t = some (m, (s.mailbox t).eraseP w.accepts) := by
        simp [take, hw, hfind]
      have hm := List.mem_of_find?_eq_some hfind
      rw [Request.receive, htake]
      refine h.takes hm List.eraseP_subset hactive fun w' hw' => ?_
      rw [Option.some.inj (hw'.symm.trans hw)]
      exact h.accepts hw hm (List.find?_some hfind)
    | none =>
      have htake : take s t = none := by simp [take, hw, hfind]
      rw [Request.receive, htake, hw]
      dsimp only
      split_ifs
      · exact h.gives_up s.sync
      · exact h.goes _ .entering trivial (by simp [Pc.mails]) fun hs _ => hactive hs
  | none =>
    cases hbox : s.mailbox t with
    | nil =>
      have htake : take s t = none := by simp [take, hw, hbox]
      rw [Request.receive, htake, hw]
      exact h.goes _ .entering trivial (by simp [Pc.mails]) fun hs _ => hactive hs
    | cons m ms =>
      have htake : take s t = some (m, ms) := by simp [take, hw, hbox]
      rw [Request.receive, htake]
      refine h.takes (by simp [hbox]) (by simp [hbox]) hactive fun w' hw' => ?_
      rw [hw] at hw'
      cases hw'

/-- A client returns, or a server has accepted a request. -/
lemma Inv.received (h : Inv s) {m : Mail} (hpc : s.pc t = .found m) (elapsed : UInt32)
    (memory room : Bool) : Inv (advance s t elapsed memory room) := by
  obtain ⟨hfits, hanswer⟩ : Fits s t m ∧ ∀ w, s.current t = some w → m.request = w.request := by
    simpa [hpc, PcOk] using h.pc t
  have hflight : InFlight s m.request := inFlight_pc (t := t) (by simp [hpc, Pc.mails])
  simp only [advance, hpc]
  cases hw : s.current t with
  | some w =>
    refine h.moves (t := t) ⟨⟨rfl, List.prefix_refl _, List.Subset.refl _⟩, rfl, fun _ _ => .inl,
      fun _ _ => .inl, fun u hu => Function.update_of_ne hu _ _, ?_,
      fun u hu => Function.update_of_ne hu _ _, .inr (Function.update_self _ _ _), ?_, ?_⟩
    · simp [State.setPc, PcOk, Pc.mails]
    · simp [State.setPc]
    · intro r hr
      rcases List.mem_append.mp hr with hr | hr
      · exact h.matched r hr
      · obtain ⟨call, hcall, hcommand, hplace⟩ := hfits
        rw [if_neg (by simp [(h.current t w hw).1])] at hplace
        rw [List.mem_singleton.mp hr, ← hanswer w hw]
        exact hplace.2.2
  | none =>
    have hserver : s.server t = true := by
      by_contra hs
      exact h.active t (by simpa using hs) (by simp [hpc]) hw
    refine h.moves (t := t) ⟨⟨rfl, List.prefix_refl _, List.Subset.refl _⟩, rfl, fun _ _ => .inl,
      fun u x hx => ?_, fun u hu => Function.update_of_ne hu _ _, ?_, fun _ _ => rfl, .inl rfl, ?_,
      h.matched⟩
    · by_cases hu : u = t
      · subst hu
        have hx' : x ∈ s.accepted u ++ [m] := by simpa [State.setPc, State.setAccepted] using hx
        rcases List.mem_append.mp hx' with hx' | hx'
        · exact .inl hx'
        · obtain rfl := List.mem_singleton.mp hx'
          exact .inr ⟨⟨hserver, hfits⟩, hflight⟩
      · exact .inl (by simpa [State.setPc, State.setAccepted, State.setSync, hu] using hx)
    · simp [State.setPc, PcOk, Pc.mails]
    · simp [State.setPc]

theorem Inv.advance (h : Inv s) (elapsed : UInt32) (memory room : Bool) :
    Inv (advance s t elapsed memory room) := by
  have hactive : s.pc t ≠ .idle → s.server t = false → s.current t ≠ none := fun hne hs =>
    h.active t hs hne
  cases hpc : s.pc t with
  | found m => exact h.received hpc elapsed memory room
  | idle => simpa [Request.advance, hpc] using h
  | locking d m =>
    have hcur := hactive (by simp [hpc])
    simp only [Request.advance, hpc]
    split_ifs
    · exact h.push hpc hcur
    · exact h.goes s.sync _ trivial (by simp [Pc.mails]) fun hs _ => hcur hs
    · exact h.gives_up _
  | pushed d =>
    simp only [Request.advance, hpc]
    exact h.goes _ _ trivial (by simp [Pc.mails]) fun hs _ => hactive (by simp [hpc]) hs
  | released d =>
    simp only [Request.advance, hpc]
    refine h.goes _ _ ?_ ?_ fun hs _ => hactive (by simp [hpc]) hs
    · split_ifs <;> trivial
    · split_ifs <;> simp [Pc.mails]
  | entering =>
    simp only [Request.advance, hpc]
    exact h.goes _ _ trivial (by simp [Pc.mails]) fun hs _ => hactive (by simp [hpc]) hs
  | receiving =>
    simp only [Request.advance, hpc]
    exact h.receive hpc elapsed

/-! ## Steps -/

lemma Inv.call_of_inFlight (h : Inv s) {n : ℕ} (hn : InFlight s n) :
    ∃ call, s.calls[n]? = some call := by
  have hfits : ∀ u m, Fits s u m → ∃ call, s.calls[m.request]? = some call :=
    fun _ _ ⟨call, hcall, _⟩ => ⟨call, hcall⟩
  obtain ⟨u, m, hm, rfl⟩ := hn
  rcases List.mem_append.mp hm with hm | hm
  · rcases List.mem_append.mp hm with hm | hm
    · exact hfits u m (h.mailbox u m hm)
    · exact hfits u m (h.accepted u m hm).2
  · have hpc := h.pc u
    cases hu : s.pc u <;> rw [hu] at hm hpc <;> simp only [Pc.mails, List.mem_singleton,
      List.not_mem_nil] at hm
    · subst hm
      exact hfits _ _ hpc
    · subst hm
      exact hfits _ _ hpc.1

/-- The state after a client has called `SendMessage`. -/
def State.afterCall (s : State) (c d : Tid) (command : UInt32) (arguments : Vector UInt32 10) :
    State :=
  { ((s.setSync (down s.sync c d)).setCurrent c (some ⟨s.calls.length, d, command⟩)).setPc c
      (.locking d (requestMail s c d command arguments)) with
    calls := s.calls ++ [⟨c, d, command⟩] }

lemma inFlight_afterCall {c d : Tid} {command : UInt32} {arguments : Vector UInt32 10} {n : ℕ}
    (hn : InFlight (s.afterCall c d command arguments) n) : InFlight s n ∨ n = s.calls.length := by
  obtain ⟨u, m, hm, rfl⟩ := hn
  rcases List.mem_append.mp hm with hm | hm
  · exact .inl ⟨u, m, List.mem_append_left _ hm, rfl⟩
  · by_cases hu : u = c
    · subst hu
      have hmail : m = requestMail s u d command arguments := by
        simpa [State.afterCall, State.setPc, Pc.mails] using hm
      exact .inr (by rw [hmail]; rfl)
    · exact .inl (inFlight_pc (t := u) (by
        simpa [State.afterCall, State.setPc, State.setCurrent, State.setSync, hu] using hm))

lemma Inv.afterCall (h : Inv s) {c d : Tid} {command : UInt32} (arguments : Vector UInt32 10)
    (hc : s.server c = false) (hd : s.server d = true)
    (hok : StepOk s (.call c d command arguments)) : Inv (s.afterCall c d command arguments) := by
  have hext : Extends s (s.afterCall c d command arguments) :=
    ⟨rfl, List.prefix_append _ _, List.Subset.refl _⟩
  have hnew : (s.afterCall c d command arguments).calls[s.calls.length]? = some ⟨c, d, command⟩ :=
    List.getElem?_concat_length
  have hpc : ∀ u, u ≠ c → (s.afterCall c d command arguments).pc u = s.pc u := fun u hu =>
    Function.update_of_ne hu _ _
  have hcurrent : ∀ u, u ≠ c → (s.afterCall c d command arguments).current u = s.current u :=
    fun u hu => Function.update_of_ne hu _ _
  have hcurrentc : (s.afterCall c d command arguments).current c =
      some ⟨s.calls.length, d, command⟩ := Function.update_self _ _ _
  refine ⟨fun u m hm => (h.mailbox u m hm).extends hext, fun u m hm => ?_, fun u => ?_, ?_,
    fun u hu hidle => ?_, fun u w hw => ?_, fun u w hw n hn call hcall hclient hdest hcommand => ?_,
    h.matched⟩
  · obtain ⟨hserver, hfits⟩ := h.accepted u m hm
    exact ⟨hserver, hfits.extends hext⟩
  · by_cases hu : u = c
    · subst hu
      have hself : (s.afterCall u d command arguments).pc u =
          .locking d (requestMail s u d command arguments) := Function.update_self _ _ _
      rw [hself]
      refine ⟨_, hnew, rfl, ?_⟩
      rw [if_pos (show (s.afterCall u d command arguments).server d = true from hd)]
      exact ⟨rfl, rfl⟩
    · rw [hpc u hu]
      exact (h.pc u).extends hext fun w hw => by rw [← hcurrent u hu, hw]
  · intro call hcall
    rcases List.mem_append.mp hcall with hcall | hcall
    · exact h.calls call hcall
    · rw [List.mem_singleton.mp hcall]
      exact hc
  · by_cases huc : u = c
    · rw [huc, hcurrentc]
      exact Option.some_ne_none _
    · rw [hpc u huc] at hidle
      rw [hcurrent u huc]
      exact h.active u hu hidle
  · by_cases hu : u = c
    · subst hu
      obtain rfl := Option.some.inj (hcurrentc.symm.trans hw)
      exact ⟨hc, hnew⟩
    · rw [hcurrent u hu] at hw
      exact ⟨(h.current u w hw).1, hext.getElem? (h.current u w hw).2⟩
  · rcases inFlight_afterCall hn with hold | rfl
    · obtain ⟨call', hcall'⟩ := h.call_of_inFlight hold
      obtain rfl : call' = call := Option.some.inj ((hext.getElem? hcall').symm.trans hcall)
      by_cases hu : u = c
      · subst hu
        obtain rfl := Option.some.inj (hcurrentc.symm.trans hw)
        exact absurd hcommand (hok n hold call' hcall' hclient hdest)
      · rw [hcurrent u hu] at hw
        exact h.latest u w hw n hold call' hcall' hclient hdest hcommand
    · obtain rfl := Option.some.inj (hnew.symm.trans hcall)
      obtain rfl : c = u := hclient
      exact congrArg Waiting.request (Option.some.inj (hcurrentc.symm.trans hw))

/-- The state after a server has answered the accepted request `m`. -/
def State.afterReply (s : State) (t : Tid) (i : ℕ) (m : Mail) (code : Int32)
    (arguments : Vector UInt32 10) : State :=
  { ((s.setSync (down s.sync t m.source)).setAccepted t ((s.accepted t).eraseIdx i)).setPc t
      (.locking m.source (replyMail t m code arguments)) with
    replied := s.replied ++ [(m.request, code, arguments)] }

lemma Inv.afterReply (h : Inv s) {i : ℕ} {m : Mail} (hi : (s.accepted t)[i]? = some m)
    (code : Int32) (arguments : Vector UInt32 10) : Inv (s.afterReply t i m code arguments) := by
  have hm : m ∈ s.accepted t := List.mem_of_getElem? hi
  obtain ⟨hserver, call, hcall, hcommand, hplace⟩ := h.accepted t m hm
  rw [if_pos hserver] at hplace
  obtain ⟨hsource, hdest⟩ := hplace
  have hclient : (s.afterReply t i m code arguments).server m.source = false :=
    hsource ▸ h.calls call (List.mem_of_getElem? hcall)
  have hfits : Fits (s.afterReply t i m code arguments) m.source (replyMail t m code arguments) := by
    refine ⟨call, hcall, hcommand, ?_⟩
    rw [if_neg (by simp [hclient])]
    exact ⟨hdest.symm, hsource.symm, List.mem_append_right _ (List.mem_singleton.mpr rfl)⟩
  have hpc : (s.afterReply t i m code arguments).pc t =
      .locking m.source (replyMail t m code arguments) := Function.update_self _ _ _
  refine h.moves (t := t) ⟨⟨rfl, List.prefix_refl _, List.subset_append_left _ _⟩, rfl,
    fun _ _ => .inl, fun u x hx => .inl ?_, fun u hu => Function.update_of_ne hu _ _, ?_,
    fun _ _ => rfl, .inl rfl, fun hs => absurd hserver (by simp [hs]),
    fun r hr => List.mem_append_left _ (h.matched r hr)⟩
  · by_cases hu : u = t
    · subst hu
      exact (List.eraseIdx_sublist _ _).subset
        (by simpa [State.afterReply, State.setPc, State.setAccepted] using hx)
    · simpa [State.afterReply, State.setPc, State.setAccepted, State.setSync, hu] using hx
  · rw [hpc]
    refine ⟨hfits, fun x hx => ?_⟩
    rw [List.mem_singleton.mp hx]
    exact (inFlight_accepted hm : InFlight s m.request)

theorem inv_step (h : Inv s) (e : Event) (hok : StepOk s e) : Inv (step s e) := by
  cases e with
  | call c d command arguments =>
    rw [step]
    split_ifs with hcall
    · exact h.afterCall arguments hcall.2.1 hcall.2.2 hok
    · exact h
  | wait t =>
    rw [step]
    split_ifs with hwait
    · exact h.goes s.sync _ trivial (by simp [Pc.mails]) fun hs =>
        absurd hwait.2 (by simp [hs])
    · exact h
  | reply t i code arguments =>
    rw [step]
    split
    · exact h
    · rename_i m hi
      split_ifs
      · exact h.afterReply hi code arguments
      · exact h
  | run t elapsed memory room =>
    rw [step]
    split_ifs
    · exact h.advance elapsed memory room
    · exact h
  | tick t =>
    rw [step]
    split_ifs
    · exact ⟨h.mailbox, h.accepted, h.pc, h.calls, h.active, h.current, h.latest, h.matched⟩
    · exact h

end Steps

/-! ## Runs -/

lemma inv_start (server : Tid → Bool) : Inv (start server) := by
  constructor <;> simp [start, PcOk, Matched]

def noArguments : Vector UInt32 10 := Vector.replicate 10 0

/-- Parts of the call that a thread is in. -/
def parts (t : Tid) (n : ℕ) : List Event := List.replicate n (.run t 0 true true)

/-- Client 1 calls server 2, which answers in time. -/
def exchange : List Event :=
  [.call 1 2 7 noArguments] ++ parts 1 5 ++ [.wait 2] ++ parts 2 3 ++
    [.reply 2 0 100 noArguments] ++ parts 2 3 ++ parts 1 3

end Sgos.Request
