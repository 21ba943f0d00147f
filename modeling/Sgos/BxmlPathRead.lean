import Sgos.BxmlPathFrame
import Sgos.BxmlPathRuns

/-!
# Writing to a path and reading it back

`parse_path` leaves out the segments that have no room in `tmp`, and the conditions that have none
in `conds`. What it creates for the others it finds again, unless their conditions contradict each
other. So a string that was written is read back, and it was written to the node that the path
names, exactly if nothing that matters was left out.
-/
namespace Sgos.BxmlPath
open ByteBuffer CString Bxml Xml LinkedChain

/-! ## What is read of a path -/

/-- The conditions that have room in `conds`. -/
def Segment.cut (seg : Segment) : Segment := { seg with conds := seg.conds.take MAX_CONDITIONS }

/-- The segments that have room in `tmp`, the last of them with the attribute. -/
def readable (attr : Option (List UInt8)) : List Segment → Path
  | [] => ⟨[], none⟩
  | [seg] => match attr with
    | none => if seg.text.length < MAX_SEGMENT then ⟨[seg.cut], none⟩ else ⟨[], none⟩
    | some name =>
      if (seg.text ++ colon :: name).length < MAX_SEGMENT then ⟨[seg.cut], some name⟩
      else ⟨[], none⟩
  | seg :: segs =>
    let path := readable attr segs
    if seg.text.length < MAX_SEGMENT then { path with segments := seg.cut :: path.segments }
    else path

lemma readable_cons (attr : Option (List UInt8)) (seg seg' : Segment) (segs : List Segment) :
    readable attr (seg :: seg' :: segs) =
      if seg.text.length < MAX_SEGMENT then
        { readable attr (seg' :: segs) with
          segments := seg.cut :: (readable attr (seg' :: segs)).segments }
      else readable attr (seg' :: segs) := rfl

lemma segmentTexts_cons (attr : Option (List UInt8)) (seg seg' : Segment) (segs : List Segment) :
    segmentTexts attr (seg :: seg' :: segs) = seg.text :: segmentTexts attr (seg' :: segs) := rfl

def Path.readable (path : Path) : Path := BxmlPath.readable path.attr path.segments

section Walk
variable (stray : List UInt8 → List UInt8 → Bool)

/-- A new child for each segment from some one on. -/
def Creates (s : State) : ℕ → List Segment → Prop
  | _, [] => True
  | nod, seg :: segs =>
    match findChild stray s nod seg.name seg.conds with
    | some (some child) => Creates s child segs
    | _ => ∀ seg' ∈ seg :: segs, Consistent seg'.conds

/-- The walk over readable segments. -/
def walkSegments (create : Bool) : State → ℕ → List Segment → Option (Option ℕ × State)
  | s, nod, [] => some (some nod, s)
  | s, nod, seg :: segs => do
    match ← searchChildnode served stray s nod seg.name seg.conds create with
    | (none, s) => some (none, s)
    | (some nod, s) => walkSegments create s nod segs

def enterLast (create : Bool) (attr : Option (List UInt8)) (r : Option ℕ × State) :
    Option (Option ℕ × State) :=
  match attr with
  | none => some r
  | some name => enterAttr served r.2 r.1 name create

def walkPath (create : Bool) (s : State) (nod : ℕ) (path : Path) : Option (Option ℕ × State) :=
  (walkSegments stray create s nod path.segments).bind (enterLast create path.attr)

variable {s s' : State} {F F' : Shape}

lemma walkTexts_one (create : Bool) (nod : ℕ) (text : List UInt8) :
    walkTexts stray create s nod [text] = enter served stray s nod text create := by
  rw [walkTexts]
  cases enter served stray s nod text create with
  | none => rfl
  | some r =>
    obtain ⟨_ | a, s'⟩ := r <;> rfl

lemma walkSegments_one (create : Bool) (nod : ℕ) (seg : Segment) :
    walkSegments stray create s nod [seg] =
      searchChildnode served stray s nod seg.name seg.conds create := by
  rw [walkSegments]
  cases searchChildnode served stray s nod seg.name seg.conds create with
  | none => rfl
  | some r =>
    obtain ⟨_ | a, s'⟩ := r <;> rfl

lemma enterLast_none (create : Bool) (attr : Option (List UInt8)) :
    enterLast create attr (none, s) = some (none, s) := by
  cases attr <;> rfl

/-- The walk along the texts is the one over what is readable of them. -/
lemma walkTexts_segmentTexts (create : Bool) {attr : Option (List UInt8)} {segs : List Segment}
    (hsegs : ∀ seg ∈ segs, seg.Proper) (hattr : ∀ name, attr = some name →
      (∀ c ∈ name, Free c) ∧ ∃ seg, segs.getLast? = some seg ∧ seg.conds = []) (nod : ℕ) :
    walkTexts stray create s nod (segmentTexts attr segs) =
      walkPath stray create s nod (readable attr segs) := by
  induction segs generalizing s nod with
  | nil => rfl
  | cons seg segs ih =>
    have hseg := hsegs seg List.mem_cons_self
    cases segs with
    | nil =>
      cases attr with
      | none =>
        change walkTexts stray create s nod [seg.text] = walkPath stray create s nod
          (if seg.text.length < MAX_SEGMENT then ⟨[seg.cut], none⟩ else ⟨[], none⟩)
        rw [walkTexts_one]
        split_ifs with hlen
        · rw [hseg.enter_eq stray hlen, walkPath, walkSegments_one]
          change enterSegment stray s nod seg create =
            (enterSegment stray s nod seg create).bind (enterLast create none)
          cases enterSegment stray s nod seg create <;> rfl
        · rw [enter_long stray hlen]
          rfl
      | some name =>
        obtain ⟨hname, seg', hlast, hconds⟩ := hattr name rfl
        cases hlast
        change walkTexts stray create s nod [seg.text ++ colon :: name] = walkPath stray create s nod
          (if (seg.text ++ colon :: name).length < MAX_SEGMENT then ⟨[seg.cut], some name⟩
          else ⟨[], none⟩)
        rw [walkTexts_one]
        split_ifs with hlen
        · rw [hseg.enter_attr stray hconds hname hlen, walkPath, walkSegments_one]
          rfl
        · rw [enter_long stray hlen]
          rfl
    | cons seg' segs =>
      have hrest (t : State) (a : ℕ) := @ih t (fun x hx => hsegs x (List.mem_cons_of_mem seg hx))
        (fun name hname => hattr name hname) a
      rw [segmentTexts_cons, walkTexts, readable_cons]
      split_ifs with hlen
      · rw [hseg.enter_eq stray hlen, walkPath, walkSegments, enterSegment]
        change _ = ((searchChildnode served stray s nod seg.name
          (seg.conds.take MAX_CONDITIONS) create).bind _).bind _
        cases searchChildnode served stray s nod seg.name (seg.conds.take MAX_CONDITIONS) create with
        | none => rfl
        | some r =>
          obtain ⟨_ | a, s'⟩ := r
          · exact (enterLast_none create _).symm
          · exact hrest s' a
      · rw [enter_long stray hlen]
        exact hrest s nod

end Walk

/-! ## Walking and walking again -/

section Resolve
variable (stray : List UInt8 → List UInt8 → Bool)

/-- The node that segments lead to in the lists of a document. -/
def resolveIn (s : State) (F : Shape) : ℕ → List Segment → Option ℕ
  | a, [] => some a
  | a, seg :: segs =>
    (childOf stray s F a seg.name seg.conds).bind fun b => resolveIn s F b segs

variable {s s' : State} {F F' : Shape} {segs : List Segment} {a d : ℕ}

lemma childOf_mem {b : ℕ} {name : List UInt8} {conds : List Condition}
    (h : childOf stray s F a name conds = some b) : b ∈ F.nodes (some (a, .node)) :=
  List.mem_of_find?_eq_some h

lemma Sound.searchChildnode_found (h : Sound s F) (ha : F.Live a) {seg : Segment} {b : ℕ}
    (hchild : childOf stray s F a seg.name seg.conds = some b) (create : Bool) :
    searchChildnode served stray s a seg.name seg.conds create = some (some b, s) := by
  rw [searchChildnode, h.findChild_eq stray ha, Option.bind_eq_bind, Option.bind_some, hchild]

lemma Sound.searchChildnode_missing (h : Sound s F) (ha : F.Live a) {seg : Segment}
    (hchild : childOf stray s F a seg.name seg.conds = none) :
    searchChildnode served stray s a seg.name seg.conds false = some (none, s) := by
  rw [searchChildnode, h.findChild_eq stray ha, Option.bind_eq_bind, Option.bind_some, hchild]
  rfl

lemma Sound.resolve_eq (h : Sound s F) (ha : F.Live a) :
    resolve stray s a segs = some (resolveIn stray s F a segs) := by
  induction segs generalizing a with
  | nil => rfl
  | cons seg segs ih =>
    rw [resolve, h.findChild_eq stray ha, Option.bind_eq_bind, Option.bind_some, resolveIn]
    cases hchild : childOf stray s F a seg.name seg.conds with
    | none => rfl
    | some b => exact ih ⟨_, childOf_mem stray hchild⟩

lemma Sound.walk_reads (h : Sound s F) (ha : F.Live a) :
    walkSegments stray false s a segs = some (resolveIn stray s F a segs, s) := by
  induction segs generalizing a with
  | nil => rfl
  | cons seg segs ih =>
    rw [walkSegments, resolveIn]
    cases hchild : childOf stray s F a seg.name seg.conds with
    | none =>
      rw [h.searchChildnode_missing stray ha hchild]
      rfl
    | some b =>
      rw [h.searchChildnode_found stray ha hchild]
      exact ih ⟨_, childOf_mem stray hchild⟩

/-- What is there is not created. -/
lemma Sound.walk_finds (h : Sound s F) (ha : F.Live a) {z : ℕ}
    (hz : resolveIn stray s F a segs = some z) :
    walkSegments stray true s a segs = some (some z, s) := by
  induction segs generalizing a with
  | nil => rw [walkSegments, ← hz]; rfl
  | cons seg segs ih =>
    rw [resolveIn] at hz
    obtain ⟨b, hchild, hz⟩ := Option.bind_eq_some_iff.mp hz
    rw [walkSegments, h.searchChildnode_found stray ha hchild]
    exact ih ⟨_, childOf_mem stray hchild⟩ hz

lemma Depth.resolveIn (ha : Depth F a d) {z : ℕ} (hz : resolveIn stray s F a segs = some z) :
    Depth F z (d + segs.length) := by
  induction segs generalizing a d with
  | nil =>
    cases hz
    exact ha
  | cons seg segs ih =>
    obtain ⟨b, hchild, hz⟩ := Option.bind_eq_some_iff.mp hz
    have hz' := ih (.child ha (childOf_mem stray hchild)) hz
    rwa [Nat.add_right_comm, Nat.add_assoc] at hz'

lemma Agrees.resolveIn_eq {k : ℕ} (h : Agrees s F s' F' k) (ha : Depth F a d)
    (hk : d + segs.length ≤ k) (hsegs : ∀ seg ∈ segs, seg.Fits) :
    resolveIn stray s' F' a segs = resolveIn stray s F a segs := by
  induction segs generalizing a d with
  | nil => rfl
  | cons seg segs ih =>
    rw [List.length_cons] at hk
    rw [BxmlPath.resolveIn, BxmlPath.resolveIn, h.childOf_eq stray ha (by omega) seg.name
      (hsegs seg List.mem_cons_self).conds]
    cases hchild : childOf stray s F a seg.name seg.conds with
    | none => rfl
    | some b =>
      exact ih (.child ha (childOf_mem stray hchild)) (by omega)
        fun x hx => hsegs x (List.mem_cons_of_mem seg hx)

lemma Sound.creates_cons_some (h : Sound s F) (ha : F.Live a) {seg : Segment} {b : ℕ}
    (hchild : childOf stray s F a seg.name seg.conds = some b) :
    Creates stray s a (seg :: segs) ↔ Creates stray s b segs := by
  rw [Creates, h.findChild_eq stray ha, hchild]

lemma Sound.creates_cons_none (h : Sound s F) (ha : F.Live a) {seg : Segment}
    (hchild : childOf stray s F a seg.name seg.conds = none) :
    Creates stray s a (seg :: segs) ↔ ∀ seg' ∈ seg :: segs, Consistent seg'.conds := by
  rw [Creates, h.findChild_eq stray ha, hchild]

/-- Below a node without children everything is new. -/
lemma childless_childOf (hnil : F.nodes (some (a, .node)) = []) (name : List UInt8)
    (conds : List Condition) : childOf stray s F a name conds = none := by
  rw [childOf, hnil]
  rfl

lemma Sound.creates_childless (h : Sound s F) (ha : F.Live a)
    (hnil : F.nodes (some (a, .node)) = []) :
    Creates stray s a segs ↔ ∀ seg ∈ segs, Consistent seg.conds := by
  cases segs with
  | nil => exact iff_of_true trivial (List.forall_mem_nil _)
  | cons seg segs => exact h.creates_cons_none stray ha (childless_childOf stray hnil _ _)

/-- Where a walk that creates what is missing arrives, and whether the next one arrives there. -/
structure Walked (s : State) (F : Shape) (a d : ℕ) (segs : List Segment) (z : ℕ) (s' : State)
    (F' : Shape) : Prop where
  walk : walkSegments stray true s a segs = some (some z, s')
  keeps : Keeps s F s' F' d
  depth : Depth F' z (d + segs.length)
  old : resolveIn stray s F a segs = some z ∧ s' = s ∧ F' = F ∨ resolveIn stray s F a segs = none ∧
    s.requests ≤ z ∧ ∀ b ∈ F'.nodes (some (z, .attribute)), s.requests ≤ b
  again : Creates stray s a segs → resolveIn stray s' F' a segs = some z
  lost : ¬Creates stray s a segs → resolveIn stray s' F' a segs = none

lemma Keeps.mono (h : Sound s F) {e : ℕ} (hk : Keeps s F s' F' e) (hde : d ≤ e) :
    Keeps s F s' F' d := (Keeps.refl h d).trans hk hde

/-- The first segment leads to a node that is there. -/
lemma Walked.cons (h : Sound s F) (ha : Depth F a d) {seg : Segment} (hseg : seg.Fits) {b : ℕ}
    (hchild : childOf stray s F a seg.name seg.conds = some b) {z : ℕ}
    (hw : Walked stray s F b (d + 1) segs z s' F') :
    Walked stray s F a d (seg :: segs) z s' F' := by
  have hstep : resolveIn stray s F a (seg :: segs) = resolveIn stray s F b segs := by
    rw [resolveIn, hchild, Option.bind_some]
  have hstep' : resolveIn stray s' F' a (seg :: segs) = resolveIn stray s' F' b segs := by
    rw [resolveIn, (hw.keeps.agrees h).childOf_eq stray ha (Nat.lt_succ_self d) seg.name hseg.conds,
      hchild, Option.bind_some]
  have hcreates := @Sound.creates_cons_some stray s F segs a h ha.live seg b hchild
  refine ⟨?_, hw.keeps.mono h (Nat.le_succ d), ?_, ?_, fun hc => ?_, fun hc => ?_⟩
  · rw [walkSegments, h.searchChildnode_found stray ha.live hchild]
    exact hw.walk
  · rw [List.length_cons, Nat.add_comm segs.length, ← Nat.add_assoc]
    exact hw.depth
  · rw [hstep]
    exact hw.old
  · rw [hstep']
    exact hw.again (hcreates.mp hc)
  · rw [hstep']
    exact hw.lost fun hb => hc (hcreates.mpr hb)

/-- The first segment leads to a new node. -/
lemma Walked.cons_new (h : Sound s F) (ha : Depth F a d) {seg : Segment} (hseg : seg.Fits)
    (hchild : childOf stray s F a seg.name seg.conds = none) {x : ℕ} {s₁ : State} {F₁ : Shape}
    (hsearch : searchChildnode served stray s a seg.name seg.conds true = some (some x, s₁))
    (hk : Keeps s F s₁ F₁ d) (hset : ChildSet stray s F a seg x s₁ F₁) {z : ℕ}
    (hw : Walked stray s₁ F₁ x (d + 1) segs z s' F') :
    Walked stray s F a d (seg :: segs) z s' F' := by
  have hsound₁ := hk.evolves.sound
  have ha₁ : Depth F₁ a d := ha.mono hk.keeps
  have hx : F₁.Live x := ⟨some (a, .node), by rw [hset.siblings]; exact List.mem_cons_self⟩
  have hstep : resolveIn stray s' F' a (seg :: segs) =
      if Consistent seg.conds then resolveIn stray s' F' x segs else none := by
    rw [resolveIn, (hw.keeps.agrees hsound₁).childOf_eq stray ha₁ (Nat.lt_succ_self d) seg.name
      hseg.conds, hset.childOf_eq h hk hchild]
    split_ifs <;> rfl
  have hcreates := @Sound.creates_cons_none stray s F segs a h ha.live seg hchild
  have hcreates₁ := @Sound.creates_childless stray s₁ F₁ segs x hsound₁ hx hset.childless
  rw [List.forall_mem_cons, ← hcreates₁] at hcreates
  refine ⟨?_, hk.trans hw.keeps (Nat.le_succ d), ?_, .inr ⟨?_, ?_⟩, fun hc => ?_, fun hc => ?_⟩
  · rw [walkSegments, hsearch]
    exact hw.walk
  · rw [List.length_cons, Nat.add_comm segs.length, ← Nat.add_assoc]
    exact hw.depth
  · rw [resolveIn, hchild, Option.bind_none]
  · rcases hw.old with ⟨hz, -, rfl⟩ | ⟨-, hz, hattrs⟩
    · -- only the new node itself can be found below it
      cases segs with
      | nil =>
        cases hz
        exact ⟨hset.new.ge, hset.attrs⟩
      | cons seg' segs =>
        rw [resolveIn, childless_childOf stray hset.childless] at hz
        cases hz
    · exact ⟨hk.requests.trans hz, fun b hb => hk.requests.trans (hattrs b hb)⟩
  · obtain ⟨hagree, hrest⟩ := hcreates.mp hc
    rw [hstep, if_pos hagree]
    exact hw.again hrest
  · rw [hstep]
    split_ifs with hagree
    · exact hw.lost fun hrest => hc (hcreates.mpr ⟨hagree, hrest⟩)
    · rfl

lemma Sound.walks (h : Sound s F) (ha : Depth F a d) (hsegs : ∀ seg ∈ segs, seg.Fits) :
    ∃ z s' F', Walked stray s F a d segs z s' F' := by
  induction segs generalizing s F a d with
  | nil =>
    exact ⟨a, s, F, rfl, .refl h d, ha, .inl ⟨rfl, rfl, rfl⟩, fun _ => rfl,
      fun hc => absurd trivial hc⟩
  | cons seg segs ih =>
    obtain ⟨hseg, hsegs⟩ := List.forall_mem_cons.mp hsegs
    cases hchild : childOf stray s F a seg.name seg.conds with
    | some b =>
      obtain ⟨z, s', F', hw⟩ := ih h (.child ha (childOf_mem stray hchild)) hsegs
      exact ⟨z, s', F', hw.cons stray h ha hseg hchild⟩
    | none =>
      obtain ⟨x, s₁, F₁, hsearch, hk, hset⟩ := h.createChild stray ha hseg hchild
      have hx : Depth F₁ x (d + 1) := by
        refine .child (ha.mono hk.keeps) ?_
        rw [hset.siblings]
        exact List.mem_cons_self
      obtain ⟨z, s', F', hw⟩ := ih hk.evolves.sound hx hsegs
      exact ⟨z, s', F', hw.cons_new stray h ha hseg hchild hsearch hk hset⟩

end Resolve

/-! ## Readable paths -/

/-- The segments fit in `tmp`, and an attribute follows a segment without conditions. -/
structure Path.Fits (path : Path) : Prop where
  segments : ∀ seg ∈ path.segments, seg.Fits
  attr : ∀ name, path.attr = some name → ((0 : UInt8) ∉ name ∧ name.length < 256) ∧
    ∃ segs last, path.segments = segs ++ [last] ∧ last.conds = []

lemma condText_le {conds : List Condition} {cond : Condition} (h : cond ∈ conds) :
    cond.1.length + cond.2.length < (condsText conds).length := by
  have hone (c : Condition) : (condText c).length = c.1.length + c.2.length + 1 := by
    rw [condText, List.length_append, List.length_cons, Nat.add_assoc]
  induction conds with
  | nil => cases h
  | cons c conds ih =>
    cases conds with
    | nil =>
      rw [List.mem_singleton.mp h, condsText, hone]
      exact Nat.lt_succ_self _
    | cons c' conds =>
      rw [condsText_cons, List.length_append, List.length_cons, hone]
      rcases List.mem_cons.mp h with rfl | h
      · omega
      · have hrest := ih h
        omega

lemma zero_notMem_of_free {text : List UInt8} (h : ∀ c ∈ text, Free c) : (0 : UInt8) ∉ text :=
  fun hzero => (h 0 hzero).1 rfl

lemma Segment.Proper.cut_fits {seg : Segment} (h : seg.Proper)
    (hlen : seg.text.length < MAX_SEGMENT) : seg.cut.Fits := by
  have hname : seg.name.length ≤ seg.text.length ∧
      (seg.conds = [] ∨ (condsText seg.conds).length < seg.text.length) := by
    rw [Segment.text]
    split_ifs with hnil
    · exact ⟨le_rfl, .inl hnil⟩
    · rw [List.length_append, List.length_cons]
      exact ⟨by omega, .inr (by omega)⟩
  unfold MAX_SEGMENT at hlen
  refine ⟨zero_notMem_of_free h.name, lt_of_le_of_lt hname.1 hlen, fun cond hcond => ?_⟩
  have hmem : cond ∈ seg.conds := List.mem_of_mem_take hcond
  have hle := condText_le hmem
  have htext := hname.2.resolve_left (List.ne_nil_of_mem hmem)
  obtain ⟨hkey, hvalue⟩ := h.conds cond hmem
  exact ⟨zero_notMem_of_free hkey, by omega, zero_notMem_of_free hvalue, by omega⟩

lemma readable_fits {attr : Option (List UInt8)} {segs : List Segment}
    (hsegs : ∀ seg ∈ segs, seg.Proper) (hattr : ∀ name, attr = some name →
      (∀ c ∈ name, Free c) ∧ ∃ seg, segs.getLast? = some seg ∧ seg.conds = []) :
    (readable attr segs).Fits := by
  have hempty : Path.Fits ⟨[], none⟩ := ⟨List.forall_mem_nil _, fun name h => by cases h⟩
  induction segs with
  | nil => exact hempty
  | cons seg segs ih =>
    have hseg := hsegs seg List.mem_cons_self
    cases segs with
    | nil =>
      cases attr with
      | none =>
        change Path.Fits (if seg.text.length < MAX_SEGMENT then ⟨[seg.cut], none⟩ else ⟨[], none⟩)
        split_ifs with hlen
        · refine ⟨fun x hx => ?_, fun name h => by cases h⟩
          rw [List.mem_singleton.mp hx]
          exact hseg.cut_fits hlen
        · exact hempty
      | some name =>
        obtain ⟨hname, seg', hlast, hconds⟩ := hattr name rfl
        cases hlast
        change Path.Fits (if (seg.text ++ colon :: name).length < MAX_SEGMENT then
          ⟨[seg.cut], some name⟩ else ⟨[], none⟩)
        split_ifs with hlen
        · rw [List.length_append, List.length_cons] at hlen
          refine ⟨fun x hx => ?_, fun name' h => ?_⟩
          · rw [List.mem_singleton.mp hx]
            exact hseg.cut_fits (by omega)
          · cases h
            unfold MAX_SEGMENT at hlen
            refine ⟨⟨zero_notMem_of_free hname, by omega⟩, [], seg.cut, rfl, ?_⟩
            have hnil : seg.conds = [] := hconds
            rw [Segment.cut, hnil]
            rfl
        · exact hempty
    | cons seg' segs =>
      have hrest := ih (fun x hx => hsegs x (List.mem_cons_of_mem seg hx)) hattr
      rw [readable_cons]
      split_ifs with hlen
      · refine ⟨List.forall_mem_cons.mpr ⟨hseg.cut_fits hlen, hrest.segments⟩, fun name h => ?_⟩
        obtain ⟨hname, init, last, heq, hconds⟩ := hrest.attr name h
        exact ⟨hname, seg.cut :: init, last, by rw [heq]; rfl, hconds⟩
      · exact hrest

lemma Path.Proper.readable_fits {path : Path} (h : path.Proper) : path.readable.Fits :=
  BxmlPath.readable_fits h.segments h.attr

/-! ## Giving a string to the node at a path -/

section Write
variable (stray : List UInt8 → List UInt8 → Bool)

/-- The node that a path leads to from the node `r`. -/
def arriveIn (s : State) (F : Shape) (r : ℕ) (path : Path) : Option ℕ :=
  (resolveIn stray s F r path.segments).bind fun z =>
    match path.attr with
    | none => some z
    | some name => attrOf s F z name

variable {s s' : State} {F F' : Shape} {r : ℕ} {path : Path} {str : List UInt8}

lemma resolveIn_append (a : ℕ) (segs : List Segment) (last : Segment) :
    resolveIn stray s F a (segs ++ [last]) =
      (resolveIn stray s F a segs).bind fun b => childOf stray s F b last.name last.conds := by
  induction segs generalizing a with
  | nil =>
    rw [List.nil_append, resolveIn, resolveIn, Option.bind_some]
    cases childOf stray s F a last.name last.conds <;> rfl
  | cons seg segs ih =>
    rw [List.cons_append, resolveIn, resolveIn, Option.bind_assoc]
    congr 1
    funext b
    exact ih b

lemma resolveIn_live {a z : ℕ} {segs : List Segment} (ha : F.Live a)
    (hz : resolveIn stray s F a segs = some z) : F.Live z := by
  induction segs generalizing a with
  | nil =>
    cases hz
    exact ha
  | cons seg segs ih =>
    obtain ⟨b, hchild, hz⟩ := Option.bind_eq_some_iff.mp hz
    exact ih ⟨_, childOf_mem stray hchild⟩ hz

lemma arriveIn_live (hr : F.Live r) {t : ℕ} (ht : arriveIn stray s F r path = some t) :
    F.Live t := by
  obtain ⟨z, hz, hin⟩ := Option.bind_eq_some_iff.mp ht
  cases hattr : path.attr with
  | none =>
    rw [hattr] at hin
    cases hin
    exact resolveIn_live stray hr hz
  | some name =>
    rw [hattr] at hin
    exact Sound.attrOf_live hin

lemma arriveIn_none (hpath : path.attr = none) :
    arriveIn stray s F r path = resolveIn stray s F r path.segments := by
  rw [arriveIn, hpath]
  exact Option.bind_fun_some _

lemma arriveIn_some {name : List UInt8} (hpath : path.attr = some name) :
    arriveIn stray s F r path =
      (resolveIn stray s F r path.segments).bind fun z => attrOf s F z name := by
  rw [arriveIn, hpath]

lemma Sound.addressed_eq (h : Sound s F) (hroot : s.xml.nodeRoot = some r) (path : Path) :
    addressed stray s path = some (arriveIn stray s F r path) := by
  have hr := h.root_live hroot
  rw [addressed, hroot, arriveIn]
  dsimp only
  rw [h.resolve_eq stray hr, Option.bind_eq_bind, Option.bind_some]
  cases hz : resolveIn stray s F r path.segments with
  | none => rfl
  | some z =>
    cases path.attr with
    | none => rfl
    | some name => exact h.findAttr_eq (resolveIn_live stray hr hz) name

/-- Reading a path. -/
lemma Sound.walkPath_reads (h : Sound s F) (hr : F.Live r) :
    walkPath stray false s r path = some (arriveIn stray s F r path, s) := by
  rw [walkPath, h.walk_reads stray hr, Option.bind_some, arriveIn]
  cases hz : resolveIn stray s F r path.segments with
  | none => exact enterLast_none false path.attr
  | some z =>
    rw [Option.bind_some]
    cases path.attr with
    | none => rfl
    | some name =>
      rw [enterLast, enterAttr, getAttrnode, h.findAttr_eq (resolveIn_live stray hr hz),
        Option.bind_eq_bind, Option.bind_some]
      dsimp only
      cases attrOf s F z name <;> rfl

/-- What a path leads to is not created. -/
lemma Sound.walkPath_finds (h : Sound s F) (hr : F.Live r) {t : ℕ}
    (ht : arriveIn stray s F r path = some t) :
    walkPath stray true s r path = some (some t, s) := by
  obtain ⟨z, hz, ht⟩ := Option.bind_eq_some_iff.mp ht
  rw [walkPath, h.walk_finds stray hr hz, Option.bind_some]
  cases hattr : path.attr with
  | none =>
    rw [hattr] at ht
    cases ht
    rfl
  | some name =>
    rw [hattr] at ht
    exact h.getAttrnode_found (resolveIn_live stray hr hz) ht true

/-- The string was given to the node `t`, and the path leads there again unless conditions of a
segment that was created contradict each other. -/
structure Wrote (s : State) (F : Shape) (r : ℕ) (path : Path) (str : List UInt8) (t : ℕ)
    (s' : State) (F' : Shape) : Prop where
  sound : Sound s' F'
  top : F'.nodes none = F.nodes none
  write : ∃ s₁, walkPath stray true s r path = some (some t, s₁) ∧
    giveString served s₁ t str = some s'
  value : (s'.node t).bind BXML_NODE.value = some (str ++ [0])
  other : ∀ b < s.requests, b ≠ t → labelOf s' b = labelOf s b
  old : arriveIn stray s F r path = some t ∨
    arriveIn stray s F r path = none ∧ s.requests ≤ t
  again : Creates stray s r path.segments → arriveIn stray s' F' r path = some t
  lost : ¬Creates stray s r path.segments → arriveIn stray s' F' r path = none

/-- A string for a node that a path of segments leads to is not seen by searches. -/
lemma agrees_giveString (h : Sound s F) {z d : ℕ} (hz : Depth F z d)
    (hother : ∀ c, c ≠ z → s'.node c = s.node c)
    (hname : ∀ c name, nameMatches s' name c = nameMatches s name c) (k : ℕ) :
    Agrees s F s' F k where
  nodes _ _ _ _ := rfl
  name b _ _ name := hname b name
  value b _ _ _ key _ := by
    refine valueAt_congr rfl (fun c hc => ?_) key
    have hcz : c ≠ z := by
      rintro rfl
      exact hz.notMem_attrs h b hc
    rw [labelOf, labelOf, hother c hcz]

/-- An attribute of the node `z` is not seen by the searches that lead to the parent of `z`. -/
lemma AttrSet.agrees (h : Sound s F) {z d b : ℕ} (hz : Depth F z (d + 1)) {key : List UInt8}
    (hset : AttrSet s F z key str b s' F') : Agrees s F s' F' d := by
  have hkeeps : ∀ i a, a ∈ F.nodes i → a ∈ F'.nodes i := by
    intro i a ha
    by_cases hi : i = some (z, .attribute)
    · rw [hi] at ha ⊢
      rcases hset.attrs with heq | ⟨-, heq⟩
      · rwa [heq]
      · rw [heq]
        exact List.mem_cons_of_mem b ha
    · rwa [hset.nodes i hi]
  refine ⟨fun c e _ _ => hset.nodes _ (by simp), fun c e hc name => ?_, fun c e hc he key' _ => ?_⟩
  · have hcb : c ≠ b := by
      rintro rfl
      exact (hc.mono hkeeps).notMem_attrs hset.evolves.sound z hset.mem
    exact nameMatches_congr (hset.label c hcb) name
  · have hcz : c ≠ z := by
      rintro rfl
      exact absurd (hc.unique h hz) (by omega)
    refine valueAt_congr (hset.nodes _ (by simpa using hcz)) (fun x hx => ?_) key'
    refine hset.label x ?_
    rintro rfl
    have hlist := hkeeps _ _ hx
    have hsame := hset.evolves.sound.family.apart _ _ _ hset.mem hlist
    simp only [Option.some.injEq, Prod.mk.injEq, and_true] at hsame
    exact hcz hsame.symm

/-- Segments of which the last has no conditions lead to where they led. -/
lemma AttrSet.resolveIn_eq (h : Sound s F) {z b : ℕ} {key : List UInt8} (hr : Depth F r 0)
    {segs : List Segment} {last : Segment} (hz : Depth F z (segs.length + 1))
    (hset : AttrSet s F z key str b s' F') (hsegs : ∀ seg ∈ segs, seg.Fits)
    (hlast : last.conds = []) :
    resolveIn stray s' F' r (segs ++ [last]) = resolveIn stray s F r (segs ++ [last]) := by
  have hagrees := hset.agrees h hz
  rw [resolveIn_append, resolveIn_append, hagrees.resolveIn_eq stray hr (by omega) hsegs, hlast]
  cases hy : resolveIn stray s F r segs with
  | none => rfl
  | some y =>
    have hdepth := hr.resolveIn stray hy
    rw [Option.bind_some, Option.bind_some, childOf, childOf, hset.nodes _ (by simp)]
    refine List.find?_congr fun c hc => ?_
    rw [hagrees.name c _ (.child hdepth hc)]
    rfl

lemma Sound.writes_node (h : Sound s F) (hr : Depth F r 0) (hpath : path.Fits)
    (hattr : path.attr = none) (hstr : str.length + 1 < 2 ^ 32) :
    ∃ t s' F', Wrote stray s F r path str t s' F' := by
  obtain ⟨z, s₁, F₁, hw⟩ := h.walks stray hr hpath.segments
  have hsound₁ := hw.keeps.evolves.sound
  obtain ⟨n, hn⟩ := Option.ne_none_iff_exists'.mp (hsound₁.node_ne_none hw.depth.live)
  obtain ⟨s₂, hgive, -, hvalue, hother, hname⟩ := giveString_label hn str hstr
  obtain ⟨s₂', hgive', hevolves, -⟩ := hsound₁.giveString_evolves hw.depth.live str hstr
  cases hgive.symm.trans hgive'
  have hr₁ : Depth F₁ r 0 := hr.mono hw.keeps.keeps
  have hagain : arriveIn stray s₂ F₁ r path = resolveIn stray s₁ F₁ r path.segments := by
    rw [arriveIn_none stray hattr]
    exact (agrees_giveString hsound₁ hw.depth hother hname (0 + path.segments.length)).resolveIn_eq
      stray hr₁ le_rfl hpath.segments
  refine ⟨z, s₂, F₁, hevolves.sound, hw.keeps.top, ⟨s₁, ?_, hgive⟩, hvalue, fun b hb hbz => ?_, ?_,
    fun hc => hagain.trans (hw.again hc), fun hc => hagain.trans (hw.lost hc)⟩
  · rw [walkPath, hw.walk, Option.bind_some, hattr, enterLast]
  · rw [labelOf, hother b hbz, ← labelOf, hw.keeps.label b hb]
  · rw [arriveIn_none stray hattr]
    exact hw.old.imp And.left fun hold => ⟨hold.1, hold.2.1⟩

lemma Sound.writes_attr (h : Sound s F) (hr : Depth F r 0) (hpath : path.Fits) {name : List UInt8}
    (hattr : path.attr = some name) (hstr : str.length + 1 < 2 ^ 32) :
    ∃ t s' F', Wrote stray s F r path str t s' F' := by
  obtain ⟨⟨hname, hlen⟩, segs, last, hsplit, hconds⟩ := hpath.attr name hattr
  obtain ⟨z, s₁, F₁, hw⟩ := h.walks stray hr hpath.segments
  have hsound₁ := hw.keeps.evolves.sound
  have hlive := hw.depth.live
  obtain ⟨b, s₂, s₃, F₃, hget, hgive, hset, hfound⟩ := hsound₁.setAttr hlive hname hlen str hstr
  have hagain : resolveIn stray s₃ F₃ r path.segments = resolveIn stray s₁ F₁ r path.segments := by
    have hz := hw.depth
    have hsegs := hpath.segments
    rw [hsplit] at hz hsegs ⊢
    rw [Nat.zero_add, List.length_append, List.length_singleton] at hz
    exact hset.resolveIn_eq stray hsound₁ (hr.mono hw.keeps.keeps) hz
      (fun x hx => hsegs x (List.mem_append_left _ hx)) hconds
  refine ⟨b, s₃, F₃, hset.evolves.sound, (hset.nodes _ (by simp)).trans hw.keeps.top, ⟨s₂, ?_, hgive⟩,
    hset.value, fun c hc hcb => ?_, ?_, fun hc => ?_, fun hc => ?_⟩
  · rw [walkPath, hw.walk, Option.bind_some, hattr]
    exact hget
  · rw [hset.label c hcb, hw.keeps.label c hc]
  · rw [arriveIn_some stray hattr]
    rcases hw.old with ⟨hz, rfl, rfl⟩ | ⟨hz, -, hattrs⟩
    · rw [hz, Option.bind_some]
      exact hfound.imp And.left fun hnew => ⟨hnew.1, hnew.2.ge⟩
    · rw [hz, Option.bind_none]
      refine .inr ⟨rfl, ?_⟩
      rcases hfound with ⟨hb, -⟩ | ⟨-, hb⟩
      · exact hattrs b (List.mem_of_find?_eq_some hb)
      · rw [hb]
        exact hw.keeps.requests
  · rw [arriveIn_some stray hattr, hagain, hw.again hc, Option.bind_some, hset.attr]
  · rw [arriveIn_some stray hattr, hagain, hw.lost hc, Option.bind_none]

lemma Sound.writes (h : Sound s F) (hr : Depth F r 0) (hpath : path.Fits)
    (hstr : str.length + 1 < 2 ^ 32) : ∃ t s' F', Wrote stray s F r path str t s' F' := by
  cases hattr : path.attr with
  | none => exact h.writes_node stray hr hpath hattr hstr
  | some name => exact h.writes_attr stray hr hpath hattr hstr

end Write

/-! ## Writing and reading -/

section WriteRead
variable (stray : List UInt8 → List UInt8 → Bool)

/-- A string that is written to a path is read back from it, a second string creates no node, and
the values of all nodes that were there, but for the one that the path names, are as before. -/
def WriteReads (s : State) (path : Path) (str : Text) : Prop :=
  ∃ s', bxmlWritestr served stray s path.text str.1 = some s' ∧
    (∃ block, bxmlReadstr served stray s' path.text = some (some block) ∧
      cstring block = some str.1) ∧
    (∀ str' : Text, ∃ s'', bxmlWritestr served stray s' path.text str'.1 = some s'' ∧
      ∀ a, s''.node a ≠ none → s'.node a ≠ none) ∧
    ∀ a n, s.node a = some n → addressed stray s path ≠ some (some a) →
      ∃ n', s'.node a = some n' ∧ n'.value = n.value

variable {s s' : State} {F F' : Shape} {r : ℕ} {path : Path}

lemma Segment.Proper.slash_notMem {seg : Segment} (h : seg.Proper) : slash ∉ seg.text := by
  have hfree {text : List UInt8} (htext : ∀ c ∈ text, Free c) : slash ∉ text :=
    fun hc => (htext _ hc).2.1 rfl
  have hcond (cond : Condition) (hc : cond ∈ seg.conds) : slash ∉ condText cond := by
    rw [condText, List.mem_append, List.mem_cons, not_or, not_or]
    exact ⟨hfree (h.conds cond hc).1, by decide, hfree (h.conds cond hc).2⟩
  have hconds : ∀ conds : List Condition, (∀ c ∈ conds, c ∈ seg.conds) → slash ∉ condsText conds := by
    intro conds hsub
    induction conds with
    | nil => exact List.not_mem_nil
    | cons cond conds ih =>
      obtain ⟨hmem, hsub⟩ := List.forall_mem_cons.mp hsub
      cases conds with
      | nil => exact hcond cond hmem
      | cons cond' conds =>
        rw [condsText_cons, List.mem_append, List.mem_cons, not_or, not_or]
        exact ⟨hcond cond hmem, by decide, ih hsub⟩
  rw [Segment.text]
  split_ifs
  · exact hfree h.name
  · rw [List.mem_append, List.mem_cons, not_or, not_or]
    exact ⟨hfree h.name, by decide, hconds seg.conds fun _ hc => hc⟩

lemma slash_notMem_texts {attr : Option (List UInt8)} {segs : List Segment}
    (hsegs : ∀ seg ∈ segs, seg.Proper) (hattr : ∀ name, attr = some name → ∀ c ∈ name, Free c) :
    ∀ text ∈ segmentTexts attr segs, slash ∉ text := by
  induction segs with
  | nil => exact List.forall_mem_nil _
  | cons seg segs ih =>
    have hseg := (hsegs seg List.mem_cons_self).slash_notMem
    cases segs with
    | nil =>
      intro text htext
      cases attr with
      | none =>
        rw [List.mem_singleton.mp htext]
        exact hseg
      | some name =>
        rw [List.mem_singleton.mp htext, List.mem_append, List.mem_cons, not_or, not_or]
        exact ⟨hseg, by decide, fun hc => (hattr name rfl _ hc).2.1 rfl⟩
    | cons seg' segs =>
      rw [segmentTexts_cons, List.forall_mem_cons]
      exact ⟨hseg, ih fun x hx => hsegs x (List.mem_cons_of_mem seg hx)⟩

/-- `parse_path` walks from the root over what is readable of a path. -/
lemma Path.Proper.parsePath_eq (h : path.Proper) (hroot : s.xml.nodeRoot = some r) (create : Bool) :
    parsePath served stray s path.text create = walkPath stray create s r path.readable := by
  have hslash := slash_notMem_texts h.segments fun name hname => (h.attr name hname).1
  rw [Path.text, parsePath, if_pos rfl, hroot, walk_joinTexts stray create hslash]
  exact walkTexts_segmentTexts stray create h.segments h.attr r

lemma parsePath_empty (hroot : s.xml.nodeRoot = none) (path : Path) (create : Bool) :
    parsePath served stray s path.text create = some (none, s) := by
  rw [Path.text, parsePath, if_pos rfl, hroot, walk_none]

lemma Sound.root_mem (h : Sound s F) (hroot : s.xml.nodeRoot = some r) : r ∈ F.nodes none := by
  rw [← h.root, h.head_eq] at hroot
  exact List.mem_of_head? hroot

lemma not_writeReads_empty (hroot : s.xml.nodeRoot = none) (str : Text) :
    ¬WriteReads stray s path str := by
  rintro ⟨s', hwrite, ⟨block, hread, -⟩, -⟩
  rw [bxmlWritestr, parsePath_empty stray hroot] at hwrite
  cases hwrite
  rw [bxmlReadstr, parsePath_empty stray hroot] at hread
  cases hread

/-- What the two functions make of a path. -/
lemma Path.Proper.write_eq (h : path.Proper) (hroot : s.xml.nodeRoot = some r) {str : List UInt8}
    {t : ℕ} (hw : Wrote stray s F r path.readable str t s' F') :
    bxmlWritestr served stray s path.text str = some s' := by
  obtain ⟨s₁, hwalk, hgive⟩ := hw.write
  rw [bxmlWritestr, h.parsePath_eq stray hroot, hwalk]
  exact hgive

lemma Path.Proper.read_eq (h : path.Proper) (hs : Sound s F) (hroot : s.xml.nodeRoot = some r) :
    bxmlReadstr served stray s path.text =
      some ((arriveIn stray s F r path.readable).bind fun t =>
        (s.node t).bind BXML_NODE.value) := by
  rw [bxmlReadstr, h.parsePath_eq stray hroot, hs.walkPath_reads stray (hs.root_live hroot)]
  cases ht : arriveIn stray s F r path.readable with
  | none => rfl
  | some t =>
    have hlive := arriveIn_live stray (hs.root_live hroot) ht
    obtain ⟨n, hn⟩ := Option.ne_none_iff_exists'.mp (hs.node_ne_none hlive)
    simp only [hn, Option.bind_eq_bind, Option.bind_some]

/-- The condition is enough. -/
lemma writeReads_of (hs : Sound s F) (hpath : path.Proper) (hroot : s.xml.nodeRoot = some r)
    (hcreates : Creates stray s r path.readable.segments)
    (hnamed : ∀ a, addressed stray s path.readable = some (some a) →
      addressed stray s path = some (some a)) {str : Text} (hstr : (0 : UInt8) ∉ str.1) :
    WriteReads stray s path str := by
  have hr : Depth F r 0 := .top (hs.root_mem hroot)
  obtain ⟨t, s', F', hw⟩ := hs.writes stray hr hpath.readable_fits str.2
  have hroot' : s'.xml.nodeRoot = some r := (hs.root_eq hw.sound hw.top).trans hroot
  have hagain := hw.again hcreates
  refine ⟨s', hpath.write_eq stray hroot hw, ⟨str.1 ++ [0], ?_, cstring_append hstr []⟩,
    fun str' => ?_, fun a n hn hne => ?_⟩
  · rw [hpath.read_eq stray hw.sound hroot', hagain, Option.bind_some, hw.value]
  · obtain ⟨n, hn, -⟩ := Option.bind_eq_some_iff.mp hw.value
    obtain ⟨s'', hgive, -, -, hother, -⟩ := giveString_label hn str'.1 str'.2
    refine ⟨s'', ?_, fun a ha => ?_⟩
    · rw [bxmlWritestr, hpath.parsePath_eq stray hroot',
        hw.sound.walkPath_finds stray (hw.sound.root_live hroot') hagain]
      exact hgive
    · by_cases hat : a = t
      · rw [hat, hn]
        exact Option.some_ne_none n
      · rwa [hother a hat] at ha
  · have hlt := hs.alloc a n hn
    have hat : a ≠ t := by
      rintro rfl
      rcases hw.old with ht | ⟨-, hle⟩
      · exact hne (hnamed a ((hs.addressed_eq stray hroot _).trans (congrArg some ht)))
      · omega
    have hlabel := hw.other a hlt hat
    rw [labelOf, labelOf, hn, Option.map_some] at hlabel
    obtain ⟨n', hn', heq⟩ := Option.map_eq_some_iff.mp hlabel
    simp only [Prod.mk.injEq] at heq
    exact ⟨n', hn', heq.2.2.2⟩

/-- A string that is read back was not written below contradicting conditions. -/
lemma creates_of (hs : Sound s F) (hpath : path.Proper) (hroot : s.xml.nodeRoot = some r)
    {str : Text} (h : WriteReads stray s path str) : Creates stray s r path.readable.segments := by
  have hr : Depth F r 0 := .top (hs.root_mem hroot)
  obtain ⟨t, s', F', hw⟩ := hs.writes stray hr hpath.readable_fits str.2
  have hroot' : s'.xml.nodeRoot = some r := (hs.root_eq hw.sound hw.top).trans hroot
  obtain ⟨s₁, hwrite, ⟨block, hread, -⟩, -⟩ := h
  cases (hpath.write_eq stray hroot hw).symm.trans hwrite
  by_contra hno
  rw [hpath.read_eq stray hw.sound hroot', hw.lost hno, Option.bind_none] at hread
  cases hread

/-- The string is the value of the node that the readable part of the path led to. -/
lemma value_of (hs : Sound s F) (hpath : path.Proper) (hroot : s.xml.nodeRoot = some r)
    {str : Text} (h : WriteReads stray s path str) {a : ℕ}
    (ha : addressed stray s path.readable = some (some a))
    (hne : addressed stray s path ≠ some (some a)) :
    (s.node a).bind BXML_NODE.value = some (str.1 ++ [0]) := by
  have hr : Depth F r 0 := .top (hs.root_mem hroot)
  obtain ⟨t, s', F', hw⟩ := hs.writes stray hr hpath.readable_fits str.2
  obtain ⟨s₁, hwrite, -, -, hkeep⟩ := h
  cases (hpath.write_eq stray hroot hw).symm.trans hwrite
  have harrive : arriveIn stray s F r path.readable = some a :=
    Option.some.inj ((hs.addressed_eq stray hroot _).symm.trans ha)
  have hat : a = t := by
    rcases hw.old with ht | ⟨hnone, -⟩
    · exact Option.some.inj (harrive.symm.trans ht)
    · rw [harrive] at hnone
      cases hnone
  have hlive := arriveIn_live stray (hs.root_live hroot) harrive
  obtain ⟨n, hn⟩ := Option.ne_none_iff_exists'.mp (hs.node_ne_none hlive)
  obtain ⟨n', hn', hvalue⟩ := hkeep a n hn hne
  have hnew := hw.value
  rw [← hat, hn', Option.bind_some, hvalue] at hnew
  rw [hn, Option.bind_some, hnew]

/-- Strings are read back, and written to nothing but what the path names, exactly if the document
has a root, the conditions of the readable segments that are created do not contradict each other,
and the node that the readable part of the path leads to, if there is one, is the node that the
whole path names. -/
theorem writeReads_iff (h : IsDocument s) (hpath : path.Proper) :
    (∀ str : Text, (0 : UInt8) ∉ str.1 → WriteReads stray s path str) ↔
      ∃ r, s.xml.nodeRoot = some r ∧ Creates stray s r path.readable.segments ∧
        ∀ a, addressed stray s path.readable = some (some a) →
          addressed stray s path = some (some a) := by
  obtain ⟨F, hs⟩ := h
  constructor
  · intro hall
    cases hroot : s.xml.nodeRoot with
    | none =>
      exact absurd (hall ⟨[], by decide⟩ List.not_mem_nil) (not_writeReads_empty stray hroot _)
    | some r =>
      have hempty := hall ⟨[], by decide⟩ List.not_mem_nil
      refine ⟨r, rfl, creates_of stray hs hpath hroot hempty, fun a ha => ?_⟩
      by_contra hne
      have hone := hall ⟨[1], by decide⟩ (by decide)
      have hvalue := value_of stray hs hpath hroot hempty ha hne
      rw [value_of stray hs hpath hroot hone ha hne] at hvalue
      exact absurd hvalue (by decide)
  · rintro ⟨r, hroot, hcreates, hnamed⟩ str hstr
    exact writeReads_of stray hs hpath hroot hcreates hnamed hstr

end WriteRead

/-- The path `/c`. -/
def pathC : Path := ⟨[⟨[99], []⟩], none⟩

/-- The path `/c?k=1&k=2`. -/
def pathTwice : Path := ⟨[⟨[99], [([107], [49]), ([107], [50])]⟩], none⟩

lemma pathC_proper : pathC.Proper := by
  refine ⟨fun seg hseg => ?_, fun name hname => by cases hname⟩
  rw [List.mem_singleton.mp hseg]
  exact ⟨List.forall_mem_singleton.mpr (by decide), ⟨99, by decide⟩, List.forall_mem_nil _⟩

lemma pathTwice_proper : pathTwice.Proper := by
  have hkey : ∀ c ∈ [(107 : UInt8)], Free c := List.forall_mem_singleton.mpr (by decide)
  have hone : ∀ c ∈ [(49 : UInt8)], Free c := List.forall_mem_singleton.mpr (by decide)
  have htwo : ∀ c ∈ [(50 : UInt8)], Free c := List.forall_mem_singleton.mpr (by decide)
  refine ⟨fun seg hseg => ?_, fun name hname => by cases hname⟩
  rw [List.mem_singleton.mp hseg]
  refine ⟨List.forall_mem_singleton.mpr (by decide), ⟨99, by decide⟩, ?_⟩
  exact List.forall_mem_cons.mpr ⟨⟨hkey, hone⟩, List.forall_mem_singleton.mpr ⟨hkey, htwo⟩⟩

theorem writeReads_iff_c :
    (∀ str : Text, (0 : UInt8) ∉ str.1 → WriteReads (fun _ _ => false) twoElements pathC str) ↔
      ∃ r, twoElements.xml.nodeRoot = some r ∧
        Creates (fun _ _ => false) twoElements r pathC.readable.segments ∧
        ∀ a, addressed (fun _ _ => false) twoElements pathC.readable = some (some a) →
          addressed (fun _ _ => false) twoElements pathC = some (some a) :=
  writeReads_iff (fun _ _ => false) isDocument_twoElements pathC_proper

/-- What is written to `/c?k=1&k=2` is not read back: the new node keeps the second value only. -/
theorem not_writeReads : ¬∀ (stray : List UInt8 → List UInt8 → Bool) (s : State), IsDocument s →
    ∀ path : Path, path.Proper → ∀ str : Text, (0 : UInt8) ∉ str.1 → WriteReads stray s path str := by
  intro h
  obtain ⟨s', hwrite, ⟨block, hread, -⟩, -⟩ := h (fun _ _ => false) twoElements
    isDocument_twoElements pathTwice pathTwice_proper ⟨[120], by decide⟩ (by decide)
  have hnone : (bxmlWritestr served (fun _ _ => false) twoElements pathTwice.text [120]).bind
      (fun s => bxmlReadstr served (fun _ _ => false) s pathTwice.text) = some none := by rfl
  rw [hwrite, Option.bind_some, hread] at hnone
  cases hnone

end Sgos.BxmlPath
