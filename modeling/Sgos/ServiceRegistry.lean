import Sgos.Ipc

/-!
# The service registry

The table of `apps/servicemanager/main.cpp`, the requests its message loop answers, and the two
lookups of `api/service.c` that read the table in place. Beside them stands what the table is for:
a partial map from ids to services that answers the same requests.
-/
namespace Sgos.ServiceRegistry
open Ipc

def SERVICE_NAME_LENGTH : ℕ := 20
/-- `SM_INFORMATION_SIZE / sizeof(ServiceInformation)`. -/
def SI_MAX : ℕ := 128

def Service_Notify : UInt32 := 1
def Service_Remove : UInt32 := 2
def Service_LookupById : UInt32 := 3
def Service_LookupByName : UInt32 := 4

/-- The twenty bytes of a name, as the five words that carry them in a message. -/
abbrev Name := Vector UInt32 5

def wordBytes (w : UInt32) : List UInt8 :=
  [w.toUInt8, (w >>> 8).toUInt8, (w >>> 16).toUInt8, (w >>> 24).toUInt8]

def nameBytes (name : Name) : List UInt8 := name.toList.flatMap wordBytes

structure ServiceInformation where
  serviceId : UInt32
  eventFlag : UInt32
  threadId : UInt32
  serviceName : Name
  deriving DecidableEq

abbrev Table := ℕ → ServiceInformation

/-! ## Names -/

/-- The comparison of `api/string.c`: the sign of the first difference, up to a zero or `count`. -/
def strncmp : List UInt8 → List UInt8 → ℕ → Int32
  | _, _, 0 => 0
  | cs, ct, count + 1 =>
      if ct.headD 0 ≠ cs.headD 0 then
        if (ct.headD 0).toInt8 < (cs.headD 0).toInt8 then 1 else -1
      else if ct.headD 0 = 0 then 0
      else strncmp cs.tail ct.tail count

/-- The characters before the terminating zero. -/
def cstring (bytes : List UInt8) (count : ℕ) : List UInt8 :=
  (bytes.take count).takeWhile (· ≠ 0)

lemma cstring_succ (bytes : List UInt8) (count : ℕ) :
    cstring bytes (count + 1) =
      if bytes.headD 0 = 0 then [] else bytes.headD 0 :: cstring bytes.tail count := by
  cases bytes with
  | nil => rfl
  | cons b bs => by_cases hb : b = 0 <;> simp [cstring, hb]

theorem strncmp_eq_zero (cs ct : List UInt8) (count : ℕ) :
    strncmp cs ct count = 0 ↔ cstring cs count = cstring ct count := by
  induction count generalizing cs ct with
  | zero => simp [strncmp, cstring]
  | succ count ih =>
    rw [strncmp, cstring_succ, cstring_succ]
    by_cases hne : ct.headD 0 = cs.headD 0
    · rw [if_neg (not_not.mpr hne), ← hne]
      split_ifs with hct
      · simp
      · rw [ih, List.cons.injEq, and_iff_right rfl]
    · have hdiff : strncmp cs ct (count + 1) ≠ 0 := by
        rw [strncmp, if_pos hne]
        split_ifs <;> decide
      rw [strncmp] at hdiff
      refine iff_of_false hdiff ?_
      split_ifs with hcs hct hct
      · exact absurd (hct.trans hcs.symm) hne
      · simp
      · simp
      · exact fun h => hne (List.cons.inj h).1.symm

/-- The name a slot or a message carries. -/
def Name.text (name : Name) : List UInt8 := cstring (nameBytes name) SERVICE_NAME_LENGTH

/-! ## The service manager -/

def lookupById (si : Table) (id : UInt32) : Option ℕ :=
  if id.toNat < SI_MAX ∧ (si id.toNat).serviceId ≠ 0 then some id.toNat else none

def lookupByName (si : Table) (name : Name) : Option ℕ :=
  (List.range SI_MAX).find? fun i =>
    strncmp (nameBytes (si i).serviceName) (nameBytes name) SERVICE_NAME_LENGTH == 0

/-- The free slot that a registration without an id of its own gets. -/
def freeId (si : Table) : Option ℕ :=
  (List.range' 10 (SI_MAX - 10)).find? fun id => (si id).serviceId == 0

def addService (si : Table) (id event tid : UInt32) (name : Name) : Option ℕ × Table :=
  if SI_MAX ≤ id.toNat then (none, si)
  else
    match if id = 0 ∨ (si id.toNat).serviceId ≠ 0 then freeId si else some id.toNat with
    | none => (none, si)
    | some id => (some id, Function.update si id ⟨UInt32.ofNat id, event, tid, name⟩)

def delService (si : Table) (id : UInt32) : Table :=
  if id.toNat < SI_MAX then
    Function.update si id.toNat { si id.toNat with serviceId := 0 }
  else si

/-- `&msg.Arguments[3]` as a name. -/
def nameArgument (arguments : Vector UInt32 10) : Name :=
  #v[arguments[3], arguments[4], arguments[5], arguments[6], arguments[7]]

def setNameArgument (arguments : Vector UInt32 10) (name : Name) : Vector UInt32 10 :=
  ((((arguments.set 3 name[0]).set 4 name[1]).set 5 name[2]).set 6 name[3]).set 7 name[4]

/-- One turn of `ServiceMessageLoop`: the reply to a request, and the table after it. -/
def serviceMessage (si : Table) (msg : Message) : Message × Table :=
  let msg := { msg with code := 0 }
  if msg.command = Service_Notify then
    let r := addService si msg.arguments[0] msg.arguments[1] msg.arguments[2]
      (nameArgument msg.arguments)
    match r.1 with
    | none => ({ msg with code := -ERR_NOMEM }, r.2)
    | some s => ({ msg with code := (r.2 s).serviceId.toInt32 }, r.2)
  else if msg.command = Service_Remove then (msg, delService si msg.arguments[0])
  else if msg.command = Service_LookupById then
    match lookupById si msg.arguments[0] with
    | none => ({ msg with code := -ERR_NONE }, si)
    | some s =>
        ({ msg with
          arguments := setNameArgument
            ((msg.arguments.set 1 (si s).eventFlag).set 2 (si s).threadId) (si s).serviceName },
          si)
  else if msg.command = Service_LookupByName then
    match lookupByName si (nameArgument msg.arguments) with
    | none => ({ msg with code := -ERR_NONE }, si)
    | some s =>
        ({ msg with
          arguments := ((msg.arguments.set 0 (si s).serviceId).set 1 (si s).eventFlag).set 2
            (si s).threadId }, si)
  else (msg, si)

/-- `"ServiceManager"`, with the five bytes `b` and `w` that the copy finds behind the string. -/
def managerName (b : UInt8) (w : UInt32) : Name :=
  #v[0x76726553, 0x4D656369, 0x67616E61, (0x00007265 : UInt32) ||| b.toUInt32 <<< 24, w]

/-- The table when `main` enters the loop: a cleared page, and the manager itself. -/
def main (tid : UInt32) (b : UInt8) (w : UInt32) : Table :=
  (addService (fun _ => ⟨0, 0, 0, #v[0, 0, 0, 0, 0]⟩) 1 0 tid (managerName b w)).2

/-! ## Lookups in the shared page -/

def smGetServiceThreadById (siList : Table) (serviceId : UInt32) : UInt32 :=
  if serviceId.toNat < SI_MAX ∧ (siList serviceId.toNat).serviceId ≠ 0 then
    (siList serviceId.toNat).threadId
  else 0

def smGetServiceThreadByName (siList : Table) (name : Name) : UInt32 :=
  match lookupByName siList name with
  | some i => (siList i).threadId
  | none => 0

/-! ## Services as a partial map -/

structure Service where
  event : UInt32
  thread : UInt32
  name : Name
  deriving DecidableEq

/-- The registered services by their ids. -/
abbrev Registry := ℕ → Option Service

namespace Registry

def free (m : Registry) : Option ℕ := (List.range' 10 (SI_MAX - 10)).find? fun id => (m id).isNone

/-- The id a registration gets: the one it asks for, unless that is 0 or taken. -/
def place (m : Registry) (id : ℕ) : Option ℕ :=
  if SI_MAX ≤ id then none else if id ≠ 0 ∧ m id = none then some id else m.free

/-- The service of the least id that has the name. -/
def findName (m : Registry) (name : Name) : Option ℕ :=
  (List.range SI_MAX).find? fun i => (m i).any fun s => decide (s.name.text = name.text)

/-- The reply to a request, and the services after it. -/
def answer (m : Registry) (msg : Message) : Message × Registry :=
  let args := msg.arguments
  let fail (e : Int32) := { msg with code := -e }
  let done (code : Int32) (args : Vector UInt32 10) := { msg with code := code, arguments := args }
  if msg.command = Service_Notify then
    match m.place args[0].toNat with
    | none => (fail ERR_NOMEM, m)
    | some id =>
        (done (UInt32.ofNat id).toInt32 args,
          Function.update m id (some ⟨args[1], args[2], nameArgument args⟩))
  else if msg.command = Service_Remove then (done 0 args, Function.update m args[0].toNat none)
  else if msg.command = Service_LookupById then
    match m args[0].toNat with
    | none => (fail ERR_NONE, m)
    | some s => (done 0 (setNameArgument ((args.set 1 s.event).set 2 s.thread) s.name), m)
  else if msg.command = Service_LookupByName then
    match m.findName (nameArgument args) with
    | none => (fail ERR_NONE, m)
    | some id =>
        match m id with
        | none => (fail ERR_NONE, m)
        | some s =>
            (done 0 (((args.set 0 (UInt32.ofNat id)).set 1 s.event).set 2 s.thread), m)
  else (done 0 args, m)

/-- The services before the first request. -/
def initial (tid : UInt32) (b : UInt8) (w : UInt32) : Registry := fun i =>
  if i = 1 then some ⟨0, tid, managerName b w⟩ else none

end Registry

end Sgos.ServiceRegistry
