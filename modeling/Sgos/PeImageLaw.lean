import Sgos.PeImage

/-!
# Where the loader stays inside of the images

Nothing that a file says about places and counts is checked. A run stays inside of the images
exactly if each place that a step uses lies in its image, with as many bytes as are read or written
there, and each string that it reads ends there or is left in front of its end.
-/
namespace Sgos.PeImage
open ByteBuffer CString GuardedRun

/-! ## Conditions -/

/-- `size` bytes from a place on are in the image. -/
def Within (image : List UInt8) (place : UInt32) (size : ℕ) : Prop :=
  place.toNat + size ≤ image.length

/-- Two strings differ, or end alike, before one of them leaves its memory. -/
def Decided (cs ct : List UInt8) : Prop :=
  ∃ (n : ℕ) (c d : UInt8), cs[n]? = some c ∧ ct[n]? = some d ∧ (c ≠ d ∨ c = 0)

/-- A path ends, differs from a text or goes on behind it, before it leaves its memory. -/
def Ends (path text : List UInt8) : Prop :=
  ∃ (n : ℕ) (c : UInt8), path[n]? = some c ∧ (c = 0 ∨ ∀ d, text[n]? = some d → tolower c ≠ tolower d)

/-- A path ends in its first `count` bytes, or its memory has as many. -/
def Copied (path : List UInt8) (count : ℕ) : Prop := 0 ∈ path.take count ∨ count ≤ path.length

/-- The comparisons with the paths of some modules, up to the first that is found equal. -/
def Compared (s : State) (path : List UInt8) (mos : List ℕ) : Prop :=
  ∀ pre mo post, mos = pre ++ mo :: post →
    (∀ x ∈ pre, strnicmp path (s.module x).path = some false) → Ends path (s.module mo).path

/-- No module has the path. -/
def Unregistered (s : State) (path : List UInt8) : Prop :=
  ∀ mo ∈ s.moduleList, strnicmp path (s.module mo).path = some false

/-- The name fits into `p`. -/
def Opened (path : List UInt8) : Prop :=
  if path.head? = some slash then Copied path PATH_LEN
  else 0 ∈ path.take (PATH_LEN - SGOS_PATH.length - 1)

/-- What the file has for a section fits into the image. -/
def SectionFits (z : Loading) : Prop :=
  let sechdr := fsReadFile z.file z.pos (UInt32.ofNat SIZEOF_SECHDR)
  let bytes := fsReadFile z.file (field32 sechdr 20) (field32 sechdr 16)
  sechdr.length = SIZEOF_SECHDR → bytes = [] ∨ Within z.image (field32 sechdr 12) bytes.length

/-- The entry of the export table at `i`, if there is one, and what belongs to it if its name is the
one that is searched. -/
def ExportFits (m : PeModule) (c : Search) (x : Exports) (i : UInt32) : Prop :=
  Within m.image (m.header.exportRva + 24) 4 ∧
  ∀ count, load32 m.image (m.header.exportRva + 24) = some count → i < count →
    Within m.image (x.expName + 4 * i) 4 ∧
    ∀ name, load32 m.image (x.expName + 4 * i) = some name →
      Decided (m.image.drop name.toNat) c.procedureName ∧
      (strcmp (m.image.drop name.toNat) c.procedureName = some true →
        Within m.image (x.expOrdinal + 2 * i) 2 ∧
        ∀ ordinal, load 2 m.image (x.expOrdinal + 2 * i) = some ordinal →
          Within m.image (x.expAddress + 4 * UInt32.ofNat ordinal) 4)

/-- The library of an import has been loaded: its places in the import table are used. -/
def DescriptorFits (s : State) (l : Linking) (mo2Id : UInt32) : Prop :=
  let m := s.module l.mo
  getModuleById s mo2Id ≠ none → m.importModules = true →
    Within m.image (l.descriptor m.header) 4 ∧ Within m.image (l.descriptor m.header + 16) 4

/-- What the next part of the calls in progress uses lies in the images. -/
def Fits (s : State) (a : Answer) : Prop :=
  match s.pc with
  | .loading _ path => Compared s path s.moduleList ∧ (Unregistered s path → Opened path)
  | .sections z =>
    match z.left with
    | 0 => Compared s z.path s.moduleList ∧
        (Unregistered s z.path → s.moduleList.length < MAX_MODULE → a.moduleBlock = true →
          Copied z.path (PATH_LEN - 1))
    | _ + 1 => SectionFits z
  | .imports l =>
    let m := s.module l.mo
    m.header.numberOfRvaAndSizes ≠ 0 → Within m.image (l.descriptor m.header + 12) 4
  | .lookups f => Within (s.module f.linking.mo).image f.lookupEntry 4
  | .searching c =>
    let m := s.module c.mo
    0 < m.header.numberOfRvaAndSizes → 0 < m.header.exportSize →
      ∀ offset ∈ [28, 32, 36], Within m.image (m.header.exportRva + offset) 4
  | .comparing c x i => ExportFits (s.module c.mo) c x i
  | .fixing f _ => Within (s.module f.linking.mo).image f.addressEntry 4
  | .loaded result =>
    ∀ l fs, s.frames = .importing l :: fs → DescriptorFits s l result.toUInt32
  | _ => True

/-! ## Memory -/
section Memory
variable {image : List UInt8} {place : UInt32}

end Memory

/-! ## One step -/
section Step
variable {s : State} {a : Answer}

end Step

/-! ## Runs -/

/-- No call of a run reads or writes outside of the images. -/
def StaysInside (s : State) (es : List Event) : Prop :=
  ∀ fs, fs <+: es → (run step (some s) fs).isSome

/-- A file with an image of one page and a section that lies behind it. -/
def farSection : List UInt8 :=
  [0x4D, 0x5A] ++ List.replicate 58 0 ++ littleEndian 4 60 ++
  [0, 0, 1, 0] ++ List.replicate 12 0 ++ [60, 0, 2, 0] ++
  [0x0B, 0x01] ++ List.replicate 54 0 ++ littleEndian 4 4096 ++
  List.replicate 12 0 ++ littleEndian 4 0x2000 ++ littleEndian 4 4 ++ List.replicate 20 0

def zero (_ : ℕ) : UInt8 := 0

/-- All services work. -/
def farAnswer : Answer :=
  ⟨some farSection, zero, zero, zero, true, true, true, true, true, true, 0, 4096⟩

def farLoading : Loading where
  space := 5
  path := [97, 0]
  file := farSection
  header := optionalHeader (fill SIZEOF_OPTHDR ((farSection.drop 84).take 60) zero)
  left := 1
  pos := 144
  image := List.replicate 4096 0

lemma readHeaders_far : readHeaders farAnswer 5 [97, 0] = .ok farLoading := by rfl

end Sgos.PeImage
