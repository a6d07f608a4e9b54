import Mathlib.Order.Lattice.Nat
import Fixos.Arch.Context
import Fixos.Sys.AreaRanges
import Fixos.Sys.MapArea
import Fixos.Loader.Symbols

/-! # Loading a program (`loader/elfloader/loader.c`)

`elfloader_load_all` gives up at the first program header that it cannot read or map. It loads the libraries that the
file names, which may name others; their results are dropped.
-/

namespace Fixos.Loader

open Arch Fs Sys Word Loop Option Function List

def archUnewprocDefaultSr : Word32 := 0

/-- The registers that are not set keep what the page holds. -/
def firstContext (frame : Context) (entry : Nat) : Context where
  reg r := if r = 15 then .ofNat 32 archUnewprocDefaultStack else if r = 4 ∨ r = 5 ∨ r = 6 then 0 else frame.reg r
  gbr := frame.gbr
  macl := frame.macl
  mach := frame.mach
  pc := .ofNat 32 entry
  sr := archUnewprocDefaultSr
  pr := frame.pr
  previous := 0

structure LoadState where
  maps : MapState
  initialBrk : Nat
  kernelStack : Ppn
  acnt : Option Context
  taken : List Ppn

/-- What a file holds, and the stack before the names of a header are read to it. -/
structure ElfFile where
  contents : Bytes
  buf : Nat → Bytes

/-- Also the stack before the two symbols are looked up. -/
structure Library extends ElfFile where
  inode : Inode
  stale : Nat → Bytes × Bytes × Bytes

/-- What the loader gets: objects of the pools, a page and what it holds at the place of the context, and the files in
`/mnt/smem/lib`. A pool without an object takes a page, and without a page the kernel stops. -/
structure LoadEnv where
  file : ElfFile
  filep : FileRef
  area : List AreaRef → AreaRef
  area_fresh : ∀ live, area live ∉ live
  object : FileState → FileRef
  object_fresh : ∀ fs, object fs ∉ fs.inUse
  page : Option Ppn
  frame : Context
  library : Bytes → Option Library

def memAreaProt : BitVec 32 := 0b111000

def segmentArgs (filep : FileRef) (offset : Nat) (ph : ElfProgHeader) : MapArgs :=
  ⟨filep, ph.memsz, ph.offset, add offset ph.vaddr, MEM_AREA_PARTIAL ||| memAreaProt, ph.filesz⟩

def relocGot (last : UInt8) : Bytes := [0x52, 0x45, 0x4c, 0x4f, 0x43, 0x5f, 0x47, 0x4f, 0x54, 0x5f, last]

def libraryOffset : Nat := 0x15000000

def Library.relocGot (lib : Library) (h : ElfHeader) (symtab : ElfSectionHeader) (k : Nat) (last : UInt8) : Nat :=
  let memory := lib.stale k
  let found := SymbolLookup.elfSymbolLookup
    ⟨lib.contents, h, symtab, Loader.relocGot last, memory.1, memory.2.1, memory.2.2⟩
  if found.1 = 0 then add libraryOffset found.2.2.value else 0

def relocTurn (relocGotE relocGotB : Nat) : Nat ⊕ Unit := if relocGotB < relocGotE then .inl (add relocGotB 4) else .inr ()

/-- The words are read from and written to pages only, so that it matters no more than that the loop ends. -/
def relocate (lib : Library) (h : ElfHeader) (turns : Nat) : Option Unit :=
  match elfGetSymtab lib.contents h h.shnum 0 with
  | none => some ()
  | some symtab => run (relocTurn (lib.relocGot h symtab 1 0x45)) turns (lib.relocGot h symtab 0 0x42)

section

variable (env : LoadEnv) (loadDynlib : Bytes → MapState → Option MapState) (file : ElfFile) (filep : FileRef)
  (offset turns : Nat)

def elfloaderLoadSegment (ph : ElfProgHeader) (s : MapState) : MapState × Int :=
  if ph.vaddr % pmPageBytes = 0 then vfsMapAreaCall s (segmentArgs filep offset ph) (some (env.area s.live)) else (s, -1)

/-- One turn of the loop over the program headers, with the areas and `cur_brk`. -/
def loadHeader (curph : Nat) (ph : ElfProgHeader) (st : MapState × Nat) : Option ((MapState × Nat) × Int) :=
  if ph.type = elfpTypeLoad then
    let loaded := elfloaderLoadSegment env filep offset ph st.1
    if loaded.2 = 0 then
      some ((loaded.1, if add ph.vaddr ph.memsz > st.2 then add ph.vaddr ph.memsz else st.2), 0)
    else some ((loaded.1, st.2), -1)
  else if ph.type = elfpTypeShlib then
    (run (nameTurn file.contents ph.offset ph.filesz fun name s => s.bind (loadDynlib name)) turns
      ⟨0, file.buf curph, some st.1⟩).join.map fun s => ((s, st.2), 0)
  else some (st, 0)

def loadHeaders (h : ElfHeader) : Nat → Nat → MapState × Nat → Option ((MapState × Nat) × Int)
  | 0, _, st => some (st, 0)
  | left + 1, curph, st =>
    match elfGetProgHeader file.contents h curph with
    | none => some (st, -1)
    | some ph =>
      (loadHeader env loadDynlib file filep offset turns curph ph st).bind fun next =>
        if next.2 = 0 then loadHeaders h left (curph + 1) next.1 else some (next.1, -1)

/-- The header and `cur_brk`, if the result is 0. -/
def elfloaderLoadAll (s : MapState) : Option (MapState × Option (ElfHeader × Nat)) :=
  match elfGetHeader file.contents with
  | none => some (s, none)
  | some h =>
    if checkElfHeader h = 0 then
      (loadHeaders env loadDynlib file filep offset turns h h.phnum 0 (s, 0)).map fun loaded =>
        (loaded.1.1, if loaded.2 = 0 then some (h, loaded.1.2) else none)
    else some (s, none)

end

variable (env : LoadEnv)

/-- The fuel is for the depth of libraries and for the turns of each loop. -/
def elfloaderLoadDynlib : Nat → Bytes → MapState → Option MapState
  | 0, _, _ => none
  | fuel + 1, soname, s =>
    -- a longer name is copied over the end of `absname`
    if soname.length ≤ 25 then
      match env.library soname with
      | none => some s
      | some lib =>
        match vfsOpen s.fs lib.inode O_RDONLY (some (env.object s.fs)) with
        | (fs, none) => some { s with fs }
        | (fs, some filep) =>
          (elfloaderLoadAll env (elfloaderLoadDynlib fuel) lib.toElfFile filep libraryOffset fuel { s with fs }).bind fun
            | (s, none) => some s
            | (s, some (h, _)) => (relocate lib h fuel).map fun _ => s
    else none

/-- `mem_area_make_anon` and `mem_area_insert`, whose result is dropped. -/
def insertUserStack (s : MapState) (object : AreaRef) : MapState :=
  ((s.alloc object userStack).memAreaInsert object).1

/-- The page is never `NULL`: `arch_pm_get_free_page` does not return without one. -/
def elfloaderStart (h : ElfHeader) (s : LoadState) : Option (LoadState × Int) :=
  env.page.map fun page =>
    ({ s with
      maps := insertUserStack s.maps (env.area s.maps.live)
      kernelStack := page
      acnt := some (firstContext env.frame h.entry)
      taken := page :: s.taken }, 0)

def elfloaderLoad (fuel : Nat) (s : LoadState) : Option (LoadState × Int) :=
  (elfloaderLoadAll env (elfloaderLoadDynlib env fuel) env.file env.filep 0 fuel s.maps).bind fun
    | (maps, some (h, curBrk)) => elfloaderStart env h { s with maps, initialBrk := curBrk }
    | (maps, none) => some ({ s with maps }, 0)

def HeadersInPlace (h : ElfHeader) : Prop :=
  ∀ i < h.phnum, h.phoff + i * elfProgHeaderSize < 2 ^ 31 ∧
    h.phoff + i * elfProgHeaderSize + elfProgHeaderSize ≤ env.file.contents.length

instance (h : ElfHeader) : Decidable (HeadersInPlace env h) :=
  inferInstanceAs (Decidable (∀ i < h.phnum, _ ∧ _))

/-- The area of a program header to load. -/
def Segment (h : ElfHeader) (i : Nat) (area : MemArea) : Prop :=
  ∃ ph, elfGetProgHeader env.file.contents h i = some ph ∧ ph.type = elfpTypeLoad ∧
    area = (segmentArgs env.filep 0 ph).area

structure Loaded (h : ElfHeader) (s r : LoadState) : Prop where
  valid : ValidHeader env.file.contents h
  read : HeadersInPlace env h
  mapped : ∀ i < h.phnum, ∀ area, Segment env h i area → area ∈ r.maps.mapped
  stack : ∃ rest, r.maps.mapped = userStack :: rest ∧ rest.count userStack = s.maps.mapped.count userStack ∧
    ∀ area ∈ rest, area.Apart userStack
  context : ∃ page, r.taken = page :: s.taken ∧ r.kernelStack = page ∧
    r.acnt = some (firstContext env.frame h.entry)

/-- With enough fuel the call returns, 0 only for a program that is loaded, and a negative value otherwise. -/
def LoadsRight (s : LoadState) : Prop :=
  ∃ enough, ∀ fuel ≥ enough, ∃ r ret, elfloaderLoad env fuel s = some (r, ret) ∧
    (ret = 0 → ∃ h, Loaded env h s r) ∧ ((¬ ∃ h, Loaded env h s r) → ret < 0)

/-- The header names nothing, or one library, with a zero behind the name. -/
def NamesFit (contents : Bytes) (ph : ElfProgHeader) (P : Bytes → Prop) : Prop :=
  ph.filesz = 0 ∨ ∃ name rest, contents.drop ph.offset = name ++ 0 :: rest ∧ 0 ∉ name ∧ name.length < 29 ∧
    ph.offset + name.length < 2 ^ 31 ∧ (name ≠ [] → P name)

def FileFits (contents : Bytes) (h : ElfHeader) (P : ElfProgHeader → Prop) (R : Bytes → Prop) : Prop :=
  ∀ i < h.phnum, ∀ ph, elfGetProgHeader contents h i = some ph →
    (ph.type = elfpTypeLoad → P ph) ∧ (ph.type = elfpTypeShlib → NamesFit contents ph R)

/-- The end of the table is not so near to the end of the addresses that the pointer steps over it. -/
def Library.Relocates (lib : Library) (h : ElfHeader) : Prop :=
  ∀ symtab, elfGetSymtab lib.contents h h.shnum 0 = some symtab → lib.relocGot h symtab 1 0x45 ≤ 2 ^ 32 - 4

/-- The library is missing, or its areas are of the kind `Q` and so are those of the libraries that it names. -/
def LibraryFits (Q : MemArea → Prop) : Nat → Bytes → Prop
  | 0, _ => False
  | depth + 1, name => name.length ≤ 25 ∧ ∀ lib, env.library name = some lib → ∀ h, ValidHeader lib.contents h →
      lib.Relocates h ∧ FileFits lib.contents h (fun ph => ∀ filep, Q (segmentArgs filep libraryOffset ph).area)
        (LibraryFits Q depth)

def AreasInUse (s : MapState) : Prop := ∀ area ∈ s.memAreas, area ∈ s.live

structure Extends (P : MemArea → Prop) (s t : MapState) : Prop where
  inUse : AreasInUse t
  added : ∃ front, t.mapped = front ++ s.mapped ∧ ∀ area ∈ front, P area
  files : ∀ filep ∈ s.fs.inUse, filep ∈ t.fs.inUse ∧ (t.fs.file filep).op = (s.fs.file filep).op

section

variable {P Q : MemArea → Prop} {s t u : MapState}

lemma Extends.refl (hUse : AreasInUse s) : Extends P s s := ⟨hUse, ⟨[], rfl, forall_mem_nil _⟩, fun _ hIn => ⟨hIn, rfl⟩⟩

lemma Extends.trans (h : Extends P s t) (h' : Extends P t u) : Extends P s u := by
  obtain ⟨_, ⟨front, hMapped, hFront⟩, hFiles⟩ := h
  obtain ⟨hUse, ⟨front', hMapped', hFront'⟩, hFiles'⟩ := h'
  refine ⟨hUse, ⟨front' ++ front, by rw [hMapped', hMapped, append_assoc], ?_⟩, fun filep hIn => ?_⟩
  · intro area hArea
    rcases mem_append.mp hArea with hArea | hArea
    · exact hFront' area hArea
    · exact hFront area hArea
  · obtain ⟨hIn, hOp⟩ := hFiles filep hIn
    obtain ⟨hIn', hOp'⟩ := hFiles' filep hIn
    exact ⟨hIn', hOp'.trans hOp⟩

lemma Extends.mono (h : Extends P s t) (hPQ : ∀ area, P area → Q area) : Extends Q s t := by
  obtain ⟨front, hMapped, hFront⟩ := h.added
  exact ⟨h.inUse, ⟨front, hMapped, fun area hArea => hPQ area (hFront area hArea)⟩, h.files⟩

lemma Extends.mem (h : Extends P s t) {area : MemArea} (hArea : area ∈ s.mapped) : area ∈ t.mapped := by
  obtain ⟨front, hMapped, _⟩ := h.added
  rw [hMapped]
  exact mem_append_right front hArea

end

section

variable {env} {filep : FileRef} {offset : Nat} {ph : ElfProgHeader} {s : MapState}

structure Maps (filep : FileRef) (offset : Nat) (ph : ElfProgHeader) (s : MapState) : Prop where
  aligned : ph.vaddr % pmPageBytes = 0
  mappable : (s.fs.file filep).op = .smemfs
  free : memAreaCheckRange s.mapped (segmentArgs filep offset ph).area = false

lemma countUp_keeps (fs : FileState) (filep : FileRef) : ∀ other ∈ fs.inUse,
    other ∈ (countUp fs filep).inUse ∧ ((countUp fs filep).file other).op = (fs.file other).op := by
  refine fun other hIn => ⟨hIn, ?_⟩
  rcases eq_or_ne other filep with rfl | hNe
  · simp [countUp, FileState.setFile]
  · simp [countUp, FileState.setFile, hNe]

lemma AreasInUse.gives (env : LoadEnv) (hUse : AreasInUse s) : s.Gives (some (env.area s.live)) :=
  ⟨hUse, fun _ hArea => Option.some.inj hArea ▸ env.area_fresh s.live⟩

lemma elfloaderLoadSegment_spec (env) (filep : FileRef) (offset : Nat) (ph : ElfProgHeader) (hUse : AreasInUse s) :
    ∃ t ret, elfloaderLoadSegment env filep offset ph s = (t, ret) ∧
    Extends (fun area => area = (segmentArgs filep offset ph).area) s t ∧ (ret = 0 ↔ Maps filep offset ph s) ∧
    (ret = 0 → (segmentArgs filep offset ph).area ∈ t.mapped) := by
  unfold elfloaderLoadSegment
  split_ifs with hAligned
  · by_cases hOp : (s.fs.file (segmentArgs filep offset ph).filep).op = .smemfs
    · have hGives := hUse.gives env
      rw [vfsMapAreaCall_smemfs hOp hGives]
      split_ifs with hMeets
      · refine ⟨_, -1, rfl, ⟨fun area hArea => mem_cons_of_mem _ (hUse area hArea), ⟨[], hGives.mapped_alloc _,
          forall_mem_nil _⟩, countUp_keeps _ _⟩, iff_of_false (by decide) fun hMaps => ?_,
            fun hZero => absurd hZero (by decide)⟩
        exact Bool.false_ne_true (hMaps.free.symm.trans hMeets)
      · refine ⟨_, 0, rfl, ⟨fun area hArea => ?_, ⟨[_], hGives.mapped_inserted _, fun area hArea => mem_singleton.mp hArea⟩,
          countUp_keeps _ _⟩, iff_of_true rfl ⟨hAligned, hOp, Bool.eq_false_of_not_eq_true hMeets⟩, fun _ => ?_⟩
        · rcases mem_cons.mp hArea with rfl | hOld
          · exact mem_cons_self
          · exact mem_cons_of_mem _ (hUse area hOld)
        · exact mem_of_mem_head? (congrArg head? (hGives.mapped_inserted _))
    · rw [vfsMapAreaCall_other hOp]
      exact ⟨s, -EINVAL, rfl, .refl hUse, iff_of_false (by decide) fun hMaps => hOp hMaps.mappable,
        fun hZero => absurd hZero (by decide)⟩
  · exact ⟨s, -1, rfl, .refl hUse, iff_of_false (by decide) fun hMaps => hAligned hMaps.aligned,
      fun hZero => absurd hZero (by decide)⟩

/-- `VmProc` leaves out the files, but has the same areas. -/
lemma elfloaderLoadSegment_refined {proc : VmProc} (hUse : AreasInUse s) (hAreas : proc.areas.map proc.area = s.mapped)
    (hKeys : ∀ key ∈ proc.areas, key < proc.nextArea) (hOp : (s.fs.file filep).op = .smemfs) (hLt : ph.vaddr < 2 ^ 32) :
    let loaded := Sys.elfloaderLoadSegment proc (segmentArgs filep 0 ph).area
    loaded.2 = (elfloaderLoadSegment env filep 0 ph s).2 ∧
      loaded.1.areas.map loaded.1.area = (elfloaderLoadSegment env filep 0 ph s).1.mapped := by
  have hGives := hUse.gives env
  have hAddress : (segmentArgs filep 0 ph).area.address = ph.vaddr :=
    (congrArg (· % _) (Nat.zero_add _)).trans (Nat.mod_eq_of_lt hLt)
  have hOld : ∀ area, proc.areas.map (update proc.area proc.nextArea area) = s.mapped := fun area =>
    (map_congr_left fun key hKey => proc.allocArea_area_of_lt area (hKeys key hKey)).trans hAreas
  have hMap := proc.mapArea_eq (segmentArgs filep 0 ph).area hKeys
  rw [VmProc.mapArea, hAreas] at hMap
  rw [Sys.elfloaderLoadSegment, elfloaderLoadSegment, hAddress, hMap, vfsMapAreaCall_smemfs hOp hGives]
  split_ifs
  · exact ⟨rfl, (hOld _).trans (hGives.mapped_alloc _).symm⟩
  · exact ⟨rfl, (congrArg₂ cons (update_self _ _ _) (hOld _)).trans (hGives.mapped_inserted _).symm⟩
  · exact ⟨rfl, hAreas⟩

/-- The first turn loads the library, the second finds the zero or the end of the table. -/
lemma run_names {σ : Type} {contents buf name rest : Bytes} {filesz turns : Nat}
    (hDrop : contents.drop offset = name ++ 0 :: rest) (hName : 0 ∉ name) (hLength : name.length < 29)
    (hLow : offset + name.length < 2 ^ 31) (hSize : 0 < filesz) (hTurns : 2 ≤ turns)
    (loadDynlib : Bytes → σ → σ) (dest : σ) :
    run (nameTurn contents offset filesz loadDynlib) turns ⟨0, buf, dest⟩ =
      some (if name = [] then dest else loadDynlib name dest) := by
  obtain ⟨turns, rfl⟩ := Nat.exists_eq_add_of_le' hTurns
  have hRead : readAt contents (offset + 0) 29 = name ++ 0 :: rest.take (28 - name.length) := by
    obtain ⟨k, hk⟩ : ∃ k, 29 - name.length = k + 1 := ⟨28 - name.length, by omega⟩
    have hEq : 28 - name.length = k := by omega
    rw [Nat.add_zero, readAt_low (by omega), hDrop, take_append, take_of_length_le (by omega), hk, take_succ_cons, hEq]
  have hBytes : (name ++ 0 :: rest.take (28 - name.length)).length ≤ 29 := by
    rw [← hRead]
    exact length_take_le _ _
  have hFirst : nameTurn contents offset filesz loadDynlib ⟨0, buf, dest⟩ =
      if 0 < name.length then .inl ⟨(0 + name.length) % 2 ^ 32, readBuf buf (name ++ 0 :: rest.take (28 - name.length)),
        loadDynlib name dest⟩ else .inr dest := by
    rw [nameTurn_read hSize hRead (length_pos_of_mem (mem_append_right _ mem_cons_self)),
      cString_of_zero (fun b hb hEq => hName (hEq ▸ hb)) rfl hBytes]
  rcases eq_or_ne name [] with rfl | hSome
  · exact run_done hFirst _
  · rw [if_pos (length_pos_iff.mpr hSome), Nat.zero_add, Nat.mod_eq_of_lt (by omega)] at hFirst
    rw [run_next hFirst, if_neg hSome]
    refine run_done ?_ turns
    rcases Nat.lt_or_ge name.length filesz with hMore | hDone
    · have hZero : readAt contents (offset + name.length) 29 = 0 :: rest.take 28 := by
        rw [readAt_low hLow, ← drop_drop, hDrop, drop_left, take_succ_cons]
      refine Eq.trans (nameTurn_read hMore hZero (Nat.succ_pos _)) ?_
      rw [cString_of_zero (forall_mem_nil _) (nil_append _).symm (Nat.succ_le_succ (length_take_le _ _))]
      rfl
    · exact nameTurn_done hDone

end

/-- Every library with such a name can be loaded, and adds areas of the kind `Q`. -/
def LoadsAll (loadDynlib : Bytes → MapState → Option MapState) (R : Bytes → Prop) (Q : MemArea → Prop) : Prop :=
  ∀ name, R name → ∀ s, AreasInUse s → ∃ t, loadDynlib name s = some t ∧ Extends Q s t

section

variable {env} {loadDynlib : Bytes → MapState → Option MapState} {file : ElfFile} {filep : FileRef}
  {offset turns : Nat} {R : Bytes → Prop} {Q : MemArea → Prop} {h : ElfHeader} {curph : Nat} {ph : ElfProgHeader}
  {st : MapState × Nat}

lemma names_extends (hLoads : LoadsAll loadDynlib R Q) (hTurns : 2 ≤ turns) (hNames : NamesFit file.contents ph R)
    {s : MapState} (hUse : AreasInUse s) (buf : Bytes) :
    ∃ t, run (nameTurn file.contents ph.offset ph.filesz fun name s => s.bind (loadDynlib name)) turns ⟨0, buf, some s⟩ =
      some (some t) ∧ Extends Q s t := by
  rcases Nat.eq_zero_or_pos ph.filesz with hEmpty | hSize
  · obtain ⟨turns, rfl⟩ := Nat.exists_eq_add_of_le' hTurns
    exact ⟨s, run_done (nameTurn_done hEmpty.le) _, .refl hUse⟩
  · obtain ⟨name, rest, hDrop, hZero, hLength, hLow, hName⟩ := hNames.resolve_left hSize.ne'
    rw [run_names hDrop hZero hLength hLow hSize hTurns]
    split_ifs with hNone
    · exact ⟨s, rfl, .refl hUse⟩
    · obtain ⟨t, hLoad, hExtends⟩ := hLoads name (hName hNone) s hUse
      exact ⟨t, congrArg some hLoad, hExtends⟩

variable (env filep offset curph) (hLoads : LoadsAll loadDynlib R Q) (hTurns : 2 ≤ turns)
include hLoads hTurns

lemma loadHeader_spec (hNames : ph.type = elfpTypeShlib → NamesFit file.contents ph R) (hUse : AreasInUse st.1) :
    ∃ t ret, loadHeader env loadDynlib file filep offset turns curph ph st = some (t, ret) ∧
      Extends (fun area => Q area ∨ ph.type = elfpTypeLoad ∧ area = (segmentArgs filep offset ph).area) st.1 t.1 ∧
      (ret = 0 ↔ (ph.type = elfpTypeLoad → Maps filep offset ph st.1)) ∧
      (ret = 0 → ph.type = elfpTypeLoad → (segmentArgs filep offset ph).area ∈ t.1.mapped) := by
  unfold loadHeader
  by_cases hLoad : ph.type = elfpTypeLoad
  · obtain ⟨s, ret, hEq, hExtends, hZero, hMapped⟩ := elfloaderLoadSegment_spec env filep offset ph hUse
    have hAdds : Extends (fun area => Q area ∨ ph.type = elfpTypeLoad ∧ area = (segmentArgs filep offset ph).area) st.1 s :=
      hExtends.mono fun area hArea => Or.inr ⟨hLoad, hArea⟩
    rw [if_pos hLoad, hEq]
    dsimp only
    by_cases hRet : ret = 0
    · rw [if_pos hRet]
      exact ⟨_, 0, rfl, hAdds, iff_of_true rfl fun _ => hZero.mp hRet, fun _ _ => hMapped hRet⟩
    · rw [if_neg hRet]
      exact ⟨_, -1, rfl, hAdds, iff_of_false (by decide) fun hMaps => hRet (hZero.mpr (hMaps hLoad)),
        fun hZero => absurd hZero (by decide)⟩
  · rw [if_neg hLoad]
    split_ifs with hShlib
    · obtain ⟨t, hRun, hExtends⟩ := names_extends hLoads hTurns (hNames hShlib) hUse (file.buf curph)
      rw [hRun]
      exact ⟨(t, st.2), 0, rfl, hExtends.mono fun _ => Or.inl, iff_of_true rfl fun hType => absurd hType hLoad,
        fun _ hType => absurd hType hLoad⟩
    · exact ⟨st, 0, rfl, .refl hUse, iff_of_true rfl fun hType => absurd hType hLoad, fun _ hType => absurd hType hLoad⟩

variable (st) in
lemma loadHeaders_extends {left : Nat}
    (hFits : FileFits file.contents h (fun ph => Q (segmentArgs filep offset ph).area) R) (hLeft : curph + left ≤ h.phnum)
    (hUse : AreasInUse st.1) : ∃ t ret, loadHeaders env loadDynlib file filep offset turns h left curph st = some (t, ret) ∧
      Extends Q st.1 t.1 := by
  induction left generalizing curph st with
  | zero => exact ⟨st, 0, rfl, .refl hUse⟩
  | succ left ih =>
    rw [loadHeaders]
    cases hGet : elfGetProgHeader file.contents h curph with
    | none => exact ⟨st, -1, rfl, .refl hUse⟩
    | some ph =>
      obtain ⟨hSegment, hNames⟩ := hFits curph (by omega) ph hGet
      obtain ⟨t, ret, hHeader, hExtends, _⟩ := loadHeader_spec env filep offset curph hLoads hTurns hNames hUse
      have hAdds : Extends Q st.1 t.1 := hExtends.mono
        fun area hArea => hArea.elim id fun hLoad => hLoad.2 ▸ hSegment hLoad.1
      dsimp only
      rw [hHeader, bind_some]
      dsimp only
      split_ifs
      · obtain ⟨u, ret, hRest, hMore⟩ := ih (curph + 1) t (by omega) hAdds.inUse
        exact ⟨u, ret, hRest, hAdds.trans hMore⟩
      · exact ⟨t, -1, rfl, hAdds⟩

lemma elfloaderLoadAll_extends {s : MapState} (hUse : AreasInUse s) (hFits : ∀ h, ValidHeader file.contents h →
      FileFits file.contents h (fun ph => Q (segmentArgs filep offset ph).area) R) :
    ∃ t found, elfloaderLoadAll env loadDynlib file filep offset turns s = some (t, found) ∧ Extends Q s t ∧
      ∀ h curBrk, found = some (h, curBrk) → ValidHeader file.contents h := by
  unfold elfloaderLoadAll
  cases hGet : elfGetHeader file.contents with
  | none => exact ⟨s, none, rfl, .refl hUse, nofun⟩
  | some h =>
    dsimp only
    split_ifs with hCheck
    · obtain ⟨t, ret, hDone, hExtends⟩ := loadHeaders_extends env filep offset 0 (s, 0) hLoads hTurns
        (hFits h ⟨hGet, hCheck⟩) (Nat.zero_add _).le hUse
      rw [hDone]
      refine ⟨_, _, rfl, hExtends, fun h' curBrk hFound => ?_⟩
      split at hFound
      · cases hFound
        exact ⟨hGet, hCheck⟩
      · cases hFound
    · exact ⟨s, none, rfl, .refl hUse, nofun⟩

omit hLoads hTurns
variable {env}

lemma relocate_ends {lib : Library} (hEnds : lib.Relocates h) (hFuel : 2 ^ 32 ≤ turns) : relocate lib h turns = some () := by
  unfold relocate
  cases hGet : elfGetSymtab lib.contents h h.shnum 0 with
  | none => rfl
  | some symtab =>
    have hEnd := hEnds symtab hGet
    have hStep : ∀ cur next, True → relocTurn (lib.relocGot h symtab 1 0x45) cur = .inl next →
        True ∧ lib.relocGot h symtab 1 0x45 - next < lib.relocGot h symtab 1 0x45 - cur := by
      intro cur next _ hTurn
      unfold relocTurn at hTurn
      split at hTurn
      · cases hTurn
        rw [add, Nat.mod_eq_of_lt (by omega)]
        exact ⟨trivial, by omega⟩
      · cases hTurn
    obtain ⟨_, hRun⟩ := run_of_measure _ hStep (s := lib.relocGot h symtab 0 0x42) trivial (show _ < turns by omega)
    exact hRun

lemma vfsOpen_keeps {fs fs' : FileState} {inode : Inode} {result : Option FileRef} {object : FileRef}
    (hFresh : object ∉ fs.inUse) (hOpen : vfsOpen fs inode O_RDONLY (some object) = (fs', result)) :
    ∀ other ∈ fs.inUse, other ∈ fs'.inUse ∧ (fs'.file other).op = (fs.file other).op := by
  intro other hIn
  have hNe : other ≠ object := fun hEq => hFresh (hEq ▸ hIn)
  rcases vfsOpen_cases (by rintro _ ⟨⟩; exact hFresh) hOpen with ⟨_, rfl⟩ | ⟨_, file, ⟨⟩, _, rfl⟩ | ⟨_, ⟨⟩, _, hOpened⟩
  · exact ⟨hIn, rfl⟩
  · exact ⟨hIn, by simp [FileState.setFile, hNe]⟩
  · rw [hOpened.rest]
    exact ⟨Finset.mem_insert_of_mem hIn, by simp [hNe]⟩

/-- Induction on the depth: the fuel is enough for the loops of every library and for those that it names. -/
lemma loadsAll_dynlib (depth fuel : Nat) (hFuel : 2 ^ 32 + depth ≤ fuel) :
    LoadsAll (elfloaderLoadDynlib env fuel) (LibraryFits env Q depth) Q := by
  induction depth generalizing fuel with
  | zero => exact fun _ hFits => hFits.elim
  | succ depth ih =>
    intro name hFits s hUse
    obtain ⟨fuel, rfl⟩ : ∃ k, fuel = k + 1 := ⟨fuel - 1, by omega⟩
    obtain ⟨hLength, hFits⟩ := hFits
    rw [elfloaderLoadDynlib, if_pos hLength]
    cases hLibrary : env.library name with
    | none => exact ⟨s, rfl, .refl hUse⟩
    | some lib =>
      dsimp only
      cases hOpen : vfsOpen s.fs lib.inode O_RDONLY (some (env.object s.fs)) with
      | mk fs result =>
        have hOpened : Extends Q s { s with fs } :=
          ⟨hUse, ⟨[], rfl, forall_mem_nil _⟩, vfsOpen_keeps (env.object_fresh s.fs) hOpen⟩
        cases result with
        | none => exact ⟨_, rfl, hOpened⟩
        | some filep =>
          have hFile : ∀ h, ValidHeader lib.contents h → FileFits lib.contents h
              (fun ph => Q (segmentArgs filep libraryOffset ph).area) (LibraryFits env Q depth) := by
            intro h hValid i hi ph hGet
            exact ((hFits lib hLibrary h hValid).2 i hi ph hGet).imp_left fun hSegment hLoad => hSegment hLoad filep
          obtain ⟨t, found, hAll, hExtends, hFound⟩ := elfloaderLoadAll_extends env filep libraryOffset (ih fuel (by omega))
            (show 2 ≤ fuel by omega) hOpened.inUse hFile
          dsimp only
          rw [hAll, bind_some]
          refine ⟨t, ?_, hOpened.trans hExtends⟩
          cases found with
          | none => rfl
          | some found =>
            have hReloc := (hFits lib hLibrary found.1 (hFound found.1 found.2 rfl)).1
            dsimp only
            rw [relocate_ends hReloc (by omega), map_some]

end

variable (h : ElfHeader)

/-- An area of a library that is in the way of no segment and not of the stack. -/
def Clear (area : MemArea) : Prop :=
  area.kind ≠ .anon ∧ area.Apart userStack ∧ ∀ i < h.phnum, ∀ segment, Segment env h i segment → area.meets segment = false

def LibrariesFit : Prop :=
  ∃ depth, FileFits env.file.contents h (fun _ => True) (LibraryFits env (Clear env h) depth)

/-- It begins with a page, the file can be mapped, and neither an area of the process nor an earlier segment is in the
way. -/
structure SegmentFits (s : MapState) (i : Nat) (ph : ElfProgHeader) : Prop where
  aligned : ph.vaddr % pmPageBytes = 0
  mappable : (s.fs.file env.filep).op = .smemfs
  apart : ∀ area, (area ∈ s.mapped ∨ ∃ j < i, Segment env h j area) →
    area.meets (segmentArgs env.filep 0 ph).area = false

def LoadFits (s : LoadState) : Prop :=
  ∃ h, ValidHeader env.file.contents h ∧ HeadersInPlace env h ∧
    (∀ i < h.phnum, ∀ ph, elfGetProgHeader env.file.contents h i = some ph → ph.type = elfpTypeLoad →
      SegmentFits env h s.maps i ph ∧ (segmentArgs env.filep 0 ph).area.Apart userStack) ∧
    (∀ area ∈ s.maps.mapped, area.Apart userStack) ∧ env.page.isSome

/-- What the loop over the program headers has done before the turn `i`. -/
structure Reached (s : MapState) (i : Nat) (t : MapState) : Prop where
  extends_areas : Extends (fun area => Clear env h area ∨ ∃ j < i, Segment env h j area) s t
  mapped : ∀ j < i, ∀ area, Segment env h j area → area ∈ t.mapped

section

variable {env h} {s t : MapState} {i : Nat}

lemma Reached.mem_iff (hReached : Reached env h s i t) {P : MemArea → Prop} (hClear : ∀ area, Clear env h area → P area) :
    (∀ area ∈ t.mapped, P area) ↔ ∀ area, (area ∈ s.mapped ∨ ∃ j < i, Segment env h j area) → P area := by
  constructor
  · rintro hAll area (hOld | ⟨j, hj, hSegment⟩)
    · exact hAll area (hReached.extends_areas.mem hOld)
    · exact hAll area (hReached.mapped j hj area hSegment)
  · intro hAll area hArea
    obtain ⟨front, hMapped, hFront⟩ := hReached.extends_areas.added
    rw [hMapped] at hArea
    rcases mem_append.mp hArea with hArea | hArea
    · exact (hFront area hArea).elim (hClear area) fun hSegment => hAll area (Or.inr hSegment)
    · exact hAll area (Or.inl hArea)

lemma Reached.maps_iff (hReached : Reached env h s i t) (hOpen : env.filep ∈ s.fs.inUse) (hi : i < h.phnum)
    {ph : ElfProgHeader} (hGet : elfGetProgHeader env.file.contents h i = some ph) (hLoad : ph.type = elfpTypeLoad) :
    Maps env.filep 0 ph t ↔ SegmentFits env h s i ph := by
  have hOp := (hReached.extends_areas.files env.filep hOpen).2
  have hFree : memAreaCheckRange t.mapped (segmentArgs env.filep 0 ph).area = false ↔ ∀ area,
      (area ∈ s.mapped ∨ ∃ j < i, Segment env h j area) → area.meets (segmentArgs env.filep 0 ph).area = false := by
    rw [← hReached.mem_iff fun area hClear => hClear.2.2 i hi _ ⟨ph, hGet, hLoad, rfl⟩, memAreaCheckRange]
    simp
  constructor
  · exact fun hMaps => ⟨hMaps.aligned, hOp ▸ hMaps.mappable, hFree.mp hMaps.free⟩
  · exact fun hFits => ⟨hFits.aligned, hOp.trans hFits.mappable, hFree.mpr hFits.apart⟩

lemma Reached.next (hReached : Reached env h s i t) {u : MapState} {ph : ElfProgHeader}
    (hGet : elfGetProgHeader env.file.contents h i = some ph)
    (hExtends : Extends (fun area => Clear env h area ∨ ph.type = elfpTypeLoad ∧
      area = (segmentArgs env.filep 0 ph).area) t u)
    (hMapped : ph.type = elfpTypeLoad → (segmentArgs env.filep 0 ph).area ∈ u.mapped) : Reached env h s (i + 1) u := by
  constructor
  · refine (hReached.extends_areas.mono fun area hArea => ?_).trans (hExtends.mono fun area hArea => ?_)
    · exact hArea.imp_right fun ⟨j, hj, hSegment⟩ => ⟨j, Nat.lt_succ_of_lt hj, hSegment⟩
    · exact hArea.imp_right fun ⟨hLoad, hEq⟩ => ⟨i, Nat.lt_succ_self i, ph, hGet, hLoad, hEq⟩
  · intro j hj area hSegment
    rcases Nat.lt_succ_iff_lt_or_eq.mp hj with hj | rfl
    · exact hExtends.mem (hReached.mapped j hj area hSegment)
    · obtain ⟨_, hGet', hLoad, rfl⟩ := hSegment
      cases hGet.symm.trans hGet'
      exact hMapped hLoad

lemma loadHeaders_reached {loadDynlib : Bytes → MapState → Option MapState} {R : Bytes → Prop}
    {turns left curph : Nat} {st : MapState × Nat} (hLoads : LoadsAll loadDynlib R (Clear env h)) (hTurns : 2 ≤ turns)
    (hFits : FileFits env.file.contents h (fun _ => True) R) (hOpen : env.filep ∈ s.fs.inUse)
    (hReached : Reached env h s curph st.1) (hLeft : curph + left ≤ h.phnum) :
    ∃ t ret, loadHeaders env loadDynlib env.file env.filep 0 turns h left curph st = some (t, ret) ∧
      (ret = 0 ↔ ∀ i, curph ≤ i → i < curph + left → ∃ ph, elfGetProgHeader env.file.contents h i = some ph ∧
        (ph.type = elfpTypeLoad → SegmentFits env h s i ph)) ∧
      (ret = 0 → Reached env h s (curph + left) t.1) := by
  induction left generalizing curph st with
  | zero => exact ⟨st, 0, rfl, iff_of_true rfl fun i hLow hHigh => absurd hHigh (Nat.not_lt.mpr hLow), fun _ => hReached⟩
  | succ left ih =>
    have hError : ¬ (-1 : Int) = 0 := by decide
    rw [loadHeaders]
    cases hGet : elfGetProgHeader env.file.contents h curph with
    | none =>
      refine ⟨st, -1, rfl, iff_of_false hError fun hAll => ?_, fun hZero => absurd hZero hError⟩
      obtain ⟨ph, hSome, _⟩ := hAll curph (Nat.le_refl _) (by omega)
      exact Option.some_ne_none ph (hSome.symm.trans hGet)
    | some ph =>
      obtain ⟨next, ret, hHeader, hExtends, hZero, hMapped⟩ := loadHeader_spec env env.filep 0 curph
        hLoads hTurns (hFits curph (by omega) ph hGet).2 hReached.extends_areas.inUse
      have hHere : ret = 0 ↔ (ph.type = elfpTypeLoad → SegmentFits env h s curph ph) :=
        hZero.trans (forall_congr' fun hLoad => hReached.maps_iff hOpen (by omega) hGet hLoad)
      dsimp only
      rw [hHeader, bind_some]
      dsimp only
      split_ifs with hRet
      · obtain ⟨t, ret', hRest, hAll, hEnd⟩ := ih (hReached.next hGet hExtends (hMapped hRet)) (by omega)
        refine ⟨t, ret', hRest, hAll.trans ⟨fun hLater i hLow hHigh => ?_, fun hEach i hLow hHigh => ?_⟩, ?_⟩
        · rcases Nat.lt_or_eq_of_le hLow with hLow | rfl
          · exact hLater i hLow (by omega)
          · exact ⟨ph, hGet, hHere.mp hRet⟩
        · exact hEach i (by omega) (by omega)
        · rw [show curph + (left + 1) = curph + 1 + left by omega]
          exact hEnd
      · refine ⟨next, -1, rfl, iff_of_false hError fun hAll => ?_, fun hZero => absurd hZero hError⟩
        obtain ⟨_, hGet', hSegment⟩ := hAll curph (Nat.le_refl _) (by omega)
        cases hGet.symm.trans hGet'
        exact hRet (hHere.mpr hSegment)

lemma HeadersInPlace.get (hPlaces : HeadersInPlace env h) (hi : i < h.phnum) :
    ∃ ph, elfGetProgHeader env.file.contents h i = some ph := by
  obtain ⟨hLow, hIn⟩ := hPlaces i hi
  refine ⟨_, if_pos ?_⟩
  rw [readAt_low hLow, length_take, length_drop]
  omega

lemma insertUserStack_mapped {object : AreaRef} (hGives : s.Gives (some object)) : (insertUserStack s object).mapped =
      if memAreaCheckRange s.mapped userStack then s.mapped else userStack :: s.mapped := by
  rw [insertUserStack, hGives.insert_alloc]
  split
  · exact hGives.mapped_alloc userStack
  · exact hGives.mapped_inserted userStack

lemma not_meets_userStack {area : MemArea} (hApart : area.Apart userStack) : area.meets userStack = false := by
  have hEnd : add userStack.address userStack.maxSize = 0x40000000 := by decide
  have hStart : userStack.address = 0x3fff0000 := by decide
  have hSize : userStack.maxSize = 0x10000 := by decide
  rw [MemArea.Apart, hStart, hSize] at hApart
  rw [MemArea.meets, hEnd, hStart, add]
  simp only [Bool.and_eq_false_iff, decide_eq_false_iff_not]
  omega

lemma Reached.count_userStack (hReached : Reached env h s i t) : t.mapped.count userStack = s.mapped.count userStack := by
  obtain ⟨front, hMapped, hFront⟩ := hReached.extends_areas.added
  rw [hMapped, count_append, count_eq_zero_of_not_mem, Nat.zero_add]
  intro hMem
  rcases hFront userStack hMem with hClear | ⟨_, _, _, _, _, hEq⟩
  · exact hClear.1 rfl
  · exact AreaKind.noConfusion (congrArg MemArea.kind hEq)

lemma Reached.userStack_iff (hReached : Reached env h s i t) {object : AreaRef} (hGives : t.Gives (some object)) :
    (∃ rest, (insertUserStack t object).mapped = userStack :: rest ∧ rest.count userStack = s.mapped.count userStack ∧
      ∀ area ∈ rest, area.Apart userStack) ↔ ∀ area ∈ t.mapped, area.Apart userStack := by
  have hCount := hReached.count_userStack
  rw [insertUserStack_mapped hGives]
  constructor
  · rintro ⟨rest, hMapped, _, hApart⟩
    split at hMapped
    · rw [hMapped, count_cons_self] at hCount
      omega
    · cases hMapped
      exact hApart
  · intro hApart
    have hFree : memAreaCheckRange t.mapped userStack = false :=
      any_eq_false.mpr fun area hArea => by simp [not_meets_userStack (hApart area hArea)]
    rw [hFree]
    exact ⟨t.mapped, rfl, hCount, hApart⟩

lemma Reached.loaded_iff {start : LoadState} (hReached : Reached env h start.maps h.phnum t)
    (hValid : ValidHeader env.file.contents h) (curBrk : Nat) (page : Ppn) :
    (∃ h', Loaded env h' start ⟨insertUserStack t (env.area t.live), curBrk, page, some (firstContext env.frame h.entry),
      page :: start.taken⟩) ↔ HeadersInPlace env h ∧ ∀ area ∈ t.mapped, area.Apart userStack := by
  have hGives := hReached.extends_areas.inUse.gives env
  have hUser := hReached.userStack_iff hGives
  constructor
  · rintro ⟨h', hLoaded⟩
    cases hLoaded.valid.1.symm.trans hValid.1
    exact ⟨hLoaded.read, hUser.mp hLoaded.stack⟩
  · rintro ⟨hPlaces, hApart⟩
    refine ⟨h, hValid, hPlaces, fun i hi area hSegment => ?_, hUser.mpr hApart, page, rfl, rfl, rfl⟩
    have hMapped := hReached.mapped i hi area hSegment
    rw [insertUserStack_mapped hGives]
    split
    · exact hMapped
    · exact mem_cons_of_mem userStack hMapped

end

lemma elfloaderLoad_invalid {env : LoadEnv} (hNone : ¬ ∃ h, ValidHeader env.file.contents h) (fuel : Nat) (s : LoadState) :
    elfloaderLoad env fuel s = some (s, 0) := by
  rw [elfloaderLoad, elfloaderLoadAll]
  cases hGet : elfGetHeader env.file.contents with
  | none => rfl
  | some h =>
    dsimp only
    rw [if_neg fun hCheck => hNone ⟨h, hGet, hCheck⟩]
    rfl

lemma elfloaderLoad_valid {env : LoadEnv} {h : ElfHeader} (hValid : ValidHeader env.file.contents h) {fuel : Nat}
    {s : LoadState} {t : MapState × Nat} {ret : Int}
    (hDone : loadHeaders env (elfloaderLoadDynlib env fuel) env.file env.filep 0 fuel h h.phnum 0 (s.maps, 0) = some
      (t, ret)) :
    elfloaderLoad env fuel s = if ret = 0 then elfloaderStart env h { s with maps := t.1, initialBrk := t.2 }
      else some ({ s with maps := t.1 }, 0) := by
  rw [elfloaderLoad, elfloaderLoadAll, hValid.1]
  dsimp only
  rw [if_pos hValid.2, hDone]
  by_cases hRet : ret = 0
  · simp [hRet]
  · simp [hRet]

lemma not_loaded_of_taken {env : LoadEnv} {s r : LoadState} (hTaken : r.taken = s.taken) : ¬ ∃ h, Loaded env h s r := by
  rintro ⟨h, hLoaded⟩
  obtain ⟨page, hPage, _⟩ := hLoaded.context
  exact cons_ne_self page s.taken (hPage.symm.trans hTaken)

def above (used : Finset Nat) : Nat := used.sup id + 1

lemma above_notMem (used : Finset Nat) : above used ∉ used :=
  fun hMem => absurd (Finset.le_sup (f := id) hMem) (Nat.not_succ_le_self _)

def programEnv (vaddr : Nat) : LoadEnv where
  file := ⟨headerBytes vaddr 0 1 ++ progHeaderBytes ⟨elfpTypeLoad, 0, vaddr, 84, 0x1000⟩, fun _ => replicate 30 65⟩
  filep := 3
  area live := above live.toFinset
  area_fresh _ hMem := above_notMem _ (mem_toFinset.mpr hMem)
  object fs := above fs.inUse
  object_fresh fs := above_notMem fs.inUse
  page := some 7
  frame := ⟨fun _ => 9, 0, 0, 0, 0, 0, 0, 5⟩
  library _ := none

def sampleState : LoadState := ⟨oneMapped, 0, 0, none, []⟩

lemma program_header {i : Nat} {ph : ElfProgHeader} (hi : i < 1)
    (hGet : elfGetProgHeader (programEnv 0x500000).file.contents (.ofBytes (headerBytes 0x500000 0 1)) i = some ph) :
    i = 0 ∧ ph = ⟨elfpTypeLoad, 0, 0x500000, 84, 0x1000⟩ := by
  obtain rfl := Nat.lt_one_iff.mp hi
  exact ⟨rfl, Option.some.inj (hGet.symm.trans (by decide +kernel))⟩

end Fixos.Loader
