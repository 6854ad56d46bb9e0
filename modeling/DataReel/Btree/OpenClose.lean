import DataReel.Btree.Create
import DataReel.Database.OpenClose
import Mathlib.Data.Nat.Basic

/-! # Opening and closing index files

A `gxBtree` object over the engine object that it opens its file with. It reads
its header over the one it has, and checks the key size against that one.
-/

namespace DataReel

namespace BtreeHeader

variable (h : BtreeHeader)

def words : List Nat :=
  [wordOfInt h.nodeOrder, wordOfInt h.keySize, wordOfInt h.nKeys, wordOfInt h.nNodes,
    wordOfInt h.btreeHeight, wordOfInt h.root, wordOfInt h.numTrees]

def ofWords : List Nat → BtreeHeader
  | [order, size, keys, nodes, height, root, trees] =>
    ⟨intOfWord order, intOfWord size, intOfWord keys, intOfWord nodes, intOfWord height,
      intOfWord root, intOfWord trees⟩
  | _ => ⟨0, 0, 0, 0, 0, 0, 1⟩

/-- What `InitBtree` checks of a header that it has read. -/
def usable (expectedKeySize : Int) : Bool :=
  !(h.keySize ≠ expectedKeySize ∨ h.nodeOrder < 2 ∨
    0x1000000 / (if expectedKeySize = 0 then 1 else expectedKeySize) < h.nodeOrder)

theorem words_ofWords {l : List Nat} (hLength : l.length = 7) (hl : ∀ w ∈ l, w < 2 ^ 64) :
    (ofWords l).words = l := by
  match l, hLength with
  | [order, size, keys, nodes, height, root, trees], _ =>
    simp only [List.forall_mem_cons] at hl
    obtain ⟨hOrder, hSize, hKeys, hNodes, hHeight, hRoot, hTrees, -⟩ := hl
    rw [ofWords, words, wordOfInt_intOfWord hOrder, wordOfInt_intOfWord hSize,
      wordOfInt_intOfWord hKeys, wordOfInt_intOfWord hNodes, wordOfInt_intOfWord hHeight,
      wordOfInt_intOfWord hRoot, wordOfInt_intOfWord hTrees]

end BtreeHeader

structure BtreeObject (ι : Type) where
  f : Option (DatabaseObject ι)
  btreeHeader : BtreeHeader
  /-- `btree_header_address` -/
  headerAddress : Nat

/-- The constructor, which leaves the header address unset. -/
def BtreeObject.construct {ι : Type} (order keySize : Int) (unset : Nat) : BtreeObject ι where
  f := none
  btreeHeader := ⟨order, keySize, 0, 0, 0, 0, 1⟩
  headerAddress := unset

/-- A `gxBtree` object with the files. -/
abbrev BtreeSession (ι : Type) := Session (BtreeObject ι) ι

namespace BtreeSession

variable {ι : Type} [DecidableEq ι]

/-- `WriteBtreeHeader` through the engine object. -/
def writeBtreeHeader (o : DatabaseObject ι) (s : BtreeSession ι) : Bool × BtreeSession ι :=
  if o.readyForWriting = false then (true, s)
  else if o.isReady = false then (false, s)
  else (true, { s with disk := (EngineSession.putFile ⟨o, s.disk⟩ fun file =>
    ((o.on file).writeWords s.object.headerAddress s.object.btreeHeader.words).toFile).disk })

/-- `Close`, which the destructor calls as well. -/
def close (s : BtreeSession ι) : Bool × BtreeSession ι :=
  match s.object.f with
  | none => (true, s)
  | some o =>
    let r := writeBtreeHeader o s
    if r.1 = false then r
    else (true, ⟨{ s.object with f := none }, (EngineSession.close ⟨o, r.2.disk⟩).disk⟩)

/-- `InitBtree` of a tree that is on the file. -/
def initBtree (o : DatabaseObject ι) (address : Nat) (file : File) (s : BtreeSession ι) :
    Bool × BtreeSession ι :=
  let h := BtreeHeader.ofWords ((o.on file).readOver address s.object.btreeHeader.words)
  if (file.size : Int) < address + sizeOfBtreeHeader then
    (false, { s with object := ⟨some o, h, address⟩ })
  else if h.usable s.object.btreeHeader.keySize = false then
    (false, { s with object := ⟨some o, h, address⟩ })
  else
    (true, { s with object :=
      ⟨some o, if o.fileHeader.gxdVer = 4000 then { h with numTrees := 1 } else h, address⟩ })

/-- `Open` once the last file is closed. -/
def openClosed (i : ι) (address : Option Nat) (s : BtreeSession ι) : Bool × BtreeSession ι :=
  let r := EngineSession.openFile i ⟨.construct, s.disk⟩
  let o := r.2.object
  let s' : BtreeSession ι := ⟨{ s.object with f := some o }, r.2.disk⟩
  match r.1, r.2.disk i with
  | true, some file => initBtree o (address.getD o.rev.fileHeaderSize) file s'
  | _, _ => (false, s')

/-- `Open` for reading and writing, at a header address or at the first tree of the file. -/
def openFile (i : ι) (address : Option Nat) (s : BtreeSession ι) : Bool × BtreeSession ι :=
  if s.close.1 = false then s.close else openClosed i address s.close.2

end BtreeSession

inductive BtreeObjectCall (ι : Type)
  | close
  | openFile (i : ι) (address : Option Nat)

/-- The file that a call opens. -/
def BtreeObjectCall.target {ι : Type} : BtreeObjectCall ι → Option ι
  | .close => none
  | .openFile i _ => some i

/-- The calls that open and close index files. -/
def btreeObjectCalls {ι : Type} [DecidableEq ι] :
    Machine (BtreeObjectCall ι) Bool (BtreeSession ι) where
  step
    | .close, s => s.close
    | .openFile i address, s => s.openFile i address

namespace File

variable (file : File)

/-- The engine object's database after a successful `Open`. -/
def database : Database where
  file := file.bytes
  fileSize := file.size
  rev := Database.revOfSig file.header.gxdSig
  fileHeader := file.openHeader
  fileStats := if (Database.revOfSig file.header.gxdSig).hasStats then
    FileStatsHeader.ofWords (file.bytes.readWords fileStatsAddress 3) else .init

/-- The file after a successful `Open`, which may move the end of file in its header. -/
def afterOpen : File :=
  if file.header.gxdEof < file.size then file.database.writeFileHdr.toFile else file

def treeHeader (address : Nat) : BtreeHeader :=
  BtreeHeader.ofWords (file.bytes.readWords address 7)

/-- Where `Open` looks for the tree. -/
def treeAddress (address : Option Nat) : Nat :=
  address.getD (Database.revOfSig file.header.gxdSig).fileHeaderSize

/-- `InitBtree` accepts the tree at an address of an open file. -/
def hasTree (address : Nat) (keySize : Int) : Bool :=
  (address + sizeOfBtreeHeader ≤ (file.size : Int)) && (file.treeHeader address).usable keySize

/-- All of the file but the node order of its tree is as it should be. -/
def allButOrder (address : Option Nat) (keySize : Int) : Prop :=
  file.accepted = true ∧ file.size ≤ file.header.gxdEof ∧
    file.treeAddress address + sizeOfBtreeHeader ≤ file.size ∧
    (file.treeHeader (file.treeAddress address)).keySize = keySize

end File

namespace BtreeSession

variable {ι : Type} {s : BtreeSession ι} {i j : ι} {file : File} {a : Nat} {o : DatabaseObject ι}
  {disk : ι → Option File}

/-! ## What `Open` accepts -/

theorem readOver_tree (o : DatabaseObject ι) (h : BtreeHeader)
    (hEnd : (a + sizeOfBtreeHeader : Int) ≤ file.size) :
    BtreeHeader.ofWords ((o.on file).readOver a h.words) = file.treeHeader a := by
  refine congrArg BtreeHeader.ofWords (Database.readOver_eq ?_)
  change (a : Int) + 8 * 7 ≤ file.size
  rw [sizeOfBtreeHeader] at hEnd
  omega

theorem initBtree_short (hEnd : (file.size : Int) < a + sizeOfBtreeHeader) :
    ∃ h : BtreeHeader, initBtree o a file s = (false, { s with object := ⟨some o, h, a⟩ }) := by
  exact ⟨_, if_pos hEnd⟩

theorem initBtree_refused (hEnd : (a + sizeOfBtreeHeader : Int) ≤ file.size)
    (hUsable : (file.treeHeader a).usable s.object.btreeHeader.keySize = false) :
    initBtree o a file s = (false, { s with object := ⟨some o, file.treeHeader a, a⟩ }) := by
  rw [initBtree, if_neg (Int.not_lt.mpr hEnd), readOver_tree _ _ hEnd, if_pos hUsable]

theorem initBtree_usable (hEnd : (a + sizeOfBtreeHeader : Int) ≤ file.size)
    (hUsable : (file.treeHeader a).usable s.object.btreeHeader.keySize = true) :
    initBtree o a file s = (true, { s with object := ⟨some o,
      if o.fileHeader.gxdVer = 4000 then { file.treeHeader a with numTrees := 1 }
      else file.treeHeader a, a⟩ }) := by
  rw [initBtree, if_neg (Int.not_lt.mpr hEnd), readOver_tree _ _ hEnd, if_neg (by simp [hUsable])]

theorem initBtree_answer (o : DatabaseObject ι) (a : Nat) (file : File) (s : BtreeSession ι) :
    (initBtree o a file s).1 = file.hasTree a s.object.btreeHeader.keySize := by
  rw [File.hasTree]
  by_cases hEnd : (a + sizeOfBtreeHeader : Int) ≤ file.size
  · rw [decide_eq_true hEnd, Bool.true_and]
    cases hUsable : (file.treeHeader a).usable s.object.btreeHeader.keySize with
    | false => rw [initBtree_refused hEnd hUsable]
    | true => rw [initBtree_usable hEnd hUsable]
  · obtain ⟨h, hShort⟩ := initBtree_short (o := o) (s := s) (Int.not_le.mp hEnd)
    rw [decide_eq_false hEnd, Bool.false_and, hShort]

variable [DecidableEq ι]

theorem engine_opened (hFile : disk i = some file) (hAccepted : file.accepted = true) :
    EngineSession.openFile i ⟨.construct, disk⟩ =
      (true, ⟨DatabaseObject.reopened .construct i file,
        Function.update disk i (some file.afterOpen)⟩) := by
  rw [File.accepted, Bool.and_eq_true, Bool.not_eq_true'] at hAccepted
  have hClosed : EngineSession.close (⟨.construct, disk⟩ : EngineSession ι) = ⟨.construct, disk⟩ :=
    EngineSession.close_of_not_ready rfl
  have hOn : (DatabaseObject.reopened .construct i file).on file = file.database := by
    simp only [DatabaseObject.on, DatabaseObject.reopened, DatabaseObject.loaded,
      DatabaseObject.opened, DatabaseObject.construct, File.database]
  rw [EngineSession.openFile, hClosed]
  dsimp only
  rw [hFile]
  dsimp only
  rw [EngineSession.openAt_signed hAccepted.1 hAccepted.2, File.afterOpen]
  split
  · have hWritten := EngineSession.writeFileHdr_of_ready (i := i)
      (s := ⟨DatabaseObject.reopened .construct i file, disk⟩) rfl rfl rfl hFile
    rw [hOn] at hWritten
    exact congrArg (Prod.mk true) hWritten
  · rw [← hFile, Function.update_eq_self]

theorem openClosed_refused (address : Option Nat)
    (hRefused : (EngineSession.openFile i ⟨.construct, s.disk⟩).1 = false) :
    openClosed i address s = (false,
      ⟨{ s.object with f := some (EngineSession.openFile i ⟨.construct, s.disk⟩).2.object },
        (EngineSession.openFile i ⟨.construct, s.disk⟩).2.disk⟩) := by
  simp only [openClosed, hRefused]

/-- The session once the engine object has accepted the file. -/
def engineOpened (s : BtreeSession ι) (i : ι) (file : File) : BtreeSession ι :=
  ⟨{ s.object with f := some (.reopened .construct i file) },
    Function.update s.disk i (some file.afterOpen)⟩

theorem openClosed_opened (address : Option Nat) (hFile : s.disk i = some file)
    (hAccepted : file.accepted = true) :
    openClosed i address s =
      initBtree (DatabaseObject.reopened .construct i file) (file.treeAddress address) file.afterOpen
        (s.engineOpened i file) := by
  rw [openClosed, engine_opened hFile hAccepted]
  dsimp only
  rw [Function.update_self]
  rfl

/-- Whether `Open` succeeds on a file with a key size. -/
def opens (address : Option Nat) (keySize : Int) (file : File) : Bool :=
  file.accepted && file.afterOpen.hasTree (file.treeAddress address) keySize

theorem openClosed_answer (i : ι) (address : Option Nat) (s : BtreeSession ι) :
    (openClosed i address s).1 =
      ((s.disk i).map (opens address s.object.btreeHeader.keySize)).getD false := by
  have hClosed : EngineSession.close (⟨.construct, s.disk⟩ : EngineSession ι) =
    ⟨.construct, s.disk⟩ := EngineSession.close_of_not_ready rfl
  have hEngine := EngineSession.openFile_accepted i (⟨.construct, s.disk⟩ : EngineSession ι)
  rw [hClosed] at hEngine
  cases hFile : s.disk i with
  | none =>
    rw [hFile] at hEngine
    rw [openClosed_refused address hEngine]
    rfl
  | some file =>
    rw [hFile] at hEngine
    change _ = opens address s.object.btreeHeader.keySize file
    rw [opens]
    cases hAccepted : file.accepted with
    | false => rw [openClosed_refused address (hEngine.trans hAccepted), Bool.false_and]
    | true =>
      rw [openClosed_opened address hFile hAccepted, initBtree_answer, Bool.true_and]
      rfl

theorem openClosed_congr {s' : BtreeSession ι} {address : Option Nat} (hDisk : s.disk = s'.disk)
    (hKeySize : s.object.btreeHeader.keySize = s'.object.btreeHeader.keySize)
    (hOpens : (openClosed i address s).1 = true) :
    openClosed i address s = openClosed i address s' ∧
      ∃ file, (openClosed i address s).2.object.f =
        some (DatabaseObject.reopened .construct i file) := by
  rw [openClosed_answer] at hOpens
  cases hFile : s.disk i with
  | none => simp [hFile] at hOpens
  | some file =>
    rw [hFile] at hOpens
    change opens address s.object.btreeHeader.keySize file = true at hOpens
    rw [opens, Bool.and_eq_true, File.hasTree, Bool.and_eq_true, decide_eq_true_eq] at hOpens
    obtain ⟨hAccepted, hEnd, hUsable⟩ := hOpens
    have hTree : ∀ t : BtreeSession ι, t.object.btreeHeader.keySize = s.object.btreeHeader.keySize →
        initBtree _ _ file.afterOpen t = _ := fun t ht =>
      initBtree_usable (o := DatabaseObject.reopened .construct i file) hEnd (ht ▸ hUsable)
    rw [openClosed_opened address hFile hAccepted,
      openClosed_opened address (hDisk ▸ hFile) hAccepted, hTree (s.engineOpened i file) rfl,
      hTree (s'.engineOpened i file) hKeySize.symm, engineOpened, engineOpened, hDisk]
    exact ⟨rfl, file, rfl⟩

/-! ## `Close` -/

theorem close_none (hNone : s.object.f = none) : s.close = (true, s) := by
  rw [close, hNone]

theorem writeBtreeHeader_stuck (hReady : o.isReady = false) (hWriting : o.readyForWriting = true) :
    writeBtreeHeader o s = (false, s) := by
  rw [writeBtreeHeader, if_neg (by simp [hWriting]), if_pos hReady]

theorem writeBtreeHeader_ready (hReady : o.isReady = true) (hWriting : o.readyForWriting = true)
    (hFp : o.fp = some i) (hFile : s.disk i = some file) :
    writeBtreeHeader o s = (true, ⟨s.object, Function.update s.disk i (some
      ((o.on file).writeWords s.object.headerAddress s.object.btreeHeader.words).toFile)⟩) := by
  rw [writeBtreeHeader, if_neg (by simp [hWriting]), if_neg (by simp [hReady]),
    EngineSession.putFile_of_fp (s := ⟨o, s.disk⟩) hFp]
  dsimp only
  rw [hFile]
  rfl

theorem close_stuck (hObject : s.object.f = some o) (hReady : o.isReady = false)
    (hWriting : o.readyForWriting = true) : s.close = (false, s) := by
  rw [close, hObject]
  dsimp only
  rw [writeBtreeHeader_stuck hReady hWriting, if_pos rfl]

theorem close_ready (hObject : s.object.f = some o) (hReady : o.isReady = true)
    (hWriting : o.readyForWriting = true) (hFp : o.fp = some i) (hFile : s.disk i = some file) :
    s.close = (true, ⟨{ s.object with f := none }, Function.update s.disk i (some
      (o.on ((o.on file).writeWords s.object.headerAddress
        s.object.btreeHeader.words).toFile).writeFileHdr.toFile)⟩) := by
  rw [close, hObject]
  dsimp only
  rw [writeBtreeHeader_ready hReady hWriting hFp hFile, if_neg (by simp),
    EngineSession.close_of_ready (s := ⟨o, _⟩) hFp hReady hWriting (Function.update_self _ _ _)]
  dsimp only
  rw [Function.update_idem]

theorem close_closed (hClose : s.close.1 = true) :
    s.close = (true, s.close.2) ∧ s.close.2.object = { s.object with f := none } := by
  refine ⟨Prod.ext hClose rfl, ?_⟩
  cases hObject : s.object.f with
  | none =>
    rw [close_none hObject, ← hObject]
  | some o =>
    rw [close, hObject] at hClose ⊢
    dsimp only at hClose ⊢
    split
    · rename_i hWrite
      rw [if_pos hWrite, hWrite] at hClose
      cases hClose
    · rfl

theorem step_of_close (c : BtreeObjectCall ι) (hClose : s.close.1 = true) :
    btreeObjectCalls.step c s = btreeObjectCalls.step c s.close.2 := by
  obtain ⟨hAnswer, hObject⟩ := close_closed hClose
  have hAgain : s.close.2.close = (true, s.close.2) := close_none (hObject ▸ rfl)
  cases c with
  | close =>
    change s.close = s.close.2.close
    rw [hAgain]
    exact hAnswer
  | openFile i address =>
    change s.openFile i address = s.close.2.openFile i address
    rw [openFile, openFile, hAgain, if_neg (by simp [hClose]), if_neg (by simp)]

theorem run_of_close {calls : List (BtreeObjectCall ι)} (hCalls : calls ≠ [])
    (hClose : s.close.1 = true) :
    btreeObjectCalls.run calls s = btreeObjectCalls.run calls s.close.2 := by
  cases calls with
  | nil => exact absurd rfl hCalls
  | cons c calls => rw [Machine.run, Machine.run, step_of_close c hClose]

/-! ## The files that a session leaves alone -/

/-- The object is not open on a file. -/
def Apart (i : ι) (s : BtreeSession ι) : Prop :=
  ∀ o, s.object.f = some o → o.isReady = true → o.fp ≠ some i

omit [DecidableEq ι] in
theorem initBtree_engine (o : DatabaseObject ι) (a : Nat) (file : File) (s : BtreeSession ι) :
    (initBtree o a file s).2.disk = s.disk ∧ (initBtree o a file s).2.object.f = some o := by
  rw [initBtree]
  split
  · exact ⟨rfl, rfl⟩
  · split
    · exact ⟨rfl, rfl⟩
    · exact ⟨rfl, rfl⟩

theorem openClosed_engine (i : ι) (address : Option Nat) (s : BtreeSession ι) :
    (openClosed i address s).2.disk = (EngineSession.openFile i ⟨.construct, s.disk⟩).2.disk ∧
      (openClosed i address s).2.object.f =
        some (EngineSession.openFile i ⟨.construct, s.disk⟩).2.object := by
  rw [openClosed]
  dsimp only
  split
  · exact initBtree_engine _ _ _ _
  · exact ⟨rfl, rfl⟩

theorem close_apart (hApart : s.Apart i) : s.close.2.disk i = s.disk i ∧ s.close.2.Apart i := by
  cases hObject : s.object.f with
  | none =>
    rw [close_none hObject]
    exact ⟨rfl, hApart⟩
  | some o =>
    have hFp := hApart o hObject
    have hHeader : (writeBtreeHeader o s).2.disk i = s.disk i := by
      rw [writeBtreeHeader]
      split
      · rfl
      · split
        · rfl
        · rename_i hReady
          exact EngineSession.putFile_apart (s := ⟨o, s.disk⟩) (hFp (by simpa using hReady))
    have hObject' : (writeBtreeHeader o s).2.object = s.object := by
      rw [writeBtreeHeader]
      split
      · rfl
      · split
        · rfl
        · rfl
    rw [close, hObject]
    dsimp only
    split
    · refine ⟨hHeader, fun o' ho' => hApart o' (hObject' ▸ ho')⟩
    · exact ⟨(EngineSession.close_apart (s := ⟨o, (writeBtreeHeader o s).2.disk⟩) hFp).trans hHeader,
        fun o ho => absurd ho.symm (Option.some_ne_none o)⟩

theorem openClosed_apart (address : Option Nat) (hNe : j ≠ i) :
    (openClosed j address s).2.disk i = s.disk i ∧ (openClosed j address s).2.Apart i := by
  obtain ⟨hDisk, hObject⟩ := openClosed_engine j address s
  obtain ⟨hSame, hApart⟩ :=
    EngineSession.openFile_apart (s := ⟨.construct, s.disk⟩) (i := i) (j := j) nofun hNe
  refine ⟨hDisk ▸ hSame, fun o ho hReady => ?_⟩
  rw [hObject, Option.some.injEq] at ho
  rw [← ho] at hReady ⊢
  exact hApart hReady

theorem step_apart {c : BtreeObjectCall ι} (hApart : s.Apart i) (hTarget : c.target ≠ some i) :
    (btreeObjectCalls.step c s).2.disk i = s.disk i ∧ (btreeObjectCalls.step c s).2.Apart i := by
  cases c with
  | close => exact close_apart hApart
  | openFile j address =>
    change (s.openFile j address).2.disk i = _ ∧ (s.openFile j address).2.Apart i
    rw [openFile]
    split
    · exact close_apart hApart
    · obtain ⟨hSame, hApart'⟩ := openClosed_apart (s := s.close.2) address
        fun h : j = i => hTarget (congrArg some h)
      exact ⟨hSame.trans (close_apart hApart).1, hApart'⟩

theorem run_apart {calls : List (BtreeObjectCall ι)} (hApart : s.Apart i)
    (hCalls : ∀ c ∈ calls, c.target ≠ some i) :
    (btreeObjectCalls.run calls s).2.disk i = s.disk i := by
  refine (Machine.run_invariant (M := btreeObjectCalls) (P := fun c _ => c.target ≠ some i)
    (I := fun t => t.disk i = s.disk i ∧ t.Apart i) ?_ ⟨rfl, hApart⟩
    (Machine.along_of_forall hCalls s)).1
  rintro c t ⟨hSame, hApart⟩ hTarget
  obtain ⟨hStep, hApart'⟩ := step_apart hApart hTarget
  exact ⟨hStep.trans hSame, hApart'⟩

/-! ## Objects that have been used before -/

/-- Both objects can be closed, which leaves the same files and key size. -/
structure ClosesAlike (s s' : BtreeSession ι) : Prop where
  left : s.close.1 = true
  right : s'.close.1 = true
  disk : s.close.2.disk = s'.close.2.disk
  keySize : s.close.2.object.btreeHeader.keySize = s'.close.2.object.btreeHeader.keySize

theorem step_openFile (i : ι) (address : Option Nat) (hClose : s.close.1 = true) :
    btreeObjectCalls.step (.openFile i address) s = openClosed i address s.close.2 := by
  change s.openFile i address = _
  rw [openFile, if_neg (by simp [hClose])]

theorem ClosesAlike.openFile {s' : BtreeSession ι} (h : ClosesAlike s s') (i : ι)
    (address : Option Nat) :
    (btreeObjectCalls.step (.openFile i address) s).1 =
      (btreeObjectCalls.step (.openFile i address) s').1 := by
  rw [step_openFile i address h.left, step_openFile i address h.right, openClosed_answer,
    openClosed_answer, h.disk, h.keySize]

theorem ClosesAlike.simulates : (btreeObjectCalls (ι := ι)).Simulates btreeObjectCalls
    (fun c s => (btreeObjectCalls.step c s).1 = true) ClosesAlike := by
  constructor
  · intro c s s' h _
    cases c with
    | close => exact h.left.trans h.right.symm
    | openFile i address => exact h.openFile i address
  · intro c s s' h hSuccess
    cases c with
    | close =>
      change ClosesAlike s.close.2 s'.close.2
      have hAgain : s.close.2.close = (true, s.close.2) := close_none ((close_closed h.left).2 ▸ rfl)
      have hAgain' : s'.close.2.close = (true, s'.close.2) := close_none ((close_closed h.right).2 ▸ rfl)
      constructor
      · rw [hAgain]
      · rw [hAgain']
      · rw [hAgain, hAgain']
        exact h.disk
      · rw [hAgain, hAgain']
        exact h.keySize
    | openFile i address =>
      rw [step_openFile i address h.left] at hSuccess ⊢
      rw [step_openFile i address h.right]
      obtain ⟨hSame, file, hObject⟩ := openClosed_congr h.disk h.keySize hSuccess
      rw [← hSame]
      have hClose : (openClosed i address s.close.2).2.close.1 = true := by
        rw [close, hObject]
        dsimp only
        rw [writeBtreeHeader, if_neg (by nofun), if_neg (by nofun), if_neg (by nofun)]
      exact ⟨hClose, hClose, rfl, rfl⟩

end BtreeSession

/-! ## A file for a key size -/

def File.ofWords (l : List Nat) : File where
  bytes := Bytes.writeWords (fun _ => 0) 0 l
  size := 8 * l.length
  beyond x hx := Bytes.writeWords_outside (by omega)

theorem File.ofWords_append {l l' : List Nat} (hl : ∀ w ∈ l ++ l', w < 2 ^ 64) :
    (File.ofWords (l ++ l')).bytes.readWords 0 l.length = l ∧
      (File.ofWords (l ++ l')).bytes.readWords (8 * l.length) l'.length = l' := by
  have hWhole : (File.ofWords (l ++ l')).bytes.readWords 0 (l ++ l').length = l ++ l' :=
    Bytes.readWords_writeWords_self hl
  rw [List.length_append, Bytes.readWords_add, Int.zero_add] at hWhole
  exact List.append_inj hWhole Bytes.readWords_length

def indexFileHeader : FileHeader where
  gxdFsFptr := 0
  gxdEof := 160
  gxdHsFptr := 160
  gxdHbFptr := 0
  gxdSig := (gxSignature.1, gxSignature.2 + Revision.E.letter * 256)
  gxdVer := gxVersion

/-- An index file of the default revision with a tree of order 2. -/
def indexFile (keySize : Int) : File :=
  File.ofWords (indexFileHeader.words ++
    ([0, 0, 0, 0, 0, 0] ++ BtreeHeader.words ⟨2, keySize, 0, 0, 0, 0, 1⟩))

section IndexFile

variable {k k' : Int}

theorem indexFile_words (k : Int) : (indexFile k).header = indexFileHeader ∧
    (indexFile k).treeHeader 104 = ⟨2, intOfWord (wordOfInt k), 0, 0, 0, 0, 1⟩ := by
  have hWords : ∀ w ∈ indexFileHeader.words ++
      ([0, 0, 0, 0, 0, 0] ++ BtreeHeader.words ⟨2, k, 0, 0, 0, 0, 1⟩), w < 2 ^ 64 := by
    have hHeader : ∀ w ∈ indexFileHeader.words, w < 2 ^ 64 := by decide
    intro w hw
    rw [List.mem_append, List.mem_append] at hw
    rcases hw with hw | hw | hw
    · exact hHeader w hw
    · simp_all
    · simp only [BtreeHeader.words, List.mem_cons, List.not_mem_nil, or_false] at hw
      rcases hw with rfl | rfl | rfl | rfl | rfl | rfl | rfl
      all_goals exact wordOfInt_lt _
  constructor
  · refine (congrArg FileHeader.ofWords (File.ofWords_append hWords).1).trans ?_
    rfl
  · have hSplit := hWords
    rw [← List.append_assoc] at hSplit
    have hTree := (File.ofWords_append hSplit).2
    rw [List.append_assoc] at hTree
    refine (congrArg BtreeHeader.ofWords hTree).trans ?_
    rfl

theorem indexFile_accepted (k : Int) : (indexFile k).accepted = true := by
  have hHeader := (indexFile_words k).1
  have hShort : (indexFile k).shortHeader = false := by
    rw [EngineSession.shortHeader_eq_false]
    refine ⟨?_, fun _ => ?_⟩
    · change sizeOfFileHeader ≤ 160
      decide
    · change fileStatsAddress + sizeOfFileStatsHeader ≤ ((160 : Nat) : Int)
      decide
  rw [File.accepted, hShort, hHeader]
  decide

theorem indexFile_afterOpen (k : Int) : (indexFile k).afterOpen = indexFile k := by
  rw [File.afterOpen, (indexFile_words k).1]
  exact if_neg (show ¬ ((160 : Int) < (160 : Nat)) by decide)

theorem indexFile_treeAddress (k : Int) : (indexFile k).treeAddress none = 104 := by
  rw [File.treeAddress, (indexFile_words k).1]
  decide

theorem indexFile_opens_iff (hPos : 0 < k) (hLe : k ≤ 0x800000) :
    BtreeSession.opens none k' (indexFile k) = true ↔ k' = k := by
  have hKey : intOfWord (wordOfInt k) = k := intOfWord_wordOfInt (by omega) (by omega)
  have hOrder : (2 : Int) ≤ 0x1000000 / k := (Int.le_ediv_iff_mul_le hPos).mpr (by omega)
  have hEnd : decide ((104 : Nat) + sizeOfBtreeHeader ≤ ((indexFile k).size : Int)) = true := by
    change decide ((104 : Nat) + sizeOfBtreeHeader ≤ ((160 : Nat) : Int)) = true
    decide
  rw [BtreeSession.opens, indexFile_accepted, indexFile_afterOpen, indexFile_treeAddress,
    File.hasTree, hEnd, (indexFile_words k).2, BtreeHeader.usable, hKey]
  simp only [Bool.true_and, Bool.not_eq_true', decide_eq_false_iff_not, not_or, Int.not_lt, ne_eq,
    not_not]
  constructor
  · rintro ⟨h, -⟩
    exact h.symm
  · rintro rfl
    refine ⟨rfl, by omega, ?_⟩
    rw [if_neg (by omega)]
    exact hOrder

end IndexFile

namespace BtreeSession

variable {ι : Type} [DecidableEq ι] {s : BtreeSession ι} {i j : ι} {file : File} {o : DatabaseObject ι}
  {k order : Int} {unset : Nat} {address : Option Nat}

/-! ## Files that were refused -/

section Refused

variable [Nontrivial ι]

theorem harmless_opens (hPos : 0 < k) (hLe : k ≤ 0x800000)
    (h : Harmless btreeObjectCalls BtreeObjectCall.target (.construct order k unset) i file s) :
    ∃ j, j ≠ i ∧ ∃ disk : ι → Option File, disk i = some file ∧ disk j = some (indexFile k) ∧
      (btreeObjectCalls.step (.openFile j none) ⟨s.object, disk⟩).1 = true := by
  obtain ⟨j, hj⟩ := exists_ne i
  have hFile : Function.update (fun _ => some (indexFile k)) i (some file) i = some file :=
    Function.update_self ..
  have hOther : Function.update (fun _ => some (indexFile k)) i (some file) j = some (indexFile k) :=
    Function.update_of_ne hj ..
  have hNew := h.asNew _ [] (.openFile j none) hFile trivial rfl
  change [_] = [(openFile j none ⟨.construct order k unset, _⟩).1] at hNew
  have hClose : BtreeSession.close (⟨.construct order k unset,
      Function.update (fun _ => some (indexFile k)) i (some file)⟩ : BtreeSession ι) = _ :=
    close_none rfl
  rw [openFile, hClose, if_neg (by simp), openClosed_answer] at hNew
  dsimp only at hNew
  rw [hOther] at hNew
  refine ⟨j, hj, _, hFile, hOther, (List.singleton_inj.mp hNew).trans ?_⟩
  exact (indexFile_opens_iff hPos hLe).mpr rfl

/-- An object whose engine object rejected the signature cannot be closed any more. -/
theorem stuck_not_harmless (hPos : 0 < k) (hLe : k ≤ 0x800000) (hObject : s.object.f = some o)
    (hReady : o.isReady = false) (hWriting : o.readyForWriting = true) :
    ¬ Harmless btreeObjectCalls BtreeObjectCall.target (.construct order k unset) i file s := by
  intro h
  obtain ⟨j, -, disk, -, -, hOpens⟩ := harmless_opens hPos hLe h
  have hStuck : BtreeSession.close ⟨s.object, disk⟩ = (false, ⟨s.object, disk⟩) :=
    close_stuck hObject hReady hWriting
  change (openFile j none ⟨s.object, disk⟩).1 = true at hOpens
  rw [openFile, hStuck, if_pos rfl] at hOpens
  cases hOpens

/-- An object with another key size than it had opens other files. -/
theorem keySize_of_harmless (hPos : 0 < k) (hLe : k ≤ 0x800000) (hObject : s.object.f = some o)
    (hReady : o.isReady = true) (hWriting : o.readyForWriting = true) (hFp : o.fp = some i)
    (h : Harmless btreeObjectCalls BtreeObjectCall.target (.construct order k unset) i file s) :
    s.object.btreeHeader.keySize = k := by
  obtain ⟨j, hj, disk, hFile, hOther, hOpens⟩ := harmless_opens hPos hLe h
  have hClose := close_ready (s := ⟨s.object, disk⟩) hObject hReady hWriting hFp hFile
  rw [step_openFile j none (congrArg Prod.fst hClose), hClose, openClosed_answer] at hOpens
  dsimp only at hOpens
  rw [Function.update_of_ne hj, hOther] at hOpens
  exact (indexFile_opens_iff hPos hLe).mp hOpens

end Refused

theorem not_harmless_of_longer (hObject : s.object.f = some o) (hReady : o.isReady = true)
    (hWriting : o.readyForWriting = true) (hFp : o.fp = some i) (hFile : s.disk i = some file)
    (hLonger : file.size < (o.on ((o.on file).writeWords s.object.headerAddress
        s.object.btreeHeader.words).toFile).writeFileHdr.toFile.size) :
    ¬ Harmless btreeObjectCalls BtreeObjectCall.target (.construct order k unset) i file s := by
  intro h
  have hSame := h.unchanged [.close] (by simp [BtreeObjectCall.target])
  change s.close.2.disk i = some file at hSame
  rw [close_ready hObject hReady hWriting hFp hFile] at hSame
  dsimp only at hSame
  rw [Function.update_self] at hSame
  rw [Option.some.inj hSame] at hLonger
  exact absurd hLonger (Nat.lt_irrefl _)

theorem close_same (hShort : file.shortHeader = false) (hEof : file.size ≤ file.header.gxdEof)
    {a : Nat} (hEnd : (a + sizeOfBtreeHeader : Int) ≤ file.size)
    (hObject : s.object = ⟨some (.reopened .construct i file), file.treeHeader a, a⟩)
    (hFile : s.disk i = some file) :
    s.close = (true, ⟨{ s.object with f := none }, s.disk⟩) := by
  have hOpened : DatabaseObject.reopened .construct i file =
      (DatabaseObject.opened .construct i).loaded file := by
    rw [DatabaseObject.reopened, File.openHeader, if_neg (by omega)]
    rfl
  have hWords : (file.treeHeader a).words = file.bytes.readWords a 7 :=
    BtreeHeader.words_ofWords Bytes.readWords_length Bytes.readWords_lt
  rw [sizeOfBtreeHeader] at hEnd
  have hHeader := file.rewrite (d := (DatabaseObject.reopened .construct i file).on file)
    (a := a) (n := 7) rfl rfl (by omega)
  have hOpen : s.object.f = some (.reopened .construct i file) := by rw [hObject]
  rw [close_ready (i := i) hOpen rfl rfl rfl hFile, hObject]
  dsimp only
  rw [hWords, File.toFile_eq hHeader.1 hHeader.2, hOpened, EngineSession.writeFileHdr_loaded _ hShort,
    ← hFile, Function.update_eq_self]

/-- An object that leaves its file as it is when it is closed, and has its key size still, is as good
as new. -/
theorem harmless_of_close {t : BtreeObject ι} (hNone : t.f = none)
    (hKeySize : t.btreeHeader.keySize = k) (hFile : s.disk i = some file)
    (hClose : ∀ disk : ι → Option File, disk i = some file →
      BtreeSession.close ⟨s.object, disk⟩ = (true, ⟨t, disk⟩)) :
    Harmless btreeObjectCalls BtreeObjectCall.target (.construct order k unset) i file s := by
  constructor
  · intro calls hCalls
    cases hList : calls with
    | nil => exact hFile
    | cons c cs =>
      rw [← hList, run_of_close (hList ▸ List.cons_ne_nil _ _) (congrArg Prod.fst (hClose _ hFile)),
        hClose _ hFile, run_apart (fun o ho => absurd (ho.symm.trans hNone) (Option.some_ne_none o)) hCalls]
      exact hFile
  · intro disk calls c hDisk hCalls hTarget
    have hUsed := hClose disk hDisk
    have hNew : BtreeSession.close (⟨.construct order k unset, disk⟩ : BtreeSession ι) = _ :=
      close_none rfl
    have hAlike : ClosesAlike (⟨.construct order k unset, disk⟩ : BtreeSession ι) ⟨s.object, disk⟩ := by
      constructor
      · rw [hNew]
      · rw [hUsed]
      · rw [hNew, hUsed]
      · rw [hNew, hUsed]
        exact hKeySize.symm
    refine (ClosesAlike.simulates.run_last hAlike hCalls fun t t' h => ?_).symm
    cases c with
    | close => cases hTarget
    | openFile j address => exact h.openFile j address

theorem close_fails (hClose : s.close.1 = false) :
    s.close = (false, s) ∧ ∃ o, s.object.f = some o ∧ o.isReady = false ∧ o.readyForWriting = true := by
  cases hObject : s.object.f with
  | none =>
    rw [close_none hObject] at hClose
    cases hClose
  | some o =>
    have hWrite : (writeBtreeHeader o s).1 = false := by
      by_contra hWrite
      rw [close, hObject] at hClose
      dsimp only at hClose
      rw [if_neg hWrite] at hClose
      cases hClose
    rw [writeBtreeHeader] at hWrite
    cases hWriting : o.readyForWriting with
    | false => simp [hWriting] at hWrite
    | true =>
      cases hReady : o.isReady with
      | true => simp [hWriting, hReady] at hWrite
      | false => exact ⟨close_stuck hObject hReady hWriting, o, rfl, hReady, hWriting⟩

/-- The end of file that `Open` writes to a file that has less of it in its header. -/
theorem afterOpen_ne (hSize : file.size < 2 ^ 63)
    (hEof : file.header.gxdEof < file.size) : file.afterOpen ≠ file := by
  intro hSame
  have hOpen : file.database.fileHeader = { file.header with gxdEof := file.size } := by
    rw [File.database, File.openHeader, if_pos hEof]
  have hWords : ∀ w ∈ file.database.fileHeader.words, w < 2 ^ 64 := by
    have hOld : file.header.words = file.bytes.readWords 0 7 :=
      FileHeader.words_ofWords Bytes.readWords_length Bytes.readWords_lt
    have hOldLess : ∀ w ∈ file.header.words, w < 2 ^ 64 := fun w hw =>
      Bytes.readWords_lt (m := file.bytes) (a := 0) (n := 7) w (hOld ▸ hw)
    rw [FileHeader.words_lt_iff] at hOldLess
    rw [hOpen, FileHeader.words_lt_iff]
    exact hOldLess
  have hWritten := Database.diskHeader_writeFileHdr hWords
  have hDisk : file.afterOpen.header = file.database.writeFileHdr.diskHeader := by
    rw [File.afterOpen, if_pos hEof]
    refine congrArg FileHeader.ofWords (Bytes.readWords_congr fun x hx hx' => if_pos ⟨hx, ?_⟩)
    have hLarge := (EngineSession.writeFileHdr_size file.database).2.1
    rw [sizeOfFileHeader] at hLarge
    omega
  have hEofWritten : file.afterOpen.header.gxdEof = file.size := by
    rw [hDisk, hWritten, hOpen, FileHeader.words, FileHeader.ofWords]
    exact intOfWord_wordOfInt (i := file.size) (by omega) (by omega)
  rw [hSame] at hEofWritten
  omega

omit [DecidableEq ι] in
theorem le_writeFileHdr (o : DatabaseObject ι) (file : File) :
    file.size ≤ (o.on file).writeFileHdr.toFile.size := by
  obtain ⟨hKept, -⟩ := EngineSession.writeFileHdr_size (o.on file)
  have hKept : (file.size : Int) ≤ (o.on file).writeFileHdr.fileSize := hKept
  have hSize := Database.toFile_fileSize (d := (o.on file).writeFileHdr) (by omega)
  omega

omit [DecidableEq ι] in
theorem lt_writeWords {h : BtreeHeader} {a : Nat} (hEnd : (file.size : Int) < a + sizeOfBtreeHeader) :
    file.size < ((o.on file).writeWords a h.words).toFile.size := by
  have hWritten : ((o.on file).writeWords a h.words).fileSize = max (file.size : Int) (a + 8 * 7) := rfl
  have hSize := Database.toFile_fileSize (d := (o.on file).writeWords a h.words) (by omega)
  rw [sizeOfBtreeHeader] at hEnd
  omega

/-- `Open` refuses a tree that is there with the right key size for its node order alone. -/
theorem refused_harmless [Nontrivial ι] (hFile : s.close.2.disk i = some file)
    (hRefused : (s.openFile i address).1 = false) (hClose : s.close.1 = true)
    (hAll : file.allButOrder address s.object.btreeHeader.keySize) :
    Harmless btreeObjectCalls BtreeObjectCall.target
      (.construct order s.object.btreeHeader.keySize unset) i file (s.openFile i address).2 := by
  obtain ⟨hAccepted, hEof, hEnd, hKeySize⟩ := hAll
  have hKept : s.close.2.object.btreeHeader.keySize = s.object.btreeHeader.keySize := by
    rw [(close_closed hClose).2]
  have hSame : file.afterOpen = file := if_neg (by omega)
  rw [openFile, if_neg (by simp [hClose])] at hRefused ⊢
  rw [openClosed_opened address hFile hAccepted, hSame] at hRefused ⊢
  have hUsable : (file.treeHeader (file.treeAddress address)).usable
      (s.close.2.engineOpened i file).object.btreeHeader.keySize = false := by
    rw [initBtree_answer, File.hasTree, decide_eq_true hEnd, Bool.true_and] at hRefused
    exact hRefused
  have hDisk : (s.close.2.engineOpened i file).disk i = some file := by
    rw [engineOpened, hSame]
    exact Function.update_self ..
  rw [initBtree_refused hEnd hUsable]
  rw [File.accepted, Bool.and_eq_true, Bool.not_eq_true'] at hAccepted
  refine harmless_of_close
    (t := ⟨none, file.treeHeader (file.treeAddress address), file.treeAddress address⟩)
    rfl hKeySize hDisk ?_
  intro disk hi
  exact close_same (s := ⟨⟨_, _, _⟩, disk⟩) hAccepted.1 hEof hEnd rfl hi

theorem allButOrder_of_harmless [Nontrivial ι] (hFile : s.close.2.disk i = some file)
    (hSize : file.size < 2 ^ 63) (hPos : 0 < s.object.btreeHeader.keySize)
    (hLe : s.object.btreeHeader.keySize ≤ 0x800000)
    (hHarmless : Harmless btreeObjectCalls BtreeObjectCall.target
      (.construct order s.object.btreeHeader.keySize unset) i file (s.openFile i address).2) :
    s.close.1 = true ∧ file.allButOrder address s.object.btreeHeader.keySize := by
  cases hClose : s.close.1 with
  | false =>
    obtain ⟨hState, o, hObject, hReady, hWriting⟩ := close_fails hClose
    rw [openFile, if_pos hClose, hState] at hHarmless
    exact absurd hHarmless (stuck_not_harmless hPos hLe hObject hReady hWriting)
  | true =>
    refine ⟨rfl, ?_⟩
    rw [openFile, if_neg (by simp [hClose])] at hHarmless
    have hClosed : EngineSession.close (⟨.construct, s.close.2.disk⟩ : EngineSession ι) =
      ⟨.construct, s.close.2.disk⟩ := EngineSession.close_of_not_ready rfl
    have hEngine : EngineSession.openFile i (⟨.construct, s.close.2.disk⟩ : EngineSession ι) =
        EngineSession.openAt i file ⟨.construct, s.close.2.disk⟩ := by
      rw [EngineSession.openFile, hClosed]
      dsimp only
      rw [hFile]
    cases hShort : file.shortHeader with
    | true =>
      obtain ⟨hAnswer, o, hState, hFp, hReady, hWriting, hLonger⟩ :=
        EngineSession.openAt_short (i := i) (s := ⟨.construct, s.close.2.disk⟩) hShort
      rw [openClosed_refused address (hEngine ▸ hAnswer), hEngine, hState] at hHarmless
      exact absurd hHarmless (not_harmless_of_longer rfl hReady hWriting hFp hFile (hLonger _))
    | false =>
      cases hSigned : file.header.signed with
      | false =>
        have hOpen := EngineSession.openAt_unsigned (i := i) (s := ⟨.construct, s.close.2.disk⟩)
          hShort hSigned
        rw [← hEngine] at hOpen
        rw [openClosed_refused address (by rw [hOpen]), hOpen] at hHarmless
        exact absurd hHarmless (stuck_not_harmless hPos hLe rfl rfl rfl)
      | true =>
        have hAccepted : file.accepted = true := by
          rw [File.accepted, hShort, hSigned]
          rfl
        have hEof : file.size ≤ file.header.gxdEof := by
          by_contra hLess
          have hDisk := hHarmless.unchanged [] (by simp)
          change (openClosed i address s.close.2).2.disk i = some file at hDisk
          rw [(openClosed_engine i address s.close.2).1, engine_opened hFile hAccepted] at hDisk
          dsimp only at hDisk
          rw [Function.update_self] at hDisk
          exact afterOpen_ne hSize (Int.not_le.mp hLess) (Option.some.inj hDisk)
        have hSame : file.afterOpen = file := if_neg (by omega)
        have hDisk : (s.close.2.engineOpened i file).disk i = some file := by
          rw [engineOpened, hSame]
          exact Function.update_self ..
        rw [openClosed_opened address hFile hAccepted, hSame] at hHarmless
        have hEnd : (file.treeAddress address + sizeOfBtreeHeader : Int) ≤ file.size := by
          by_contra hLess
          obtain ⟨h, hState⟩ := initBtree_short (o := .reopened .construct i file)
            (s := s.close.2.engineOpened i file) (Int.not_le.mp hLess)
          rw [hState] at hHarmless
          refine not_harmless_of_longer (s := ⟨⟨_, h, file.treeAddress address⟩, _⟩) rfl rfl rfl rfl
            hDisk ?_ hHarmless
          exact Nat.lt_of_lt_of_le (lt_writeWords (Int.not_le.mp hLess)) (le_writeFileHdr _ _)
        refine ⟨hAccepted, hEof, hEnd, ?_⟩
        cases hUsable : (file.treeHeader (file.treeAddress address)).usable
            s.close.2.object.btreeHeader.keySize with
        | true =>
          rw [BtreeHeader.usable, Bool.not_eq_true', decide_eq_false_iff_not, not_or, not_not,
            (close_closed hClose).2] at hUsable
          exact hUsable.1
        | false =>
          rw [initBtree_refused (s := s.close.2.engineOpened i file) hEnd hUsable] at hHarmless
          exact keySize_of_harmless (s := ⟨⟨some (.reopened .construct i file), file.treeHeader _, _⟩, _⟩)
            hPos hLe rfl rfl rfl rfl hHarmless

end BtreeSession

/-! ## The condition for files that were refused -/

/-- An `Open` that refuses a file does no harm to it and to the object: for the engine unless the
headers of the file are cut short, for a tree if the node order is the only thing wrong. -/
theorem refused_harmless_iff {ι : Type} [DecidableEq ι] [Nontrivial ι] :
    (∀ (i : ι) (file : File) (s : EngineSession ι), s.close.disk i = some file →
      (s.openFile i).1 = false →
        (Harmless objectCalls ObjectCall.target .construct i file (s.openFile i).2 ↔
          file.shortHeader = false)) ∧
    (∀ (i : ι) (address : Option Nat) (file : File) (s : BtreeSession ι) (order : Int) (unset : Nat),
      s.close.2.disk i = some file → (s.openFile i address).1 = false → file.size < 2 ^ 63 →
      0 < s.object.btreeHeader.keySize → s.object.btreeHeader.keySize ≤ 0x800000 →
        (Harmless btreeObjectCalls BtreeObjectCall.target
            (.construct order s.object.btreeHeader.keySize unset) i file (s.openFile i address).2 ↔
          s.close.1 = true ∧ file.allButOrder address s.object.btreeHeader.keySize)) := by
  constructor
  · intro i file s hFile hRefused
    exact EngineSession.refused_harmless_engine_iff hFile hRefused
  · intro i address file s order unset hFile hRefused hSize hPos hLe
    constructor
    · exact BtreeSession.allButOrder_of_harmless hFile hSize hPos hLe
    · rintro ⟨hClose, hAll⟩
      exact BtreeSession.refused_harmless hFile hRefused hClose hAll

def emptyFile : File := File.ofWords []

/-- A file whose tree has a node order that is too small. -/
def lowOrderFile : File :=
  File.ofWords (indexFileHeader.words ++
    ([0, 0, 0, 0, 0, 0] ++ BtreeHeader.words ⟨1, 16, 0, 0, 0, 0, 1⟩))

theorem refused_harmless_iff_files :
    ¬ Harmless objectCalls ObjectCall.target .construct 0 emptyFile
      (EngineSession.openFile (0 : Nat) ⟨.construct, fun _ => some emptyFile⟩).2 ∧
    Harmless btreeObjectCalls BtreeObjectCall.target (.construct 5 16 0) 0 lowOrderFile
      (BtreeSession.openFile (0 : Nat) none ⟨.construct 5 16 0, fun _ => some lowOrderFile⟩).2 := by
  constructor
  · intro h
    have hShort := (refused_harmless_iff.1 0 emptyFile _ rfl (by decide +kernel)).mp h
    exact absurd hShort (by decide +kernel)
  · refine (refused_harmless_iff.2 0 none lowOrderFile ⟨.construct 5 16 0, fun _ => some lowOrderFile⟩
      5 0 rfl (by decide +kernel) (by decide +kernel) (by decide) (by decide)).mpr ⟨rfl, ?_⟩
    exact ⟨by decide +kernel, by decide +kernel, by decide +kernel, by decide +kernel⟩

/-- An empty file that `Open` refuses has 104 bytes once the object is closed. -/
theorem refused_empty_written : emptyFile.size = 0 ∧
    (EngineSession.openFile (0 : Nat) ⟨.construct, fun _ => some emptyFile⟩).1 = false ∧
      ((EngineSession.openFile (0 : Nat) ⟨.construct, fun _ => some emptyFile⟩).2.close.disk 0).map
        File.size = some 104 := by
  decide +kernel

end DataReel
