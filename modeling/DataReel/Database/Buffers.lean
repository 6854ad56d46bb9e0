import DataReel.Database.NavigateRun

/-! # Buffers that are written and read one after another -/

namespace DataReel

/-- A buffer of bytes. -/
abbrev Buffer (n : Nat) := { l : List UInt8 // l.length = n }

namespace Database

variable (d : Database)

def readBytes (position : Int) (n : Nat) : Option (Buffer n) :=
  if n = 0 ∨ position + n ≤ d.fileSize then some ⟨d.file.get position n, Bytes.get_length⟩ else none

/-- Writes buffers one after another. -/
def writeBuffers : Database → Int → List (List UInt8) → Database
  | d, _, [] => d
  | d, position, l :: ls => writeBuffers (d.writeBytes position l) (position + l.length) ls

variable {d} {position : Int} {n : Nat}

theorem writeBuffers_rev (ls : List (List UInt8)) : (d.writeBuffers position ls).rev = d.rev := by
  induction ls generalizing d position with
  | nil => rfl
  | cons l ls ih => exact ih

theorem writeBuffers_fileHeader (ls : List (List UInt8)) :
    (d.writeBuffers position ls).fileHeader = d.fileHeader := by
  induction ls generalizing d position with
  | nil => rfl
  | cons l ls ih => exact ih

theorem writeBuffers_file (ls : List (List UInt8)) :
    (d.writeBuffers position ls).file = d.file.put position ls.flatten := by
  induction ls generalizing d position with
  | nil =>
    funext x
    exact (Bytes.put_outside (by simp only [List.flatten_nil, List.length_nil]; omega)).symm
  | cons l ls ih =>
    rw [writeBuffers, ih, List.flatten_cons, Bytes.put_append]
    rfl

theorem readBytes_eq_some_iff {b : Buffer n} :
    d.readBytes position n = some b ↔
      (n = 0 ∨ position + n ≤ d.fileSize) ∧ d.file.get position n = b.1 := by
  rw [readBytes]
  split
  · rw [Option.some_inj, Subtype.ext_iff]
    exact ⟨fun hSame => ⟨‹_›, hSame⟩, And.right⟩
  · exact iff_of_false (fun hNone => by cases hNone) fun hBoth => absurd hBoth.1 ‹_›

end Database

end DataReel
