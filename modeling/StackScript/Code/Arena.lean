import StackScript.Code.Region

/-!
# The arena

Literal text is copied into chunks of memory that only grow. How large the next chunk is, and
whether the limit allows one, is up to a policy. The policy that runs doubles the size of the chunk
before; under a limit it tries smaller chunks. Sizes are in bytes.
-/

namespace StackScript

/-- How the size of the next chunk is chosen. Compiling relies on one thing only: without a limit
    there always is a next chunk. -/
structure ChunkPolicy where
  /-- The size of the next chunk for a text of `need` bytes, if the limit allows one. So far
      `allocated` bytes were taken, `newest` of them for the newest chunk. -/
  next? : (limit : Option Nat) → (allocated newest need : Nat) → Option Nat
  isSome_next? : ∀ allocated newest need, (next? none allocated newest need).isSome = true

namespace ChunkPolicy

/-- The size of the first chunk of an arena that is not short of memory. -/
def firstChunk : Nat := 448

/-- What a chunk needs beside its text. -/
def overhead : Nat := 64

/-- The unit in which large chunks are taken. -/
def page : Nat := 4096

/-- The next multiple of a unit. -/
def roundUp (n unit : Nat) : Nat :=
  (n + unit - 1) / unit * unit

/-- Chunks fill whole pages, or a power of two if they are smaller than a page. -/
def chunkSize (n : Nat) : Nat :=
  if n < page then (n + overhead).nextPowerOfTwo - overhead
  else roundUp (n + overhead) page - overhead

/-- The limit allows a chunk of this size. -/
def fits (limit : Option Nat) (allocated size : Nat) : Bool :=
  match limit with
  | none => true
  | some limit => size ≤ limit - allocated

/-- The first chunk of an arena with a small limit may be smaller than usual. -/
def mayStartSmall (limit : Option Nat) (allocated need base : Nat) : Bool :=
  match limit with
  | none => false
  | some limit => need < limit && need ≤ base && limit < firstChunk && allocated == 0

/-- The size of the next chunk for a text of `need` bytes: the first that fits of those that come
    from halving `base`, unless that falls below `least`. -/
def halving (limit : Option Nat) (allocated need least base : Nat) : Option Nat :=
  if _h : base = 0 then none
  else if least ≤ base || mayStartSmall limit allocated need base then
    let size := chunkSize (max base (roundUp need 16))
    if fits limit allocated size then some size
    else halving limit allocated need least (base / 2)
  else none
termination_by base
decreasing_by omega

/-- Without a limit the first chunk that is tried fits. -/
theorem isSome_halving (allocated need : Nat) {least base : Nat} (positive : 0 < base)
    (le : least ≤ base) : (halving none allocated need least base).isSome = true := by
  unfold halving
  rw [dif_neg (by omega), if_pos (by simp [le]), if_pos (by simp [fits])]
  rfl

/-- The policy that runs: twice the newest chunk, and at least the size of a first chunk. -/
def doubling : ChunkPolicy where
  next? limit allocated newest need :=
    let least := max need firstChunk
    halving limit allocated need least (max (2 * newest) least)
  isSome_next? allocated newest need := by
    have positive : 0 < firstChunk := by decide
    exact isSome_halving allocated need (by omega) (Nat.le_max_right _ _)

end ChunkPolicy

/-- The memory for literal text. -/
structure Arena where
  limit : Option Nat := none
  /-- All that was taken so far. -/
  allocated : Nat := 0
  /-- The size of the newest chunk. -/
  chunk : Nat := 0
  /-- What is left of the newest chunk. -/
  free : Nat := 0
  policy : ChunkPolicy := .doubling

namespace Arena

/-- Makes room for a text of the given size. -/
def reserve (a : Arena) (size : Nat) : Except Region Arena :=
  if size = 0 then .ok a
  else if size ≤ a.free then .ok { a with free := a.free - size }
  else
    match a.policy.next? a.limit a.allocated a.chunk size with
    | some chunk => .ok {
        a with allocated := a.allocated + chunk, chunk := chunk, free := chunk - size }
    | none => .error .arena

/-- Copies a text into the arena. -/
def copy (a : Arena) (text : String) : Except Region (String × Arena) :=
  (a.reserve text.utf8ByteSize).map fun a => (text, a)

end Arena

end StackScript
