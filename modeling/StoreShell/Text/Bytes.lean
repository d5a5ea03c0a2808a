/-!
# Bytes

Contents of files and of streams are lists of bytes. `Chunks` collects bytes that arrive piece by
piece: the newest piece is put in front, and `Chunks.bytes` reads all of them in order of arrival.
-/

namespace StoreShell

/-- A sequence of bytes. -/
abbrev Bytes := List UInt8

/-- Bytes that came piece by piece, the newest piece first. -/
structure Chunks where
  newestFirst : List Bytes := []

namespace Chunks

def empty : Chunks := {}

def push (collected : Chunks) (piece : Bytes) : Chunks :=
  ⟨piece :: collected.newestFirst⟩

def bytes (collected : Chunks) : Bytes :=
  collected.newestFirst.reverse.flatten

/-- Pieces are kept in the order of their arrival. -/
@[simp] theorem bytes_push (collected : Chunks) (piece : Bytes) :
    (collected.push piece).bytes = collected.bytes ++ piece := by
  simp [bytes, push]

end Chunks

end StoreShell
