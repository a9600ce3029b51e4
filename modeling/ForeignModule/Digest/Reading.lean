import ForeignModule.Digest.Sha256
import ForeignModule.Files.Disk

/-!
# Digests of files

A file is read in chunks and digested as the chunks arrive, so that it need not be kept as a whole.

* `Hasher.feed` takes in one more byte, `Hasher.finish` gives the digest;
* `takeIn` takes in what reads bring, through a buffer that all of them share;
* `ofReads` digests what a number of reads bring, and fails if one of them does.
-/

namespace ForeignModule.Digest

/-- What has been taken in so far. -/
structure Hasher where
  /-- The state behind the last whole block. -/
  words : Words := initial
  /-- The bytes behind it, last one first. -/
  pending : List UInt8 := []
  /-- The number of all bytes. -/
  size : Nat := 0
deriving Repr, Inhabited

namespace Hasher

/-- Takes in one byte. -/
def feed (h : Hasher) (b : UInt8) : Hasher :=
  let pending := b :: h.pending
  let size := h.size + 1
  if size % 64 = 0 then { words := compress h.words pending.reverse, pending := [], size }
  else { h with pending, size }

/-- Takes in some bytes. -/
def update (h : Hasher) (bytes : List UInt8) : Hasher := bytes.foldl feed h

/-- The digest of what has been taken in. -/
def finish (h : Hasher) : List UInt8 := (h.update (padding h.size)).words.bytes

end Hasher

/-- What one read of a file brings: some bytes, or none at its end, or a fault. -/
abbrev Read := Except Fault (List UInt8)

/-- The most that one read brings. -/
def chunkSize : Nat := 8192

/-- The buffer after a read: what it brings stands in front, and behind it is what was there before. -/
def fill (buffer chunk : List UInt8) : List UInt8 := chunk ++ buffer.drop chunk.length

/-- Takes in what reads bring into the buffer, up to the end of the file. -/
def takeIn (h : Hasher) (buffer : List UInt8) : List Read → Except Fault Hasher
  | [] => .ok h
  | .error fault :: _ => .error fault
  | .ok [] :: _ => .ok h
  | .ok chunk :: more =>
    let buffer := fill buffer chunk
    takeIn (h.update (buffer.take chunk.length)) buffer more

/-- The digest of what reads bring, in hexadecimal digits. -/
def ofReads (reads : List Read) : Except Fault String :=
  (takeIn {} (List.replicate chunkSize 0) reads).map fun h => hex h.finish

end Digest

namespace Disk

/-- The digest of a file. -/
def digest (d : Disk) (path : Path) : Except Fault String :=
  match d.read path with
  | .error fault => .error fault
  | .ok content => Digest.ofReads ((Digest.cut Digest.chunkSize Digest.chunkSize content).map .ok)

end Disk

end ForeignModule
