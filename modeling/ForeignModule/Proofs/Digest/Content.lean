import ForeignModule.Digest.Reading

/-!
# Digests of whole contents

A file is digested chunk by chunk, and what comes out is a function of its content
(`Disk.digest_of_read`). Every content has a digest (`Digest.exists_ofContent`).
-/

namespace ForeignModule

namespace Digest

/-- The digest of a whole content. -/
def ofContent (content : List UInt8) : Except Fault String :=
  ofReads ((cut chunkSize chunkSize content).map .ok)

theorem exists_takeIn (h : Hasher) (buffer : List UInt8) (chunks : List (List UInt8)) :
    ∃ h', takeIn h buffer (chunks.map .ok) = .ok h' := by
  induction chunks generalizing h buffer with
  | nil => exact ⟨h, rfl⟩
  | cons chunk more ih =>
    cases chunk with
    | nil => exact ⟨h, rfl⟩
    | cons byte bytes => exact ih _ _

/-- Every content has a digest. -/
theorem exists_ofContent (content : List UInt8) : ∃ digest, ofContent content = .ok digest := by
  obtain ⟨h, hh⟩ := exists_takeIn {} (List.replicate chunkSize 0) (cut chunkSize chunkSize content)
  refine ⟨hex h.finish, ?_⟩
  rw [ofContent, ofReads, hh]
  rfl

end Digest

namespace Disk

variable {d : Disk} {p : Path} {content : List UInt8}

theorem digest_of_read (h : d.read p = .ok content) : d.digest p = Digest.ofContent content := by
  rw [digest, h]
  rfl

theorem digest_of_fault {fault : Fault} (h : d.read p = .error fault) :
    d.digest p = .error fault := by
  rw [digest, h]

/-- What has been digested has been read. -/
theorem read_of_digest {digest : String} (h : d.digest p = .ok digest) :
    ∃ content, d.read p = .ok content := by
  cases hread : d.read p with
  | error fault =>
    rw [digest_of_fault hread] at h
    cases h
  | ok content => exact ⟨content, rfl⟩

end Disk

end ForeignModule
