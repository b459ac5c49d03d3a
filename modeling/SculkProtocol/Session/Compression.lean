import SculkProtocol.Session.Batch

/-!
# The compressors

`compression::zlib` and `compression::snappy` wrap the two libraries, which are the
parameter `Codecs`: raw deflate and inflate of a whole buffer up to the end of the stream,
and the functions of Snappy. What the wrappers rely on is `Codecs.Lawful`.

Both wrappers refuse to decompress to more than 64 MiB. They differ on the empty buffer:
zlib compresses it like any other, while `snappy::compress` maps it to the empty buffer,
which `snappy::decompress` refuses.
-/

namespace SculkProtocol

/-- What the compression libraries compute. -/
structure Codecs where
  /-- `deflate` of a buffer, up to `Z_STREAM_END` -/
  deflate : Bytes → Option Bytes
  /-- `inflate` of a buffer, up to `Z_STREAM_END` -/
  inflate : Bytes → Option Bytes
  /-- `snappy::RawCompress` -/
  rawCompress : Bytes → Bytes
  /-- `snappy::GetUncompressedLength` -/
  getUncompressedLength : Bytes → Option ℕ
  /-- `snappy::RawUncompress` -/
  rawUncompress : Bytes → Option Bytes

/-- `deflateBound` for the settings of `zlib::compress`, a raw deflate without a wrapper. -/
def deflateBound (n : ℕ) : ℕ := n + n / 4096 + n / 16384 + n / 33554432 + 7

/-- `snappy::MaxCompressedLength` -/
def maxCompressedLength (n : ℕ) : ℕ := 32 + n + n / 6

/-- What the libraries promise of buffers below `2 ^ 32` bytes: decompression undoes compression,
which succeeds and stays within the documented bounds. No length is found in an empty buffer, and
what comes out of any buffer of Snappy has the length that is found in it. -/
structure Codecs.Lawful (L : Codecs) : Prop where
  deflate : ∀ b, b.length < 2 ^ 32 →
    ∃ c, L.deflate b = some c ∧ L.inflate c = some b ∧ c.length ≤ deflateBound b.length
  uncompressedLength : ∀ b, b.length < 2 ^ 32 →
    L.getUncompressedLength (L.rawCompress b) = some b.length
  uncompress : ∀ b, b.length < 2 ^ 32 → L.rawUncompress (L.rawCompress b) = some b
  compressedLength : ∀ b, b.length < 2 ^ 32 →
    (L.rawCompress b).length ≤ maxCompressedLength b.length
  emptyLength : L.getUncompressedLength [] = none
  outputLength : ∀ c b, L.rawUncompress c = some b → L.getUncompressedLength c = some b.length

namespace compression

variable (L : Codecs)

/-- `ZLIB_MAX_DECOMPRESSED_SIZE` and `kMaxOutputSize` -/
def MAX_DECOMPRESSED_SIZE : ℕ := 64 * 1024 * 1024

/-- The input a `z_stream` sees: its size is cast to a 32-bit `avail_in`. -/
def availIn (input : Bytes) : Bytes := input.take (input.length % 2 ^ 32)

def zlib.compress (input : Bytes) : Bytes := (L.deflate (availIn input)).getD input

def zlib.decompress (input : Bytes) : Except String Bytes :=
  match L.inflate (availIn input) with
  | some output =>
    if output.length > MAX_DECOMPRESSED_SIZE then .error "Failed to decompress data" else .ok output
  | none => .error "Failed to decompress data"

def snappy.compress (data : Bytes) : Bytes := if data = [] then [] else L.rawCompress data

def snappy.decompress (data : Bytes) : Except String Bytes :=
  if data = [] then .error "snappy decompress failed: input is empty"
  else
    match L.getUncompressedLength data with
    | none => .error "snappy decompress failed: invalid compressed payload"
    | some uncompressedLength =>
      if uncompressedLength > MAX_DECOMPRESSED_SIZE then
        .error "snappy decompress failed: output exceeds configured limit"
      else if uncompressedLength = 0 then .ok []
      else
        match L.rawUncompress data with
        | some output => .ok output
        | none => .error "snappy decompress failed"

/-- The two decompressors of the wrappers. -/
def decompressors : Decompressors := ⟨zlib.decompress L, snappy.decompress L⟩

/-! ### Round trips -/

theorem availIn_of_lt {input : Bytes} (h : input.length < 2 ^ 32) : availIn input = input := by
  rw [availIn, Nat.mod_eq_of_lt h, List.take_length]

/-- What comes out of zlib is within the limit. -/
theorem zlib.decompress_length {input out : Bytes} (h : zlib.decompress L input = .ok out) :
    out.length ≤ MAX_DECOMPRESSED_SIZE := by
  unfold zlib.decompress at h
  split at h
  · split at h
    · exact absurd h (by simp)
    · cases h; omega
  · exact absurd h (by simp)

variable {L} (hL : L.Lawful)
include hL

/-- zlib gives back what it compressed, the empty buffer included, up to its limit. -/
theorem zlib.decompress_compress {b : Bytes} (h : b.length ≤ MAX_DECOMPRESSED_SIZE) :
    zlib.decompress L (zlib.compress L b) = .ok b ∧
      (zlib.compress L b).length ≤ deflateBound b.length := by
  have hmax : MAX_DECOMPRESSED_SIZE = 2 ^ 26 := rfl
  obtain ⟨c, hc, hinflate, hlen⟩ := hL.deflate b (by omega)
  have hcompress : zlib.compress L b = c := by
    rw [zlib.compress, availIn_of_lt (by omega), hc, Option.getD_some]
  have hshort : c.length < 2 ^ 32 := by
    unfold deflateBound at hlen
    omega
  rw [hcompress, zlib.decompress, availIn_of_lt hshort, hinflate]
  exact ⟨if_neg (by omega), hlen⟩

/-- Snappy gives back what it compressed up to its limit, unless that was empty. -/
theorem snappy.decompress_compress {b : Bytes} (hne : b ≠ [])
    (h : b.length ≤ MAX_DECOMPRESSED_SIZE) :
    snappy.decompress L (snappy.compress L b) = .ok b ∧
      (snappy.compress L b).length ≤ maxCompressedLength b.length := by
  have hshort : b.length < 2 ^ 32 := Nat.lt_of_le_of_lt h (by decide)
  have hcompressed : L.rawCompress b ≠ [] := by
    intro hnil
    have := hL.uncompressedLength b hshort
    rw [hnil, hL.emptyLength] at this
    exact absurd this (by simp)
  have hlen : b.length ≠ 0 := fun h0 => hne (List.length_eq_zero_iff.mp h0)
  rw [snappy.compress, if_neg hne, snappy.decompress, if_neg hcompressed]
  refine ⟨?_, hL.compressedLength b hshort⟩
  simp only [hL.uncompressedLength b hshort, hL.uncompress b hshort, if_neg hlen,
    if_neg (Nat.not_lt.mpr h)]

/-- What comes out of Snappy is within the limit, and nothing comes out of an empty buffer. -/
theorem snappy.decompress_length {data out : Bytes} (h : snappy.decompress L data = .ok out) :
    data ≠ [] ∧ out.length ≤ MAX_DECOMPRESSED_SIZE := by
  unfold snappy.decompress at h
  split at h
  · exact absurd h (by simp)
  · next hne =>
    refine ⟨hne, ?_⟩
    split at h
    · exact absurd h (by simp)
    · next n hn =>
      split at h
      · exact absurd h (by simp)
      · next hle =>
        split at h
        · cases h
          exact Nat.zero_le _
        · split at h
          · next output houtput =>
            cases h
            have hlength := hL.outputLength _ _ houtput
            rw [hn] at hlength
            exact Option.some.inj hlength ▸ Nat.le_of_not_lt hle
          · exact absurd h (by simp)

/-- Snappy gives back less than what it compressed, if that was more than the limit, and nothing
comes back of an empty buffer. -/
theorem snappy.decompress_shorter {b out : Bytes} (h : b ≠ [] → b.length > MAX_DECOMPRESSED_SIZE)
    (hout : snappy.decompress L (snappy.compress L b) = .ok out) : out.length < b.length := by
  obtain ⟨hne, hle⟩ := snappy.decompress_length hL hout
  by_cases hnil : b = []
  · rw [snappy.compress, if_pos hnil] at hne
    exact absurd rfl hne
  · exact Nat.lt_of_le_of_lt hle (h hnil)

end compression
end SculkProtocol
