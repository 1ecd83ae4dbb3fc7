import AudioProc.LittleEndian

/-!
# The RIFF format

RIFF files as byte strings. A chunk is an identifier of four characters, a 32-bit size and
that many bytes; numbers are little-endian, and an identifier is read as the big-endian
number of its characters. A chunk of odd size is followed by a pad byte that its size does
not count.

`exists_header` says that every eight bytes are the header of some chunk, and
`exists_fmtFields` that every sixteen bytes are the fixed part of some 'fmt ' chunk, so that
arbitrary contents can be taken apart as well.
-/

namespace AudioProc.Riff

open LittleEndian

/-! ## Numbers -/

/-- A 16-bit number. -/
def int16 (v : UInt16) : List UInt8 := toBytes 2 v.toNat

/-- A 32-bit number. -/
def int32 (v : UInt32) : List UInt8 := toBytes 4 v.toNat

/-- The four characters of an identifier. -/
def fourcc (id : UInt32) : List UInt8 := (toBytes 4 id.toNat).reverse

@[simp] theorem length_int16 (v : UInt16) : (int16 v).length = 2 := length_toBytes _ _

@[simp] theorem length_int32 (v : UInt32) : (int32 v).length = 4 := length_toBytes _ _

@[simp] theorem length_fourcc (id : UInt32) : (fourcc id).length = 4 := by
  rw [fourcc, List.length_reverse, length_toBytes]

theorem int16_ofBytes {bs : List UInt8} (h : bs.length = 2) :
    int16 (UInt16.ofNat (ofBytes bs)) = bs := by
  have hlt := ofBytes_lt bs
  rw [h] at hlt
  have hmod : ofBytes bs % 2 ^ 16 = ofBytes bs := Nat.mod_eq_of_lt hlt
  rw [int16, UInt16.toNat_ofNat', hmod, ← h, toBytes_ofBytes]

theorem int32_ofBytes {bs : List UInt8} (h : bs.length = 4) :
    int32 (UInt32.ofNat (ofBytes bs)) = bs := by
  have hlt := ofBytes_lt bs
  rw [h] at hlt
  have hmod : ofBytes bs % 2 ^ 32 = ofBytes bs := Nat.mod_eq_of_lt hlt
  rw [int32, UInt32.toNat_ofNat', hmod, ← h, toBytes_ofBytes]

theorem fourcc_ofBytes {bs : List UInt8} (h : bs.length = 4) :
    fourcc (UInt32.ofNat (ofBytes bs.reverse)) = bs := by
  have hrev : bs.reverse.length = 4 := by rw [List.length_reverse, h]
  have hint := int32_ofBytes hrev
  rw [int32] at hint
  rw [fourcc, hint, List.reverse_reverse]

theorem int16_inj {v w : UInt16} (h : int16 v = int16 w) : v = w := by
  have hbytes := congrArg ofBytes h
  rw [int16, int16, ofBytes_toBytes 2 _ v.toNat_lt, ofBytes_toBytes 2 _ w.toNat_lt] at hbytes
  exact UInt16.toNat.inj hbytes

theorem int32_inj {v w : UInt32} (h : int32 v = int32 w) : v = w := by
  have hbytes := congrArg ofBytes h
  rw [int32, int32, ofBytes_toBytes 4 _ v.toNat_lt, ofBytes_toBytes 4 _ w.toNat_lt] at hbytes
  exact UInt32.toNat.inj hbytes

theorem fourcc_inj {v w : UInt32} (h : fourcc v = fourcc w) : v = w :=
  int32_inj (List.reverse_injective h)

/-- Every two bytes are a 16-bit number. -/
theorem exists_int16 {l : List UInt8} (h : 2 ≤ l.length) :
    ∃ v more, l = int16 v ++ more := by
  refine ⟨UInt16.ofNat (ofBytes (l.take 2)), l.drop 2, ?_⟩
  rw [int16_ofBytes (List.length_take_of_le h), List.take_append_drop]

/-- Every four bytes are a 32-bit number. -/
theorem exists_int32 {l : List UInt8} (h : 4 ≤ l.length) :
    ∃ v more, l = int32 v ++ more := by
  refine ⟨UInt32.ofNat (ofBytes (l.take 4)), l.drop 4, ?_⟩
  rw [int32_ofBytes (List.length_take_of_le h), List.take_append_drop]

/-- Every four bytes are an identifier. -/
theorem exists_fourcc {l : List UInt8} (h : 4 ≤ l.length) :
    ∃ id more, l = fourcc id ++ more := by
  refine ⟨UInt32.ofNat (ofBytes (l.take 4).reverse), l.drop 4, ?_⟩
  rw [fourcc_ofBytes (List.length_take_of_le h), List.take_append_drop]

/-! ## Chunks -/

/-- The identifier and the size in front of a chunk. -/
def header (id size : UInt32) : List UInt8 := fourcc id ++ int32 size

@[simp] theorem length_header (id size : UInt32) : (header id size).length = 8 := by
  rw [header, List.length_append, length_fourcc, length_int32]

/-- Bytes start with one header at most. -/
theorem header_append_inj {id size id' size' : UInt32} {l l' : List UInt8}
    (h : header id size ++ l = header id' size' ++ l') : id = id' ∧ size = size' ∧ l = l' := by
  rcases List.append_inj h (by simp) with ⟨hheader, rfl⟩
  rcases List.append_inj hheader (by simp) with ⟨hid, hsize⟩
  exact ⟨fourcc_inj hid, int32_inj hsize, rfl⟩

/-- Every eight bytes are a header. -/
theorem exists_header {l : List UInt8} (h : 8 ≤ l.length) :
    ∃ id size more, l = header id size ++ more := by
  rcases exists_fourcc (show 4 ≤ l.length by omega) with ⟨id, l', rfl⟩
  rw [List.length_append, length_fourcc] at h
  rcases exists_int32 (show 4 ≤ l'.length by omega) with ⟨size, more, rfl⟩
  refine ⟨id, size, more, ?_⟩
  rw [header, List.append_assoc]

structure Chunk where
  id : UInt32
  payload : List UInt8
deriving DecidableEq

namespace Chunk

def size (c : Chunk) : UInt32 := UInt32.ofNat c.payload.length

/-- The chunk without a pad byte. -/
def bytes (c : Chunk) : List UInt8 := header c.id c.size ++ c.payload

@[simp] theorem length_bytes (c : Chunk) : c.bytes.length = 8 + c.payload.length := by
  rw [bytes, List.length_append, length_header]

theorem toNat_size {c : Chunk} (h : c.payload.length < 2 ^ 32) :
    c.size.toNat = c.payload.length := by
  rw [size, UInt32.toNat_ofNat']
  exact Nat.mod_eq_of_lt h

/-- Bytes start with one chunk at most. -/
theorem bytes_append_inj {c d : Chunk} {l l' : List UInt8}
    (hc : c.payload.length < 2 ^ 32) (hd : d.payload.length < 2 ^ 32)
    (h : c.bytes ++ l = d.bytes ++ l') : c = d ∧ l = l' := by
  cases c with
  | mk id payload =>
      cases d with
      | mk id' payload' =>
          rw [bytes, bytes, List.append_assoc, List.append_assoc] at h
          rcases header_append_inj h with ⟨rfl, hsize, hrest⟩
          have hlength := congrArg UInt32.toNat hsize
          rw [toNat_size hc, toNat_size hd] at hlength
          rcases List.append_inj hrest hlength with ⟨rfl, rfl⟩
          exact ⟨rfl, rfl⟩

end Chunk

/-- A header is that of a chunk where enough bytes follow. -/
theorem exists_chunk (id : UInt32) {size : UInt32} {l : List UInt8} (h : size.toNat ≤ l.length) :
    ∃ (c : Chunk) (more : List UInt8), header id size ++ l = c.bytes ++ more := by
  refine ⟨⟨id, l.take size.toNat⟩, l.drop size.toNat, ?_⟩
  have hsize : Chunk.size ⟨id, l.take size.toNat⟩ = size := by
    rw [Chunk.size, List.length_take_of_le h, UInt32.ofNat_toNat]
  rw [Chunk.bytes, hsize, List.append_assoc, List.take_append_drop]

/-- A chunk with the byte that pads it where its size is odd. -/
structure PaddedChunk extends Chunk where
  pad : UInt8
deriving DecidableEq

namespace PaddedChunk

/-- The pad byte, where there is one. -/
def padding (c : PaddedChunk) : List UInt8 :=
  if c.payload.length % 2 = 1 then [c.pad] else []

/-- The chunk as it is laid out in a file. -/
def padded (c : PaddedChunk) : List UInt8 := c.bytes ++ c.padding

theorem padding_of_even {c : PaddedChunk} (h : c.payload.length % 2 = 0) : c.padding = [] := by
  rw [padding, if_neg]
  omega

theorem padded_of_even {c : PaddedChunk} (h : c.payload.length % 2 = 0) :
    c.padded = c.bytes := by
  rw [padded, padding_of_even h, List.append_nil]

theorem length_padding_le (c : PaddedChunk) : c.padding.length ≤ 1 := by
  unfold padding
  split_ifs
  · exact Nat.le_refl 1
  · exact Nat.zero_le 1

theorem length_padded (c : PaddedChunk) :
    c.padded.length = 8 + c.payload.length + c.padding.length := by
  rw [padded, List.length_append, Chunk.length_bytes]

end PaddedChunk

/-! ## The fixed part of a 'fmt ' chunk -/

structure FmtFields where
  format : UInt16
  channels : UInt16
  sampleRate : UInt32
  byteRate : UInt32
  blockAlign : UInt16
  bitsPerSample : UInt16
deriving DecidableEq

namespace FmtFields

def bytes (w : FmtFields) : List UInt8 :=
  int16 w.format ++ (int16 w.channels ++ (int32 w.sampleRate ++ (int32 w.byteRate ++
    (int16 w.blockAlign ++ int16 w.bitsPerSample))))

@[simp] theorem length_bytes (w : FmtFields) : w.bytes.length = 16 := by
  simp [bytes]

end FmtFields

/-- Every sixteen bytes are the fixed part of a 'fmt ' chunk. -/
theorem exists_fmtFields {l : List UInt8} (h : 16 ≤ l.length) :
    ∃ (w : FmtFields) (extra : List UInt8), l = w.bytes ++ extra := by
  rcases exists_int16 (show 2 ≤ l.length by omega) with ⟨format, l₁, rfl⟩
  rw [List.length_append, length_int16] at h
  rcases exists_int16 (show 2 ≤ l₁.length by omega) with ⟨channels, l₂, rfl⟩
  rw [List.length_append, length_int16] at h
  rcases exists_int32 (show 4 ≤ l₂.length by omega) with ⟨sampleRate, l₃, rfl⟩
  rw [List.length_append, length_int32] at h
  rcases exists_int32 (show 4 ≤ l₃.length by omega) with ⟨byteRate, l₄, rfl⟩
  rw [List.length_append, length_int32] at h
  rcases exists_int16 (show 2 ≤ l₄.length by omega) with ⟨blockAlign, l₅, rfl⟩
  rw [List.length_append, length_int16] at h
  rcases exists_int16 (show 2 ≤ l₅.length by omega) with ⟨bitsPerSample, extra, rfl⟩
  refine ⟨⟨format, channels, sampleRate, byteRate, blockAlign, bitsPerSample⟩, extra, ?_⟩
  simp only [FmtFields.bytes, List.append_assoc]

end AudioProc.Riff
