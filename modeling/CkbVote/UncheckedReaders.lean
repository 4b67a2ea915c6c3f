import CkbVote.Integrity

/-!
# Unchecked readers after the shallow check

The guest checks its blocks with `verify_block_vec` and reads them through
`BlockVecReader::new_unchecked`.  The two do not share their arithmetic: the
verifier compares a list of offsets, and every accessor reads its own words
again, counts the items from the first offset and tests for the last item.

`uncheckedReads` puts them together.  Whatever the bytes are, once they are
accepted no accessor of the block level indexes out of range, and both vectors
are cut into consecutive slices.  What is inside an uncle or a transaction is
not looked at.
-/

namespace CkbVote

open Octets Molecule

/-- The accessor returns `width` bytes of the slice it reads. -/
structure ReadsField (accessor : Bytes → Run Bytes) (width : Nat) (s field : Bytes) : Prop where
  accessor_eq : accessor s = .ok field
  within : ∃ start, start + width ≤ s.length ∧ field = slice s start (start + width)

/-- The fields of a block that the integrity check reads, and its transactions
by index. -/
structure ReadsBlock (block header raw parentHash transactionsRoot transactions : Bytes) :
    Prop where
  readsHeader : ReadsField BlockReader.header 208 block header
  readsRaw : ReadsField HeaderReader.raw 192 header raw
  readsParentHash : ReadsField RawHeaderReader.parentHash 32 raw parentHash
  readsTransactionsRoot : ReadsField RawHeaderReader.transactionsRoot 32 raw transactionsRoot
  readsTransactions : ∃ width, ReadsField BlockReader.transactions width block transactions
  readsElements : ∃ count bound, DynVec.ReadsBetween transactions count bound

variable {compatible : Bool} {s : Bytes}

/-- A field that is read has its width. -/
theorem ReadsField.length_eq {accessor : Bytes → Run Bytes} {width : Nat} {field : Bytes}
    (h : ReadsField accessor width s field) : field.length = width := by
  obtain ⟨start, hle, rfl⟩ := h.within
  rw [length_slice hle]
  omega

/-- An accessor of a fixed range. -/
theorem readsField_slice (start width : Nat) (h : start + width ≤ s.length) :
    ReadsField (readSlice · start (start + width)) width s (slice s start (start + width)) :=
  ⟨readSlice_ok (by omega) h, start, h, rfl⟩

/-- A declared field of a table whose offsets are in order. -/
theorem readsField_part (ht : OffsetTable s) {fieldCount i : Nat}
    (hcount : fieldCount ≤ headerCount s) (hi : i < fieldCount) :
    ReadsField (Table.field fieldCount · i) (part s i).length s (part s i) := by
  have hsorted := ht.sorted i (by omega)
  have hend : offsetAt s (i + 1) ≤ s.length := ht.offsetAt_le (by omega)
  have hstop : offsetAt s i + (part s i).length = offsetAt s (i + 1) := by
    rw [ht.length_part (by omega)]
    omega
  exact ⟨ht.field_eq hcount hi, offsetAt s i, by omega, by rw [hstop]; rfl⟩

/-- The fields of a block laid out as the shallow check asks. -/
theorem BlockLayout.readsBlock (h : BlockLayout s) :
    ∃ header raw parentHash transactionsRoot transactions,
      ReadsBlock s header raw parentHash transactionsRoot transactions := by
  have hheader : ReadsField BlockReader.header 208 s (part s 0) :=
    h.header ▸ readsField_part h.table h.fields (by decide)
  have htransactions : ReadsField BlockReader.transactions _ s (part s 2) :=
    readsField_part h.table h.fields (by decide)
  have hlen : (part s 0).length = 208 := h.header
  have hraw : ReadsField HeaderReader.raw 192 (part s 0) (slice (part s 0) 0 192) :=
    readsField_slice 0 192 (by omega)
  have hrawLen := hraw.length_eq
  exact ⟨_, _, _, _, _, hheader, hraw, readsField_slice 32 32 (by omega),
    readsField_slice 64 32 (by omega), ⟨_, htransactions⟩,
    ⟨_, _, DynVec.readsBetween h.transactions⟩⟩

/-- **Reads of an accepted block vector stay in range.**  Its blocks are the
slices between consecutive positions, from the first offset to its end, and so
are the transactions of each block; the fields of each header are read in full. -/
theorem uncheckedReads (h : verifyBlockVec compatible s = .ok ()) :
    ∃ count bound, DynVec.ReadsBetween s count bound ∧ ∀ i, i < count →
      ∃ header raw parentHash transactionsRoot transactions,
        ReadsBlock (slice s (bound i) (bound (i + 1))) header raw parentHash transactionsRoot
          transactions := by
  obtain ⟨hlayout, hblocks⟩ := verifyBlockVec_eq_ok.mp h
  have hreads := DynVec.readsBetween hlayout
  refine ⟨_, _, hreads, fun i hi => ?_⟩
  have hblock : (blockSlices s)[i] = slice s (offsetAt s i) (offsetAt s (i + 1)) := by
    have heq := hreads.getUnchecked_eq i hi
    rw [DynVec.getUnchecked_eq hlayout hi] at heq
    exact Except.ok.inj heq
  have hlay : BlockLayout (blockSlices s)[i] := hblocks _ (List.getElem_mem hi)
  rw [hblock] at hlay
  exact hlay.readsBlock

/-- A block whose two transactions are not transactions at all. -/
def unparsedBlock : Bytes :=
  BlockVec.newBuilder [Block.newBuilder (List.replicate 208 0) [[1], [2, 3]]]

/-- The vector is cut into slices all the same. -/
theorem uncheckedReads_unparsed :
    ∃ count bound, DynVec.ReadsBetween unparsedBlock count bound ∧ ∀ i, i < count →
      ∃ header raw parentHash transactionsRoot transactions,
        ReadsBlock (slice unparsedBlock (bound i) (bound (i + 1))) header raw parentHash
          transactionsRoot transactions := by
  have hverify : verifyBlockVec false unparsedBlock = .ok () := by decide +kernel
  exact uncheckedReads hverify

end CkbVote
