import CkbVote.Types

/-!
# The optimised block verifier

`verify_block_vec` checks the offsets of the block vector, of every block and
of the two vectors inside a block, and stops there: the contents of uncles and
transactions are left to whoever reads them.  Its three functions are written
by hand after the generated readers, so they keep their own bodies here, error
names included (`BlockVecReader` throughout).

`verifyBlockVec_eq_ok` states what acceptance means for the layout;
`blockVec_verify_iff` compares the optimised verifier with the generated one.
-/

namespace CkbVote

open Octets Molecule

/-- `verify_vector_shallow`: the offsets of a vector, not its elements. -/
def verifyVectorShallow (s : Bytes) : VerificationResult :=
  if s.length < 4 then .error (.headerIsBroken "BlockVecReader" 4 s.length)
  else if s.length ≠ numberAt s 0 then
    .error (.totalSizeNotMatch "BlockVecReader" (numberAt s 0) s.length)
  else if s.length = 4 then .ok ()
  else if s.length < 8 then .error (.totalSizeNotMatch "BlockVecReader" 8 s.length)
  else if numberAt s 4 % 4 ≠ 0 ∨ numberAt s 4 < 8 then
    .error (.offsetsNotMatch "BlockVecReader")
  else if s.length < numberAt s 4 then
    .error (.headerIsBroken "BlockVecReader" (numberAt s 4) s.length)
  else if offsetsDecrease s then .error (.offsetsNotMatch "BlockVecReader")
  else .ok ()

/-- `verify_block_shallow`.  A block may have fields behind the declared four
whatever `compatible` says, so that blocks with an extension are read. -/
def verifyBlockShallow (compatible : Bool) (s : Bytes) : VerificationResult :=
  if s.length < 4 then .error (.headerIsBroken "BlockVecReader" 4 s.length)
  else if s.length ≠ numberAt s 0 then
    .error (.totalSizeNotMatch "BlockVecReader" (numberAt s 0) s.length)
  else if s.length < 8 then .error (.headerIsBroken "BlockVecReader" 8 s.length)
  else if numberAt s 4 % 4 ≠ 0 ∨ numberAt s 4 < 8 then
    .error (.offsetsNotMatch "BlockVecReader")
  else if s.length < numberAt s 4 then
    .error (.headerIsBroken "BlockVecReader" (numberAt s 4) s.length)
  else if headerCount s < 4 then
    .error (.fieldCountNotMatch "BlockVecReader" 4 (headerCount s))
  else if offsetsDecrease s then .error (.offsetsNotMatch "BlockVecReader")
  else if (part s 0).length ≠ 208 then
    .error (.totalSizeNotMatch "BlockVecReader" 208 (part s 0).length)
  else do
    verifyVectorShallow (part s 1)
    verifyVectorShallow (part s 2)
    ProposalShortIdVecReader.verify compatible (part s 3)

/-- `for pair in offsets.windows(2) { verify_block_shallow(&slice[start..end])?; }`. -/
def verifyBlocksShallow (compatible : Bool) : List Bytes → VerificationResult
  | [] => .ok ()
  | block :: blocks => do
      verifyBlockShallow compatible block
      verifyBlocksShallow compatible blocks

/-- `verify_block_vec`. -/
def verifyBlockVec (compatible : Bool) (s : Bytes) : VerificationResult :=
  if s.length < 4 then .error (.headerIsBroken "BlockVecReader" 4 s.length)
  else if s.length ≠ numberAt s 0 then
    .error (.totalSizeNotMatch "BlockVecReader" (numberAt s 0) s.length)
  else if s.length = 4 then .ok ()
  else if s.length < 8 then .error (.totalSizeNotMatch "BlockVecReader" 8 s.length)
  else if numberAt s 4 % 4 ≠ 0 ∨ numberAt s 4 < 8 then
    .error (.offsetsNotMatch "BlockVecReader")
  else if s.length < numberAt s 4 then
    .error (.headerIsBroken "BlockVecReader" (numberAt s 4) s.length)
  else if offsetsDecrease s then .error (.offsetsNotMatch "BlockVecReader")
  else verifyBlocksShallow compatible (parts s)

/-! ## What acceptance means -/

/-- The layout of a block: four fields or more, the first of them a header,
the next two vectors with consecutive elements, then the short ids. -/
structure BlockLayout (s : Bytes) : Prop where
  table : OffsetTable s
  fields : 4 ≤ headerCount s
  header : (part s 0).length = 208
  uncles : DynVec.Layout (part s 1)
  transactions : DynVec.Layout (part s 2)
  proposals : (part s 3).length = 4 + 10 * numberAt (part s 3) 0

/-- The shallow check of a vector is a check of its layout. -/
theorem verifyVectorShallow_eq_ok {s : Bytes} :
    verifyVectorShallow s = .ok () ↔ DynVec.Layout s := by
  constructor
  · intro h
    unfold verifyVectorShallow at h
    split_ifs at h with h1 h2 h3 h4 h5 h6 h7
    · exact Or.inl ⟨h3, by omega⟩
    · have hsorted := offsetsDecrease_eq_false.mp (by simpa using h7)
      exact Or.inr ⟨by omega, by omega, by omega, by omega, hsorted⟩
  · intro h
    rcases h with ⟨hlen, htotal⟩ | ht
    · unfold verifyVectorShallow
      rw [if_neg (by omega), if_neg (by omega), if_pos hlen]
    · have htotal := ht.total
      have haligned := ht.aligned
      have hge := ht.first_ge
      have hle := ht.first_le
      unfold verifyVectorShallow
      rw [if_neg (by omega), if_neg (by omega), if_neg (by omega), if_neg (by omega),
        if_neg (by omega), if_neg (by omega),
        if_neg (by simp [offsetsDecrease_eq_false.mpr ht.sorted])]

/-- The shallow check of a block is a check of its layout. -/
theorem verifyBlockShallow_eq_ok {compatible : Bool} {s : Bytes} :
    verifyBlockShallow compatible s = .ok () ↔ BlockLayout s := by
  constructor
  · intro h
    unfold verifyBlockShallow at h
    split_ifs at h with h1 h2 h3 h4 h5 h6 h7 h8
    have hsorted := offsetsDecrease_eq_false.mp (by simpa using h7)
    simp only [bind_unit_eq_ok, verifyVectorShallow_eq_ok] at h
    exact ⟨⟨by omega, by omega, by omega, by omega, hsorted⟩, by omega, by omega, h.1, h.2.1,
      verifyFixVec_eq_ok.mp h.2.2⟩
  · intro h
    have htotal := h.table.total
    have haligned := h.table.aligned
    have hge := h.table.first_ge
    have hle := h.table.first_le
    have hfields := h.fields
    have hheader := h.header
    unfold verifyBlockShallow
    rw [if_neg (by omega), if_neg (by omega), if_neg (by omega), if_neg (by omega),
      if_neg (by omega), if_neg (by omega),
      if_neg (by simp [offsetsDecrease_eq_false.mpr h.table.sorted]), if_neg (by omega)]
    simp only [bind_unit_eq_ok, verifyVectorShallow_eq_ok]
    exact ⟨h.uncles, h.transactions, verifyFixVec_eq_ok.mpr h.proposals⟩

/-- Blocks pass when each of them is laid out right. -/
theorem verifyBlocksShallow_eq_ok {compatible : Bool} {blocks : List Bytes} :
    verifyBlocksShallow compatible blocks = .ok () ↔ ∀ b ∈ blocks, BlockLayout b := by
  induction blocks with
  | nil => simp [verifyBlocksShallow]
  | cons block blocks ih =>
      simp [verifyBlocksShallow, bind_unit_eq_ok, verifyBlockShallow_eq_ok, ih]

/-- The block slices of a block vector. -/
def blockSlices (s : Bytes) : List Bytes := DynVec.items s

/-- A block's header. -/
def headerSlice (block : Bytes) : Bytes := part block 0

theorem BlockLayout.length_header {s : Bytes} (h : BlockLayout s) :
    (headerSlice s).length = 208 := h.header

/-- The elements of a block's uncles vector. -/
def uncleSlices (block : Bytes) : List Bytes := DynVec.items (part block 1)

/-- The elements of a block's transactions vector. -/
def transactionSlices (block : Bytes) : List Bytes := DynVec.items (part block 2)

/-- `verify_block_vec` accepts exactly the vectors of well laid out blocks. -/
theorem verifyBlockVec_eq_ok {compatible : Bool} {s : Bytes} :
    verifyBlockVec compatible s = .ok () ↔
      DynVec.Layout s ∧ ∀ b ∈ blockSlices s, BlockLayout b := by
  constructor
  · intro h
    unfold verifyBlockVec at h
    split_ifs at h with h1 h2 h3 h4 h5 h6 h7
    · have hempty : IsEmptyVec s := ⟨h3, by omega⟩
      exact ⟨Or.inl hempty, by simp [blockSlices, DynVec.items_empty hempty]⟩
    · have hsorted := offsetsDecrease_eq_false.mp (by simpa using h7)
      have ht : OffsetTable s := ⟨by omega, by omega, by omega, by omega, hsorted⟩
      refine ⟨Or.inr ht, ?_⟩
      rw [blockSlices, DynVec.items_table ht]
      exact verifyBlocksShallow_eq_ok.mp h
  · intro h
    rcases h with ⟨⟨hlen, htotal⟩ | ht, hblocks⟩
    · unfold verifyBlockVec
      rw [if_neg (by omega), if_neg (by omega), if_pos hlen]
    · have htotal := ht.total
      have haligned := ht.aligned
      have hge := ht.first_ge
      have hle := ht.first_le
      rw [blockSlices, DynVec.items_table ht] at hblocks
      unfold verifyBlockVec
      rw [if_neg (by omega), if_neg (by omega), if_neg (by omega), if_neg (by omega),
        if_neg (by omega), if_neg (by omega),
        if_neg (by simp [offsetsDecrease_eq_false.mpr ht.sorted])]
      exact verifyBlocksShallow_eq_ok.mpr hblocks

/-- The generated block reader, admitting extra fields, accepts a block
exactly when its layout is right and every element it holds verifies. -/
theorem blockReader_verify_eq_ok {s : Bytes} : BlockReader.verify true s = .ok () ↔
    BlockLayout s ∧ (∀ u ∈ uncleSlices s, UncleBlockReader.verify true u = .ok ()) ∧
      ∀ tx ∈ transactionSlices s, TransactionReader.verify true tx = .ok () := by
  simp only [BlockReader.verify, verifyTable_eq_ok, verifyFields, bind_unit_eq_ok,
    HeaderReader.verify, verifyFixed_eq_ok, UncleBlockVecReader.verify,
    TransactionVecReader.verify, DynVec.verify_eq_ok, ProposalShortIdVecReader.verify,
    verifyFixVec_eq_ok]
  constructor
  · intro h
    obtain ⟨ht, hcount, -, hheader, ⟨huncles, hu⟩, ⟨htxs, htx⟩, hids, -⟩ := h
    exact ⟨⟨ht, hcount, hheader, huncles, htxs, hids⟩, hu, htx⟩
  · intro h
    obtain ⟨h, hu, htx⟩ := h
    exact ⟨h.table, h.fields, by simp, h.header, ⟨h.uncles, hu⟩, ⟨h.transactions, htx⟩,
      h.proposals, trivial⟩

/-- **The optimised verifier is the full one minus element contents.** -/
theorem blockVec_verify_iff (s : Bytes) (compatible : Bool) :
    BlockVecReader.verify true s = .ok () ↔
      verifyBlockVec compatible s = .ok () ∧ ∀ b ∈ blockSlices s,
        (∀ u ∈ uncleSlices b, UncleBlockReader.verify true u = .ok ()) ∧
          ∀ tx ∈ transactionSlices b, TransactionReader.verify true tx = .ok () := by
  rw [BlockVecReader.verify, DynVec.verify_eq_ok, verifyBlockVec_eq_ok]
  constructor
  · intro h
    obtain ⟨hlayout, hblocks⟩ := h
    have hsplit := fun b hb => blockReader_verify_eq_ok.mp (hblocks b hb)
    exact ⟨⟨hlayout, fun b hb => (hsplit b hb).1⟩, fun b hb => (hsplit b hb).2⟩
  · intro h
    obtain ⟨⟨hlayout, hblocks⟩, helements⟩ := h
    exact ⟨hlayout, fun b hb => blockReader_verify_eq_ok.mpr ⟨hblocks b hb, helements b hb⟩⟩

end CkbVote
