import CkbVote.Host

/-!
# The mock generator

`generate_from_templates` of the test tool makes a window of blocks out of
template blocks.  It appends one transaction to every block, the proposal to
the first and a vote to each of the others, and then repairs the chain in
separate passes: the transactions root of every block, the parent hashes from
the second block on, and last the witness roots for the guest.

`Slot.Filled` is what the passes keep.  A slot is a template with its extra
transaction, and a block fills it when it holds the template's uncles and
proposals and all the transactions, under a header with their root.  Appending
fills the slots (`rebuildBlockWithExtraTx_filled`), and relinking leaves them
filled (`relinkFrom_linked`).
-/

namespace CkbVote.TestTool

open Octets Molecule

section Code

variable [Blake2b]

/-! ## The program -/

/-- `get(i).unwrap()`. -/
def itemAt (s : Bytes) (i : Nat) : Run Bytes := do
  match ← DynVec.get s i with
  | none => .error (.expect "called `Option::unwrap()` on a `None` value")
  | some item => .ok item

/-- Here the witness root is computed as well. -/
def calcTransactionsRoot (txs : List Bytes) : Run Hash32 := do
  let txHashes ← txs.mapM txHash
  let rawRoot ← merkleRoot txHashes
  let witnessRoot ← merkleRoot (txs.map witnessHash)
  merkleRoot [rawRoot, witnessRoot]

/-- A raw transaction with one output and its data, and no more. -/
def outputRaw (lock type_ data : Bytes) : Bytes :=
  RawTransaction.newBuilder [] [] [] [CellOutput.newBuilder 0 lock type_] [data]

def buildProposalTx (proposal proposalScript : Bytes) : Bytes :=
  Transaction.newBuilder (outputRaw Script.default proposalScript proposal) []

/-- The args are the voter index, so that every voter has a lock of its own. -/
def voterLock (voterIndex : Nat) : Bytes :=
  Script.newBuilder (List.replicate 32 0) [0] (leBytes 8 voterIndex)

def buildVoteTx (voteTypeScript : Bytes) (voterIndex : Nat) : Bytes :=
  Transaction.newBuilder
    (outputRaw (voterLock voterIndex) voteTypeScript (Vote.newBuilder 1 100 [])) []

/-- The raw header of both passes: every field is copied but the two given. -/
def copyRawHeader (oldRaw parentHash transactionsRoot : Bytes) : Run Bytes := do
  .ok (RawHeader.newBuilder (← RawHeaderReader.version oldRaw)
    (← RawHeaderReader.compactTarget oldRaw) (← RawHeaderReader.timestamp oldRaw)
    (← RawHeaderReader.number oldRaw) (← RawHeaderReader.epoch oldRaw) parentHash transactionsRoot
    (← RawHeaderReader.proposalsHash oldRaw) (← RawHeaderReader.extraHash oldRaw)
    (← RawHeaderReader.dao oldRaw))

/-- A block of the four declared fields. -/
def blockOf (header uncles transactions proposals : Bytes) : Bytes :=
  build [header, uncles, transactions, proposals]

def rebuildBlockWithExtraTx (template extraTx : Bytes) : Run Bytes := do
  let oldTxs ← BlockReader.transactions template
  let txs ← readRange (itemAt oldTxs) (← itemCount oldTxs) 0
  let txs := txs ++ [extraTx]
  let newTransactionsRoot ← calcTransactionsRoot txs
  let oldHeader ← BlockReader.header template
  let oldRaw ← HeaderReader.raw oldHeader
  let newRaw ← copyRawHeader oldRaw (← RawHeaderReader.parentHash oldRaw) newTransactionsRoot.val
  let newHeader := Header.newBuilder newRaw (← HeaderReader.nonce oldHeader)
  .ok (blockOf newHeader (← BlockReader.uncles template) (build txs)
    (← BlockReader.proposals template))

/-- The body of the loop over the parent hashes. -/
def relinkBlock (previous old : Bytes) : Run Bytes := do
  let parentHash := blake2b256 (← BlockReader.header previous)
  let oldHeader ← BlockReader.header old
  let oldRaw ← HeaderReader.raw oldHeader
  let newRaw ← copyRawHeader oldRaw parentHash.val (← RawHeaderReader.transactionsRoot oldRaw)
  let newHeader := Header.newBuilder newRaw (← HeaderReader.nonce oldHeader)
  .ok (blockOf newHeader (← BlockReader.uncles old) (← BlockReader.transactions old)
    (← BlockReader.proposals old))

/-- The loop: every block is given the hash of the one before as it is by
then. -/
def relinkFrom (previous : Bytes) : List Bytes → Run (List Bytes)
  | [] => .ok []
  | old :: rest => do
      let block ← relinkBlock previous old
      let blocks ← relinkFrom block rest
      .ok (block :: blocks)

def relinkBlocks : List Bytes → Run (List Bytes)
  | [] => .ok []
  | first :: rest => do
      let blocks ← relinkFrom first rest
      .ok (first :: blocks)

def blockWitnessRoot (block : Bytes) : Run Hash32 := do
  let txs ← BlockReader.transactions block
  let hashes ← readRange (fun i => do
    let tx ← itemAt txs i
    .ok (witnessHash tx)) (← itemCount txs) 0
  merkleRoot hashes

/-- The proposal with its duration stamped, and the scripts made for it. -/
structure Generated where
  proposal : Bytes
  proposalScript : Bytes
  voteTypeScript : Bytes
deriving DecidableEq, Repr

/-- `as_builder().duration(..).build()`.  The subtraction is taken without an
overflow check. -/
def stampDuration (proposal : Bytes) (numBlocks : Nat) : Run Bytes := do
  .ok (build [leBytes 4 (wrappingSub numBlocks 1 % 2 ^ 32),
    ← ProposalReader.voteCellCodeHash proposal, ← ProposalReader.voteCellHashType proposal,
    ← ProposalReader.description proposal, ← ProposalReader.receiver proposal,
    ← ProposalReader.amount proposal, ← ProposalReader.minimalRequirement proposal])

def generateScripts (proposal : Bytes) (numBlocks : Nat) : Run Generated := do
  let proposal ← stampDuration proposal numBlocks
  let proposalScript := Script.newBuilder (blake2b256 proposal).val [0] []
  let voteTypeScript := Script.newBuilder (← ProposalReader.voteCellCodeHash proposal)
    (← ProposalReader.voteCellHashType proposal) (blake160 proposalScript).val
  .ok ⟨proposal, proposalScript, voteTypeScript⟩

/-- The transaction appended to block `i`. -/
def Generated.extraTx (generated : Generated) (i : Nat) : Bytes :=
  if i = 0 then buildProposalTx generated.proposal generated.proposalScript
  else buildVoteTx generated.voteTypeScript i

def generateFromTemplates (proposal templateBlocks : Bytes) :
    Run (Except VerificationError Bytes) :=
  match fromCompatibleSlice BlockVecReader.verify templateBlocks with
  | .error e => .ok (.error e)
  | .ok blockVec => do
      let numBlocks ← itemCount blockVec
      let generated ← generateScripts proposal numBlocks
      let blocks ← readRange (fun i => do
        let template ← itemAt blockVec i
        rebuildBlockWithExtraTx template (generated.extraTx i)) numBlocks 0
      let blocks ← relinkBlocks blocks
      let witnessRoots ← blocks.mapM blockWitnessRoot
      .ok (.ok (GuestProgramArguments.newBuilder (buildBytes (BlockVec.newBuilder blocks))
        (buildFixVec (witnessRoots.map FixedBytes.val)) generated.proposalScript))

/-! ## Slots -/

/-- A template block and the transaction appended to it. -/
structure Slot where
  template : Bytes
  extraTx : Bytes

/-- The transactions of the new block. -/
def Slot.txs (slot : Slot) : List Bytes := transactionSlices slot.template ++ [slot.extraTx]

def Slot.raws (slot : Slot) : List Bytes := slot.txs.map fun tx => part tx 0

/-- The new block under a header. -/
def Slot.block (slot : Slot) (header : Bytes) : Bytes :=
  blockOf header (part slot.template 1) (build slot.txs) (part slot.template 3)

/-- The size of the new block.  Fields behind the declared four are dropped. -/
def Slot.size (slot : Slot) : Nat :=
  20 + 208 + (part slot.template 1).length + ((part slot.template 2).length + 4 +
    slot.extraTx.length) + (part slot.template 3).length

/-- What the passes need of a slot. -/
structure Slot.Ready (slot : Slot) : Prop where
  layout : BlockLayout slot.template
  raw_eq : ∀ tx ∈ slot.txs, TransactionReader.raw tx = .ok (part tx 0)
  size_lt : slot.size < 2 ^ 32

/-- What the passes keep: the new block under a header with its root. -/
structure Slot.FilledUnder (slot : Slot) (header : Bytes) : Prop where
  length_eq : header.length = 208
  root_eq : ∃ root, calcTransactionsRoot slot.txs = .ok root ∧ rootField header = root.val

def Slot.Filled (slot : Slot) (block : Bytes) : Prop :=
  ∃ header, block = slot.block header ∧ slot.FilledUnder header

/-! ## Reading and copying -/

omit [Blake2b] in
theorem itemAt_eq {s : Bytes} (h : DynVec.Layout s) {i : Nat} (hi : i < (DynVec.items s).length) :
    itemAt s i = .ok (DynVec.items s)[i] := by
  rw [itemAt, DynVec.get_eq h, List.getElem?_eq_getElem hi]
  rfl

omit [Blake2b] in
theorem readRange_itemAt {s : Bytes} (h : DynVec.Layout s) :
    readRange (itemAt s) (DynVec.items s).length 0 = .ok (DynVec.items s) := by
  rw [readRange_eq_ok]
  refine ⟨rfl, fun i hi => ?_⟩
  rw [Nat.zero_add, itemAt_eq h hi]

/-- A header with its two digests replaced. -/
def withDigests (header parentHash transactionsRoot : Bytes) : Bytes :=
  slice header 0 32 ++ parentHash ++ transactionsRoot ++ slice header 96 208

omit [Blake2b] in
/-- A header with new digests keeps its size and has them in their fields. -/
theorem withDigests_fields {header parentHash transactionsRoot : Bytes}
    (hlen : header.length = 208) (hparent : parentHash.length = 32)
    (hroot : transactionsRoot.length = 32) :
    (withDigests header parentHash transactionsRoot).length = 208 ∧
      parentField (withDigests header parentHash transactionsRoot) = parentHash ∧
      rootField (withDigests header parentHash transactionsRoot) = transactionsRoot := by
  have hfront : (slice header 0 32).length = 32 := length_slice (by omega)
  have hback : (slice header 96 208).length = 112 := length_slice (by omega)
  refine ⟨by simp [withDigests, hfront, hback, hparent, hroot], ?_, ?_⟩
  · have hmiddle := slice_middle (slice header 0 32) parentHash
      (transactionsRoot ++ slice header 96 208)
    rw [hfront, hparent] at hmiddle
    simpa [withDigests, parentField] using hmiddle
  · have hmiddle := slice_middle (slice header 0 32 ++ parentHash) transactionsRoot
      (slice header 96 208)
    rw [List.length_append, hfront, hparent, hroot] at hmiddle
    simpa [withDigests, rootField] using hmiddle

omit [Blake2b] in
/-- Both passes copy a header whole but for its digests. -/
theorem copyRawHeader_eq {header : Bytes} (hlen : header.length = 208) :
    ∃ raw nonce, HeaderReader.raw header = .ok raw ∧ HeaderReader.nonce header = .ok nonce ∧
      RawHeaderReader.parentHash raw = .ok (parentField header) ∧
      RawHeaderReader.transactionsRoot raw = .ok (rootField header) ∧
      ∀ parentHash transactionsRoot, ∃ newRaw,
        copyRawHeader raw parentHash transactionsRoot = .ok newRaw ∧
          Header.newBuilder newRaw nonce = withDigests header parentHash transactionsRoot := by
  obtain ⟨raw, hraw, hparent, hroot⟩ := header_fields hlen
  have hrawEq : raw = slice header 0 192 := by
    rw [HeaderReader.raw, readSlice_ok (by omega) (by omega)] at hraw
    exact (Except.ok.inj hraw).symm
  have hrawLen : (slice header 0 192).length = 192 := length_slice (by omega)
  have hread : ∀ a b, a ≤ b → b ≤ 192 →
      readSlice (slice header 0 192) a b = .ok (slice header a b) := by
    intro a b hab hb
    rw [readSlice_ok hab (by omega), slice_slice (by omega), Nat.zero_add, Nat.zero_add]
  refine ⟨raw, slice header 192 208, hraw, readSlice_ok (by omega) (by omega), hparent, hroot,
    fun parentHash transactionsRoot => ?_⟩
  subst hrawEq
  simp (disch := omega) only [copyRawHeader, RawHeaderReader.version, RawHeaderReader.compactTarget,
    RawHeaderReader.timestamp, RawHeaderReader.number, RawHeaderReader.epoch,
    RawHeaderReader.proposalsHash, RawHeaderReader.extraHash, RawHeaderReader.dao,
    hread, ok_bind]
  refine ⟨_, rfl, ?_⟩
  have hfront : slice header 0 4 ++ slice header 4 8 ++ slice header 8 16 ++ slice header 16 24 ++
      slice header 24 32 = slice header 0 32 := by
    simp (disch := omega) only [slice_append_slice]
  have hback : slice header 96 128 ++ (slice header 128 160 ++ (slice header 160 192 ++
      slice header 192 208)) = slice header 96 208 := by
    simp (disch := omega) only [slice_append_slice]
  rw [Header.newBuilder, RawHeader.newBuilder, hfront, withDigests, ← hback]
  simp only [List.append_assoc]

/-! ## Filling and relinking -/

omit [Blake2b] in
/-- The getter of the uncles reads part 1. -/
theorem uncles_eq {s : Bytes} (h : BlockLayout s) : BlockReader.uncles s = .ok (part s 1) :=
  h.table.field_eq h.fields (by decide)

omit [Blake2b] in
/-- The getter of the proposals reads part 3. -/
theorem proposals_eq {s : Bytes} (h : BlockLayout s) : BlockReader.proposals s = .ok (part s 3) :=
  h.table.field_eq h.fields (by decide)

section Slots

variable {slot : Slot} {header block previous : Bytes}

omit [Blake2b] in
/-- The size of the transactions with one more. -/
theorem Slot.length_txs (h : BlockLayout slot.template) :
    (build slot.txs).length = (part slot.template 2).length + 4 + slot.extraTx.length := by
  have hlen := DynVec.length_eq h.transactions
  rw [length_build, Slot.txs, transactionSlices, List.length_append, List.flatten_append,
    List.length_append]
  simp only [List.length_cons, List.length_nil, List.flatten_cons, List.flatten_nil,
    List.append_nil]
  omega

omit [Blake2b] in
/-- A block made from a slot has the size of the slot. -/
theorem Slot.length_block (h : BlockLayout slot.template) (hheader : header.length = 208) :
    (slot.block header).length = slot.size := by
  rw [Slot.block, blockOf, length_build, Slot.size, ← Slot.length_txs h]
  simp only [List.length_cons, List.length_nil, List.flatten_cons, List.flatten_nil,
    List.length_append, hheader]
  omega

/-- A new block reads as what it was built from. -/
structure Slot.Reads (slot : Slot) (header block : Bytes) : Prop where
  layout : BlockLayout block
  header_eq : headerSlice block = header
  uncles_eq : part block 1 = part slot.template 1
  transactions_eq : part block 2 = build slot.txs
  proposals_eq : part block 3 = part slot.template 3
  slices_eq : transactionSlices block = slot.txs

omit [Blake2b] in
/-- A slot that is ready is read back from the block made of it. -/
theorem Slot.Ready.reads (h : slot.Ready) (hheader : header.length = 208) :
    slot.Reads header (slot.block header) := by
  have hsize := h.size_lt
  have hlen := Slot.length_block h.layout hheader
  have htxsLen := Slot.length_txs h.layout
  rw [Slot.block, blockOf] at hlen
  have hbuild : (build [header, part slot.template 1, build slot.txs,
      part slot.template 3]).length < 2 ^ 32 := by omega
  have htxs : (build slot.txs).length < 2 ^ 32 := by
    rw [htxsLen]
    unfold Slot.size at hsize
    omega
  have h0 := part_build hbuild (by simp) (k := 0) (by simp)
  have h1 := part_build hbuild (by simp) (k := 1) (by simp)
  have h2 := part_build hbuild (by simp) (k := 2) (by simp)
  have h3 := part_build hbuild (by simp) (k := 3) (by simp)
  simp only [List.getElem_cons_zero, List.getElem_cons_succ] at h0 h1 h2 h3
  have hslices : transactionSlices (slot.block header) = slot.txs := by
    rw [transactionSlices, Slot.block, blockOf, h2, dynVec_items_build htxs]
  refine ⟨⟨build_layout hbuild (by simp), ?_, ?_, ?_, ?_, ?_⟩, h0, h1, h2, h3, hslices⟩
  · exact Nat.le_of_eq (headerCount_build hbuild (by simp)).symm
  · exact (congrArg List.length h0).trans hheader
  · exact h1 ▸ h.layout.uncles
  · exact h2 ▸ dynVec_build_layout htxs
  · exact h3 ▸ h.layout.proposals

/-- A filled slot is read back from its block. -/
theorem Slot.Filled.reads (h : slot.Filled block) (hready : slot.Ready) :
    slot.Reads (headerSlice block) block ∧ slot.FilledUnder (headerSlice block) ∧
      block.length = slot.size := by
  obtain ⟨header, rfl, hunder⟩ := h
  have hreads := hready.reads hunder.length_eq
  rw [hreads.header_eq]
  exact ⟨hreads, hunder, Slot.length_block hready.layout hunder.length_eq⟩

/-- The root of the new transactions. -/
theorem Slot.Ready.root_eq (h : slot.Ready) : ∃ rawRoot witness,
    merkleRoot (slot.raws.map blake2b256) = .ok rawRoot ∧
      merkleRoot (slot.txs.map witnessHash) = .ok witness ∧
      calcTransactionsRoot slot.txs = .ok (merge rawRoot witness) := by
  have hhashes : slot.txs.mapM txHash =
      .ok (slot.raws.map blake2b256) := by
    rw [mapM_eq_ok, Slot.raws, List.map_map, List.forall₂_map_right_iff, List.forall₂_same]
    intro tx htx
    rw [txHash, h.raw_eq tx htx]
    rfl
  obtain ⟨rawRoot, hraw⟩ := merkleRoot_isOk (slot.raws.map blake2b256)
  obtain ⟨witness, hwitness⟩ := merkleRoot_isOk (slot.txs.map witnessHash)
  refine ⟨rawRoot, witness, hraw, hwitness, ?_⟩
  rw [calcTransactionsRoot, hhashes, ok_bind, hraw, ok_bind, hwitness, ok_bind, merkleRoot_pair]

omit [Blake2b] in
/-- The raw transactions of a block in a slot. -/
theorem Slot.Ready.rawTransactions_eq (h : slot.Ready) (hreads : slot.Reads header block) :
    rawTransactions block = .ok slot.raws := by
  rw [Slot.raws, ← hreads.slices_eq]
  exact rawTransactions_of_layout hreads.layout fun tx htx =>
    h.raw_eq tx (hreads.slices_eq ▸ htx)

/-- A filled slot has the root that CKB computes. -/
theorem Slot.Filled.honestRoot (h : slot.Filled block) (hready : slot.Ready) :
    HonestRoot block := by
  obtain ⟨hreads, hunder, -⟩ := h.reads hready
  obtain ⟨root, hroot, hfield⟩ := hunder.root_eq
  obtain ⟨rawRoot, witness, hraw, hwitness, hcalc⟩ := hready.root_eq
  obtain rfl : merge rawRoot witness = root := Except.ok.inj (hcalc.symm.trans hroot)
  exact ⟨_, rawRoot, witness, _, hready.rawTransactions_eq hreads, hraw,
    hreads.slices_eq ▸ hwitness, merkleRoot_pair rawRoot witness, hfield.symm⟩

/-- **The first pass fills a slot.** -/
theorem rebuildBlockWithExtraTx_filled (h : slot.Ready) :
    ∃ block, rebuildBlockWithExtraTx slot.template slot.extraTx = .ok block ∧
      slot.Filled block := by
  obtain ⟨rawRoot, witness, -, -, hcalc⟩ := h.root_eq
  have hheader := h.layout.length_header
  obtain ⟨raw, nonce, hraw, hnonce, hparent, -, hcopy⟩ := copyRawHeader_eq hheader
  obtain ⟨newRaw, hnew, hbuilt⟩ :=
    hcopy (parentField (headerSlice slot.template)) (merge rawRoot witness).val
  have hparentLen : (parentField (headerSlice slot.template)).length = 32 :=
    length_slice (by omega)
  obtain ⟨hlen, -, hfield⟩ := withDigests_fields hheader hparentLen (merge rawRoot witness).property
  refine ⟨slot.block (withDigests (headerSlice slot.template)
    (parentField (headerSlice slot.template)) (merge rawRoot witness).val), ?_, _, rfl, hlen,
    _, hcalc, hfield⟩
  rw [rebuildBlockWithExtraTx, h.layout.transactions_eq, ok_bind,
    DynVec.itemCount_eq h.layout.transactions, ok_bind, readRange_itemAt h.layout.transactions,
    ok_bind]
  change (calcTransactionsRoot slot.txs >>= _) = _
  rw [hcalc, ok_bind, h.layout.header_eq, ok_bind, hraw, ok_bind, hparent, ok_bind, hnew, ok_bind,
    hnonce, ok_bind, hbuilt, uncles_eq h.layout, ok_bind, proposals_eq h.layout]
  rfl

/-- **Relinking keeps a slot filled** and gives the block the hash of the one
before. -/
theorem relinkBlock_filled (hready : slot.Ready) (h : slot.Filled block)
    (hprevious : BlockLayout previous) :
    ∃ relinked, relinkBlock previous block = .ok relinked ∧ slot.Filled relinked ∧
      (headerHash (headerSlice previous)).val = parentField (headerSlice relinked) := by
  obtain ⟨hreads, hunder, -⟩ := h.reads hready
  obtain ⟨root, hcalc, hroot⟩ := hunder.root_eq
  have hheader := hunder.length_eq
  obtain ⟨raw, nonce, hraw, hnonce, -, hrootField, hcopy⟩ := copyRawHeader_eq hheader
  obtain ⟨newRaw, hnew, hbuilt⟩ := hcopy (headerHash (headerSlice previous)).val root.val
  obtain ⟨hlen, hparent, hfield⟩ :=
    withDigests_fields hheader (headerHash (headerSlice previous)).property root.property
  refine ⟨slot.block (withDigests (headerSlice block) (headerHash (headerSlice previous)).val
    root.val), ?_, ⟨_, rfl, hlen, root, hcalc, hfield⟩, ?_⟩
  · rw [relinkBlock, hprevious.header_eq, ok_bind, hreads.layout.header_eq, ok_bind, hraw, ok_bind,
      hrootField, ok_bind, hroot]
    change (copyRawHeader raw (headerHash (headerSlice previous)).val root.val >>= _) = _
    rw [hnew, ok_bind, hnonce, ok_bind, hbuilt, uncles_eq hreads.layout, ok_bind,
      hreads.layout.transactions_eq, ok_bind, proposals_eq hreads.layout, hreads.uncles_eq,
      hreads.transactions_eq, hreads.proposals_eq]
    rfl
  · rw [(hready.reads hlen).header_eq, hparent]

end Slots

/-! ## The passes over all blocks -/

/-- Relinking keeps the slots filled and links the blocks. -/
theorem relinkFrom_linked {slots : List Slot} {olds : List Bytes} {previous : Bytes}
    (hready : ∀ slot ∈ slots, slot.Ready) (h : List.Forall₂ Slot.Filled slots olds)
    (hprevious : BlockLayout previous) :
    ∃ blocks, relinkFrom previous olds = .ok blocks ∧ List.Forall₂ Slot.Filled slots blocks ∧
      Linked (previous :: blocks) := by
  induction h generalizing previous with
  | nil => exact ⟨[], rfl, .nil, linked_singleton previous⟩
  | cons hold _ ih =>
      obtain ⟨hfirst, hrest⟩ := List.forall_mem_cons.mp hready
      obtain ⟨block, hblock, hfilled, hlink⟩ := relinkBlock_filled hfirst hold hprevious
      obtain ⟨blocks, hblocks, hall, hlinked⟩ := ih hrest (hfilled.reads hfirst).1.layout
      refine ⟨block :: blocks, ?_, .cons hfilled hall, hlinked.cons hlink⟩
      rw [relinkFrom, hblock, ok_bind, hblocks]
      rfl

/-- **The second pass links the chain** and leaves the slots filled. -/
theorem relinkBlocks_linked {slots : List Slot} {olds : List Bytes}
    (hready : ∀ slot ∈ slots, slot.Ready) (h : List.Forall₂ Slot.Filled slots olds) :
    ∃ blocks, relinkBlocks olds = .ok blocks ∧ List.Forall₂ Slot.Filled slots blocks ∧
      Linked blocks := by
  cases h with
  | nil => exact ⟨[], rfl, .nil, fun i hi => absurd hi (Nat.not_lt_zero _)⟩
  | cons hfirst hrest =>
      obtain ⟨hreadyFirst, hreadyRest⟩ := List.forall_mem_cons.mp hready
      obtain ⟨blocks, hblocks, hall, hlinked⟩ :=
        relinkFrom_linked hreadyRest hrest (hfirst.reads hreadyFirst).1.layout
      refine ⟨_ :: blocks, ?_, .cons hfirst hall, hlinked⟩
      rw [relinkBlocks, hblocks]
      rfl

/-- The witness root of a block is that of its witness hashes. -/
theorem blockWitnessRoot_eq {block : Bytes} (h : BlockLayout block) :
    blockWitnessRoot block = merkleRoot ((transactionSlices block).map witnessHash) := by
  have hread : readRange (fun i => itemAt (part block 2) i >>= fun tx => .ok (witnessHash tx))
      (transactionSlices block).length 0 = .ok ((transactionSlices block).map witnessHash) :=
    readRange_map.mpr ⟨_, readRange_itemAt h.transactions, rfl⟩
  rw [blockWitnessRoot, h.transactions_eq, ok_bind, DynVec.itemCount_eq h.transactions, ok_bind]
  exact (congrArg (· >>= merkleRoot) hread).trans rfl

/-- The templates with the transactions appended to them. -/
def Generated.slots (generated : Generated) (templates : List Bytes) : List Slot :=
  templates.mapIdx fun i template => ⟨template, generated.extraTx i⟩

omit [Blake2b] in
theorem Generated.length_slots (generated : Generated) (templates : List Bytes) :
    (generated.slots templates).length = templates.length := List.length_mapIdx

/-- The roots handed to the guest are those of the blocks' transactions. -/
def AreWitnessRoots (blocks : List Bytes) (roots : List Hash32) : Prop :=
  List.Forall₂ (fun block root => merkleRoot ((transactionSlices block).map witnessHash) = .ok root)
    blocks roots

/-- The first pass over all blocks. -/
theorem rebuildBlocks_filled {templateBlocks : Bytes} (generated : Generated)
    (htemplate : BlockVecReader.verify true templateBlocks = .ok ())
    (hready : ∀ slot ∈ generated.slots (blockSlices templateBlocks), slot.Ready) :
    ∃ blocks, readRange (fun i => itemAt templateBlocks i >>= fun template =>
        rebuildBlockWithExtraTx template (generated.extraTx i))
        (blockSlices templateBlocks).length 0 = .ok blocks ∧
      List.Forall₂ Slot.Filled (generated.slots (blockSlices templateBlocks)) blocks := by
  obtain ⟨hlayout, -⟩ := DynVec.verify_eq_ok.mp htemplate
  have hlen := generated.length_slots (blockSlices templateBlocks)
  have hfill : ∀ (i : Nat) (hi : i < (generated.slots (blockSlices templateBlocks)).length),
      ∃ block, (itemAt templateBlocks (0 + i) >>= fun template =>
          rebuildBlockWithExtraTx template (generated.extraTx (0 + i))) = .ok block ∧
        Slot.Filled (generated.slots (blockSlices templateBlocks))[i] block := by
    intro i hi
    obtain ⟨block, hblock, hfilled⟩ :=
      rebuildBlockWithExtraTx_filled (hready _ (List.getElem_mem hi))
    refine ⟨block, ?_, hfilled⟩
    simp only [Generated.slots, List.getElem_mapIdx] at hblock
    have hi' : i < (DynVec.items templateBlocks).length := hlen ▸ hi
    rw [Nat.zero_add, itemAt_eq hlayout hi', ok_bind]
    exact hblock
  obtain ⟨blocks, hblocks⟩ : ∃ blocks, readRange (fun i => itemAt templateBlocks i >>=
      fun template => rebuildBlockWithExtraTx template (generated.extraTx i))
      (blockSlices templateBlocks).length 0 = .ok blocks := by
    refine exists_readRange fun i hi => ?_
    obtain ⟨block, hblock, -⟩ := hfill i (by rwa [hlen])
    exact ⟨block, hblock⟩
  obtain ⟨hblocksLen, hitems⟩ := readRange_eq_ok.mp hblocks
  refine ⟨blocks, hblocks, List.forall₂_of_length_eq_of_get (by rw [hlen, hblocksLen]) ?_⟩
  intro i hi hi'
  obtain ⟨block, hblock, hfills⟩ := hfill i hi
  obtain rfl : blocks[i] = block := Except.ok.inj ((hitems i hi').symm.trans hblock)
  exact hfills

/-- Each block fills a slot. -/
theorem slot_of_filled {slots : List Slot} {blocks : List Bytes} {block : Bytes}
    (hready : ∀ slot ∈ slots, slot.Ready)
    (h : List.Forall₂ Slot.Filled slots blocks) (hblock : block ∈ blocks) :
    ∃ slot : Slot, slot.Ready ∧ slot.Filled block := by
  obtain ⟨slot, hslot, hfilled⟩ := exists_of_mem_right h hblock
  exact ⟨slot, hready slot hslot, hfilled⟩

/-- The last pass. -/
theorem witnessRoots_filled {slots : List Slot} {blocks : List Bytes}
    (hready : ∀ slot ∈ slots, slot.Ready) (h : List.Forall₂ Slot.Filled slots blocks) :
    ∃ roots, blocks.mapM blockWitnessRoot = .ok roots ∧ AreWitnessRoots blocks roots := by
  have heq : ∀ block ∈ blocks, blockWitnessRoot block =
      merkleRoot ((transactionSlices block).map witnessHash) := by
    intro block hblock
    obtain ⟨slot, hslot, hfilled⟩ := slot_of_filled hready h hblock
    exact blockWitnessRoot_eq (hfilled.reads hslot).1.layout
  obtain ⟨roots, hroots⟩ : ∃ roots, blocks.mapM blockWitnessRoot = .ok roots := by
    refine exists_mapM fun block hblock => ?_
    rw [heq block hblock]
    exact merkleRoot_isOk _
  have hboth := (List.forall₂_and_left _ _).mpr ⟨heq, mapM_eq_ok.mp hroots⟩
  exact ⟨roots, hroots, hboth.imp fun _ _ hroot => hroot.1.symm.trans hroot.2⟩

/-- **What is generated**: blocks that fill the slots, linked, with their
witness roots. -/
theorem generateFromTemplates_eq {proposal templateBlocks : Bytes} {generated : Generated}
    (htemplate : BlockVecReader.verify true templateBlocks = .ok ())
    (hscripts : generateScripts proposal (blockSlices templateBlocks).length = .ok generated)
    (hready : ∀ slot ∈ generated.slots (blockSlices templateBlocks), slot.Ready) :
    ∃ blocks roots, generateFromTemplates proposal templateBlocks =
        .ok (.ok (guestArguments (BlockVec.newBuilder blocks) roots generated.proposalScript)) ∧
      List.Forall₂ Slot.Filled (generated.slots (blockSlices templateBlocks)) blocks ∧
      Linked blocks ∧ AreWitnessRoots blocks roots := by
  have hshallow : verifyBlockVec true templateBlocks = .ok () :=
    (verifyBlockVec_of_verify htemplate).1
  obtain ⟨olds, holds, hfilled⟩ := rebuildBlocks_filled generated htemplate hready
  obtain ⟨blocks, hblocks, hall, hlinked⟩ := relinkBlocks_linked hready hfilled
  obtain ⟨roots, hroots, hare⟩ := witnessRoots_filled hready hall
  refine ⟨blocks, roots, ?_, hall, hlinked, hare⟩
  rw [generateFromTemplates, fromCompatibleSlice_eq_ok.mpr ⟨htemplate, rfl⟩]
  simp only [itemCount_blocks hshallow, ok_bind, hscripts]
  rw [holds, ok_bind, hblocks, ok_bind, hroots]
  rfl

/-! ## Sizes -/

/-- The size of the arguments: the blocks behind one offset each, a root for
every block, and a script without args. -/
def argumentsSize (slots : List Slot) : Nat :=
  24 + (4 + (slots.map fun slot => 4 + slot.size).sum) + 32 * slots.length + 53

omit [Blake2b] in
/-- No slot is larger than the arguments. -/
theorem size_le_argumentsSize {slots : List Slot} {slot : Slot} (h : slot ∈ slots) :
    slot.size ≤ argumentsSize slots := by
  obtain ⟨before, after, rfl⟩ := List.append_of_mem h
  simp [argumentsSize]
  omega

/-- The arguments have the size computed from the slots. -/
theorem length_arguments {slots : List Slot} {blocks : List Bytes} {roots : List Hash32}
    {script : Bytes} (hready : ∀ slot ∈ slots, slot.Ready)
    (h : List.Forall₂ Slot.Filled slots blocks) (hroots : roots.length = slots.length)
    (hscript : script.length = 53) :
    (guestArguments (BlockVec.newBuilder blocks) roots script).length = argumentsSize slots := by
  have hblocks : 4 * blocks.length + blocks.flatten.length =
      (slots.map fun slot => 4 + slot.size).sum := by
    clear hroots
    induction h with
    | nil => rfl
    | cons hfirst _ ih =>
        obtain ⟨hreadyFirst, hreadyRest⟩ := List.forall_mem_cons.mp hready
        obtain ⟨-, -, hlen⟩ := hfirst.reads hreadyFirst
        have hrest := ih hreadyRest
        simp only [List.length_cons, List.flatten_cons, List.length_append, List.map_cons,
          List.sum_cons]
        omega
  rw [length_guestArguments, BlockVec.newBuilder, length_build, argumentsSize, hroots, hscript]
  omega

/-! ## The chain that is generated -/

section Chain

variable {slots : List Slot} {blocks : List Bytes}

omit [Blake2b] in
/-- A built block vector is read back as its blocks. -/
theorem blockSlices_newBuilder (hsize : (BlockVec.newBuilder blocks).length < 2 ^ 32) :
    blockSlices (BlockVec.newBuilder blocks) = blocks := dynVec_items_build hsize

/-- Filled blocks verify. -/
theorem verifyBlockVec_filled (hready : ∀ slot ∈ slots, slot.Ready)
    (h : List.Forall₂ Slot.Filled slots blocks)
    (hsize : (BlockVec.newBuilder blocks).length < 2 ^ 32) (compatible : Bool) :
    verifyBlockVec compatible (BlockVec.newBuilder blocks) = .ok () := by
  refine verifyBlockVec_eq_ok.mpr ⟨dynVec_build_layout hsize, fun block hblock => ?_⟩
  rw [blockSlices_newBuilder hsize] at hblock
  obtain ⟨slot, hslot, hfilled⟩ := slot_of_filled hready h hblock
  exact (hfilled.reads hslot).1.layout

/-- **Filled and linked blocks pass the integrity check** on their witness
roots. -/
theorem verifyBlockIntegrity_filled (hready : ∀ slot ∈ slots, slot.Ready)
    (h : List.Forall₂ Slot.Filled slots blocks)
    (hsize : (BlockVec.newBuilder blocks).length < 2 ^ 32) (hne : 0 < blocks.length)
    (hlinked : Linked blocks) {roots : List Hash32} (hroots : AreWitnessRoots blocks roots)
    (hcount : roots.length < 2 ^ 32) :
    verifyBlockIntegrity (BlockVec.newBuilder blocks) (buildFixVec (roots.map FixedBytes.val)) =
      .ok (.ok ()) := by
  have hslices := blockSlices_newBuilder hsize
  have hhonest : ∀ block ∈ blocks, HonestRoot block := by
    intro block hblock
    obtain ⟨slot, hslot, hfilled⟩ := slot_of_filled hready h hblock
    exact hfilled.honestRoot hslot
  refine verifyBlockIntegrity_of_honest (verifyBlockVec_filled hready h hsize false) ?_ ?_ ?_ ?_
    hcount ?_
  · rw [hslices]
    exact List.ne_nil_of_length_pos hne
  · rwa [hslices]
  · rwa [hslices]
  · rw [hslices]
    exact hroots.length_eq.symm
  · rw [hslices]
    exact fun i hi hi' => hroots.get hi hi'

/-- The raw transactions of filled blocks are those of the slots. -/
theorem blockRaws_filled (hready : ∀ slot ∈ slots, slot.Ready)
    (h : List.Forall₂ Slot.Filled slots blocks)
    (hsize : (BlockVec.newBuilder blocks).length < 2 ^ 32) :
    blockRaws (BlockVec.newBuilder blocks) = .ok (slots.map Slot.raws) := by
  rw [blockRaws_eq_ok (verifyBlockVec_filled hready h hsize true), blockSlices_newBuilder hsize]
  refine ⟨by rw [List.length_map, h.length_eq], fun i hi hi' => ?_⟩
  rw [List.length_map] at hi
  have hslot := hready _ (List.getElem_mem hi)
  have hfilled := h.get hi hi'
  rw [List.getElem_map]
  exact hslot.rawTransactions_eq (hfilled.reads hslot).1

end Chain

end Code

end CkbVote.TestTool
