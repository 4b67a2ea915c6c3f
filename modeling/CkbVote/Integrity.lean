import CkbVote.MerkleTree
import CkbVote.Verified

/-!
# Block integrity

`merkle_root`, `calc_transactions_root` and `verify_block_integrity` of the
verification crate.  The witness roots come from the prover: only the hashes
of the raw transactions are computed here.

`verifyBlockIntegrity_ok` states what the accepted blocks have in common with
a chain: each header names the hash of the one before, and each header's
`transactions_root` is the merge of the root of its raw transactions with some
witness root.
-/

namespace CkbVote

open Octets Molecule

/-- The error type of the verification crate. -/
inductive IntegrityError
  | emptyBlocks
  | parentHashMismatch (blockIndex : Nat)
  | transactionsRootMismatch (blockIndex : Nat)
deriving DecidableEq, Repr

section Code

variable [Blake2b]

/-- The 64 bytes that `merge` hashes. -/
def mergeInput (left right : Hash32) : Bytes := left.val ++ right.val

def merge (left right : Hash32) : Hash32 := blake2b256 (mergeInput left right)

def merkleRoot (leaves : List Hash32) : Run Hash32 :=
  if leaves = [] then .ok (FixedBytes.zero 32) else Cbmt.rootOf merge leaves

/-- `copy_from_slice` into 32 bytes. -/
def byte32ToArr (b : Bytes) : Run Hash32 := toFixed 32 .lengthMismatch b

def headerHash (header : Bytes) : Hash32 := blake2b256 header

def computeHeaderHash (header : Bytes) : Hash32 := blake2b256 header

def txHash (tx : Bytes) : Run Hash32 := do
  let raw ← TransactionReader.raw tx
  .ok (blake2b256 raw)

def witnessHash (tx : Bytes) : Hash32 := blake2b256 tx

def calcTransactionsRoot (block witnessRoot : Bytes) : Run Hash32 := do
  let txs ← BlockReader.transactions block
  let txHashes ← readRange (fun k => do
    let tx ← DynVec.getUnchecked txs k
    txHash tx) (← itemCount txs) 0
  let rawRoot ← merkleRoot txHashes
  let witness ← byte32ToArr witnessRoot
  merkleRoot [rawRoot, witness]

/-- One turn of the loop over adjacent blocks. -/
def checkParent (blocks : Bytes) (i : Nat) : Run (Option IntegrityError) := do
  let prevBlock ← blockAt blocks (i - 1)
  let currentBlock ← blockAt blocks i
  let prevHash := headerHash (← BlockReader.header prevBlock)
  let raw ← HeaderReader.raw (← BlockReader.header currentBlock)
  let parentHash ← byte32ToArr (← RawHeaderReader.parentHash raw)
  if prevHash ≠ parentHash then .ok (some (.parentHashMismatch i)) else .ok none

/-- One turn of the loop over the transaction roots. -/
def checkTransactionsRoot (blocks witnessRoot : Bytes) (i : Nat) :
    Run (Option IntegrityError) := do
  let block ← blockAt blocks i
  let raw ← HeaderReader.raw (← BlockReader.header block)
  let expectedRoot ← byte32ToArr (← RawHeaderReader.transactionsRoot raw)
  match ← FixVec.get 32 witnessRoot i with
  | none => .error (.expect "witness_root index out of bounds")
  | some wr =>
      let actualRoot ← calcTransactionsRoot block wr
      if expectedRoot ≠ actualRoot then .ok (some (.transactionsRootMismatch i)) else .ok none

def verifyBlockIntegrity (blocks witnessRoot : Bytes) : Run (Except IntegrityError Unit) := do
  let count ← itemCount blocks
  if count = 0 then .ok (.error .emptyBlocks)
  else
    match ← findRange (checkParent blocks) (count - 1) 1 with
    | some e => .ok (.error e)
    | none =>
        match ← findRange (checkTransactionsRoot blocks witnessRoot) count 0 with
        | some e => .ok (.error e)
        | none => .ok (.ok ())

/-! ## What acceptance means -/

/-- The raw transactions of a block, in order. -/
def rawTransactions (block : Bytes) : Run (List Bytes) := do
  let txs ← BlockReader.transactions block
  readRange (rawTransaction txs) (← itemCount txs) 0

/-- The `parent_hash` bytes of a header. -/
def parentField (header : Bytes) : Bytes := slice header 32 64

/-- The `transactions_root` bytes of a header. -/
def rootField (header : Bytes) : Bytes := slice header 64 96

omit [Blake2b] in
theorem byte32ToArr_eq_ok {b : Bytes} {h : Hash32} : byte32ToArr b = .ok h ↔ b = h.val :=
  toFixed_eq_ok

/-- The root over two leaves is their merge. -/
theorem merkleRoot_pair (left right : Hash32) : merkleRoot [left, right] = .ok (merge left right) :=
  rfl

/-- The root of any leaves is computed. -/
theorem merkleRoot_isOk (leaves : List Hash32) : ∃ root, merkleRoot leaves = .ok root := by
  unfold merkleRoot
  split_ifs with h
  · exact ⟨_, rfl⟩
  · exact Cbmt.rootOf_isOk merge h

/-- **What `merkle_root` computes.**  There is an array of `2n - 1` nodes with
the `n` leaves at its end and every other node the merge of its children, and
the queue loop ends, without a `pop_front` on an empty queue, with node `0` of
any such array. -/
theorem merkleRoot_heap {leaves : List Hash32} (hne : leaves ≠ []) :
    Cbmt.IsHeap merge leaves (Cbmt.heapArray merge leaves) ∧
      ∀ nodes, Cbmt.IsHeap merge leaves nodes →
        ∃ root, nodes[0]? = some root ∧ merkleRoot leaves = .ok root := by
  refine ⟨Cbmt.isHeap_heapArray hne, fun nodes hnodes => ?_⟩
  rw [merkleRoot, if_neg hne]
  exact Cbmt.rootOf_heap hne hnodes

/-- A hash that keeps bytes 32 to 64 of what it hashes, so that a merge keeps
its right side. -/
abbrev rightHalf : Blake2b where
  digest data := (toFixed 32 .lengthMismatch (slice data 32 64)).toOption.getD (FixedBytes.zero 32)

/-- The second and third leaf of a sample of three. -/
abbrev lastLeaves : List Hash32 :=
  [@blake2b256 rightHalf (List.replicate 64 1), @blake2b256 rightHalf (List.replicate 64 2)]

omit [Blake2b] in
/-- Three leaves: the first is the right child of the root. -/
theorem merkleRoot_heap_three :
    @merkleRoot rightHalf (FixedBytes.zero 32 :: lastLeaves) = .ok (FixedBytes.zero 32) := by
  obtain ⟨hheap, hroot⟩ := @merkleRoot_heap rightHalf (FixedBytes.zero 32 :: lastLeaves) (by simp)
  obtain ⟨root, hnode, hok⟩ := hroot _ hheap
  have hzero : (Cbmt.heapArray (@merge rightHalf) (FixedBytes.zero 32 :: lastLeaves))[0]? =
      some (FixedBytes.zero 32) := by decide +kernel
  rw [hok, Option.some.inj (hnode.symm.trans hzero)]

/-- Reading transaction by transaction and hashing is hashing what was read. -/
theorem readRange_txHash {txs : Bytes} {count start : Nat} {hashes : List Hash32} :
    readRange (fun k => DynVec.getUnchecked txs k >>= txHash) count start = .ok hashes ↔
      ∃ raws, readRange (rawTransaction txs) count start = .ok raws ∧
        hashes = raws.map blake2b256 := by
  have hitem : (fun k => DynVec.getUnchecked txs k >>= txHash) =
      fun k => rawTransaction txs k >>= fun raw => .ok (blake2b256 raw) := by
    funext k
    simp only [rawTransaction, bind_assoc]
    rfl
  rw [hitem]
  exact readRange_map

/-- The root of a block is the merge of the root of its raw transactions with
the given witness root. -/
theorem calcTransactionsRoot_eq_ok {block witnessRoot : Bytes} {root : Hash32} :
    calcTransactionsRoot block witnessRoot = .ok root ↔
      ∃ (raws : List Bytes) (rawRoot witness : Hash32), rawTransactions block = .ok raws ∧
        merkleRoot (raws.map blake2b256) = .ok rawRoot ∧ witnessRoot = witness.val ∧
        root = merge rawRoot witness := by
  constructor
  · intro h
    obtain ⟨txs, htxs, h⟩ := bind_eq_ok.mp h
    obtain ⟨count, hcount, h⟩ := bind_eq_ok.mp h
    obtain ⟨hashes, hhashes, h⟩ := bind_eq_ok.mp h
    obtain ⟨raws, hraws, heq⟩ := readRange_txHash.mp hhashes
    rw [heq] at h
    obtain ⟨rawRoot, hrawRoot, h⟩ := bind_eq_ok.mp h
    obtain ⟨witness, hwitness, h⟩ := bind_eq_ok.mp h
    rw [merkleRoot_pair] at h
    cases h
    refine ⟨raws, rawRoot, witness, ?_, hrawRoot, byte32ToArr_eq_ok.mp hwitness, rfl⟩
    rw [rawTransactions, htxs, ok_bind, hcount, ok_bind, hraws]
  · intro h
    obtain ⟨raws, rawRoot, witness, hraws, hrawRoot, rfl, rfl⟩ := h
    obtain ⟨txs, htxs, hraws⟩ := bind_eq_ok.mp hraws
    obtain ⟨count, hcount, hraws⟩ := bind_eq_ok.mp hraws
    have hhashes := readRange_txHash.mpr ⟨raws, hraws, rfl⟩
    unfold calcTransactionsRoot
    rw [htxs, ok_bind, hcount, ok_bind]
    change (readRange (fun k => DynVec.getUnchecked txs k >>= txHash) count 0 >>= _) = _
    rw [hhashes, ok_bind, hrawRoot, ok_bind, byte32ToArr_eq_ok.mpr rfl, ok_bind, merkleRoot_pair]

variable {compatible : Bool} {blocks witnessRoot : Bytes}

omit [Blake2b] in
/-- Reading one of the two digests in a header. -/
theorem header_fields {header : Bytes} (hlen : header.length = 208) :
    ∃ raw, HeaderReader.raw header = .ok raw ∧
      RawHeaderReader.parentHash raw = .ok (parentField header) ∧
      RawHeaderReader.transactionsRoot raw = .ok (rootField header) := by
  have hraw : (slice header 0 192).length = 192 := length_slice (by omega)
  refine ⟨slice header 0 192, readSlice_ok (by omega) (by omega), ?_, ?_⟩
  · rw [RawHeaderReader.parentHash, readSlice_ok (by omega) (by omega), slice_slice (by omega)]
    rfl
  · rw [RawHeaderReader.transactionsRoot, readSlice_ok (by omega) (by omega),
      slice_slice (by omega)]
    rfl

/-- Every header names the hash of the one before. -/
def Linked (blocks : List Bytes) : Prop :=
  ∀ (i : Nat) (hi : i + 1 < blocks.length),
    (headerHash (headerSlice blocks[i])).val = parentField (headerSlice blocks[i + 1])

theorem linked_singleton (block : Bytes) : Linked [block] :=
  fun i hi => absurd hi (by simp)

/-- A block in front is linked when the next names its hash as parent. -/
theorem Linked.cons {first second : Bytes} {rest : List Bytes}
    (h : (headerHash (headerSlice first)).val = parentField (headerSlice second))
    (hrest : Linked (second :: rest)) : Linked (first :: second :: rest) := by
  intro i hi
  cases i with
  | zero => exact h
  | succ i => exact hrest i (by simpa using hi)

/-- The check of a parent finds nothing exactly when the hash in front is the one
named. -/
theorem checkParent_eq_none (hverify : verifyBlockVec compatible blocks = .ok ()) {i : Nat}
    (hi : i + 1 < (blockSlices blocks).length) :
    checkParent blocks (1 + i) = .ok none ↔
      (headerHash (headerSlice (blockSlices blocks)[i])).val =
        parentField (headerSlice (blockSlices blocks)[i + 1]) := by
  have hprev := blockLayout_of_mem hverify (List.getElem_mem (Nat.lt_of_succ_lt hi))
  have hcur := blockLayout_of_mem hverify (List.getElem_mem hi)
  obtain ⟨raw, hraw, hparent, -⟩ := header_fields hcur.length_header
  have hlen : (parentField (headerSlice (blockSlices blocks)[i + 1])).length = 32 :=
    length_slice (by have := hcur.length_header; omega)
  have hsub : 1 + i - 1 = i := by omega
  rw [checkParent, hsub, Nat.add_comm 1 i, blockAt_eq hverify (Nat.lt_of_succ_lt hi), ok_bind,
    blockAt_eq hverify hi, ok_bind, hprev.header_eq, ok_bind, hcur.header_eq, ok_bind,
    hraw, ok_bind, hparent, ok_bind, byte32ToArr, toFixed_ok _ hlen, ok_bind]
  split_ifs with hne
  · simp only [Except.ok.injEq, reduceCtorEq, false_iff]
    exact fun heq => hne (FixedBytes.ext heq)
  · simp only [true_iff]
    exact congrArg FixedBytes.val (not_not.mp hne)

/-- The check of a root finds nothing exactly when the root computed from the
witness root is that of the header. -/
theorem checkTransactionsRoot_eq_none (hverify : verifyBlockVec compatible blocks = .ok ())
    {i : Nat} (hi : i < (blockSlices blocks).length) :
    checkTransactionsRoot blocks witnessRoot i = .ok none ↔
      ∃ wr root, FixVec.get 32 witnessRoot i = .ok (some wr) ∧
        calcTransactionsRoot (blockSlices blocks)[i] wr = .ok root ∧
        root.val = rootField (headerSlice (blockSlices blocks)[i]) := by
  have hblock := blockLayout_of_mem hverify (List.getElem_mem hi)
  obtain ⟨raw, hraw, -, hroot⟩ := header_fields hblock.length_header
  have hlen : (rootField (headerSlice (blockSlices blocks)[i])).length = 32 :=
    length_slice (by have := hblock.length_header; omega)
  rw [checkTransactionsRoot, blockAt_eq hverify hi, ok_bind, hblock.header_eq, ok_bind,
    hraw, ok_bind, hroot, ok_bind, byte32ToArr, toFixed_ok _ hlen, ok_bind]
  constructor
  · intro h
    obtain ⟨wr, hwr, h⟩ := bind_eq_ok.mp h
    cases wr with
    | none => cases h
    | some wr =>
        obtain ⟨root, hcalc, h⟩ := bind_eq_ok.mp h
        split_ifs at h with hne
        · cases h
        · exact ⟨wr, root, hwr, hcalc, congrArg FixedBytes.val (not_not.mp hne).symm⟩
  · intro h
    obtain ⟨wr, root, hwr, hcalc, heq⟩ := h
    rw [hwr, ok_bind]
    simp only [hcalc, ok_bind]
    rw [if_neg (not_not.mpr (FixedBytes.ext heq.symm))]

/-- **What `verify_block_integrity` accepts** of a block vector that passed
`verify_block_vec`: a non-empty chain in which every `transactions_root` is
the one computed with the given witness root. -/
theorem verifyBlockIntegrity_ok (hverify : verifyBlockVec compatible blocks = .ok ()) :
    verifyBlockIntegrity blocks witnessRoot = .ok (.ok ()) ↔
      blockSlices blocks ≠ [] ∧ Linked (blockSlices blocks) ∧
      ∀ (i : Nat) (hi : i < (blockSlices blocks).length), ∃ wr root,
        FixVec.get 32 witnessRoot i = .ok (some wr) ∧
          calcTransactionsRoot (blockSlices blocks)[i] wr = .ok root ∧
          root.val = rootField (headerSlice (blockSlices blocks)[i]) := by
  have hparents : findRange (checkParent blocks) ((blockSlices blocks).length - 1) 1 = .ok none ↔
      Linked (blockSlices blocks) := by
    rw [findRange_eq_none]
    constructor
    · exact fun h i hi => (checkParent_eq_none hverify hi).mp (h i (by omega))
    · exact fun h i hi => (checkParent_eq_none hverify (by omega)).mpr (h i (by omega))
  have hroots : findRange (checkTransactionsRoot blocks witnessRoot)
      (blockSlices blocks).length 0 = .ok none ↔
      ∀ (i : Nat) (hi : i < (blockSlices blocks).length), ∃ wr root,
        FixVec.get 32 witnessRoot i = .ok (some wr) ∧
          calcTransactionsRoot (blockSlices blocks)[i] wr = .ok root ∧
          root.val = rootField (headerSlice (blockSlices blocks)[i]) := by
    rw [findRange_eq_none]
    simp only [Nat.zero_add]
    exact forall_congr' fun i => forall_congr' fun hi =>
      checkTransactionsRoot_eq_none hverify hi
  rw [verifyBlockIntegrity, itemCount_blocks hverify, ok_bind, ← hparents, ← hroots]
  constructor
  · intro h
    by_cases hzero : (blockSlices blocks).length = 0
    · simp [hzero] at h
    · rw [if_neg hzero] at h
      obtain ⟨first, hfirst, h⟩ := bind_eq_ok.mp h
      cases first with
      | some e => cases h
      | none =>
          obtain ⟨second, hsecond, h⟩ := bind_eq_ok.mp h
          cases second with
          | some e => cases h
          | none => exact ⟨fun hnil => hzero (by simp [hnil]), hfirst, hsecond⟩
  · intro h
    obtain ⟨hne, hfirst, hsecond⟩ := h
    rw [if_neg (by simpa using hne), hfirst, ok_bind]
    simp only [hsecond, ok_bind]

end Code

end CkbVote
