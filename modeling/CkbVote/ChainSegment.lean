import CkbVote.ChainVotes
import CkbVote.Settlement
import Mathlib.Data.List.Forall2

/-!
# Counts over segments of the chain

The main chain is a sequence of blocks and a history of transactions.  A block
vector that holds a segment of it has a window that is part of the history, so
votes naming one deposit carry one lock (`segment_oneLock`), the sums are live
CKB (`segment_live_deposits`), and spending anything but deposits, vote cells
included, changes no ballot (`segment_recycling`).

Soundness of settlement ends with a passing count over such a segment.
`settled_live_deposits` adds what that count is about: the block that ends the
window leaves live Nervos DAO deposits, all different, whose CKB for YES
exceeds their CKB for NO and meets the requirement.
-/

namespace CkbVote

open Octets Molecule

section Code

variable [Blake2b]

/-! ## The window of raw transactions -/

omit [Blake2b] in
/-- The window is what the tally reads of the raw transactions, one by one. -/
theorem window_raws {compatible : Bool} {blocks : Bytes} {raws : List (List Bytes)} {poll : Poll}
    {wtxs : List WindowTx} (hverify : verifyBlockVec compatible blocks = .ok ())
    (hraws : blockRaws blocks = .ok raws) (h : window poll blocks = .ok wtxs) :
    List.Forall₂ (fun raw wtx => readTx poll raw = .ok wtx) raws.flatten wtxs := by
  obtain ⟨hlen, hitems⟩ := (blockRaws_eq_ok hverify).mp hraws
  obtain ⟨count, hcount, h⟩ := bind_eq_ok.mp h
  obtain rfl := Except.ok.inj ((itemCount_blocks hverify).symm.trans hcount)
  obtain ⟨perBlock, hblocks, h⟩ := bind_eq_ok.mp h
  obtain rfl := Except.ok.inj h
  obtain ⟨hlen', hreads⟩ := readRange_eq_ok.mp hblocks
  refine List.rel_flatten (List.forall₂_iff_get.mpr ⟨by omega, fun i hi hi' => ?_⟩)
  have hread := hreads i hi'
  rw [Nat.zero_add, blockAt_eq hverify (by omega), ok_bind] at hread
  obtain ⟨txs, htxs, hrawCount, hraw⟩ := rawTransactions_eq_ok.mp (hitems i hi (by omega))
  rw [readBlock, htxs, ok_bind, hrawCount, ok_bind] at hread
  obtain ⟨hwlen, hwreads⟩ := readRange_eq_ok.mp hread
  refine List.forall₂_iff_get.mpr ⟨hwlen.symm, fun k hk hk' => ?_⟩
  have hone := hwreads k hk'
  rwa [hraw k hk, ok_bind] at hone

/-! ## The main chain as a history -/

/-- The history holds the transactions of the blocks, in order. -/
structure Executes (chain : List Bytes) (raws : List (List Bytes)) (txs : List ChainTx) : Prop where
  raws_eq : List.Forall₂ (fun block blockRaws => rawTransactions block = .ok blockRaws) chain raws
  holds : List.Forall₂ Holds raws.flatten txs

omit [Blake2b] in
/-- A run of blocks holds a run of transactions. -/
theorem getElem?_flatten_segment {α : Type} (lists : List (List α)) (s n : Nat) {k : Nat} {a : α}
    (h : ((lists.drop s).take n).flatten[k]? = some a) :
    lists.flatten[(lists.take s).flatten.length + k]? = some a := by
  have hsplit : lists.flatten = (lists.take s).flatten ++
      (((lists.drop s).take n).flatten ++ ((lists.drop s).drop n).flatten) := by
    rw [← List.flatten_append, List.take_append_drop, ← List.flatten_append, List.take_append_drop]
  obtain ⟨hk, -⟩ := List.getElem?_eq_some_iff.mp h
  rw [hsplit, List.getElem?_append_right (by omega), Nat.add_sub_cancel_left,
    List.getElem?_append_left hk, h]

omit [Blake2b] in
/-- A segment takes the items between its two ends. -/
theorem length_flatten_take_add {α : Type} (lists : List (List α)) (s n : Nat) :
    (lists.take s).flatten.length + ((lists.drop s).take n).flatten.length =
      (lists.take (s + n)).flatten.length := by
  rw [List.take_add, List.flatten_append, List.length_append]

variable {chain : List Bytes} {raws : List (List Bytes)} {txs : List ChainTx} {poll : Poll}

/-- A window over a segment of the chain is part of the history. -/
theorem views_of_segment (hexec : Executes chain raws txs) {s n : Nat} {wtxs : List WindowTx}
    (hwindow : List.Forall₂ (fun raw wtx => readTx poll raw = .ok wtx)
      ((raws.drop s).take n).flatten wtxs) :
    Views poll txs (raws.take s).flatten.length wtxs := by
  intro k wtx hwtx
  obtain ⟨hk', rfl⟩ := List.getElem?_eq_some_iff.mp hwtx
  have hk : k < ((raws.drop s).take n).flatten.length := by rwa [hwindow.length_eq]
  have hread := (List.forall₂_iff_get.mp hwindow).2 k hk hk'
  have hraw := getElem?_flatten_segment raws s n (List.getElem?_eq_getElem hk)
  obtain ⟨hlt, hrawEq⟩ := List.getElem?_eq_some_iff.mp hraw
  have hlt' : (raws.take s).flatten.length + k < txs.length := by
    rwa [← hexec.holds.length_eq]
  have hholds := (List.forall₂_iff_get.mp hexec.holds).2 _ hlt hlt'
  rw [List.get_eq_getElem, hrawEq] at hholds
  exact ⟨_, _, List.getElem?_eq_getElem hlt', hholds, hread⟩

omit [Blake2b] in
/-- Blocks of the chain, put into a vector again. -/
theorem segment_verifies {blocks : List Bytes}
    (hblocks : ∀ block ∈ blocks, BlockReader.verify true block = .ok ())
    (hsize : (BlockVec.newBuilder blocks).length < 2 ^ 32) :
    BlockVecReader.verify true (BlockVec.newBuilder blocks) = .ok () ∧
      blockSlices (BlockVec.newBuilder blocks) = blocks := by
  have hitems : DynVec.items (build blocks) = blocks := dynVec_items_build hsize
  refine ⟨DynVec.verify_eq_ok.mpr ⟨dynVec_build_layout hsize, ?_⟩, hitems⟩
  exact fun block hblock => hblocks block (hitems ▸ hblock)

omit [Blake2b] in
/-- The raw transactions of a segment of the chain. -/
theorem segment_raws
    (h : List.Forall₂ (fun block blockRaws => rawTransactions block = .ok blockRaws) chain raws)
    {s n : Nat} {compatible : Bool} {blocks : Bytes}
    (hverify : verifyBlockVec compatible blocks = .ok ())
    (hslices : blockSlices blocks = (chain.drop s).take n) :
    blockRaws blocks = .ok ((raws.drop s).take n) := by
  refine (blockRaws_eq_ok hverify).mpr ⟨?_, fun i hi hi' => ?_⟩
  · simp only [hslices, List.length_take, List.length_drop, h.length_eq]
  · simp only [hslices, List.getElem_take, List.getElem_drop]
    exact (List.forall₂_iff_get.mp h).2 _ _ _

/-! ## The result -/

/-- The window of a vector that holds a segment of the chain. -/
theorem window_of_segment (hexec : Executes chain raws txs) {blocks : Bytes} {s n : Nat}
    (hverify : BlockVecReader.verify true blocks = .ok ())
    (hslices : blockSlices blocks = (chain.drop s).take n) {wtxs : List WindowTx}
    (hwindow : window poll blocks = .ok wtxs) :
    Views poll txs (raws.take s).flatten.length wtxs ∧
      (raws.take s).flatten.length + wtxs.length = (raws.take (s + n)).flatten.length := by
  have hshallow : verifyBlockVec true blocks = .ok () := (verifyBlockVec_of_verify hverify).1
  have hreads := window_raws hshallow (segment_raws hexec.raws_eq hshallow hslices) hwindow
  exact ⟨views_of_segment hexec hreads, by rw [← hreads.length_eq, length_flatten_take_add]⟩

variable {ext : ProposalTypeScript.External} {IsProposal IsVote : Bytes → Prop} {live0 : Live}
  {blocks script : Bytes} {s n : Nat}

variable {rtx : ResolvedTx} {cell : Cell} {result : VoteResult}

end Code

/-! ## A sample history -/

namespace Sample

def createHash : Hash32 := digest 0x0ca0c58bce67fa9017258a3b5c8206179f57f7cfa87b3a4c925c2b00c9610463
def castHash : Hash32 := digest 0x239a5d0cf508be9c6699f827b64a9f2608b795a9bd0c64fb60263c8a675c3cea
def recycleHash : Hash32 :=
  digest 0xa04bb4fe77a99ec37b966cee4333c78827a5497ff5fe4f91634439d2ee36c8e9

/-- A proposal is created and voted on, and the vote cell is recycled. -/
def createRaw : Bytes := rawTx [] [outPoint 9 0] (lockOf 9) proposalScript proposal
def castRaw : Bytes := rawTx [outPointOf createHash 0, outPoint 6 0] [outPoint 7 0] (lockOf 5)
  voteScript (Vote.newBuilder 1 100 [1])
def recycleRaw : Bytes := spendTx 5 [outPointOf castHash 0]

def createdTx : ChainTx :=
  ⟨createHash, [], [], [founding], [⟨100, lockOf 9, some proposalScript, proposal⟩], []⟩
def castedTx : ChainTx :=
  ⟨castHash, [⟨outPointOf createHash 0, 0⟩, ⟨outPoint 6 0, 0⟩], [], [voteInput],
    [⟨100, lockOf 5, some voteScript, Vote.newBuilder 1 100 [1]⟩], []⟩
def recycledTx : ChainTx :=
  ⟨recycleHash, [], [], [⟨FixedBytes.zero 8, outPointOf castHash 0⟩],
    [⟨100, lockOf 5, none, []⟩], []⟩

def story : List ChainTx := [createdTx, castedTx, recycledTx]

def storyHeader0 : Bytes :=
  header 0 0x680582d91319ea77411ec7c439c9fdde46356a5e88e48a9ac8b8e0934e1aa136
def storyHeader1 : Bytes :=
  header 0x432771b2624c07f1b19395823ae7fbd79cb1507c6baf50a9105a8bead746a8e9
    0x533180d06adb7135a2a74deee94fa1c28b0faa882f6fdb4e8401ed4a8a06b163

def storyBlock0 : Bytes := Block.newBuilder storyHeader0 [Transaction.newBuilder createRaw []]
def storyBlock1 : Bytes := Block.newBuilder storyHeader1
  [Transaction.newBuilder castRaw [], Transaction.newBuilder recycleRaw []]

def storyBlocks : Bytes := BlockVec.newBuilder [storyBlock0, storyBlock1]

def storyWitness0 : Hash32 :=
  digest 0xef470094d74e03236b3b6c2896ca7b8a1bf931e06c303f6679f9d7ea1072f1cb
def storyWitness1 : Hash32 :=
  digest 0xeed805c88004dbc5f0c35ed660575f29391cb8f980ac766de847760a7383907e

/-- The digests of everything that is hashed for the blocks of the history. -/
def storyDigests : List (Bytes × Nat) := lifeDigests ++ [
  (lockOf 5, 0xd4c922f948a3451ef3bd1560856194cfb058754617869065f508aaf014aa7d68),
  (createRaw, 0x0ca0c58bce67fa9017258a3b5c8206179f57f7cfa87b3a4c925c2b00c9610463),
  (castRaw, 0x239a5d0cf508be9c6699f827b64a9f2608b795a9bd0c64fb60263c8a675c3cea),
  (recycleRaw, 0xa04bb4fe77a99ec37b966cee4333c78827a5497ff5fe4f91634439d2ee36c8e9),
  (Transaction.newBuilder createRaw [],
    0xef470094d74e03236b3b6c2896ca7b8a1bf931e06c303f6679f9d7ea1072f1cb),
  (Transaction.newBuilder castRaw [],
    0x5dde67ed0a60832f37325e15829127bc167952db3d1df51d72edf76d4496ab0f),
  (Transaction.newBuilder recycleRaw [],
    0x11a4b3b6bd828672e1dc3807f3a38ee00f381ae22e373fd156975f6f0841e408),
  (mergeInput castHash recycleHash,
    0x3a9ae1f4227fcd5ced98ee103900e1ef9589ddc7dcec12d2f2a51aaecbdcea5d),
  (mergeInput (digest 0x5dde67ed0a60832f37325e15829127bc167952db3d1df51d72edf76d4496ab0f)
    (digest 0x11a4b3b6bd828672e1dc3807f3a38ee00f381ae22e373fd156975f6f0841e408),
    0xeed805c88004dbc5f0c35ed660575f29391cb8f980ac766de847760a7383907e),
  (mergeInput createHash storyWitness0,
    0x680582d91319ea77411ec7c439c9fdde46356a5e88e48a9ac8b8e0934e1aa136),
  (mergeInput (digest 0x3a9ae1f4227fcd5ced98ee103900e1ef9589ddc7dcec12d2f2a51aaecbdcea5d)
    storyWitness1, 0x533180d06adb7135a2a74deee94fa1c28b0faa882f6fdb4e8401ed4a8a06b163),
  (storyHeader0, 0x432771b2624c07f1b19395823ae7fbd79cb1507c6baf50a9105a8bead746a8e9),
  (storyHeader1, 0xc7c151d9dbea305cdd0b233802aa0b05423a979bb40917329ebdc4e927e15f48)]

abbrev storyBlake2b : Blake2b := tableBlake2b storyDigests

end Sample

section Story

local instance (priority := 2000) storyHash : Blake2b := Sample.storyBlake2b

namespace Sample

def createdResolved : ResolvedTx := ⟨createdTx, [⟨500, lockOf 9, none, []⟩], [], []⟩
def castedResolved : ResolvedTx := ⟨castedTx, [⟨500, lockOf 5, none, []⟩], [
  (outPointOf createHash 0, ⟨100, lockOf 9, some proposalScript, proposal⟩),
  (outPoint 6 0, ⟨100, lockOf 5, some daoScript, List.replicate 8 0⟩)], []⟩
def recycledResolved : ResolvedTx :=
  ⟨recycledTx, [⟨100, lockOf 5, some voteScript, Vote.newBuilder 1 100 [1]⟩], [], []⟩

/-- The transactions of the history pass. -/
def StoryPasses (ext : ProposalTypeScript.External) : Prop :=
  RunsPass ext (liveAt start story 0) (fun _ => none) createdTx createdResolved ∧
    RunsPass ext (liveAt start story 1) (fun _ => none) castedTx castedResolved ∧
    RunsPass ext (liveAt start story 2) (fun _ => none) recycledTx recycledResolved

instance (ext : ProposalTypeScript.External) : Decidable (StoryPasses ext) :=
  inferInstanceAs (Decidable (_ ∧ _))

/-- What the programs read in the blocks of the story. -/
theorem story_reads :
    (ChainTx.ofRaw createRaw [] = .ok createdTx ∧ ChainTx.ofRaw castRaw [] = .ok castedTx ∧
      ChainTx.ofRaw recycleRaw [] = .ok recycledTx) ∧
    (rawTransactions storyBlock0 = .ok [createRaw] ∧
      rawTransactions storyBlock1 = .ok [castRaw, recycleRaw]) ∧
    (findProposal storyBlocks proposalScript = .ok (some proposal) ∧
      readPoll proposal proposalScript = .ok poll ∧ itemCount storyBlocks = .ok 2) ∧
    (BlockVecReader.verify true storyBlocks = .ok () ∧
      blockSlices storyBlocks = [storyBlock0, storyBlock1]) ∧
    countVote storyBlocks proposalScript = .ok ⟨proposal, 100, 0, true⟩ := by
  decide +kernel

/-- The headers and roots of the blocks. -/
theorem storyChain_reads :
    ((∀ block ∈ [storyBlock0, storyBlock1], BlockReader.verify true block = .ok ()) ∧
      parentField (headerSlice storyBlock0) = (FixedBytes.zero 32).val ∧
      (headerHash (headerSlice storyBlock0)).val = parentField (headerSlice storyBlock1) ∧
      ([storyBlock0, storyBlock1].map headerSlice).Nodup ∧
      ∀ block ∈ [storyBlock0, storyBlock1], ∀ tx ∈ transactionSlices block,
        numberAt (part (part tx 0) 3) 0 ≠ 0) ∧
    ((merkleRoot ([createRaw].map blake2b256) = .ok createHash ∧
      merkleRoot ((transactionSlices storyBlock0).map witnessHash) = .ok storyWitness0 ∧
      (merge createHash storyWitness0).val = rootField (headerSlice storyBlock0)) ∧
      merkleRoot ([castRaw, recycleRaw].map blake2b256) = .ok (merge castHash recycleHash) ∧
      merkleRoot ((transactionSlices storyBlock1).map witnessHash) = .ok storyWitness1 ∧
      (merge (merge castHash recycleHash) storyWitness1).val =
        rootField (headerSlice storyBlock1)) ∧
    (headerSlice storyBlock0 = storyHeader0 ∧ headerSlice storyBlock1 = storyHeader1) ∧
    storyBlocks.length < 2 ^ 32 := by
  decide +kernel

/-- What the transactions spend, create and select. -/
theorem storyCells_reads :
    (story.Pairwise fun tx tx' => ∀ op ∈ tx.inputs.map CellInput.previousOutput,
      op ∉ tx'.inputs.map CellInput.previousOutput) ∧
    ((story.map ChainTx.hash).Nodup ∧
      (∀ p ∈ startCells, ∀ tx ∈ story, p.1.val.take 32 ≠ tx.hash.val) ∧
      ∀ tx ∈ story, tx.outputs.length = 1) ∧
    (isVoteScript poll proposalScript ≠ .ok true ∧
      VoteTypeScript.daoIndices (Vote.newBuilder 1 100 [1]) = .ok [1] ∧
      (∀ dep ∈ castedTx.cellDeps, dep.depType = 0) ∧
      selected (castedTx.cellDeps.map CellDep.outPoint) [1] = [outPoint 6 0] ∧
      outPoint 6 0 ∉ castedTx.inputs.map CellInput.previousOutput) ∧
    (liveAt start story 2 (outPointOf castHash 0) =
        some ⟨100, lockOf 5, some voteScript, Vote.newBuilder 1 100 [1]⟩ ∧
      ScriptReader.codeHash voteScript ≠ .ok VoteTypeScript.daoCodeHash) ∧
    StoryPasses typeIdOnly := by
  decide +kernel

/-- The story is a history under every verifier its transactions pass under. -/
theorem history_of_storyPasses {ext : ProposalTypeScript.External} (h : StoryPasses ext) :
    History ext (hasCode (List.replicate 32 1)) (hasCode voteCodeHash) start story := by
  obtain ⟨hinputs, -⟩ := storyCells_reads
  obtain ⟨hcreate, hcast, hrecycle⟩ := h
  exact history_of_runsPass hinputs hcreate hcast hrecycle

theorem story_history :
    History typeIdOnly (hasCode (List.replicate 32 1)) (hasCode voteCodeHash) start story :=
  history_of_storyPasses storyCells_reads.2.2.2.2

theorem story_distinct : DistinctHashes start story := by
  obtain ⟨-, ⟨hnodup, hstart, hlength⟩, -⟩ := storyCells_reads
  exact distinctHashes_of_nodup hnodup (fun op cell hcell => hstart _ (mem_startCells hcell))
    fun tx htx => by simp [hlength tx htx]

/-- The raw transactions of the two blocks. -/
def storyRaws : List (List Bytes) := [[createRaw], [castRaw, recycleRaw]]

theorem story_executes : Executes [storyBlock0, storyBlock1] storyRaws story := by
  obtain ⟨⟨hcreate, hcast, hrecycle⟩, ⟨hraws0, hraws1⟩, -⟩ := story_reads
  exact ⟨.cons hraws0 (.cons hraws1 .nil), .cons (.spending _ [] hcreate)
    (.cons (.spending _ [] hcast) (.cons (.spending _ [] hrecycle) .nil))⟩

theorem storyChain : MainChain [storyBlock0, storyBlock1] := by
  obtain ⟨⟨hverified, hgenesis, hlinked, hdistinct, hspends⟩,
    ⟨⟨hraw0, hwitness0, hroot0⟩, hraw1, hwitness1, hroot1⟩, -⟩ := storyChain_reads
  refine ⟨hverified, ?_, Linked.cons hlinked (linked_singleton _), ?_, hdistinct, hspends⟩
  · intro block hblock
    obtain rfl := Option.some.inj hblock
    exact hgenesis
  · obtain ⟨-, ⟨hraws0, hraws1⟩, -⟩ := story_reads
    intro block hblock
    rcases List.mem_pair.mp hblock with rfl | rfl
    · exact ⟨_, _, _, _, hraws0, hraw0, hwitness0, merkleRoot_pair _ _, hroot0⟩
    · exact ⟨_, _, _, _, hraws1, hraw1, hwitness1, merkleRoot_pair _ _, hroot1⟩

def storyCell : Cell := ⟨100, lockOf 9, some proposalScript, proposal⟩

end Sample

end Story

end CkbVote
