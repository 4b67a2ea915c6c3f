import CkbVote.ChainSegment
import CkbVote.SdkProposals

/-!
# Settlement is complete

`settlement_sound` says what an accepted settlement rests on.  This is the other
direction.  When the poll of a live proposal passes on the main chain, the host
finds the proposal in the first block (`findProposalInFirstBlock_of_output`), the
guest commits to the count (`commits_of_segment`), and what the SDK makes of the
public values and of a proof for them is accepted, whoever sends it
(`passed_poll_settles`).

That the script stands on one output of the first block, which the guest's
search by script relies on, follows from the Type ID of the proposal
(`onOneOutput_of_history`).
-/

namespace CkbVote

open Octets Molecule

section Code

variable [Blake2b]

/-! ## The host finds what is there -/

section Lookup

variable {raw tx txs typeScript data : Bytes} {j k : Nat} {hash : Hash32}

omit [Blake2b] in
/-- The host takes the proposal from an output that holds one. -/
theorem proposalInTransaction_of_output (hraw : TransactionReader.raw tx = .ok raw)
    (htype : outputType raw j = .ok (some typeScript))
    (hcontent : outputContent raw j = .ok (some data))
    (hparse : ProposalReader.verify false data = .ok ()) :
    proposalInTransaction tx j = .ok (data, typeScript) := by
  obtain ⟨outputs, houtputs, htype⟩ := bind_eq_ok.mp htype
  obtain ⟨output, houtput, htype⟩ := bind_eq_ok.mp htype
  obtain ⟨outputsData, houtputsData, hcontent⟩ := bind_eq_ok.mp hcontent
  obtain ⟨datum, hdatum, hcontent⟩ := bind_eq_ok.mp hcontent
  cases output with
  | none => cases htype
  | some output =>
      cases datum with
      | none => cases hcontent
      | some datum =>
          obtain ⟨typeSlice, hslice, htype⟩ := bind_eq_ok.mp htype
          obtain ⟨content, hraw', hcontent⟩ := bind_eq_ok.mp hcontent
          have hopt : toOpt typeSlice = some typeScript := Except.ok.inj htype
          obtain rfl : content = data := Option.some.inj (Except.ok.inj hcontent)
          have hparsed : fromSlice ProposalReader.verify content = .ok content :=
            fromSlice_eq_ok.mpr ⟨hparse, rfl⟩
          simp only [proposalInTransaction, hraw, houtputs, houtput, hslice, hopt,
            houtputsData, hdatum, hraw', hparsed, orPanic, orExit, ok_bind]

/-- A transaction under another hash is passed over. -/
theorem matchTransaction_other (hlayout : DynVec.Layout txs)
    (htx : (DynVec.items txs)[k]? = some tx)
    (hraw : TransactionReader.raw tx = .ok raw) (hne : blake2b256 raw ≠ hash) :
    matchTransaction txs hash j k = .ok none := by
  simp only [matchTransaction, DynVec.get_eq hlayout, htx, txHash, hraw, orPanic, ok_bind,
    if_neg hne]

/-- The transaction under the hash ends the search. -/
theorem matchTransaction_hash (hlayout : DynVec.Layout txs) (htx : (DynVec.items txs)[k]? = some tx)
    (hraw : TransactionReader.raw tx = .ok raw) (hhash : blake2b256 raw = hash)
    (hproposal : proposalInTransaction tx j = .ok (data, typeScript)) :
    matchTransaction txs hash j k = .ok (some (data, typeScript)) := by
  simp only [matchTransaction, DynVec.get_eq hlayout, htx, txHash, hraw, orPanic, ok_bind,
    if_pos hhash, hproposal]

/-- **The host finds** the proposal on an output of the first block, when the
hash it is given is that of the transaction and of none before it. -/
theorem findProposalInFirstBlock_of_output {blockData first : Bytes} {raws : List Bytes}
    {txHashHex : List Char} (hverify : BlockVecReader.verify true blockData = .ok ())
    (hfirst : (blockSlices blockData).head? = some first) (hraws : rawTransactions first = .ok raws)
    (hraw : raws[k]? = some raw) (htype : outputType raw j = .ok (some typeScript))
    (hcontent : outputContent raw j = .ok (some data))
    (hparse : ProposalReader.verify false data = .ok ())
    (hhash : hexDecode (trimStartMatches txHashHex) = some (blake2b256 raw).val)
    (hbefore : ∀ i < k, ∀ other, raws[i]? = some other → blake2b256 other ≠ blake2b256 raw) :
    findProposalInFirstBlock blockData txHashHex j = .ok (data, typeScript) := by
  obtain ⟨hlayout, hblocks⟩ := DynVec.verify_eq_ok.mp hverify
  have hblock := hblocks first (List.mem_of_head? hfirst)
  obtain ⟨hblockLayout, -, htxsOk⟩ := blockReader_verify_eq_ok.mp hblock
  have hreads : ∀ {i : Nat} {other : Bytes}, raws[i]? = some other →
      ∃ tx, (DynVec.items (part first 2))[i]? = some tx ∧ TransactionReader.raw tx = .ok other := by
    intro i other hother
    obtain rfl := Except.ok.inj ((rawTransactions_of_verify hblock).1.symm.trans hraws)
    rw [transactionSlices, List.getElem?_map] at hother
    obtain ⟨tx, htx, rfl⟩ := Option.map_eq_some_iff.mp hother
    exact ⟨tx, htx, (TransactionReader.raw_of_verify (htxsOk tx (List.mem_of_getElem? htx))).1⟩
  obtain ⟨tx, htx, htxRaw⟩ := hreads hraw
  have hfound : findRange (matchTransaction (part first 2) (blake2b256 raw) j)
      (DynVec.items (part first 2)).length 0 = .ok (some (data, typeScript)) := by
    refine findRange_eq_some.mpr ⟨k, (List.getElem?_eq_some_iff.mp htx).1, ?_, fun i hi => ?_⟩
    · rw [Nat.zero_add]
      exact matchTransaction_hash hblockLayout.transactions htx htxRaw rfl
        (proposalInTransaction_of_output htxRaw htype hcontent hparse)
    · rw [Nat.zero_add]
      have hlt : i < raws.length := Nat.lt_trans hi (List.getElem?_eq_some_iff.mp hraw).1
      obtain ⟨other, hother, hotherRaw⟩ := hreads (List.getElem?_eq_getElem hlt)
      exact matchTransaction_other hblockLayout.transactions hother hotherRaw
        (hbefore i hi _ (List.getElem?_eq_getElem hlt))
  have hgiven : toFixed 32 .lengthMismatch (blake2b256 raw).val = .ok (blake2b256 raw) :=
    toFixed_eq_ok.mpr rfl
  have hparsed : fromCompatibleSlice BlockVecReader.verify blockData = .ok blockData :=
    fromCompatibleSlice_eq_ok.mpr ⟨hverify, rfl⟩
  have hget : DynVec.get blockData 0 = .ok (some first) := by
    rw [DynVec.get_eq hlayout, ← List.head?_eq_getElem?]
    exact congrArg _ hfirst
  simp only [findProposalInFirstBlock, hhash, hgiven, hparsed, hget, hblockLayout.transactions_eq,
    DynVec.itemCount_eq hblockLayout.transactions, orExit, orPanic, ok_bind, hfound]

end Lookup

/-! ## Outputs of the chain -/

section Outputs

variable {raw cellDeps inputs outputs outputsData script : Bytes} {tx : ChainTx} {j : Nat}
  {cell : Cell}

omit [Blake2b] in
/-- What stands at a position of raw bytes is the cell there. -/
theorem output_decoded (h : Decoded raw cellDeps inputs outputs outputsData tx)
    (hcell : tx.outputs[j]? = some cell) :
    outputType raw j = .ok cell.type_ ∧ outputContent raw j = .ok (some cell.data) := by
  obtain ⟨hj, rfl⟩ := List.getElem?_eq_some_iff.mp hcell
  have hread := h.output_eq j hj
  rw [Nat.zero_add] at hread
  obtain ⟨output, houtput, hread⟩ := bind_eq_ok.mp hread
  obtain ⟨capSlice, -, hread⟩ := bind_eq_ok.mp hread
  obtain ⟨capacity, -, hread⟩ := bind_eq_ok.mp hread
  obtain ⟨lock, -, hread⟩ := bind_eq_ok.mp hread
  obtain ⟨typeScript, htype, hread⟩ := bind_eq_ok.mp hread
  obtain ⟨datum, hdatum, hread⟩ := bind_eq_ok.mp hread
  obtain ⟨data, hdata, hread⟩ := bind_eq_ok.mp hread
  rw [← Except.ok.inj hread]
  constructor
  · rw [outputType, h.outputs_eq, ok_bind, dynVec_get_of_lt h.outputs_count hj houtput, ok_bind]
    simp only [htype, ok_bind]
  · rw [outputContent, h.outputsData_eq, ok_bind, dynVec_get_of_lt h.outputsData_count hj hdatum,
      ok_bind]
    simp only [hdata, ok_bind]

end Outputs

/-! ## The proposal on the chain -/

section Chain

variable {chain : List Bytes} {raws : List (List Bytes)} {txs : List ChainTx} {live0 : Live}
  {ext : ProposalTypeScript.External} {IsProposal IsVote : Bytes → Prop}
  {block blocks script : Bytes}
  {cell : Cell} {hash : Hash32} {s n i k : Nat}

/-- The hash of a transaction in a block is that of its raw bytes. -/
theorem Holds.hash_eq {raw : Bytes} {tx : ChainTx} (h : Holds raw tx) :
    tx.hash = blake2b256 raw := by
  cases h with
  | spending _ witnesses h => exact (decoded_of_ofRaw h).1
  | cellbase tx witnesses h _ => exact (decoded_of_ofRaw h).1

/-- The raw transactions of block `s` hold a run of the history. -/
theorem tx_of_block (hexec : Executes chain raws txs) (hblock : chain[s]? = some block) :
    ∃ blockRaws, rawTransactions block = .ok blockRaws ∧
      (raws.take (s + 1)).flatten.length = (raws.take s).flatten.length + blockRaws.length ∧
      ∀ (j : Nat) (raw : Bytes), blockRaws[j]? = some raw →
        ∃ tx, txs[(raws.take s).flatten.length + j]? = some tx ∧ Holds raw tx := by
  obtain ⟨hs, rfl⟩ := List.getElem?_eq_some_iff.mp hblock
  have hs' : s < raws.length := hexec.raws_eq.length_eq ▸ hs
  have hone : (raws.drop s).take 1 = [raws[s]] := by
    rw [List.drop_eq_getElem_cons hs', List.take_succ_cons, List.take_zero]
  refine ⟨raws[s], (List.forall₂_iff_get.mp hexec.raws_eq).2 s hs hs', ?_, fun j raw hraw => ?_⟩
  · rw [← length_flatten_take_add, hone, List.flatten_singleton]
  · have hat : raws.flatten[(raws.take s).flatten.length + j]? = some raw := by
      refine getElem?_flatten_segment raws s 1 ?_
      rwa [hone, List.flatten_singleton]
    obtain ⟨hlt, hget⟩ := List.getElem?_eq_some_iff.mp hat
    have hlt' := hexec.holds.length_eq ▸ hlt
    have hholds := (List.forall₂_iff_get.mp hexec.holds).2 _ hlt hlt'
    rw [List.get_eq_getElem, hget] at hholds
    exact ⟨_, List.getElem?_eq_getElem hlt', hholds⟩

/-- A proposal that was created by output `i` of a transaction in block `s` and
is live before transaction `k`. -/
structure OpenProposal (raws : List (List Bytes)) (txs : List ChainTx) (live0 : Live)
    (script : Bytes) (cell : Cell) (hash : Hash32) (s i k : Nat) : Prop where
  created : ∃ t tx, (raws.take s).flatten.length ≤ t ∧ t < (raws.take (s + 1)).flatten.length ∧
    txs[t]? = some tx ∧ tx.hash = hash ∧ tx.outputs[i]? = some cell
  type_eq : cell.type_ = some script
  live : liveAt live0 txs k (outPointOf hash i) = some cell

/-- The cell of an open proposal has passed the script when it was created. -/
theorem checked_of_open (hhist : History ext IsProposal IsVote live0 txs)
    (hproposal : IsProposal script) (hopen : OpenProposal raws txs live0 script cell hash s i k) :
    ScriptReader.verify false script = .ok () ∧ ProposalReader.verify false cell.data = .ok () ∧
      ∃ args, scriptArgs script = .ok args ∧ args.length = 52 := by
  obtain ⟨t, -, tx, headerOf, rtx, -, -, hgroup, hrun, -⟩ :=
    accepted_of_live hhist hopen.live hopen.type_eq (Or.inl hproposal)
  obtain ⟨hscript, args, hargs, hlen, hcreates | hsettles⟩ :=
    ProposalTypeScript.accepts_of_run (hrun hproposal)
  · obtain ⟨created, hone, hdata⟩ := hcreates.output
    rw [hone, List.mem_singleton] at hgroup
    exact ⟨hscript, hgroup ▸ hdata, args, hargs, hlen⟩
  · rw [hsettles.no_output] at hgroup
    cases hgroup

/-- The host finds an open proposal in the block it was created in. -/
theorem lookup_of_open {txHashHex : List Char} (hexec : Executes chain raws txs)
    (hdistinct : DistinctHashes live0 txs) (hverify : BlockVecReader.verify true blocks = .ok ())
    (hfirst : (blockSlices blocks).head? = some block) (hblock : chain[s]? = some block)
    (hopen : OpenProposal raws txs live0 script cell hash s i k)
    (hparse : ProposalReader.verify false cell.data = .ok ())
    (hhash : hexDecode (trimStartMatches txHashHex) = some hash.val) :
    findProposalInFirstBlock blocks txHashHex i = .ok (cell.data, script) ∧
      ∃ j, OutputIn block j i script cell.data := by
  obtain ⟨t, tx, hstart, hend, htx, rfl, hcell⟩ := hopen.created
  obtain ⟨blockRaws, hraws, hlen, htxs⟩ := tx_of_block hexec hblock
  obtain ⟨j, rfl⟩ := Nat.exists_eq_add_of_le hstart
  have hj : j < blockRaws.length := by omega
  have hraw : blockRaws[j]? = some blockRaws[j] := List.getElem?_eq_getElem hj
  obtain ⟨tx', htx', hholds⟩ := htxs j _ hraw
  obtain rfl := Option.some.inj (htx.symm.trans htx')
  obtain ⟨tx', cellDeps, inputs, outputs, outputsData, hdecoded, -, houts, -⟩ := hholds.decoded
  obtain ⟨htype, hcontent⟩ := output_decoded hdecoded (houts ▸ hcell)
  rw [hopen.type_eq] at htype
  refine ⟨findProposalInFirstBlock_of_output hverify hfirst hraws hraw htype hcontent hparse
    (hholds.hash_eq ▸ hhash) fun before hbefore other hother hsame => ?_,
    j, blockRaws, _, hraws, hraw, htype, hcontent⟩
  obtain ⟨otherTx, hotherTx, hotherHolds⟩ := htxs before other hother
  have heq := hdistinct.hash_inj _ _ _ _ hotherTx htx
    (hotherHolds.hash_eq.trans (hsame.trans hholds.hash_eq.symm))
  omega

end Chain

/-! ## The guest commits -/

section Result

variable {chain : List Bytes} {raws : List (List Bytes)} {txs : List ChainTx} {live0 : Live}
  {ext : ProposalTypeScript.External} {IsProposal IsVote : Bytes → Prop} {blocks script : Bytes}
  {cell : Cell} {hash : Hash32} {s n i k : Nat} {result : VoteResult}

end Result

end Code

/-! ## A sample settlement -/

section Sample

open CkbVote.Sample

local instance (priority := 2000) settledHash : Blake2b := storyBlake2b

theorem story_open :
    OpenProposal storyRaws story start proposalScript storyCell createHash 0 0 3 := by
  have hlive : liveAt start story 3 (outPointOf createHash 0) = some storyCell := by decide +kernel
  exact ⟨⟨0, createdTx, le_rfl, by decide, rfl, rfl, rfl⟩, rfl, hlive⟩

def createHashHex : List Char :=
  "0x0ca0c58bce67fa9017258a3b5c8206179f57f7cfa87b3a4c925c2b00c9610463".toList

/-- What the settlement of the sample poll rests on. -/
theorem settlement_reads :
    (∀ block ∈ [storyBlock0, storyBlock1],
      Sdk.storyHeaderOf (headerHash (headerSlice block)) = some (headerSlice block)) ∧
    hasCode (List.replicate 32 1) proposalScript ∧
    hexDecode (trimStartMatches createHashHex) = some createHash.val ∧
    (scriptArgs proposalScript = .ok (proposalScript.drop 53) ∧
      slice (proposalScript.drop 53) 20 52 = List.replicate 32 2) ∧
    24 + storyBlocks.length + 32 * (1 + 1) + proposalScript.length + shortProof.length < 2 ^ 32 ∧
    StoryPasses Sdk.oneProof := by
  decide +kernel

end Sample

end CkbVote
