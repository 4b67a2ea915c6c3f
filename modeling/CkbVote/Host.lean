import CkbVote.Guest
import CkbVote.Cells

/-!
# The host

The host program looks up the proposal cell by transaction hash and output
index, over block data it has verified in full, and hands the guest the blocks,
the witness roots it computes itself, and the proposal's type script.  The
guest looks the proposal up by that script, over blocks it has verified down
to their offsets only.

`honest_inputs_prove` says that on blocks that are chained and hashed as CKB
does it, with the script on one output of the first block, the guest commits
public values that parse strictly and name what the host found.
-/

namespace CkbVote

open Octets Molecule

/-- The messages with which the host exits. -/
inductive HostError
  | invalidTxHash
  | txHashLength
  | invalidBlockData
  | noBlocks
  | indexOutOfRange (outputIndex : Nat)
  | noTypeScript (outputIndex : Nat)
  | proposalParse
  | txNotFound (txHashHex : List Char)
deriving DecidableEq, Repr

abbrev HostRun := ScriptRun HostError

/-! ## Hexadecimal digits -/

def hexVal (c : Char) : Option Nat :=
  if '0' ≤ c ∧ c ≤ '9' then some (c.toNat - 48)
  else if 'a' ≤ c ∧ c ≤ 'f' then some (c.toNat - 87)
  else if 'A' ≤ c ∧ c ≤ 'F' then some (c.toNat - 55)
  else none

/-- `hex::decode`. -/
def hexDecode : List Char → Option Bytes
  | [] => some []
  | [_] => none
  | hi :: lo :: rest => do
      let high ← hexVal hi
      let low ← hexVal lo
      let decoded ← hexDecode rest
      some (UInt8.ofNat (16 * high + low) :: decoded)

/-- `trim_start_matches("0x")`. -/
def trimStartMatches : List Char → List Char
  | '0' :: 'x' :: rest => trimStartMatches rest
  | text => text

section Code

variable [Blake2b]

/-! ## The program -/

/-- The proposal and the type script of the output at an index. -/
def proposalInTransaction (tx : Bytes) (outputIndex : Nat) : HostRun (Bytes × Bytes) := do
  let raw ← orPanic (TransactionReader.raw tx)
  let outputs ← orPanic (RawTransactionReader.outputs raw)
  match ← orPanic (DynVec.get outputs outputIndex) with
  | none => .error (.exit (.indexOutOfRange outputIndex))
  | some output =>
      match toOpt (← orPanic (CellOutputReader.type_ output)) with
      | none => .error (.exit (.noTypeScript outputIndex))
      | some typeScript =>
          let outputsData ← orPanic (RawTransactionReader.outputsData raw)
          match ← orPanic (DynVec.get outputsData outputIndex) with
          | none => .error (.exit (.indexOutOfRange outputIndex))
          | some data =>
              let content ← orPanic (rawData data)
              let proposal ← orExit .proposalParse (fromSlice ProposalReader.verify content)
              .ok (proposal, typeScript)

/-- One turn of the loop over the transactions of the first block. -/
def matchTransaction (txs : Bytes) (txHashBytes : Hash32) (outputIndex i : Nat) :
    HostRun (Option (Bytes × Bytes)) := do
  match ← orPanic (DynVec.get txs i) with
  | none => .error .panic
  | some tx =>
      let hash ← orPanic (txHash tx)
      if hash = txHashBytes then
        let found ← proposalInTransaction tx outputIndex
        .ok (some found)
      else .ok none

def findProposalInFirstBlock (blockData : Bytes) (txHashHex : List Char) (outputIndex : Nat) :
    HostRun (Bytes × Bytes) := do
  match hexDecode (trimStartMatches txHashHex) with
  | none => .error (.exit .invalidTxHash)
  | some decoded =>
      let txHashBytes ← orExit .txHashLength (toFixed 32 .lengthMismatch decoded)
      let blockVec ←
        orExit .invalidBlockData (fromCompatibleSlice BlockVecReader.verify blockData)
      match ← orPanic (DynVec.get blockVec 0) with
      | none => .error (.exit .noBlocks)
      | some firstBlock =>
          let txs ← orPanic (BlockReader.transactions firstBlock)
          let count ← orPanic (itemCount txs)
          match ← findRange (matchTransaction txs txHashBytes outputIndex) count 0 with
          | some found => .ok found
          | none => .error (.exit (.txNotFound txHashHex))

/-- The root over the hashes of a block's transactions with their witnesses. -/
def witnessRootOf (block : Bytes) : Run Hash32 := do
  let txs ← BlockReader.transactions block
  let hashes ← readRange (fun k => do
    let tx ← DynVec.getUnchecked txs k
    .ok (witnessHash tx)) (← itemCount txs) 0
  merkleRoot hashes

/-- The script field keeps its default here. -/
def prepareGuestProgramArguments (bytes : Bytes) : Run Bytes := do
  let blocks ← expectOk "invalid block data" (fromCompatibleSlice BlockVecReader.verify bytes)
  let allWitnessRoot ← readRange (fun i => do
    let block ← blockAt blocks i
    witnessRootOf block) (← itemCount blocks) 0
  .ok (GuestProgramArguments.newBuilder (buildBytes blocks)
    (buildFixVec (allWitnessRoot.map FixedBytes.val)) Script.default)

/-- The bytes written to the guest's standard input. -/
def prepareStdinReal (blockData proposalScript : Bytes) : Run Bytes := do
  let baseArgs ← prepareGuestProgramArguments blockData
  let blocks ← GuestProgramArgumentsReader.blocks baseArgs
  let witnessRoot ← GuestProgramArgumentsReader.witnessRoot baseArgs
  .ok (GuestProgramArguments.newBuilder blocks witnessRoot proposalScript)

/-! ## Outputs by position -/

omit [Blake2b] in
/-- The type script of output `j` of a raw transaction. -/
def outputType (raw : Bytes) (j : Nat) : Run (Option Bytes) := do
  let outputs ← RawTransactionReader.outputs raw
  match ← DynVec.get outputs j with
  | none => .ok none
  | some output =>
      let typeSlice ← CellOutputReader.type_ output
      .ok (toOpt typeSlice)

/-- The data of output `j` of a raw transaction. -/
def outputContent (raw : Bytes) (j : Nat) : Run (Option Bytes) := do
  let outputsData ← RawTransactionReader.outputsData raw
  match ← DynVec.get outputsData j with
  | none => .ok none
  | some data =>
      let content ← rawData data
      .ok (some content)

variable {raw outputs outputsData proposalScript : Bytes}

omit [Blake2b] in
/-- An output under another type script is passed over. -/
theorem proposalAt_other (houtputs : RawTransactionReader.outputs raw = .ok outputs) {j : Nat}
    (hlayout : DynVec.Layout outputs) (hj : j < (DynVec.items outputs).length)
    {typeScript : Option Bytes} (htype : outputType raw j = .ok typeScript)
    (hne : typeScript ≠ some proposalScript) :
    proposalAt outputs outputsData proposalScript j = .ok none := by
  rw [outputType, houtputs, ok_bind, DynVec.get_eq hlayout, List.getElem?_eq_getElem hj,
    ok_bind] at htype
  obtain ⟨typeSlice, htypeSlice, htype⟩ := bind_eq_ok.mp htype
  rw [proposalAt, DynVec.get_eq hlayout, List.getElem?_eq_getElem hj, ok_bind]
  simp only [htypeSlice, ok_bind, Except.ok.inj htype]
  cases typeScript with
  | none => rfl
  | some found => exact if_neg fun heq => hne (congrArg some heq)

omit [Blake2b] in
/-- The output under the script ends the search with its data. -/
theorem proposalAt_script (houtputs : RawTransactionReader.outputs raw = .ok outputs)
    (hdata : RawTransactionReader.outputsData raw = .ok outputsData) {j : Nat} {content : Bytes}
    (htype : outputType raw j = .ok (some proposalScript))
    (hcontent : outputContent raw j = .ok (some content)) :
    proposalAt outputs outputsData proposalScript j =
      .ok (some (fromCompatibleSlice ProposalReader.verify content).toOption) := by
  rw [outputType, houtputs, ok_bind] at htype
  obtain ⟨output, houtput, htype⟩ := bind_eq_ok.mp htype
  rw [outputContent, hdata, ok_bind] at hcontent
  obtain ⟨data, hdatum, hcontent⟩ := bind_eq_ok.mp hcontent
  cases output with
  | none => cases htype
  | some output =>
      cases data with
      | none => cases hcontent
      | some data =>
          obtain ⟨typeSlice, htypeSlice, htype⟩ := bind_eq_ok.mp htype
          obtain ⟨content', hraw, hcontent⟩ := bind_eq_ok.mp hcontent
          obtain rfl : content' = content := Option.some.inj (Except.ok.inj hcontent)
          rw [proposalAt, houtput, ok_bind]
          simp only [htypeSlice, ok_bind, Except.ok.inj htype, if_true, hdatum, hraw]

omit [Blake2b] in
/-- What ends the search is an output under the script. -/
theorem outputType_of_proposalAt (houtputs : RawTransactionReader.outputs raw = .ok outputs)
    (hdata : RawTransactionReader.outputsData raw = .ok outputsData) {j : Nat} {content : Bytes}
    (h : proposalAt outputs outputsData proposalScript j = .ok (some (some content))) :
    outputType raw j = .ok (some proposalScript) ∧ outputContent raw j = .ok (some content) := by
  obtain ⟨output, houtput, h⟩ := bind_eq_ok.mp h
  cases output with
  | none => cases h
  | some output =>
      obtain ⟨typeSlice, htypeSlice, h⟩ := bind_eq_ok.mp h
      cases hopt : toOpt typeSlice with
      | none => simp [hopt] at h
      | some typeScript =>
          simp only [hopt] at h
          by_cases hsame : typeScript = proposalScript
          · rw [if_pos hsame] at h
            obtain ⟨data, hdatum, h⟩ := bind_eq_ok.mp h
            cases data with
            | none => cases h
            | some data =>
                obtain ⟨content', hraw, h⟩ := bind_eq_ok.mp h
                have hparse : (fromCompatibleSlice ProposalReader.verify content').toOption =
                    some content := Option.some.inj (Except.ok.inj h)
                cases hverify : fromCompatibleSlice ProposalReader.verify content' with
                | error e =>
                    rw [hverify] at hparse
                    cases hparse
                | ok parsed =>
                    obtain ⟨-, rfl⟩ := fromCompatibleSlice_eq_ok.mp hverify
                    simp only [hverify, Except.toOption, Option.some.injEq] at hparse
                    subst hparse
                    constructor
                    · rw [outputType, houtputs, ok_bind, houtput, ok_bind]
                      simp only [htypeSlice, ok_bind, hopt, hsame]
                    · rw [outputContent, hdata, ok_bind, hdatum, ok_bind]
                      simp only [hraw, ok_bind]
          · rw [if_neg hsame] at h
            cases h

omit [Blake2b] in
/-- Every output of a verified raw transaction has a type script or none. -/
theorem outputType_ok {cellDeps inputs : Bytes}
    (h : RawLayout raw cellDeps inputs outputs outputsData) (j : Nat) :
    ∃ typeScript, outputType raw j = .ok typeScript := by
  rw [outputType, h.outputs_eq, ok_bind, DynVec.get_eq h.outputs_layout, ok_bind]
  cases houtput : (DynVec.items outputs)[j]? with
  | none => exact ⟨none, rfl⟩
  | some output =>
      obtain ⟨c, hverify⟩ := h.output_ok output (List.mem_of_getElem? houtput)
      obtain ⟨-, -, htype, -⟩ := CellOutputReader.fields_of_verify hverify
      simp only [htype, ok_bind]
      exact ⟨_, rfl⟩

omit [Blake2b] in
/-- An output with a type script exists. -/
theorem lt_of_outputType {cellDeps inputs : Bytes}
    (h : RawLayout raw cellDeps inputs outputs outputsData) {j : Nat}
    (htype : outputType raw j = .ok (some proposalScript)) : j < (DynVec.items outputs).length := by
  by_contra hj
  rw [outputType, h.outputs_eq, ok_bind, DynVec.get_eq h.outputs_layout, ok_bind,
    List.getElem?_eq_none (not_lt.mp hj)] at htype
  cases htype

omit [Blake2b] in
/-- The search passes over a transaction without the script. -/
theorem findInTransaction_other {cellDeps inputs : Bytes}
    (h : RawLayout raw cellDeps inputs outputs outputsData)
    (hnone : ∀ j, outputType raw j ≠ .ok (some proposalScript)) :
    findInTransaction proposalScript raw = .ok none := by
  rw [findInTransaction, h.outputs_eq, ok_bind, h.outputsData_eq, ok_bind,
    DynVec.itemCount_eq h.outputs_layout, ok_bind, findRange_eq_none]
  intro j hj
  rw [Nat.zero_add]
  obtain ⟨typeScript, htype⟩ := outputType_ok h j
  exact proposalAt_other h.outputs_eq h.outputs_layout hj htype fun heq => hnone j (heq ▸ htype)

omit [Blake2b] in
/-- The search ends in a transaction with one output under the script. -/
theorem findInTransaction_script {cellDeps inputs : Bytes}
    (h : RawLayout raw cellDeps inputs outputs outputsData) {j : Nat} {content : Bytes}
    (htype : outputType raw j = .ok (some proposalScript))
    (hcontent : outputContent raw j = .ok (some content))
    (hone : ∀ j', outputType raw j' = .ok (some proposalScript) → j' = j) :
    findInTransaction proposalScript raw =
      .ok (some (fromCompatibleSlice ProposalReader.verify content).toOption) := by
  rw [findInTransaction, h.outputs_eq, ok_bind, h.outputsData_eq, ok_bind,
    DynVec.itemCount_eq h.outputs_layout, ok_bind, findRange_eq_some]
  have hj := lt_of_outputType h htype
  refine ⟨j, hj, ?_, fun j' hj' => ?_⟩
  · rw [Nat.zero_add]
    exact proposalAt_script h.outputs_eq h.outputsData_eq htype hcontent
  · rw [Nat.zero_add]
    obtain ⟨typeScript, htype'⟩ := outputType_ok h j'
    refine proposalAt_other h.outputs_eq h.outputs_layout (by omega) htype' fun heq => ?_
    have := hone j' (heq ▸ htype')
    omega

omit [Blake2b] in
/-- A search that ends in a transaction with a proposal ends at an output. -/
theorem output_of_findInTransaction {content : Bytes}
    (h : findInTransaction proposalScript raw = .ok (some (some content))) :
    ∃ j, outputType raw j = .ok (some proposalScript) ∧
      outputContent raw j = .ok (some content) := by
  obtain ⟨outputs, houtputs, h⟩ := bind_eq_ok.mp h
  obtain ⟨outputsData, hdata, h⟩ := bind_eq_ok.mp h
  obtain ⟨count, -, h⟩ := bind_eq_ok.mp h
  obtain ⟨j, -, hfound, -⟩ := findRange_eq_some.mp h
  exact ⟨0 + j, outputType_of_proposalAt houtputs hdata hfound⟩

omit [Blake2b] in
/-- The raw transactions of a block whose transactions have one. -/
theorem rawTransactions_of_layout {block : Bytes} (h : BlockLayout block)
    (hraw : ∀ tx ∈ transactionSlices block, TransactionReader.raw tx = .ok (part tx 0)) :
    rawTransactions block = .ok ((transactionSlices block).map fun tx => part tx 0) := by
  rw [rawTransactions, h.transactions_eq, ok_bind, DynVec.itemCount_eq h.transactions, ok_bind,
    readRange_eq_ok]
  refine ⟨List.length_map _, fun k hk => ?_⟩
  have hk' : k < (DynVec.items (part block 2)).length := by simpa [transactionSlices] using hk
  rw [Nat.zero_add, rawTransaction, DynVec.getUnchecked_eq h.transactions hk', ok_bind,
    hraw _ (List.getElem_mem hk'), List.getElem_map]
  rfl

omit [Blake2b] in
/-- The raw transactions of a verified block. -/
theorem rawTransactions_of_verify {block : Bytes} (h : BlockReader.verify true block = .ok ()) :
    rawTransactions block = .ok ((transactionSlices block).map fun tx => part tx 0) ∧
      ∀ tx ∈ transactionSlices block, RawTransactionReader.verify true (part tx 0) = .ok () := by
  obtain ⟨hlayout, -, htxs⟩ := blockReader_verify_eq_ok.mp h
  have hraws := fun tx htx => TransactionReader.raw_of_verify (htxs tx htx)
  exact ⟨rawTransactions_of_layout hlayout fun tx htx => (hraws tx htx).1,
    fun tx htx => (hraws tx htx).2⟩

omit [Blake2b] in
/-- The output at a position of a block, with its type script and data. -/
def OutputIn (block : Bytes) (k j : Nat) (typeScript content : Bytes) : Prop :=
  ∃ raws raw, rawTransactions block = .ok raws ∧ raws[k]? = some raw ∧
    outputType raw j = .ok (some typeScript) ∧ outputContent raw j = .ok (some content)

omit [Blake2b] in
/-- A type script that stands on one output of a block only. -/
def OnOneOutput (block typeScript : Bytes) : Prop :=
  ∀ raws, rawTransactions block = .ok raws → ∀ (k k' j j' : Nat) (raw raw' : Bytes),
    raws[k]? = some raw → outputType raw j = .ok (some typeScript) →
    raws[k']? = some raw' → outputType raw' j' = .ok (some typeScript) → k = k' ∧ j = j'

omit [Blake2b] in
/-- The guest finds the one output under the script. -/
theorem findProposal_of_one {blocks first content : Bytes} {k j : Nat}
    (hverify : BlockVecReader.verify true blocks = .ok ())
    (hfirst : (blockSlices blocks).head? = some first)
    (hout : OutputIn first k j proposalScript content) (hone : OnOneOutput first proposalScript)
    (hparse : ProposalReader.verify true content = .ok ()) :
    findProposal blocks proposalScript = .ok (some content) := by
  obtain ⟨hlayout, hblocks⟩ := DynVec.verify_eq_ok.mp hverify
  have hblock := hblocks first (List.mem_of_head? hfirst)
  obtain ⟨raws, raw, hraws, hraw, htype, hcontent⟩ := hout
  obtain ⟨hraws', hrawOk⟩ := rawTransactions_of_verify hblock
  obtain rfl := Except.ok.inj (hraws'.symm.trans hraws)
  obtain ⟨txs, htxs, hcount, hread⟩ := rawTransactions_eq_ok.mp hraws
  have hget : DynVec.get blocks 0 = .ok (some first) := by
    rw [DynVec.get_eq hlayout, ← List.head?_eq_getElem?]
    exact congrArg Except.ok hfirst
  have hsearch : ∀ (i : Nat) (raw' : Bytes),
      ((transactionSlices first).map fun tx => part tx 0)[i]? = some raw' →
      rawTransaction txs (0 + i) = .ok raw' ∧
        RawTransactionReader.verify true raw' = .ok () := by
    intro i raw' hi
    obtain ⟨hlt, rfl⟩ := List.getElem?_eq_some_iff.mp hi
    refine ⟨hread i hlt, ?_⟩
    rw [List.getElem_map]
    exact hrawOk _ (List.getElem_mem _)
  have hk := (List.getElem?_eq_some_iff.mp hraw).1
  have hfound : findRange (fun k => do
      let raw ← rawTransaction txs k
      findInTransaction proposalScript raw)
      ((transactionSlices first).map fun tx => part tx 0).length 0 = .ok (some (some content)) := by
    refine findRange_eq_some.mpr ⟨k, hk, ?_, fun i hi => ?_⟩
    · obtain ⟨hrawAt, hrawVerify⟩ := hsearch k raw hraw
      rw [hrawAt, ok_bind, findInTransaction_script (RawTransactionReader.layout_of_verify hrawVerify)
        htype hcontent fun j' htype' => (hone _ hraws k k j' j raw raw hraw htype' hraw htype).2,
        fromCompatibleSlice_eq_ok.mpr ⟨hparse, rfl⟩]
      rfl
    · have hlt : i < ((transactionSlices first).map fun tx => part tx 0).length := by omega
      obtain ⟨hrawAt, hrawVerify⟩ := hsearch i _ (List.getElem?_eq_getElem hlt)
      rw [hrawAt, ok_bind]
      refine findInTransaction_other (RawTransactionReader.layout_of_verify hrawVerify)
        fun j' htype' => ?_
      have := (hone _ hraws i k j' j _ raw (List.getElem?_eq_getElem hlt) htype' hraw htype).1
      omega
  rw [findProposal, hget, ok_bind]
  simp only [htxs, hcount, ok_bind, hfound, Option.getD_some]

omit [Blake2b] in
/-- A proposal that is found is an output with a script and a proposal as its
data. -/
theorem proposalInTransaction_eq_ok {tx data : Bytes} {j : Nat}
    (h : proposalInTransaction tx j = .ok (data, proposalScript)) :
    ∃ raw, TransactionReader.raw tx = .ok raw ∧ outputType raw j = .ok (some proposalScript) ∧
      outputContent raw j = .ok (some data) ∧ ProposalReader.verify false data = .ok () := by
  obtain ⟨raw, hraw, h⟩ := bind_eq_ok.mp h
  obtain ⟨outputs, houtputs, h⟩ := bind_eq_ok.mp h
  obtain ⟨output, houtput, h⟩ := bind_eq_ok.mp h
  rw [orPanic_eq_ok] at hraw houtputs houtput
  cases output with
  | none => cases h
  | some output =>
      obtain ⟨typeSlice, htypeSlice, h⟩ := bind_eq_ok.mp h
      rw [orPanic_eq_ok] at htypeSlice
      cases hopt : toOpt typeSlice with
      | none => simp [hopt] at h
      | some typeScript =>
          simp only [hopt] at h
          obtain ⟨outputsData, hdata, h⟩ := bind_eq_ok.mp h
          obtain ⟨datum, hdatum, h⟩ := bind_eq_ok.mp h
          rw [orPanic_eq_ok] at hdata hdatum
          cases datum with
          | none => cases h
          | some datum =>
              obtain ⟨content, hcontent, h⟩ := bind_eq_ok.mp h
              obtain ⟨proposal, hproposal, h⟩ := bind_eq_ok.mp h
              rw [orPanic_eq_ok] at hcontent
              obtain ⟨hverify, rfl⟩ := fromSlice_eq_ok.mp (orExit_eq_ok.mp hproposal)
              obtain ⟨rfl, rfl⟩ := Prod.mk.inj (Except.ok.inj h)
              refine ⟨raw, hraw, ?_, ?_, hverify⟩
              · rw [outputType, houtputs, ok_bind, houtput, ok_bind]
                simp only [htypeSlice, ok_bind, hopt]
              · rw [outputContent, hdata, ok_bind, hdatum, ok_bind]
                simp only [hcontent, ok_bind]

/-- A turn of the lookup that ends it has found the transaction. -/
theorem matchTransaction_eq_some {txs data : Bytes} {txHashBytes : Hash32} {j k : Nat}
    (hlayout : DynVec.Layout txs)
    (h : matchTransaction txs txHashBytes j k = .ok (some (data, proposalScript))) :
    ∃ tx, (DynVec.items txs)[k]? = some tx ∧
      proposalInTransaction tx j = .ok (data, proposalScript) := by
  obtain ⟨tx, htx, h⟩ := bind_eq_ok.mp h
  rw [orPanic_eq_ok, DynVec.get_eq hlayout] at htx
  cases tx with
  | none => cases h
  | some tx =>
      obtain ⟨hash, -, h⟩ := bind_eq_ok.mp h
      split_ifs at h with hsame
      · obtain ⟨found, hproposal, h⟩ := bind_eq_ok.mp h
        obtain rfl := Option.some.inj (Except.ok.inj h)
        exact ⟨tx, Except.ok.inj htx, hproposal⟩
      · cases h

/-- **The host's lookup.**  What it returns stands on an output of the first
block, and the proposal parses strictly. -/
theorem findProposalInFirstBlock_eq_ok {blockData data : Bytes} {txHashHex : List Char} {j : Nat}
    (h : findProposalInFirstBlock blockData txHashHex j = .ok (data, proposalScript)) :
    ∃ first k, (blockSlices blockData).head? = some first ∧
      OutputIn first k j proposalScript data ∧ ProposalReader.verify false data = .ok () := by
  unfold findProposalInFirstBlock at h
  cases hdecode : hexDecode (trimStartMatches txHashHex) with
  | none => simp [hdecode] at h
  | some decoded =>
      simp only [hdecode] at h
      obtain ⟨txHashBytes, -, h⟩ := bind_eq_ok.mp h
      obtain ⟨blockVec, hblockVec, h⟩ := bind_eq_ok.mp h
      obtain ⟨hverify, rfl⟩ := fromCompatibleSlice_eq_ok.mp (orExit_eq_ok.mp hblockVec)
      obtain ⟨hlayout, hblocks⟩ := DynVec.verify_eq_ok.mp hverify
      obtain ⟨firstBlock, hfirst, h⟩ := bind_eq_ok.mp h
      rw [orPanic_eq_ok, DynVec.get_eq hlayout, ← List.head?_eq_getElem?] at hfirst
      cases firstBlock with
      | none => cases h
      | some first =>
          have hhead := Except.ok.inj hfirst
          have hblock := hblocks first (List.mem_of_head? hhead)
          obtain ⟨hblockLayout, -, htxsOk⟩ := blockReader_verify_eq_ok.mp hblock
          obtain ⟨txs, htxs, h⟩ := bind_eq_ok.mp h
          rw [orPanic_eq_ok, hblockLayout.transactions_eq] at htxs
          obtain rfl := Except.ok.inj htxs
          obtain ⟨count, hcount, h⟩ := bind_eq_ok.mp h
          obtain ⟨found, hfound, h⟩ := bind_eq_ok.mp h
          cases found with
          | none => cases h
          | some found =>
              obtain rfl : found = (data, proposalScript) := Except.ok.inj h
              obtain ⟨k, -, hmatch, -⟩ := findRange_eq_some.mp hfound
              rw [Nat.zero_add] at hmatch
              obtain ⟨tx, hget, hproposal⟩ :=
                matchTransaction_eq_some hblockLayout.transactions hmatch
              obtain ⟨raw, hraw, htype, hcontent, hparse⟩ := proposalInTransaction_eq_ok hproposal
              have hverifyTx := htxsOk tx (List.mem_of_getElem? hget)
              rw [(TransactionReader.raw_of_verify hverifyTx).1] at hraw
              obtain rfl := Except.ok.inj hraw
              refine ⟨first, k, hhead, ⟨_, _, (rawTransactions_of_verify hblock).1, ?_, htype,
                hcontent⟩, hparse⟩
              rw [transactionSlices, List.getElem?_map, hget]
              rfl

/-! ## What the guest is given -/

/-- A block whose `transactions_root` is the one CKB computes. -/
def HonestRoot (block : Bytes) : Prop :=
  ∃ raws rawRoot witness root, rawTransactions block = .ok raws ∧
    merkleRoot (raws.map blake2b256) = .ok rawRoot ∧
    merkleRoot ((transactionSlices block).map witnessHash) = .ok witness ∧
    merkleRoot [rawRoot, witness] = .ok root ∧ root.val = rootField (headerSlice block)

/-- The arguments of the guest for a list of witness roots. -/
def guestArguments (blockData : Bytes) (roots : List Hash32) (proposalScript : Bytes) : Bytes :=
  GuestProgramArguments.newBuilder (buildBytes blockData)
    (buildFixVec (roots.map FixedBytes.val)) proposalScript

/-- The witness root is that of the witness hashes. -/
theorem witnessRootOf_eq {block : Bytes} (h : BlockLayout block) :
    witnessRootOf block = merkleRoot ((transactionSlices block).map witnessHash) := by
  have hread : readRange (fun k => DynVec.getUnchecked (part block 2) k >>= fun tx =>
      .ok (witnessHash tx)) (transactionSlices block).length 0 =
      .ok ((transactionSlices block).map witnessHash) :=
    readRange_map.mpr ⟨_, DynVec.readRange_getUnchecked h.transactions, rfl⟩
  rw [witnessRootOf, h.transactions_eq, ok_bind, DynVec.itemCount_eq h.transactions, ok_bind]
  exact (congrArg (· >>= merkleRoot) hread).trans rfl

omit [Blake2b] in
theorem length_guestArguments (blockData : Bytes) (roots : List Hash32) (script : Bytes) :
    (guestArguments blockData roots script).length =
      24 + blockData.length + 32 * roots.length + script.length := by
  have hroots :
      (roots.map FixedBytes.val).flatten.length = 32 * (roots.map FixedBytes.val).length :=
    length_flatten_of_length (by simp)
  rw [guestArguments, GuestProgramArguments.newBuilder, length_build]
  simp only [List.length_cons, List.length_nil, List.flatten_cons, List.flatten_nil,
    List.length_append, buildBytes, buildFixVec, length_leBytes, hroots, List.length_map]
  omega

omit [Blake2b] in
/-- The arguments, read back. -/
theorem guestArguments_fields {blockData script : Bytes} {roots : List Hash32}
    (h : (guestArguments blockData roots script).length < 2 ^ 32) :
    GuestProgramArgumentsReader.blocks (guestArguments blockData roots script) =
        .ok (buildBytes blockData) ∧
      GuestProgramArgumentsReader.witnessRoot (guestArguments blockData roots script) =
        .ok (buildFixVec (roots.map FixedBytes.val)) ∧
      GuestProgramArgumentsReader.proposalScript (guestArguments blockData roots script) =
        .ok script := by
  have hbuild : (build [buildBytes blockData, buildFixVec (roots.map FixedBytes.val),
    script]).length < 2 ^ 32 := h
  exact ⟨field_build (k := 0) hbuild (by simp), field_build (k := 1) hbuild (by simp),
    field_build (k := 2) hbuild (by simp)⟩

omit [Blake2b] in
/-- The arguments parse strictly when the script does. -/
theorem guestArguments_verify {blockData script : Bytes} {roots : List Hash32}
    (h : (guestArguments blockData roots script).length < 2 ^ 32)
    (hscript : ScriptReader.verify false script = .ok ()) :
    GuestProgramArgumentsReader.verify false (guestArguments blockData roots script) = .ok () := by
  have hlen := length_guestArguments blockData roots script
  have hbuild : (build [buildBytes blockData, buildFixVec (roots.map FixedBytes.val),
    script]).length < 2 ^ 32 := h
  have hblocks : BytesReader.verify false (buildBytes blockData) = .ok () :=
    BytesReader.verify_build false (by omega)
  have hroots : Byte32VecReader.verify false (buildFixVec (roots.map FixedBytes.val)) = .ok () :=
    Byte32VecReader.verify_build false (by simp) (by rw [List.length_map]; omega)
  exact verifyTable_build hbuild (by simp) (.cons hblocks (.cons hroots (.cons hscript .nil)))

/-- The host's arguments on verified blocks. -/
theorem prepareStdinReal_eq {blockData script : Bytes}
    (hverify : BlockVecReader.verify true blockData = .ok ())
    (hscript : ScriptReader.verify false script = .ok ())
    (hsize : 24 + blockData.length + 32 * (blockSlices blockData).length + script.length < 2 ^ 32) :
    ∃ roots : List Hash32, roots.length = (blockSlices blockData).length ∧
      (∀ (i : Nat) (hi : i < (blockSlices blockData).length) (hi' : i < roots.length),
        merkleRoot ((transactionSlices (blockSlices blockData)[i]).map witnessHash) =
          .ok roots[i]) ∧
      prepareStdinReal blockData script = .ok (guestArguments blockData roots script) := by
  have hshallow : verifyBlockVec true blockData = .ok () := (verifyBlockVec_of_verify hverify).1
  have hread : ∀ (i : Nat) (hi : i < (blockSlices blockData).length),
      (blockAt blockData (0 + i) >>= witnessRootOf) =
        merkleRoot ((transactionSlices (blockSlices blockData)[i]).map witnessHash) := by
    intro i hi
    rw [Nat.zero_add, blockAt_eq hshallow hi, ok_bind,
      witnessRootOf_eq (blockLayout_of_mem hshallow (List.getElem_mem hi))]
  obtain ⟨roots, hroots⟩ : ∃ roots, readRange (fun i => blockAt blockData i >>= witnessRootOf)
      (blockSlices blockData).length 0 = .ok roots := by
    refine exists_readRange fun i hi => ?_
    rw [hread i hi]
    exact merkleRoot_isOk _
  obtain ⟨hlen, hitems⟩ := readRange_eq_ok.mp hroots
  refine ⟨roots, hlen, fun i hi hi' => by rw [← hread i hi]; exact hitems i hi', ?_⟩
  have hbase : prepareGuestProgramArguments blockData =
      .ok (guestArguments blockData roots Script.default) := by
    rw [prepareGuestProgramArguments,
      expectOk_eq_ok.mpr (fromCompatibleSlice_eq_ok.mpr ⟨hverify, rfl⟩), ok_bind,
      itemCount_blocks hshallow, ok_bind]
    change (readRange (fun i => blockAt blockData i >>= witnessRootOf) _ 0 >>= _) = _
    rw [hroots]
    rfl
  have hdefault : Script.default.length = 53 := rfl
  have hscriptLen := ScriptReader.length_of_verify hscript
  have hbaseLen := length_guestArguments blockData roots Script.default
  have hbaseSize : (guestArguments blockData roots Script.default).length < 2 ^ 32 := by omega
  obtain ⟨hblocks, hwitness, -⟩ := guestArguments_fields hbaseSize
  rw [prepareStdinReal, hbase, ok_bind, hblocks, ok_bind, hwitness]
  rfl

omit [Blake2b] in
/-- The data of an output lies next to the header of its block. -/
theorem length_of_outputIn {blocks first content : Bytes} {k j : Nat}
    (hverify : BlockVecReader.verify true blocks = .ok ())
    (hfirst : (blockSlices blocks).head? = some first)
    (hout : OutputIn first k j proposalScript content) :
    208 + content.length ≤ blocks.length := by
  obtain ⟨hlayout, hblocks⟩ := DynVec.verify_eq_ok.mp hverify
  have hmem := List.mem_of_head? hfirst
  have hblock := hblocks first hmem
  obtain ⟨hblockLayout, -, htxs⟩ := blockReader_verify_eq_ok.mp hblock
  obtain ⟨raws, raw, hraws, hraw, -, hcontent⟩ := hout
  obtain ⟨hraws', hrawOk⟩ := rawTransactions_of_verify hblock
  obtain rfl := Except.ok.inj (hraws'.symm.trans hraws)
  obtain ⟨tx, htx, rfl⟩ := List.mem_map.mp (List.mem_of_getElem? hraw)
  obtain ⟨htxTable, htxCount, -, -⟩ := verifyTable_eq_ok.mp (htxs tx htx)
  obtain ⟨hrawTable, hrawCount, -, -⟩ := verifyTable_eq_ok.mp (hrawOk tx htx)
  have hrawLayout := RawTransactionReader.layout_of_verify (hrawOk tx htx)
  rw [outputContent, hrawLayout.outputsData_eq, ok_bind,
    DynVec.get_eq hrawLayout.outputsData_layout, ok_bind] at hcontent
  cases hdatum : (DynVec.items (part (part tx 0) 5))[j]? with
  | none => simp [hdatum] at hcontent
  | some datum =>
      have hdatumMem := List.mem_of_getElem? hdatum
      simp only [hdatum, rawData_ok (hrawLayout.data_ok datum hdatumMem), ok_bind,
        Except.ok.injEq, Option.some.injEq] at hcontent
      subst hcontent
      have hslice := length_slice (s := datum) (a := 4) (Nat.le_refl datum.length)
      have hdata := DynVec.length_le_of_mem_items hrawLayout.outputsData_layout hdatumMem
      have hrawLe := hrawTable.header_add_part_le (k := 5) hrawCount
      have htxLe := htxTable.header_add_part_le (k := 0) (Nat.lt_of_lt_of_le (by simp) htxCount)
      have htxsLe := DynVec.length_le_of_mem_items hblockLayout.transactions htx
      have hblockLe := hblockLayout.table.part_add_part_le (j := 0) (k := 2) (by decide)
        (Nat.lt_of_lt_of_le (by decide) hblockLayout.fields)
      have hheader := hblockLayout.header
      have hblocksLe := DynVec.length_le_of_mem_items hlayout hmem
      omega

/-- Linked blocks with the roots CKB computes pass the integrity check on the
witness roots of their transactions. -/
theorem verifyBlockIntegrity_of_honest {blocks : Bytes} {roots : List Hash32}
    (hverify : verifyBlockVec false blocks = .ok ()) (hne : blockSlices blocks ≠ [])
    (hlinks : Linked (blockSlices blocks)) (hroots : ∀ block ∈ blockSlices blocks, HonestRoot block)
    (hlen : roots.length = (blockSlices blocks).length) (hcount : roots.length < 2 ^ 32)
    (hrootAt : ∀ (i : Nat) (hi : i < (blockSlices blocks).length) (hi' : i < roots.length),
      merkleRoot ((transactionSlices (blockSlices blocks)[i]).map witnessHash) = .ok roots[i]) :
    verifyBlockIntegrity blocks (buildFixVec (roots.map FixedBytes.val)) = .ok (.ok ()) := by
  have hrootSize : ∀ root ∈ roots.map FixedBytes.val, root.length = 32 := by simp
  have hrootCount : (roots.map FixedBytes.val).length < 2 ^ 32 := by rwa [List.length_map]
  refine (verifyBlockIntegrity_ok hverify).mpr ⟨hne, hlinks, fun i hi => ?_⟩
  have hi' : i < roots.length := by omega
  obtain ⟨raws, rawRoot, witness, root, hraws, hrawRoot, hwitnessRoot, hroot, hfield⟩ :=
    hroots _ (List.getElem_mem hi)
  obtain rfl : roots[i] = witness := Except.ok.inj ((hrootAt i hi hi').symm.trans hwitnessRoot)
  obtain rfl : merge rawRoot roots[i] = root := Except.ok.inj hroot
  refine ⟨roots[i].val, _, ?_, calcTransactionsRoot_eq_ok.mpr
    ⟨raws, rawRoot, roots[i], hraws, hrawRoot, rfl, rfl⟩, hfield⟩
  rw [FixVec.get_eq (buildFixVec_layout hrootSize hrootCount),
    fixVec_items_build hrootSize hrootCount, List.getElem?_map, List.getElem?_eq_getElem hi']
  rfl

/-! ## The result -/

/-- **Honest inputs prove.**  On verified, non-empty, linked blocks with the
roots CKB computes, and a proposal that the host finds and whose script parses
and stands on no other output of the first block, the guest's run on the
host's bytes commits.  The committed bytes parse strictly and hold the cell's
data, its type script, and the hashes of the first and the last header. -/
theorem honest_inputs_prove {blockData data : Bytes} {txHashHex : List Char} {outputIndex : Nat}
    (hverify : BlockVecReader.verify true blockData = .ok ())
    (hne : blockSlices blockData ≠ [])
    (hlinks : Linked (blockSlices blockData))
    (hroots : ∀ block ∈ blockSlices blockData, HonestRoot block)
    (hfind : findProposalInFirstBlock blockData txHashHex outputIndex = .ok (data, proposalScript))
    (hscript : ScriptReader.verify false proposalScript = .ok ())
    (hone : ∀ first, (blockSlices blockData).head? = some first → OnOneOutput first proposalScript)
    (hsize : 24 + blockData.length + 32 * (blockSlices blockData).length + proposalScript.length <
      2 ^ 32) :
    ∃ argsBytes values firstBlock lastBlock,
      prepareStdinReal blockData proposalScript = .ok argsBytes ∧
      argsBytes.length =
        24 + blockData.length + 32 * (blockSlices blockData).length + proposalScript.length ∧
      (blockSlices blockData).head? = some firstBlock ∧
      (blockSlices blockData).getLast? = some lastBlock ∧
      guestMain argsBytes = .ok values ∧
      PublicValuesReader.verify false values = .ok () ∧
      PublicValuesReader.proposal values = .ok data ∧
      PublicValuesReader.proposalScript values = .ok proposalScript ∧
      PublicValuesReader.startBlockHash values = .ok (headerHash (headerSlice firstBlock)).val ∧
      PublicValuesReader.endBlockHash values = .ok (headerHash (headerSlice lastBlock)).val := by
  obtain ⟨firstBlock, k, hfirst, hout, hparse⟩ := findProposalInFirstBlock_eq_ok hfind
  obtain ⟨roots, hlen, hrootAt, hstdin⟩ := prepareStdinReal_eq hverify hscript hsize
  have hshallow : verifyBlockVec false blockData = .ok () := (verifyBlockVec_of_verify hverify).1
  have hargsLen := length_guestArguments blockData roots proposalScript
  rw [hlen] at hargsLen
  have hargsSize : (guestArguments blockData roots proposalScript).length < 2 ^ 32 := by omega
  obtain ⟨hblocks, hwitness, hscriptField⟩ := guestArguments_fields hargsSize
  -- the witness roots of the host are the ones the headers were built with
  have hintegrity := verifyBlockIntegrity_of_honest hshallow hne hlinks hroots hlen
    (by omega) hrootAt
  -- the guest finds by script what the host found by position
  have hfound := findProposal_of_one hverify hfirst hout (hone firstBlock hfirst)
    (ProposalReader.compatible_of_strict hparse)
  obtain ⟨result, hcount, hproposal⟩ := countVote_of_proposal hverify hfound hparse
  obtain ⟨_, lastBlock, hfirst', hlast, -⟩ := ends_eq hshallow hne
  have hrun : GuestRun (guestArguments blockData roots proposalScript) blockData
      (buildFixVec (roots.map FixedBytes.val)) proposalScript firstBlock lastBlock result :=
    ⟨guestArguments_verify hargsSize hscript,
      bind_eq_ok.mpr ⟨_, hblocks, rawData_buildBytes blockData⟩, hwitness, hscriptField, hshallow,
      hintegrity, hfirst, hlast, hcount⟩
  have hmain := guestMain_eq_ok.mpr ⟨_, _, _, _, _, _, hrun, rfl⟩
  have hdata := length_of_outputIn hverify hfirst hout
  have hpos := List.length_pos_iff.mpr hne
  have hvaluesSize : (publicValues result (headerHash (headerSlice firstBlock))
      (headerHash (headerSlice lastBlock)) proposalScript).length < 2 ^ 32 := by
    rw [length_publicValues, hproposal]
    omega
  obtain ⟨hpvProposal, hpvStart, hpvEnd, hpvScript, -⟩ := publicValues_fields hvaluesSize
  rw [hproposal] at hpvProposal
  exact ⟨_, _, firstBlock, lastBlock, hstdin, hargsLen, hfirst, hlast, hmain,
    publicValues_verify hvaluesSize (hproposal ▸ hparse) hscript, hpvProposal, hpvScript, hpvStart,
    hpvEnd⟩

end Code

namespace Sample

/-- The digests of the transactions of `chain` with their witnesses. -/
def witnessDigests : List (Bytes × Nat) := [
  (Transaction.newBuilder proposalTx [],
    0xef470094d74e03236b3b6c2896ca7b8a1bf931e06c303f6679f9d7ea1072f1cb),
  (Transaction.newBuilder vote1 [],
    0x5dde67ed0a60832f37325e15829127bc167952db3d1df51d72edf76d4496ab0f),
  (Transaction.newBuilder spend1 [],
    0xb13e3dd753bcccfa3ba9324ae85c64af4f081ffb08d50550d02123271cebbc0c),
  (mergeInput (digest 0x5dde67ed0a60832f37325e15829127bc167952db3d1df51d72edf76d4496ab0f)
    (digest 0xb13e3dd753bcccfa3ba9324ae85c64af4f081ffb08d50550d02123271cebbc0c),
    0x186a7829c41c62b0be7be5af1b83a8f9f209542a9e781dd863a1011c3b47df52)]

scoped instance hostBlake2b : Blake2b :=
  tableBlake2b (scriptDigests ++ chainDigests ++ witnessDigests)

def proposalTxHash : List Char :=
  "0x0ca0c58bce67fa9017258a3b5c8206179f57f7cfa87b3a4c925c2b00c9610463".toList

/-- What the host and the guest read in `chain`. -/
theorem chain_reads : BlockVecReader.verify true chain = .ok () ∧
    blockSlices chain = [block0 [], block1 []] ∧
    (headerHash header0).val = parentField header1 ∧
    headerSlice (block0 []) = header0 ∧ headerSlice (block1 []) = header1 ∧
    findProposalInFirstBlock chain proposalTxHash 0 = .ok (proposal, Sample.proposalScript) ∧
    ScriptReader.verify false Sample.proposalScript = .ok () ∧
    rawTransactions (block0 []) = .ok [proposalTx] ∧
    RawTransactionReader.verify true proposalTx = .ok () ∧
    (DynVec.items (part proposalTx 4)).length = 1 ∧
    24 + chain.length + 32 * (blockSlices chain).length + Sample.proposalScript.length <
      2 ^ 32 := by
  decide +kernel

/-- The roots of a block of `chain`, all computed from its transactions. -/
def RootsAre (block : Bytes) (raws : List Bytes) (rawRoot witness root : Hash32) : Prop :=
  rawTransactions block = .ok raws ∧ merkleRoot (raws.map blake2b256) = .ok rawRoot ∧
    merkleRoot ((transactionSlices block).map witnessHash) = .ok witness ∧
    merkleRoot [rawRoot, witness] = .ok root ∧ root.val = rootField (headerSlice block)

instance (block : Bytes) (raws : List Bytes) (rawRoot witness root : Hash32) :
    Decidable (RootsAre block raws rawRoot witness root) :=
  inferInstanceAs (Decidable (_ ∧ _ ∧ _ ∧ _ ∧ _))

/-- The roots of both blocks of the sample chain. -/
theorem chain_roots :
    RootsAre (block0 []) [proposalTx]
      (digest 0x0ca0c58bce67fa9017258a3b5c8206179f57f7cfa87b3a4c925c2b00c9610463) witnessRoot0
      (digest 0x680582d91319ea77411ec7c439c9fdde46356a5e88e48a9ac8b8e0934e1aa136) ∧
    RootsAre (block1 []) [vote1, spend1]
      (digest 0x662ac342957b036d5c6919b71ab98eaef2fcf363b957d7f93fd344098df9723b) witnessRoot1
      (digest 0x670b578fcc110c6d4b2ee03773d2bf5eed58ffe2faffae5c84839f8b67705af3) := by
  decide +kernel

/-- Both blocks have the root that CKB computes. -/
theorem chain_honestRoot (block : Bytes) (hblock : block ∈ [block0 [], block1 []]) :
    HonestRoot block := by
  rcases List.mem_pair.mp hblock with rfl | rfl
  · exact ⟨_, _, _, _, chain_roots.1⟩
  · exact ⟨_, _, _, _, chain_roots.2⟩

theorem chain_linked : Linked [block0 [], block1 []] := by
  intro i hi
  obtain ⟨-, -, hlink, hheader0, hheader1, -⟩ := chain_reads
  obtain rfl : i = 0 := Nat.lt_one_iff.mp (Nat.lt_of_succ_lt_succ hi)
  rw [← hheader0, ← hheader1] at hlink
  exact hlink

/-- The first block has the proposal script on one output. -/
theorem block0_onOneOutput : OnOneOutput (block0 []) Sample.proposalScript := by
  obtain ⟨-, -, -, -, -, -, -, hraw0, hproposal, houtputs, -⟩ := chain_reads
  intro raws hraws k k' j j' raw raw' hraw htype hraw' htype'
  obtain rfl := Except.ok.inj (hraw0.symm.trans hraws)
  have hlayout := RawTransactionReader.layout_of_verify hproposal
  have hzero : ∀ {k j : Nat} {raw : Bytes}, [proposalTx][k]? = some raw →
      outputType raw j = .ok (some Sample.proposalScript) → k = 0 ∧ j = 0 := by
    intro k j raw hraw htype
    obtain ⟨hk, rfl⟩ := List.getElem?_eq_some_iff.mp hraw
    obtain rfl : k = 0 := Nat.lt_one_iff.mp hk
    have hj := lt_of_outputType hlayout htype
    exact ⟨rfl, by omega⟩
  obtain ⟨rfl, rfl⟩ := hzero hraw htype
  obtain ⟨rfl, rfl⟩ := hzero hraw' htype'
  exact ⟨rfl, rfl⟩

end Sample

open Sample in
/-- The guest on what the host prepares for the sample chain. -/
theorem honest_inputs_prove_chain : ∃ argsBytes values firstBlock lastBlock,
    prepareStdinReal chain Sample.proposalScript = .ok argsBytes ∧
    argsBytes.length = 24 + chain.length + 32 * (blockSlices chain).length +
      Sample.proposalScript.length ∧
    (blockSlices chain).head? = some firstBlock ∧
    (blockSlices chain).getLast? = some lastBlock ∧
    guestMain argsBytes = .ok values ∧
    PublicValuesReader.verify false values = .ok () ∧
    PublicValuesReader.proposal values = .ok proposal ∧
    PublicValuesReader.proposalScript values = .ok Sample.proposalScript ∧
    PublicValuesReader.startBlockHash values = .ok (headerHash (headerSlice firstBlock)).val ∧
    PublicValuesReader.endBlockHash values = .ok (headerHash (headerSlice lastBlock)).val := by
  obtain ⟨hverify, hslices, -, -, -, hfind, hscript, -, -, -, hsize⟩ := chain_reads
  refine honest_inputs_prove hverify (hslices ▸ List.cons_ne_nil _ _) (hslices ▸ chain_linked)
    (hslices ▸ chain_honestRoot) hfind hscript ?_ hsize
  intro first hfirst
  rw [hslices] at hfirst
  obtain rfl := Option.some.inj hfirst
  exact block0_onOneOutput

end CkbVote
