import CkbVote.Window
import CkbVote.ShallowVerify

/-!
# Verified slices read without a panic

The unchecked accessors index whatever the header words say.  On a slice that
passed its verifier they return slices that passed theirs, so every read of
the guest program ends on a block vector that was verified in full.  On one
that was verified by `verify_block_vec` only, the reads down to the block
fields end, and nothing is known of the rest.
-/

namespace CkbVote

open Octets Molecule

variable {compatible : Bool} {s : Bytes}

/-! ## Accessors of verified tables -/

/-- The getters of a verified script read its parts. -/
theorem ScriptReader.fields_of_verify (h : ScriptReader.verify compatible s = .ok ()) :
    (ScriptReader.codeHash s = .ok (part s 0) ∧ (part s 0).length = 32) ∧
      (ScriptReader.hashType s = .ok (part s 1) ∧ (part s 1).length = 1) ∧
      ScriptReader.args s = .ok (part s 2) ∧ 4 ≤ (part s 2).length := by
  obtain ⟨hcode, hcodeOk⟩ := Table.field_of_verify h 0 (by simp)
  obtain ⟨htype, htypeOk⟩ := Table.field_of_verify h 1 (by simp)
  obtain ⟨hargs, hargsOk⟩ := Table.field_of_verify h 2 (by simp)
  have hargsLen := verifyFixVec_eq_ok.mp hargsOk
  exact ⟨⟨hcode, verifyFixed_eq_ok.mp hcodeOk⟩, ⟨htype, verifyFixed_eq_ok.mp htypeOk⟩, hargs,
    by omega⟩

/-- A script has a header of 16 bytes and fields of 37 bytes or more. -/
theorem ScriptReader.length_of_verify (h : ScriptReader.verify compatible s = .ok ()) :
    53 ≤ s.length := by
  obtain ⟨⟨-, hcode⟩, ⟨-, htype⟩, -, hargs⟩ := ScriptReader.fields_of_verify h
  obtain ⟨ht, hcount, -, -⟩ := verifyTable_eq_ok.mp h
  have hcount' : 3 ≤ headerCount s := hcount
  have hzero := ht.offsetAt_zero
  have hend := ht.offsetAt_le (k := 3) hcount'
  rw [ht.length_part (by omega)] at hcode htype hargs
  simp only [Nat.reduceAdd] at hcode htype hargs
  omega

/-- A script that parses strictly parses compatibly. -/
theorem ScriptReader.compatible_of_strict (h : ScriptReader.verify false s = .ok ()) :
    ScriptReader.verify true s = .ok () :=
  verifyTable_compatible rfl (fun _ hfields => hfields) h

/-- A proposal that parses strictly parses compatibly. -/
theorem ProposalReader.compatible_of_strict (h : ProposalReader.verify false s = .ok ()) :
    ProposalReader.verify true s = .ok () := by
  have hfields : ∀ t, verifyFields t
      [Uint32Reader.verify false, Byte32Reader.verify false, ByteReader.verify false,
        BytesReader.verify false, ScriptReader.verify false, Uint64Reader.verify false,
        Uint64Reader.verify false] 0 = .ok () →
      verifyFields t
      [Uint32Reader.verify true, Byte32Reader.verify true, ByteReader.verify true,
        BytesReader.verify true, ScriptReader.verify true, Uint64Reader.verify true,
        Uint64Reader.verify true] 0 = .ok () := by
    intro t hstrict
    simp only [verifyFields, bind_unit_eq_ok] at hstrict ⊢
    obtain ⟨hduration, hcode, htype, hdescription, hreceiver, hamount, hminimal, -⟩ := hstrict
    exact ⟨hduration, hcode, htype, hdescription, ScriptReader.compatible_of_strict hreceiver,
      hamount, hminimal, trivial⟩
  exact verifyTable_compatible (by rfl) hfields h

/-- The getters of a verified proposal read its parts. -/
theorem ProposalReader.fields_of_verify (h : ProposalReader.verify compatible s = .ok ()) :
    (ProposalReader.duration s = .ok (part s 0) ∧ (part s 0).length = 4) ∧
      ProposalReader.voteCellCodeHash s = .ok (part s 1) ∧
      ProposalReader.voteCellHashType s = .ok (part s 2) ∧
      ProposalReader.minimalRequirement s = .ok (part s 6) ∧ (part s 6).length = 8 := by
  obtain ⟨hduration, hdurationOk⟩ := Table.field_of_verify h 0 (by simp)
  obtain ⟨hcode, -⟩ := Table.field_of_verify h 1 (by simp)
  obtain ⟨htype, -⟩ := Table.field_of_verify h 2 (by simp)
  obtain ⟨hminimal, hminimalOk⟩ := Table.field_of_verify h 6 (by simp)
  exact ⟨⟨hduration, verifyFixed_eq_ok.mp hdurationOk⟩, hcode, htype, hminimal,
    verifyFixed_eq_ok.mp hminimalOk⟩

/-- The getters of a verified output read its parts, which verify in turn. -/
theorem CellOutputReader.fields_of_verify (h : CellOutputReader.verify compatible s = .ok ()) :
    (CellOutputReader.capacity s = .ok (part s 0) ∧ (part s 0).length = 8) ∧
      (CellOutputReader.lock s = .ok (part s 1) ∧
        ScriptReader.verify compatible (part s 1) = .ok ()) ∧
      CellOutputReader.type_ s = .ok (part s 2) ∧
      (part s 2 = [] ∨ ScriptReader.verify compatible (part s 2) = .ok ()) := by
  obtain ⟨hcapacity, hcapacityOk⟩ := Table.field_of_verify h 0 (by simp)
  obtain ⟨hlock, hlockOk⟩ := Table.field_of_verify h 1 (by simp)
  obtain ⟨htype, htypeOk⟩ := Table.field_of_verify h 2 (by simp)
  exact ⟨⟨hcapacity, verifyFixed_eq_ok.mp hcapacityOk⟩, ⟨hlock, hlockOk⟩, htype,
    verifyOption_eq_ok.mp htypeOk⟩

/-- The getters of a verified vote read its parts. -/
theorem VoteReader.fields_of_verify (h : VoteReader.verify compatible s = .ok ()) :
    (VoteReader.vote s = .ok (part s 0) ∧ (part s 0).length = 1) ∧
      (VoteReader.amount s = .ok (part s 1) ∧ (part s 1).length = 8) ∧
      VoteReader.daoIndex s = .ok (part s 2) ∧
      (part s 2).length = 4 + 2 * numberAt (part s 2) 0 := by
  obtain ⟨hvote, hvoteOk⟩ := Table.field_of_verify h 0 (by simp)
  obtain ⟨hamount, hamountOk⟩ := Table.field_of_verify h 1 (by simp)
  obtain ⟨hdao, hdaoOk⟩ := Table.field_of_verify h 2 (by simp)
  exact ⟨⟨hvote, verifyFixed_eq_ok.mp hvoteOk⟩, ⟨hamount, verifyFixed_eq_ok.mp hamountOk⟩, hdao,
    verifyFixVec_eq_ok.mp hdaoOk⟩

/-- What a verified raw transaction looks like to the counting code. -/
structure RawLayout (raw cellDeps inputs outputs outputsData : Bytes) : Prop where
  cellDeps_eq : RawTransactionReader.cellDeps raw = .ok cellDeps
  inputs_eq : RawTransactionReader.inputs raw = .ok inputs
  outputs_eq : RawTransactionReader.outputs raw = .ok outputs
  outputsData_eq : RawTransactionReader.outputsData raw = .ok outputsData
  cellDeps_len : cellDeps.length = 4 + 37 * numberAt cellDeps 0
  inputs_len : inputs.length = 4 + 44 * numberAt inputs 0
  outputs_layout : DynVec.Layout outputs
  outputsData_layout : DynVec.Layout outputsData
  output_ok : ∀ o ∈ DynVec.items outputs, ∃ c, CellOutputReader.verify c o = .ok ()
  data_ok : ∀ d ∈ DynVec.items outputsData, 4 ≤ d.length

/-- A verified raw transaction is laid out right. -/
theorem RawTransactionReader.layout_of_verify
    (h : RawTransactionReader.verify compatible s = .ok ()) :
    RawLayout s (part s 1) (part s 3) (part s 4) (part s 5) := by
  obtain ⟨hdeps, hdepsOk⟩ := Table.field_of_verify h 1 (by simp)
  obtain ⟨hinputs, hinputsOk⟩ := Table.field_of_verify h 3 (by simp)
  obtain ⟨houtputs, houtputsOk⟩ := Table.field_of_verify h 4 (by simp)
  obtain ⟨hdata, hdataOk⟩ := Table.field_of_verify h 5 (by simp)
  obtain ⟨houtputsLayout, houtputOk⟩ := DynVec.verify_eq_ok.mp houtputsOk
  obtain ⟨hdataLayout, hdatumOk⟩ := DynVec.verify_eq_ok.mp hdataOk
  refine ⟨hdeps, hinputs, houtputs, hdata, verifyFixVec_eq_ok.mp hdepsOk,
    verifyFixVec_eq_ok.mp hinputsOk, houtputsLayout, hdataLayout,
    fun o ho => ⟨compatible, houtputOk o ho⟩, fun d hd => ?_⟩
  have hlen := verifyFixVec_eq_ok.mp (hdatumOk d hd)
  omega

/-- The raw part of a verified transaction is read and verifies. -/
theorem TransactionReader.raw_of_verify (h : TransactionReader.verify compatible s = .ok ()) :
    TransactionReader.raw s = .ok (part s 0) ∧
      RawTransactionReader.verify compatible (part s 0) = .ok () :=
  Table.field_of_verify h 0 (by simp)

/-- The getter of the transactions reads part 2. -/
theorem BlockLayout.transactions_eq (h : BlockLayout s) :
    BlockReader.transactions s = .ok (part s 2) :=
  h.table.field_eq h.fields (by decide)

/-- The getter of the header reads the header slice. -/
theorem BlockLayout.header_eq (h : BlockLayout s) : BlockReader.header s = .ok (headerSlice s) :=
  h.table.field_eq h.fields (by decide)

/-- The blocks of a vector that `verify_block_vec` accepts. -/
theorem blockAt_eq (h : verifyBlockVec compatible s = .ok ()) {i : Nat}
    (hi : i < (blockSlices s).length) : blockAt s i = .ok (blockSlices s)[i] := by
  obtain ⟨hlayout, -⟩ := verifyBlockVec_eq_ok.mp h
  have hget : DynVec.get s i = .ok (some (blockSlices s)[i]) := by
    rw [← List.getElem?_eq_getElem hi]
    exact DynVec.get_eq hlayout i
  rw [blockAt, hget]
  rfl

/-- Each block of a verified vector is laid out right. -/
theorem blockLayout_of_mem (h : verifyBlockVec compatible s = .ok ()) {b : Bytes}
    (hb : b ∈ blockSlices s) : BlockLayout b :=
  (verifyBlockVec_eq_ok.mp h).2 b hb

/-- A verified vector counts its blocks. -/
theorem itemCount_blocks (h : verifyBlockVec compatible s = .ok ()) :
    itemCount s = .ok (blockSlices s).length :=
  DynVec.itemCount_eq (verifyBlockVec_eq_ok.mp h).1

/-- What the generated verifier accepts, the optimised one accepts. -/
theorem verifyBlockVec_of_verify (h : BlockVecReader.verify true s = .ok ()) :
    verifyBlockVec compatible s = .ok () ∧
      ∀ b ∈ blockSlices s, BlockReader.verify true b = .ok () := by
  obtain ⟨hlayout, hblocks⟩ := DynVec.verify_eq_ok.mp h
  exact ⟨verifyBlockVec_eq_ok.mpr
      ⟨hlayout, fun b hb => (blockReader_verify_eq_ok.mp (hblocks b hb)).1⟩,
    hblocks⟩

/-! ## A verified window reads -/

theorem fromLeBytes_ok {width : Nat} {message : String} {b : Bytes} (h : b.length = width) :
    fromLeBytes width message b = .ok (leNat b) := by
  rw [fromLeBytes, toFixed_ok _ h]
  rfl

theorem firstByte_ok {b : Bytes} (h : b.length = 1) : ∃ x, firstByte b = .ok x := by
  cases b with
  | nil => simp at h
  | cons x xs => exact ⟨x, rfl⟩

/-- The out point of an input is read without a panic. -/
theorem inputOutPoint_ok {inputs : Bytes} (h : inputs.length = 4 + 44 * numberAt inputs 0)
    {k : Nat} (hk : k < (FixVec.items 44 inputs).length) :
    ∃ op, inputOutPoint inputs k = .ok op := by
  have hitem := FixVec.getUnchecked_eq h hk
  have hlen := FixVec.length_of_mem_items h (List.getElem_mem hk)
  rw [inputOutPoint, hitem, ok_bind, CellInputReader.previousOutput,
    readSlice_ok (by omega) (by omega), ok_bind,
    toFixed_ok (n := 36) _ (by rw [length_slice (by omega)])]
  exact ⟨_, rfl⟩

/-- What an entry of `dao_index` names is read without a panic. -/
theorem namedOutPoint_ok {cellDeps daoIndex : Bytes}
    (hdeps : cellDeps.length = 4 + 37 * numberAt cellDeps 0)
    (hdao : daoIndex.length = 4 + 2 * numberAt daoIndex 0) {k : Nat}
    (hk : k < (FixVec.items 2 daoIndex).length) :
    ∃ named, namedOutPoint cellDeps daoIndex k = .ok named := by
  have hentry := FixVec.length_of_mem_items hdao (List.getElem_mem hk)
  rw [namedOutPoint, FixVec.getUnchecked_eq hdao hk, ok_bind, fromLeBytes_ok hentry, ok_bind,
    FixVec.get_eq hdeps, ok_bind]
  cases hdep : (FixVec.items 37 cellDeps)[leNat (FixVec.items 2 daoIndex)[k]]? with
  | none => exact ⟨none, rfl⟩
  | some dep =>
      have hlen := FixVec.length_of_mem_items hdeps (List.mem_of_getElem? hdep)
      simp only [CellDepReader.outPoint]
      rw [readSlice_ok (by omega) (by omega), ok_bind,
        toFixed_ok (n := 36) _ (by rw [length_slice (by omega)])]
      exact ⟨_, rfl⟩

/-- A verified vote is read without a panic. -/
theorem readVote_ok {cellDeps lock vote : Bytes}
    (hdeps : cellDeps.length = 4 + 37 * numberAt cellDeps 0)
    (hvote : VoteReader.verify compatible vote = .ok ()) :
    ∃ w, readVote cellDeps lock vote = .ok w := by
  obtain ⟨⟨hdirection, hdirectionLen⟩, ⟨hamount, hamountLen⟩, hdao, hdaoLen⟩ :=
    VoteReader.fields_of_verify hvote
  have hnamed : ∃ named, readNamed cellDeps (part vote 2) = .ok named := by
    rw [readNamed, FixVec.itemCount_eq hdaoLen, ok_bind]
    refine exists_ok_bind (exists_readRange fun i hi => ?_) fun named _ => ⟨_, rfl⟩
    rw [Nat.zero_add]
    exact namedOutPoint_ok hdeps hdaoLen hi
  rw [readVote, hdirection, ok_bind, hamount]
  refine exists_ok_bind (firstByte_ok hdirectionLen) fun direction _ => ?_
  rw [ok_bind, fromLeBytes_ok hamountLen, ok_bind, hdao, ok_bind]
  exact exists_ok_bind hnamed fun named _ => ⟨_, rfl⟩

/-- A verified script is compared without a panic. -/
theorem isVoteScript_ok (poll : Poll) {script : Bytes}
    (h : ScriptReader.verify compatible script = .ok ()) :
    ∃ b, isVoteScript poll script = .ok b := by
  obtain ⟨⟨hcode, -⟩, ⟨hhash, -⟩, hargs, hargsLen⟩ := ScriptReader.fields_of_verify h
  simp only [isVoteScript, hcode, hhash, hargs, ok_bind, rawData_ok hargsLen]
  split_ifs
  · exact ⟨_, rfl⟩
  · exact ⟨_, rfl⟩
  · exact ⟨_, rfl⟩

/-- The vote in an output, if any, is read without a panic. -/
theorem voteOutput_ok {poll : Poll} {raw cellDeps inputs outputs outputsData : Bytes}
    (h : RawLayout raw cellDeps inputs outputs outputsData) {j : Nat}
    (hj : j < (DynVec.items outputs).length) :
    ∃ w, voteOutput poll outputs outputsData j = .ok w := by
  obtain ⟨c, houtput⟩ := h.output_ok _ (List.getElem_mem hj)
  obtain ⟨-, ⟨hlock, -⟩, htype, hscript⟩ := CellOutputReader.fields_of_verify houtput
  rw [voteOutput, DynVec.get_eq h.outputs_layout, List.getElem?_eq_getElem hj, ok_bind]
  simp only [htype, ok_bind, hlock]
  by_cases hempty : part (DynVec.items outputs)[j] 2 = []
  · exact ⟨none, by simp [toOpt, hempty]⟩
  · obtain ⟨b, hb⟩ := isVoteScript_ok poll (hscript.resolve_left hempty)
    simp only [toOpt, hempty, if_false, hb, ok_bind, DynVec.get_eq h.outputsData_layout]
    cases b with
    | false => exact ⟨none, rfl⟩
    | true =>
        cases hdata : (DynVec.items outputsData)[j]? with
        | none => exact ⟨none, rfl⟩
        | some data =>
            simp only [if_true, rawData_ok (h.data_ok _ (List.mem_of_getElem? hdata)), ok_bind]
            cases fromCompatibleSlice VoteReader.verify (slice data 4 data.length) with
            | error e => exact ⟨none, rfl⟩
            | ok vote => exact ⟨_, rfl⟩

/-- A vote that `voteOutput` finds has verified as `Vote`. -/
theorem verify_of_voteOutput {poll : Poll} {outputs outputsData lock vote : Bytes} {j : Nat}
    (h : voteOutput poll outputs outputsData j = .ok (some (lock, vote))) :
    VoteReader.verify true vote = .ok () := by
  unfold voteOutput at h
  obtain ⟨output, -, h⟩ := bind_eq_ok.mp h
  cases output with
  | none => cases h
  | some output =>
      obtain ⟨typeSlice, -, h⟩ := bind_eq_ok.mp h
      cases hopt : toOpt typeSlice with
      | none => simp [hopt] at h
      | some typeScript =>
          simp only [hopt] at h
          obtain ⟨b, -, h⟩ := bind_eq_ok.mp h
          cases b with
          | false => cases h
          | true =>
              simp only [if_true] at h
              obtain ⟨data, -, h⟩ := bind_eq_ok.mp h
              cases data with
              | none => cases h
              | some data =>
                  obtain ⟨content, -, h⟩ := bind_eq_ok.mp h
                  cases hvote : fromCompatibleSlice VoteReader.verify content with
                  | error e => simp [hvote] at h
                  | ok found =>
                      simp only [hvote] at h
                      obtain ⟨lock', -, h⟩ := bind_eq_ok.mp h
                      cases h
                      obtain ⟨hok, rfl⟩ := fromCompatibleSlice_eq_ok.mp hvote
                      exact hok

/-- **A verified transaction is read** without a panic. -/
theorem readTx_ok {poll : Poll} {raw : Bytes}
    (hraw : RawTransactionReader.verify compatible raw = .ok ()) :
    ∃ tx, readTx poll raw = .ok tx := by
  have h := RawTransactionReader.layout_of_verify hraw
  rw [readTx, h.inputs_eq, ok_bind, FixVec.itemCount_eq h.inputs_len, ok_bind]
  refine exists_ok_bind (exists_readRange fun k hk => ?_) fun spent _ => ?_
  · rw [Nat.zero_add]
    exact inputOutPoint_ok h.inputs_len hk
  · rw [h.outputs_eq, ok_bind, h.outputsData_eq, ok_bind, h.cellDeps_eq, ok_bind,
      DynVec.itemCount_eq h.outputs_layout, ok_bind]
    refine exists_ok_bind (exists_readRange fun j hj => ?_) fun votes _ => ⟨_, rfl⟩
    rw [Nat.zero_add, readOutput]
    refine exists_ok_bind (voteOutput_ok h hj) fun vote hvote => ?_
    cases vote with
    | none => exact ⟨none, rfl⟩
    | some vote =>
        exact exists_ok_bind (readVote_ok h.cellDeps_len (verify_of_voteOutput hvote))
          fun w _ => ⟨some w, rfl⟩

/-- A verified block is read without a panic. -/
theorem readBlock_ok {poll : Poll} {block : Bytes}
    (hblock : BlockReader.verify true block = .ok ()) :
    ∃ txs, readBlock poll block = .ok txs := by
  obtain ⟨hlayout, -, htxs⟩ := blockReader_verify_eq_ok.mp hblock
  rw [readBlock, hlayout.transactions_eq, ok_bind, DynVec.itemCount_eq hlayout.transactions,
    ok_bind]
  refine exists_readRange fun k hk => ?_
  rw [Nat.zero_add, rawTransaction, DynVec.getUnchecked_eq hlayout.transactions hk, ok_bind]
  obtain ⟨hraw, hverify⟩ := TransactionReader.raw_of_verify (htxs _ (List.getElem_mem hk))
  rw [hraw, ok_bind]
  exact readTx_ok hverify

/-- **A block vector that verifies has a window.** -/
theorem window_of_verify {poll : Poll} {blocks : Bytes}
    (h : BlockVecReader.verify true blocks = .ok ()) : ∃ txs, window poll blocks = .ok txs := by
  obtain ⟨hlayout, hblocks⟩ := DynVec.verify_eq_ok.mp h
  rw [window, DynVec.itemCount_eq hlayout, ok_bind]
  refine exists_ok_bind (exists_readRange fun i hi => ?_) fun txs _ => ⟨_, rfl⟩
  rw [Nat.zero_add, blockAt, DynVec.get_eq hlayout, List.getElem?_eq_getElem hi, ok_bind]
  exact readBlock_ok (hblocks _ (List.getElem_mem hi))

end CkbVote
